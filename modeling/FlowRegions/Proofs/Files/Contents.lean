import FlowRegions.Files.Tree
import Mathlib.Data.List.Infix

/-!
# What a file tree holds

A file tree is known by where its directories are and by what its files hold. A step of a program
keeps the directories, and it keeps the files but for those that it touches.
-/

namespace FlowRegions.FileTree

variable {t t' : FileTree}

/-- The content of the file at a location, if there is one. -/
def content? (t : FileTree) (l : Location) : Option ByteArray :=
  (t.get? l).bind fun
    | file content => some content
    | directory _ => none

def HasDirectory (t : FileTree) (l : Location) : Prop :=
  ∃ entries, t.get? l = some (directory entries)

theorem content?_eq_some_iff {l : Location} {content : ByteArray} :
    t.content? l = some content ↔ t.get? l = some (file content) := by
  rw [content?, Option.bind_eq_some_iff]
  constructor
  · rintro ⟨found, hfound, hcontent⟩
    cases found with
    | file content' =>
        obtain rfl := Option.some.inj hcontent
        exact hfound
    | directory entries => cases hcontent
  · intro hfound
    exact ⟨_, hfound, rfl⟩

theorem not_hasDirectory_of_content? {l : Location} {content : ByteArray}
    (h : t.content? l = some content) : ¬ t.HasDirectory l := by
  rintro ⟨entries, hdirectory⟩
  rw [content?_eq_some_iff, hdirectory] at h
  cases h

theorem not_hasDirectory_of_get?_eq_none {l : Location} (h : t.get? l = none) :
    ¬ t.HasDirectory l := by
  rintro ⟨entries, hentries⟩
  rw [h] at hentries
  cases hentries

/-! ### Going on from a location -/

theorem get?_append (t : FileTree) (l behind : Location) :
    t.get? (l ++ behind) = (t.get? l).bind (·.get? behind) := by
  induction l generalizing t with
  | nil => rfl
  | cons name rest ih =>
      rw [List.cons_append, get?, get?]
      cases t.child? name with
      | none => rfl
      | some child => exact ih child

theorem get?_file_cons (content : ByteArray) (name : String) (rest : Location) :
    (file content).get? (name :: rest) = none := rfl

theorem hasDirectory_of_get?_append {l : Location} {name : String} {rest : Location}
    {found : FileTree} (h : t.get? (l ++ name :: rest) = some found) : t.HasDirectory l := by
  rw [get?_append] at h
  obtain ⟨middle, hmiddle, hrest⟩ := Option.bind_eq_some_iff.mp h
  cases middle with
  | file content => rw [get?_file_cons] at hrest; cases hrest
  | directory entries => exact ⟨entries, hmiddle⟩

theorem HasDirectory.of_append {l behind : Location} (h : t.HasDirectory (l ++ behind)) :
    t.HasDirectory l := by
  cases behind with
  | nil => rwa [List.append_nil] at h
  | cons name rest =>
      obtain ⟨entries, hentries⟩ := h
      exact hasDirectory_of_get?_append hentries

theorem HasDirectory.root {l : Location} (h : t.HasDirectory l) : t.HasDirectory [] := by
  rw [← List.nil_append l] at h
  exact h.of_append

theorem HasDirectory.dropLast {l : Location} (h : t.HasDirectory l) :
    t.HasDirectory l.dropLast := by
  obtain ⟨behind, hbehind⟩ := List.dropLast_prefix l
  rw [← hbehind] at h
  exact h.of_append

theorem leadsTo_append_singleton {l : Location} (h : t.HasDirectory l) (name : String) :
    t.leadsTo (l ++ [name]) = true := by
  induction l generalizing t with
  | nil =>
      obtain ⟨entries, hentries⟩ := h
      obtain rfl := Option.some.inj hentries
      rw [List.nil_append, leadsTo]
      cases entries.lookup name <;> rfl
  | cons first rest ih =>
      obtain ⟨entries, hentries⟩ := h
      cases t with
      | file content => cases hentries
      | directory below =>
          rw [List.cons_append, leadsTo]
          rw [get?, child?] at hentries
          cases hchild : below.lookup first with
          | none => rfl
          | some child =>
              rw [hchild] at hentries
              exact ih ⟨entries, hentries⟩

theorem HasDirectory.leadsTo {l : Location} (h : t.HasDirectory l) : t.leadsTo l = true := by
  rcases List.eq_nil_or_concat' l with rfl | ⟨front, name, rfl⟩
  · cases t <;> rfl
  · exact leadsTo_append_singleton h.of_append name

/-! ### Putting -/

theorem get?_put_append {l : Location} (h : t.leadsTo l = true) (new : FileTree)
    (behind : Location) : (t.put l new).get? (l ++ behind) = new.get? behind := by
  rw [get?_append, get?_put_self h, Option.bind_some]

/-- Putting something at a location keeps the files that are neither there nor behind it. -/
theorem content?_put_of_not_prefix {l l' : Location} (h : ¬ l <+: l') (new : FileTree) :
    (t.put l new).content? l' = t.content? l' := by
  induction l generalizing t l' with
  | nil => exact absurd List.nil_prefix h
  | cons name rest ih =>
      cases l' with
      | nil => cases t <;> rfl
      | cons other behind =>
          by_cases hname : other = name
          · subst hname
            have hrest : ¬ rest <+: behind := by
              intro hprefix
              exact h (List.cons_prefix_cons.mpr ⟨rfl, hprefix⟩)
            cases t with
            | file content => rfl
            | directory entries =>
                have hchild := ih (t := ((directory entries).child? other).getD (directory []))
                  hrest
                rw [content?, content?] at hchild ⊢
                rw [put, get?, child?_setChild_self, get?]
                refine hchild.trans ?_
                cases (directory entries).child? other with
                | some child => rfl
                | none => cases behind <;> rfl
          · rw [content?, content?, get?_put_of_ne t hname]

theorem HasDirectory.put_of_not_prefix {l l' : Location} (hl : t.HasDirectory l')
    (h : ¬ l <+: l') (new : FileTree) : (t.put l new).HasDirectory l' := by
  induction l generalizing t l' with
  | nil => exact absurd List.nil_prefix h
  | cons name rest ih =>
      obtain ⟨entries, hentries⟩ := hl
      cases l' with
      | nil =>
          obtain rfl := Option.some.inj hentries
          exact ⟨_, rfl⟩
      | cons other behind =>
          by_cases hname : other = name
          · subst hname
            have hrest : ¬ rest <+: behind := by
              intro hprefix
              exact h (List.cons_prefix_cons.mpr ⟨rfl, hprefix⟩)
            cases t with
            | file content => cases hentries
            | directory below =>
                cases hchild : (directory below).child? other with
                | none => rw [get?, hchild] at hentries; cases hentries
                | some child =>
                    rw [get?, hchild] at hentries
                    rw [HasDirectory, put, get?, child?_setChild_self, hchild]
                    exact ih ⟨entries, hentries⟩ hrest
          · rw [HasDirectory, get?_put_of_ne t hname]
            exact ⟨entries, hentries⟩

/-! ### Frames -/

/-- From one tree to the other the directories are kept, and the files but for those touched. -/
structure Keeps (t : FileTree) (touched : Location → Prop) (t' : FileTree) : Prop where
  directories : ∀ l, t.HasDirectory l → t'.HasDirectory l
  contents : ∀ l, ¬ touched l → t'.content? l = t.content? l

namespace Keeps

variable {touched touched' : Location → Prop} {t'' : FileTree}

theorem refl (t : FileTree) (touched : Location → Prop) : t.Keeps touched t :=
  ⟨fun _ h => h, fun _ _ => rfl⟩

theorem trans (h : t.Keeps touched t') (h' : t'.Keeps touched t'') : t.Keeps touched t'' where
  directories l hl := h'.directories l (h.directories l hl)
  contents l hl := (h'.contents l hl).trans (h.contents l hl)

theorem mono (h : t.Keeps touched t') (hle : ∀ l, touched l → touched' l) :
    t.Keeps touched' t' where
  directories := h.directories
  contents l hl := h.contents l (hl ∘ hle l)

/-- Where no directory was, what is put touches one location if nothing can stand behind it. -/
theorem put {l : Location} (hlead : t.leadsTo l = true) (hfree : ¬ t.HasDirectory l)
    {new : FileTree} (hnew : ∀ name rest, new.content? (name :: rest) = none) :
    t.Keeps (· = l) (t.put l new) where
  directories l' hl' := by
    refine hl'.put_of_not_prefix ?_ new
    rintro ⟨behind, rfl⟩
    exact hfree hl'.of_append
  contents l' hl' := by
    by_cases hprefix : l <+: l'
    · obtain ⟨behind, rfl⟩ := hprefix
      cases behind with
      | nil => exact absurd (List.append_nil l) hl'
      | cons name rest =>
          rw [content?, get?_put_append hlead, ← content?, hnew, content?]
          cases hfound : t.get? (l ++ name :: rest) with
          | none => rfl
          | some found => exact absurd (hasDirectory_of_get?_append hfound) hfree
    · exact content?_put_of_not_prefix hprefix new

theorem put_file {l : Location} (hlead : t.leadsTo l = true) (hfree : ¬ t.HasDirectory l)
    (content : ByteArray) : t.Keeps (· = l) (t.put l (file content)) :=
  put hlead hfree fun _ _ => rfl

theorem put_directory {l : Location} (hlead : t.leadsTo l = true) (hnone : t.get? l = none) :
    t.Keeps (fun _ => False) (t.put l (directory [])) := by
  have hput : t.Keeps (· = l) (t.put l (directory [])) :=
    put hlead (not_hasDirectory_of_get?_eq_none hnone) fun _ _ => rfl
  refine ⟨hput.directories, fun l' _ => ?_⟩
  by_cases hl' : l' = l
  · subst hl'
    rw [content?, content?, get?_put_self hlead, hnone]
    rfl
  · exact hput.contents l' hl'

end Keeps

theorem content?_put_self {l : Location} (hlead : t.leadsTo l = true) (content : ByteArray) :
    (t.put l (file content)).content? l = some content := by
  rw [content?_eq_some_iff, get?_put_self hlead]

end FlowRegions.FileTree
