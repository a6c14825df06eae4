import FlowRegions.Proofs.Files.Contents

/-!
# Where paths lead

A path is followed through directories only, so where it leads stays the same as long as the
directories are kept. What an operation on files touches is told by where its path leads.
-/

namespace FlowRegions.FileTree

variable {t t' : FileTree} {here : Location}

/-- The location that components lead to from the directory at a location. -/
def locateFrom (t : FileTree) (l : Location) : List String → Except FileFault Location
  | [] => .ok l
  | part :: rest =>
    if part = "." then locateFrom t l rest
    else if part = ".." then locateFrom t l.dropLast rest
    else if maxNameBytes < part.utf8ByteSize then .error .nameTooLong
    else if rest.isEmpty then .ok (l ++ [part])
    else match t.get? (l ++ [part]) with
      | none => .error .noEntry
      | some (file _) => .error .notDirectory
      | some (directory _) => locateFrom t (l ++ [part]) rest

/-! ### Trails -/

/-- Every name of the trail leads on from where those before it led, to a directory. -/
def Trail.Sound (root : FileTree) : Trail → Prop
  | [] => root.HasDirectory []
  | (name, t) :: rest =>
    root.get? (Trail.location ((name, t) :: rest)) = some t ∧ (∃ entries, t = directory entries) ∧
      Sound root rest

@[simp] theorem Trail.location_nil : Trail.location [] = [] := rfl

@[simp] theorem Trail.location_cons (step : String × FileTree) (rest : Trail) :
    Trail.location (step :: rest) = Trail.location rest ++ [step.1] := by
  simp [Trail.location]

theorem Trail.location_tail (trail : Trail) :
    Trail.location trail.tail = (Trail.location trail).dropLast := by
  cases trail <;> simp

namespace Trail.Sound

variable {root : FileTree} {trail : Trail}

theorem get?_location (h : trail.Sound root) :
    ∃ entries, trail.place root = directory entries ∧
      root.get? trail.location = some (directory entries) := by
  cases trail with
  | nil =>
      obtain ⟨entries, hentries⟩ := h
      exact ⟨entries, Option.some.inj hentries, hentries⟩
  | cons step rest =>
      obtain ⟨hget, ⟨entries, hentries⟩, _⟩ := h
      exact ⟨entries, hentries, hentries ▸ hget⟩

theorem tail (h : trail.Sound root) : Trail.Sound root trail.tail := by
  cases trail with
  | nil => exact h
  | cons step rest => exact h.2.2

theorem child?_place (h : trail.Sound root) (name : String) :
    (trail.place root).child? name = root.get? (trail.location ++ [name]) := by
  obtain ⟨entries, hplace, hget⟩ := h.get?_location
  rw [get?_append, hget, hplace, Option.bind_some, get?]
  cases (directory entries).child? name <;> rfl

theorem walk (h : trail.Sound root) {rest : Location}
    (hrest : root.HasDirectory (trail.location ++ rest)) :
    Trail.Sound root (FileTree.walk root trail rest) ∧
      (FileTree.walk root trail rest).location = trail.location ++ rest := by
  induction rest generalizing trail with
  | nil => exact ⟨h, (List.append_nil _).symm⟩
  | cons name rest ih =>
      have hsplit : trail.location ++ name :: rest = (trail.location ++ [name]) ++ rest := by
        simp
      rw [hsplit] at hrest
      obtain ⟨entries, hentries⟩ := hrest.of_append
      have hchild := h.child?_place name
      rw [hentries] at hchild
      have hnext : Trail.Sound root ((name, directory entries) :: trail) := by
        refine ⟨?_, ⟨entries, rfl⟩, h⟩
        rw [Trail.location_cons]
        exact hentries
      rw [FileTree.walk, hchild]
      have hwalk := ih hnext (by rwa [Trail.location_cons])
      rwa [Trail.location_cons, List.append_assoc, List.singleton_append] at hwalk

theorem locate_eq (h : trail.Sound root) (parts : List String) :
    root.locate trail parts = root.locateFrom trail.location parts := by
  induction parts generalizing trail with
  | nil => rfl
  | cons part rest ih =>
      rw [locate, locateFrom, h.child?_place, ih h, ih h.tail, Trail.location_tail]
      cases hfound : root.get? (trail.location ++ [part]) with
      | none => rfl
      | some found =>
          cases found with
          | file content => rfl
          | directory entries =>
              have hnext : Trail.Sound root ((part, directory entries) :: trail) := by
                refine ⟨?_, ⟨entries, rfl⟩, h⟩
                rw [Trail.location_cons]
                exact hfound
              dsimp only
              rw [ih hnext, Trail.location_cons]

end Trail.Sound

/-! ### Finding -/

/-- Where the text of a path starts from. -/
def startOf (here : Location) (text : String) : Location :=
  if text.toList.head? = some '/' then [] else here

/-- Is a text a path at all, wherever it may lead? -/
def IsPathText (text : String) : Prop :=
  text.toList.contains '\x00' = false ∧ text.isEmpty = false ∧ text.utf8ByteSize ≤ maxPathBytes

theorem hasDirectory_startOf (h : t.HasDirectory here) (text : String) :
    t.HasDirectory (startOf here text) := by
  rw [startOf]
  split
  · exact h.root
  · exact h

/-- From a working directory that is there, a path is followed from location to location. -/
theorem find_eq_ok_iff (h : t.HasDirectory here) {text : String} {l : Location} :
    t.find here text = .ok l ↔
      IsPathText text ∧ t.locateFrom (startOf here text) (Path.components text) = .ok l := by
  have hroot : Trail.Sound t [] := h.root
  have hlocate : t.locate (if text.toList.head? = some '/' then [] else t.walk [] here)
      (Path.components text) = t.locateFrom (startOf here text) (Path.components text) := by
    rw [startOf]
    split
    · exact hroot.locate_eq _
    · obtain ⟨hsound, hlocation⟩ := hroot.walk h
      rw [hsound.locate_eq, hlocation]
      rfl
  rw [find, IsPathText]
  dsimp only
  rw [hlocate]
  cases text.toList.contains '\x00' with
  | true => simp
  | false =>
      cases text.isEmpty with
      | true => simp
      | false =>
          by_cases hlong : maxPathBytes < text.utf8ByteSize
          · simp [hlong, Nat.not_le_of_lt hlong]
          · simp only [hlong, Nat.le_of_not_lt hlong, Bool.false_eq_true, if_false, true_and]
            cases t.locateFrom (startOf here text) (Path.components text) <;> simp [Except.mapError]

theorem locateFrom_parent {l₀ l : Location} {parts : List String} (h₀ : t.HasDirectory l₀)
    (h : t.locateFrom l₀ parts = .ok l) :
    t.HasDirectory l ∨ ∃ parent name, l = parent ++ [name] ∧ t.HasDirectory parent := by
  induction parts generalizing l₀ with
  | nil =>
      cases h
      exact Or.inl h₀
  | cons part rest ih =>
      rw [locateFrom] at h
      split_ifs at h
      · exact ih h₀ h
      · exact ih h₀.dropLast h
      · cases h
        exact Or.inr ⟨l₀, part, rfl, h₀⟩
      · split at h
        · cases h
        · cases h
        · next entries hentries => exact ih ⟨entries, hentries⟩ h

theorem leadsTo_of_locateFrom {l₀ l : Location} {parts : List String} (h₀ : t.HasDirectory l₀)
    (h : t.locateFrom l₀ parts = .ok l) : t.leadsTo l = true := by
  rcases locateFrom_parent h₀ h with hl | ⟨parent, name, rfl, hparent⟩
  · exact hl.leadsTo
  · exact leadsTo_append_singleton hparent name

theorem leadsTo_of_find (hhere : t.HasDirectory here) {text : String} {l : Location}
    (h : t.find here text = .ok l) : t.leadsTo l = true :=
  leadsTo_of_locateFrom (hasDirectory_startOf hhere text) ((find_eq_ok_iff hhere).mp h).2

/-- Where directories are kept, paths lead where they led. -/
theorem locateFrom_of_keeps {touched : Location → Prop} (hkeeps : t.Keeps touched t')
    {l₀ l : Location} {parts : List String} (h : t.locateFrom l₀ parts = .ok l) :
    t'.locateFrom l₀ parts = .ok l := by
  induction parts generalizing l₀ with
  | nil => exact h
  | cons part rest ih =>
      rw [locateFrom] at h ⊢
      split_ifs at h ⊢
      · exact ih h
      · exact ih h
      · exact h
      · split at h
        · cases h
        · cases h
        · next entries hentries =>
            obtain ⟨entries', hentries'⟩ := hkeeps.directories _ ⟨entries, hentries⟩
            rw [hentries']
            exact ih h

theorem find_of_keeps {touched : Location → Prop} (hkeeps : t.Keeps touched t')
    (hhere : t.HasDirectory here) {text : String} {l : Location} (h : t.find here text = .ok l) :
    t'.find here text = .ok l := by
  rw [find_eq_ok_iff hhere] at h
  rw [find_eq_ok_iff (hkeeps.directories here hhere)]
  exact ⟨h.1, locateFrom_of_keeps hkeeps h.2⟩

/-- A name behind a path leads into the directory to which the path leads. -/
theorem locateFrom_append_singleton {l₀ l : Location} {parts : List String} {name : String}
    (h₀ : t.HasDirectory l₀) (hdot : name ≠ ".") (hdots : name ≠ "..")
    (h : t.locateFrom l₀ (parts ++ [name]) = .ok l) :
    ∃ d, t.locateFrom l₀ parts = .ok d ∧ t.HasDirectory d ∧ l = d ++ [name] := by
  induction parts generalizing l₀ with
  | nil =>
      rw [List.nil_append, locateFrom, if_neg hdot, if_neg hdots] at h
      split at h
      · cases h
      · rw [if_pos List.isEmpty_nil] at h
        cases h
        exact ⟨l₀, rfl, h₀, rfl⟩
  | cons part rest ih =>
      rw [List.cons_append, locateFrom] at h
      rw [locateFrom]
      by_cases hpart : part = "."
      · rw [if_pos hpart] at h ⊢
        exact ih h₀ h
      rw [if_neg hpart] at h ⊢
      by_cases hparts : part = ".."
      · rw [if_pos hparts] at h ⊢
        exact ih h₀.dropLast h
      rw [if_neg hparts] at h ⊢
      by_cases hlong : maxNameBytes < part.utf8ByteSize
      · rw [if_pos hlong] at h
        cases h
      rw [if_neg hlong] at h ⊢
      rw [if_neg (by simp)] at h
      split at h
      · cases h
      · cases h
      · next entries hentries =>
          have hnext := ih ⟨entries, hentries⟩ h
          cases rest with
          | nil => exact hnext
          | cons => rwa [if_neg (by simp)]

/-! ### Operations -/

/-- Writing touches the location of the path, which becomes a file with the content. -/
theorem write_eq_ok (hhere : t.HasDirectory here) {text : String} {content : ByteArray}
    (h : t.write here text content = .ok t') :
    ∃ l, t.find here text = .ok l ∧ ¬ t.HasDirectory l ∧ t'.content? l = some content ∧
      t.Keeps (· = l) t' := by
  rw [write] at h
  cases hfind : t.find here text with
  | error e =>
      rw [hfind] at h
      cases h
  | ok l =>
      rw [hfind] at h
      have hlead := leadsTo_of_find hhere hfind
      -- At a directory writing fails, so there is a file at the location or nothing.
      have hfree : ¬ t.HasDirectory l ∧ t' = t.put l (file content) := by
        cases hfound : t.get? l with
        | none =>
            simp only [hfound, bind, Except.bind, pure, Except.pure] at h
            exact ⟨not_hasDirectory_of_get?_eq_none hfound, (Except.ok.inj h).symm⟩
        | some found =>
            cases found with
            | directory entries =>
                simp only [hfound, bind, Except.bind] at h
                cases h
            | file old =>
                simp only [hfound, bind, Except.bind, pure, Except.pure] at h
                have hold := content?_eq_some_iff.mpr hfound
                exact ⟨not_hasDirectory_of_content? hold, (Except.ok.inj h).symm⟩
      obtain ⟨hfree, rfl⟩ := hfree
      exact ⟨l, rfl, hfree, content?_put_self hlead content, .put_file hlead hfree content⟩

theorem makeDirectory_keeps (hhere : t.HasDirectory here) {text : String}
    (h : t.makeDirectory here text = .ok t') : t.Keeps (fun _ => False) t' := by
  rw [makeDirectory] at h
  cases hfind : t.find here text with
  | error e =>
      rw [hfind] at h
      cases h
  | ok l =>
      rw [hfind] at h
      have hlead := leadsTo_of_find hhere hfind
      cases hfound : t.get? l with
      | none =>
          simp only [hfound, bind, Except.bind, pure, Except.pure] at h
          obtain rfl := Except.ok.inj h
          exact .put_directory hlead hfound
      | some found =>
          cases found with
          | directory entries =>
              simp only [hfound, bind, Except.bind, pure, Except.pure] at h
              obtain rfl := Except.ok.inj h
              exact .refl t _
          | file old =>
              simp only [hfound, bind, Except.bind] at h
              cases h

theorem attemptDirectory_keeps (hhere : t.HasDirectory here) (text : String) :
    t.Keeps (fun _ => False) (t.attemptDirectory here text).1 := by
  rw [attemptDirectory]
  cases hmake : t.makeDirectory here text with
  | ok t' => exact makeDirectory_keeps hhere hmake
  | error e => exact .refl t _

/-- Making a directory and those above it touches no file, also where it fails on the way. -/
theorem makeDirectories_keeps (hhere : t.HasDirectory here) (p : Path) (levels : Nat) :
    t.Keeps (fun _ => False) (t.makeDirectories here p levels).1 := by
  induction levels generalizing t p with
  | zero => exact attemptDirectory_keeps hhere p.text
  | succ levels ih =>
      have hfirst := attemptDirectory_keeps hhere p.text
      rw [makeDirectories]
      rcases hattempt : t.attemptDirectory here p.text with ⟨t', result⟩
      rw [hattempt] at hfirst
      have hhere' := hfirst.directories here hhere
      cases result with
      | ok => exact hfirst
      | error e =>
          dsimp only
          split
          · -- The directory is tried once more when those above it are made.
            have habove := hfirst.trans (ih hhere' p.parent)
            rcases hparent : t'.makeDirectories here p.parent levels with ⟨t'', result'⟩
            rw [hparent] at habove
            cases result' with
            | error e' => exact habove
            | ok =>
                exact habove.trans (attemptDirectory_keeps (habove.directories here hhere) p.text)
          · exact hfirst

theorem read_eq_ok_iff {text : String} {content : ByteArray} :
    t.read here text = .ok content ↔
      ∃ l, t.find here text = .ok l ∧ t.content? l = some content := by
  rw [read, stat]
  cases hfind : t.find here text with
  | error e => simp [bind, Except.bind]
  | ok l =>
      cases hfound : t.get? l with
      | none => simp [content?, hfound, bind, Except.bind]
      | some found =>
          cases found <;> simp [content?, hfound, bind, Except.bind, pure, Except.pure]

end FlowRegions.FileTree
