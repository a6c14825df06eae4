import FlowRegions.Proofs.Files.Locating

/-!
# Paths as text

A path is passed on as text and read again where it is followed. The text of a path has the parts of
the path, and a name behind a path leads into the directory to which the path leads.
-/

namespace FlowRegions

namespace Path

/-- A part of a path is not empty and has no slashes. -/
def IsPart (part : String) : Prop :=
  part ≠ "" ∧ '/' ∉ part.toList

/-- A path as it is read from text: slashes at most for its root, and parts behind. -/
structure IsRead (p : Path) : Prop where
  root : ∀ c ∈ p.root.toList, c = '/'
  parts : ∀ part ∈ p.parts, IsPart part

theorem ne_nil_of_isPart {part : String} (h : IsPart part) : part.toList ≠ [] := by
  intro hnil
  exact h.1 (String.toList_eq_nil_iff.mp hnil)

/-! ### Components -/

theorem pieces_eq_splitOn (cs : List Char) : pieces cs = cs.splitOn '/' := by
  induction cs with
  | nil => rfl
  | cons c rest ih =>
      rw [pieces, ih, List.splitOn_cons_eq_if_modifyHead]
      cases hrest : rest.splitOn '/' with
      | nil => exact absurd hrest (List.splitOn_ne_nil '/' rest)
      | cons piece others => by_cases hc : c = '/' <;> simp [hc]

theorem not_mem_of_mem_pieces {cs piece : List Char} (h : piece ∈ pieces cs) : '/' ∉ piece := by
  induction cs generalizing piece with
  | nil => simp_all [pieces]
  | cons c rest ih =>
      rw [pieces] at h
      cases hrest : pieces rest with
      | nil =>
          rw [pieces_eq_splitOn] at hrest
          exact absurd hrest (List.splitOn_ne_nil '/' rest)
      | cons first others =>
          rw [hrest] at h ih
          dsimp only at h
          split at h
          · rcases List.mem_cons.mp h with rfl | h
            · exact List.not_mem_nil
            · exact ih h
          · next hc =>
              rcases List.mem_cons.mp h with rfl | h
              · have hfirst := ih List.mem_cons_self
                simp [hfirst, Ne.symm hc]
              · exact ih (List.mem_cons_of_mem _ h)

theorem isPart_of_mem_components {s part : String} (h : part ∈ components s) : IsPart part := by
  rw [components, List.mem_filter, List.mem_map] at h
  obtain ⟨⟨piece, hpiece, rfl⟩, hne⟩ := h
  refine ⟨of_decide_eq_true hne, ?_⟩
  rw [String.toList_ofList]
  exact not_mem_of_mem_pieces hpiece

theorem components_slashes_append {front : String} (h : ∀ c ∈ front.toList, c = '/') (s : String) :
    components (front ++ s) = components s := by
  have hpieces : ∀ cs : List Char, (∀ c ∈ cs, c = '/') → ∀ rest : List Char,
      ((pieces (cs ++ rest)).map String.ofList).filter (· ≠ "") =
        ((pieces rest).map String.ofList).filter (· ≠ "") := by
    intro cs hcs rest
    induction cs with
    | nil => rfl
    | cons c cs ih =>
        obtain ⟨rfl, hslashes⟩ := List.forall_mem_cons.mp hcs
        rw [List.cons_append, pieces_eq_splitOn, List.splitOn_cons_eq_if_modifyHead,
          ← pieces_eq_splitOn, if_pos (BEq.refl '/'), List.map_cons,
          List.filter_cons_of_neg (by simp)]
        exact ih hslashes
  rw [components, components, String.toList_append]
  exact hpieces front.toList h s.toList

theorem components_intercalate {parts : List String} (h : ∀ part ∈ parts, IsPart part) :
    components ("/".intercalate parts) = parts := by
  cases hparts : parts with
  | nil => rfl
  | cons part rest =>
      rw [← hparts]
      have hslash : "/".toList = ['/'] := rfl
      rw [components, pieces_eq_splitOn, String.toList_intercalate, hslash,
        List.splitOn_intercalate '/' _ (by simp [hparts]), List.map_map]
      · have hid : (String.ofList ∘ String.toList) = id := funext fun _ => String.ofList_toList
        rw [hid, List.map_id, List.filter_eq_self]
        intro part hpart
        exact decide_eq_true (h part hpart).1
      · intro cs hcs
        obtain ⟨part, hpart, rfl⟩ := List.mem_map.mp hcs
        exact (h part hpart).2

/-! ### Texts -/

theorem isRead_ofString (s : String) : IsRead (ofString s) where
  root := by
    intro c hc
    have hroot : (ofString s).root = "" ∨ (ofString s).root = "//" ∨ (ofString s).root = "/" := by
      rw [ofString, rootOf]
      dsimp only
      split
      · exact Or.inl rfl
      · exact Or.inr (Or.inl rfl)
      · exact Or.inr (Or.inr rfl)
    rcases hroot with h | h | h <;> simp_all
  parts := by
    intro part hpart
    rw [parts_ofString, partsOf] at hpart
    exact isPart_of_mem_components (List.mem_of_mem_filter hpart)

variable {p : Path} {name : String}

/-- The path of a name behind a path. -/
def push (p : Path) (name : String) : Path := { p with parts := p.parts ++ [name] }

theorem IsRead.push (h : p.IsRead) (hname : IsPart name) : (p.push name).IsRead where
  root := h.root
  parts := by
    intro part hpart
    rcases List.mem_append.mp hpart with hpart | hpart
    · exact h.parts part hpart
    · rwa [List.mem_singleton.mp hpart]

/-- A file name without slashes becomes the last part of the path that it is joined to. -/
theorem join_ofString (p : Path) (hname : IsPart name) (hdot : name ≠ ".") :
    p.join (ofString name) = p.push name := by
  have hroot : rootOf name = "" := by
    obtain ⟨c, cs, hcs⟩ := List.exists_cons_of_ne_nil (ne_nil_of_isPart hname)
    have hc : c ≠ '/' := by
      rintro rfl
      exact hname.2 (hcs ▸ List.mem_cons_self)
    rw [rootOf, hcs, List.takeWhile_cons_of_neg (by simpa using hc)]
    rfl
  have hcomponents : components name = [name] :=
    components_intercalate (List.forall_mem_singleton.mpr hname)
  have hparts : partsOf name = [name] := by
    rw [partsOf, hcomponents]
    exact List.filter_cons_of_pos (decide_eq_true hdot)
  rw [join, push, ofString, hroot, hparts]
  rfl

theorem text_of_empty (hroot : p.root = "") (hparts : p.parts = []) : p.text = "." := by
  rw [text, hroot, hparts]
  rfl

theorem text_eq (h : p.root ≠ "" ∨ p.parts ≠ []) :
    p.text = p.root ++ "/".intercalate p.parts := by
  rw [text, if_neg]
  simpa [List.isEmpty_iff, imp_iff_not_or] using h

theorem components_text (h : p.IsRead) (hne : p.root ≠ "" ∨ p.parts ≠ []) :
    components p.text = p.parts := by
  rw [text_eq hne, components_slashes_append h.root, components_intercalate h.parts]

/-- The text of a path begins with a slash exactly if the path has a root. -/
theorem head?_text_iff (h : p.IsRead) : p.text.toList.head? = some '/' ↔ p.root ≠ "" := by
  by_cases hroot : p.root = ""
  · cases hparts : p.parts with
    | nil => simp [text_of_empty hroot hparts, hroot]
    | cons part rest =>
        have hpart := h.parts part (hparts ▸ List.mem_cons_self)
        obtain ⟨c, cs, hcs⟩ := List.exists_cons_of_ne_nil (ne_nil_of_isPart hpart)
        have hc : c ≠ '/' := by
          rintro rfl
          exact hpart.2 (hcs ▸ List.mem_cons_self)
        have hhead : (("/".intercalate (part :: rest)).toList).head? = some c := by
          rw [String.toList_intercalate, List.map_cons, hcs]
          cases rest <;> simp [List.intercalate_cons_cons]
        rw [text_eq (Or.inr (by simp [hparts])), hroot, hparts, String.empty_append, hhead]
        simp [hc]
  · obtain ⟨c, cs, hcs⟩ := List.exists_cons_of_ne_nil (hroot ∘ String.toList_eq_nil_iff.mp)
    have hc : c = '/' := h.root c (hcs ▸ List.mem_cons_self)
    rw [text_eq (Or.inl hroot), String.toList_append, hcs, hc]
    simp [hroot]

theorem intercalate_append_singleton {sep last : List Char} {xs : List (List Char)} (h : xs ≠ []) :
    sep.intercalate (xs ++ [last]) = sep.intercalate xs ++ (sep ++ last) := by
  induction xs with
  | nil => exact absurd rfl h
  | cons x rest ih =>
      cases rest with
      | nil => simp [List.intercalate_cons_cons]
      | cons y rest =>
          rw [List.cons_append, List.cons_append, List.intercalate_cons_cons, ← List.cons_append,
            ih (List.cons_ne_nil y rest), List.intercalate_cons_cons]
          simp only [List.append_assoc]

/-- The text of a path with a name behind it goes on from the text of the path, unless that is a
dot for the working directory. -/
theorem text_push (h : p.IsRead) (name : String) :
    p.text = "." ∨ p.text ≠ "" ∧ ∃ rest, (p.push name).text = p.text ++ rest := by
  have hpush : (p.push name).text = p.root ++ "/".intercalate (p.parts ++ [name]) :=
    text_eq (Or.inr (by simp [push]))
  cases hparts : p.parts with
  | nil =>
      by_cases hroot : p.root = ""
      · exact Or.inl (text_of_empty hroot hparts)
      · have htext : p.text = p.root := by
          rw [text_eq (Or.inl hroot), hparts]
          exact String.append_empty
        refine Or.inr ⟨htext ▸ hroot, name, ?_⟩
        rw [hpush, hparts, htext]
        rfl
  | cons part rest =>
      have hne : p.parts ≠ [] := by
        rw [hparts]
        exact List.cons_ne_nil part rest
      have hnonempty : p.text ≠ "" := by
        intro hempty
        have hcomponents := components_text h (Or.inr hne)
        rw [hempty] at hcomponents
        exact hne hcomponents.symm
      refine Or.inr ⟨hnonempty, "/" ++ name, ?_⟩
      rw [hpush, text_eq (Or.inr hne)]
      apply String.toList_injective
      simp only [String.toList_append, String.toList_intercalate, List.map_append, List.map_cons,
        List.map_nil, List.append_assoc]
      rw [intercalate_append_singleton (by simpa using hne)]

end Path

namespace FileTree

variable {t : FileTree} {here : Location} {p : Path} {name : String}

theorem startOf_text (h : p.IsRead) (here : Location) :
    startOf here p.text = if p.root = "" then here else [] := by
  rw [startOf]
  by_cases hroot : p.root = ""
  · rw [if_neg ((Path.head?_text_iff h).not.mpr (not_not.mpr hroot)), if_pos hroot]
  · rw [if_pos ((Path.head?_text_iff h).mpr hroot), if_neg hroot]

theorem locateFrom_components_text (h : p.IsRead) (l : Location) :
    t.locateFrom l (Path.components p.text) = t.locateFrom l p.parts := by
  by_cases hne : p.root ≠ "" ∨ p.parts ≠ []
  · rw [Path.components_text h hne]
  · rw [not_or, not_not, not_not] at hne
    rw [Path.text_of_empty hne.1 hne.2, hne.2]
    exact if_pos rfl

theorem IsPathText.of_push (h : p.IsRead) (hpush : IsPathText (p.push name).text) :
    IsPathText p.text := by
  rcases Path.text_push h name with hdot | ⟨hne, rest, hrest⟩
  · rw [hdot]
    exact ⟨by decide, by decide, by decide⟩
  · obtain ⟨hnul, _, hsize⟩ := hpush
    rw [hrest] at hnul hsize
    refine ⟨?_, by simpa using hne, ?_⟩
    · rw [String.toList_append, List.contains_append, Bool.or_eq_false_iff] at hnul
      exact hnul.1
    · rw [String.utf8ByteSize_append] at hsize
      omega

/-- A name behind a path leads into the directory to which the path leads. -/
theorem find_push_eq_ok (hhere : t.HasDirectory here) (h : p.IsRead) (hname : Path.IsPart name)
    (hdot : name ≠ ".") (hdots : name ≠ "..") {l : Location}
    (hfind : t.find here (p.push name).text = .ok l) :
    ∃ d, t.find here p.text = .ok d ∧ t.HasDirectory d ∧ l = d ++ [name] := by
  obtain ⟨htext, hlocate⟩ := (find_eq_ok_iff hhere).mp hfind
  have hstart : startOf here (p.push name).text = startOf here p.text := by
    rw [startOf_text h, startOf_text (h.push hname)]
    rfl
  rw [hstart, locateFrom_components_text (h.push hname)] at hlocate
  obtain ⟨d, hd, hdirectory, hl⟩ :=
    locateFrom_append_singleton (hasDirectory_startOf hhere p.text) hdot hdots hlocate
  refine ⟨d, ?_, hdirectory, hl⟩
  rw [find_eq_ok_iff hhere, locateFrom_components_text h]
  exact ⟨htext.of_push h, hd⟩

end FileTree

end FlowRegions
