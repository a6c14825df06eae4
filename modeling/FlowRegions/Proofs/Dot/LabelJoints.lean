import FlowRegions.Proofs.Dot.LabelLines

/-!
# Joints of labels

Two texts behind each other are escaped one by one, unless a backslash at the end of the first meets
a character that it is read together with at the beginning of the second. The lines of a block label
meet nothing but the ends of lines, so each of them is escaped as if it stood alone, and the label
that is a name alone is escaped to the beginning of the full one.
-/

namespace FlowRegions

theorem Block.fullLabel_eq_displayName_append (index : Nat) (block : Block) :
    block.fullLabel index = block.displayName index ++ (":\\l" ++
      String.join ((block.instructions.map ("  " ++ ·)).map (· ++ "\\l"))) := by
  simp [fullLabel, String.append_assoc]

namespace Dot

/-- A backslash at the end of the first text is read together with the beginning of the second. -/
def Joins (first second : String) : Prop :=
  first.toList.getLast? = some '\\' ∧ ∃ c ∈ second.toList.head?, c = 'l' ∨ isEscapable c = true

/-- What a backslash begins is escaped apart from whatever stands before it. -/
theorem escapeChars_append_backslash (first rest : List Char) :
    escapeChars (first ++ '\\' :: rest) = escapeChars first ++ escapeChars ('\\' :: rest) := by
  apply escapeChars_append
  rintro _ _ ⟨⟩
  decide

theorem escapeChars_append_iff {first second : List Char} :
    escapeChars (first ++ second) = escapeChars first ++ escapeChars second ↔
      (first.getLast? = some '\\' → ∀ c ∈ second.head?, c ≠ 'l' ∧ isEscapable c = false) := by
  constructor
  · intro heq hlast c hc
    obtain ⟨init, rfl⟩ := List.getLast?_eq_some_iff.mp hlast
    obtain ⟨rest, rfl⟩ := List.head?_eq_some_iff.mp hc
    -- Escaped apart, the backslash is doubled, and this is not what comes of it in front of `c`.
    have halone : escapeChars ['\\'] = ['\\', '\\'] := rfl
    rw [List.append_assoc, List.singleton_append, escapeChars_append_backslash,
      escapeChars_append_backslash, List.append_assoc, List.append_cancel_left_eq, halone] at heq
    have hl : c ≠ 'l' := by
      rintro rfl
      rw [escapeChars] at heq
      cases heq
    refine ⟨hl, ?_⟩
    cases hescapable : isEscapable c with
    | false => rfl
    | true =>
        rw [escapeChars.eq_3 _ _ hl, if_pos hescapable] at heq
        obtain rfl : c = '\\' := (List.cons.inj (List.cons.inj heq).2).1
        exact hescapable.symm
  · exact escapeChars_append

theorem escape_append_iff {first second : String} :
    escape (first ++ second) = escape first ++ escape second ↔ ¬ Joins first second := by
  rw [← String.toList_inj, String.toList_append, toList_escape, toList_escape, toList_escape,
    String.toList_append, escapeChars_append_iff, Joins]
  simp

theorem escape_fullLabel (index : Nat) (block : Block) : escape (block.fullLabel index) =
    String.join ((block.labelLines index).map fun line => escape line ++ "\\l") := by
  rw [← String.toList_inj, toList_escape, Block.toList_fullLabel, escapeChars_flatMap_lines,
    String.toList_join, List.flatMap_map]
  simp [toList_escape]

/-- Texts are escaped one by one exactly if no backslash joins them. A block label is escaped line by
line, the name and then the instructions, each with its end behind it, and what is escaped of the
name alone is the beginning of it. -/
theorem escape_line_by_line :
    (∀ first second : String,
      escape (first ++ second) = escape first ++ escape second ↔ ¬ Joins first second) ∧
    ∀ (index : Nat) (block : Block),
      escape (block.fullLabel index) = String.join (((block.displayName index ++ ":") ::
        block.instructions.map ("  " ++ ·)).map fun line => escape line ++ "\\l") ∧
      ∃ rest, escape (block.fullLabel index) = escape (block.displayName index) ++ rest := by
  refine ⟨fun _ _ => escape_append_iff, fun index block => ⟨escape_fullLabel index block, ?_⟩⟩
  rw [Block.fullLabel_eq_displayName_append, escape_append_iff.mpr]
  · exact ⟨_, rfl⟩
  · rintro ⟨_, c, hc, hjoins⟩
    obtain rfl : ':' = c := by simpa using hc
    revert hjoins
    decide

end Dot

end FlowRegions
