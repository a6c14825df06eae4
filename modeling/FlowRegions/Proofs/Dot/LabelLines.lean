import FlowRegions.Cfg
import FlowRegions.Proofs.Dot.LabelUnits
import Mathlib.Algebra.Order.Ring.Nat
import Mathlib.Data.List.Forall2

/-!
# Lines of block labels

The label of a block has a line for its name and one for each instruction, each ended by `\l`. These
ends stay what they are when the label is escaped, so that the label can be escaped line by line. A
line break in a text becomes `\n`, and a `\l` in it cannot be told from the end of a line, so these
add breaks of their own.
-/

namespace FlowRegions

/-- The lines of the full label, without their ends. -/
def Block.labelLines (index : Nat) (block : Block) : List String :=
  (block.displayName index ++ ":") :: block.instructions.map ("  " ++ ·)

theorem Block.toList_fullLabel (index : Nat) (block : Block) : (block.fullLabel index).toList =
    (block.labelLines index).flatMap fun line => line.toList ++ ['\\', 'l'] := by
  simp [fullLabel, labelLines, String.toList_join, List.flatMap_map]

namespace Dot

/-! ### Escaping piece by piece -/

theorem escapeChars_of_ne {c : Char} (h : c ≠ '\\') (rest : List Char) :
    escapeChars (c :: rest) = escapeChar c ++ escapeChars rest :=
  escapeChars.eq_4 _ _ (fun _ heq => absurd heq h) fun _ _ heq => absurd heq h

theorem escapeChars_backslash {rest : List Char}
    (h : ∀ c ∈ rest.head?, c ≠ 'l' ∧ isEscapable c = false) :
    escapeChars ('\\' :: rest) = '\\' :: '\\' :: escapeChars rest := by
  cases rest with
  | nil => rfl
  | cons c rest =>
      obtain ⟨hl, hescapable⟩ := h c rfl
      rw [escapeChars.eq_3 _ _ hl, hescapable]
      rfl

/-- Two texts are escaped one by one, unless the look-ahead joins a backslash at the end of the
first with the second. -/
theorem escapeChars_append {first second : List Char}
    (h : first.getLast? = some '\\' → ∀ c ∈ second.head?, c ≠ 'l' ∧ isEscapable c = false) :
    escapeChars (first ++ second) = escapeChars first ++ escapeChars second := by
  induction first using escapeChars.induct with
  | case1 => rfl
  | case2 rest ih =>
      have hrest := ih fun hlast => h (by simp [List.getLast?_cons, hlast])
      rw [List.cons_append, List.cons_append, escapeChars, escapeChars, hrest]
      rfl
  | case3 c rest hl hescapable ih =>
      have hrest := ih fun hlast => h (by simp [List.getLast?_cons, hlast])
      rw [List.cons_append, List.cons_append, escapeChars.eq_3 _ _ hl, escapeChars.eq_3 _ _ hl,
        if_pos hescapable, if_pos hescapable, hrest]
      rfl
  | case4 c rest hl hescapable ih =>
      have hrest := ih fun hlast => h (by simpa [List.getLast?_cons] using hlast)
      have hplain : ∀ d ∈ (c :: rest).head?, d ≠ 'l' ∧ isEscapable d = false := by
        intro d hd
        obtain rfl := Option.some.inj hd
        exact ⟨hl, Bool.not_eq_true _ ▸ hescapable⟩
      have hjoined : escapeChars ('\\' :: (c :: rest ++ second)) =
          '\\' :: '\\' :: escapeChars (c :: rest ++ second) := escapeChars_backslash hplain
      rw [List.cons_append, hjoined, escapeChars_backslash hplain, hrest]
      rfl
  | case5 c rest hl hslash ih =>
      have hrest := ih fun hlast => h (by simp [List.getLast?_cons, hlast])
      by_cases hc : c = '\\'
      -- A backslash at the end of the first text.
      · have hnil : rest = [] := by
          cases rest with
          | nil => rfl
          | cons next rest => exact absurd rfl (hslash next rest hc)
        subst hc hnil
        exact escapeChars_backslash (h rfl)
      · rw [List.cons_append, escapeChars_of_ne hc, escapeChars_of_ne hc, hrest, List.append_assoc]

theorem escapeChars_flatMap_lines {α : Type*} (text : α → List Char) (lines : List α) :
    escapeChars (lines.flatMap (text · ++ ['\\', 'l'])) =
      lines.flatMap fun line => escapeChars (text line) ++ ['\\', 'l'] := by
  induction lines with
  | nil => rfl
  | cons line lines ih =>
      have hend : ∀ c ∈ (['\\', 'l'] ++ lines.flatMap (text · ++ ['\\', 'l'])).head?,
          c ≠ 'l' ∧ isEscapable c = false := by
        rintro _ ⟨⟩
        decide
      rw [List.flatMap_cons, List.append_assoc, escapeChars_append fun _ => hend, List.cons_append,
        List.cons_append, List.nil_append, escapeChars, ih]
      simp

/-! ### Line breaks -/

namespace LabelUnit

/-- Is the unit a backslash with this mark? -/
def isMark (mark : Char) : LabelUnit → Bool
  | bare _ _ => false
  | escaped c _ => c = mark

/-- Does the label go on in a new line behind the unit? -/
def breaksLine (unit : LabelUnit) : Bool :=
  unit.isMark 'n' || unit.isMark 'l'

/-- The end of a left-justified line. -/
def lineEnd : LabelUnit := escaped 'l' rfl

theorem isMark_n_iff {unit : LabelUnit} : unit.isMark 'n' = true ↔ unit.meaning = ['\n'] := by
  cases unit with
  | bare c hbare =>
      have hbreak : c ≠ '\n' := by
        rintro rfl
        exact absurd hbare (by decide)
      simp [isMark, meaning, hbreak]
  | escaped c hmark =>
      have hbreak : c ≠ '\n' := by
        rintro rfl
        exact absurd hmark (by decide)
      by_cases hn : c = 'n'
      · simp [isMark, meaning, hn]
      · by_cases hl : c = 'l' <;> simp [isMark, meaning, hn, hl, hbreak]

theorem isMark_l_of_meaning {unit : LabelUnit} {c : Char} (h : unit.meaning = [c]) :
    unit.isMark 'l' = false := by
  cases unit with
  | bare => rfl
  | escaped d hmark =>
      by_cases hl : d = 'l'
      · subst hl
        cases h
      · simp [isMark, hl]

theorem countP_breaksLine (units : List LabelUnit) : units.countP (·.breaksLine) =
    units.countP (·.isMark 'n') + units.countP (·.isMark 'l') := by
  induction units with
  | nil => rfl
  | cons unit units ih =>
      rw [List.countP_cons, List.countP_cons, List.countP_cons, ih, breaksLine]
      cases hn : unit.isMark 'n' with
      | false => simp [Nat.add_assoc]
      | true =>
          rw [isMark_l_of_meaning (isMark_n_iff.mp hn)]
          simp [Nat.add_right_comm]

end LabelUnit

/-- How often a text holds `\l`. -/
def lineMarks (text : List Char) : Nat :=
  (text.zip text.tail).count ('\\', 'l')

theorem lineMarks_cons (c : Char) (rest : List Char) : lineMarks (c :: rest) =
    (if c = '\\' ∧ rest.head? = some 'l' then 1 else 0) + lineMarks rest := by
  cases rest with
  | nil => simp [lineMarks]
  | cons d rest => simp [lineMarks, List.count_cons, Nat.add_comm]

theorem lineMarks_of_ne {c : Char} (h : c ≠ '\\') (rest : List Char) :
    lineMarks (c :: rest) = lineMarks rest := by
  simp [lineMarks_cons, h]

theorem lineMarks_concat {c : Char} (h : c ≠ 'l') (text : List Char) :
    lineMarks (text ++ [c]) = lineMarks text := by
  induction text with
  | nil => simp [lineMarks]
  | cons d rest ih =>
      rw [List.cons_append, lineMarks_cons, lineMarks_cons, ih]
      cases rest <;> simp [h]

theorem lineMarks_eq_zero_iff {text : List Char} :
    lineMarks text = 0 ↔ ¬ ['\\', 'l'] <:+: text := by
  induction text with
  | nil => simp [lineMarks]
  | cons c rest ih =>
      rw [lineMarks_cons, List.infix_cons_iff, not_or, ← ih, Nat.add_eq_zero_iff]
      cases rest with
      | nil => simp
      | cons d rest => simp [List.cons_prefix_cons, eq_comm]

/-- The units of an escaped line: as many ends of lines as the line holds `\l`, and as many other
breaks as it holds line breaks. -/
structure LabelUnit.Write (units : List LabelUnit) (line : String) : Prop where
  read : LabelUnit.read? (escape line).toList = some units
  marks : units.countP (·.isMark 'l') = lineMarks line.toList
  breaks : units.countP (·.isMark 'n') = line.toList.count '\n'

theorem exists_units_of_escapeChar (c : Char) :
    ∃ units : List LabelUnit, escapeChar c = units.flatMap LabelUnit.text ∧
      units.countP (·.isMark 'l') = 0 ∧
      units.countP (·.isMark 'n') = if c = '\n' then 1 else 0 := by
  by_cases htab : c = '\t'
  · subst htab
    exact ⟨[.bare ' ' rfl, .bare ' ' rfl], rfl, rfl, rfl⟩
  · obtain ⟨unit, htext, hmeaning⟩ := exists_unit_escapeChar htab
    refine ⟨[unit], by simp [htext], ?_, ?_⟩
    · simp [LabelUnit.isMark_l_of_meaning hmeaning]
    · simp [List.countP_cons, LabelUnit.isMark_n_iff, hmeaning]

theorem exists_units_escapeChars (text : List Char) :
    ∃ units : List LabelUnit, escapeChars text = units.flatMap LabelUnit.text ∧
      units.countP (·.isMark 'l') = lineMarks text ∧
      units.countP (·.isMark 'n') = text.count '\n' := by
  induction text using escapeChars.induct with
  | case1 => exact ⟨[], rfl, rfl, rfl⟩
  | case2 rest ih =>
      obtain ⟨units, htext, hmarks, hbreaks⟩ := ih
      refine ⟨.lineEnd :: units, ?_, ?_, ?_⟩
      · rw [escapeChars, htext]
        rfl
      · rw [List.countP_cons, hmarks, lineMarks_cons, lineMarks_of_ne (by decide)]
        simp [LabelUnit.lineEnd, LabelUnit.isMark, Nat.add_comm]
      · rw [List.countP_cons, hbreaks]
        simp [LabelUnit.lineEnd, LabelUnit.isMark]
  | case3 c rest hl hescapable ih =>
      obtain ⟨units, htext, hmarks, hbreaks⟩ := ih
      have hmark : isEscapeMark c = true := by
        simp only [isEscapable, Bool.or_eq_true, decide_eq_true_eq] at hescapable
        rcases hescapable with (rfl | rfl) | rfl <;> rfl
      have hplain : c ≠ '\\' ∧ c ≠ '\n' ∧ c ≠ 'n' := by
        simp only [isEscapable, Bool.or_eq_true, decide_eq_true_eq] at hescapable
        rcases hescapable with (rfl | rfl) | rfl <;> decide
      obtain ⟨hslash, hbreak, hn⟩ := hplain
      refine ⟨.escaped c hmark :: units, ?_, ?_, ?_⟩
      · rw [escapeChars.eq_3 _ _ hl, if_pos hescapable, htext]
        rfl
      · rw [List.countP_cons, hmarks, lineMarks_cons, lineMarks_of_ne hslash]
        have hnot : c ≠ 'l' := hl
        simp [LabelUnit.isMark, hnot]
      · rw [List.countP_cons, hbreaks]
        simp [LabelUnit.isMark, hn, hbreak]
  | case4 c rest hl hescapable ih =>
      obtain ⟨units, htext, hmarks, hbreaks⟩ := ih
      refine ⟨.escaped '\\' rfl :: units, ?_, ?_, ?_⟩
      · rw [escapeChars.eq_3 _ _ hl, if_neg hescapable, htext]
        rfl
      · rw [List.countP_cons, hmarks, lineMarks_cons '\\']
        have hnot : c ≠ 'l' := hl
        simp [LabelUnit.isMark, hnot]
      · rw [List.countP_cons, hbreaks]
        simp [LabelUnit.isMark]
  | case5 c rest hl hslash ih =>
      obtain ⟨units, htext, hmarks, hbreaks⟩ := ih
      obtain ⟨first, hfirst, hfirstMarks, hfirstBreaks⟩ := exists_units_of_escapeChar c
      refine ⟨first ++ units, ?_, ?_, ?_⟩
      · rw [escapeChars.eq_4 _ _ hl hslash, htext, hfirst, List.flatMap_append]
      · have hlone : ¬ (c = '\\' ∧ rest.head? = some 'l') := by
          rintro ⟨hc, hhead⟩
          obtain ⟨tail, rfl⟩ := List.head?_eq_some_iff.mp hhead
          exact hl tail hc rfl
        rw [List.countP_append, hfirstMarks, hmarks, lineMarks_cons, if_neg hlone]
      · rw [List.countP_append, hfirstBreaks, hbreaks, List.count_cons, Nat.add_comm]
        simp

theorem exists_units_write (line : String) : ∃ units, LabelUnit.Write units line := by
  obtain ⟨units, htext, hmarks, hbreaks⟩ := exists_units_escapeChars line.toList
  refine ⟨units, ?_, hmarks, hbreaks⟩
  rw [toList_escape, LabelUnit.read?_eq_some_iff, htext]

theorem exists_forall₂_write (texts : List String) :
    ∃ lines, List.Forall₂ LabelUnit.Write lines texts := by
  induction texts with
  | nil => exact ⟨[], .nil⟩
  | cons text texts ih =>
      obtain ⟨units, hunits⟩ := exists_units_write text
      obtain ⟨lines, hlines⟩ := ih
      exact ⟨units :: lines, .cons hunits hlines⟩

theorem escapeChars_lines {texts : List String} {lines : List (List LabelUnit)}
    (h : List.Forall₂ LabelUnit.Write lines texts) :
    escapeChars (texts.flatMap fun text => text.toList ++ ['\\', 'l']) =
      (lines.flatMap (· ++ [LabelUnit.lineEnd])).flatMap LabelUnit.text := by
  rw [escapeChars_flatMap_lines]
  induction h with
  | nil => rfl
  | cons hline _ ih =>
      have hread := hline.read
      rw [toList_escape, LabelUnit.read?_eq_some_iff] at hread
      rw [List.flatMap_cons, List.flatMap_cons, List.flatMap_append, List.flatMap_append, ih, hread]
      rfl

/-- How many breaks a text has of its own. -/
def ownBreaks (text : String) : Nat :=
  text.toList.count '\n' + lineMarks text.toList

theorem ownBreaks_header (name : String) : ownBreaks (name ++ ":") = ownBreaks name := by
  have hcolon : ":".toList = [':'] := rfl
  rw [ownBreaks, ownBreaks, String.toList_append, hcolon, lineMarks_concat (by decide)]
  simp

theorem ownBreaks_indented (text : String) : ownBreaks ("  " ++ text) = ownBreaks text := by
  have hblanks : "  ".toList = [' ', ' '] := rfl
  rw [ownBreaks, ownBreaks, String.toList_append, hblanks, List.cons_append, List.cons_append,
    List.nil_append, lineMarks_of_ne (by decide), lineMarks_of_ne (by decide)]
  simp

theorem ownBreaks_eq_zero_iff {text : String} :
    ownBreaks text = 0 ↔ '\n' ∉ text.toList ∧ ¬ ['\\', 'l'] <:+: text.toList := by
  rw [ownBreaks, Nat.add_eq_zero_iff, List.count_eq_zero, lineMarks_eq_zero_iff]

theorem map_ownBreaks_labelLines (index : Nat) (block : Block) :
    (block.labelLines index).map ownBreaks =
      (block.displayName index :: block.instructions).map ownBreaks := by
  rw [Block.labelLines, List.map_cons, List.map_cons, ownBreaks_header, List.map_map]
  exact congrArg _ (List.map_congr_left fun text _ => ownBreaks_indented text)

/-- Every line is ended once and has its own breaks besides. -/
theorem countP_breaksLine_lines {texts : List String} {lines : List (List LabelUnit)}
    (h : List.Forall₂ LabelUnit.Write lines texts) :
    (lines.flatMap (· ++ [LabelUnit.lineEnd])).countP (·.breaksLine) =
      texts.length + (texts.map ownBreaks).sum := by
  induction h with
  | nil => rfl
  | @cons units text lines texts hline _ ih =>
      have hend : [LabelUnit.lineEnd].countP (·.breaksLine) = 1 := rfl
      have hown : units.countP (·.breaksLine) = ownBreaks text := by
        rw [LabelUnit.countP_breaksLine, hline.breaks, hline.marks, ownBreaks]
      rw [List.flatMap_cons, List.countP_append, List.countP_append, hend, hown, ih, List.map_cons,
        List.sum_cons, List.length_cons]
      omega

/-- The label of a block is read line by line, a line for the name and one for each instruction,
each ended by `\l`. It has so many breaks and those that the name and the instructions have of their
own. So there is one break for each line exactly if no text holds a line break or `\l`. -/
theorem countP_breaksLine_fullLabel (index : Nat) (block : Block) :
    ∃ lines, List.Forall₂ LabelUnit.Write lines (block.labelLines index) ∧
      LabelUnit.read? (escape (block.fullLabel index)).toList =
        some (lines.flatMap (· ++ [LabelUnit.lineEnd])) ∧
      (lines.flatMap (· ++ [LabelUnit.lineEnd])).countP (·.breaksLine) =
        block.instructions.length + 1 +
          ((block.displayName index :: block.instructions).map ownBreaks).sum ∧
      ((lines.flatMap (· ++ [LabelUnit.lineEnd])).countP (·.breaksLine) =
        block.instructions.length + 1 ↔
          ∀ text ∈ block.displayName index :: block.instructions,
            '\n' ∉ text.toList ∧ ¬ ['\\', 'l'] <:+: text.toList) := by
  obtain ⟨lines, hlines⟩ := exists_forall₂_write (block.labelLines index)
  have hcount := countP_breaksLine_lines hlines
  have hlength : (block.labelLines index).length = block.instructions.length + 1 := by
    simp [Block.labelLines]
  rw [hlength, map_ownBreaks_labelLines] at hcount
  refine ⟨lines, hlines, ?_, hcount, ?_⟩
  · rw [LabelUnit.read?_eq_some_iff, escape, String.toList_ofList, Block.toList_fullLabel,
      escapeChars_lines hlines]
  · rw [hcount, Nat.add_eq_left, List.sum_eq_zero_iff_forall_eq_nat, List.forall_mem_map]
    exact forall₂_congr fun _ _ => ownBreaks_eq_zero_iff

/-- A `\l` in an instruction breaks the line, and so does a line break, which is not even written as
the end of a line. -/
theorem fullLabel_breaks_within_instruction :
    ((LabelUnit.read? (escape
      (Block.fullLabel 0 { name? := "x", instructions := ["a\\lb"] })).toList).map
        (List.countP (·.breaksLine))) = some 3 ∧
    ((LabelUnit.read? (escape
      (Block.fullLabel 0 { name? := "x", instructions := ["a\nb"] })).toList).map fun units =>
        (units.countP (·.breaksLine), units.countP (·.isMark 'l'))) = some (3, 2) := by
  decide +kernel

end Dot

end FlowRegions
