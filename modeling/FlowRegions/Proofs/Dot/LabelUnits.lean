import FlowRegions.Dot.Escape

/-!
# Units of escaped labels

An escaped label is read from the left in units, each of them a character that stands for itself or
one behind a backslash. Escaping a label comes to the same as two steps: the label is normalized,
which settles its tabs and the backslashes that already escape a bar or a brace, and then every
character of it is written as a unit, `\l` as one unit for two. So an escaped label decodes to the
normalized one, and labels are escaped alike exactly if they are normalized alike.
-/

namespace FlowRegions.Dot

/-- The characters that do not stand for themselves in an escaped label. -/
def isReserved (c : Char) : Bool :=
  c = '\n' || c = '\t' || c = '\\' || isRecordSpecial c

/-- The characters that stand behind a backslash in an escaped label. -/
def isEscapeMark (c : Char) : Bool :=
  c = 'n' || c = 'l' || c = '\\' || isRecordSpecial c

/-- A complete unit of an escaped label. -/
inductive LabelUnit where
  | bare (c : Char) (hbare : isReserved c = false)
  | escaped (c : Char) (hmark : isEscapeMark c = true)
deriving DecidableEq, Repr

namespace LabelUnit

def text : LabelUnit → List Char
  | bare c _ => [c]
  | escaped c _ => ['\\', c]

/-- What a unit stands for. The break of a left-justified line stands for itself. -/
def meaning : LabelUnit → List Char
  | bare c _ => [c]
  | escaped c _ => if c = 'n' then ['\n'] else if c = 'l' then ['\\', 'l'] else [c]

/-- Reads a text as units from the left, with each backslash taking the next character with it. -/
def read? : List Char → Option (List LabelUnit)
  | [] => some []
  | '\\' :: c :: rest =>
    if hmark : isEscapeMark c = true then (read? rest).map (escaped c hmark :: ·) else none
  | c :: rest =>
    if hbare : isReserved c = false then (read? rest).map (bare c hbare :: ·) else none

theorem read?_text_append (unit : LabelUnit) (rest : List Char) :
    read? (unit.text ++ rest) = (read? rest).map (unit :: ·) := by
  cases unit with
  | bare c hbare =>
      have hslash : c ≠ '\\' := by
        rintro rfl
        exact absurd hbare (by decide)
      rw [text, List.singleton_append, read?.eq_3 _ _ fun c rest heq _ => hslash heq, dif_pos hbare]
  | escaped c hmark => exact dif_pos hmark

/-- A text is read as the units that it is made of. -/
theorem read?_eq_some_iff {label : List Char} {units : List LabelUnit} :
    read? label = some units ↔ label = units.flatMap text := by
  constructor
  · intro h
    induction label using read?.induct generalizing units with
    | case1 =>
        obtain rfl : [] = units := Option.some.inj h
        rfl
    | case2 c rest hmark ih =>
        rw [read?, dif_pos hmark, Option.map_eq_some_iff] at h
        obtain ⟨units, hrest, rfl⟩ := h
        rw [List.flatMap_cons, ← ih hrest]
        rfl
    | case3 c rest hmark =>
        rw [read?, dif_neg hmark] at h
        cases h
    | case4 c rest hslash hbare ih =>
        rw [read?.eq_3 _ _ hslash, dif_pos hbare, Option.map_eq_some_iff] at h
        obtain ⟨units, hrest, rfl⟩ := h
        rw [List.flatMap_cons, ← ih hrest]
        rfl
    | case5 c rest hslash hbare =>
        rw [read?.eq_3 _ _ hslash, dif_neg hbare] at h
        cases h
  · rintro rfl
    induction units with
    | nil => rfl
    | cons unit units ih => rw [List.flatMap_cons, read?_text_append, ih, Option.map_some]

end LabelUnit

/-! ### Normalizing -/

/-- What stays of a character in front of another one: a tab becomes two blanks, and a backslash in
front of a bar or a brace is left out. -/
def normalChar (c : Char) (next? : Option Char) : List Char :=
  if c = '\t' then [' ', ' ']
  else if c = '\\' && next?.any isEscapable then []
  else [c]

def normalChars : List Char → List Char
  | [] => []
  | c :: rest => normalChar c rest.head? ++ normalChars rest

def normalized (label : String) : String :=
  String.ofList (normalChars label.toList)

theorem tab_not_mem_normalChar (c : Char) (next? : Option Char) : '\t' ∉ normalChar c next? := by
  unfold normalChar
  split
  case isTrue => decide
  case isFalse htab =>
    split
    case isTrue => exact List.not_mem_nil
    case isFalse => exact fun hmem => htab (List.mem_singleton.mp hmem).symm

theorem tab_not_mem_normalChars (label : List Char) : '\t' ∉ normalChars label := by
  induction label with
  | nil => exact List.not_mem_nil
  | cons c rest ih =>
      rw [normalChars, List.mem_append, not_or]
      exact ⟨tab_not_mem_normalChar c rest.head?, ih⟩

theorem normalChars_cons_of_isEscapable {c : Char} (h : isEscapable c = true) (rest : List Char) :
    normalChars (c :: rest) = c :: normalChars rest := by
  have htab : c ≠ '\t' := by
    rintro rfl
    exact absurd h (by decide)
  have hslash : c ≠ '\\' := by
    rintro rfl
    exact absurd h (by decide)
  simp [normalChars, normalChar, htab, hslash]

/-- Nothing that is left out or replaced brings an `l` to the front. -/
theorem head?_normalChars_ne {c : Char} (h : c ≠ 'l') (rest : List Char) :
    (normalChars (c :: rest)).head? ≠ some 'l' := by
  rw [normalChars, normalChar]
  split
  case isTrue => simp
  case isFalse =>
    split
    case isTrue hdropped =>
      rw [Bool.and_eq_true, Option.any_eq_true] at hdropped
      obtain ⟨_, next, hnext, hescapable⟩ := hdropped
      obtain ⟨tail, rfl⟩ : ∃ tail, rest = next :: tail := List.head?_eq_some_iff.mp hnext
      have hnot : next ≠ 'l' := by
        rintro rfl
        exact absurd hescapable (by decide)
      rw [List.nil_append, normalChars_cons_of_isEscapable hescapable]
      simpa using hnot
    case isFalse => simpa using h

/-! ### Writing units -/

/-- Every character of a normalized label as a unit. -/
def writeUnits : List Char → List Char
  | [] => []
  | '\\' :: 'l' :: rest => '\\' :: 'l' :: writeUnits rest
  | c :: rest => escapeChar c ++ writeUnits rest

theorem writeUnits_backslash {rest : List Char} (h : rest.head? ≠ some 'l') :
    writeUnits ('\\' :: rest) = '\\' :: '\\' :: writeUnits rest := by
  rw [writeUnits.eq_3 _ _ fun tail _ heq => h (by rw [heq]; rfl)]
  rfl

theorem writeUnits_of_ne {c : Char} (h : c ≠ '\\') (rest : List Char) :
    writeUnits (c :: rest) = escapeChar c ++ writeUnits rest :=
  writeUnits.eq_3 _ _ fun _ heq _ => h heq

/-- Escaping a label is normalizing it and writing the rest as units. -/
theorem escapeChars_eq_writeUnits (label : List Char) :
    escapeChars label = writeUnits (normalChars label) := by
  induction label using escapeChars.induct with
  | case1 => rfl
  | case2 rest ih =>
      have hnormal : normalChars ('\\' :: 'l' :: rest) = '\\' :: 'l' :: normalChars rest := by
        simp [normalChars, normalChar, isEscapable]
      rw [escapeChars, ih, hnormal, writeUnits]
  | case3 c rest hl hescapable ih =>
      have hdropped : normalChar '\\' (some c) = [] := by simp [normalChar, hescapable]
      have hslash : c ≠ '\\' := by
        rintro rfl
        exact absurd hescapable (by decide)
      have hchar : escapeChar c = ['\\', c] := by
        simp only [isEscapable, Bool.or_eq_true, decide_eq_true_eq] at hescapable
        rcases hescapable with (rfl | rfl) | rfl <;> rfl
      rw [escapeChars.eq_3 _ _ hl, if_pos hescapable, ih, normalChars, List.head?_cons, hdropped,
        List.nil_append, normalChars_cons_of_isEscapable hescapable, writeUnits_of_ne hslash, hchar]
      rfl
  | case4 c rest hl hescapable ih =>
      have hkept : normalChars ('\\' :: c :: rest) = '\\' :: normalChars (c :: rest) := by
        rw [normalChars, List.head?_cons, normalChar]
        simp [hescapable]
      rw [escapeChars.eq_3 _ _ hl, if_neg hescapable, ih, hkept,
        writeUnits_backslash (head?_normalChars_ne hl rest)]
  | case5 c rest hl hslash ih =>
      rw [escapeChars.eq_4 _ _ hl hslash, ih]
      by_cases hc : c = '\\'
      -- A backslash at the end.
      · have hrest : rest = [] := by
          cases rest with
          | nil => rfl
          | cons next rest => exact absurd rfl (hslash next rest hc)
        rw [hc, hrest]
        rfl
      · by_cases htab : c = '\t'
        · rw [htab]
          rfl
        · have hkept : normalChar c rest.head? = [c] := by simp [normalChar, htab, hc]
          rw [normalChars, hkept, List.singleton_append, writeUnits_of_ne hc]

theorem exists_unit_escapeChar {c : Char} (h : c ≠ '\t') :
    ∃ unit : LabelUnit, unit.text = escapeChar c ∧ unit.meaning = [c] := by
  rw [escapeChar]
  by_cases hbreak : c = '\n'
  · subst hbreak
    exact ⟨.escaped 'n' rfl, rfl, rfl⟩
  rw [if_neg hbreak, if_neg h]
  by_cases hspecial : (c = '\\' || isRecordSpecial c) = true
  · have hmark : isEscapeMark c = true := by
      rw [isEscapeMark, Bool.or_assoc, hspecial, Bool.or_true]
    have hn : c ≠ 'n' := by
      rintro rfl
      exact absurd hspecial (by decide)
    have hl : c ≠ 'l' := by
      rintro rfl
      exact absurd hspecial (by decide)
    rw [if_pos hspecial]
    exact ⟨.escaped c hmark, rfl, by rw [LabelUnit.meaning, if_neg hn, if_neg hl]⟩
  · have hbare : isReserved c = false := by simpa [isReserved, hbreak, h] using hspecial
    rw [if_neg hspecial]
    exact ⟨.bare c hbare, rfl, rfl⟩

/-- What is written for a text without tabs are units that stand for the text. -/
theorem exists_units_writeUnits {label : List Char} (h : '\t' ∉ label) :
    ∃ units : List LabelUnit, writeUnits label = units.flatMap LabelUnit.text ∧
      units.flatMap LabelUnit.meaning = label := by
  induction label using writeUnits.induct with
  | case1 => exact ⟨[], rfl, rfl⟩
  | case2 rest ih =>
      simp only [List.mem_cons, not_or] at h
      obtain ⟨units, htext, hmeaning⟩ := ih h.2.2
      refine ⟨.escaped 'l' rfl :: units, ?_, ?_⟩
      · rw [writeUnits, htext]
        rfl
      · rw [List.flatMap_cons, hmeaning]
        rfl
  | case3 c rest hl ih =>
      rw [List.mem_cons, not_or] at h
      obtain ⟨units, htext, hmeaning⟩ := ih h.2
      obtain ⟨unit, hunit, hstands⟩ := exists_unit_escapeChar (Ne.symm h.1)
      refine ⟨unit :: units, ?_, ?_⟩
      · rw [writeUnits.eq_3 _ _ hl, htext, List.flatMap_cons, hunit]
      · rw [List.flatMap_cons, hmeaning, hstands]
        rfl

/-- An escaped label is a sequence of complete units, and what these stand for is the normalized
label. So two labels are escaped alike exactly if they are normalized alike. -/
theorem exists_units_escape (label : String) :
    (∃ units, LabelUnit.read? (escape label).toList = some units ∧
      units.flatMap LabelUnit.meaning = (normalized label).toList) ∧
    ∀ other, escape label = escape other ↔ normalized label = normalized other := by
  have hreads : ∀ label : String, ∃ units,
      LabelUnit.read? (escape label).toList = some units ∧
        units.flatMap LabelUnit.meaning = (normalized label).toList := by
    intro label
    obtain ⟨units, htext, hmeaning⟩ :=
      exists_units_writeUnits (tab_not_mem_normalChars label.toList)
    rw [← escapeChars_eq_writeUnits] at htext
    rw [escape, normalized, String.toList_ofList, String.toList_ofList]
    exact ⟨units, LabelUnit.read?_eq_some_iff.mpr htext, hmeaning⟩
  refine ⟨hreads label, fun other => ⟨fun hsame => ?_, fun hsame => ?_⟩⟩
  · obtain ⟨units, hread, hmeaning⟩ := hreads label
    obtain ⟨units', hread', hmeaning'⟩ := hreads other
    rw [hsame, hread', Option.some_inj] at hread
    rw [← String.toList_inj, ← hmeaning, ← hmeaning', hread]
  · rw [normalized, normalized, String.ofList_inj] at hsame
    rw [escape, escape, escapeChars_eq_writeUnits, escapeChars_eq_writeUnits, hsame]

/-- Of two backslashes in front of a bar only the second is left out. -/
example : normalChars ['\\', '\\', '|'] = ['\\', '|'] ∧
    escapeChars ['\\', '\\', '|'] = ['\\', '\\', '\\', '|'] := by decide

end FlowRegions.Dot
