import FlowRegions.Dot.RegionDrawing
import FlowRegions.Proofs.Text.Decimal
import Mathlib.Data.List.Forall2

/-!
# Reading statements back

A document is split into lines, and those between the header and the choice of the colours are read
by their form alone: a line is about one numbered block, or about an edge between two of them. What
is written for a statement reads back as that statement, whatever its label is.
-/

namespace FlowRegions.Dot

open Text

/-- What a line says about numbered blocks: that there is one, or that an edge leads from one to
another and either constrains the layout or does not. -/
inductive Entry where
  | node (index : Nat)
  | edge (source target : Nat) (constraining : Bool)
deriving DecidableEq, Repr

namespace Entry

/-- The numbers at both ends of an edge. -/
def ends? : Entry → Option (Nat × Nat)
  | node _ => none
  | edge source target _ => some (source, target)

/-- The number of the block that a text begins with, and the rest of the text. -/
def blockAt? (text : List Char) : Option (Nat × List Char) := do
  let rest ← text.dropPrefix? "Node".toList
  let digits := rest.takeWhile Char.isDigit
  if digits.isEmpty then none
  else some (Nat.ofDigitChars 10 digits 0, rest.dropWhile Char.isDigit)

/-- Reads what stands behind the source of an edge. -/
def ofTarget? (source : Nat) (text : List Char) : Option Entry := do
  let (target, rest) ← blockAt? (← text.dropPrefix? " -> ".toList)
  if rest = ";".toList then some (.edge source target true)
  else if rest = "[constraint=false];".toList then some (.edge source target false)
  else none

def ofLine? (line : List Char) : Option Entry := do
  let (index, rest) ← blockAt? (← line.dropPrefix? "\t".toList)
  match rest.dropPrefix? " [shape=record,label=\"\x7b".toList with
  | some label => (label.dropSuffix? "\x7d\"];".toList).map fun _ => .node index
  | none => ofTarget? index rest

end Entry

def paletteLine : List Char := "\tcolorscheme = \"paired12\"".toList

/-- The lines of a document behind the three of its header and in front of the choice of its
colours. -/
def statementLines (document : List Char) : List (List Char) :=
  ((document.splitOn '\n').drop 3).takeWhile (· ≠ paletteLine)

/-- What the lines about nodes and edges say, if every one of them is about a node or an edge. -/
def entries? (document : String) : Option (List Entry) :=
  (statementLines document.toList).mapM Entry.ofLine?

/-! ### Lines -/

theorem blockAt?_toDigits (n : Nat) (rest : List Char)
    (h : ∀ c ∈ rest.head?, c.isDigit = false) :
    Entry.blockAt? ("Node".toList ++ (Nat.toDigits 10 n ++ rest)) = some (n, rest) := by
  have hdigits : ∀ c ∈ Nat.toDigits 10 n, c.isDigit = true := by
    intro c hc
    exact Nat.isDigit_of_mem_toDigits (by decide) (by decide) hc
  have hstop : rest.takeWhile Char.isDigit = [] ∧ rest.dropWhile Char.isDigit = rest := by
    cases rest with
    | nil => exact ⟨rfl, rfl⟩
    | cons c rest =>
        have hc : c.isDigit = false := h c rfl
        simp [hc]
  have hne : (Nat.toDigits 10 n).isEmpty = false := by
    rw [List.isEmpty_eq_false_iff]
    exact Nat.toDigits_ne_nil
  rw [Entry.blockAt?, List.dropPrefix?_append_of_beq _ (BEq.refl _)]
  simp only [Option.bind_eq_bind, Option.bind_some]
  rw [List.takeWhile_append_of_pos hdigits, List.dropWhile_append_of_pos hdigits, hstop.1, hstop.2,
    List.append_nil, hne, Nat.ofDigitChars_ten_toDigits]
  rfl

theorem toList_blockNodeId (b : BlockRef) :
    (blockNodeId b).toList = "Node".toList ++ Nat.toDigits 10 b.index := by
  have htext : (blockNodeId b).toList = "Node".toList ++ (toString b.index).toList :=
    String.toList_append
  rw [htext, toList_toString_nat]

theorem newline_not_mem_blockNodeId (b : BlockRef) : '\n' ∉ (blockNodeId b).toList := by
  rw [toList_blockNodeId, List.mem_append, not_or]
  exact ⟨by decide, not_mem_toDigits (by decide) b.index⟩

theorem newline_not_mem_escapeChar (c : Char) : '\n' ∉ escapeChar c := by
  unfold escapeChar
  split
  case isTrue => decide
  case isFalse hbreak =>
    split
    case isTrue => decide
    case isFalse => split <;> simp [Ne.symm hbreak]

theorem newline_not_mem_escapeChars (label : List Char) : '\n' ∉ escapeChars label := by
  induction label using escapeChars.induct with
  | case1 => exact List.not_mem_nil
  | case2 rest ih =>
      rw [escapeChars]
      simp [ih]
  | case3 c rest hl hescapable ih =>
      have hbreak : '\n' ≠ c := by
        rintro rfl
        exact absurd hescapable (by decide)
      rw [escapeChars.eq_3 _ _ hl, if_pos hescapable]
      simp [ih, hbreak]
  | case4 c rest hl hescapable ih =>
      rw [escapeChars.eq_3 _ _ hl, if_neg hescapable]
      simp [ih]
  | case5 c rest hl hslash ih =>
      rw [escapeChars.eq_4 _ _ hl hslash, List.mem_append, not_or]
      exact ⟨newline_not_mem_escapeChar c, ih⟩

theorem newline_not_mem_escape (label : String) : '\n' ∉ (escape label).toList := by
  rw [escape, String.toList_ofList]
  exact newline_not_mem_escapeChars label.toList

/-! ### Statements -/

/-- The statement is written as one line, and the line reads back as the entry. -/
def Statement.Says (s : Statement) (e : Entry) : Prop :=
  ∃ line, s.text.toList = line ++ ['\n'] ∧ '\n' ∉ line ∧ Entry.ofLine? line = some e

theorem says_node (b : BlockRef) (label : String) :
    (Statement.node (blockNodeId b) "" label).Says (.node b.index) := by
  have htext : (Statement.node (blockNodeId b) "" label).text.toList =
      ("\t".toList ++ ("Node".toList ++ (Nat.toDigits 10 b.index ++
        (" [shape=record,label=\"\x7b".toList ++
          ((escape label).toList ++ "\x7d\"];".toList))))) ++ ['\n'] := by
    simp [Statement.text, toList_blockNodeId]
  refine ⟨_, htext, ?_, ?_⟩
  · have hid := newline_not_mem_blockNodeId b
    have hlabel := newline_not_mem_escape label
    rw [toList_blockNodeId] at hid
    simp only [List.mem_append, not_or] at hid ⊢
    exact ⟨by decide, hid.1, hid.2, by decide, hlabel, by decide⟩
  · have hblock := blockAt?_toDigits b.index
      (" [shape=record,label=\"\x7b".toList ++ ((escape label).toList ++ "\x7d\"];".toList))
      (by simp)
    have hsuffix : ((escape label).toList ++ "\x7d\"];".toList).dropSuffix? "\x7d\"];".toList =
        some (escape label).toList :=
      List.dropSuffix?_eq_some_iff.mpr ⟨_, rfl, BEq.refl _⟩
    rw [Entry.ofLine?, List.dropPrefix?_append_of_beq _ (BEq.refl _)]
    simp only [Option.bind_eq_bind, Option.bind_some, hblock]
    rw [List.dropPrefix?_append_of_beq _ (BEq.refl _)]
    dsimp only
    rw [hsuffix]
    rfl

theorem ofTarget?_toDigits (source target : Nat) (constraining : Bool) :
    Entry.ofTarget? source (" -> ".toList ++ ("Node".toList ++ (Nat.toDigits 10 target ++
      (if constraining then ";" else "[constraint=false];").toList))) =
        some (.edge source target constraining) := by
  have hblock := blockAt?_toDigits target
    (if constraining then ";" else "[constraint=false];").toList
    (by cases constraining <;> simp)
  rw [Entry.ofTarget?, List.dropPrefix?_append_of_beq _ (BEq.refl _)]
  simp only [Option.bind_eq_bind, Option.bind_some, hblock]
  cases constraining <;> rfl

theorem says_edge (source target : BlockRef) (constraining : Bool) :
    (Statement.edge (blockNodeId source) (blockNodeId target)
      (if constraining then "" else "constraint=false")).Says
        (.edge source.index target.index constraining) := by
  have htext : (Statement.edge (blockNodeId source) (blockNodeId target)
      (if constraining then "" else "constraint=false")).text.toList =
      ("\t".toList ++ ("Node".toList ++ (Nat.toDigits 10 source.index ++
        (" -> ".toList ++ ("Node".toList ++ (Nat.toDigits 10 target.index ++
          (if constraining then ";" else "[constraint=false];").toList)))))) ++ ['\n'] := by
    cases constraining <;> simp [Statement.text, toList_blockNodeId]
  refine ⟨_, htext, ?_, ?_⟩
  · have hsource := newline_not_mem_blockNodeId source
    have htarget := newline_not_mem_blockNodeId target
    have hend : '\n' ∉ (if constraining then ";" else "[constraint=false];").toList := by
      cases constraining <;> decide
    rw [toList_blockNodeId] at hsource htarget
    simp only [List.mem_append, not_or] at hsource htarget ⊢
    exact ⟨by decide, hsource.1, hsource.2, by decide, htarget.1, htarget.2, hend⟩
  · have hblock := blockAt?_toDigits source.index
      (" -> ".toList ++ ("Node".toList ++ (Nat.toDigits 10 target.index ++
        (if constraining then ";" else "[constraint=false];").toList))) (by simp)
    rw [Entry.ofLine?, List.dropPrefix?_append_of_beq _ (BEq.refl _)]
    simp only [Option.bind_eq_bind, Option.bind_some, hblock]
    exact ofTarget?_toDigits source.index target.index constraining

/-! ### Documents -/

theorem ofLine?_paletteLine : Entry.ofLine? paletteLine = none := by decide

theorem mapM_ofLine?_statements {statements : List Statement} {entries : List Entry}
    (h : List.Forall₂ Statement.Says statements entries) (rest : List Char) :
    ((((String.join (statements.map Statement.text)).toList ++
      (paletteLine ++ '\n' :: rest)).splitOn '\n').takeWhile (· ≠ paletteLine)).mapM
        Entry.ofLine? = some entries := by
  induction h with
  | nil =>
      have hpalette : '\n' ∉ paletteLine := by decide
      rw [List.map_nil, String.join_nil, String.toList_empty, List.nil_append,
        List.splitOn_append_cons_self_of_not_mem hpalette, List.takeWhile_cons_of_neg (by simp)]
      rfl
  | @cons s e statements entries hsays _ ih =>
      obtain ⟨line, htext, hbreak, hread⟩ := hsays
      -- No statement reads as the line that ends the section.
      have hpalette : line ≠ paletteLine := by
        rintro rfl
        rw [ofLine?_paletteLine] at hread
        cases hread
      rw [List.map_cons, String.join_cons, String.toList_append, htext, List.append_assoc,
        List.append_assoc, List.singleton_append, List.splitOn_append_cons_self_of_not_mem hbreak,
        List.takeWhile_cons_of_pos (by simpa using hpalette), List.mapM_cons, hread, ih]
      rfl

/-- The statements of a document that has a title and chooses colours read back as their entries. -/
theorem entries?_of_says {d : Drawing} {entries : List Entry} {clusters : String}
    (htitle : d.title.isEmpty = false) (hproperties : d.properties = "")
    (hstatements : List.Forall₂ Statement.Says d.statements entries)
    (hfeatures : d.features = "\tcolorscheme = \"paired12\"\n" ++ clusters) :
    entries? d.text = some entries := by
  have hfirst : '\n' ∉ "digraph \"".toList ++ ((escape d.title).toList ++ "\" \x7b".toList) := by
    simp [newline_not_mem_escape]
  have hsecond : '\n' ∉ "\tlabel=\"".toList ++ ((escape d.title).toList ++ "\";".toList) := by
    simp [newline_not_mem_escape]
  have htext : d.text.toList =
      ("digraph \"".toList ++ ((escape d.title).toList ++ "\" \x7b".toList)) ++ '\n' ::
      (("\tlabel=\"".toList ++ ((escape d.title).toList ++ "\";".toList)) ++ '\n' ::
      ([] ++ '\n' :: ((String.join (d.statements.map Statement.text)).toList ++
        (paletteLine ++ '\n' :: (clusters.toList ++ "\x7d\n".toList))))) := by
    have hopening : "\" \x7b\n\tlabel=\"".toList =
        "\" \x7b".toList ++ '\n' :: "\tlabel=\"".toList := by decide
    have hheader : "\";\n".toList = "\";".toList ++ ['\n'] := by decide
    have hpalette : "\tcolorscheme = \"paired12\"\n".toList = paletteLine ++ ['\n'] := by decide
    have hbreak : "\n".toList = ['\n'] := by decide
    rw [Drawing.text, Drawing.headerText, htitle, hproperties, hfeatures, if_neg Bool.false_ne_true]
    simp only [String.toList_append, hopening, hheader, hpalette, hbreak, String.toList_empty,
      List.append_assoc, List.cons_append, List.nil_append]
  rw [entries?, statementLines, htext, List.splitOn_append_cons_self_of_not_mem hfirst,
    List.splitOn_append_cons_self_of_not_mem hsecond,
    List.splitOn_append_cons_self_of_not_mem List.not_mem_nil]
  exact mapM_ofLine?_statements hstatements _

end FlowRegions.Dot
