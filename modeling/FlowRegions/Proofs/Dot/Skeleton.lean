import FlowRegions.Dot.Cluster
import FlowRegions.Proofs.Text.Decimal

/-!
# Documents without the contents of their strings

A document is scanned from the left, where a backslash inside a string takes the next character with
it. Every label and title that a drawing quotes stays inside its string, so that what is left of the
document does not depend on it.
-/

namespace FlowRegions.Dot

/-- Where a scan stands: outside of strings, inside of one, or behind a backslash in one. -/
inductive Scan where
  | outside
  | inside
  | escaped
deriving DecidableEq, Repr

namespace Scan

/-- The rest of a document without the contents of its strings. There is none if a string is left
open or spread over several lines. -/
def blank? : Scan → List Char → Option (List Char)
  | outside, [] => some []
  | inside, [] => none
  | escaped, [] => none
  | outside, c :: rest => (blank? (if c = '"' then inside else outside) rest).map (c :: ·)
  | inside, c :: rest =>
    if c = '"' then (blank? outside rest).map (c :: ·)
    else if c = '\n' then none
    else blank? (if c = '\\' then escaped else inside) rest
  | escaped, c :: rest => if c = '\n' then none else blank? inside rest

/-- Scanning the text leads from one state to another and leaves `out` of it, whatever follows. -/
def Leaves (s : Scan) (text : List Char) (s' : Scan) (out : List Char) : Prop :=
  ∀ rest, s.blank? (text ++ rest) = (s'.blank? rest).map (out ++ ·)

namespace Leaves

theorem nil (s : Scan) : s.Leaves [] s [] := by
  intro rest
  exact (congrFun Option.map_id _).symm

theorem append {s s' s'' : Scan} {text text' out out' : List Char} (h : s.Leaves text s' out)
    (h' : s'.Leaves text' s'' out') : s.Leaves (text ++ text') s'' (out ++ out') := by
  intro rest
  rw [List.append_assoc, h, h', Option.map_map]
  exact congrArg (Option.map · _) (funext fun tail => (List.append_assoc out out' tail).symm)

theorem plain {text : List Char} (h : '"' ∉ text) : outside.Leaves text outside text := by
  induction text with
  | nil => exact .nil outside
  | cons c text ih =>
      rw [List.mem_cons, not_or] at h
      intro rest
      rw [List.cons_append, blank?, if_neg (Ne.symm h.1), ih h.2, Option.map_map]
      rfl

theorem opening : outside.Leaves ['"'] inside ['"'] := fun _ => rfl

theorem closing : inside.Leaves ['"'] outside ['"'] := fun _ => rfl

theorem bare {c : Char} (hquote : c ≠ '"') (hslash : c ≠ '\\') (hbreak : c ≠ '\n') :
    inside.Leaves [c] inside [] := by
  intro rest
  rw [List.cons_append, blank?, if_neg hquote, if_neg hbreak, if_neg hslash]
  exact (congrFun Option.map_id _).symm

theorem pair {c : Char} (hbreak : c ≠ '\n') : inside.Leaves ['\\', c] inside [] := by
  intro rest
  have hslash : inside.blank? (['\\', c] ++ rest) = escaped.blank? (c :: rest) := rfl
  rw [hslash, blank?, if_neg hbreak]
  exact (congrFun Option.map_id _).symm

theorem escapeChar (c : Char) : inside.Leaves (Dot.escapeChar c) inside [] := by
  unfold Dot.escapeChar
  split
  case isTrue => exact pair (by decide)
  case isFalse hbreak =>
    split
    case isTrue =>
      exact (bare (by decide) (by decide) (by decide)).append
        (bare (by decide) (by decide) (by decide))
    case isFalse =>
      split
      case isTrue => exact pair hbreak
      case isFalse hspecial =>
        have hquote : c ≠ '"' := by
          rintro rfl
          exact hspecial rfl
        have hslash : c ≠ '\\' := by
          rintro rfl
          exact hspecial rfl
        exact bare hquote hslash hbreak

/-- An escaped label neither ends the string that it stands in nor takes a character behind it. -/
theorem escapeChars (label : List Char) :
    inside.Leaves (Dot.escapeChars label) inside [] := by
  induction label using Dot.escapeChars.induct with
  | case1 => exact .nil inside
  | case2 rest ih =>
      rw [Dot.escapeChars]
      exact (pair (by decide)).append ih
  | case3 c rest hl hescapable ih =>
      rw [Dot.escapeChars.eq_3 _ _ hl, if_pos hescapable]
      have hbreak : c ≠ '\n' := by
        rintro rfl
        exact absurd hescapable (by decide)
      exact (pair hbreak).append ih
  | case4 c rest hl hescapable ih =>
      rw [Dot.escapeChars.eq_3 _ _ hl, if_neg hescapable]
      exact (pair (by decide)).append ih
  | case5 c rest hl hslash ih =>
      rw [Dot.escapeChars.eq_4 _ _ hl hslash]
      exact (escapeChar c).append ih

theorem quoted {text : List Char} (h : inside.Leaves text inside []) :
    outside.Leaves ('"' :: (text ++ ['"'])) outside ['"', '"'] :=
  (opening.append h).append closing

end Leaves

end Scan

/-- A document without the contents of its strings. -/
def blanked? (document : String) : Option String :=
  (Scan.outside.blank? document.toList).map String.ofList

open Scan

/-! ### Clusters -/

/-- The strings in the listing are closed. -/
def Listing.Closed (listing : Listing) : Prop :=
  ∃ out, outside.Leaves listing.text.toList outside out

namespace Listing.Closed

theorem nil (complete : Bool) : Closed ⟨"", complete⟩ :=
  ⟨[], .nil outside⟩

theorem append {first second : Listing} (h : first.Closed) (h' : second.Closed) :
    (first ++ second).Closed := by
  cases hcomplete : first.complete with
  | false => rwa [Listing.append_of_broken hcomplete]
  | true =>
      obtain ⟨out, hout⟩ := h
      obtain ⟨out', hout'⟩ := h'
      rw [Listing.append_of_complete hcomplete]
      refine ⟨out ++ out', ?_⟩
      rw [String.toList_append]
      exact hout.append hout'

theorem line {content : String} (width : Int)
    (h : ∃ out, outside.Leaves content.toList outside out) :
    (Cluster.line width content).Closed := by
  obtain ⟨out, hout⟩ := h
  have hblanks : '"' ∉ (blanks width).toList := by simp [blanks]
  refine ⟨(blanks width).toList ++ out ++ "\n".toList, ?_⟩
  rw [Cluster.line, String.toList_append, String.toList_append]
  exact ((Leaves.plain hblanks).append hout).append (.plain (by decide))

theorem plainLine {content : String} (width : Int) (h : '"' ∉ content.toList) :
    (Cluster.line width content).Closed :=
  .line width ⟨_, .plain h⟩

theorem memberLines (width : Int) (members? : Option (List Nat)) :
    (Cluster.memberLines width members?).Closed := by
  cases members? with
  | none => exact .nil false
  | some members =>
      rw [Cluster.memberLines]
      induction members with
      | nil => exact .nil true
      | cons index rest ih =>
          refine .append (.plainLine width ?_) ih
          have htext : (s!"Node{index};").toList =
              "Node".toList ++ (toString index).toList ++ ";".toList := by
            rw [String.toList_append, String.toList_append]
            rfl
          rw [htext, List.mem_append, List.mem_append, not_or, not_or]
          exact ⟨⟨by decide, Text.not_mem_toString_nat (by decide) index⟩, by decide⟩

theorem label : ∃ out, outside.Leaves "label = \"\";".toList outside out := by
  have hfirst : outside.Leaves "label = ".toList outside _ := .plain (by decide)
  have hquotes : outside.Leaves ['"', '"'] outside _ := .quoted (.nil inside)
  have hlast : outside.Leaves ";".toList outside _ := .plain (by decide)
  exact ⟨_, (hfirst.append hquotes).append hlast⟩

mutual

theorem listing (depth : Int) : ∀ cluster : Cluster, (cluster.listing depth).Closed
  | .mk number style inner members? => by
    have hopening : '"' ∉ ("subgraph cluster_" ++ toString number ++ " \x7b").toList := by
      rw [String.toList_append, String.toList_append, List.mem_append, List.mem_append, not_or,
        not_or]
      exact ⟨⟨by decide, Text.not_mem_toString_int (by decide) (by decide) number⟩, by decide⟩
    have hstyle : '"' ∉ (s!"style = {style.paint.name};").toList := by
      cases style.paint <;> decide
    have hcolor : '"' ∉ (s!"color = {style.color}").toList := by
      rw [String.toList_append, List.mem_append, not_or]
      exact ⟨by decide, Text.not_mem_toString_int (by decide) (by decide) style.color⟩
    rw [Cluster.listing]
    exact (plainLine (2 * depth) hopening).append (.line (2 * (depth + 1)) label)
      |>.append (.plainLine (2 * (depth + 1)) hstyle)
      |>.append (.plainLine (2 * (depth + 1)) hcolor)
      |>.append (innerListing (depth + 1) inner)
      |>.append (.memberLines (2 * (depth + 1)) members?)
      |>.append (.plainLine (2 * depth) (by decide))

theorem innerListing (depth : Int) :
    ∀ inner : List Cluster, (Cluster.innerListing depth inner).Closed
  | [] => .nil true
  | cluster :: rest => by
    rw [Cluster.innerListing]
    exact (listing depth cluster).append (innerListing depth rest)

end

end Listing.Closed

/-! ### Drawings -/

namespace Statement

/-- The names and attributes in a statement have no quotation marks. -/
def Plain : Statement → Prop
  | node id attributes _ => '"' ∉ id.toList ∧ '"' ∉ attributes.toList
  | edge source target attributes =>
    '"' ∉ source.toList ∧ '"' ∉ target.toList ∧ '"' ∉ attributes.toList

/-- The line of a statement without its label. -/
def skeleton : Statement → List Char
  | node id attributes _ =>
    ("\t" ++ id ++ " [shape=record," ++ (if attributes.isEmpty then "" else attributes ++ ",") ++
      "label=\"\"];\n").toList
  | edge source target attributes => (edge source target attributes).text.toList

theorem leaves_text {s : Statement} (h : s.Plain) :
    outside.Leaves s.text.toList outside s.skeleton := by
  cases s with
  | node id attributes label =>
      obtain ⟨hid, hattributes⟩ := h
      have hbefore : '"' ∉ ("\t" ++ id ++ " [shape=record," ++
          (if attributes.isEmpty then "" else attributes ++ ",") ++ "label=").toList := by
        split <;> simp [hid, hattributes]
      have hlabel : inside.Leaves ('{' :: (escapeChars label.toList ++ ['}'])) inside [] :=
        (Leaves.bare (by decide) (by decide) (by decide)).append
          ((Leaves.escapeChars label.toList).append
            (Leaves.bare (by decide) (by decide) (by decide)))
      have hafter : outside.Leaves "];\n".toList outside _ := .plain (by decide)
      have hline := ((Leaves.plain hbefore).append (.quoted hlabel)).append hafter
      have htext : (node id attributes label).text.toList =
          ("\t" ++ id ++ " [shape=record," ++
            (if attributes.isEmpty then "" else attributes ++ ",") ++ "label=").toList ++
          '"' :: ('{' :: (escapeChars label.toList ++ ['}']) ++ ['"']) ++ "];\n".toList := by
        simp [text, escape]
      have hskeleton : (node id attributes label).skeleton =
          ("\t" ++ id ++ " [shape=record," ++
            (if attributes.isEmpty then "" else attributes ++ ",") ++ "label=").toList ++
          ['"', '"'] ++ "];\n".toList := by
        simp [skeleton]
      rwa [htext, hskeleton]
  | edge source target attributes =>
      obtain ⟨hsource, htarget, hattributes⟩ := h
      have hplain : '"' ∉ (edge source target attributes).text.toList := by
        rw [text]
        split <;> simp [hsource, htarget, hattributes]
      exact .plain hplain

end Statement

namespace Drawing

theorem leaves_statements {statements : List Statement} (h : ∀ s ∈ statements, s.Plain) :
    outside.Leaves (String.join (statements.map Statement.text)).toList outside
      (statements.flatMap Statement.skeleton) := by
  induction statements with
  | nil => exact .nil outside
  | cons s rest ih =>
      rw [List.forall_mem_cons] at h
      rw [List.map_cons, String.join_cons, String.toList_append, List.flatMap_cons]
      exact (Statement.leaves_text h.1).append (ih h.2)

/-- What stays of a document that has a title depends neither on the title nor on the labels. -/
theorem blanked?_text {d : Drawing} (htitle : d.title.isEmpty = false)
    (hproperties : '"' ∉ d.properties.toList) (hstatements : ∀ s ∈ d.statements, s.Plain)
    {features : List Char} (hfeatures : outside.Leaves d.features.toList outside features) :
    blanked? d.text = some (String.ofList (
      "digraph \"\" \x7b\n\tlabel=\"\";\n".toList ++ d.properties.toList ++ "\n".toList ++
        d.statements.flatMap Statement.skeleton ++ features ++ "\x7d\n".toList)) := by
  have hquoted : outside.Leaves ('"' :: (escapeChars d.title.toList ++ ['"'])) outside ['"', '"'] :=
    .quoted (.escapeChars d.title.toList)
  have hstart : outside.Leaves "digraph ".toList outside _ := .plain (by decide)
  have hlabel : outside.Leaves " \x7b\n\tlabel=".toList outside _ := .plain (by decide)
  have hend : outside.Leaves ";\n".toList outside _ := .plain (by decide)
  have hbreak : outside.Leaves "\n".toList outside _ := .plain (by decide)
  have hclose : outside.Leaves "\x7d\n".toList outside _ := .plain (by decide)
  have hdocument := hstart.append hquoted |>.append hlabel |>.append hquoted |>.append hend
    |>.append (.plain hproperties) |>.append hbreak |>.append (leaves_statements hstatements)
    |>.append hfeatures |>.append hclose
  have htext : d.text.toList = "digraph ".toList ++ '"' :: (escapeChars d.title.toList ++ ['"']) ++
      " \x7b\n\tlabel=".toList ++ '"' :: (escapeChars d.title.toList ++ ['"']) ++ ";\n".toList ++
      d.properties.toList ++ "\n".toList ++
      (String.join (d.statements.map Statement.text)).toList ++ d.features.toList ++
      "\x7d\n".toList := by
    simp [text, headerText, htitle, escape]
  have hscan := hdocument []
  rw [List.append_nil] at hscan
  rw [blanked?, htext, hscan]
  simp [blank?]

end Drawing

end FlowRegions.Dot
