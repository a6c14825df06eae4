import FlowRegions.Dot.Cluster
import FlowRegions.Proofs.Text.Decimal

/-!
# Reading clusters back

The lines of a cluster section are read back into nested outlines. What is written for a cluster
reads back as the outline of that cluster, wherever it stands in the section.
-/

namespace FlowRegions.Dot

open Text

/-- What the lines of a cluster tell: the indentation of its first and last line, its number, the
clusters inside it, and the blocks listed after these. -/
inductive Outline where
  | mk (indent number : Nat) (inner : List Outline) (members : List Nat)
deriving Repr

namespace Outline

/-- The numbers in the first lines of the clusters, in the order of these lines. -/
def numbers : Outline → List Nat
  | mk _ number inner _ => number :: inner.flatMap numbers

@[simp] theorem numbers_mk (indent number : Nat) (inner : List Outline) (members : List Nat) :
    (mk indent number inner members).numbers = number :: inner.flatMap numbers := by
  rw [numbers]

/-- The blocks that are listed anywhere, in the order of their lines. -/
def allMembers : Outline → List Nat
  | mk _ _ inner members => inner.flatMap allMembers ++ members

@[simp] theorem allMembers_mk (indent number : Nat) (inner : List Outline) (members : List Nat) :
    (mk indent number inner members).allMembers = inner.flatMap allMembers ++ members := by
  rw [allMembers]

end Outline

/-! ### Lines -/

/-- What a line of a cluster section is for. -/
inductive Row where
  | opening (indent number : Nat)
  | member (index : Nat)
  | closing (indent : Nat)
  | attribute
deriving DecidableEq, Repr

/-- The number that stands between a prefix and a suffix. -/
def numberBetween? (before after content : List Char) : Option Nat := do
  let digits ← (← content.dropPrefix? before).dropSuffix? after
  if digits.isEmpty || !digits.all Char.isDigit then none else some (Nat.ofDigitChars 10 digits 0)

/-- What a line is for that has the given content behind its indentation. -/
def rowOf (indent : Nat) (content : List Char) : Row :=
  match numberBetween? "subgraph cluster_".toList " \x7b".toList content with
  | some number => .opening indent number
  | none =>
    if content = ['}'] then .closing indent
    else match numberBetween? "Node".toList ";".toList content with
      | some index => .member index
      | none => .attribute

def readRow (line : List Char) : Row :=
  rowOf (line.takeWhile (· = ' ')).length (line.dropWhile (· = ' '))

/-- The lines of a text, the rest behind the last line break included. -/
def rowsOf (text : List Char) : List Row :=
  (text.splitOn '\n').map readRow

theorem numberBetween?_toDigits (before after : List Char) (n : Nat) :
    numberBetween? before after (before ++ (Nat.toDigits 10 n ++ after)) = some n := by
  have hdigits : (Nat.toDigits 10 n).all Char.isDigit = true := by
    rw [List.all_eq_true]
    intro c hc
    exact Nat.isDigit_of_mem_toDigits (by decide) (by decide) hc
  have hne : (Nat.toDigits 10 n).isEmpty = false := by
    rw [List.isEmpty_eq_false_iff]
    exact Nat.toDigits_ne_nil
  have hsuffix : (Nat.toDigits 10 n ++ after).dropSuffix? after = some (Nat.toDigits 10 n) :=
    List.dropSuffix?_eq_some_iff.mpr ⟨after, rfl, BEq.refl after⟩
  rw [numberBetween?, List.dropPrefix?_append_of_beq _ (BEq.refl before)]
  simp only [Option.bind_eq_bind, Option.bind_some, hsuffix, hne, hdigits,
    Nat.ofDigitChars_ten_toDigits]
  rfl

@[simp] theorem rowOf_opening (indent n : Nat) :
    rowOf indent ("subgraph cluster_".toList ++ (Nat.toDigits 10 n ++ " \x7b".toList)) =
      .opening indent n := by
  rw [rowOf, numberBetween?_toDigits]

@[simp] theorem rowOf_closing (indent : Nat) : rowOf indent "\x7d".toList = .closing indent := rfl

@[simp] theorem rowOf_member (indent n : Nat) :
    rowOf indent ("Node".toList ++ (Nat.toDigits 10 n ++ ";".toList)) = .member n := by
  have hopening : numberBetween? "subgraph cluster_".toList " \x7b".toList
      ("Node".toList ++ (Nat.toDigits 10 n ++ ";".toList)) = none := rfl
  have hclosing : "Node".toList ++ (Nat.toDigits 10 n ++ ";".toList) ≠ ['}'] := by
    simp
  rw [rowOf, hopening]
  dsimp only
  rw [if_neg hclosing, numberBetween?_toDigits]

theorem readRow_replicate_append (width : Nat) {content : List Char}
    (h : content.head? ≠ some ' ') :
    readRow (List.replicate width ' ' ++ content) = rowOf width content := by
  have hnone : content.takeWhile (· = ' ') = [] ∧ content.dropWhile (· = ' ') = content := by
    cases content with
    | nil => exact ⟨rfl, rfl⟩
    | cons c rest =>
        have hc : c ≠ ' ' := by
          intro heq
          exact h (congrArg some heq)
        simp [hc]
  rw [readRow, List.takeWhile_append_of_pos (by simp), List.dropWhile_append_of_pos (by simp),
    hnone.1, hnone.2, List.append_nil, List.length_replicate]

theorem rowsOf_line {line : List Char} (h : '\n' ∉ line) (rest : List Char) :
    rowsOf (line ++ '\n' :: rest) = readRow line :: rowsOf rest := by
  rw [rowsOf, List.splitOn_append_cons_self_of_not_mem h, List.map_cons, rowsOf]

/-! ### Reading -/

/-- A cluster whose last line has not been read yet, and the clusters in front of it. -/
structure OpenCluster where
  indent : Nat
  number : Nat
  before : List Outline

/-- What has been read: the finished clusters and the blocks directly inside the innermost open
cluster, and the open clusters, the innermost first. -/
structure Reader where
  inner : List Outline := []
  members : List Nat := []
  enclosing : List OpenCluster := []

namespace Reader

/-- Reads one line. Blocks stand inside a cluster and behind the clusters in it, and the last line
of a cluster is indented like the first. -/
def step (s : Reader) : Row → Option Reader
  | .opening indent number =>
    if s.members = [] then some { enclosing := ⟨indent, number, s.inner⟩ :: s.enclosing } else none
  | .member index =>
    if s.enclosing = [] then none else some { s with members := s.members ++ [index] }
  | .closing indent =>
    match s.enclosing with
    | [] => none
    | cluster :: rest =>
      if indent = cluster.indent then
        some {
          inner := cluster.before ++ [.mk indent cluster.number s.inner s.members]
          enclosing := rest }
      else none
  | .attribute => some s

/-- Reads all lines of a text. -/
def run (s : Reader) (text : List Char) : Option Reader :=
  (rowsOf text).foldlM step s

end Reader

/-- The outlines of the clusters in a text, if every cluster in it is finished. -/
def Outline.read? (text : String) : Option (List Outline) := do
  let s ← Reader.run {} text.toList
  if s.enclosing.isEmpty && s.members.isEmpty then some s.inner else none

/-- The listing is whole, and reading it leads from one state to another, whatever follows. -/
def Listing.Reads (listing : Listing) (s s' : Reader) : Prop :=
  listing.complete = true ∧ ∀ rest, s.run (listing.text.toList ++ rest) = s'.run rest

namespace Listing.Reads

theorem nil (s : Reader) : Reads ⟨"", true⟩ s s :=
  ⟨rfl, fun _ => rfl⟩

theorem append {first second : Listing} {s s' s'' : Reader} (h : first.Reads s s')
    (h' : second.Reads s' s'') : (first ++ second).Reads s s'' := by
  rw [Listing.append_of_complete h.1]
  refine ⟨h'.1, fun rest => ?_⟩
  rw [String.toList_append, List.append_assoc, h.2, h'.2]

theorem line {width : Int} {content : String} {s s' : Reader} (hbreak : '\n' ∉ content.toList)
    (hhead : content.toList.head? ≠ some ' ')
    (hstep : s.step (rowOf width.toNat content.toList) = some s') :
    (Cluster.line width content).Reads s s' := by
  refine ⟨rfl, fun rest => ?_⟩
  have htext : (Cluster.line width content).text.toList ++ rest =
      (List.replicate width.toNat ' ' ++ content.toList) ++ '\n' :: rest := by
    simp [Cluster.line, blanks]
  have hline : '\n' ∉ List.replicate width.toNat ' ' ++ content.toList := by
    simp [hbreak]
  rw [htext, Reader.run, rowsOf_line hline, readRow_replicate_append _ hhead, List.foldlM_cons,
    hstep]
  rfl

end Listing.Reads

/-! ### Written clusters -/

theorem rowOf_eq_attribute {indent : Nat} {content : List Char}
    (hopening : content.dropPrefix? "subgraph cluster_".toList = none) (hclosing : content ≠ ['}'])
    (hmember : content.dropPrefix? "Node".toList = none) : rowOf indent content = .attribute := by
  rw [rowOf, numberBetween?, hopening]
  simp only [Option.bind_eq_bind, Option.bind_none]
  rw [if_neg hclosing, numberBetween?, hmember]
  simp only [Option.bind_eq_bind, Option.bind_none]

namespace Cluster

mutual

/-- The members of the cluster and of the clusters in it are known, and no number is negative. -/
def Complete : Cluster → Prop
  | .mk number _ inner members? => 0 ≤ number ∧ members?.isSome ∧ AllComplete inner

def AllComplete : List Cluster → Prop
  | [] => True
  | cluster :: rest => Complete cluster ∧ AllComplete rest

end

mutual

/-- The outline of a cluster that is written at a depth. -/
def outline (depth : Int) : Cluster → Outline
  | .mk number _ inner members? =>
    .mk (2 * depth).toNat number.toNat (innerOutlines (depth + 1) inner) (members?.getD [])

def innerOutlines (depth : Int) : List Cluster → List Outline
  | [] => []
  | cluster :: rest => outline depth cluster :: innerOutlines depth rest

end

theorem allComplete_iff {inner : List Cluster} :
    AllComplete inner ↔ ∀ cluster ∈ inner, cluster.Complete := by
  induction inner with
  | nil => simp [AllComplete]
  | cons cluster rest ih => rw [AllComplete, ih, List.forall_mem_cons]

theorem innerOutlines_eq_map (depth : Int) (inner : List Cluster) :
    innerOutlines depth inner = inner.map (outline depth) := by
  induction inner with
  | nil => rfl
  | cons cluster rest ih => rw [innerOutlines, ih, List.map_cons]

theorem reads_attribute {width : Int} {content : String} (s : Reader)
    (hbreak : '\n' ∉ content.toList) (hhead : content.toList.head? ≠ some ' ')
    (hopening : content.toList.dropPrefix? "subgraph cluster_".toList = none)
    (hclosing : content.toList ≠ ['}'])
    (hmember : content.toList.dropPrefix? "Node".toList = none) :
    (line width content).Reads s s := by
  apply Listing.Reads.line hbreak hhead
  rw [rowOf_eq_attribute hopening hclosing hmember]
  rfl

theorem reads_label (width : Int) (s : Reader) : (line width "label = \"\";").Reads s s :=
  reads_attribute s (by decide) (by decide) (by decide) (by decide) (by decide)

theorem reads_style (width : Int) (paint : Paint) (s : Reader) :
    (line width s!"style = {paint.name};").Reads s s := by
  cases paint
  all_goals exact reads_attribute s (by decide) (by decide) (by decide) (by decide) (by decide)

theorem reads_color (width color : Int) (s : Reader) :
    (line width s!"color = {color}").Reads s s := by
  have htext : (s!"color = {color}").toList = "color = ".toList ++ (toString color).toList :=
    String.toList_append
  refine reads_attribute s ?_ ?_ ?_ ?_ ?_ <;> rw [htext]
  · rw [List.mem_append, not_or]
    exact ⟨by decide, not_mem_toString_int (by decide) (by decide) color⟩
  all_goals simp [List.dropPrefix?]

theorem reads_opening (width : Int) (n : Nat) {s : Reader} (h : s.members = []) :
    (line width ("subgraph cluster_" ++ toString (n : Int) ++ " \x7b")).Reads s
      { enclosing := ⟨width.toNat, n, s.inner⟩ :: s.enclosing } := by
  have htext : ("subgraph cluster_" ++ toString (n : Int) ++ " \x7b").toList =
      "subgraph cluster_".toList ++ (Nat.toDigits 10 n ++ " \x7b".toList) := by
    rw [String.toList_append, String.toList_append, toList_toString_natCast, List.append_assoc]
  refine .line ?_ ?_ ?_ <;> rw [htext]
  · rw [List.mem_append, List.mem_append, not_or, not_or]
    exact ⟨by decide, not_mem_toDigits (by decide) n, by decide⟩
  · simp
  · rw [rowOf_opening, Reader.step, if_pos h]

theorem reads_member (width : Int) (index : Nat) {s : Reader} (h : s.enclosing ≠ []) :
    (line width s!"Node{index};").Reads s { s with members := s.members ++ [index] } := by
  have htext : (s!"Node{index};").toList =
      "Node".toList ++ (Nat.toDigits 10 index ++ ";".toList) := by
    rw [← toList_toString_nat, ← List.append_assoc, String.toList_append, String.toList_append]
    rfl
  refine .line ?_ ?_ ?_ <;> rw [htext]
  · rw [List.mem_append, List.mem_append, not_or, not_or]
    exact ⟨by decide, not_mem_toDigits (by decide) index, by decide⟩
  · simp
  · rw [rowOf_member, Reader.step, if_neg h]

theorem reads_closing {width : Int} {s : Reader} {n : Nat} {before : List Outline}
    {rest : List OpenCluster} (h : s.enclosing = ⟨width.toNat, n, before⟩ :: rest) :
    (line width "\x7d").Reads s
      { inner := before ++ [.mk width.toNat n s.inner s.members], enclosing := rest } := by
  apply Listing.Reads.line
  · decide
  · decide
  · rw [rowOf_closing, Reader.step, h]
    exact if_pos rfl

theorem reads_memberLines (width : Int) (members : List Nat) {s : Reader}
    (h : s.enclosing ≠ []) :
    (memberLines width (some members)).Reads s { s with members := s.members ++ members } := by
  induction members generalizing s with
  | nil =>
      rw [List.append_nil]
      exact .nil s
  | cons index members ih =>
      have hrest := ih (s := { s with members := s.members ++ [index] }) h
      rw [List.append_assoc] at hrest
      exact (reads_member width index h).append hrest

mutual

/-- Reading the lines of a cluster adds its outline to what stands in front of it. -/
theorem reads_listing (depth : Int) : ∀ {cluster : Cluster}, cluster.Complete →
    ∀ {s : Reader}, s.members = [] →
      (cluster.listing depth).Reads s { s with inner := s.inner ++ [cluster.outline depth] }
  | .mk number style inner members?, h, s, hs => by
    rw [Complete] at h
    obtain ⟨hnumber, hmembers, hinner⟩ := h
    obtain ⟨n, rfl⟩ := Int.eq_ofNat_of_zero_le hnumber
    obtain ⟨members, rfl⟩ := Option.isSome_iff_exists.mp hmembers
    have hopening := reads_opening (2 * depth) n hs
    have hbelow := hopening.append (reads_label (2 * (depth + 1)) _)
      |>.append (reads_style (2 * (depth + 1)) style.paint _)
      |>.append (reads_color (2 * (depth + 1)) style.color _)
      |>.append (reads_innerListing (depth + 1) hinner rfl)
      |>.append (reads_memberLines (2 * (depth + 1)) members (List.cons_ne_nil _ _))
      |>.append (reads_closing rfl)
    rw [listing, outline]
    rcases s with ⟨inner', members', enclosing⟩
    obtain rfl : members' = [] := hs
    exact hbelow

theorem reads_innerListing (depth : Int) : ∀ {inner : List Cluster}, AllComplete inner →
    ∀ {s : Reader}, s.members = [] →
      (innerListing depth inner).Reads s { s with inner := s.inner ++ innerOutlines depth inner }
  | [], _, s, _ => by
    rw [innerListing, innerOutlines, List.append_nil]
    exact .nil s
  | cluster :: rest, h, s, hs => by
    rw [AllComplete] at h
    have hcluster := reads_listing depth h.1 hs
    have hrest := hcluster.append (reads_innerListing depth h.2 hs)
    rw [innerListing, innerOutlines]
    rwa [List.append_assoc] at hrest

end

theorem read?_text_listing (depth : Int) {cluster : Cluster} (h : cluster.Complete) :
    Outline.read? (cluster.listing depth).text = some [cluster.outline depth] := by
  have hreads := (reads_listing depth h (s := {}) rfl).2 []
  rw [List.append_nil] at hreads
  rw [Outline.read?, hreads]
  rfl

end Cluster

end FlowRegions.Dot
