import FlowRegions.Dot.Drawing
import FlowRegions.Proofs.Description.Outcome
import Mathlib.Algebra.Order.Ring.Nat

/-!
# Hidden nodes

A drawing can be written in one pass, node by node, where the nodes and the edges are counted as they
are written and hidden nodes are passed over twice, as nodes and as ends of edges. This gives the
text and the counts of the drawing. A view from which the hidden nodes are taken out beforehand is
drawn alike.
-/

namespace FlowRegions.Dot

/-- What has been written of a drawing, with the nodes and the edges counted. -/
structure Sheet where
  text : String
  nodeCount : Nat := 0
  edgeCount : Nat := 0
deriving DecidableEq, Repr

namespace Sheet

def write (sheet : Sheet) (text : String) : Sheet :=
  { sheet with text := sheet.text ++ text }

/-- The sheet with several statements more. -/
def writeAll (sheet : Sheet) (statements : List Statement) : Sheet where
  text := sheet.text ++ String.join (statements.map Statement.text)
  nodeCount := sheet.nodeCount + statements.countP (·.isNode)
  edgeCount := sheet.edgeCount + statements.countP (!·.isNode)

@[simp] theorem writeAll_nil (sheet : Sheet) : sheet.writeAll [] = sheet := by
  simp [writeAll]

theorem writeAll_append (sheet : Sheet) (statements more : List Statement) :
    sheet.writeAll (statements ++ more) = (sheet.writeAll statements).writeAll more := by
  simp [writeAll, String.append_assoc, Nat.add_assoc]

end Sheet

/-- The sheet that holds a finished drawing. -/
def Drawing.sheet (d : Drawing) : Sheet :=
  ⟨d.text, d.nodeCount, d.edgeCount⟩

namespace View

variable {ε ν : Type} (view : View ε ν)

/-! ### Writing in one pass -/

/-- Takes one step for each node of a list that is not hidden. -/
def writeEach (step : Sheet → ν → Except ε Sheet) (nodes : List ν) (sheet : Sheet) :
    Except ε Sheet :=
  nodes.foldlM (fun sheet node => if view.isHidden node then .ok sheet else step sheet node) sheet

def writeEdge (source : ν) (sheet : Sheet) (target : ν) : Except ε Sheet := do
  let sheet := sheet.write (← view.edgeStatement source target).text
  return { sheet with edgeCount := sheet.edgeCount + 1 }

/-- Writes the statement about a node and those about the edges to its visible children. -/
def writeNode (sheet : Sheet) (node : ν) : Except ε Sheet := do
  let id ← view.nodeId node
  let sheet := sheet.write (Statement.node id (view.nodeAttributes node) (view.label node)).text
  let children ← view.children node
  view.writeEach (view.writeEdge node) children { sheet with nodeCount := sheet.nodeCount + 1 }

def writeNodes (sheet : Sheet) : Except ε Sheet := do
  view.writeEach view.writeNode (← view.nodes) sheet

/-- Writes the header, the statements, the features and the closing brace. -/
def write (title : String) : Except ε Sheet := do
  let heading := if title.isEmpty then view.name else title
  let header : Drawing := ⟨heading, view.properties, [], ""⟩
  let sheet ← view.writeNodes { text := header.headerText }
  return (sheet.write (← view.features)).write "\x7d\n"

variable {view}

/-- Where each step writes what an item gives, passing over hidden nodes writes what the others
give. -/
theorem writeEach_eq {β : Type} {step : Sheet → ν → Except ε Sheet} {item : ν → Except ε β}
    {content : β → List Statement}
    (hstep : ∀ sheet node, step sheet node =
      (item node).map fun found => sheet.writeAll (content found))
    (nodes : List ν) (sheet : Sheet) : view.writeEach step nodes sheet =
      ((nodes.filter (!view.isHidden ·)).mapM item).map fun found =>
        sheet.writeAll (found.flatMap content) := by
  induction nodes generalizing sheet with
  | nil => simp [writeEach, pure, Except.pure, Except.map]
  | cons node nodes ih =>
      rw [writeEach, List.foldlM_cons]
      cases hhidden : view.isHidden node with
      | true =>
          rw [List.filter_cons_of_neg (by simp [hhidden])]
          exact ih sheet
      | false =>
          rw [List.filter_cons_of_pos (by simp [hhidden]), List.mapM_cons, if_neg (by simp),
            hstep]
          cases item node with
          | error e => rfl
          | ok found =>
              refine (ih _).trans ?_
              cases (nodes.filter (!view.isHidden ·)).mapM item with
              | error e => rfl
              | ok rest =>
                  exact congrArg Except.ok (Sheet.writeAll_append sheet _ _).symm

theorem writeEdge_eq (source : ν) (sheet : Sheet) (target : ν) :
    view.writeEdge source sheet target =
      (view.edgeStatement source target).map fun statement => sheet.writeAll [statement] := by
  rw [writeEdge, edgeStatement]
  cases view.nodeId source with
  | error e => rfl
  | ok id =>
      cases view.nodeId target with
      | error e => rfl
      | ok id' => simp [bind, Except.bind, pure, Except.pure, Except.map, Sheet.write,
          Sheet.writeAll, Statement.isNode]

theorem writeNode_eq (sheet : Sheet) (node : ν) :
    view.writeNode sheet node = (view.nodeStatements node).map sheet.writeAll := by
  rw [writeNode, nodeStatements]
  cases view.nodeId node with
  | error e => rfl
  | ok id =>
      cases view.children node with
      | error e => rfl
      | ok children =>
          refine (writeEach_eq (writeEdge_eq node) children _).trans ?_
          cases hedges : (children.filter (!view.isHidden ·)).mapM (view.edgeStatement node) with
          | error e => simp [bind, Except.bind, Except.map, hedges]
          | ok edges =>
              simp only [bind, Except.bind, pure, Except.pure, Except.map, hedges]
              rw [List.flatMap_singleton', ← List.singleton_append, Sheet.writeAll_append]
              simp [Sheet.write, Sheet.writeAll, Statement.isNode]

theorem writeNodes_eq (sheet : Sheet) :
    view.writeNodes sheet = view.statements.map sheet.writeAll := by
  rw [writeNodes, statements]
  cases view.nodes with
  | error e => rfl
  | ok nodes =>
      refine (writeEach_eq writeNode_eq nodes sheet).trans ?_
      cases hgroups : (nodes.filter (!view.isHidden ·)).mapM view.nodeStatements with
      | error e => simp [bind, Except.bind, Except.map, hgroups]
      | ok groups => simp [bind, Except.bind, pure, Except.pure, Except.map, hgroups]

/-- Writing in one pass gives the text and the counts of the drawing. -/
theorem write_eq (title : String) : view.write title = (view.draw title).map Drawing.sheet := by
  rw [write, draw]
  simp only [writeNodes_eq]
  cases view.statements with
  | error e => rfl
  | ok statements =>
      cases view.features with
      | error e => rfl
      | ok features =>
          simp [bind, Except.bind, pure, Except.pure, Except.map, Sheet.write, Sheet.writeAll,
            Drawing.sheet, Drawing.text, Drawing.headerText, Drawing.nodeCount, Drawing.edgeCount]

/-! ### Taking hidden nodes out -/

variable (view) in
/-- The view without its hidden nodes, as nodes and as children. -/
def withoutHidden : View ε ν := { view with
  nodes := view.nodes.map (List.filter (!view.isHidden ·))
  children := fun node => (view.children node).map (List.filter (!view.isHidden ·))
  isHidden := fun _ => false }

theorem filter_withoutHidden (nodes : List ν) :
    nodes.filter (!view.withoutHidden.isHidden ·) = nodes :=
  List.filter_eq_self.mpr fun _ _ => rfl

theorem nodeStatements_withoutHidden (node : ν) :
    view.withoutHidden.nodeStatements node = view.nodeStatements node := by
  have hid : view.withoutHidden.nodeId node = view.nodeId node := rfl
  have hchildren : view.withoutHidden.children node =
      (view.children node).map (List.filter (!view.isHidden ·)) := rfl
  have hedge : view.withoutHidden.edgeStatement node = view.edgeStatement node := rfl
  rw [nodeStatements, nodeStatements, hid, hchildren, hedge]
  simp only [filter_withoutHidden]
  cases view.children node with
  | error e => rfl
  | ok children => rfl

theorem statements_withoutHidden : view.withoutHidden.statements = view.statements := by
  have hnodes : view.withoutHidden.nodes =
      view.nodes.map (List.filter (!view.isHidden ·)) := rfl
  rw [statements, statements, hnodes, funext nodeStatements_withoutHidden]
  simp only [filter_withoutHidden]
  cases view.nodes with
  | error e => rfl
  | ok nodes => rfl

theorem draw_withoutHidden (title : String) :
    view.withoutHidden.draw title = view.draw title := by
  rw [draw, draw, statements_withoutHidden]
  rfl

/-! ### Counts -/

variable {nodes : List ν} {children : ν → List ν} {id : ν → String}

/-- The view has an answer to everything that it is asked about its visible nodes. -/
structure Answers (view : View ε ν) (nodes : List ν) (children : ν → List ν) (id : ν → String) :
    Prop where
  nodes_eq : view.nodes = .ok nodes
  children_eq : ∀ node ∈ nodes, view.isHidden node = false →
    view.children node = .ok (children node)
  nodeId_eq : ∀ node ∈ nodes, view.isHidden node = false → view.nodeId node = .ok (id node)
  childId_eq : ∀ node ∈ nodes, view.isHidden node = false → ∀ child ∈ children node,
    view.isHidden child = false → view.nodeId child = .ok (id child)
  features_eq : ∃ features, view.features = .ok features

/-- The statements about the edges from a node to its visible children. -/
def edgesFrom (view : View ε ν) (children : ν → List ν) (id : ν → String) (node : ν) :
    List Statement :=
  ((children node).filter (!view.isHidden ·)).map fun child =>
    .edge (id node) (id child) (view.edgeAttributes node child)

/-- The statements about a node and its visible children. -/
def statementsOf (view : View ε ν) (children : ν → List ν) (id : ν → String) (node : ν) :
    List Statement :=
  .node (id node) (view.nodeAttributes node) (view.label node) :: view.edgesFrom children id node

namespace Answers

variable (h : view.Answers nodes children id)

include h

theorem nodeStatements_eq {node : ν} (hnode : node ∈ nodes)
    (hvisible : view.isHidden node = false) :
    view.nodeStatements node = .ok (view.statementsOf children id node) := by
  have hid := h.nodeId_eq node hnode hvisible
  have hedges : ((children node).filter (!view.isHidden ·)).mapM (view.edgeStatement node) =
      .ok (view.edgesFrom children id node) := by
    apply mapM_eq_ok
    intro child hchild
    rw [List.mem_filter, Bool.not_eq_true'] at hchild
    rw [edgeStatement, hid, h.childId_eq node hnode hvisible child hchild.1 hchild.2]
    rfl
  rw [nodeStatements, hid, h.children_eq node hnode hvisible]
  simp only [bind, Except.bind, hedges]
  rfl

theorem statements_eq : view.statements =
    .ok ((nodes.filter (!view.isHidden ·)).flatMap (view.statementsOf children id)) := by
  have hgroups : (nodes.filter (!view.isHidden ·)).mapM view.nodeStatements =
      .ok ((nodes.filter (!view.isHidden ·)).map (view.statementsOf children id)) := by
    apply mapM_eq_ok
    intro node hnode
    rw [List.mem_filter, Bool.not_eq_true'] at hnode
    exact h.nodeStatements_eq hnode.1 hnode.2
  rw [statements, h.nodes_eq]
  simp only [bind, Except.bind, hgroups]
  rfl

theorem exists_draw (title : String) : ∃ d, view.draw title = .ok d ∧
    d.statements = (nodes.filter (!view.isHidden ·)).flatMap (view.statementsOf children id) := by
  obtain ⟨features, hfeatures⟩ := h.features_eq
  rw [draw, h.statements_eq, hfeatures]
  exact ⟨_, rfl, rfl⟩

end Answers

theorem filter_statementsOf (nodes : List ν) :
    (nodes.flatMap (view.statementsOf children id)).filter (!·.isNode) =
      nodes.flatMap (view.edgesFrom children id) := by
  rw [List.filter_flatMap]
  apply List.flatMap_congr
  intro node _
  rw [statementsOf, List.filter_cons_of_neg (by simp [Statement.isNode]), List.filter_eq_self]
  intro statement hstatement
  obtain ⟨child, _, rfl⟩ := List.mem_map.mp hstatement
  rfl

theorem countP_isNode_statementsOf (nodes : List ν) :
    (nodes.flatMap (view.statementsOf children id)).countP (·.isNode) = nodes.length := by
  have hone : ∀ node, (view.statementsOf children id node).countP (·.isNode) = 1 := by
    intro node
    rw [statementsOf, List.countP_cons_of_pos rfl, Nat.add_eq_right, List.countP_eq_zero]
    intro statement hstatement
    obtain ⟨child, _, rfl⟩ := List.mem_map.mp hstatement
    exact Bool.false_ne_true
  induction nodes with
  | nil => rfl
  | cons node nodes ih =>
      rw [List.flatMap_cons, List.countP_append, ih, hone, List.length_cons, Nat.add_comm]

/-- Whatever is hidden, a drawing is written in one pass as it is drawn, and written and drawn as if
the hidden nodes had been taken out beforehand. Where nothing is missing it is complete: it counts
the visible nodes and their visible children, and has an edge statement for each of these. -/
theorem write_withoutHidden (view : View ε ν) (title : String) :
    view.write title = (view.draw title).map Drawing.sheet ∧
    view.withoutHidden.draw title = view.draw title ∧
    view.withoutHidden.write title = view.write title ∧
    ∀ {nodes : List ν} {children : ν → List ν} {id : ν → String},
      view.Answers nodes children id → ∃ d, view.draw title = .ok d ∧
        view.write title = .ok d.sheet ∧
        d.nodeCount = nodes.countP (!view.isHidden ·) ∧
        d.edgeCount = ((nodes.filter (!view.isHidden ·)).map fun node =>
          (children node).countP (!view.isHidden ·)).sum ∧
        d.edgeCount = (d.statements.filter (!·.isNode)).length ∧
        d.statements.filter (!·.isNode) =
          (nodes.filter (!view.isHidden ·)).flatMap (view.edgesFrom children id) := by
  refine ⟨write_eq title, draw_withoutHidden title, ?_, ?_⟩
  · rw [write_eq, write_eq, draw_withoutHidden]
  · intro nodes children id h
    obtain ⟨d, hdraw, hstatements⟩ := h.exists_draw title
    have hedges : d.statements.filter (!·.isNode) =
        (nodes.filter (!view.isHidden ·)).flatMap (view.edgesFrom children id) := by
      rw [hstatements, filter_statementsOf]
    refine ⟨d, hdraw, ?_, ?_, ?_, List.countP_eq_length_filter, hedges⟩
    · rw [write_eq, hdraw]
      rfl
    · rw [Drawing.nodeCount, hstatements, countP_isNode_statementsOf, List.countP_eq_length_filter]
    · rw [Drawing.edgeCount, List.countP_eq_length_filter, hedges, List.length_flatMap]
      simp [edgesFrom, List.countP_eq_length_filter]

/-- Four nodes, of which the one numbered 1 is hidden, with an edge drawn twice. -/
def hiddenMiddle : View Unit Nat where
  name := "hidden"
  nodes := .ok [0, 1, 2, 3]
  children node := .ok (if node = 0 then [1, 2, 2] else if node = 3 then [1] else [0, 3])
  nodeId node := .ok s!"N{node}"
  isHidden := (· = 1)

/-- Three nodes and four edges are written of a graph with four nodes and eight edges. -/
theorem write_withoutHidden_middle : ∃ d, hiddenMiddle.draw "" = .ok d ∧
    hiddenMiddle.withoutHidden.draw "" = .ok d ∧ hiddenMiddle.write "" = .ok d.sheet ∧
    d.nodeCount = 3 ∧ d.edgeCount = 4 ∧
    d.statements.filter (!·.isNode) =
      [.edge "N0" "N2" "", .edge "N0" "N2" "", .edge "N2" "N0" "", .edge "N2" "N3" ""] := by
  obtain ⟨_, hdraw, _, hcounts⟩ := write_withoutHidden hiddenMiddle ""
  have hanswers : hiddenMiddle.Answers [0, 1, 2, 3]
      (fun node => if node = 0 then [1, 2, 2] else if node = 3 then [1] else [0, 3])
      (fun node => s!"N{node}") := by
    exact ⟨rfl, fun _ _ _ => rfl, fun _ _ _ => rfl, fun _ _ _ _ _ _ => rfl, ⟨_, rfl⟩⟩
  obtain ⟨d, hd, hsheet, hnodes, hedges, _, hstatements⟩ := hcounts hanswers
  exact ⟨d, hd, hdraw.trans hd, hsheet, hnodes, hedges, hstatements⟩

end View

end FlowRegions.Dot
