import FlowRegions.Description.OfSexp
import FlowRegions.Proofs.Description.Drafts

/-!
# Reading S-expression descriptions

The reader as a chain of steps, and what every success leaves behind: a well-formed draft.
-/

namespace FlowRegions

namespace RegionPieces

/-- Resolves the name that a form stands for. -/
def resolveForm (g : Cfg) (role : BlockRole) (form : Sexp) : Except LoadFault Nat := do
  g.resolve role (← form.asName)

theorem lt_of_resolveForm {g : Cfg} {k : GraphRef} (hg : g.Consistent k) {role : BlockRole}
    {form : Sexp} {index : Nat}
    (h : resolveForm g role form = .ok index) : index < g.blocks.size := by
  obtain ⟨name, _, h⟩ := bind_eq_ok_iff.mp h
  exact hg.lt_of_resolve h

/-- Reads the exit among the values of a region form. -/
def toExit (g : Cfg) (pieces : RegionPieces) : Except LoadFault (Option Nat) :=
  match pieces.values.lookup "exit" with
  | none | some (.symbol "nil") => .ok none
  | some exit => some <$> resolveForm g .regionExit exit

/-- Reads the classification among the values of a region form. -/
def toSimple (pieces : RegionPieces) : Except LoadFault (Option Bool) :=
  match pieces.values.lookup "simple" with
  | none => .ok none
  | some simple => some <$> simple.asTruth

theorem toHeader_eq (g : Cfg) (pieces : RegionPieces) :
    pieces.toHeader g =
      match pieces.values.lookup "entry" with
      | none => .error (.regionFormWithoutEntry g.name)
      | some entry => do
        let entry ← resolveForm g .regionEntry entry
        let exit? ← pieces.toExit g
        let simple? ← pieces.toSimple
        return { entry, exit?, owned := pieces.owned, simple? } := by
  unfold toHeader toExit toSimple resolveForm
  cases pieces.values.lookup "entry" with
  | none => rfl
  | some entry =>
      dsimp only
      rw [bind_assoc]
      apply congrArg (_ >>= ·)
      funext name
      apply congrArg (_ >>= ·)
      funext entry
      generalize pieces.values.lookup "exit" = exit
      -- The classification is read behind the exit in both chains, so its match goes first.
      cases pieces.values.lookup "simple"
      all_goals
        split
        · rfl
        · rfl
        · simp only [pure, Except.pure]

theorem owned_lt_of_collect {g : Cfg} {k : GraphRef} (hg : g.Consistent k)
    {pieces pieces' : RegionPieces} {items : List Sexp}
    (hpieces : ∀ index ∈ pieces.owned, index < g.blocks.size)
    (h : collect g pieces items = .ok pieces') :
    ∀ index ∈ pieces'.owned, index < g.blocks.size := by
  fun_induction collect g pieces items with
  | case1 pieces =>
      obtain rfl := Except.ok.inj h
      exact hpieces
  | case2 => cases h
  | case3 pieces item keyword hkeyword value rest ih => exact ih hpieces h
  | case4 pieces rest names hkeyword ih =>
      obtain ⟨owned, howned, h⟩ := bind_eq_ok_iff.mp h
      apply ih owned _ h
      intro index hindex
      rcases List.mem_append.mp hindex with hindex | hindex
      · exact hpieces index hindex
      · obtain ⟨name, _, hname⟩ := exists_of_mem_of_mapM_eq_ok howned hindex
        exact lt_of_resolveForm hg hname
  | case5 pieces rest items hkeyword ih => exact ih hpieces h
  | case6 => cases h

theorem within_of_toHeader {g : Cfg} {k : GraphRef} (hg : g.Consistent k)
    {pieces : RegionPieces} {header : RegionHeader}
    (hpieces : ∀ index ∈ pieces.owned, index < g.blocks.size)
    (h : pieces.toHeader g = .ok header) : header.Within g.blocks.size := by
  rw [toHeader_eq] at h
  cases hentry : pieces.values.lookup "entry" with
  | none => simp [hentry] at h
  | some form =>
      rw [hentry] at h
      obtain ⟨entry, hentry, h⟩ := bind_eq_ok_iff.mp h
      obtain ⟨exit?, hexit, h⟩ := bind_eq_ok_iff.mp h
      obtain ⟨simple?, _, h⟩ := bind_eq_ok_iff.mp h
      obtain rfl := Except.ok.inj h
      refine ⟨lt_of_resolveForm hg hentry, ?_, hpieces⟩
      unfold toExit at hexit
      split at hexit
      · obtain rfl := Except.ok.inj hexit
        simp
      · obtain rfl := Except.ok.inj hexit
        simp
      · obtain ⟨exit, hresolve, rfl⟩ := map_eq_ok_iff.mp hexit
        intro index hindex
        obtain rfl := Option.mem_some_iff.mp hindex
        exact lt_of_resolveForm hg hresolve

end RegionPieces

theorem RegionHeader.within_of_ofSexp {g : Cfg} {k : GraphRef} (hg : g.Consistent k)
    {items : List Sexp} {header : RegionHeader}
    (h : RegionHeader.ofSexp g items = .ok header) : header.Within g.blocks.size := by
  obtain ⟨pieces, hpieces, h⟩ := bind_eq_ok_iff.mp h
  exact RegionPieces.within_of_toHeader hg
    (RegionPieces.owned_lt_of_collect hg (by simp) hpieces) h

namespace RegionTree

mutual

theorem within_of_ofSexp {g : Cfg} {k : GraphRef} (hg : g.Consistent k) :
    ∀ {form : Sexp} {t : RegionTree}, ofSexp g form = .ok t → t.Within g.blocks.size
  | .list items, t, h => by
    rw [ofSexp] at h
    obtain ⟨header, hheader, h⟩ := bind_eq_ok_iff.mp h
    obtain ⟨children, hchildren, h⟩ := bind_eq_ok_iff.mp h
    obtain rfl := Except.ok.inj h
    rw [within_node]
    exact ⟨RegionHeader.within_of_ofSexp hg hheader, within_of_ofSexpItems hg hchildren⟩
  | .symbol _, _, h => by cases h
  | .string _, _, h => by cases h
  | .int _, _, h => by cases h
  | .float _, _, h => by cases h
  | .brackets _, _, h => by cases h
  | .quoted _, _, h => by cases h

theorem within_of_ofSexpItems {g : Cfg} {k : GraphRef} (hg : g.Consistent k) :
    ∀ {afterKeyword : Bool} {items : List Sexp} {children : List RegionTree},
      ofSexpItems g afterKeyword items = .ok children →
      ∀ child ∈ children, child.Within g.blocks.size
  | _, [], children, h => by
    obtain rfl := Except.ok.inj h
    simp
  | afterKeyword, item :: rest, children, h => by
    rw [ofSexpItems] at h
    split at h
    · exact within_of_ofSexpItems hg h
    · split at h
      · exact within_of_ofSexpItems hg h
      · split at h
        · obtain ⟨tree, htree, h⟩ := bind_eq_ok_iff.mp h
          obtain ⟨others, hothers, h⟩ := bind_eq_ok_iff.mp h
          obtain rfl := Except.ok.inj h
          rw [List.forall_mem_cons]
          exact ⟨within_of_ofSexp hg htree, within_of_ofSexpItems hg hothers⟩
        · exact within_of_ofSexpItems hg h

end

end RegionTree

namespace Draft

theorem ofSexp_function (name : Sexp) (items : List Sexp) :
    ofSexp (.list (.symbol "function" :: name :: items)) = (do
      let function ← name.asName
      let pieces ← items.foldlM (FunctionPieces.add function) { workspace := .single function }
      let ws ← pieces.edges.foldlM addSexpEdge pieces.workspace
      let tree? ← (match pieces.region? with
        | none => .ok none
        | some region => some <$> RegionTree.ofSexp ws.onlyGraph region)
      ofParts ws tree?) := by
  rw [ofSexp]
  apply congrArg (_ >>= ·)
  funext function
  apply congrArg (_ >>= ·)
  funext pieces
  apply congrArg (_ >>= ·)
  funext ws
  cases pieces.region? <;> rfl

theorem holdsConsistent_of_add {function : String} {pieces pieces' : FunctionPieces} {item : Sexp}
    (h : HoldsConsistent pieces.workspace) (hadd : pieces.add function item = .ok pieces') :
    HoldsConsistent pieces'.workspace := by
  unfold FunctionPieces.add at hadd
  split at hadd
  case h_1 =>
    split at hadd
    case h_1 => cases hadd
    case h_2 =>
      obtain ⟨name, _, hadd⟩ := bind_eq_ok_iff.mp hadd
      obtain ⟨instructions, _, hadd⟩ := bind_eq_ok_iff.mp hadd
      obtain ⟨workspace, hworkspace, hadd⟩ := bind_eq_ok_iff.mp hadd
      obtain rfl := Except.ok.inj hadd
      exact h.addBlock hworkspace
  case h_2 =>
    split at hadd
    case h_1 =>
      obtain rfl := Except.ok.inj hadd
      exact h
    case h_2 => cases hadd
  case h_3 =>
    split at hadd
    case h_1 => cases hadd
    case h_2 =>
      obtain rfl := Except.ok.inj hadd
      exact h
  case h_4 => cases hadd

theorem HoldsConsistent.addSexpEdge {ws ws' : Workspace} {ends : Sexp × Sexp}
    (h : HoldsConsistent ws) (hadd : Draft.addSexpEdge ws ends = .ok ws') :
    HoldsConsistent ws' := by
  obtain ⟨_, _, hadd⟩ := bind_eq_ok_iff.mp hadd
  obtain ⟨source, hsource, hadd⟩ := bind_eq_ok_iff.mp hadd
  obtain ⟨_, _, hadd⟩ := bind_eq_ok_iff.mp hadd
  obtain ⟨target, htarget, hadd⟩ := bind_eq_ok_iff.mp hadd
  obtain rfl := Except.ok.inj hadd
  exact h.addEdge (h.onlyGraph.lt_of_resolve hsource) (h.onlyGraph.lt_of_resolve htarget)

/-- Whatever form is accepted, the draft read from it is well formed. -/
theorem wellFormed_of_ofSexp {form : Sexp} {d : Draft} (h : ofSexp form = .ok d) :
    ∃ graph, d.WellFormed graph := by
  unfold ofSexp at h
  split at h
  case h_2 => cases h
  case h_1 name items =>
    rw [← ofSexp, ofSexp_function] at h
    obtain ⟨function, _, h⟩ := bind_eq_ok_iff.mp h
    obtain ⟨pieces, hpieces, h⟩ := bind_eq_ok_iff.mp h
    obtain ⟨ws, hedges, h⟩ := bind_eq_ok_iff.mp h
    obtain ⟨tree?, htree, h⟩ := bind_eq_ok_iff.mp h
    have hblocks : HoldsConsistent pieces.workspace :=
      foldlM_invariant (P := fun pieces : FunctionPieces => HoldsConsistent pieces.workspace)
        (fun _ _ _ => holdsConsistent_of_add) (holdsConsistent_single function) hpieces
    have hws : HoldsConsistent ws :=
      foldlM_invariant (fun _ _ _ hinv => hinv.addSexpEdge) hblocks hedges
    refine wellFormed_of_ofParts hws ?_ h
    split at htree
    case h_1 =>
      obtain rfl := Except.ok.inj htree
      simp
    case h_2 =>
      obtain ⟨t, ht, rfl⟩ := map_eq_ok_iff.mp htree
      intro tree hmem
      obtain rfl := Option.mem_some_iff.mp hmem
      exact RegionTree.within_of_ofSexp hws.onlyGraph ht

end Draft

end FlowRegions
