import FlowRegions.Description.OfJson
import FlowRegions.Proofs.Description.Drafts

/-!
# Reading JSON descriptions

The reader as a chain of steps, and what every success leaves behind: a well-formed draft.
-/

namespace FlowRegions

namespace RegionHeader

/-- Reads the exit of a region. -/
def exitOfJson (g : Cfg) (fields : List (String × Json)) : Except LoadFault (Option Nat) :=
  match Json.valueField? "exit" fields with
  | none => .ok none
  | some exit => some <$> g.resolve .regionExit exit.asName

/-- Reads the classification of a region. -/
def simpleOfJson (fields : List (String × Json)) : Except LoadFault (Option Bool) :=
  match Json.valueField? "simple" fields with
  | none => .ok none
  | some (.bool simple) => .ok (some simple)
  | some value => .error (.simpleNotBoolean value)

theorem ofJson_eq (g : Cfg) (fields : List (String × Json)) :
    ofJson g fields =
      match Json.lookup? "entry" fields with
      | none => .error (.regionWithoutEntry g.name (.object fields))
      | some entry => do
        let entry ← g.resolve .regionEntry entry.asName
        let exit? ← exitOfJson g fields
        let simple? ← simpleOfJson fields
        let blocks ← Json.listField g.name "blocks" fields
        let owned ← blocks.mapM fun block => g.resolve .regionBlock block.asName
        return { entry, exit?, owned, simple? } := by
  unfold ofJson exitOfJson simpleOfJson
  cases Json.lookup? "entry" fields with
  | none => rfl
  | some entry =>
      apply congrArg (_ >>= ·)
      funext entry
      cases Json.valueField? "exit" fields with
      | none =>
          cases Json.valueField? "simple" fields with
          | none => rfl
          | some value => cases value <;> rfl
      | some exit =>
          apply congrArg (_ >>= ·)
          funext exit?
          cases Json.valueField? "simple" fields with
          | none => rfl
          | some value => cases value <;> rfl

theorem within_of_ofJson {g : Cfg} {k : GraphRef} (hg : g.Consistent k)
    {fields : List (String × Json)} {header : RegionHeader}
    (h : ofJson g fields = .ok header) : header.Within g.blocks.size := by
  rw [ofJson_eq] at h
  cases hentry : Json.lookup? "entry" fields with
  | none => simp [hentry] at h
  | some value =>
      rw [hentry] at h
      obtain ⟨entry, hentry, h⟩ := bind_eq_ok_iff.mp h
      obtain ⟨exit?, hexit, h⟩ := bind_eq_ok_iff.mp h
      obtain ⟨simple?, _, h⟩ := bind_eq_ok_iff.mp h
      obtain ⟨blocks, _, h⟩ := bind_eq_ok_iff.mp h
      obtain ⟨owned, howned, h⟩ := bind_eq_ok_iff.mp h
      obtain rfl := Except.ok.inj h
      refine ⟨hg.lt_of_resolve hentry, ?_, ?_⟩
      · unfold exitOfJson at hexit
        split at hexit
        · obtain rfl := Except.ok.inj hexit
          simp
        · obtain ⟨exit, hresolve, rfl⟩ := map_eq_ok_iff.mp hexit
          intro index hindex
          obtain rfl := Option.mem_some_iff.mp hindex
          exact hg.lt_of_resolve hresolve
      · intro index hindex
        obtain ⟨block, _, hblock⟩ := exists_of_mem_of_mapM_eq_ok howned hindex
        exact hg.lt_of_resolve hblock

end RegionHeader

namespace RegionTree

mutual

theorem within_of_ofJson {g : Cfg} {k : GraphRef} (hg : g.Consistent k) :
    ∀ {value : Json} {t : RegionTree}, ofJson g value = .ok t → t.Within g.blocks.size
  | .object fields, t, h => by
    rw [ofJson] at h
    obtain ⟨header, hheader, h⟩ := bind_eq_ok_iff.mp h
    obtain ⟨children, hchildren, h⟩ := bind_eq_ok_iff.mp h
    obtain rfl := Except.ok.inj h
    rw [within_node]
    exact ⟨RegionHeader.within_of_ofJson hg hheader, within_of_ofJsonFields hg hchildren⟩
  | .null, _, h => by cases h
  | .bool _, _, h => by cases h
  | .int _, _, h => by cases h
  | .float _, _, h => by cases h
  | .string _, _, h => by cases h
  | .array _, _, h => by cases h

theorem within_of_ofJsonFields {g : Cfg} {k : GraphRef} (hg : g.Consistent k) :
    ∀ {fields : List (String × Json)} {children : List RegionTree},
      ofJsonFields g fields = .ok children → ∀ child ∈ children, child.Within g.blocks.size
  | [], children, h => by
    obtain rfl := Except.ok.inj h
    simp
  | (key, value) :: rest, children, h => by
    rw [ofJsonFields] at h
    split at h
    · exact within_of_ofJsonChildren hg h
    · exact within_of_ofJsonFields hg h

theorem within_of_ofJsonChildren {g : Cfg} {k : GraphRef} (hg : g.Consistent k) :
    ∀ {value : Json} {children : List RegionTree},
      ofJsonChildren g value = .ok children → ∀ child ∈ children, child.Within g.blocks.size
  | .array items, children, h => within_of_ofJsonItems hg h
  | .null, _, h => by cases h
  | .bool _, _, h => by cases h
  | .int _, _, h => by cases h
  | .float _, _, h => by cases h
  | .string _, _, h => by cases h
  | .object _, _, h => by cases h

theorem within_of_ofJsonItems {g : Cfg} {k : GraphRef} (hg : g.Consistent k) :
    ∀ {items : List Json} {children : List RegionTree},
      ofJsonItems g items = .ok children → ∀ child ∈ children, child.Within g.blocks.size
  | [], children, h => by
    obtain rfl := Except.ok.inj h
    simp
  | item :: rest, children, h => by
    rw [ofJsonItems] at h
    obtain ⟨tree, htree, h⟩ := bind_eq_ok_iff.mp h
    obtain ⟨others, hothers, h⟩ := bind_eq_ok_iff.mp h
    obtain rfl := Except.ok.inj h
    rw [List.forall_mem_cons]
    exact ⟨within_of_ofJson hg htree, within_of_ofJsonItems hg hothers⟩

end

end RegionTree

namespace Draft

theorem ofJson_object (fields : List (String × Json)) :
    ofJson (.object fields) = (do
      let blocks ← Json.listField (nameOfJson fields) "blocks" fields
      let ws ← blocks.foldlM (addJsonBlock (nameOfJson fields)) (.single (nameOfJson fields))
      let edges ← Json.listField (nameOfJson fields) "edges" fields
      let ws ← edges.foldlM addJsonEdge ws
      let tree? ← (match Json.valueField? "regions" fields with
        | none => .ok none
        | some regions => some <$> RegionTree.ofJson ws.onlyGraph regions)
      ofParts ws tree?) := by
  rw [ofJson]
  apply congrArg (_ >>= ·)
  funext blocks
  apply congrArg (_ >>= ·)
  funext ws
  apply congrArg (_ >>= ·)
  funext edges
  apply congrArg (_ >>= ·)
  funext ws
  cases Json.valueField? "regions" fields <;> rfl

theorem HoldsConsistent.addJsonBlock {function : String} {ws ws' : Workspace} {value : Json}
    (h : HoldsConsistent ws) (hadd : Draft.addJsonBlock function ws value = .ok ws') :
    HoldsConsistent ws' := by
  unfold Draft.addJsonBlock at hadd
  split at hadd
  case h_1 => exact h.addBlock hadd
  case h_2 =>
    split at hadd
    case h_1 => cases hadd
    case h_2 =>
      obtain ⟨instructions, _, hadd⟩ := bind_eq_ok_iff.mp hadd
      exact h.addBlock hadd
  case h_3 => cases hadd

theorem HoldsConsistent.addJsonEdge {ws ws' : Workspace} {value : Json}
    (h : HoldsConsistent ws) (hadd : Draft.addJsonEdge ws value = .ok ws') :
    HoldsConsistent ws' := by
  unfold Draft.addJsonEdge at hadd
  split at hadd
  case h_1 =>
    obtain ⟨source, hsource, hadd⟩ := bind_eq_ok_iff.mp hadd
    obtain ⟨target, htarget, hadd⟩ := bind_eq_ok_iff.mp hadd
    obtain rfl := Except.ok.inj hadd
    exact h.addEdge (h.onlyGraph.lt_of_resolve hsource) (h.onlyGraph.lt_of_resolve htarget)
  case h_2 => cases hadd

/-- Whatever JSON value is accepted, the draft read from it is well formed. -/
theorem wellFormed_of_ofJson {value : Json} {d : Draft} (h : ofJson value = .ok d) :
    ∃ graph, d.WellFormed graph := by
  cases value with
  | object fields =>
      rw [ofJson_object] at h
      obtain ⟨blocks, _, h⟩ := bind_eq_ok_iff.mp h
      obtain ⟨ws, hblocks, h⟩ := bind_eq_ok_iff.mp h
      obtain ⟨edges, _, h⟩ := bind_eq_ok_iff.mp h
      obtain ⟨ws', hedges, h⟩ := bind_eq_ok_iff.mp h
      obtain ⟨tree?, htree, h⟩ := bind_eq_ok_iff.mp h
      have hws : HoldsConsistent ws :=
        foldlM_invariant (fun _ _ _ hinv => hinv.addJsonBlock) (holdsConsistent_single _) hblocks
      have hws' : HoldsConsistent ws' :=
        foldlM_invariant (fun _ _ _ hinv => hinv.addJsonEdge) hws hedges
      refine wellFormed_of_ofParts hws' ?_ h
      split at htree
      case h_1 =>
        obtain rfl := Except.ok.inj htree
        simp
      case h_2 =>
        obtain ⟨t, ht, rfl⟩ := map_eq_ok_iff.mp htree
        intro tree hmem
        obtain rfl := Option.mem_some_iff.mp hmem
        exact RegionTree.within_of_ofJson hws'.onlyGraph ht
  | null | bool | int | float | string | array => cases h

end Draft

end FlowRegions
