import FlowRegions.Proofs.Description.Documents

/-!
# Functions that are asked for

A choice by names gives the last function of each name, in the order of the names. So it keeps all
places in the list that are asked for as long as no two of them share a name.
-/

namespace FlowRegions.Document

variable {functions selected : List RegionGraph} {names : List String}

/-- The function is called `name`, and none behind it in the list is. -/
def IsLastCalled (functions : List RegionGraph) (name : String) (rg : RegionGraph) : Prop :=
  ∃ before after, functions = before ++ rg :: after ∧ rg.name = name ∧
    ∀ other ∈ after, other.name ≠ name

/-- The function at place `i` is called `name`, and none at a later place is. -/
def IsLastAt (functions : List RegionGraph) (name : String) (i : Nat) : Prop :=
  (∃ rg, functions[i]? = some rg ∧ rg.name = name) ∧
    ∀ (j : Nat) other, functions[j]? = some other → other.name = name → j ≤ i

/-- The names that no function has, in the order in which they are asked for. -/
def absentNames (functions : List RegionGraph) (names : List String) : List String :=
  names.filter (· ∉ functions.map (·.name))

theorem find?_reverse_eq_some_iff {name : String} {rg : RegionGraph} :
    functions.reverse.find? (·.name == name) = some rg ↔ IsLastCalled functions name rg := by
  rw [List.find?_eq_some_iff_append, IsLastCalled]
  constructor
  · rintro ⟨hname, after, before, hsplit, hafter⟩
    refine ⟨before.reverse, after.reverse, ?_, by simpa using hname, by simpa using hafter⟩
    have hback := congrArg List.reverse hsplit
    simpa using hback
  · rintro ⟨before, after, rfl, hname, hafter⟩
    exact ⟨by simpa using hname, after.reverse, before.reverse, by simp, by simpa using hafter⟩

theorem IsLastCalled.exists_isLastAt {name : String} {rg : RegionGraph}
    (h : IsLastCalled functions name rg) :
    ∃ i, IsLastAt functions name i ∧ functions[i]? = some rg := by
  obtain ⟨before, after, rfl, hname, hafter⟩ := h
  have hplace : (before ++ rg :: after)[before.length]? = some rg := by simp
  refine ⟨before.length, ⟨⟨rg, hplace, hname⟩, fun j other hj hother => ?_⟩, hplace⟩
  by_contra hlate
  obtain ⟨k, rfl⟩ := Nat.exists_eq_add_of_lt (Nat.lt_of_not_le hlate)
  rw [List.getElem?_append_right (by omega), show before.length + k + 1 - before.length = k + 1 by
    omega, List.getElem?_cons_succ] at hj
  exact hafter other (List.mem_of_getElem? hj) hother

theorem IsLastAt.unique {name : String} {i j : Nat} (hi : IsLastAt functions name i)
    (hj : IsLastAt functions name j) : i = j := by
  obtain ⟨⟨rg, hrg, hname⟩, hlast⟩ := hi
  obtain ⟨⟨other, hother, hother_name⟩, hlast'⟩ := hj
  exact Nat.le_antisymm (hlast' i rg hrg hname) (hlast j other hother hother_name)

theorem IsLastAt.name_eq {name : String} {i : Nat} {rg : RegionGraph}
    (h : IsLastAt functions name i) (hi : functions[i]? = some rg) : rg.name = name := by
  obtain ⟨⟨found, hfound, hname⟩, _⟩ := h
  rw [hi] at hfound
  rwa [Option.some.inj hfound]

theorem absentNames_eq_filter (functions : List RegionGraph) (names : List String) :
    absentNames functions names =
      names.filter fun name => (functions.reverse.find? (·.name == name)).isNone := by
  apply List.filter_congr
  intro name _
  rw [Bool.eq_iff_iff]
  simp

theorem absentNames_eq_nil_iff :
    absentNames functions names = [] ↔ ∀ name ∈ names, ∃ rg ∈ functions, rg.name = name := by
  simp [absentNames, List.filter_eq_nil_iff]

/-- What is chosen if every name is that of a function, and the fault if some are not. -/
theorem select_eq (hnames : names ≠ []) :
    select functions names = if absentNames functions names = []
      then .ok (names.filterMap fun name => functions.reverse.find? (·.name == name))
      else .error { fault := .noSuchFunction (absentNames functions names) } := by
  have hempty : names.isEmpty = false := by simpa using hnames
  simp [select, hempty, absentNames_eq_filter]

theorem forall₂_filterMap {α β : Type} {f : α → Option β} {xs : List α}
    (h : ∀ x ∈ xs, ∃ y, f x = some y) :
    List.Forall₂ (fun x y => f x = some y) xs (xs.filterMap f) := by
  induction xs with
  | nil => exact .nil
  | cons x xs ih =>
      rw [List.forall_mem_cons] at h
      obtain ⟨y, hy⟩ := h.1
      rw [List.filterMap_cons_some hy]
      exact .cons hy (ih h.2)

theorem forall₂_isLastCalled (hnames : names ≠ []) (h : select functions names = .ok selected) :
    List.Forall₂ (IsLastCalled functions) names selected := by
  rw [select_eq hnames] at h
  split at h
  case isFalse => cases h
  case isTrue habsent =>
    obtain rfl := Except.ok.inj h
    rw [absentNames_eq_nil_iff] at habsent
    have hfind : ∀ name ∈ names, ∃ rg, functions.reverse.find? (·.name == name) = some rg := by
      intro name hname
      obtain ⟨rg, hrg, hcalled⟩ := habsent name hname
      rw [← Option.isSome_iff_exists, List.find?_isSome]
      exact ⟨rg, List.mem_reverse.mpr hrg, by simpa using hcalled⟩
    exact (forall₂_filterMap hfind).imp fun _ _ => find?_reverse_eq_some_iff.mp

/-- What is chosen stands at the last places of the names. -/
theorem exists_positions (h : List.Forall₂ (IsLastCalled functions) names selected) :
    ∃ positions, List.Forall₂ (IsLastAt functions) names positions ∧
      List.Forall₂ (fun i rg => functions[i]? = some rg) positions selected := by
  induction h with
  | nil => exact ⟨[], .nil, .nil⟩
  | cons hcalled _ ih =>
      obtain ⟨i, hlast, hplace⟩ := hcalled.exists_isLastAt
      obtain ⟨positions, hlasts, hplaces⟩ := ih
      exact ⟨i :: positions, .cons hlast hlasts, .cons hplace hplaces⟩

/-- No place that is asked for is left out exactly if no two of them have functions of one name. -/
theorem positions_all_iff {positions : List Nat}
    (h : List.Forall₂ (IsLastAt functions) names positions) :
    (∀ (i : Nat) rg, functions[i]? = some rg → rg.name ∈ names → i ∈ positions) ↔
      ∀ (i j : Nat) rg other, functions[i]? = some rg → functions[j]? = some other →
        rg.name ∈ names → other.name = rg.name → i = j := by
  constructor
  · intro hall i j rg other hi hj hname hsame
    have hlast : ∀ {k called}, functions[k]? = some called → called.name = rg.name →
        IsLastAt functions rg.name k := by
      intro k called hk hcalled
      have hkept := hall k called hk (by rwa [hcalled])
      obtain ⟨name, _, (hat : IsLastAt functions name k)⟩ :=
        exists_of_mem_left_of_forall₂ h.flip hkept
      rwa [← hat.name_eq hk, hcalled] at hat
    exact (hlast hi rfl).unique (hlast hj hsame)
  · intro hsame i rg hi hname
    obtain ⟨j, hj, hat⟩ := exists_of_mem_left_of_forall₂ h hname
    obtain ⟨⟨other, hother, hcalled⟩, _⟩ := hat
    rwa [hsame i j rg other hi hother hname hcalled]

/-- A choice by names fails exactly if some name is that of no function, and says which. Otherwise
it gives the last function of each name, in the order of the names, and this leaves no place out
that is asked for exactly if no two of them have functions of one name. -/
theorem select_gives_last (functions : List RegionGraph) (hnames : names ≠ []) :
    ((∃ e, select functions names = .error e) ↔
      ∃ name ∈ names, ∀ rg ∈ functions, rg.name ≠ name) ∧
    (∀ e, select functions names = .error e → e.diagnostic.text =
      "no such function: " ++ ", ".intercalate (absentNames functions names)) ∧
    ∀ selected, select functions names = .ok selected →
      List.Forall₂ (IsLastCalled functions) names selected ∧
      ∃ positions, List.Forall₂ (IsLastAt functions) names positions ∧
        List.Forall₂ (fun i rg => functions[i]? = some rg) positions selected ∧
        ((∀ (i : Nat) rg, functions[i]? = some rg → rg.name ∈ names → i ∈ positions) ↔
          ∀ (i j : Nat) rg other, functions[i]? = some rg → functions[j]? = some other →
            rg.name ∈ names → other.name = rg.name → i = j) := by
  refine ⟨?_, ?_, fun selected h => ?_⟩
  · have habsent : (∃ name ∈ names, ∀ rg ∈ functions, rg.name ≠ name) ↔
        absentNames functions names ≠ [] := by
      rw [Ne, absentNames_eq_nil_iff]
      push Not
      rfl
    rw [habsent, select_eq hnames]
    split <;> simp_all
  · intro e he
    rw [select_eq hnames] at he
    split at he
    case isTrue => cases he
    case isFalse =>
      obtain rfl := Except.error.inj he
      rfl
  · have hlast := forall₂_isLastCalled hnames h
    obtain ⟨positions, hlasts, hplaces⟩ := exists_positions hlast
    exact ⟨hlast, positions, hlasts, hplaces, positions_all_iff hlasts⟩

/-- What is seen of functions and of a choice among them, if both succeed. -/
def viewed? {β : Type} (view : RegionGraph → β) (names : List String)
    (found : Except DocumentError (List RegionGraph)) : Option (List β × List β) :=
  found.toOption.bind fun functions =>
    (select functions names).toOption.map fun selected => (functions.map view, selected.map view)

theorem exists_of_viewed? {β : Type} {view : RegionGraph → β}
    {found : Except DocumentError (List RegionGraph)} {all chosen : List β}
    (h : viewed? view names found = some (all, chosen)) :
    ∃ functions selected, found = .ok functions ∧ select functions names = .ok selected ∧
      functions.map view = all ∧ selected.map view = chosen := by
  obtain ⟨functions, hfound, h⟩ := Option.bind_eq_some_iff.mp h
  obtain ⟨selected, hselected, h⟩ := Option.map_eq_some_iff.mp h
  obtain ⟨hall, hchosen⟩ := Prod.mk.inj h
  exact ⟨functions, selected, toOption_eq_some_iff.mp hfound, toOption_eq_some_iff.mp hselected,
    hall, hchosen⟩

/-- Of three functions, two of which are called `f`, the second `f` is given for each time that it
is asked for. -/
theorem select_gives_last_repeated : ∃ functions selected,
    load .sexp "(function f (block a)) (function g (block b)) (function f (block c))" none =
      .ok functions ∧ ["f", "g", "f"] ≠ [] ∧
    select functions ["f", "g", "f"] = .ok selected ∧
    selected.map (fun rg => rg.graph.blocks.map (·.name?)) =
      [#[some "c"], #[some "b"], #[some "c"]] ∧
    List.Forall₂ (IsLastCalled functions) ["f", "g", "f"] selected := by
  obtain ⟨functions, selected, hload, hselected, -, hview⟩ :=
    exists_of_viewed? (by decide +kernel : viewed? (fun rg => rg.graph.blocks.map (·.name?))
      ["f", "g", "f"]
      (load .sexp "(function f (block a)) (function g (block b)) (function f (block c))" none) =
        some ([#[some "a"], #[some "b"], #[some "c"]], [#[some "c"], #[some "b"], #[some "c"]]))
  obtain ⟨-, -, hlast⟩ := select_gives_last functions (by decide : ["f", "g", "f"] ≠ [])
  exact ⟨functions, selected, hload, by decide, hselected, hview, (hlast selected hselected).1⟩

/-- Of two functions with the name that is asked for the first is left out. -/
theorem select_leaves_out_namesake : ∃ functions selected,
    load .sexp "(function f (block a))\n(function f (block b))" none = .ok functions ∧
    select functions ["f"] = .ok selected ∧
    ∃ rg ∈ functions, rg.name ∈ ["f"] ∧ rg ∉ selected := by
  obtain ⟨functions, selected, hload, hselected, hall, hview⟩ :=
    exists_of_viewed? (by decide +kernel :
      viewed? (fun rg => (rg.name, rg.graph.blocks.map (·.name?))) ["f"]
        (load .sexp "(function f (block a))\n(function f (block b))" none) =
          some ([("f", #[some "a"]), ("f", #[some "b"])], [("f", #[some "b"])]))
  obtain ⟨first, rest, rfl, hfirst, -⟩ := List.map_eq_cons_iff.mp hall
  obtain ⟨chosen, rfl, hchosen⟩ := List.map_eq_singleton_iff.mp hview
  have hname : first.name = "f" := congrArg Prod.fst hfirst
  refine ⟨_, _, hload, hselected, first, List.mem_cons_self, by simp [hname], ?_⟩
  rw [List.mem_singleton]
  rintro rfl
  exact absurd (hfirst.symm.trans hchosen) (by decide)

end FlowRegions.Document
