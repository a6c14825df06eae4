import FlowRegions.Proofs.Description.Documents
import FlowRegions.Proofs.Sexp.Joining

/-!
# Documents one after the other

Two documents of S-expressions can be put into one, the second behind a line break. Every form that
describes a function is a list, so what is accepted in front of the line break ends there.
-/

namespace FlowRegions

theorem Draft.exists_list_of_ofSexp {form : Sexp} {d : Draft} (h : Draft.ofSexp form = .ok d) :
    ∃ items, form = .list items := by
  unfold Draft.ofSexp at h
  split at h
  case h_1 => exact ⟨_, rfl⟩
  case h_2 => cases h

namespace Document

theorem finish_eq_ok_congr {source? : Option String} {draft : Except LoadFault Draft}
    {rg : RegionGraph} (h : finish source? draft = .ok rg) (other? : Option String) :
    finish other? draft = .ok rg := by
  obtain ⟨d, rfl, hd⟩ := finish_eq_ok h
  exact mapError_eq_ok_iff.mpr hd

/-- The functions of a document, each from its form. -/
theorem load_sexp_eq_ok_iff {text : String} {source? : Option String}
    {functions : List RegionGraph} : load .sexp text source? = .ok functions ↔
      ∃ forms, Sexp.parseForms text = .ok forms ∧
        List.Forall₂ (fun form rg => finish source? (Draft.ofSexp form) = .ok rg) forms
          functions := by
  cases hparse : Sexp.parseForms text with
  | error e => simp [load, drafts, hparse, bind, Except.bind]
  | ok forms => simp [load_eq_mapM (.sexp hparse), mapM_eq_ok_iff]

variable {text text' : String} {source? source'? : Option String} {first second : List RegionGraph}

/-- If two documents are accepted, so is the one that they make up with a line break in between. It
holds the functions of the first and then those of the second, and each is what it was, wherever the
documents come from. -/
theorem load_append (hfirst : load .sexp text source? = .ok first)
    (hsecond : load .sexp text' source'? = .ok second) (joined? : Option String) :
    load .sexp (text ++ "\n" ++ text') joined? = .ok (first ++ second) := by
  obtain ⟨forms, hforms, hfirst⟩ := load_sexp_eq_ok_iff.mp hfirst
  obtain ⟨forms', hforms', hsecond⟩ := load_sexp_eq_ok_iff.mp hsecond
  have hlists : ∀ form ∈ forms, ∃ items, form = .list items := by
    intro form hform
    obtain ⟨i, hi, rfl⟩ := List.getElem_of_mem hform
    obtain ⟨d, hd, -⟩ := finish_eq_ok (hfirst.get hi (hfirst.length_eq ▸ hi))
    exact Draft.exists_list_of_ofSexp hd
  rw [load_sexp_eq_ok_iff]
  refine ⟨forms ++ forms', Sexp.parseForms_append hforms hlists hforms', ?_⟩
  exact List.rel_append (hfirst.imp fun _ _ h => finish_eq_ok_congr h joined?)
    (hsecond.imp fun _ _ h => finish_eq_ok_congr h joined?)

/-- The first document ends in a comment with an opening bracket, and a semicolon in a string opens
none. -/
theorem load_append_behind_comment : ∃ first second,
    load .sexp "(function f (block a \"x ; )\")) ; (no list" none = .ok first ∧
    load .sexp "(function g (block b))\n\n(function h (block c))" none = .ok second ∧
    load .sexp ("(function f (block a \"x ; )\")) ; (no list\n" ++
      "(function g (block b))\n\n(function h (block c))") none = .ok (first ++ second) ∧
    (first ++ second).map RegionGraph.name = ["f", "g", "h"] := by
  obtain ⟨first, hfirst, hf⟩ := Option.map_eq_some_iff.mp (by decide +kernel :
    (load .sexp "(function f (block a \"x ; )\")) ; (no list" none).toOption.map
      (List.map RegionGraph.name) = some ["f"])
  obtain ⟨second, hsecond, hgh⟩ := Option.map_eq_some_iff.mp (by decide +kernel :
    (load .sexp "(function g (block b))\n\n(function h (block c))" none).toOption.map
      (List.map RegionGraph.name) = some ["g", "h"])
  rw [toOption_eq_some_iff] at hfirst hsecond
  exact ⟨first, second, hfirst, hsecond, load_append hfirst hsecond none, by simp [hf, hgh]⟩

end Document

end FlowRegions
