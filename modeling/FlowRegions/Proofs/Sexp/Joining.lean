import FlowRegions.Proofs.Sexp.Lookahead

/-!
# Joining texts of forms

The fuel of the reader bounds nothing: from a certain amount on it makes no difference. So a text of
lists can be followed by any other text in a new line, and the forms of both are read one after the
other. Nothing that the first text opens can reach into the second, because it would reach the
closing bracket around the first text when that is read alone.
-/

namespace FlowRegions.Sexp

/-! ### Enough fuel -/

theorem length_lt_of_next {fuel : Nat} {cs rest : List Char} {form : Sexp}
    (h : next fuel cs = .ok (some form, rest)) : rest.length < cs.length := by
  obtain ⟨text, rfl, htext, -⟩ := (readsAs fuel).1 h
  have hpos := List.length_pos_iff.mpr (htext rfl)
  rw [List.length_append]
  omega

theorem length_lt_of_skip {cs rest : List Char} {c : Char} (h : skip false cs = c :: rest) :
    rest.length < cs.length := by
  obtain ⟨-, -, text, rfl, -⟩ := skip_eq_cons h
  rw [List.length_append, List.length_cons]
  omega

/-- The forms behind the first have less text left. -/
theorem formsBehind_congr {fuel : Nat} {cs : List Char} {found : Option Sexp × List Char}
    (h : next fuel cs = .ok found)
    {read read' : List Char → Except Failure (List Sexp × List Char)}
    (hread : found.2.length < cs.length → read found.2 = read' found.2) :
    formsBehind read found = formsBehind read' found := by
  obtain ⟨form?, rest⟩ := found
  cases form? with
  | none => rfl
  | some form => rw [formsBehind, formsBehind, hread (length_lt_of_next h)]

/-- Between two characters that are read fuel is spent twice, on a form and on the forms behind
it. -/
theorem read_fuel_succ (fuel : Nat) :
    (∀ {cs : List Char}, 2 * cs.length ≤ fuel → next (fuel + 1) cs = next fuel cs) ∧
    ∀ {cs : List Char}, 2 * cs.length + 1 ≤ fuel → forms (fuel + 1) cs = forms fuel cs := by
  induction fuel with
  | zero =>
      refine ⟨fun {cs} h => ?_, fun {cs} h => by omega⟩
      obtain rfl : cs = [] := List.length_eq_zero_iff.mp (by omega)
      rfl
  | succ fuel ih =>
      obtain ⟨hnext, hforms⟩ := ih
      refine ⟨fun {cs} h => ?_, fun {cs} h => ?_⟩
      · cases hskip : skip false cs with
        | nil => rw [next_of_skip_nil hskip, next_of_skip_nil hskip]
        | cons c rest =>
            have hlength := length_lt_of_skip hskip
            by_cases hquote : c = '"'
            · subst hquote
              rw [next_of_skip_quote hskip, next_of_skip_quote hskip]
            by_cases happ : c = '\''
            · subst happ
              rw [next_of_skip_apostrophe hskip, next_of_skip_apostrophe hskip,
                hnext (by omega)]
            cases hc : enclosing? c with
            | some opening =>
                obtain ⟨expected, form⟩ := opening
                rw [next_of_skip_opening hc hskip, next_of_skip_opening hc hskip, enclosed,
                  enclosed, hforms (by omega)]
            | none =>
                rw [next_of_skip_other hc hquote happ hskip,
                  next_of_skip_other hc hquote happ hskip]
      · rw [forms_succ, forms_succ, hnext (by omega)]
        cases hfirst : next fuel cs with
        | error e => rfl
        | ok found => exact formsBehind_congr hfirst fun hlength => hforms (by omega)

/-- The next form of a text. -/
def nextForm (cs : List Char) : Except Failure (Option Sexp × List Char) :=
  next (2 * cs.length) cs

/-- The forms of a text up to a closing bracket or the end. -/
def readForms (cs : List Char) : Except Failure (List Sexp × List Char) :=
  forms (2 * cs.length + 1) cs

theorem next_eq_nextForm {fuel : Nat} {cs : List Char} (h : 2 * cs.length ≤ fuel) :
    next fuel cs = nextForm cs := by
  induction h with
  | refl => rfl
  | step h ih => rw [(read_fuel_succ _).1 h, ih]

theorem forms_eq_readForms {fuel : Nat} {cs : List Char} (h : 2 * cs.length + 1 ≤ fuel) :
    forms fuel cs = readForms cs := by
  induction h with
  | refl => rfl
  | step h ih => rw [(read_fuel_succ _).2 h, ih]

/-! ### Reading without fuel -/

variable {cs cs' rest : List Char}

theorem readForms_eq_ok_iff {items : List Sexp} : readForms cs = .ok (items, rest) ↔
    (items = [] ∧ nextForm cs = .ok (none, rest)) ∨
      ∃ form others left, items = form :: others ∧ nextForm cs = .ok (some form, left) ∧
        readForms left = .ok (others, rest) := by
  rw [readForms, forms_succ_eq_ok_iff, nextForm]
  refine or_congr_right (exists_congr fun form => exists_congr fun others =>
    exists_congr fun left => and_congr_right fun _ => and_congr_right fun hnext => ?_)
  have hlength := length_lt_of_next hnext
  rw [forms_eq_readForms (by omega)]

/-- Blanks and comments in front of the forms make no difference. -/
theorem nextForm_congr (h : skip false cs = skip false cs') : nextForm cs = nextForm cs' := by
  have henough : ∀ ds : List Char, ds.length ≤ cs.length + cs'.length →
      nextForm ds = next (2 * (cs.length + cs'.length) + 1) ds :=
    fun ds hds => (next_eq_nextForm (by omega)).symm
  rw [henough cs (by omega), henough cs' (by omega), next, next, h]

theorem readForms_eq (cs : List Char) :
    readForms cs = nextForm cs >>= formsBehind readForms := by
  rw [readForms, forms_succ, ← nextForm]
  cases hfirst : nextForm cs with
  | error e => rfl
  | ok found => exact formsBehind_congr hfirst fun hlength => forms_eq_readForms (by omega)

theorem readForms_congr (h : skip false cs = skip false cs') : readForms cs = readForms cs' := by
  rw [readForms_eq, readForms_eq cs', nextForm_congr h]

theorem readForms_readsAs {items : List Sexp} (h : readForms cs = .ok (items, rest)) :
    ∃ text, cs = text ++ rest ∧ ReadsAs readForms text items rest := by
  obtain ⟨text, rfl, -⟩ := (readsAs _).2 h
  refine ⟨text, rfl, fun rest' hhead => ?_⟩
  -- Enough fuel for both texts.
  have hfuel : ∀ left : List Char, left.length ≤ rest.length + rest'.length →
      readForms (text ++ left) =
        forms (2 * (text.length + rest.length + rest'.length) + 1) (text ++ left) :=
    fun left hleft => (forms_eq_readForms (by rw [List.length_append]; omega)).symm
  rw [hfuel rest (by omega)] at h
  obtain ⟨text', hsplit, htext'⟩ := (readsAs _).2 h
  obtain rfl := List.append_cancel_right hsplit
  rw [hfuel rest' (by omega), htext' rest' hhead]

theorem ofAtom_ne_list (body : List Char) (items : List Sexp) : ofAtom body ≠ list items := by
  unfold ofAtom
  split
  · exact Sexp.noConfusion
  · split <;> exact Sexp.noConfusion

/-- There is no form in front of a closing bracket or of the end of the text. -/
theorem skip_of_nextForm_eq_none (h : nextForm cs = .ok (none, rest)) : skip false cs = rest := by
  rw [← next_eq_nextForm (Nat.le_succ _)] at h
  cases next_succ_eq_ok_iff.mp h with
  | ending hskip => exact hskip
  | closing hskip _ => exact hskip

/-- A list is read from one bracket to the other. -/
theorem nextForm_eq_list_iff {items : List Sexp} :
    nextForm cs = .ok (some (list items), rest) ↔
      ∃ inner, skip false cs = '(' :: inner ∧ readForms inner = .ok (items, ')' :: rest) := by
  rw [← next_eq_nextForm (Nat.le_succ _), next_succ_eq_ok_iff]
  constructor
  · intro h
    generalize hform : some (list items) = form? at h
    cases h with
    | ending => cases hform
    | closing => cases hform
    | string => cases hform
    | @enclosed c expected form inner _ items' hskip hc hitems =>
        have hlength := length_lt_of_skip hskip
        rw [forms_eq_readForms (by omega)] at hitems
        unfold enclosing? at hc
        split at hc
        case h_1 =>
          cases hc
          obtain rfl := Sexp.list.inj (Option.some.inj hform)
          exact ⟨inner, hskip, hitems⟩
        case h_2 =>
          cases hc
          cases hform
        case h_3 => cases hc
    | quoted => cases hform
    | atom => exact absurd (Option.some.inj hform).symm (ofAtom_ne_list _ items)
  · rintro ⟨inner, hskip, hitems⟩
    have hlength := length_lt_of_skip hskip
    rw [← forms_eq_readForms (by omega : 2 * inner.length + 1 ≤ 2 * cs.length)] at hitems
    exact .enclosed hskip rfl hitems

/-- Nothing behind the closing bracket of a list is seen. -/
theorem nextForm_list_append {items : List Sexp}
    (h : nextForm cs = .ok (some (list items), rest)) :
    ∃ text, cs = text ++ ')' :: rest ∧
      ∀ rest', nextForm (text ++ ')' :: rest') = .ok (some (list items), rest') := by
  obtain ⟨inner, hskip, hitems⟩ := nextForm_eq_list_iff.mp h
  obtain ⟨-, -, before, rfl, hbefore⟩ := skip_eq_cons hskip
  obtain ⟨text, rfl, htext⟩ := readForms_readsAs hitems
  refine ⟨before ++ '(' :: text, by simp, fun rest' => ?_⟩
  rw [nextForm_eq_list_iff, List.append_assoc, List.cons_append]
  exact ⟨text ++ ')' :: rest', hbefore _, htext _ rfl⟩

/-! ### A closing bracket in a new line -/

/-- What stands behind a text whose forms are made the items of one list. -/
def closing : List Char := ['\n', ')']

/-- If only blanks and comments stand in front of the closing bracket, so they do in front of any
other text in a new line. -/
theorem skip_append_line {inComment : Bool} {text : List Char}
    (h : skip inComment (text ++ closing) = [')']) (others : List Char) :
    skip inComment (text ++ '\n' :: others) = skip false others := by
  induction text generalizing inComment with
  | nil => cases inComment <;> rfl
  | cons c text ih =>
      rcases skip_cons inComment c with ⟨inComment', hskip⟩ | ⟨-, -, hskip⟩
      · rw [List.cons_append, hskip] at h ⊢
        exact ih h
      · rw [List.cons_append, hskip] at h
        simp [closing] at h

theorem skip_append_closing_ne_nil (inComment : Bool) (text : List Char) :
    skip inComment (text ++ closing) ≠ [] := by
  induction text generalizing inComment with
  | nil => cases inComment <;> simp [skip, closing, isBlank]
  | cons c text ih =>
      rcases skip_cons inComment c with ⟨inComment', hskip⟩ | ⟨-, -, hskip⟩
      · rw [List.cons_append, hskip]
        exact ih inComment'
      · rw [List.cons_append, hskip]
        exact List.cons_ne_nil _ _

/-- A bracket in the text is the last one, or a bracket of the text itself. -/
theorem append_closing_eq {text inner left : List Char}
    (h : text ++ closing = inner ++ ')' :: left) :
    left = [] ∨ ∃ text', text = inner ++ ')' :: text' ∧ left = text' ++ closing := by
  rcases List.append_eq_append_iff.mp h with ⟨between, -, hclosing⟩ | ⟨tail, rfl, htail⟩
  · cases between with
    | nil => cases hclosing
    | cons c between =>
        have hlength := congrArg List.length hclosing
        simp only [closing, List.length_append, List.length_cons, List.length_nil] at hlength
        exact Or.inl (List.length_eq_zero_iff.mp (by omega))
  · cases tail with
    | nil => cases htail
    | cons c text' =>
        obtain ⟨rfl, rfl⟩ := List.cons.inj htail
        exact Or.inr ⟨text', rfl, rfl⟩

/-- The forms of a text of lists are read in front of any other text in a new line. -/
theorem readForms_append_line {text others : List Char} {first second : List Sexp}
    {rest : List Char} (hfirst : readForms (text ++ closing) = .ok (first, [')']))
    (hlists : ∀ form ∈ first, ∃ items, form = list items)
    (hsecond : readForms others = .ok (second, rest)) :
    readForms (text ++ '\n' :: others) = .ok (first ++ second, rest) := by
  induction first generalizing text with
  | nil =>
      rcases readForms_eq_ok_iff.mp hfirst with ⟨-, hnone⟩ | ⟨_, _, _, hcons, -⟩
      · rw [readForms_congr (skip_append_line (skip_of_nextForm_eq_none hnone) others), hsecond]
        rfl
      · cases hcons
  | cons form first ih =>
      rw [List.forall_mem_cons] at hlists
      obtain ⟨⟨items, rfl⟩, hlists⟩ := hlists
      rcases readForms_eq_ok_iff.mp hfirst with ⟨hnil, -⟩ | ⟨_, _, left, hcons, hform, hfirst⟩
      · cases hnil
      obtain ⟨rfl, rfl⟩ := List.cons.inj hcons
      obtain ⟨inner, hsplit, hinner⟩ := nextForm_list_append hform
      obtain rfl | ⟨text, rfl, rfl⟩ := append_closing_eq hsplit
      · cases hfirst
      rw [List.append_assoc, List.cons_append]
      exact readForms_eq_ok_iff.mpr (Or.inr ⟨_, _, _, rfl, hinner _, ih hfirst hlists⟩)

/-! ### Texts as a whole -/

theorem parse_eq_ok_iff {text : String} {form : Sexp} :
    parse text = .ok form ↔ readForms text.toList = .ok ([form], []) := by
  rw [parse, forms_eq_readForms (Nat.le_succ _)]
  cases hforms : readForms text.toList with
  | error failure => simp
  | ok found =>
      obtain ⟨items, rest⟩ := found
      cases rest with
      | cons => simp
      | nil =>
          rcases items with _ | ⟨item, _ | ⟨other, items⟩⟩
          all_goals simp

/-- The forms of a text reach to the closing bracket around it, which therefore nothing in the text
takes for itself. -/
theorem parseForms_eq_ok_iff {text : String} {items : List Sexp} :
    parseForms text = .ok items ↔
      readForms (text.toList ++ closing) = .ok (items, [')']) := by
  have htext : ("(\n" ++ text ++ "\n)").toList = '(' :: '\n' :: (text.toList ++ closing) := by
    simp [closing]
  have hline : readForms ('\n' :: (text.toList ++ closing)) = readForms (text.toList ++ closing) :=
    readForms_congr rfl
  have hparse : parseForms text = .ok items ↔
      parse ("(\n" ++ text ++ "\n)") = .ok (list items) := by
    rw [parseForms, bind_eq_ok_iff]
    constructor
    · rintro ⟨form, hform, h⟩
      cases form with
      | list items' =>
          obtain rfl := Except.ok.inj h
          exact hform
      | _ => cases h
    · exact fun hform => ⟨_, hform, rfl⟩
  rw [hparse, parse_eq_ok_iff, htext, ← hline]
  constructor
  · intro h
    rcases readForms_eq_ok_iff.mp h with ⟨hnil, -⟩ | ⟨_, _, left, hcons, hform, hleft⟩
    · cases hnil
    obtain ⟨rfl, rfl⟩ := List.cons.inj hcons
    obtain ⟨inner, hinner, hitems⟩ := nextForm_eq_list_iff.mp hform
    obtain ⟨-, rfl⟩ := List.cons.inj hinner
    rw [hitems]
    obtain ⟨before, hsplit, -⟩ := readForms_readsAs (hline ▸ hitems)
    obtain rfl | ⟨text', -, rfl⟩ := append_closing_eq hsplit
    · rfl
    · rcases readForms_eq_ok_iff.mp hleft with ⟨-, hnone⟩ | ⟨_, _, _, hcons, -⟩
      · exact absurd (skip_of_nextForm_eq_none hnone) (skip_append_closing_ne_nil _ _)
      · cases hcons
  · intro h
    rw [readForms_eq_ok_iff]
    exact Or.inr ⟨_, _, [], rfl, nextForm_eq_list_iff.mpr ⟨_, rfl, h⟩, rfl⟩

/-- The forms of two texts, the second behind a line break. Only forms that end by themselves are
safe in front: a backslash at the end of an atom takes the line break into the atom. -/
theorem parseForms_append {text text' : String} {first second : List Sexp}
    (hfirst : parseForms text = .ok first) (hlists : ∀ form ∈ first, ∃ items, form = list items)
    (hsecond : parseForms text' = .ok second) :
    parseForms (text ++ "\n" ++ text') = .ok (first ++ second) := by
  rw [parseForms_eq_ok_iff] at hfirst hsecond ⊢
  rw [String.toList_append, String.toList_append, List.append_assoc, List.append_assoc]
  exact readForms_append_line hfirst hlists hsecond

end FlowRegions.Sexp
