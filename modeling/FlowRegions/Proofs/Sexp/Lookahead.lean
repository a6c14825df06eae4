import FlowRegions.Sexp.Reader
import FlowRegions.Proofs.Description.Outcome

/-!
# How far the reader looks ahead

A form is read up to its end, and of what is behind it the reader sees the first character at most:
an atom has to be told from what follows. So what is read stays the same if the text behind it is
exchanged for another one with the same first character.
-/

namespace FlowRegions.Sexp

/-! ### Blanks and comments -/

/-- A character is skipped or ends the skipping, whatever is behind it. -/
theorem skip_cons (inComment : Bool) (c : Char) :
    (∃ inComment', ∀ cs, skip inComment (c :: cs) = skip inComment' cs) ∨
      c ≠ ';' ∧ isBlank c = false ∧ ∀ cs, skip inComment (c :: cs) = c :: cs := by
  by_cases hcomment : inComment = true
  · exact Or.inl ⟨c ≠ '\n', fun cs => by rw [skip, if_pos hcomment]⟩
  by_cases hopens : c = ';'
  · exact Or.inl ⟨true, fun cs => by rw [skip, if_neg hcomment, if_pos hopens]⟩
  by_cases hblank : isBlank c = true
  · exact Or.inl ⟨false, fun cs => by rw [skip, if_neg hcomment, if_neg hopens, if_pos hblank]⟩
  · exact Or.inr ⟨hopens, Bool.eq_false_iff.mpr hblank, fun cs => by
      rw [skip, if_neg hcomment, if_neg hopens, if_neg hblank]⟩

theorem skip_eq_cons {inComment : Bool} {cs rest : List Char} {c : Char}
    (h : skip inComment cs = c :: rest) :
    c ≠ ';' ∧ isBlank c = false ∧ ∃ text, cs = text ++ c :: rest ∧
      ∀ rest', skip inComment (text ++ c :: rest') = c :: rest' := by
  induction cs generalizing inComment with
  | nil => cases h
  | cons d cs ih =>
      rcases skip_cons inComment d with ⟨inComment', hskip⟩ | ⟨hopens, hblank, hskip⟩
      · rw [hskip] at h
        obtain ⟨hopens, hblank, text, rfl, htext⟩ := ih h
        refine ⟨hopens, hblank, d :: text, rfl, fun rest' => ?_⟩
        rw [List.cons_append, hskip, htext]
      · rw [hskip] at h
        obtain ⟨rfl, rfl⟩ := List.cons.inj h
        exact ⟨hopens, hblank, [], rfl, hskip⟩

/-! ### Strings and atoms -/

/-- A string is read up to its closing mark, whatever is behind it. -/
theorem stringAfterQuote?_eq_some {cs body rest : List Char}
    (h : stringAfterQuote? cs = some (body, rest)) :
    ∃ text, cs = text ++ rest ∧
      ∀ rest', stringAfterQuote? (text ++ rest') = some (body, rest') := by
  induction cs using stringAfterQuote?.induct generalizing body with
  | case1 => cases h
  | case2 tail =>
      obtain ⟨rfl, rfl⟩ := Prod.mk.inj (Option.some.inj h)
      exact ⟨['"'], rfl, fun _ => rfl⟩
  | case3 c tail ih =>
      rw [stringAfterQuote?, Option.map_eq_some_iff] at h
      obtain ⟨⟨inner, left⟩, hinner, h⟩ := h
      obtain ⟨rfl, rfl⟩ := Prod.mk.inj h
      obtain ⟨text, rfl, htext⟩ := ih hinner
      refine ⟨'\\' :: c :: text, rfl, fun rest' => ?_⟩
      rw [List.cons_append, List.cons_append, stringAfterQuote?, htext rest']
      rfl
  | case4 c tail hquote hslash ih =>
      rw [stringAfterQuote?.eq_4 _ _ hquote hslash, Option.map_eq_some_iff] at h
      obtain ⟨⟨inner, left⟩, hinner, h⟩ := h
      obtain ⟨rfl, rfl⟩ := Prod.mk.inj h
      -- A backslash at the end of the text leaves the string open.
      have hc : c ≠ '\\' := by
        rintro rfl
        cases tail with
        | nil => cases hinner
        | cons d tail => exact hslash d tail rfl rfl
      obtain ⟨text, rfl, htext⟩ := ih hinner
      refine ⟨c :: text, rfl, fun rest' => ?_⟩
      rw [List.cons_append, stringAfterQuote?.eq_4 _ _ hquote fun _ _ heq _ => hc heq,
        htext rest']
      rfl

theorem atomText_of_ne {c : Char} (hc : c ≠ '\\') (cs : List Char) : atomText (c :: cs) =
    if endsAtom c then ([], c :: cs) else (c :: (atomText cs).1, (atomText cs).2) :=
  atomText.eq_3 _ _ fun _ _ heq _ => hc heq

/-- An atom is read up to a character that ends it. -/
theorem atomText_eq {cs body rest : List Char} (h : atomText cs = (body, rest)) :
    ∃ text, cs = text ++ rest ∧ (text = [] → ∀ c ∈ cs.head?, endsAtom c = true) ∧
      ∀ rest', rest'.head? = rest.head? → atomText (text ++ rest') = (body, rest') := by
  induction cs using atomText.induct generalizing body with
  | case1 =>
      obtain ⟨rfl, rfl⟩ := Prod.mk.inj h
      refine ⟨[], rfl, by simp, fun rest' hhead => ?_⟩
      rw [List.head?_eq_none_iff.mp hhead]
      rfl
  | case2 c tail inner left hinner ih =>
      rw [atomText, hinner] at h
      obtain ⟨rfl, rfl⟩ := Prod.mk.inj h
      obtain ⟨text, rfl, -, htext⟩ := ih hinner
      refine ⟨'\\' :: c :: text, rfl, by simp, fun rest' hhead => ?_⟩
      rw [List.cons_append, List.cons_append, atomText, htext rest' hhead]
  | case3 c tail hslash hends =>
      have hc : c ≠ '\\' := by
        rintro rfl
        exact absurd hends (by decide)
      rw [atomText_of_ne hc, if_pos hends] at h
      obtain ⟨rfl, rfl⟩ := Prod.mk.inj h
      refine ⟨[], rfl, by simpa using hends, fun rest' hhead => ?_⟩
      obtain ⟨tail', rfl⟩ := List.head?_eq_some_iff.mp hhead
      rw [List.nil_append, atomText_of_ne hc, if_pos hends]
  | case4 c tail hslash hends inner left hinner ih =>
      rw [atomText.eq_3 _ _ hslash, if_neg hends, hinner] at h
      obtain ⟨rfl, rfl⟩ := Prod.mk.inj h
      obtain ⟨text, rfl, -, htext⟩ := ih hinner
      refine ⟨c :: text, rfl, by simp, fun rest' hhead => ?_⟩
      by_cases hc : c = '\\'
      -- A backslash at the end of the text stands for itself.
      · have hnil : text ++ left = [] := by
          cases hleft : text ++ left with
          | nil => rfl
          | cons d tail => exact (hslash d tail hc hleft).elim
        obtain ⟨rfl, rfl⟩ := List.append_eq_nil_iff.mp hnil
        obtain ⟨rfl, -⟩ := Prod.mk.inj hinner
        subst hc
        rw [List.head?_eq_none_iff.mp hhead]
        rfl
      · rw [List.cons_append, atomText_of_ne hc, if_neg hends, htext rest' hhead]

/-! ### Forms -/

/-- The closing bracket for an opening one, and the form that both enclose. -/
def enclosing? : Char → Option (Char × (List Sexp → Sexp))
  | '(' => some (')', list)
  | '[' => some (']', brackets)
  | _ => none

/-- Reads the items of a form in brackets. -/
def enclosed (fuel : Nat) (expected : Char) (form : List Sexp → Sexp) (cs : List Char) :
    Except Failure (Option Sexp × List Char) := do
  let (items, rest) ← forms fuel cs
  let rest ← closeBracket expected rest
  return (some (form items), rest)

theorem enclosed_eq_ok_iff {fuel : Nat} {expected : Char} {form : List Sexp → Sexp}
    {cs rest : List Char} {form? : Option Sexp} :
    enclosed fuel expected form cs = .ok (form?, rest) ↔
      ∃ items, forms fuel cs = .ok (items, expected :: rest) ∧ form? = some (form items) := by
  rw [enclosed, bind_eq_ok_iff]
  constructor
  · rintro ⟨⟨items, mid⟩, hforms, h⟩
    obtain ⟨rest', hclose, h⟩ := bind_eq_ok_iff.mp h
    obtain ⟨rfl, rfl⟩ := Prod.mk.inj (Except.ok.inj h)
    cases mid with
    | nil => cases hclose
    | cons c mid =>
        rw [closeBracket] at hclose
        split at hclose
        case isFalse => cases hclose
        case isTrue hc =>
          obtain rfl := Except.ok.inj hclose
          exact ⟨items, by rw [hforms, hc], rfl⟩
  · rintro ⟨items, hforms, rfl⟩
    exact ⟨_, hforms, bind_eq_ok_iff.mpr ⟨rest, by rw [closeBracket, if_pos rfl], rfl⟩⟩

section

variable {fuel : Nat} {cs rest : List Char}

theorem next_of_skip_nil (h : skip false cs = []) : next (fuel + 1) cs = .ok (none, []) := by
  rw [next, h]

theorem next_of_skip_quote (h : skip false cs = '"' :: rest) : next (fuel + 1) cs =
    match stringAfterQuote? rest with
    | none => .error .unterminatedString
    | some (body, rest) => .ok (some (string (String.ofList body)), rest) := by
  rw [next, h]
  rfl

theorem next_of_skip_opening {c expected : Char} {form : List Sexp → Sexp}
    (hc : enclosing? c = some (expected, form)) (h : skip false cs = c :: rest) :
    next (fuel + 1) cs = enclosed fuel expected form rest := by
  rw [next, h]
  unfold enclosing? at hc
  split at hc
  case h_1 =>
    obtain ⟨rfl, rfl⟩ := Prod.mk.inj (Option.some.inj hc)
    rfl
  case h_2 =>
    obtain ⟨rfl, rfl⟩ := Prod.mk.inj (Option.some.inj hc)
    rfl
  case h_3 => cases hc

theorem next_of_skip_apostrophe (h : skip false cs = '\'' :: rest) : next (fuel + 1) cs = (do
    match ← next fuel rest with
    | (some form, left) => return (some (quoted form), left)
    | (none, _) => throw (.nothingQuoted (rest.length + 1))) := by
  rw [next, h]
  rfl

theorem next_of_skip_apostrophe_eq_ok_iff (h : skip false cs = '\'' :: rest) {form? : Option Sexp}
    {left : List Char} : next (fuel + 1) cs = .ok (form?, left) ↔
      ∃ form, next fuel rest = .ok (some form, left) ∧ form? = some (quoted form) := by
  rw [next_of_skip_apostrophe h, bind_eq_ok_iff]
  constructor
  · rintro ⟨⟨_ | form, mid⟩, hform, h⟩
    · cases h
    · obtain ⟨rfl, rfl⟩ := Prod.mk.inj (Except.ok.inj h)
      exact ⟨form, hform, rfl⟩
  · rintro ⟨form, hform, rfl⟩
    exact ⟨_, hform, rfl⟩

theorem next_of_skip_other {c : Char} (hc : enclosing? c = none) (hquote : c ≠ '"')
    (happ : c ≠ '\'') (h : skip false cs = c :: rest) :
    next (fuel + 1) cs = if c = ')' || c = ']' then .ok (none, c :: rest)
      else .ok (some (ofAtom (atomText (c :: rest)).1), (atomText (c :: rest)).2) := by
  rw [next, h]
  split <;> simp_all [enclosing?]

/-- What is read in one step, by the first character behind blanks and comments. -/
inductive Finds (fuel : Nat) (cs : List Char) : Option Sexp → List Char → Prop
  | ending (hskip : skip false cs = []) : Finds fuel cs none []
  | closing {c : Char} {tail : List Char} (hskip : skip false cs = c :: tail)
    (hc : (c = ')' || c = ']') = true) : Finds fuel cs none (c :: tail)
  | string {tail body rest : List Char} (hskip : skip false cs = '"' :: tail)
    (hbody : stringAfterQuote? tail = some (body, rest)) :
    Finds fuel cs (some (string (String.ofList body))) rest
  | enclosed {c expected : Char} {form : List Sexp → Sexp} {tail rest : List Char}
    {items : List Sexp} (hskip : skip false cs = c :: tail)
    (hc : enclosing? c = some (expected, form))
    (hitems : forms fuel tail = .ok (items, expected :: rest)) :
    Finds fuel cs (some (form items)) rest
  | quoted {tail rest : List Char} {form : Sexp} (hskip : skip false cs = '\'' :: tail)
    (hform : next fuel tail = .ok (some form, rest)) : Finds fuel cs (some (quoted form)) rest
  | atom {c : Char} {tail body rest : List Char} (hskip : skip false cs = c :: tail)
    (happ : c ≠ '\'') (hends : endsAtom c = false) (hbody : atomText (c :: tail) = (body, rest)) :
    Finds fuel cs (some (ofAtom body)) rest

theorem endsAtom_eq_false_iff {c : Char} : endsAtom c = false ↔ enclosing? c = none ∧ c ≠ '"' ∧
    c ≠ ';' ∧ isBlank c = false ∧ (c = ')' || c = ']') = false := by
  have hopening : enclosing? c = none ↔ c ≠ '(' ∧ c ≠ '[' := by
    unfold enclosing?
    split <;> simp_all
  rw [hopening]
  simp only [endsAtom, Bool.or_eq_false_iff, decide_eq_false_iff_not]
  tauto

theorem next_succ_eq_ok_iff {form? : Option Sexp} :
    next (fuel + 1) cs = .ok (form?, rest) ↔ Finds fuel cs form? rest := by
  constructor
  · intro h
    cases hskip : skip false cs with
    | nil =>
        rw [next_of_skip_nil hskip] at h
        obtain ⟨rfl, rfl⟩ := Prod.mk.inj (Except.ok.inj h)
        exact .ending hskip
    | cons c tail =>
        by_cases hquote : c = '"'
        · subst hquote
          rw [next_of_skip_quote hskip] at h
          split at h
          case h_1 => cases h
          case h_2 body left hbody =>
            obtain ⟨rfl, rfl⟩ := Prod.mk.inj (Except.ok.inj h)
            exact .string hskip hbody
        by_cases happ : c = '\''
        · subst happ
          obtain ⟨form, hform, rfl⟩ := (next_of_skip_apostrophe_eq_ok_iff hskip).mp h
          exact .quoted hskip hform
        cases hc : enclosing? c with
        | some opening =>
            obtain ⟨expected, form⟩ := opening
            rw [next_of_skip_opening hc hskip, enclosed_eq_ok_iff] at h
            obtain ⟨items, hitems, rfl⟩ := h
            exact .enclosed hskip hc hitems
        | none =>
            rw [next_of_skip_other hc hquote happ hskip] at h
            split at h
            case isTrue hcloses =>
              obtain ⟨rfl, rfl⟩ := Prod.mk.inj (Except.ok.inj h)
              exact .closing hskip hcloses
            case isFalse hcloses =>
              obtain ⟨rfl, rfl⟩ := Prod.mk.inj (Except.ok.inj h)
              obtain ⟨hopens, hblank, -⟩ := skip_eq_cons hskip
              exact .atom hskip happ (endsAtom_eq_false_iff.mpr
                ⟨hc, hquote, hopens, hblank, Bool.eq_false_iff.mpr hcloses⟩) rfl
  · rintro (hskip | ⟨hskip, hc⟩ | ⟨hskip, hbody⟩ | ⟨hskip, hc, hitems⟩ | ⟨hskip, hform⟩ |
      ⟨hskip, happ, hends, hbody⟩)
    · exact next_of_skip_nil hskip
    · rw [next_of_skip_other ?_ ?_ ?_ hskip, if_pos hc]
      all_goals
        simp only [Bool.or_eq_true, decide_eq_true_eq] at hc
        rcases hc with rfl | rfl
        all_goals decide
    · rw [next_of_skip_quote hskip, hbody]
    · rw [next_of_skip_opening hc hskip]
      exact enclosed_eq_ok_iff.mpr ⟨_, hitems, rfl⟩
    · exact (next_of_skip_apostrophe_eq_ok_iff hskip).mpr ⟨_, hform, rfl⟩
    · obtain ⟨hc, hquote, -, -, hcloses⟩ := endsAtom_eq_false_iff.mp hends
      rw [next_of_skip_other hc hquote happ hskip, hcloses, if_neg Bool.false_ne_true, hbody]

/-- Reads further forms behind the first. -/
def formsBehind (read : List Char → Except Failure (List Sexp × List Char)) :
    Option Sexp × List Char → Except Failure (List Sexp × List Char)
  | (none, rest) => return ([], rest)
  | (some form, rest) => do
    let (others, rest) ← read rest
    return (form :: others, rest)

theorem forms_succ (fuel : Nat) (cs : List Char) :
    forms (fuel + 1) cs = next fuel cs >>= formsBehind (forms fuel) := by
  rw [forms]
  apply congrArg (_ >>= ·)
  funext found
  obtain ⟨form?, rest⟩ := found
  cases form? <;> rfl

theorem forms_succ_eq_ok_iff {items : List Sexp} : forms (fuel + 1) cs = .ok (items, rest) ↔
    (items = [] ∧ next fuel cs = .ok (none, rest)) ∨
      ∃ form others left, items = form :: others ∧ next fuel cs = .ok (some form, left) ∧
        forms fuel left = .ok (others, rest) := by
  rw [forms_succ, bind_eq_ok_iff]
  constructor
  · rintro ⟨⟨_ | form, left⟩, hnext, h⟩
    · obtain ⟨rfl, rfl⟩ := Prod.mk.inj (Except.ok.inj h)
      exact Or.inl ⟨rfl, hnext⟩
    · obtain ⟨⟨others, left'⟩, hothers, h⟩ := bind_eq_ok_iff.mp h
      obtain ⟨rfl, rfl⟩ := Prod.mk.inj (Except.ok.inj h)
      exact Or.inr ⟨form, others, left, rfl, hnext, hothers⟩
  · rintro (⟨rfl, hnext⟩ | ⟨form, others, left, rfl, hnext, hothers⟩)
    · exact ⟨_, hnext, rfl⟩
    · exact ⟨_, hnext, bind_eq_ok_iff.mpr ⟨_, hothers, rfl⟩⟩

end

/-! ### What is left is not looked at -/

/-- The text in front of `rest` is read as `a`, and of `rest` only the first character is seen. -/
def ReadsAs {α : Type} (read : List Char → Except Failure (α × List Char)) (text : List Char)
    (a : α) (rest : List Char) : Prop :=
  ∀ rest', rest'.head? = rest.head? → read (text ++ rest') = .ok (a, rest')

theorem next_succ_readsAs {fuel : Nat}
    (hnext : ∀ {cs rest form?}, next fuel cs = .ok (form?, rest) → ∃ text, cs = text ++ rest ∧
      (form?.isSome → text ≠ []) ∧ ReadsAs (next fuel) text form? rest)
    (hforms : ∀ {cs rest items}, forms fuel cs = .ok (items, rest) →
      ∃ text, cs = text ++ rest ∧ ReadsAs (forms fuel) text items rest)
    {cs rest : List Char} {form? : Option Sexp} (h : next (fuel + 1) cs = .ok (form?, rest)) :
    ∃ text, cs = text ++ rest ∧ (form?.isSome → text ≠ []) ∧
      ReadsAs (next (fuel + 1)) text form? rest := by
  cases next_succ_eq_ok_iff.mp h with
  | ending hskip =>
      refine ⟨cs, by simp, by simp, fun rest' hhead => ?_⟩
      rw [List.head?_eq_none_iff.mp hhead, List.append_nil]
      exact h
  | closing hskip hc =>
      obtain ⟨-, -, before, rfl, hbefore⟩ := skip_eq_cons hskip
      refine ⟨before, rfl, by simp, fun rest' hhead => ?_⟩
      obtain ⟨tail', rfl⟩ := List.head?_eq_some_iff.mp hhead
      exact next_succ_eq_ok_iff.mpr (.closing (hbefore _) hc)
  | string hskip hbody =>
      obtain ⟨-, -, before, rfl, hbefore⟩ := skip_eq_cons hskip
      obtain ⟨text, rfl, htext⟩ := stringAfterQuote?_eq_some hbody
      refine ⟨before ++ '"' :: text, by simp, by simp, fun rest' _ => ?_⟩
      rw [List.append_assoc, List.cons_append]
      exact next_succ_eq_ok_iff.mpr (.string (hbefore _) (htext rest'))
  | @enclosed c expected form _ _ items hskip hc hitems =>
      obtain ⟨-, -, before, rfl, hbefore⟩ := skip_eq_cons hskip
      obtain ⟨text, rfl, htext⟩ := hforms hitems
      refine ⟨before ++ c :: text ++ [expected], by simp, by simp, fun rest' _ => ?_⟩
      rw [List.append_assoc, List.append_assoc, List.cons_append]
      -- The items are followed by the bracket, whatever is behind it.
      exact next_succ_eq_ok_iff.mpr (.enclosed (hbefore _) hc (htext _ rfl))
  | quoted hskip hform =>
      obtain ⟨-, -, before, rfl, hbefore⟩ := skip_eq_cons hskip
      obtain ⟨text, rfl, -, htext⟩ := hnext hform
      refine ⟨before ++ '\'' :: text, by simp, by simp, fun rest' hhead => ?_⟩
      rw [List.append_assoc, List.cons_append]
      exact next_succ_eq_ok_iff.mpr (.quoted (hbefore _) (htext rest' hhead))
  | @atom c tail body _ hskip happ hends hbody =>
      obtain ⟨-, -, before, rfl, hbefore⟩ := skip_eq_cons hskip
      obtain ⟨text, hsplit, hempty, htext⟩ := atomText_eq hbody
      cases text with
      | nil => simp [hends] at hempty
      | cons d text =>
          obtain ⟨rfl, rfl⟩ := List.cons.inj hsplit
          refine ⟨before ++ c :: text, by simp, by simp, fun rest' hhead => ?_⟩
          rw [List.append_assoc, List.cons_append]
          exact next_succ_eq_ok_iff.mpr (.atom (hbefore _) happ hends (htext rest' hhead))

/-- Forms are read in front of a rest of which only the first character is seen. -/
theorem readsAs (fuel : Nat) :
    (∀ {cs rest form?}, next fuel cs = .ok (form?, rest) → ∃ text, cs = text ++ rest ∧
      (form?.isSome → text ≠ []) ∧ ReadsAs (next fuel) text form? rest) ∧
    ∀ {cs rest items}, forms fuel cs = .ok (items, rest) →
      ∃ text, cs = text ++ rest ∧ ReadsAs (forms fuel) text items rest := by
  induction fuel with
  | zero =>
      refine ⟨fun {cs rest form?} h => ?_, fun {cs rest items} h => ?_⟩
      · obtain ⟨rfl, rfl⟩ := Prod.mk.inj (Except.ok.inj h)
        exact ⟨[], rfl, by simp, fun _ _ => rfl⟩
      · obtain ⟨rfl, rfl⟩ := Prod.mk.inj (Except.ok.inj h)
        exact ⟨[], rfl, fun _ _ => rfl⟩
  | succ fuel ih =>
      obtain ⟨hnext, hforms⟩ := ih
      refine ⟨fun {cs rest form?} h => ?_, fun {cs rest items} h => ?_⟩
      · exact next_succ_readsAs hnext hforms h
      · rcases forms_succ_eq_ok_iff.mp h with
          ⟨rfl, hnone⟩ | ⟨form, others, left, rfl, hsome, hothers⟩
        · obtain ⟨text, rfl, -, htext⟩ := hnext hnone
          exact ⟨text, rfl, fun rest' hhead =>
            forms_succ_eq_ok_iff.mpr (Or.inl ⟨rfl, htext rest' hhead⟩)⟩
        · obtain ⟨text, rfl, -, htext⟩ := hnext hsome
          obtain ⟨inner, rfl, hinner⟩ := hforms hothers
          refine ⟨text ++ inner, by rw [List.append_assoc], fun rest' hhead => ?_⟩
          rw [List.append_assoc]
          exact forms_succ_eq_ok_iff.mpr (Or.inr ⟨form, others, inner ++ rest', rfl,
            htext _ (by simp [List.head?_append, hhead]), hinner rest' hhead⟩)

end FlowRegions.Sexp
