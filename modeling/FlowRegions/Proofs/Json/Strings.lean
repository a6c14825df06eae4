import FlowRegions.Json.Parser
import FlowRegions.Proofs.Description.Outcome

/-!
# Strings of JSON documents

A string is read as its characters and escapes spell it, unless an escape names a surrogate that
stands alone. A text in which surrogates come in pairs has no such escape, and what is left of it
behind a string has none either. So nothing is replaced in the strings of such a text.
-/

namespace FlowRegions.Json

/-- Does every escape of a surrogate belong to a pair of a high and a low one? `afterHigh` tells
whether the text stands behind an escape of a high surrogate. Behind an escape that names no code
unit nothing is read. -/
def pairsSurrogates (afterHigh : Bool) : List Char → Bool
  | '\\' :: 'u' :: a :: b :: c :: d :: rest =>
    match hexQuad? [a, b, c, d] with
    | none => true
    | some unit => isLowSurrogate unit == afterHigh && pairsSurrogates (isHighSurrogate unit) rest
  | '\\' :: _ :: rest => !afterHigh && pairsSurrogates false rest
  | _ :: rest => !afterHigh && pairsSurrogates false rest
  | [] => !afterHigh

example : pairsSurrogates false "\\ud83d\\ude00".toList = true := by decide +kernel

example : pairsSurrogates false "\\ud83d\\u0041".toList = false := by decide +kernel

/-- The characters between two quotation marks spell a text. -/
inductive Spells : List Char → List Char → Prop
  | nil : Spells [] []
  | plain {c : Char} {cs body : List Char} (hquote : c ≠ '"') (hescape : c ≠ '\\')
    (hcontrol : 0x1f < c.toNat) : Spells cs body → Spells (c :: cs) (c :: body)
  | escape {e c : Char} {cs body : List Char} (hescape : escapedChar? e = some c) :
    Spells cs body → Spells ('\\' :: e :: cs) (c :: body)
  | unit {quad cs body : List Char} {n : Nat} (hlength : quad.length = 4)
    (hquad : hexQuad? quad = some n) (hhigh : isHighSurrogate n = false)
    (hlow : isLowSurrogate n = false) :
    Spells cs body → Spells ('\\' :: 'u' :: (quad ++ cs)) (Char.ofNat n :: body)
  | pair {first second cs body : List Char} {high low : Nat} (hfirst : first.length = 4)
    (hsecond : second.length = 4) (hhigh : hexQuad? first = some high)
    (hlow : hexQuad? second = some low) (hishigh : isHighSurrogate high = true)
    (hislow : isLowSurrogate low = true) :
    Spells cs body → Spells ('\\' :: 'u' :: (first ++ '\\' :: 'u' :: (second ++ cs)))
      (Char.ofNat (0x10000 + (high - 0xd800) * 0x400 + (low - 0xdc00)) :: body)

/-! ### Escapes of code points -/

theorem charOfUnit_eq {n : Nat} (hhigh : isHighSurrogate n = false)
    (hlow : isLowSurrogate n = false) : charOfUnit n = Char.ofNat n := by
  rw [charOfUnit, hhigh, hlow]
  rfl

theorem hexQuad?_append {quad : List Char} (hlength : quad.length = 4) (cs : List Char) :
    hexQuad? (quad ++ cs) = hexQuad? quad := by
  match quad, hlength with
  | [a, b, c, d], _ => rfl

/-- Four characters follow the `u` of an escape that is read, and something behind them. -/
theorem exists_of_codePoint_eq_ok {cs rest : List Char} {c : Char}
    (h : codePoint cs = .ok (c, rest)) :
    ∃ quad behind n, cs = quad ++ behind ∧ quad.length = 4 ∧ behind ≠ [] ∧
      hexQuad? quad = some n := by
  rw [codePoint] at h
  dsimp only at h
  split at h
  · cases h
  · next hbehind =>
    rw [List.isEmpty_iff] at hbehind
    have hlength : (cs.take 4).length = 4 := by
      have := mt List.drop_eq_nil_of_le hbehind
      rw [List.length_take]
      omega
    cases hquad : hexQuad? cs with
    | none =>
        rw [hquad] at h
        cases h
    | some n =>
        rw [← List.take_append_drop 4 cs, hexQuad?_append hlength] at hquad
        exact ⟨cs.take 4, cs.drop 4, n, (List.take_append_drop 4 cs).symm, hlength, hbehind, hquad⟩

theorem codePoint_append_of_not_high {quad behind : List Char} {n : Nat}
    (hlength : quad.length = 4) (hbehind : behind ≠ []) (hquad : hexQuad? quad = some n)
    (hhigh : isHighSurrogate n = false) :
    codePoint (quad ++ behind) = .ok (charOfUnit n, behind) := by
  have hdrop : (quad ++ behind).drop 4 = behind := List.drop_left' hlength
  have hempty : behind.isEmpty = false := List.isEmpty_eq_false_iff.mpr hbehind
  simp only [codePoint, hdrop, hempty, hexQuad?_append hlength, hquad, hhigh, Bool.false_and,
    Bool.false_eq_true, if_false]
  split <;> rfl

/-- An escape of a high surrogate with another escape behind it is read together with that one, or
the text ends there. -/
theorem codePoint_append_of_high {quad second behind : List Char} {high : Nat}
    (hlength : quad.length = 4) (hsecond : second.length = 4)
    (hquad : hexQuad? quad = some high) (hhigh : isHighSurrogate high = true)
    (hpaired : ∀ low, hexQuad? second = some low → isLowSurrogate low = true)
    (hbehind : behind ≠ []) {c : Char} {rest : List Char}
    (h : codePoint (quad ++ '\\' :: 'u' :: (second ++ behind)) = .ok (c, rest)) :
    ∃ low, hexQuad? second = some low ∧ rest = behind ∧
      c = Char.ofNat (0x10000 + (high - 0xd800) * 0x400 + (low - 0xdc00)) := by
  have hdrop : (quad ++ '\\' :: 'u' :: (second ++ behind)).drop 4 =
      '\\' :: 'u' :: (second ++ behind) := List.drop_left' hlength
  have hdrop' : (second ++ behind).drop 4 = behind := List.drop_left' hsecond
  have hempty : behind.isEmpty = false := List.isEmpty_eq_false_iff.mpr hbehind
  simp only [codePoint, hdrop, hdrop', hempty, hexQuad?_append hlength, hexQuad?_append hsecond,
    hquad, hhigh, List.isEmpty_cons, Bool.false_eq_true, if_false, Bool.not_false, Bool.and_self,
    if_true] at h
  cases hlow : hexQuad? second with
  | none =>
      rw [hlow] at h
      cases h
  | some low =>
      simp only [hlow, hpaired low hlow, if_true, Except.ok.injEq, Prod.mk.injEq] at h
      exact ⟨low, rfl, h.2.symm, h.1.symm⟩

/-! ### Paired surrogates -/

theorem pairsSurrogates_unit {quad : List Char} (hlength : quad.length = 4) (afterHigh : Bool)
    (cs : List Char) : pairsSurrogates afterHigh ('\\' :: 'u' :: (quad ++ cs)) =
      match hexQuad? quad with
      | none => true
      | some n => isLowSurrogate n == afterHigh && pairsSurrogates (isHighSurrogate n) cs := by
  match quad, hlength with
  | [a, b, c, d], _ => rfl

theorem isHighSurrogate_eq_false {n : Nat} (hlow : isLowSurrogate n = true) :
    isHighSurrogate n = false := by
  simp only [isLowSurrogate, isHighSurrogate, Bool.and_eq_true, decide_eq_true_eq,
    Bool.and_eq_false_iff, decide_eq_false_iff_not] at hlow ⊢
  omega

/-- Behind a high surrogate stands an escape, of a low one if it is read at all. -/
theorem exists_of_pairsSurrogates_true {cs : List Char} (h : pairsSurrogates true cs = true) :
    ∃ quad behind, cs = '\\' :: 'u' :: (quad ++ behind) ∧ quad.length = 4 ∧
      ∀ n, hexQuad? quad = some n →
        isLowSurrogate n = true ∧ pairsSurrogates false behind = true := by
  rw [pairsSurrogates.eq_def] at h
  split at h
  · next a b c d rest =>
    refine ⟨[a, b, c, d], rest, rfl, rfl, fun n hn => ?_⟩
    simp only [hn, Bool.and_eq_true, beq_true] at h
    rw [isHighSurrogate_eq_false h.1] at h
    exact h
  all_goals simp at h

/-- An escape of a code point in a text that pairs its surrogates spells the character that is
read, if what is left of the text is no escape that it ends in. -/
theorem exists_spells_of_codePoint {cs rest : List Char} {c : Char}
    (hpaired : pairsSurrogates false ('\\' :: 'u' :: cs) = true) (h : codePoint cs = .ok (c, rest))
    (hrest : ∀ quad, quad.length = 4 → rest ≠ '\\' :: 'u' :: quad) :
    ∃ spelled, '\\' :: 'u' :: cs = spelled ++ rest ∧ pairsSurrogates false rest = true ∧
      ∀ {behind body}, Spells behind body → Spells (spelled ++ behind) (c :: body) := by
  obtain ⟨quad, behind, n, rfl, hlength, hbehind, hquad⟩ := exists_of_codePoint_eq_ok h
  rw [pairsSurrogates_unit hlength, hquad] at hpaired
  simp only [Bool.and_eq_true, beq_false, Bool.not_eq_true'] at hpaired
  obtain ⟨hlow, hpaired⟩ := hpaired
  cases hhigh : isHighSurrogate n with
  | false =>
      rw [hhigh] at hpaired
      rw [codePoint_append_of_not_high hlength hbehind hquad hhigh, charOfUnit_eq hhigh hlow] at h
      obtain ⟨rfl, rfl⟩ := Prod.mk.inj (Except.ok.inj h)
      refine ⟨'\\' :: 'u' :: quad, rfl, hpaired, fun hspells => ?_⟩
      exact .unit hlength hquad hhigh hlow hspells
  | true =>
      rw [hhigh] at hpaired
      obtain ⟨second, behind, rfl, hsecond, hbehindpaired⟩ := exists_of_pairsSurrogates_true hpaired
      by_cases hend : behind = []
      · have hdrop : (quad ++ '\\' :: 'u' :: second).drop 4 = '\\' :: 'u' :: second :=
          List.drop_left' hlength
        have hdrop' : second.drop 4 = [] := List.drop_eq_nil_of_le (Nat.le_of_eq hsecond)
        rw [hend, List.append_nil] at h
        simp only [codePoint, hdrop, hdrop', hexQuad?_append hlength, hquad, List.isEmpty_cons,
          Bool.false_eq_true, if_false, List.isEmpty_nil, Bool.not_true, Bool.and_false] at h
        exact absurd (Prod.mk.inj (Except.ok.inj h)).2.symm (hrest second hsecond)
      · obtain ⟨low, hlow, rfl, hc⟩ := codePoint_append_of_high hlength hsecond hquad hhigh
          (fun low hlow => (hbehindpaired low hlow).1) hend h
        obtain ⟨hislow, hbehindpaired⟩ := hbehindpaired low hlow
        have hsplit : ∀ cs, '\\' :: 'u' :: (quad ++ '\\' :: 'u' :: second) ++ cs =
            '\\' :: 'u' :: (quad ++ '\\' :: 'u' :: (second ++ cs)) := fun cs => by
          rw [List.cons_append, List.cons_append, List.append_assoc, List.cons_append,
            List.cons_append]
        refine ⟨_, (hsplit _).symm, hbehindpaired, fun {behind body} hspells => ?_⟩
        rw [hsplit, hc]
        exact .pair hlength hsecond hquad hlow hhigh hislow hspells

/-! ### Strings -/

variable {opening fuel : Nat} {cs body rest : List Char}

/-- No string goes on with an escape that the text ends in. -/
theorem stringBody_unit_ne_ok {quad : List Char} (hlength : quad.length = 4) :
    stringBody opening fuel ('\\' :: 'u' :: quad) ≠ .ok (body, rest) := by
  intro h
  cases fuel with
  | zero => cases h
  | succ fuel =>
      obtain ⟨_, hcode, _⟩ := bind_eq_ok_iff.mp h
      obtain ⟨quad', behind, _, rfl, hlength', hbehind, _⟩ := exists_of_codePoint_eq_ok hcode
      rw [List.length_append, hlength'] at hlength
      exact hbehind (List.length_eq_zero_iff.mp (by omega))

theorem pairsSurrogates_escape {e : Char} (he : e ≠ 'u') :
    pairsSurrogates false ('\\' :: e :: cs) = pairsSurrogates false cs := by
  simp [pairsSurrogates, he]

theorem pairsSurrogates_plain {c : Char} (hc : c ≠ '\\') :
    pairsSurrogates false (c :: cs) = pairsSurrogates false cs := by
  simp [pairsSurrogates, hc]

theorem exists_spells_of_stringBody (hpaired : pairsSurrogates false cs = true)
    (h : stringBody opening fuel cs = .ok (body, rest)) :
    ∃ spelled, cs = spelled ++ '"' :: rest ∧ Spells spelled body ∧
      pairsSurrogates false rest = true := by
  induction fuel generalizing cs body with
  | zero => cases h
  | succ fuel ih =>
      rw [stringBody.eq_def] at h
      dsimp only at h
      split at h
      · cases h
      · next found =>
        obtain ⟨rfl, rfl⟩ := Prod.mk.inj (Except.ok.inj h)
        rw [pairsSurrogates_plain (by decide)] at hpaired
        exact ⟨[], rfl, .nil, hpaired⟩
      · cases h
      · obtain ⟨⟨c, behind⟩, hcode, h⟩ := bind_eq_ok_iff.mp h
        obtain ⟨found, hfound, h⟩ := bind_eq_ok_iff.mp h
        obtain ⟨rfl, rfl⟩ := Prod.mk.inj (Except.ok.inj h)
        have hend : ∀ quad, quad.length = 4 → behind ≠ '\\' :: 'u' :: quad := by
          rintro quad hlength rfl
          exact stringBody_unit_ne_ok hlength hfound
        obtain ⟨spelled, hsplit, hbehind, hspells⟩ := exists_spells_of_codePoint hpaired hcode hend
        obtain ⟨more, rfl, hmore, hrest⟩ := ih hbehind hfound
        exact ⟨spelled ++ more, by rw [hsplit, List.append_assoc], hspells hmore, hrest⟩
      · next e behind he =>
        split at h
        · cases h
        · next c hescape =>
          obtain ⟨found, hfound, h⟩ := bind_eq_ok_iff.mp h
          obtain ⟨rfl, rfl⟩ := Prod.mk.inj (Except.ok.inj h)
          rw [pairsSurrogates_escape he] at hpaired
          obtain ⟨more, rfl, hmore, hrest⟩ := ih hpaired hfound
          exact ⟨'\\' :: e :: more, rfl, .escape hescape hmore, hrest⟩
      · next c behind hquote hend _ hmore =>
        split at h
        · cases h
        · next hcontrol =>
          obtain ⟨found, hfound, h⟩ := bind_eq_ok_iff.mp h
          obtain ⟨rfl, rfl⟩ := Prod.mk.inj (Except.ok.inj h)
          have hescape : c ≠ '\\' := by
            rintro rfl
            cases behind with
            | nil => exact hend rfl rfl
            | cons e behind => exact hmore e behind rfl rfl
          rw [pairsSurrogates_plain hescape] at hpaired
          obtain ⟨more, hsplit, hspells, hrest⟩ := ih hpaired hfound
          exact ⟨c :: more, by rw [hsplit, List.cons_append],
            .plain hquote hescape (Nat.lt_of_not_le hcontrol) hspells, hrest⟩

/-- In a text that pairs its surrogates, every string is read as it is spelled. -/
theorem exists_spells_of_stringAfterQuote {s : String} (hpaired : pairsSurrogates false cs = true)
    (h : stringAfterQuote cs = .ok (s, rest)) :
    ∃ spelled, cs = spelled ++ '"' :: rest ∧ Spells spelled s.toList ∧
      pairsSurrogates false rest = true := by
  obtain ⟨found, hfound, h⟩ := bind_eq_ok_iff.mp h
  obtain ⟨rfl, rfl⟩ := Prod.mk.inj (Except.ok.inj h)
  rw [String.toList_ofList]
  exact exists_spells_of_stringBody hpaired hfound

end FlowRegions.Json
