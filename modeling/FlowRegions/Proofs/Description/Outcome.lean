import Mathlib.Data.List.Forall2

/-!
# Outcomes of reading

How a sequence of steps that may fail succeeds, and what is left of it when the faults are
forgotten.
-/

namespace FlowRegions

variable {ε ε' : Type} {α β σ : Type}

theorem bind_eq_ok_iff {x : Except ε α} {f : α → Except ε β} {b : β} :
    x >>= f = .ok b ↔ ∃ a, x = .ok a ∧ f a = .ok b := by
  cases x with
  | error e => simp [bind, Except.bind]
  | ok a => simp [bind, Except.bind]

theorem map_eq_ok_iff {x : Except ε α} {f : α → β} {b : β} :
    f <$> x = .ok b ↔ ∃ a, x = .ok a ∧ f a = b := by
  cases x with
  | error e => simp [Functor.map, Except.map]
  | ok a => simp [Functor.map, Except.map]

theorem mapError_eq_ok_iff {x : Except ε α} {f : ε → ε'} {a : α} :
    x.mapError f = .ok a ↔ x = .ok a := by
  cases x <;> simp [Except.mapError]

theorem mapM_eq_ok_iff {f : α → Except ε β} {xs : List α} {ys : List β} :
    xs.mapM f = .ok ys ↔ List.Forall₂ (fun x y => f x = .ok y) xs ys := by
  induction xs generalizing ys with
  | nil => simp [pure, Except.pure, eq_comm]
  | cons x xs ih =>
      rw [List.mapM_cons, bind_eq_ok_iff, List.forall₂_cons_left_iff]
      constructor
      · rintro ⟨y, hy, h⟩
        obtain ⟨zs, hzs, h⟩ := bind_eq_ok_iff.mp h
        exact ⟨y, zs, hy, ih.mp hzs, (Except.ok.inj h).symm⟩
      · rintro ⟨y, zs, hy, hzs, rfl⟩
        exact ⟨y, hy, bind_eq_ok_iff.mpr ⟨zs, ih.mpr hzs, rfl⟩⟩

/-- A traversal fails with the first item that fails. -/
theorem mapM_eq_error_iff {f : α → Except ε β} {xs : List α} {e : ε} :
    xs.mapM f = .error e ↔ ∃ before ys x after, xs = before ++ x :: after ∧
      List.Forall₂ (fun x y => f x = .ok y) before ys ∧ f x = .error e := by
  induction xs with
  | nil => simp [pure, Except.pure]
  | cons x xs ih =>
      rw [List.mapM_cons]
      constructor
      · intro h
        cases hx : f x with
        | error e' =>
            rw [hx] at h
            obtain rfl := Except.error.inj h
            exact ⟨[], [], x, xs, rfl, .nil, hx⟩
        | ok y =>
            rw [hx] at h
            cases hxs : xs.mapM f with
            | ok ys =>
                simp only [bind, Except.bind, hxs] at h
                cases h
            | error e' =>
                simp only [bind, Except.bind, hxs] at h
                obtain rfl := Except.error.inj h
                obtain ⟨before, ys, z, after, rfl, hbefore, hz⟩ := ih.mp hxs
                exact ⟨x :: before, y :: ys, z, after, rfl, .cons hx hbefore, hz⟩
      · rintro ⟨before, ys, z, after, hsplit, hbefore, hz⟩
        cases hbefore with
        | nil =>
            obtain ⟨rfl, rfl⟩ := List.cons.inj hsplit
            rw [hz]
            rfl
        | @cons w y before ys hw hbefore =>
            obtain ⟨rfl, hrest⟩ := List.cons.inj hsplit
            rw [hw, ih.mpr ⟨before, ys, z, after, hrest, hbefore, hz⟩]
            rfl

theorem mapM_eq_ok {f : α → Except ε β} {g : α → β} {xs : List α} (h : ∀ x ∈ xs, f x = .ok (g x)) :
    xs.mapM f = .ok (xs.map g) := by
  rw [mapM_eq_ok_iff, List.forall₂_map_right_iff, List.forall₂_same]
  exact h

theorem mapM_map_eq_ok {e : σ → α} {f : α → Except ε β} {h : σ → β} {xs : List σ}
    (hf : ∀ x ∈ xs, f (e x) = .ok (h x)) : (xs.map e).mapM f = .ok (xs.map h) := by
  rw [mapM_eq_ok_iff, List.forall₂_map_left_iff, List.forall₂_map_right_iff, List.forall₂_same]
  exact hf

theorem exists_of_mem_left_of_forall₂ {R : α → β → Prop} {xs : List α} {ys : List β}
    (h : List.Forall₂ R xs ys) {x : α} (hx : x ∈ xs) : ∃ y ∈ ys, R x y := by
  induction h with
  | nil => exact absurd hx List.not_mem_nil
  | @cons _ y _ ys hxy _ ih =>
      rcases List.mem_cons.mp hx with rfl | hx
      · exact ⟨y, List.mem_cons_self, hxy⟩
      · obtain ⟨z, hz, hxz⟩ := ih hx
        exact ⟨z, List.mem_cons_of_mem y hz, hxz⟩

theorem exists_of_mem_of_mapM_eq_ok {f : α → Except ε β} {xs : List α} {ys : List β}
    (h : xs.mapM f = .ok ys) {y : β} (hy : y ∈ ys) : ∃ x ∈ xs, f x = .ok y :=
  exists_of_mem_left_of_forall₂ (mapM_eq_ok_iff.mp h).flip hy

/-- What every step keeps, a whole run keeps. -/
theorem foldlM_invariant {step : σ → α → Except ε σ} {P : σ → Prop} {xs : List α}
    (hstep : ∀ s x s', P s → step s x = .ok s' → P s') {s s' : σ} (hs : P s)
    (h : xs.foldlM step s = .ok s') : P s' := by
  induction xs generalizing s with
  | nil =>
      obtain rfl := Except.ok.inj h
      exact hs
  | cons x xs ih =>
      rw [List.foldlM_cons] at h
      obtain ⟨mid, hmid, h⟩ := bind_eq_ok_iff.mp h
      exact ih (hstep s x mid hs hmid) h

/-! ### Forgetting faults -/

theorem toOption_eq_some_iff {x : Except ε α} {a : α} : x.toOption = some a ↔ x = .ok a := by
  cases x <;> simp [Except.toOption]

@[simp] theorem toOption_ok (a : α) : (.ok a : Except ε α).toOption = some a := rfl

@[simp] theorem toOption_error (e : ε) : (.error e : Except ε α).toOption = none := rfl

@[simp] theorem toOption_bind (x : Except ε α) (f : α → Except ε β) :
    (x >>= f).toOption = x.toOption >>= fun a => (f a).toOption := by
  cases x <;> rfl

@[simp] theorem toOption_map (x : Except ε α) (f : α → β) :
    (f <$> x).toOption = x.toOption.map f := by
  cases x <;> rfl

@[simp] theorem toOption_mapError (x : Except ε α) (f : ε → ε') :
    (x.mapError f).toOption = x.toOption := by
  cases x <;> rfl

theorem toOption_mapM_map {e : σ → α} {f : α → Except ε β} {f' : σ → Option β} {xs : List σ}
    (hf : ∀ x ∈ xs, (f (e x)).toOption = f' x) : ((xs.map e).mapM f).toOption = xs.mapM f' := by
  induction xs with
  | nil => rfl
  | cons x xs ih =>
      rw [List.forall_mem_cons] at hf
      rw [List.map_cons, List.mapM_cons, List.mapM_cons, toOption_bind, hf.1]
      apply congrArg (_ >>= ·)
      funext y
      rw [toOption_bind, ih hf.2]
      rfl

theorem toOption_mapM (f : α → Except ε β) (xs : List α) :
    (xs.mapM f).toOption = xs.mapM fun x => (f x).toOption := by
  have h := toOption_mapM_map fun x (_ : x ∈ xs) => Eq.refl (f (id x)).toOption
  rwa [List.map_id] at h

/-- Two runs over corresponding items from corresponding states end in corresponding states. -/
theorem toOption_foldlM_map {τ : Type} {e : τ → σ} {enc : β → α} {step : σ → α → Except ε σ}
    {step' : τ → β → Option τ} {xs : List β}
    (hstep : ∀ x ∈ xs, ∀ s, (step (e s) (enc x)).toOption = (step' s x).map e) (s : τ) :
    ((xs.map enc).foldlM step (e s)).toOption = (xs.foldlM step' s).map e := by
  induction xs generalizing s with
  | nil => rfl
  | cons x xs ih =>
      rw [List.forall_mem_cons] at hstep
      rw [List.map_cons, List.foldlM_cons, List.foldlM_cons, toOption_bind, hstep.1 s]
      cases step' s x with
      | none => rfl
      | some s' => exact ih hstep.2 s'

end FlowRegions
