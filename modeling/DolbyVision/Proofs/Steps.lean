/-
**Steps of computations that can fail.**

Checks and writes compute in `Except`, reads in `EStateM`.  A run of several steps succeeds exactly
when each of its steps does, and this module takes such a run apart (`ok_of_bind`, `ok_of_check`) or
puts it together (`bind_ok`, `exists_bind`).  The rest of the theory opens a computation with these
lemmas only.

Main results:

* `DolbyVision.Checked.exists_bind`, `exists_bindIf` — runs in `Except` that succeed;
* `DolbyVision.Checked.ok_of_check`, `DolbyVision.Checked.ok_of_forM` — a successful run in
  `Except`;
* `DolbyVision.Run.bind_ok`, `DolbyVision.Run.ok_of_bind`, `DolbyVision.Run.ok_of_check` — runs
  with a state;
* `DolbyVision.Run.Gives.bind`, `DolbyVision.Run.Gives.check` — what is known of the value of a run,
  whatever it starts from.
-/

import DolbyVision.Bits.Reader

set_option relaxedAutoImplicit false
set_option autoImplicit false

namespace DolbyVision

namespace Checked

variable {ε α β : Type} {x : Except ε α} {f : α → Except ε β} {a : α} {b : β}

/-- A run of two steps succeeds if both do. -/
theorem exists_bind (hx : ∃ a, x = .ok a) (hf : ∀ a, ∃ b, f a = .ok b) :
    ∃ b, (x >>= f) = .ok b := by
  obtain ⟨a, rfl⟩ := hx
  exact hf a

/-- What follows a step with a known result need succeed with that one only. -/
theorem exists_bindOk (hx : x = .ok a) (hf : ∃ b, f a = .ok b) : ∃ b, (x >>= f) = .ok b := by
  subst hx
  exact hf

/-- A first step that is chosen by a condition, in front of what follows it in either case. -/
theorem exists_bindIf {c : Prop} [Decidable c] {y : Except ε α} (hx : c → ∃ a, x = .ok a)
    (hy : ¬ c → ∃ a, y = .ok a) (hf : ∀ a, ∃ b, f a = .ok b) :
    ∃ b, (if c then x >>= f else y >>= f) = .ok b := by
  by_cases hc : c
  · rw [if_pos hc]
    exact exists_bind (hx hc) hf
  · rw [if_neg hc]
    exact exists_bind (hy hc) hf

/-- Such a first step hands its value to what follows. -/
theorem bindIf_ok {c : Prop} [Decidable c] {y : Except ε α} (h : (if c then x else y) = .ok a) :
    (if c then x >>= f else y >>= f) = f a := by
  by_cases hc : c
  · rw [if_pos hc] at h ⊢
    exact bind_ok h
  · rw [if_neg hc] at h ⊢
    exact bind_ok h

/-- A run that succeeds has passed its checks. -/
theorem ok_of_check {c : Prop} [Decidable c] {fault : ε} {g : Unit → Except ε β}
    (h : (if c then (throw fault : Except ε Unit) >>= g else g ()) = .ok b) :
    ¬ c ∧ g () = .ok b := by
  by_cases hc : c
  · rw [if_pos hc] at h
    cases h
  · rw [if_neg hc] at h
    exact ⟨hc, h⟩

/-- A run over a list that succeeds has succeeded at each item. -/
theorem ok_of_forM {γ : Type} {check : γ → Except ε Unit} {items : List γ}
    (h : items.forM check = .ok ()) : ∀ item ∈ items, check item = .ok () := by
  induction items with
  | nil => intro item hitem; cases hitem
  | cons first items ih =>
    rw [List.forM_eq_forM, List.forM_cons] at h
    obtain ⟨⟨⟩, hfirst, hrest⟩ := ok_of_bind h
    intro item hitem
    rcases List.mem_cons.1 hitem with rfl | hitem
    · exact hfirst
    · exact ih hrest item hitem

/-- A run of which it was found out that it succeeds has a value. -/
theorem exists_ok (h : x.toOption.isSome = true) : ∃ a, x = .ok a := by
  cases x with
  | error fault => cases h
  | ok a => exact ⟨a, rfl⟩

end Checked

namespace Run

variable {ε σ α β : Type} {s s' : σ} {a : α} {b : β}

/-- A first step that succeeds hands its value and state to what follows. -/
theorem bind_ok {p : EStateM ε σ α} {f : α → EStateM ε σ β} (h : p s = .ok a s') :
    (p >>= f) s = f a s' := by
  change EStateM.bind p f s = _
  rw [EStateM.bind, h]

theorem bind_error {p : EStateM ε σ α} {f : α → EStateM ε σ β} {fault : ε}
    (h : p s = .error fault s') : (p >>= f) s = .error fault s' := by
  change EStateM.bind p f s = _
  rw [EStateM.bind, h]

theorem get_ok : (get : EStateM ε σ σ) s = .ok s s := rfl

theorem lift_ok {x : Except Fault α} (h : x = .ok a) :
    (liftM x : EStateM Fault σ α) s = .ok a s := by
  subst h
  rfl

/-- A run of two steps that succeeds has a first step that succeeds. -/
theorem ok_of_bind {p : EStateM ε σ α} {f : α → EStateM ε σ β} (h : (p >>= f) s = .ok b s') :
    ∃ a s₁, p s = .ok a s₁ ∧ f a s₁ = .ok b s' := by
  change EStateM.bind p f s = _ at h
  rw [EStateM.bind] at h
  cases hp : p s with
  | error fault s₁ => rw [hp] at h; cases h
  | ok a s₁ => rw [hp] at h; exact ⟨a, s₁, rfl, h⟩

/-- A run that succeeds has passed its checks. -/
theorem ok_of_check {c : Prop} [Decidable c] {fault : ε} {g : Unit → EStateM ε σ β}
    (h : (if c then (throw fault : EStateM ε σ Unit) >>= g else g ()) s = .ok b s') :
    ¬ c ∧ g () s = .ok b s' := by
  by_cases hc : c
  · rw [if_pos hc] at h
    cases h
  · rw [if_neg hc] at h
    exact ⟨hc, h⟩

/-- What is computed from the value of a run may be computed behind its checks. -/
theorem map_check {c : Prop} [Decidable c] {fault : ε} {k : α → β} {g : Unit → EStateM ε σ α} :
    k <$> (if c then (throw fault : EStateM ε σ Unit) >>= g else g ()) =
      if c then (throw fault : EStateM ε σ Unit) >>= fun u => k <$> g u else k <$> g () := by
  by_cases hc : c
  · rw [if_pos hc, if_pos hc, map_bind]
  · rw [if_neg hc, if_neg hc]

/-- Whatever a computation starts from, the value that it gives has a property, if it gives one. -/
def Gives (p : EStateM ε σ α) (P : α → Prop) : Prop :=
  ∀ s a s', p s = .ok a s' → P a

section Gives

variable {p q : EStateM ε σ α} {f : α → EStateM ε σ β} {P : β → Prop} {Q : α → Prop}
  {c : Prop} [Decidable c] {fault : ε}

theorem Gives.pure (h : Q a) : Gives (Pure.pure a : EStateM ε σ α) Q := by
  intro s a' s' hrun
  cases hrun
  exact h

theorem Gives.throw : Gives (MonadExcept.throw fault : EStateM ε σ α) Q := by
  intro s a s' hrun
  cases hrun

/-- What is known of the first value is known in what follows. -/
theorem Gives.bind (h₁ : Gives p Q) (h₂ : ∀ a, Q a → Gives (f a) P) : Gives (p >>= f) P := by
  intro s b s' hrun
  obtain ⟨a, s₁, hfirst, hrest⟩ := ok_of_bind hrun
  exact h₂ a (h₁ s a s₁ hfirst) s₁ b s' hrest

/-- Nothing need be known of the first value. -/
theorem Gives.after (h : ∀ a, Gives (f a) P) : Gives (p >>= f) P := by
  intro s b s' hrun
  obtain ⟨a, s₁, -, hrest⟩ := ok_of_bind hrun
  exact h a s₁ b s' hrest

/-- Nothing follows a fault. -/
theorem Gives.stop : Gives ((MonadExcept.throw fault : EStateM ε σ α) >>= f) P := by
  intro s b s' hrun
  cases hrun

/-- What follows a check may rely on it. -/
theorem Gives.check {g : Unit → EStateM ε σ β} (h : ¬ c → Gives (g ()) P) :
    Gives (if c then (MonadExcept.throw fault : EStateM ε σ Unit) >>= g else g ()) P := by
  intro s b s' hrun
  obtain ⟨hc, hrest⟩ := ok_of_check hrun
  exact h hc s b s' hrest

theorem Gives.ite (h₁ : c → Gives p Q) (h₂ : ¬ c → Gives q Q) : Gives (if c then p else q) Q := by
  by_cases hc : c
  · rw [if_pos hc]
    exact h₁ hc
  · rw [if_neg hc]
    exact h₂ hc

/-- A first step that is chosen by a condition, of which nothing need be known. -/
theorem Gives.afterIf (h : ∀ a, Gives (f a) P) : Gives (if c then p >>= f else q >>= f) P :=
  .ite (fun _ => .after h) fun _ => .after h

/-- What is known of a value holds of what is computed from it. -/
theorem Gives.mono {Q' : α → Prop} (h : Gives p Q) (himp : ∀ a, Q a → Q' a) : Gives p Q' :=
  fun s a s' hrun => himp a (h s a s' hrun)

theorem Gives.map {g : α → β} (h : Gives p Q) (hg : ∀ a, Q a → P (g a)) : Gives (g <$> p) P := by
  rw [map_eq_pure_bind]
  exact h.bind fun a ha => .pure (hg a ha)

/-- What is known of a value in two ways is known of it at once. -/
theorem Gives.and {Q' : α → Prop} (h : Gives p Q) (h' : Gives p Q') :
    Gives p fun a => Q a ∧ Q' a :=
  fun s a s' hrun => ⟨h s a s' hrun, h' s a s' hrun⟩

/-- A first step that is chosen by a condition. -/
theorem Gives.bindIf (h₁ : c → Gives p Q) (h₂ : ¬ c → Gives q Q) (h : ∀ a, Q a → Gives (f a) P) :
    Gives (if c then p >>= f else q >>= f) P :=
  .ite (fun hc => (h₁ hc).bind h) fun hc => (h₂ hc).bind h

theorem Gives.ofExcept {x : Except Fault α} {Q : α → Prop} (h : ∀ a, x = .ok a → Q a) :
    Gives (liftM x : EStateM Fault σ α) Q := by
  intro s a s' hrun
  cases hx : x with
  | error fault =>
    rw [hx] at hrun
    cases hrun
  | ok a' =>
    rw [hx] at hrun
    cases hrun
    exact h a hx

end Gives

end Run

end DolbyVision
