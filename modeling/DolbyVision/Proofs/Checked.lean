/-
**Checks and writes that come upon no defect.**

Arithmetic that leaves its range shows as a fault of its own class, `Fault.defect`, which no input
is meant to bring about.  A computation is *clean* if it fails with other faults only.  Clean
computations compose, and one that follows a success may rely on it.

Main definitions:

* `DolbyVision.Fault.IsDefect` — the faults that no input is meant to bring about;
* `DolbyVision.Checked.Clean` — the property of computations.

Main results:

* `DolbyVision.Checked.Clean.bind`, `Clean.check`, `Clean.foldlM`, `Clean.forM` — the rules for
  computations;
* `DolbyVision.Checked.add_of_lt`, `mul_of_lt` — **what fits in its word is computed**.
-/

import DolbyVision.Proofs.Steps
import Mathlib.Tactic.Ring

set_option relaxedAutoImplicit false
set_option autoImplicit false

namespace DolbyVision

/-- A fault that no input is meant to bring about. -/
def Fault.IsDefect : Fault → Prop
  | .defect _ => True
  | _ => False

namespace Checked

/-! ### Sums and products -/

/-- A sum that fits in its word. -/
theorem add_of_lt {width a b : Nat} (h : a + b < 2 ^ width) : add width a b = .ok (a + b) :=
  within_of_lt (by rwa [Nat.one_shiftLeft])

/-- A product that fits in its word. -/
theorem mul_of_lt {width a b : Nat} (h : a * b < 2 ^ width) : mul width a b = .ok (a * b) :=
  within_of_lt (by rwa [Nat.one_shiftLeft])

/-! ### The property -/

variable {α β : Type} {x y : Except Fault α} {f : α → Except Fault β} {a : α} {fault : Fault}
  {c : Prop} [Decidable c]

/-- A computation that comes upon no defect. -/
def Clean (x : Except Fault α) : Prop :=
  ∀ fault, x = .error fault → ¬ fault.IsDefect

theorem Clean.ok (a : α) : Clean (.ok a) := by
  intro fault h
  cases h

theorem Clean.ofOk (h : x = .ok a) : Clean x := by
  rw [h]
  exact .ok a

/-- A computation that succeeds, whatever it gives, is clean. -/
theorem Clean.ofExists (h : ∃ a, x = .ok a) : Clean x := by
  obtain ⟨a, rfl⟩ := h
  exact .ok a

theorem Clean.error (hfault : ¬ fault.IsDefect) : Clean (.error fault : Except Fault α) := by
  intro fault' h
  cases h
  exact hfault

/-- What follows a success may rely on it. -/
theorem Clean.bind (h₁ : Clean x) (h₂ : ∀ a, x = .ok a → Clean (f a)) : Clean (x >>= f) := by
  cases hx : x with
  | error fault => exact .error (h₁ fault hx)
  | ok a => exact h₂ a hx

/-- A computation that succeeds hands its value to what follows. -/
theorem Clean.bindOk (hx : x = .ok a) (h : Clean (f a)) : Clean (x >>= f) := by
  subst hx
  exact h

theorem Clean.ite (h₁ : c → Clean x) (h₂ : ¬ c → Clean y) : Clean (if c then x else y) := by
  by_cases hc : c
  · rw [if_pos hc]
    exact h₁ hc
  · rw [if_neg hc]
    exact h₂ hc

/-- A first step that is chosen by a condition, in front of what follows it in either case. -/
theorem Clean.bindIf (h₁ : c → Clean x) (h₂ : ¬ c → Clean y) (h : ∀ a, Clean (f a)) :
    Clean (if c then x >>= f else y >>= f) :=
  .ite (fun hc => (h₁ hc).bind fun a _ => h a) fun hc => (h₂ hc).bind fun a _ => h a

/-- What follows a check may rely on it. -/
theorem Clean.check {g : Unit → Except Fault β} (hfault : ¬ fault.IsDefect)
    (h : ¬ c → Clean (g ())) :
    Clean (if c then (throw fault : Except Fault Unit) >>= g else g ()) :=
  .ite (fun _ => .error hfault) h

/-- A run over a list is clean if each of its steps is. -/
theorem Clean.foldlM {σ : Type} {step : σ → α → Except Fault σ} {items : List α}
    (h : ∀ a ∈ items, ∀ s, Clean (step s a)) (s : σ) : Clean (items.foldlM step s) := by
  induction items generalizing s with
  | nil => exact .ok s
  | cons a items ih =>
    obtain ⟨hfirst, hrest⟩ := List.forall_mem_cons.1 h
    rw [List.foldlM_cons]
    exact (hfirst s).bind fun s' _ => ih hrest s'

theorem Clean.forM {check : α → Except Fault Unit} {items : List α}
    (h : ∀ a ∈ items, Clean (check a)) : Clean (items.forM check) := by
  induction items with
  | nil => exact .ok ()
  | cons a items ih =>
    obtain ⟨hfirst, hrest⟩ := List.forall_mem_cons.1 h
    rw [List.forM_eq_forM, List.forM_cons]
    exact hfirst.bind fun _ _ => ih hrest

end Checked

end DolbyVision
