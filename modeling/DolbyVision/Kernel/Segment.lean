/-
**Segments of samples.**

The kernels work on rows that lie in a longer list of samples.  A row that does not lie in the list
altogether makes a kernel give nothing.

Main definitions:

* `DolbyVision.Kernel.segment`, `DolbyVision.Kernel.store` — reading and overwriting a segment;
* `DolbyVision.Kernel.overwrite` — overwriting the start of a list;
* `DolbyVision.Kernel.strips` — a list cut into strips of a given length.
-/

set_option relaxedAutoImplicit false
set_option autoImplicit false

namespace DolbyVision.Kernel

/-- The `length` samples from `start` on, if there are that many. -/
def segment {α : Type} (samples : List α) (start length : Nat) : Option (List α) :=
  if start + length ≤ samples.length then some ((samples.drop start).take length) else none

/-- The samples with a row in the place of those from `start` on, if the row fits. -/
def store {α : Type} (samples : List α) (start : Nat) (row : List α) : Option (List α) :=
  if start + row.length ≤ samples.length then
    some (samples.take start ++ row ++ samples.drop (start + row.length))
  else none

/-- The samples with values in the place of the first ones.  Values beyond the end are dropped. -/
def overwrite {α : Type} (samples values : List α) : List α :=
  values.take samples.length ++ samples.drop values.length

@[simp] theorem length_overwrite {α : Type} (samples values : List α) :
    (overwrite samples values).length = samples.length := by
  simp only [overwrite, List.length_append, List.length_take, List.length_drop]
  omega

theorem length_drop_lt {α : Type} {length : Nat} {samples : List α}
    (h : ¬(samples = [] ∨ length = 0)) : (samples.drop length).length < samples.length := by
  have := List.length_pos_iff.2 (not_or.1 h).1
  have := (not_or.1 h).2
  rw [List.length_drop]
  omega

/-- A list cut into strips of `length` elements and a shorter strip for what is left. -/
def strips {α : Type} (length : Nat) (samples : List α) : List (List α) :=
  if h : samples = [] ∨ length = 0 then []
  else
    have := length_drop_lt h
    samples.take length :: strips length (samples.drop length)
termination_by samples.length

end DolbyVision.Kernel
