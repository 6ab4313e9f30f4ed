/-
**What a write conveys to a read.**

A writer goes from `w` to `w'`; what it has written in between *conveys* the value `a` to the read
`p` if `p`, started in front of those bits, takes exactly them and gives `a`.  Whether a read moves
to a byte boundary and whether it asks how many bits are left depends on what follows, so the
relation also fixes the number of bits of the whole of which `w'` has written the beginning.

Writes are composed by composing writers, reads by binding; `Conveys.bind` matches the two, and the
syntax of an RPU is followed with the rules of this module alone.

Main definitions:

* `DolbyVision.Bits.Conveys` — the relation;
* `DolbyVision.Bits.Refuses` — what was written is refused with a given fault.

Main results:

* `DolbyVision.Bits.Conveys.bind`, `Conveys.guard`, `Conveys.pure` — the rules for computations;
* `DolbyVision.Bits.conveys_u8`, `conveys_unsignedCode`, … — single fields;
* `DolbyVision.Bits.Conveys.list`, `Conveys.times` — **repeated items**;
* `DolbyVision.Bits.conveys_realign`, `DolbyVision.Bits.Conveys.bindGet` — reads that depend on the
  position.
-/

import DolbyVision.Proofs.Bits.Reads

set_option relaxedAutoImplicit false
set_option autoImplicit false

namespace DolbyVision.Bits

/-- What was written from `w` to `w'`, as a part of `size` bits, conveys `a` to the read `p`. -/
def Conveys {σ α : Type} [ReadingState σ] (size : Nat) (w w' : Writer) (p : EStateM Fault σ α)
    (a : α) : Prop :=
  ∃ bits, w'.written = w.written ++ bits ∧
    ∀ rest, w'.written.length + rest.length = size → Reads p bits rest a

section Rules

variable {σ α β : Type} [ReadingState σ] {size : Nat} {w w₁ w' : Writer}
  {p : EStateM Fault σ α} {f : α → EStateM Fault σ β} {a : α} {b : β}

/-- A read that takes what was written, whatever follows. -/
theorem Conveys.ofReads {bits : List Bool} (hbits : w'.written = w.written ++ bits)
    (h : ∀ rest, Reads p bits rest a) : Conveys size w w' p a :=
  ⟨bits, hbits, fun rest _ => h rest⟩

/-- What is conveyed from the first bit of a whole on is read from it. -/
theorem Reads.ofConveys {bits rest : List Bool} (hbits : w'.written = bits)
    (hconveys : Conveys (bits.length + rest.length) Writer.empty w' p a) :
    Reads p bits rest a := by
  obtain ⟨bits', hwritten, hreads⟩ := hconveys
  rw [Writer.written_empty, List.nil_append] at hwritten
  rw [← hbits, hwritten]
  exact hreads rest (by rw [hbits])

theorem Conveys.pure (a : α) : Conveys size w w (Pure.pure a : EStateM Fault σ α) a :=
  Conveys.ofReads (List.append_nil _).symm fun rest => Reads.pure rest a

theorem Conveys.ofExcept {x : Except Fault α} (h : x = .ok a) :
    Conveys size w w (liftM x : EStateM Fault σ α) a :=
  Conveys.ofReads (List.append_nil _).symm fun rest => Reads.ofExcept rest h

/-- Writes that follow one another convey to reads that do. -/
theorem Conveys.bind (h₁ : Conveys size w w₁ p a) (h₂ : Conveys size w₁ w' (f a) b) :
    Conveys size w w' (p >>= f) b := by
  obtain ⟨bits₁, hbits₁, hreads₁⟩ := h₁
  obtain ⟨bits₂, hbits₂, hreads₂⟩ := h₂
  refine ⟨bits₁ ++ bits₂, by rw [hbits₂, hbits₁, List.append_assoc], fun rest hrest => ?_⟩
  refine Reads.bind (hreads₁ (bits₂ ++ rest) ?_) (hreads₂ rest hrest)
  rw [hbits₂, List.length_append] at hrest
  rw [List.length_append]
  omega

/-- A writer from which something is conveyed goes on from where it was. -/
theorem Conveys.start (h : Conveys size w w' p a) : w.written <+: w'.written := by
  obtain ⟨bits, hbits, -⟩ := h
  rw [hbits]
  exact List.prefix_append ..

/-- A value that is computed from what is read. -/
theorem Conveys.andThen (h : Conveys size w w' p a) (g : α → β) :
    Conveys size w w' (p >>= fun x => Pure.pure (g x)) (g a) :=
  h.bind (Conveys.pure (g a))

theorem Conveys.map (h : Conveys size w w' p a) (g : α → β) :
    Conveys size w w' (g <$> p) (g a) := by
  obtain ⟨bits, hbits, hreads⟩ := h
  exact ⟨bits, hbits, fun rest hrest => (hreads rest hrest).map g⟩

/-- A check that passes leaves what follows it. -/
theorem Conveys.guard {c : Prop} [Decidable c] {fault : Fault} {g : Unit → EStateM Fault σ β}
    (hc : ¬ c) (h : Conveys size w w' (g ()) b) :
    Conveys size w w' (if c then (throw fault : EStateM Fault σ Unit) >>= g else g ()) b := by
  rwa [if_neg hc]

/-- A read that is chosen by a condition, in front of what follows it in either case. -/
theorem Conveys.bindIf {c : Prop} [Decidable c] {q : EStateM Fault σ α}
    (h₁ : Conveys size w w₁ (if c then p else q) a) (h₂ : Conveys size w₁ w' (f a) b) :
    Conveys size w w' (if c then p >>= f else q >>= f) b := by
  by_cases hc : c
  · rw [if_pos hc] at h₁ ⊢
    exact h₁.bind h₂
  · rw [if_neg hc] at h₁ ⊢
    exact h₁.bind h₂

/-- The relation depends on the value only through equality. -/
theorem Conveys.congr {a' : α} (h : Conveys size w w' p a) (ha : a = a') :
    Conveys size w w' p a' := ha ▸ h

/-- The relation depends on the writers only through what they have written. -/
theorem Conveys.congrWritten {w'' : Writer} (h : Conveys size w w' p a)
    (hsame : w''.written = w'.written) : Conveys size w w'' p a := by
  obtain ⟨bits, hbits, hreads⟩ := h
  refine ⟨bits, by rw [hsame, hbits], fun rest hrest => hreads rest ?_⟩
  rwa [hsame] at hrest

end Rules

/-! ### Single fields -/

section Fields

variable {size : Nat} {w w' : Writer}

theorem conveys_bits {width n : Nat} (hput : w.put width n = .ok w') :
    Conveys size w w' (Reader.bits width) (n % 2 ^ width) := by
  obtain ⟨h64, hwritten⟩ := Writer.written_of_put hput
  exact Conveys.ofReads hwritten fun rest => reads_bits rest h64 n

theorem conveys_bits32 {width n : Nat} (h32 : width ≤ 32) (hput : w.put width n = .ok w') :
    Conveys size w w' (Reader.bits32 width) (n % 2 ^ width) :=
  Conveys.ofReads (Writer.written_of_put hput).2 fun rest => reads_bits32 rest h32 n

theorem conveys_flag {b : Bool} (hput : w.putFlag b = .ok w') :
    Conveys size w w' Reader.flag b :=
  Conveys.ofReads ((appends_putFlag b).written hput) fun rest => reads_flag rest b

theorem conveys_u8 {width : Nat} {v : UInt8} (h32 : width ≤ 32)
    (hput : w.put width v.toNat = .ok w') : Conveys size w w' (Reader.u8 width) (lower8 width v) :=
  Conveys.ofReads (Writer.written_of_put hput).2 fun rest => reads_u8 rest h32 v

theorem conveys_u16 {width : Nat} {v : UInt16} (h32 : width ≤ 32)
    (hput : w.put width v.toNat = .ok w') :
    Conveys size w w' (Reader.u16 width) (lower16 width v) :=
  Conveys.ofReads (Writer.written_of_put hput).2 fun rest => reads_u16 rest h32 v

theorem conveys_u32 {width : Nat} {v : UInt32} (h32 : width ≤ 32)
    (hput : w.put width v.toNat = .ok w') :
    Conveys size w w' (Reader.u32 width) (lower32 width v) :=
  Conveys.ofReads (Writer.written_of_put hput).2 fun rest => reads_u32 rest h32 v

theorem conveys_i16 {width : Nat} {v : Int16} (hpos : 0 < width) (h32 : width ≤ 32)
    (hput : w.put width (Field.ofInt width v.toInt).value = .ok w') :
    Conveys size w w' (Reader.i16 width) (lowerSigned16 width v) := by
  refine Conveys.ofReads ?_ fun rest => reads_i16 rest hpos h32 v
  rw [(Writer.written_of_put hput).2, Field.bits_cons, Field.bits_nil, List.append_nil]
  rfl

theorem conveys_unsignedCode {n : Nat} (hn : n ≤ maxCode) (hput : w.putUnsignedCode n = .ok w') :
    Conveys size w w' Reader.unsignedCode n :=
  Conveys.ofReads (Writer.written_of_putUnsignedCode hput) fun rest => reads_unsignedCode rest hn

theorem conveys_signedCode {n : Int} (hn : n.natAbs < 2 ^ 31) (hput : w.putSignedCode n = .ok w') :
    Conveys size w w' Reader.signedCode n :=
  Conveys.ofReads (Writer.written_of_putSignedCode hput) fun rest => reads_signedCode rest hn

theorem conveys_skip {n value : Nat} (hput : w.put n value = .ok w') :
    Conveys size w w' (Reader.skip n) () := by
  refine Conveys.ofReads (Writer.written_of_put hput).2 fun rest => ?_
  have h := reads_skip rest (toBits n value)
  rwa [length_toBits] at h

/-- The first field of a layout is read, and then what follows it. -/
theorem Conveys.bindField {α β : Type} {width value : Nat} {fields : List Field} {v : Writer}
    {p : BitParser α} {g : α → BitParser β} {a : α} {b : β}
    (hput : w.putFields (⟨width, value⟩ :: fields) = .ok v)
    (hfirst : ∀ w₁, w.put width value = .ok w₁ → Conveys size w w₁ p a)
    (hrest : ∀ w₁, w₁.putFields fields = .ok v → Conveys size w₁ w' (g a) b) :
    Conveys size w w' (p >>= g) b := by
  obtain ⟨w₁, hfield, hfields⟩ := Checked.ok_of_bind hput
  exact (hfirst w₁ hfield).bind (hrest w₁ hfields)

/-! ### Positions -/

/-- A read moves to the boundary to which the writer has moved, if the whole ends at one. -/
theorem conveys_realign (hsize : 8 ∣ size) (hput : w.realign = .ok w') :
    Conveys size w w' Reader.realign () := by
  have hwritten := Writer.written_of_realign hput
  refine ⟨_, hwritten, fun rest hrest => reads_realign rest ?_⟩
  rw [hwritten, List.length_append, List.length_replicate] at hrest
  rw [List.length_append, List.length_replicate]
  have := padding_lt w.written.length
  have := dvd_add_padding w.written.length
  omega

/-- There are readers with any number of bits left. -/
theorem exists_bitsLeft_eq (n : Nat) : ∃ r : Reader, r.bitsLeft = n := by
  refine ⟨⟨List.replicate (n / 8) 0, n / 8, 0, n % 8, true, by simp⟩, ?_⟩
  change 8 * (n / 8) + n % 8 = n
  omega

/-- What a read does with its reader may depend on the number of bits that are left. -/
theorem Conveys.bindGet {α : Type} {f : Reader → BitParser α} {a : α}
    (h : ∀ r : Reader, r.bitsLeft = size - w.written.length → Conveys size w w' (f r) a) :
    Conveys size w w' (get >>= f) a := by
  obtain ⟨r₀, hr₀⟩ := exists_bitsLeft_eq (size - w.written.length)
  obtain ⟨bits, hbits, -⟩ := h r₀ hr₀
  refine ⟨bits, hbits, fun rest hrest => Reads.ofReader fun r hsound hunread => ?_⟩
  have hleft : r.bitsLeft = size - w.written.length := by
    rw [hbits, List.length_append] at hrest
    rw [hsound.bitsLeft_eq, hunread, List.length_append]
    omega
  -- The bits that were written do not depend on the reader.
  obtain ⟨bits', hbits', hreads⟩ := h r hleft
  have hsame : bits' = bits := List.append_cancel_left (hbits'.symm.trans hbits)
  subst hsame
  obtain ⟨r', hrun, hsound', hunread'⟩ := hreads rest hrest r hsound hunread
  exact ⟨r', by rw [Run.bind_ok Run.get_ok]; exact hrun, hsound', hunread'⟩

/-- What was written may be taken to fit in the whole. -/
theorem Conveys.ofFits {σ α : Type} [ReadingState σ] {p : EStateM Fault σ α} {a : α}
    (hstart : w.written <+: w'.written)
    (h : w'.written.length ≤ size → Conveys size w w' p a) : Conveys size w w' p a := by
  obtain ⟨bits, hbits⟩ := hstart
  by_cases hfits : w'.written.length ≤ size
  · exact h hfits
  · exact ⟨bits, hbits.symm, fun rest hrest => absurd (hrest ▸ Nat.le_add_right ..) hfits⟩

end Fields

/-! ### Refusals -/

/-- What was written from `w` to `w'`, as a part of `size` bits, is refused by the read `p` with a
given fault. -/
def Refuses {σ α : Type} [ReadingState σ] (size : Nat) (w w' : Writer) (p : EStateM Fault σ α)
    (fault : Fault) : Prop :=
  ∃ bits, w'.written = w.written ++ bits ∧
    ∀ rest, w'.written.length + rest.length = size →
      ∀ s : σ, (ReadingState.reader s).Sound → (ReadingState.reader s).unread = bits ++ rest →
        ∃ s', p s = .error fault s'

section Refusals

variable {σ α β : Type} [ReadingState σ] {size : Nat} {w w₁ w' : Writer} {p : EStateM Fault σ α}
  {f : α → EStateM Fault σ β} {a : α} {fault : Fault}

/-- A read that refuses what follows a part that it takes. -/
theorem Refuses.bind (h₁ : Conveys size w w₁ p a) (h₂ : Refuses size w₁ w' (f a) fault) :
    Refuses size w w' (p >>= f) fault := by
  obtain ⟨bits₁, hbits₁, hreads⟩ := h₁
  obtain ⟨bits₂, hbits₂, hfails⟩ := h₂
  refine ⟨bits₁ ++ bits₂, by rw [hbits₂, hbits₁, List.append_assoc], ?_⟩
  intro rest hrest s hsound hunread
  -- What is refused may be counted as what follows the first part.
  have hwhole : w₁.written.length + (bits₂ ++ rest).length = size := by
    rw [hbits₂, List.length_append] at hrest
    rw [List.length_append]
    omega
  rw [List.append_assoc] at hunread
  obtain ⟨r, hrun, hsound', hunread'⟩ := hreads (bits₂ ++ rest) hwhole s hsound hunread
  have hreader := ReadingState.reader_withReader s r
  obtain ⟨s', hfail⟩ := hfails rest hrest (ReadingState.withReader s r) (by rwa [hreader])
    (by rwa [hreader])
  exact ⟨s', by rw [Run.bind_ok hrun, hfail]⟩

theorem Refuses.bindIf {c : Prop} [Decidable c] {q : EStateM Fault σ α}
    (h₁ : Conveys size w w₁ (if c then p else q) a) (h₂ : Refuses size w₁ w' (f a) fault) :
    Refuses size w w' (if c then p >>= f else q >>= f) fault := by
  by_cases hc : c
  · rw [if_pos hc] at h₁ ⊢
    exact Refuses.bind h₁ h₂
  · rw [if_neg hc] at h₁ ⊢
    exact Refuses.bind h₁ h₂

/-- A read that fails is not followed by anything. -/
theorem Refuses.first (h : Refuses size w w' p fault) : Refuses size w w' (p >>= f) fault := by
  obtain ⟨bits, hbits, hfails⟩ := h
  refine ⟨bits, hbits, fun rest hrest s hsound hunread => ?_⟩
  obtain ⟨s', hfail⟩ := hfails rest hrest s hsound hunread
  exact ⟨s', Run.bind_error hfail⟩

/-- A read that fails at once. -/
theorem Refuses.ofThrow (h : ∀ s, ∃ s', p s = .error fault s') (hstart : w.written <+: w'.written) :
    Refuses size w w' p fault := by
  obtain ⟨bits, hbits⟩ := hstart
  exact ⟨bits, hbits.symm, fun rest _ s _ _ => h s⟩

/-- A check that does not pass. -/
theorem Refuses.guard {c : Prop} [Decidable c] {g : Unit → EStateM Fault σ β} (hc : c)
    (hstart : w.written <+: w'.written) :
    Refuses size w w' (if c then (throw fault : EStateM Fault σ Unit) >>= g else g ()) fault := by
  rw [if_pos hc]
  exact Refuses.ofThrow (fun s => ⟨s, rfl⟩) hstart

end Refusals

/-! ### Repeated items -/

section Repeated

variable {α β : Type} {size : Nat} {put : Writer → α → Except Fault Writer} {item : BitParser β}
  {coded : α → β}

/-- **A list of items is conveyed** if each of them is, wherever it is written. -/
theorem Conveys.list {xs : List α} {w w' : Writer}
    (hitem : ∀ x ∈ xs, ∀ w w', put w x = .ok w' → Conveys size w w' item (coded x))
    (hput : xs.foldlM put w = .ok w') :
    Conveys size w w' (Reader.list xs.length item) (xs.map coded) := by
  induction xs generalizing w with
  | nil =>
    cases hput
    exact Conveys.pure []
  | cons x xs ih =>
    rw [List.foldlM_cons] at hput
    obtain ⟨w₁, hfirst, hrest⟩ := Checked.ok_of_bind hput
    have htail := ih (fun y hy => hitem y (List.mem_cons_of_mem x hy)) hrest
    exact (hitem x List.mem_cons_self w w₁ hfirst).bind (htail.andThen (coded x :: ·))

/-- **A vector of items is conveyed** if each of them is, wherever it is written. -/
theorem Conveys.times {n : Nat} {xs : Vector α n} {w w' : Writer}
    (hitem : ∀ x ∈ xs.toList, ∀ w w', put w x = .ok w' → Conveys size w w' item (coded x))
    (hput : xs.toList.foldlM put w = .ok w') :
    Conveys size w w' (Reader.times n item) (xs.map coded) := by
  induction n generalizing w' with
  | zero =>
    have hnil : xs = #v[] := Vector.eq_empty
    subst hnil
    cases hput
    have hempty : Conveys size w w (Pure.pure #v[] : BitParser (Vector β 0)) #v[] :=
      Conveys.pure #v[]
    exact hempty.congr Vector.eq_empty.symm
  | succ n ih =>
    -- Vectors are read by pushing the last item, so they are taken apart at their end.
    have hsplit : xs.toList = xs.pop.toList ++ [xs.back] := by
      rw [← Vector.toList_push, Vector.push_pop_back]
    rw [hsplit] at hput hitem
    rw [List.foldlM_append] at hput
    obtain ⟨w₁, hinit, hlast⟩ := Checked.ok_of_bind hput
    rw [List.foldlM_cons] at hlast
    obtain ⟨w₂, hback, hend⟩ := Checked.ok_of_bind hlast
    cases hend
    have hfront := ih (fun x hx => hitem x (List.mem_append_left _ hx)) hinit
    have hitemBack := hitem xs.back (List.mem_append_right _ List.mem_cons_self) w₁ w' hback
    refine hfront.bind ((hitemBack.andThen fun last => (xs.pop.map coded).push last).congr ?_)
    rw [← Vector.map_push, Vector.push_pop_back]

/-- A vector of fields is conveyed if each of them is. -/
theorem Conveys.timesFields {n : Nat} {xs : Vector α n} {field : α → Field} {w w' : Writer}
    (hitem : ∀ x w w', w.put (field x).width (field x).value = .ok w' →
      Conveys size w w' item (coded x))
    (hput : w.putFields (xs.toList.map field) = .ok w') :
    Conveys size w w' (Reader.times n item) (xs.map coded) := by
  rw [Writer.putFields, List.foldlM_map] at hput
  exact Conveys.times (fun x _ w w' hw => hitem x w w' hw) hput

end Repeated

end DolbyVision.Bits
