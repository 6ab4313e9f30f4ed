/-
**A reader is a cursor over bits.**

A `Reader` keeps up to eight bytes in a word and splices the fields that go beyond it.  Nothing of
this can be seen from outside: whatever is asked of a reader, up to the first read that fails, it
answers as a plain position in the list of all bits does.

The plain reader is `Cursor`.  It takes bits off a list, or fails if there are not as many, and
every other read is written in terms of that.  The two are compared by what an observer notes down
of a run: how many bits are left in front of each read, and what the read gives.

Main definitions:

* `DolbyVision.Bits.Request`, `DolbyVision.Bits.Event` — what can be asked, and what can be noted;
* `DolbyVision.Bits.Reader.transcript` — what a reader answers, up to the first failure;
* `DolbyVision.Bits.Cursor` — a position in a list of bits, with its reads and its `transcript`;
* `DolbyVision.Bits.Follows`, `DolbyVision.Bits.Tracks` — the simulation, of states and of reads.

Main results:

* `DolbyVision.Bits.Tracks.bind` — the simulation goes through runs of several steps;
* `DolbyVision.Bits.tracks_answer` — **each read of a reader is the read of a cursor**;
* `DolbyVision.Bits.Cursor.answer_fails_iff` — when the read of a cursor fails;
* `DolbyVision.Bits.Reader.transcript_eq` — **a reader answers as a cursor does**.
-/

import DolbyVision.Proofs.Bits.Exhausted
import DolbyVision.Proofs.Bits.Values

set_option relaxedAutoImplicit false
set_option autoImplicit false

namespace DolbyVision.Bits

/-! ### Requests and answers -/

/-- What can be asked of a reader. -/
inductive Request where
  /-- One bit. -/
  | flag
  /-- A number of up to 32 bits. -/
  | bits32 (width : Nat) (h : width ≤ 32)
  /-- A two's complement number of up to 32 bits. -/
  | signed32 (width : Nat) (h : width ≤ 32)
  /-- A number of up to 64 bits. -/
  | bits (width : Nat) (h : width ≤ 64)
  /-- A two's complement number of up to 64 bits. -/
  | signed (width : Nat) (h : width ≤ 64)
  /-- A move over some bits. -/
  | skip (n : Nat)
  /-- A move to the next byte boundary. -/
  | realign
  /-- A number that is written as that many zeros and a set bit. -/
  | unary
  /-- An unsigned Exp-Golomb code. -/
  | unsignedCode
  /-- A signed Exp-Golomb code. -/
  | signedCode

/-- What a read gives. -/
inductive Answer where
  | flag (b : Bool)
  | number (n : Nat)
  | integer (n : Int)
  | moved
  deriving DecidableEq

/-- What can be noted down of a run: the number of bits that are left, and what a read gives. -/
inductive Event where
  | left (n : Nat)
  | gave (a : Answer)
  | failed (fault : Fault)
  deriving DecidableEq

/-- What a reader gives if it is asked. -/
def Reader.answer : Request → BitParser Answer
  | .flag => do return .flag (← flag)
  | .bits32 width _ => do return .number (← bits32 width)
  | .signed32 width _ => do return .integer (← signed32 width)
  | .bits width _ => do return .number (← bits width)
  | .signed width _ => do return .integer (← signed width)
  | .skip n => do skip n; return .moved
  | .realign => do realign; return .moved
  | .unary => do return .number (← unary)
  | .unsignedCode => do return .number (← unsignedCode)
  | .signedCode => do return .integer (← signedCode)

/-- What is noted down of a reader that is asked one thing after the other, up to the first read
that fails. -/
def Reader.transcript : List Request → Reader → List Event
  | [], r => [.left r.bitsLeft]
  | q :: qs, r =>
    .left r.bitsLeft ::
      match answer q r with
      | .ok a r' => .gave a :: transcript qs r'
      | .error fault _ => [.failed fault]

/-! ### Cursors -/

/-- The number that bits spell in two's complement: the first bit counts negatively. -/
def twosComplement : List Bool → Int
  | [] => 0
  | b :: bits => ofBits bits - (b.toNat * 2 ^ bits.length : Nat)

/-- The number of zeros in front of the next set bit. -/
def zerosOf (bits : List Bool) : Nat := (bits.takeWhile not).length

/-- A position in a list of bits. -/
structure Cursor where
  bits : List Bool
  position : Nat

/-- A read of a cursor: a value and the cursor that is left, or a fault. -/
abbrev CursorParser := StateT Cursor (Except Fault)

namespace Cursor

/-- The cursor in front of all bits. -/
def start (bits : List Bool) : Cursor := ⟨bits, 0⟩

/-- The bits behind a cursor. -/
def unread (c : Cursor) : List Bool := c.bits.drop c.position

/-- The cursor after `n` bits more. -/
def advance (c : Cursor) (n : Nat) : Cursor := ⟨c.bits, c.position + n⟩

/-- Takes the next `n` bits, if there are as many. -/
def take (n : Nat) : CursorParser (List Bool) := do
  let c ← get
  if c.unread.length < n then
    throw .unexpectedEnd
  set (c.advance n)
  return c.unread.take n

/-- Takes one bit. -/
def flag : CursorParser Bool := do
  return (← take 1) == [true]

/-- Takes a number of `width` bits. -/
def number (width : Nat) : CursorParser Nat := do
  return ofBits (← take width)

/-- Takes a two's complement number of `width` bits. -/
def integer (width : Nat) : CursorParser Int := do
  return twosComplement (← take width)

/-- Takes `n` bits for nothing. -/
def skip (n : Nat) : CursorParser Unit := do
  let _ ← take n
  return ()

/-- Takes the zeros in front of the next set bit, and that bit, if there is one. -/
def unary : CursorParser Nat := do
  let c ← get
  if true ∉ c.unread then
    throw .unexpectedEnd
  set (c.advance (zerosOf c.unread + 1))
  return zerosOf c.unread

/-- Takes an unsigned Exp-Golomb code: at most 31 zeros, a set bit and as many bits as zeros. -/
def unsignedCode : CursorParser Nat := do
  let zeros ← unary
  if 32 ≤ zeros then
    throw .codeTooLong
  let suffix ← number zeros
  return 2 ^ zeros - 1 + suffix

/-- Takes a signed Exp-Golomb code: `1, 2, 3, …` stand for `1, -1, 2, …`. -/
def signedCode : CursorParser Int := do
  let code ← unsignedCode
  return if code % 2 = 1 then ((code + 1) / 2 : Nat) else -(code / 2 : Nat)

/-- Moves to the next multiple of eight bits from the start. -/
def realign : CursorParser Unit :=
  modify fun c => ⟨c.bits, 8 * ((c.position + 7) / 8)⟩

/-- What a cursor gives if it is asked. -/
def answer : Request → CursorParser Answer
  | .flag => do return .flag (← flag)
  | .bits32 width _ | .bits width _ => do return .number (← number width)
  | .signed32 width _ | .signed width _ => do return .integer (← integer width)
  | .skip n => do skip n; return .moved
  | .realign => do realign; return .moved
  | .unary => do return .number (← unary)
  | .unsignedCode => do return .number (← unsignedCode)
  | .signedCode => do return .integer (← signedCode)

/-- What is noted down of a cursor that is asked one thing after the other, up to the first read
that fails. -/
def transcript : List Request → Cursor → List Event
  | [], c => [.left c.unread.length]
  | q :: qs, c =>
    .left c.unread.length ::
      match answer q c with
      | .ok (a, c') => .gave a :: transcript qs c'
      | .error fault => [.failed fault]

end Cursor

/-! ### What a cursor refuses -/

section Failures

variable {α β : Type} {m : CursorParser α} {g : α → CursorParser β} {c c' : Cursor} {a : α}
  {n : Nat} {fault : Fault}

theorem Cursor.bind_get (g : Cursor → CursorParser α) : (get >>= g) c = g c c := rfl

theorem Cursor.length_unread_advance (c : Cursor) (n : Nat) :
    (c.advance n).unread.length = c.unread.length - n := by
  rw [unread, unread, List.length_drop, List.length_drop, Nat.sub_sub]
  rfl

theorem Cursor.bind_of_ok (h : m c = .ok (a, c')) : (m >>= g) c = g a c' := by
  change (m c >>= fun x => g x.1 x.2) = _
  rw [h]
  rfl

theorem Cursor.bind_of_error (h : m c = .error fault) : (m >>= g) c = .error fault := by
  change (m c >>= fun x => g x.1 x.2) = _
  rw [h]
  rfl

/-- A cursor takes bits that are there. -/
theorem Cursor.take_eq (h : n ≤ c.unread.length) :
    take n c = .ok (c.unread.take n, c.advance n) := by
  unfold take
  rw [bind_get, if_neg (Nat.not_lt.2 h)]
  rfl

theorem Cursor.take_short (h : c.unread.length < n) : take n c = .error .unexpectedEnd := by
  unfold take
  rw [bind_get, if_pos h]
  rfl

/-- A cursor finds the next set bit. -/
theorem Cursor.unary_eq (h : true ∈ c.unread) :
    unary c = .ok (zerosOf c.unread, c.advance (zerosOf c.unread + 1)) := by
  unfold unary
  rw [bind_get, if_neg (not_not_intro h)]
  rfl

theorem Cursor.unary_short (h : true ∉ c.unread) : unary c = .error .unexpectedEnd := by
  unfold unary
  rw [bind_get, if_pos h]
  rfl

/-- A read of a cursor fails. -/
def Cursor.Fails (m : CursorParser α) (c : Cursor) : Prop := ∃ fault, m c = .error fault

/-- What is computed from a value does not fail. -/
theorem Cursor.fails_andThen (k : α → β) :
    Fails (m >>= fun a => pure (k a)) c ↔ Fails m c := by
  constructor
  · rintro ⟨fault, h⟩
    cases hm : m c with
    | error fault' => exact ⟨fault', hm⟩
    | ok x =>
      have hpure : (m >>= fun a => pure (k a)) c = .ok (k x.1, x.2) := bind_of_ok hm
      rw [hpure] at h
      cases h
  · rintro ⟨fault, h⟩
    exact ⟨fault, bind_of_error h⟩

theorem Cursor.fails_take : Fails (take n) c ↔ c.unread.length < n := by
  constructor
  · rintro ⟨fault, h⟩
    by_contra hlen
    rw [take_eq (Nat.not_lt.1 hlen)] at h
    cases h
  · intro h
    exact ⟨_, take_short h⟩

theorem Cursor.fails_number : Fails (number n) c ↔ c.unread.length < n := by
  rw [number, fails_andThen, fails_take]

theorem Cursor.fails_integer : Fails (integer n) c ↔ c.unread.length < n := by
  rw [integer, fails_andThen, fails_take]

theorem Cursor.fails_unary : Fails unary c ↔ true ∉ c.unread := by
  constructor
  · rintro ⟨fault, h⟩ hmem
    rw [unary_eq hmem] at h
    cases h
  · intro h
    exact ⟨_, unary_short h⟩

theorem zerosOf_lt {bits : List Bool} (h : true ∈ bits) : zerosOf bits < bits.length := by
  induction bits with
  | nil => cases h
  | cons b bits ih =>
    cases b with
    | true => exact Nat.succ_pos _
    | false =>
      have hlt := ih (by simpa using h)
      exact Nat.succ_lt_succ hlt

theorem Cursor.fails_unsignedCode :
    Fails unsignedCode c ↔ true ∉ c.unread ∨ 32 ≤ zerosOf c.unread ∨
      c.unread.length < zerosOf c.unread + 1 + zerosOf c.unread := by
  by_cases hmem : true ∈ c.unread
  · have hlength : (c.advance (zerosOf c.unread + 1)).unread.length =
        c.unread.length - (zerosOf c.unread + 1) := length_unread_advance ..
    have hzeros : zerosOf c.unread < c.unread.length := zerosOf_lt hmem
    unfold Fails unsignedCode
    rw [bind_of_ok (unary_eq hmem)]
    by_cases hlong : 32 ≤ zerosOf c.unread
    · rw [if_pos hlong]
      exact ⟨fun _ => Or.inr (Or.inl hlong), fun _ => ⟨_, rfl⟩⟩
    · rw [if_neg hlong]
      change Fails (number (zerosOf c.unread) >>= _) (c.advance (zerosOf c.unread + 1)) ↔ _
      rw [fails_andThen, fails_number, hlength]
      constructor
      · intro hshort
        exact Or.inr (Or.inr (by omega))
      · rintro (hnone | hlong' | hshort)
        · exact absurd hmem hnone
        · exact absurd hlong' hlong
        · omega
  · exact ⟨fun _ => Or.inl hmem, fun _ => ⟨_, bind_of_error (unary_short hmem)⟩⟩

/-- When there is no answer: the bits are not there, there is no set bit, or a code has 32 zeros or
more. -/
def Request.Fails : Request → List Bool → Prop
  | .flag, unread => unread.length < 1
  | .bits32 width _, unread | .signed32 width _, unread => unread.length < width
  | .bits width _, unread | .signed width _, unread => unread.length < width
  | .skip n, unread => unread.length < n
  | .realign, _ => False
  | .unary, unread => true ∉ unread
  | .unsignedCode, unread | .signedCode, unread =>
    true ∉ unread ∨ 32 ≤ zerosOf unread ∨ unread.length < zerosOf unread + 1 + zerosOf unread

/-- **A cursor fails if and only if there is no answer.** -/
theorem Cursor.answer_fails_iff (q : Request) (c : Cursor) :
    Fails (answer q) c ↔ q.Fails c.unread := by
  cases q with
  | flag => rw [answer, fails_andThen, flag, fails_andThen, fails_take, Request.Fails]
  | bits32 width h | bits width h => rw [answer, fails_andThen, fails_number, Request.Fails]
  | signed32 width h | signed width h => rw [answer, fails_andThen, fails_integer, Request.Fails]
  | skip n => rw [answer, fails_andThen, skip, fails_andThen, fails_take, Request.Fails]
  | realign =>
    rw [answer, fails_andThen, Request.Fails, iff_false]
    rintro ⟨fault, h⟩
    cases h
  | unary => rw [answer, fails_andThen, fails_unary, Request.Fails]
  | unsignedCode => rw [answer, fails_andThen, fails_unsignedCode, Request.Fails]
  | signedCode =>
    rw [answer, fails_andThen, signedCode, fails_andThen, fails_unsignedCode, Request.Fails]

end Failures

/-! ### The simulation -/

/-- A reader stands where a cursor does.  The bits are those of whole bytes, and fewer than a
counter of zeros can count. -/
structure Follows (r : Reader) (c : Cursor) : Prop where
  sound : r.Sound
  unread_eq : r.unread = c.unread
  position_le : c.position ≤ c.bits.length
  dvd_length : 8 ∣ c.bits.length
  length_lt : c.bits.length < 2 ^ 32

/-- A reader at the start of a byte string stands where the cursor at the start of its bits does. -/
theorem follows_start {bytes : List UInt8} (hsize : bytes.length < 2 ^ 29) :
    Follows (Reader.ofBytes bytes) (Cursor.start (ofBytes bytes)) where
  sound := Reader.sound_ofBytes bytes
  unread_eq := Reader.unread_ofBytes bytes
  position_le := Nat.zero_le _
  dvd_length := by
    rw [Cursor.start, length_ofBytes]
    exact Nat.dvd_mul_right ..
  length_lt := by
    rw [Cursor.start, length_ofBytes]
    omega

namespace Follows

variable {r r' : Reader} {c : Cursor}

theorem bitsLeft_eq (h : Follows r c) : r.bitsLeft = c.unread.length := by
  rw [h.sound.toLoaded.bitsLeft_eq, h.unread_eq]

/-- Both go on over the same bits. -/
theorem advance (h : Follows r c) {n : Nat} (hn : n ≤ c.unread.length) (hsound : r'.Sound)
    (hunread : r'.unread = r.unread.drop n) : Follows r' (c.advance n) where
  sound := hsound
  unread_eq := by
    rw [hunread, h.unread_eq, Cursor.unread, List.drop_drop]
    rfl
  position_le := by
    have hle := h.position_le
    rw [Cursor.unread, List.length_drop] at hn
    change c.position + n ≤ c.bits.length
    omega
  dvd_length := h.dvd_length
  length_lt := h.length_lt

end Follows

/-- The read `p` of a reader is the read `m` of a cursor: from where the two stand together they
give the same value and stand together again, or they fail in the same way. -/
def Tracks {α : Type} (p : BitParser α) (m : CursorParser α) : Prop :=
  ∀ r c, Follows r c →
    (∃ a r' c', p r = .ok a r' ∧ m c = .ok (a, c') ∧ Follows r' c') ∨
      ∃ fault r', p r = .error fault r' ∧ m c = .error fault

section Rules

variable {α β : Type} {p : BitParser α} {m : CursorParser α} {f : α → BitParser β}
  {g : α → CursorParser β} {Q : α → Prop}

theorem Tracks.pure (a : α) : Tracks (Pure.pure a) (Pure.pure a) :=
  fun r c h => Or.inl ⟨a, r, c, rfl, rfl, h⟩

/-- A run of several steps is simulated step by step; what follows the first one may rely on what
is known of its value. -/
theorem Tracks.bindGives (h₁ : Tracks p m) (hQ : Run.Gives p Q)
    (h₂ : ∀ a, Q a → Tracks (f a) (g a)) : Tracks (p >>= f) (m >>= g) := by
  intro r c h
  rcases h₁ r c h with ⟨a, r', c', hp, hm, h'⟩ | ⟨fault, r', hp, hm⟩
  · rw [Run.bind_ok hp, Cursor.bind_of_ok hm]
    exact h₂ a (hQ r a r' hp) r' c' h'
  · exact Or.inr ⟨fault, r', Run.bind_error hp, Cursor.bind_of_error hm⟩

theorem Tracks.bind (h₁ : Tracks p m) (h₂ : ∀ a, Tracks (f a) (g a)) :
    Tracks (p >>= f) (m >>= g) :=
  h₁.bindGives (Q := fun _ => True) (fun _ _ _ _ => trivial) fun a _ => h₂ a

/-- A value that both compute from what they read. -/
theorem Tracks.andThen (h : Tracks p m) (k : α → β) :
    Tracks (p >>= fun a => Pure.pure (k a)) (m >>= fun a => Pure.pure (k a)) :=
  h.bind fun a => .pure (k a)

/-- A check that both make, after which both go on. -/
theorem Tracks.check {b b' : Prop} [Decidable b] [Decidable b'] {fault : Fault}
    {f : Unit → BitParser β} {g : Unit → CursorParser β} (hiff : b ↔ b')
    (h : ¬ b → Tracks (f ()) (g ())) :
    Tracks (if b then (throw fault : BitParser Unit) >>= f else f ())
      (if b' then (throw fault : CursorParser Unit) >>= g else g ()) := by
  by_cases hb : b
  · rw [if_pos hb, if_pos (hiff.1 hb)]
    exact fun r c _ => Or.inr ⟨fault, r, rfl, rfl⟩
  · rw [if_neg hb, if_neg (mt hiff.2 hb)]
    exact h hb

/-- A computation without a reader that comes upon no defect. -/
theorem Tracks.ofOk {x : Except Fault α} {a : α} (h : x = .ok a) :
    Tracks (liftM x) (Pure.pure a) :=
  fun r c hfollows => Or.inl ⟨a, r, c, Run.lift_ok h, rfl, hfollows⟩

end Rules

/-! ### The reads of a reader -/

/-- A read that takes the next bits is what a cursor takes. -/
theorem Reader.Takes.tracks {α : Type} {p : BitParser α} {n : Nat} {k : List Bool → α}
    (hp : Reader.Takes p n k) : Tracks p (Cursor.take n >>= fun bits => Pure.pure (k bits)) := by
  intro r c h
  by_cases hlen : n ≤ c.unread.length
  · obtain ⟨r', hrun, hsound, hunread⟩ := hp.eq r h.sound (by rwa [h.unread_eq])
    refine Or.inl ⟨k (c.unread.take n), r', c.advance n, ?_, ?_, h.advance hlen hsound hunread⟩
    · rw [hrun, h.unread_eq]
    · exact Cursor.bind_of_ok (Cursor.take_eq hlen)
  · obtain ⟨r', hrun⟩ := hp.short r h.sound (by rw [h.unread_eq]; omega)
    exact Or.inr ⟨_, r', hrun, Cursor.bind_of_error (Cursor.take_short (Nat.not_le.1 hlen))⟩

/-- **Sign extension of what bits spell is what they spell in two's complement.** -/
theorem Reader.extended_ofBits {w : Nat} (bits : List Bool) (hle : bits.length ≤ w) :
    Reader.extended w bits.length (ofBits bits) = .ok (twosComplement bits) := by
  cases bits with
  | nil =>
    rw [Reader.extended, List.length_nil, signExtend_of_le _ (Nat.zero_le w)]
    refine congrArg Except.ok ?_
    simp [twosComplement]
  | cons b bits =>
    have hlt := ofBits_lt bits
    have hpow : ((2 ^ (bits.length + 1) : Nat) : Int) = 2 * (2 ^ bits.length : Nat) := by
      rw [pow_succ]
      push_cast
      ring
    have hpos : 0 < (b :: bits).length := Nat.succ_pos _
    rw [Reader.extended_eq hpos hle (ofBits_lt _), ofBits_cons, List.length_cons, twosComplement]
    -- The two differ by twice what the first bit counts, and one of them is in the range.
    refine congrArg Except.ok ((Int.bmod_eq_iff (Nat.two_pow_pos _)).2 ?_)
    rw [hpow]
    generalize 2 ^ bits.length = half at hlt
    refine ⟨?_, ?_, -b.toNat, ?_⟩
    · cases b <;> simp
    · cases b <;> simp <;> omega
    · push_cast
      ring

/-- A two's complement field is a field of a word, of which the sign is extended. -/
theorem Reader.Takes.signed {p : BitParser Nat} {w width : Nat} (hle : width ≤ w)
    (hp : Reader.Takes p width ofBits) :
    Reader.Takes (p >>= fun value => liftM (Reader.extended w width value)) width
      twosComplement where
  eq r hsound hlen := by
    obtain ⟨r', hrun, hsound', hunread⟩ := hp.eq r hsound hlen
    have hwidth : (r.unread.take width).length = width := by
      rw [List.length_take, Nat.min_eq_left hlen]
    refine ⟨r', ?_, hsound', hunread⟩
    have hvalue := Reader.extended_ofBits (r.unread.take width) (hwidth.symm ▸ hle)
    rw [hwidth] at hvalue
    rw [Run.bind_ok hrun]
    exact Run.lift_ok hvalue
  short r hsound hshort := by
    obtain ⟨r', hrun⟩ := hp.short r hsound hshort
    exact ⟨r', Run.bind_error hrun⟩

/-! ### Runs of zeros and codes -/

/-- A run of zeros in front of a set bit, as a cursor measures it. -/
theorem zerosOf_run (z : Nat) (tail : List Bool) :
    zerosOf (List.replicate z false ++ true :: tail) = z := by
  rw [zerosOf, List.takeWhile_append_of_pos (by simp)]
  simp

theorem tracks_unary : Tracks Reader.unary Cursor.unary := by
  intro r c h
  have hlt : r.unread.length < 2 ^ 32 := by
    rw [h.unread_eq, Cursor.unread, List.length_drop]
    exact lt_of_le_of_lt (Nat.sub_le ..) h.length_lt
  rcases zeros_or_run r.unread with hzeros | ⟨z, tail, hrun⟩
  · obtain ⟨r', hfail⟩ := Reader.unary_short h.sound hzeros hlt
    have hnone : true ∉ c.unread := by
      rw [← h.unread_eq, hzeros]
      simp
    exact Or.inr ⟨_, r', hfail, Cursor.unary_short hnone⟩
  · have hlength : r.unread.length = z + (tail.length + 1) := by simp [hrun]
    obtain ⟨r', hrun', hsound, htail⟩ := Reader.unary_eq h.sound hrun (by omega)
    have hsome : true ∈ c.unread := by
      rw [← h.unread_eq, hrun]
      simp
    have hmeasure : zerosOf c.unread = z := by
      rw [← h.unread_eq, hrun, zerosOf_run]
    have hdrop : tail = r.unread.drop (z + 1) := by
      rw [hrun, List.drop_append]
      simp
    have hle : z + 1 ≤ c.unread.length := by rw [← h.unread_eq]; omega
    refine Or.inl ⟨z, r', c.advance (z + 1), hrun', ?_, h.advance hle hsound (htail.trans hdrop)⟩
    rw [Cursor.unary_eq hsome, hmeasure]

theorem tracks_unsignedCode : Tracks Reader.unsignedCode Cursor.unsignedCode := by
  refine tracks_unary.bind fun zeros => .check (by omega) fun hzeros => ?_
  have h32 : zeros ≤ 32 := by omega
  have htake : Tracks (Reader.bits32 zeros) (Cursor.number zeros) :=
    (Reader.takes_bits32 h32).tracks
  refine htake.bindGives (gives_bits32 zeros) fun suffix hsuffix => ?_
  exact .ofOk (Reader.codeValue_eq (Nat.not_lt.1 hzeros) hsuffix)

theorem tracks_signedCode : Tracks Reader.signedCode Cursor.signedCode := by
  refine tracks_unsignedCode.bindGives gives_unsignedCode fun code hcode => ?_
  have hvalue : (if code % 2 = 1 then (((code + 1) / 2 : Nat) : Int) else -(code / 2 : Nat)) =
      if code % 2 = 1 then ((code / 2 + code % 2 : Nat) : Int)
      else -((code / 2 + code % 2 : Nat) : Int) := by
    split <;> omega
  rw [hvalue]
  exact (Tracks.ofOk (within_magnitude hcode)).andThen _

/-! ### Moves to a boundary -/

theorem tracks_realign : Tracks Reader.realign Cursor.realign := by
  intro r c h
  obtain ⟨r', hrun, hsound, hunread⟩ := Reader.realign_eq h.sound
  have hlength : r.unread.length = c.bits.length - c.position := by
    rw [h.unread_eq, Cursor.unread, List.length_drop]
  have hle := h.position_le
  have hdvd := h.dvd_length
  have hmove : c.position + r.unread.length % 8 = 8 * ((c.position + 7) / 8) := by omega
  have hadvance := h.advance (n := r.unread.length % 8)
    (by rw [← h.unread_eq]; exact Nat.mod_le ..) hsound hunread
  rw [Cursor.advance, hmove] at hadvance
  exact Or.inl ⟨(), r', _, hrun, rfl, hadvance⟩

/-! ### Runs -/

/-- **Each read of a reader is the read of a cursor.** -/
theorem tracks_answer (q : Request) : Tracks (Reader.answer q) (Cursor.answer q) := by
  cases q with
  | flag => exact Reader.takes_flag.tracks.andThen Answer.flag
  | bits32 width h => exact (Reader.takes_bits32 h).tracks.andThen Answer.number
  | signed32 width h => exact ((Reader.takes_bits32 h).signed h).tracks.andThen Answer.integer
  | bits width h => exact (Reader.takes_bits h).tracks.andThen Answer.number
  | signed width h => exact ((Reader.takes_bits h).signed h).tracks.andThen Answer.integer
  | skip n => exact (Reader.takes_skip n).tracks.andThen fun _ => Answer.moved
  | realign => exact tracks_realign.andThen fun _ => Answer.moved
  | unary => exact tracks_unary.andThen Answer.number
  | unsignedCode => exact tracks_unsignedCode.andThen Answer.number
  | signedCode => exact tracks_signedCode.andThen Answer.integer

/-- From where a reader and a cursor stand together, the same is noted down of both. -/
theorem Follows.same_transcript {r : Reader} {c : Cursor} (h : Follows r c) (qs : List Request) :
    r.transcript qs = c.transcript qs := by
  induction qs generalizing r c with
  | nil => rw [Reader.transcript, Cursor.transcript, h.bitsLeft_eq]
  | cons q qs ih =>
    rw [Reader.transcript, Cursor.transcript, h.bitsLeft_eq]
    rcases tracks_answer q r c h with ⟨a, r', c', hr, hc, h'⟩ | ⟨fault, r', hr, hc⟩
    · rw [hr, hc]
      dsimp only
      rw [ih h']
    · rw [hr, hc]

/-- **A reader answers as a cursor does.**  Of a byte string that is shorter than `2 ^ 29` bytes the
same is noted down, whatever is asked: each read gives what the next bits spell, the bits that are
left are those behind the cursor, and the first read that fails is the first one to which the bits
behind the cursor hold no answer. -/
theorem Reader.transcript_eq {bytes : List UInt8} (hsize : bytes.length < 2 ^ 29)
    (qs : List Request) :
    (Reader.ofBytes bytes).transcript qs = (Cursor.start (Bits.ofBytes bytes)).transcript qs ∧
      ∀ q c, Cursor.Fails (Cursor.answer q) c ↔ q.Fails c.unread :=
  ⟨(follows_start hsize).same_transcript qs, Cursor.answer_fails_iff⟩

/-- Fields, codes and moves in four bytes, the last of which has no second set bit. -/
theorem Reader.transcript_eq_fourBytes :
    ([0xa6, 0x43, 0xa6, 0x40] : List UInt8).length < 2 ^ 29 ∧
      (Reader.ofBytes [0xa6, 0x43, 0xa6, 0x40]).transcript
        [.signed32 4 (by decide), .bits 4 (by decide), .unsignedCode, .signedCode, .flag, .realign,
          .unary, .unary] =
        [.left 32, .gave (.integer (-6)), .left 28, .gave (.number 6), .left 24, .gave (.number 1),
          .left 21, .gave (.integer 7), .left 14, .gave (.flag true), .left 13, .gave .moved,
          .left 8, .gave (.number 1), .left 6, .failed .unexpectedEnd] := by
  have hsize : ([0xa6, 0x43, 0xa6, 0x40] : List UInt8).length < 2 ^ 29 := by decide
  refine ⟨hsize, ?_⟩
  rw [(transcript_eq hsize _).1]
  decide

end DolbyVision.Bits
