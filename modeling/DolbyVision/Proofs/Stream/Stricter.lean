/-
**Stricter decoders accept less and decode nothing else.**

The flags of a decoder are looked at in four places: the checksum, the reserved bits of the header,
the rules of the profile, and static blocks in compressed data.  Each of them only decides whether a
fault is raised, and more flags raise it in more cases (`Strictness.isCareful_of_contains`,
`Strictness.isAggressive_of_contains`).  So a run that a strict decoder brings to its end is the run
of every laxer one, except for the notes: a checksum that does not match is reported only by a
decoder that computes it.  `Relaxes` compares two runs in this way, and has one rule for each way of
putting reads together.

Main definitions:

* `DolbyVision.Relaxes` — a read that accepts whatever another one accepts.

Main results:

* `DolbyVision.Stream.relaxes_readRpu` — **with fewer flags an RPU is read in the same way**;
* `DolbyVision.Stream.decode_of_stricter` — **what a strict decoder accepts, a laxer one accepts**,
  and both are left in the same state.
-/

import DolbyVision.Proofs.Stream.Received
import DolbyVision.Proofs.Stream.Standalone

set_option relaxedAutoImplicit false
set_option autoImplicit false

namespace DolbyVision

open Bits

/-! ### Sets of flags -/

namespace Strictness

variable {lax strict flags : Strictness}

/-- A flag that is set in a part of a set is set in the whole. -/
theorem contains_trans (h : strict.contains lax = true) (hlax : lax.contains flags = true) :
    strict.contains flags = true := by
  unfold contains at *
  rw [beq_iff_eq] at *
  calc strict.bits &&& flags.bits
      = (strict.bits &&& lax.bits) &&& flags.bits := by rw [UInt32.and_assoc, hlax]
    _ = flags.bits := by rw [h, hlax]

theorem intersects_of_contains (h : strict.contains lax = true)
    (hlax : lax.intersects flags = true) : strict.intersects flags = true := by
  unfold contains at h
  unfold intersects at *
  rw [beq_iff_eq] at h
  rw [bne_iff_ne] at *
  intro hnone
  apply hlax
  calc lax.bits &&& flags.bits
      = lax.bits &&& (strict.bits &&& flags.bits) := by
        rw [← UInt32.and_assoc, UInt32.and_comm lax.bits strict.bits, h]
    _ = 0 := by rw [hnone, UInt32.and_zero]

/-- More flags make a decoder more careful. -/
theorem isCareful_of_contains (h : strict.contains lax = true) (hlax : lax.isCareful = true) :
    strict.isCareful = true :=
  intersects_of_contains h hlax

/-- More flags make a decoder more aggressive, by either of the sets that do. -/
theorem isAggressive_of_contains (h : strict.contains lax = true)
    (hlax : lax.isAggressive = true) : strict.isAggressive = true := by
  unfold isAggressive at *
  rw [Bool.or_eq_true] at *
  rcases hlax with haggressive | hexplode
  · exact Or.inl (contains_trans h haggressive)
  · exact Or.inr (contains_trans h hexplode)

end Strictness

/-! ### Reads that accept more -/

section Relaxes

open ReadingState

variable {σ α β : Type} [ReadingState σ]

/-- The read `p` accepts whatever `q` accepts, gives the same value and leaves the same reader.  The
two may have reported different notes. -/
def Relaxes (p q : EStateM Fault σ α) : Prop :=
  ∀ s t a s', reader t = reader s → q s = .ok a s' →
    ∃ t', p t = .ok a t' ∧ reader t' = reader s'

variable {p q p' q' : EStateM Fault σ α} {f g : α → EStateM Fault σ β} {c d : Prop} [Decidable c]
  [Decidable d] {fault : Fault}

theorem Relaxes.pure (a : α) :
    Relaxes (Pure.pure a : EStateM Fault σ α) (Pure.pure a : EStateM Fault σ α) := by
  intro s t a' s' hreader hrun
  cases hrun
  exact ⟨t, rfl, hreader⟩

/-- A read that fails is relaxed by any other. -/
theorem Relaxes.throw : Relaxes p (MonadExcept.throw fault : EStateM Fault σ α) := by
  intro s t a s' _ hrun
  cases hrun

/-- Nothing follows a fault. -/
theorem Relaxes.stop {p : EStateM Fault σ β} :
    Relaxes p ((MonadExcept.throw fault : EStateM Fault σ α) >>= g) := by
  intro s t b s' _ hrun
  cases hrun

theorem Relaxes.bind (h₁ : Relaxes p q) (h₂ : ∀ a, Relaxes (f a) (g a)) :
    Relaxes (p >>= f) (q >>= g) := by
  intro s t b s' hreader hrun
  obtain ⟨a, s₁, hfirst, hrest⟩ := Run.ok_of_bind hrun
  obtain ⟨t₁, hfirst', hreader₁⟩ := h₁ s t a s₁ hreader hfirst
  obtain ⟨t', hrest', hreader'⟩ := h₂ a s₁ t₁ b s' hreader₁ hrest
  exact ⟨t', by rw [Run.bind_ok hfirst', hrest'], hreader'⟩

/-- Both reads go on in the same way. -/
theorem Relaxes.ite (h₁ : c → Relaxes p q) (h₂ : ¬ c → Relaxes p' q') :
    Relaxes (if c then p else p') (if c then q else q') := by
  by_cases hc : c
  · rw [if_pos hc, if_pos hc]
    exact h₁ hc
  · rw [if_neg hc, if_neg hc]
    exact h₂ hc

/-- A condition under which only the second read goes another way. -/
theorem Relaxes.right (h₁ : c → Relaxes p q) (h₂ : ¬ c → Relaxes p q') :
    Relaxes p (if c then q else q') := by
  by_cases hc : c
  · rw [if_pos hc]
    exact h₁ hc
  · rw [if_neg hc]
    exact h₂ hc

/-- A condition of the second read that holds whenever that of the first one does. -/
theorem Relaxes.stricter (hcd : c → d) (both : Relaxes p q) (more : Relaxes p' q)
    (neither : Relaxes p' q') : Relaxes (if c then p else p') (if d then q else q') := by
  by_cases hc : c
  · rw [if_pos hc, if_pos (hcd hc)]
    exact both
  · rw [if_neg hc]
    exact .right (fun _ => more) fun _ => neither

/-- A check that fails whenever that of the first read does. -/
theorem Relaxes.check {k l : Unit → EStateM Fault σ β} {fault' : Fault} (hcd : c → d)
    (h : Relaxes (k ()) (l ())) :
    Relaxes (if c then (MonadExcept.throw fault : EStateM Fault σ Unit) >>= k else k ())
      (if d then (MonadExcept.throw fault' : EStateM Fault σ Unit) >>= l else l ()) :=
  .stricter hcd .stop .stop h

/-- A first read that is chosen by a condition. -/
theorem Relaxes.bindIf (h₁ : Relaxes p q) (h₂ : Relaxes p' q') (h : ∀ a, Relaxes (f a) (g a)) :
    Relaxes (if c then p >>= f else p' >>= f) (if c then q >>= g else q' >>= g) :=
  .ite (fun _ => h₁.bind h) fun _ => h₂.bind h

theorem Relaxes.ofExcept (x : Except Fault α) :
    Relaxes (liftM x : EStateM Fault σ α) (liftM x : EStateM Fault σ α) := by
  cases x with
  | error fault => exact .throw
  | ok a => exact .pure a

end Relaxes

/-- A read that knows nothing of flags and reports nothing. -/
theorem Relaxes.refl {α : Type} (p : BitParser α) : Relaxes p p := by
  intro s t a s' hreader hrun
  obtain rfl : t = s := hreader
  exact ⟨s', hrun, rfl⟩

section Decoder

variable {α β : Type} {p q : BitParser α}

theorem Relaxes.lift (h : Relaxes p q) :
    Relaxes (liftM p : Decoder α) (liftM q : Decoder α) := by
  intro s t a s' hreader hrun
  cases hq : q s.reader with
  | error fault r =>
    rw [Decoder.lift_error hq] at hrun
    cases hrun
  | ok b r =>
    rw [Decoder.lift_ok hq] at hrun
    cases hrun
    obtain ⟨r', hp, hr⟩ := h s.reader t.reader a r hreader hq
    exact ⟨{ t with reader := r' }, Decoder.lift_ok hp, hr⟩

/-- The same read as a part of two decoders. -/
theorem Decoder.relaxes_lift (p : BitParser α) :
    Relaxes (liftM p : Decoder α) (liftM p : Decoder α) :=
  (Relaxes.refl p).lift

/-- Which notes are reported makes no difference. -/
theorem Decoder.relaxes_report (note note' : Note) :
    Relaxes (Decoder.report note) (Decoder.report note') := by
  intro s t a s' hreader hrun
  cases hrun
  exact ⟨_, rfl, hreader⟩

theorem Decoder.relaxes_bitsLeft : Relaxes Decoder.bitsLeft Decoder.bitsLeft := by
  intro s t a s' hreader hrun
  cases hrun
  refine ⟨t, ?_, hreader⟩
  have hleft : t.reader.bitsLeft = s.reader.bitsLeft := congrArg Reader.bitsLeft hreader
  rw [← hleft]
  rfl

end Decoder

/-! ### The parts of an RPU -/

variable {lax strict : Strictness}

/-- Reserved bits are refused only by a careful decoder. -/
theorem Header.relaxes_read (h : strict.contains lax = true) (rpuType : UInt8) :
    Relaxes (Header.read rpuType lax) (Header.read rpuType strict) := by
  refine (Relaxes.refl _).bind fun _ => (Relaxes.refl _).bind fun _ => ?_
  refine (Relaxes.refl _).bind fun _ => (Relaxes.refl _).bind fun _ => ?_
  refine .check id ?_
  refine (Relaxes.refl _).bind fun _ => (Relaxes.refl _).bind fun _ => ?_
  refine (Relaxes.refl _).bind fun _ => (Relaxes.refl _).bind fun _ => ?_
  refine (Relaxes.refl _).bind fun _ => ?_
  refine .check id ?_
  refine (Relaxes.refl _).bind fun _ => (Relaxes.refl _).bind fun _ => ?_
  refine (Relaxes.refl _).bind fun _ => ?_
  refine .check id ?_
  refine (Relaxes.refl _).bind fun _ => (Relaxes.refl _).bind fun reserved => .check ?_ ?_
  · rintro ⟨hset, hcareful⟩
    exact ⟨hset, Strictness.isCareful_of_contains h hcareful⟩
  · exact .refl _

namespace BlockGroup

variable {group : BlockGroup} {compressed : Bool} {kept : BlockSet}

/-- A static block in compressed data is refused by an aggressive decoder, and passed over by any
other. -/
theorem relaxes_passesOver (h : strict.contains lax = true) (level : UInt8) :
    Relaxes (passesOver compressed lax kept level) (passesOver compressed strict kept level) := by
  unfold passesOver
  refine .ite (fun _ => .ite (fun _ => ?_) fun _ => ?_) fun _ => ?_
  · exact (Decoder.relaxes_report _ _).bind fun _ =>
      .check (Strictness.isAggressive_of_contains h) (.pure true)
  all_goals
    exact .ite (fun _ => (Decoder.relaxes_report _ _).bind fun _ => .pure true)
      fun _ => .pure false

theorem relaxes_block (h : strict.contains lax = true) :
    Relaxes (readBlock group compressed lax kept) (readBlock group compressed strict kept) := by
  refine (Decoder.relaxes_lift _).bind fun length => (Decoder.relaxes_lift _).bind fun level => ?_
  refine (Relaxes.ofExcept _).bind fun size => ?_
  refine Decoder.relaxes_bitsLeft.bind fun left => ?_
  refine .check id ?_
  refine (relaxes_passesOver h level).bind fun passed => .ite (fun _ => ?_) fun _ => ?_
  · exact (Relaxes.ofExcept _).bind fun _ => (Decoder.relaxes_lift _).bind fun _ => .pure kept
  · refine (Decoder.relaxes_lift _).bind fun block => ?_
    cases block with
    | some block => exact .ofExcept _
    | none => exact (Decoder.relaxes_report _ _).bind fun _ => .pure kept

theorem relaxes_blocks (h : strict.contains lax = true) (n : Nat) :
    Relaxes (readBlocks group compressed lax n kept)
      (readBlocks group compressed strict n kept) := by
  induction n generalizing kept with
  | zero => exact .pure kept
  | succ n ih => exact (relaxes_block h).bind fun _ => ih

theorem relaxes_read (h : strict.contains lax = true) :
    Relaxes (read group compressed lax kept) (read group compressed strict kept) := by
  refine (Decoder.relaxes_lift _).bind fun count => (Decoder.relaxes_lift _).bind fun _ => ?_
  exact relaxes_blocks h count

end BlockGroup

/-! ### An RPU -/

namespace Stream

variable {s : Stream} {data : List UInt8}

/-- The rules of compression are checked only by a careful decoder. -/
theorem relaxes_checkProfile (h : strict.contains lax = true) (header : Header) (reuses : Bool) :
    Relaxes (s.checkProfile lax header reuses) (s.checkProfile strict header reuses) := by
  unfold checkProfile
  refine .ite (fun _ => (Decoder.relaxes_report _ _).bind fun _ => .stop) fun _ => ?_
  refine .stricter (Strictness.isCareful_of_contains h) ?_ ?_ (.pure ())
  · exact .check id (.ite (fun _ => .throw) fun _ => .pure ())
  · -- Where only one of them is careful, the other one checks nothing.
    exact .right (fun _ => .stop) fun _ => .right (fun _ => .throw) fun _ => .pure ()

/-- Notes have no part in how a mapping is read. -/
theorem relaxes_readMapping (header : Header) (reuses : Bool) :
    Relaxes (s.readMapping header reuses) (s.readMapping header reuses) := by
  refine (Decoder.relaxes_lift _).bind fun id => .ite (fun _ => ?_) fun _ => ?_
  · exact .ite (fun _ => (Decoder.relaxes_report _ _).bind fun _ => .stop) fun _ => .pure _
  · exact (Decoder.relaxes_lift _).bind fun _ => .pure _

theorem relaxes_readBlocks (h : strict.contains lax = true) (compressed : Bool)
    (kept : BlockSet) :
    Relaxes (readBlocks compressed lax kept) (readBlocks compressed strict kept) := by
  refine (BlockGroup.relaxes_read h).bind fun kept => ?_
  refine Decoder.relaxes_bitsLeft.bind fun _ => ?_
  exact .ite (fun _ => BlockGroup.relaxes_read h) fun _ => .pure kept

theorem relaxes_readColor (h : strict.contains lax = true) (compressed : Bool) :
    Relaxes (s.readColor compressed lax) (s.readColor compressed strict) := by
  refine (Decoder.relaxes_lift _).bind fun affected => ?_
  refine (Decoder.relaxes_lift _).bind fun current => ?_
  refine .check id ?_
  refine (Decoder.relaxes_lift _).bind fun color => ?_
  refine (relaxes_readBlocks h compressed _).bind fun blocks => ?_
  exact .pure _

theorem relaxes_readParts (h : strict.contains lax = true) (header : Header)
    (hasColor reuses compressed : Bool) :
    Relaxes (s.readParts lax header hasColor reuses compressed)
      (s.readParts strict header hasColor reuses compressed) := by
  refine (relaxes_checkProfile h header reuses).bind fun _ => ?_
  refine (relaxes_readMapping header reuses).bind fun d => ?_
  exact .bindIf (relaxes_readColor h compressed) (.pure _) fun _ => .pure _

/-- **With fewer flags an RPU is read in the same way.** -/
theorem relaxes_readRpu (h : strict.contains lax = true) (s : Stream) :
    Relaxes (s.readRpu lax) (s.readRpu strict) := by
  refine (Decoder.relaxes_lift _).bind fun rpuType => .ite (fun _ => ?_) fun _ => ?_
  · rw [readBody_eq, readBody_eq]
    refine (Header.relaxes_read h rpuType).lift.bind fun header => ?_
    refine (Decoder.relaxes_lift _).bind fun hasColor => ?_
    refine (Decoder.relaxes_lift _).bind fun reuses => ?_
    exact .bindIf (Decoder.relaxes_lift _) (.pure false) fun compressed =>
      relaxes_readParts h header hasColor reuses compressed
  · exact (Decoder.relaxes_report _ _).bind fun _ => .pure s

/-! ### Decoding -/

/-- A tail that a strict decoder accepts is accepted with fewer flags.  What is reported of it may
differ. -/
theorem verify_of_stricter {rpu : List UInt8} {notes : List Note}
    (h : strict.contains lax = true) (hok : Tail.verify rpu strict = (.ok (), notes)) :
    ∃ notes', Tail.verify rpu lax = (.ok (), notes') := by
  unfold Tail.verify at hok ⊢
  split at hok
  · cases hok
  · case h_2 body stated hsplit =>
    dsimp only at hok ⊢
    by_cases hcomputed : (!lax.contains .checksum || Crc32.checksum body == stated) = true
    · rw [if_pos hcomputed]
      exact ⟨_, rfl⟩
    · rw [if_neg hcomputed]
      -- A mismatch that the laxer decoder finds is found by the other one, which goes on.
      rw [Bool.or_eq_true, not_or, Bool.not_eq_true', Bool.not_eq_false] at hcomputed
      have hfound : ¬ (!strict.contains .checksum || Crc32.checksum body == stated) = true := by
        rw [Strictness.contains_trans h hcomputed.1]
        simpa using hcomputed.2
      rw [if_neg hfound] at hok
      have hgoes : ¬ strict.contains .explode = true := by
        intro hexplode
        rw [if_pos hexplode] at hok
        cases hok
      have hlax : ¬ lax.contains .explode = true :=
        fun hexplode => hgoes (Strictness.contains_trans h hexplode)
      rw [if_neg hlax]
      exact ⟨_, rfl⟩

/-- **What a strict decoder accepts, a laxer one accepts**, and both are left in the same state:
more flags turn acceptance into a fault and never change what is decoded. -/
theorem decode_of_stricter (h : strict.contains lax = true)
    (hok : (s.decode data strict).result = .ok ()) :
    (s.decode data lax).result = .ok () ∧
      (s.decode data lax).state = (s.decode data strict).state := by
  unfold decode at hok ⊢
  cases hpayload : s.payload data with
  | error fault =>
    rw [hpayload] at hok
    cases hok
  | ok rpu =>
    rw [hpayload] at hok
    dsimp only at hok ⊢
    rcases hstrict : Tail.verify rpu strict with ⟨fault | ⟨⟨⟩⟩, notes⟩
    · rw [hstrict] at hok
      cases hok
    · rw [hstrict] at hok
      obtain ⟨notes', hlax⟩ := verify_of_stricter h hstrict
      rw [hlax]
      dsimp only at hok ⊢
      cases hread : s.readRpu strict ⟨Reader.ofBytes rpu, notes.toArray⟩ with
      | error fault state =>
        rw [hread] at hok
        cases hok
      | ok s' state =>
        -- Both runs start in front of the same bits, with the notes of their own checks.
        obtain ⟨state', hread', -⟩ := relaxes_readRpu h s ⟨Reader.ofBytes rpu, notes.toArray⟩
          ⟨Reader.ofBytes rpu, notes'.toArray⟩ s' state rfl hread
        rw [hread']
        exact ⟨rfl, rfl⟩

/-- The payload of an RPU whose checksum is not the one that it states. -/
def damagedPayload : List UInt8 :=
  identityPayload.dropLast.dropLast ++ [168, 128]

/-- The flags of a decoder that is careful and computes checksums, without giving up on them. -/
def watchful : Strictness := Strictness.careful.union .checksum

/-- A decoder that only reports a wrong checksum decodes what one does that never computes it.  One
that gives up on it refuses the RPU. -/
theorem decode_of_stricter_damaged :
    watchful.contains .none = true ∧
      (LabelledStream.grading.stream.decode damagedPayload watchful).result = .ok () ∧
      (LabelledStream.grading.stream.decode damagedPayload .none).result = .ok () ∧
      (LabelledStream.grading.stream.decode damagedPayload .none).state =
        (LabelledStream.grading.stream.decode damagedPayload watchful).state ∧
      (LabelledStream.grading.stream.decode damagedPayload (watchful.union .explode)).result =
        .error (.malformed .checksumMismatch) := by
  have hok : (LabelledStream.grading.stream.decode damagedPayload watchful).result = .ok () := by
    decide +kernel
  have hcontains : watchful.contains .none = true := by decide
  obtain ⟨haccepts, hstate⟩ := decode_of_stricter hcontains hok
  exact ⟨hcontains, hok, haccepts, hstate, by decide +kernel⟩

end Stream

end DolbyVision
