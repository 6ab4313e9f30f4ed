/-
**What a reader has not read yet.**

`Reader.unread` is the list of the bits that a reader has not taken: those in its cache, then those
of the bytes that it has not loaded.  A reader is *loaded* if its cache holds nothing below those
bits; it is *sound* if, besides, it has taken a bit of its cache, which is so between any two reads.
From a sound reader each read takes exactly the first unread bits, however often it has to fetch.

Main definitions:

* `DolbyVision.Bits.Reader.Loaded`, `DolbyVision.Bits.Reader.Sound` — the invariant of a reader,
  inside a read and between two reads.

Main results:

* `DolbyVision.Bits.Reader.bits_eq`, `bits32_eq`, `flag_eq` — **a read of a fixed width takes the
  next bits**;
* `DolbyVision.Bits.Reader.skip_eq`, `realign_eq` — moves drop bits;
* `DolbyVision.Bits.Reader.unary_eq` — a unary number ends with the next set bit.
-/

import DolbyVision.Bits.Reader
import DolbyVision.Proofs.Bits.Spelling
import DolbyVision.Proofs.Steps
import Mathlib.Data.Nat.Bitwise

set_option relaxedAutoImplicit false
set_option autoImplicit false

namespace DolbyVision.Bits.Reader

/-! ### The invariant -/

/-- The cache holds `left` bits at its top and nothing below them. -/
structure Loaded (r : Reader) : Prop where
  left_le : r.left ≤ 64
  dvd_cache : 2 ^ (64 - r.left) ∣ r.cache.toNat

/-- The invariant between two reads: a cache that was fetched has been used. -/
structure Sound (r : Reader) : Prop extends r.Loaded where
  left_lt : r.left < 64

/-- A reader at the start of a byte string is sound, and has all bits before it. -/
theorem sound_ofBytes (bytes : List UInt8) : (ofBytes bytes).Sound where
  left_le := by simp [ofBytes]
  dvd_cache := by simp [ofBytes]
  left_lt := by simp [ofBytes]

@[simp] theorem unread_ofBytes (bytes : List UInt8) :
    (ofBytes bytes).unread = Bits.ofBytes bytes := by
  simp [unread, ofBytes]

variable {r : Reader}

/-- The number that the loaded bits spell. -/
def loadedValue (r : Reader) : Nat :=
  r.cache.toNat / 2 ^ (64 - r.left)

theorem Loaded.cache_eq (h : r.Loaded) : r.cache.toNat = r.loadedValue * 2 ^ (64 - r.left) :=
  (Nat.div_mul_cancel h.dvd_cache).symm

theorem Loaded.loadedValue_lt (h : r.Loaded) : r.loadedValue < 2 ^ r.left := by
  rw [loadedValue, Nat.div_lt_iff_lt_mul (Nat.two_pow_pos _), ← pow_add,
    Nat.add_sub_cancel' h.left_le]
  exact r.cache.toNat_lt

theorem Loaded.unread_eq (h : r.Loaded) :
    r.unread = toBits r.left r.loadedValue ++ Bits.ofBytes r.rest := by
  rw [unread, take_toBits h.left_le, loadedValue]

theorem Loaded.length_unread (h : r.Loaded) : r.unread.length = r.left + 8 * r.rest.length := by
  rw [h.unread_eq, List.length_append, length_toBits, length_ofBytes]

theorem Loaded.bitsLeft_eq (h : r.Loaded) : r.bitsLeft = r.unread.length := by
  rw [h.length_unread, bitsLeft, r.restLength_eq, Nat.add_comm]

/-- The first bits of the cache are the upper part of the word. -/
theorem Loaded.ofBits_take (h : r.Loaded) {n : Nat} (hn : n ≤ r.left) :
    ofBits (r.unread.take n) = r.cache.toNat / 2 ^ (64 - n) := by
  have hle := h.left_le
  have hlen : n ≤ (toBits r.left r.loadedValue).length := by rwa [length_toBits]
  have hlt : r.loadedValue / 2 ^ (r.left - n) < 2 ^ n := by
    rw [Nat.div_lt_iff_lt_mul (Nat.two_pow_pos _), ← pow_add, Nat.add_sub_cancel' hn]
    exact h.loadedValue_lt
  -- The first bits are the upper part of the loaded ones, which are the upper part of the word.
  have hsplit : 64 - n = (64 - r.left) + (r.left - n) := by omega
  rw [h.unread_eq, List.take_append_of_le_length hlen, take_toBits hn, ofBits_toBits_of_lt hlt,
    loadedValue, Nat.div_div_eq_div_mul, ← pow_add, hsplit]

/-! ### Taking bits off the cache -/

theorem toNat_amount {n : Nat} (h : n < 64) : (UInt64.ofNat n).toNat % 64 = n := by
  rw [UInt64.toNat_ofNat']
  omega

/-- The reader after `n` bits of the cache have been taken. -/
def consumed (r : Reader) (n : Nat) : Reader :=
  { r with cache := r.cache <<< UInt64.ofNat n, left := r.left - n }

theorem consume_eq {n : Nat} (hn : n ≤ r.left) (h64 : n < 64) :
    consume n r = .ok () (r.consumed n) := by
  rw [consume, if_neg (by omega), if_pos h64, consumed]

@[simp] theorem left_consumed (n : Nat) : (r.consumed n).left = r.left - n := rfl

@[simp] theorem rest_consumed (n : Nat) : (r.consumed n).rest = r.rest := rfl

/-- Shifting the cache keeps the loaded bits but the first `n` and moves them to the top. -/
theorem Loaded.cache_consumed (h : r.Loaded) {n : Nat} (hn : n ≤ r.left) (h64 : n < 64) :
    (r.consumed n).cache.toNat =
      r.loadedValue % 2 ^ (r.left - n) * 2 ^ (64 - (r.left - n)) := by
  have hle := h.left_le
  have hpow : 2 ^ 64 = 2 ^ (r.left - n) * 2 ^ (64 - (r.left - n)) := by
    rw [← pow_add, Nat.add_sub_cancel' (by omega)]
  have hmove : 64 - (r.left - n) = 64 - r.left + n := by omega
  have hcache : (r.consumed n).cache = r.cache <<< UInt64.ofNat n := rfl
  rw [hcache, UInt64.toNat_shiftLeft, toNat_amount h64, Nat.shiftLeft_eq, h.cache_eq,
    Nat.mul_assoc, ← pow_add, ← hmove, hpow, Nat.mul_mod_mul_right]

theorem Loaded.consumed (h : r.Loaded) {n : Nat} (hn : n ≤ r.left) (h64 : n < 64) :
    (r.consumed n).Loaded where
  left_le := le_trans (Nat.sub_le ..) h.left_le
  dvd_cache := by
    rw [h.cache_consumed hn h64, left_consumed]
    exact Nat.dvd_mul_left ..

theorem Loaded.sound_consumed (h : r.Loaded) {n : Nat} (hn : n ≤ r.left) (h64 : n < 64)
    (hpos : r.left < 64 ∨ 0 < n) : (r.consumed n).Sound where
  toLoaded := h.consumed hn h64
  left_lt := by rw [left_consumed]; have := h.left_le; omega

/-- Taking bits drops them from the unread ones. -/
theorem Loaded.unread_consumed (h : r.Loaded) {n : Nat} (hn : n ≤ r.left) (h64 : n < 64) :
    (r.consumed n).unread = r.unread.drop n := by
  have hlen : n ≤ (toBits r.left r.loadedValue).length := by rwa [length_toBits]
  rw [(h.consumed hn h64).unread_eq, h.unread_eq, List.drop_append_of_le_length hlen,
    drop_toBits hn, rest_consumed, left_consumed, loadedValue, h.cache_consumed hn h64,
    left_consumed, Nat.mul_div_cancel _ (Nat.two_pow_pos _), toBits_mod]

/-! ### Loading bytes -/

/-- The loaded word holds the bytes at its top, and zeros in place of missing ones. -/
theorem toNat_load (n : Nat) (bytes : List UInt8) (hn : n ≤ 8) :
    (load n bytes).toNat =
      ofBits (Bits.ofBytes (bytes.take n)) * 2 ^ (8 * (n - min n bytes.length)) := by
  induction n generalizing bytes with
  | zero => simp [load]
  | succ n ih =>
    cases bytes with
    | nil => simp [load]
    | cons b bytes =>
      have hb := b.toNat_lt
      have hsum : 8 * min n bytes.length + 8 * (n - min n bytes.length) = 8 * n := by omega
      -- What the other bytes spell lies below the first byte, so that or-ing the two adds them.
      have hlow : (load n bytes).toNat < 2 ^ (8 * n) := by
        have hlt := ofBits_lt (Bits.ofBytes (bytes.take n))
        rw [length_ofBytes, List.length_take] at hlt
        rw [ih bytes (by omega), ← hsum, pow_add]
        exact Nat.mul_lt_mul_of_pos_right hlt (Nat.two_pow_pos _)
      have hshift : b.toNat * 2 ^ (8 * n) < 2 ^ 64 := by
        have hpow : 2 ^ (8 + 8 * n) ≤ 2 ^ 64 := Nat.pow_le_pow_right (by decide) (by omega)
        rw [pow_add] at hpow
        exact lt_of_lt_of_le (Nat.mul_lt_mul_of_pos_right hb (Nat.two_pow_pos _)) hpow
      rw [load, UInt64.toNat_or, UInt64.toNat_shiftLeft, UInt8.toNat_toUInt64,
        toNat_amount (by omega), Nat.shiftLeft_eq, Nat.mod_eq_of_lt hshift, ← Nat.shiftLeft_eq,
        ← Nat.shiftLeft_add_eq_or_of_lt hlow, Nat.shiftLeft_eq, ih bytes (by omega),
        List.take_succ_cons, ofBytes_cons, ofBits_append, ofBits_toBits_of_lt hb, length_ofBytes,
        List.length_take, List.length_cons, Nat.add_min_add_right, Nat.add_sub_add_right, ← hsum,
        pow_add]
      ring

@[simp] theorem rest_fetched : r.fetched.rest = r.rest.drop 8 := rfl

theorem left_fetched : r.fetched.left = 8 * min 8 r.rest.length := by
  rw [← r.restLength_eq]; rfl

/-- After a fetch the cache spells the next eight bytes, or those that are left. -/
theorem cache_fetched : r.fetched.cache.toNat =
    ofBits (Bits.ofBytes (r.rest.take 8)) * 2 ^ (64 - r.fetched.left) := by
  have hcache : r.fetched.cache = load 8 r.rest := rfl
  have hpow : 8 * (8 - min 8 r.rest.length) = 64 - 8 * min 8 r.rest.length := by omega
  rw [hcache, toNat_load 8 _ le_rfl, left_fetched, hpow]

theorem loaded_fetched : r.fetched.Loaded where
  left_le := by rw [left_fetched]; omega
  dvd_cache := by rw [cache_fetched]; exact Nat.dvd_mul_left ..

/-- A fetch drops what was left in the cache and nothing else. -/
theorem unread_fetched : r.fetched.unread = Bits.ofBytes r.rest := by
  -- The cache spells eight bytes and the others are left, so nothing of the rest is lost.
  have hvalue : r.fetched.loadedValue = ofBits (Bits.ofBytes (r.rest.take 8)) := by
    rw [loadedValue, cache_fetched, Nat.mul_div_cancel _ (Nat.two_pow_pos _)]
  have hlen : r.fetched.left = (Bits.ofBytes (r.rest.take 8)).length := by
    rw [left_fetched, length_ofBytes, List.length_take]
  rw [loaded_fetched.unread_eq, hvalue, hlen, toBits_ofBits, rest_fetched, ← ofBytes_append,
    List.take_append_drop]

theorem Loaded.unread_fetched (h : r.Loaded) : r.fetched.unread = r.unread.drop r.left := by
  rw [Reader.unread_fetched, h.unread_eq, List.drop_left' (length_toBits ..)]

/-! ### Reads of a fixed width -/

theorem rest_ne_nil_of_left_lt (h : r.Loaded) {n : Nat} (hn : n ≤ r.unread.length)
    (hleft : r.left < n) : r.rest ≠ [] := by
  intro hnil
  rw [h.length_unread, hnil, List.length_nil] at hn
  omega

/-- The bits that are wanted beyond the cache are in the next eight bytes. -/
theorem le_left_fetched (h : r.Loaded) {width : Nat} (h64 : width ≤ 64)
    (hlen : width ≤ r.unread.length) : width - r.left ≤ r.fetched.left := by
  rw [h.length_unread] at hlen
  rw [left_fetched]
  omega

/-- The upper bits of a word can be moved down, if some of them are left. -/
theorem amountAbove_eq {n : Nat} (hpos : 0 < n) (h64 : n ≤ 64) :
    amountAbove n = .ok (64 - n) := by
  unfold amountAbove
  rw [Checked.sub_of_le h64]
  exact Checked.shiftAmount_of_lt (by omega)

theorem amountAbove_eq_ok {n amount : Nat} (h : amountAbove n = .ok amount) :
    0 < n ∧ n ≤ 64 ∧ amount = 64 - n := by
  obtain ⟨rest, hrest, hamount⟩ := Checked.ok_of_bind h
  obtain ⟨h64, rfl⟩ := Checked.sub_eq_ok hrest
  obtain ⟨hlt, rfl⟩ := Checked.shiftAmount_eq_ok hamount
  exact ⟨by omega, h64, rfl⟩

theorem gather_eq_of_le {width : Nat} (value : UInt64) (hle : width ≤ r.left) :
    gather width value r = .ok (width, value) r := by
  rw [gather, if_pos hle]

theorem gather_eq_of_lt (h : r.Loaded) {width : Nat} (value : UInt64) (h64 : width ≤ 64)
    (hlen : width ≤ r.unread.length) (hlt : r.left < width) :
    gather width value r =
      .ok (width - r.left,
        value ||| r.fetched.cache >>> UInt64.ofNat (64 - (width - r.left))) r.fetched := by
  have hamount : amountAbove (width - r.left) = .ok (64 - (width - r.left)) :=
    amountAbove_eq (by omega) (by omega)
  rw [gather, if_neg (by omega), Checked.sub_of_le hlt.le]
  dsimp only
  rw [dif_neg (rest_ne_nil_of_left_lt h hlen hlt), hamount]
  exact gather_eq_of_le _ (le_left_fetched h h64 hlen)

/-- The upper bits of a word, shifted down to a field of a given width. -/
theorem toNat_shiftRight_sub (word : UInt64) {n : Nat} (hpos : 0 < n) :
    (word >>> UInt64.ofNat (64 - n)).toNat = word.toNat / 2 ^ (64 - n) := by
  rw [UInt64.toNat_shiftRight, toNat_amount (by omega), Nat.shiftRight_eq_div_pow]

/-- The same shift in two steps, for fields of up to half a word. -/
theorem toNat_shiftRight_twice (word : UInt64) {n : Nat} (h32 : n ≤ 32) :
    (word >>> 32 >>> UInt64.ofNat (32 - n)).toNat = word.toNat / 2 ^ (64 - n) := by
  have hhalf : (32 : UInt64).toNat % 64 = 32 := rfl
  have hsum : 32 + (32 - n) = 64 - n := by omega
  rw [UInt64.toNat_shiftRight, toNat_amount (by omega), UInt64.toNat_shiftRight, hhalf,
    ← Nat.shiftRight_add, hsum, Nat.shiftRight_eq_div_pow]

/-- Two consumptions that are smaller than a word do the work of one that may be a whole word. -/
theorem consumeTwice_eq (h : r.Loaded) {n : Nat} (hpos : 0 < n) (hn : n ≤ r.left) :
    ∃ r', consumeTwice n r = .ok () r' ∧ r'.Sound ∧ r'.unread = r.unread.drop n := by
  have hle := h.left_le
  have hfirst := h.consumed (n := n - 1) (by omega) (by omega)
  have hone : 1 ≤ (r.consumed (n - 1)).left := by rw [left_consumed]; omega
  refine ⟨(r.consumed (n - 1)).consumed 1, ?_, ?_, ?_⟩
  · unfold consumeTwice
    rw [Run.bind_ok (Run.lift_ok (Checked.sub_of_le hpos)),
      Run.bind_ok (consume_eq (by omega) (by omega))]
    exact consume_eq hone (by decide)
  · exact hfirst.sound_consumed hone (by decide) (Or.inr (by decide))
  · rw [hfirst.unread_consumed hone (by decide), h.unread_consumed (by omega) (by omega),
      List.drop_drop, Nat.sub_add_cancel hpos]

/-- What is still wanted when a cache is used up stands at the bottom of the field. -/
theorem or_shiftRight_eq (h : r.Loaded) {width : Nat} (h64 : width ≤ 64)
    (hlen : width ≤ r.unread.length) (hlt : r.left < width) {top : UInt64}
    (htop : top.toNat = r.cache.toNat / 2 ^ (64 - width)) :
    (top ||| r.fetched.cache >>> UInt64.ofNat (64 - (width - r.left))).toNat =
      ofBits (r.unread.take width) := by
  have hle := le_left_fetched h h64 hlen
  -- The field is the loaded bits, and below them the first bits of the next cache.
  have hsplit : r.unread.take width = toBits r.left r.loadedValue ++
      r.fetched.unread.take (width - r.left) := by
    rw [unread_fetched, h.unread_eq, List.take_append, length_toBits,
      List.take_of_length_le (by rw [length_toBits]; omega)]
  have hlow : (r.fetched.cache >>> UInt64.ofNat (64 - (width - r.left))).toNat =
      ofBits (r.fetched.unread.take (width - r.left)) := by
    rw [toNat_shiftRight_sub _ (by omega), loaded_fetched.ofBits_take hle]
  have hlen' : (r.fetched.unread.take (width - r.left)).length = width - r.left := by
    rw [List.length_take, loaded_fetched.length_unread]
    omega
  have hhigh : top.toNat = r.loadedValue <<< (width - r.left) := by
    have hpow : 64 - r.left = (width - r.left) + (64 - width) := by omega
    rw [htop, h.cache_eq, hpow, pow_add, ← Nat.mul_assoc, Nat.mul_div_cancel _ (Nat.two_pow_pos _),
      Nat.shiftLeft_eq]
  have hbound : ofBits (r.fetched.unread.take (width - r.left)) < 2 ^ (width - r.left) := by
    have := ofBits_lt (r.fetched.unread.take (width - r.left))
    rwa [hlen'] at this
  rw [UInt64.toNat_or, hhigh, hlow, ← Nat.shiftLeft_add_eq_or_of_lt hbound, hsplit, ofBits_append,
    hlen', ofBits_toBits_of_lt h.loadedValue_lt, Nat.shiftLeft_eq]

/-- **Gathering finds the whole field.**  Started with the part of the field that is in the cache,
it ends with the last bits of the field on top of the cache, and with the number that all of them
spell.  If nothing of that cache is wanted, the cache has been used. -/
theorem gather_eq (h : r.Sound) {width : Nat} (h64 : width ≤ 64) (hlen : width ≤ r.unread.length)
    {top : UInt64} (htop : top.toNat = r.cache.toNat / 2 ^ (64 - width)) :
    ∃ wanted value r₁, gather width top r = .ok (wanted, value) r₁ ∧
      value.toNat = ofBits (r.unread.take width) ∧ r₁.Loaded ∧ wanted ≤ r₁.left ∧
      wanted ≤ width ∧ (0 < width → 0 < wanted) ∧ (r₁.left < 64 ∨ 0 < wanted) ∧
      r₁.unread.drop wanted = r.unread.drop width := by
  -- A field is in the cache, or it uses the cache up and goes on in the next one.
  by_cases hle : width ≤ r.left
  · refine ⟨width, top, r, gather_eq_of_le _ hle, ?_, h.toLoaded, hle, le_rfl, id,
      Or.inl h.left_lt, rfl⟩
    rw [htop, h.ofBits_take hle]
  · have hlt : r.left < width := by omega
    refine ⟨_, _, _, gather_eq_of_lt h.toLoaded _ h64 hlen hlt,
      or_shiftRight_eq h.toLoaded h64 hlen hlt htop, loaded_fetched,
      le_left_fetched h.toLoaded h64 hlen, Nat.sub_le .., fun _ => Nat.sub_pos_of_lt hlt,
      Or.inr (Nat.sub_pos_of_lt hlt), ?_⟩
    rw [h.unread_fetched, List.drop_drop, Nat.add_sub_cancel' hlt.le]

/-- **A read of a fixed width takes the next bits** and gives the number that they spell. -/
theorem bits_eq (h : r.Sound) {width : Nat} (h64 : width ≤ 64) (hlen : width ≤ r.unread.length) :
    ∃ r', bits width r = .ok (ofBits (r.unread.take width)) r' ∧
      r'.Sound ∧ r'.unread = r.unread.drop width := by
  unfold bits
  by_cases hzero : width = 0
  · subst hzero
    exact ⟨r, rfl, h, rfl⟩
  have hpos : 0 < width := Nat.pos_of_ne_zero hzero
  obtain ⟨wanted, value, r₁, hgather, hvalue, hloaded, hle, -, hwanted, -, hunread⟩ :=
    gather_eq h h64 hlen (toNat_shiftRight_sub _ hpos)
  obtain ⟨r₂, hrun, hsound, hrest⟩ := consumeTwice_eq hloaded (hwanted hpos) hle
  refine ⟨r₂, ?_, hsound, hrest.trans hunread⟩
  rw [if_neg hzero, Run.bind_ok (Run.lift_ok (amountAbove_eq hpos h64)), Run.bind_ok Run.get_ok,
    Run.bind_ok hgather]
  dsimp only
  rw [Run.bind_ok hrun, hvalue]
  rfl

/-- **A read of up to 32 bits takes the next bits**, too. -/
theorem bits32_eq (h : r.Sound) {width : Nat} (h32 : width ≤ 32)
    (hlen : width ≤ r.unread.length) :
    ∃ r', bits32 width r = .ok (ofBits (r.unread.take width)) r' ∧
      r'.Sound ∧ r'.unread = r.unread.drop width := by
  have hlt := ofBits_lt (r.unread.take width)
  rw [List.length_take, Nat.min_eq_left hlen] at hlt
  have hword : ofBits (r.unread.take width) < 2 ^ 32 :=
    lt_of_lt_of_le hlt (Nat.pow_le_pow_right (by decide) h32)
  obtain ⟨wanted, value, r₁, hgather, hvalue, hloaded, hle, hwidth, -, hused, hunread⟩ :=
    gather_eq h (h32.trans (by decide)) hlen (toNat_shiftRight_twice _ h32)
  have h64 : wanted < 64 := by omega
  have hamount : Checked.shiftAmount 64 (32 - width) = .ok (32 - width) :=
    Checked.shiftAmount_of_lt (by omega)
  refine ⟨r₁.consumed wanted, ?_, hloaded.sound_consumed hle h64 hused,
    (hloaded.unread_consumed hle h64).trans hunread⟩
  unfold bits32
  rw [Run.bind_ok (Run.lift_ok (Checked.sub_of_le h32)), Run.bind_ok (Run.lift_ok hamount),
    Run.bind_ok Run.get_ok, Run.bind_ok hgather]
  dsimp only
  rw [Run.bind_ok (consume_eq hle h64), UInt64.toNat_toUInt32, hvalue, Nat.mod_eq_of_lt hword]
  rfl

/-- The top bit of a word. -/
theorem top_ne_zero (word : UInt64) :
    (word &&& 0x8000000000000000 != 0) = word.toNat.testBit 63 := by
  have hmask : (0x8000000000000000 : UInt64).toNat = 2 ^ 63 := rfl
  rw [Bool.eq_iff_iff, bne_iff_ne, ne_eq, ← UInt64.toNat_inj, UInt64.toNat_and, hmask,
    Nat.and_two_pow]
  cases word.toNat.testBit 63 <;> simp

/-- The top bit of a cache that is not empty is the next bit. -/
theorem take_top (h : r.Loaded) (hpos : 0 < r.left) {b : Bool} {tail : List Bool}
    (hunread : r.unread = b :: tail) :
    ∃ r', (do
      let top := (← get).cache &&& 0x8000000000000000
      consume 1
      return top != 0 : BitParser Bool) r = .ok b r' ∧ r'.Sound ∧ r'.unread = tail := by
  have hbit : r.cache.toNat.testBit 63 = b := by
    have hvalue := h.ofBits_take (n := 1) hpos
    rw [hunread, List.take_succ_cons, List.take_zero] at hvalue
    rw [Nat.testBit_eq_decide_div_mod_eq, ← hvalue]
    cases b <;> rfl
  refine ⟨r.consumed 1, ?_, h.sound_consumed hpos (by decide) (Or.inr (by decide)), ?_⟩
  · rw [Run.bind_ok Run.get_ok, Run.bind_ok (consume_eq hpos (by decide)), top_ne_zero, hbit]
    rfl
  · rw [h.unread_consumed hpos (by decide), hunread]
    rfl

theorem fetch_eq (hne : r.rest ≠ []) : fetch r = .ok () r.fetched := if_neg hne

/-- **A read of one bit takes the next one.** -/
theorem flag_eq (h : r.Sound) {b : Bool} {tail : List Bool} (hunread : r.unread = b :: tail) :
    ∃ r', flag r = .ok b r' ∧ r'.Sound ∧ r'.unread = tail := by
  have hlen : 1 ≤ r.unread.length := by simp [hunread]
  unfold flag
  rw [Run.bind_ok Run.get_ok]
  by_cases hempty : r.left < 1
  · have hleft : r.left = 0 := by omega
    have hfetched : r.fetched.unread = b :: tail := by
      rw [h.unread_fetched, hleft, List.drop_zero, hunread]
    have hpos := le_left_fetched h.toLoaded (by decide) hlen
    rw [if_pos hempty, Run.bind_ok (fetch_eq (rest_ne_nil_of_left_lt h.toLoaded hlen hempty))]
    exact take_top loaded_fetched (by omega) hfetched
  · rw [if_neg hempty]
    exact take_top h.toLoaded (by omega) hunread

/-! ### Moves -/

/-- Caches are dropped until the last of the unwanted bits is loaded. -/
theorem seek_eq (h : r.Loaded) {n : Nat} (hpos : 0 < n) (hlen : n ≤ r.unread.length) :
    ∃ last r', seek n r = .ok last r' ∧ r'.Loaded ∧ 0 < last ∧ last ≤ r'.left ∧
      r'.unread.drop last = r.unread.drop n := by
  fun_induction seek n r with
  | case1 n r hle => exact ⟨n, r, rfl, h, hpos, hle, rfl⟩
  | case2 n r hle fault hsub =>
    rw [Checked.sub_of_le (by omega)] at hsub
    cases hsub
  | case3 n r hle rest hsub hnil => exact absurd hnil (rest_ne_nil_of_left_lt h hlen (by omega))
  | case4 n r hle rest hsub hne hlt ih =>
    have hdrop := h.unread_fetched
    obtain rfl : n - r.left = rest := Except.ok.inj ((Checked.sub_of_le (by omega)).symm.trans hsub)
    have hlen' : n - r.left ≤ r.fetched.unread.length := by
      rw [hdrop, List.length_drop]
      omega
    obtain ⟨last, r', hrun, hloaded, hlast, hle', hunread⟩ :=
      ih loaded_fetched (by omega) hlen'
    refine ⟨last, r', hrun, hloaded, hlast, hle', ?_⟩
    rw [hunread, hdrop, List.drop_drop, Nat.add_sub_cancel' (by omega)]

/-- **Skipping drops the next bits.** -/
theorem skip_eq (h : r.Sound) {n : Nat} (hlen : n ≤ r.unread.length) :
    ∃ r', skip n r = .ok () r' ∧ r'.Sound ∧ r'.unread = r.unread.drop n := by
  have h64 := h.left_lt
  unfold skip
  rw [Run.bind_ok Run.get_ok]
  by_cases hle : n ≤ r.left
  · rw [if_pos hle]
    exact ⟨r.consumed n, consume_eq hle (by omega), h.sound_consumed hle (by omega) (Or.inl h64),
      h.unread_consumed hle (by omega)⟩
  · obtain ⟨last, r', hrun, hloaded, hpos, hlast, hunread⟩ :=
      seek_eq h.toLoaded (by omega) hlen
    obtain ⟨r₂, hrun₂, hsound, hunread₂⟩ := consumeTwice_eq hloaded hpos hlast
    rw [if_neg hle, Run.bind_ok hrun, if_pos hpos]
    exact ⟨r₂, hrun₂, hsound, hunread₂.trans hunread⟩

/-- **Moving to a boundary** drops the bits in front of it. -/
theorem realign_eq (h : r.Sound) :
    ∃ r', realign r = .ok () r' ∧ r'.Sound ∧ r'.unread = r.unread.drop (r.unread.length % 8) := by
  have h64 := h.left_lt
  have hmod : r.left % 8 = r.unread.length % 8 := by rw [h.length_unread]; omega
  have hle : r.left % 8 ≤ r.left := Nat.mod_le ..
  unfold realign
  rw [Run.bind_ok Run.get_ok, ← hmod]
  exact ⟨r.consumed (r.left % 8), consume_eq hle (by omega),
    h.sound_consumed hle (by omega) (Or.inl h64), h.unread_consumed hle (by omega)⟩

/-! ### Signed fields -/

section Signed

variable {w width value : Nat}

/-- A field extends to every word that is wide enough. -/
theorem exists_extended (hle : width ≤ w) (value : Nat) : ∃ n, extended w width value = .ok n := by
  rw [extended, signExtend_of_le _ hle]
  exact ⟨_, rfl⟩

/-- If it has bits, it extends to the integer that they stand for. -/
theorem extended_eq (hpos : 0 < width) (hle : width ≤ w) (hvalue : value < 2 ^ width) :
    extended w width value = .ok (Int.bmod (value : Int) (2 ^ width)) :=
  toInt_signExtend_ofNat hpos hle hvalue

end Signed

/-! ### Codes -/

/-- What a code stands for fits in a word of 32 bits, if it has at most 31 zeros. -/
theorem codeValue_eq {zeros suffix : Nat} (hzeros : zeros ≤ 31) (hsuffix : suffix < 2 ^ zeros) :
    codeValue zeros suffix = .ok (2 ^ zeros - 1 + suffix) := by
  have hpos := Nat.two_pow_pos zeros
  have hpow : 2 ^ zeros ≤ 2 ^ 31 := Nat.pow_le_pow_right (by decide) hzeros
  unfold codeValue
  rw [Checked.bit_of_lt (by omega), Nat.one_shiftLeft]
  change Checked.sub (2 ^ zeros) 1 >>= (Checked.add 32 · suffix) = _
  rw [Checked.sub_of_le hpos]
  exact Checked.within_of_lt (by rw [Nat.one_shiftLeft]; omega)

/-! ### Runs of zeros -/

section Zeros

variable {z : Nat} {tail : List Bool}

/-- The first set bit of the cache is where its leading zeros end. -/
theorem leadingZeros_eq (h : r.Loaded) (hunread : r.unread = List.replicate z false ++ true :: tail)
    (hz : z < r.left) : leadingZeros r.cache = z := by
  have hle := h.left_le
  -- Zeros and a set bit spell one, so the highest set bit of the word is at `63 - z`.
  have htop : r.cache.toNat / 2 ^ (63 - z) = 1 := by
    have htake : r.unread.take (z + 1) = List.replicate z false ++ [true] := by
      rw [hunread, List.take_append, List.length_replicate,
        List.take_of_length_le (by simp), Nat.add_sub_cancel_left]
      rfl
    have hsub : 64 - (z + 1) = 63 - z := by omega
    rw [← hsub, ← h.ofBits_take hz, htake, ofBits_append, ofBits_replicate_false]
    rfl
  have hlo : 2 ^ (63 - z) ≤ r.cache.toNat := by
    rw [← Nat.one_le_div_iff (Nat.two_pow_pos _), htop]
  have hhi : r.cache.toNat < 2 ^ (63 - z + 1) := by
    rw [pow_succ, Nat.mul_comm, ← Nat.div_lt_iff_lt_mul (Nat.two_pow_pos _), htop]
    decide
  have hpos : r.cache.toNat ≠ 0 := by have := Nat.two_pow_pos (63 - z); omega
  have hne : r.cache ≠ 0 := fun hzero => hpos (by rw [hzero]; rfl)
  have hlog : r.cache.log2.toNat = 63 - z := (Nat.log2_eq_iff hpos).2 ⟨hlo, hhi⟩
  rw [leadingZeros, if_neg hne, hlog]
  omega

/-- If the first set bit is not in the cache, the cache is zero. -/
theorem left_le_leadingZeros (h : r.Loaded)
    (hunread : r.unread = List.replicate z false ++ true :: tail) (hz : r.left ≤ z) :
    r.left ≤ leadingZeros r.cache := by
  have htake : r.unread.take r.left = List.replicate r.left false := by
    rw [hunread, List.take_append_of_le_length (by simpa using hz), List.take_replicate,
      Nat.min_eq_left hz]
  have hzero : r.cache.toNat = 0 := by
    rw [h.cache_eq, loadedValue, ← h.ofBits_take le_rfl, htake, ofBits_replicate_false,
      Nat.zero_mul]
  have hcache : r.cache = 0 := UInt64.toNat_inj.1 hzero
  rw [leadingZeros, if_pos hcache]
  exact h.left_le

/-- The zeros that are not in the cache are in front of the next set bit after a fetch. -/
theorem unread_fetched_of_zeros (h : r.Loaded)
    (hunread : r.unread = List.replicate z false ++ true :: tail) (hz : r.left ≤ z) :
    r.fetched.unread = List.replicate (z - r.left) false ++ true :: tail := by
  rw [h.unread_fetched, hunread, List.drop_append_of_le_length (by simpa using hz),
    List.drop_replicate]

theorem countZeros_eq (h : r.Loaded) (count : Nat)
    (hunread : r.unread = List.replicate z false ++ true :: tail) (hfit : count + z < 2 ^ 32) :
    ∃ r', countZeros count r = .ok (count + z) r' ∧ r'.Sound ∧ r'.unread = tail := by
  induction hn : r.rest.length using Nat.strong_induction_on generalizing r z count with
  | _ n ih =>
    subst hn
    have hle := h.left_le
    rw [countZeros]
    -- The induction is on the bytes that are left: either the run ends in the cache, or the whole
    -- cache is counted and fetched anew.
    by_cases hz : z < r.left
    · have hzeros := leadingZeros_eq h hunread hz
      have hfirst := h.consumed (n := z) hz.le (by omega)
      have hone : 1 ≤ (r.consumed z).left := by rw [left_consumed]; omega
      have hadd : Checked.add 32 count z = .ok (count + z) :=
        Checked.within_of_lt (by rwa [Nat.one_shiftLeft])
      refine ⟨(r.consumed z).consumed 1, ?_, ?_, ?_⟩
      · simp only [hzeros, hz, if_true]
        rw [Run.bind_ok (consume_eq hz.le (by omega)), Run.bind_ok (consume_eq hone (by decide))]
        exact Run.lift_ok hadd
      · exact hfirst.sound_consumed hone (by decide) (Or.inr (by decide))
      · rw [hfirst.unread_consumed hone (by decide), h.unread_consumed hz.le (by omega), hunread,
          List.drop_left' (by simp)]
        rfl
    · have hleft : r.left ≤ z := by omega
      have hzeros := left_le_leadingZeros h hunread hleft
      have hadd : Checked.add 32 count r.left = .ok (count + r.left) :=
        Checked.within_of_lt (by rw [Nat.one_shiftLeft]; omega)
      have hne : r.rest ≠ [] :=
        rest_ne_nil_of_left_lt h (n := z + 1) (by rw [hunread]; simp) (by omega)
      obtain ⟨r', hrun, hsound, htail⟩ :=
        ih r.fetched.rest.length (length_rest_fetched_lt hne) loaded_fetched (count + r.left)
          (unread_fetched_of_zeros h hunread hleft) (by omega) rfl
      refine ⟨r', ?_, hsound, htail⟩
      simp only [Nat.not_lt.2 hzeros, if_false, hadd, dif_neg hne]
      rw [hrun]
      congr 1
      omega

/-- **A unary number ends with the next set bit.** -/
theorem unary_eq (h : r.Sound) (hunread : r.unread = List.replicate z false ++ true :: tail)
    (hfit : z < 2 ^ 32) :
    ∃ r', unary r = .ok z r' ∧ r'.Sound ∧ r'.unread = tail := by
  simpa [unary] using countZeros_eq h.toLoaded 0 hunread (by omega)

end Zeros

end DolbyVision.Bits.Reader
