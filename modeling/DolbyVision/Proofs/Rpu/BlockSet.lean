/-
**Sets of blocks and their order.**

A set keeps static blocks apart from the others.  An RPU lists them by group and, inside a group,
static ones first, so a decoder gets each sort with the blocks of CM 2.9 in front of those of CM 4.0
(`BlockSet.coded`).  Blocks that come in that order keep it.

Main definitions:

* `DolbyVision.BlockSet.WithinLimits` — the bounds on both sorts;
* `DolbyVision.BlockSet.coded` — the set that a decoder gets;
* `DolbyVision.InSendingOrder` — static blocks in front of the others and, in each sort, the blocks
  of CM 2.9 in front of those of CM 4.0.

Main results:

* `DolbyVision.BlockSet.foldlM_push_eq_ok_iff` — blocks that fit are all kept, behind those of their
  sort;
* `DolbyVision.BlockSet.ofList_eq_ok` — what a set that was built holds;
* `DolbyVision.BlockSet.toList_of_inSendingOrder`, `DolbyVision.BlockSet.coded_eq_self` —
  **blocks in the order in which they are sent keep their order**.
-/

import DolbyVision.Proofs.Rpu.Block
import DolbyVision.Rpu.BlockGroup
import Mathlib.Data.List.Basic

set_option relaxedAutoImplicit false
set_option autoImplicit false

namespace DolbyVision

/-! ### Stable partitions -/

/-- A list in which a property, once it holds, goes on to hold is the part without it followed by
the part with it. -/
theorem filter_not_append_filter {α : Type} {p : α → Bool} {l : List α}
    (h : l.Pairwise fun a b => p a = true → p b = true) :
    l.filter (fun a => !p a) ++ l.filter p = l := by
  induction l with
  | nil => rfl
  | cons a l ih =>
    obtain ⟨hfirst, hrest⟩ := List.pairwise_cons.1 h
    cases hp : p a with
    | false => simp [hp, ih hrest]
    | true =>
      have hall : ∀ b ∈ l, p b = true := fun b hb => hfirst b hb hp
      have hnone : l.filter (fun a => !p a) = [] := by
        rw [List.filter_eq_nil_iff]
        intro b hb
        simp [hall b hb]
      have hkeep : l.filter p = l := List.filter_eq_self.2 hall
      simp [hp, hnone, hkeep]

/-- Static blocks in front of the others and, in each sort, the blocks of CM 2.9 in front of those
of CM 4.0. -/
def InSendingOrder (blocks : List Block) : Prop :=
  blocks.Pairwise fun a b =>
    (a.isStatic = false → b.isStatic = false) ∧
      (a.isStatic = b.isStatic → a.isCmV4 = true → b.isCmV4 = true)

namespace BlockSet

/-! ### Adding blocks -/

/-- The bounds on both sorts of blocks. -/
structure WithinLimits (s : BlockSet) : Prop where
  static_le : s.static.length ≤ maxStatic
  dynamic_le : s.dynamic.length ≤ maxDynamic

/-- The set with more blocks, each behind those of its sort. -/
def append (s : BlockSet) (blocks : List Block) : BlockSet where
  static := s.static ++ blocks.filter Block.isStatic
  dynamic := s.dynamic ++ blocks.filter (fun b => !b.isStatic)

@[simp] theorem append_nil (s : BlockSet) : s.append [] = s := by
  simp [append]

theorem append_cons (s : BlockSet) (b : Block) (blocks : List Block) :
    s.append (b :: blocks) = (s.append [b]).append blocks := by
  cases hb : b.isStatic <;> simp [append, hb]

theorem append_static {s : BlockSet} {b : Block} (hb : b.isStatic = true) :
    s.append [b] = { s with static := s.static ++ [b] } := by
  simp [append, hb]

theorem append_dynamic {s : BlockSet} {b : Block} (hb : b.isStatic = false) :
    s.append [b] = { s with dynamic := s.dynamic ++ [b] } := by
  simp [append, hb]

/-- Adding a block succeeds exactly if it leaves the set within its limits. -/
theorem push_eq_ok_iff {s s' : BlockSet} {b : Block} (hs : s.WithinLimits) :
    s.push b = .ok s' ↔ (s.append [b]).WithinLimits ∧ s' = s.append [b] := by
  obtain ⟨hstatic, hdynamic⟩ := hs
  cases hb : b.isStatic with
  | true =>
    rw [append_static hb, push, if_pos hb]
    constructor
    · intro h
      split at h
      · cases h
      · case isFalse hroom =>
        cases h
        exact ⟨⟨by simpa [Nat.succ_le_iff] using hroom, hdynamic⟩, rfl⟩
    · rintro ⟨⟨hroom, -⟩, rfl⟩
      rw [if_neg (by simpa [Nat.succ_le_iff] using hroom)]
  | false =>
    rw [append_dynamic hb, push, if_neg (by simp [hb])]
    constructor
    · intro h
      split at h
      · cases h
      · case isFalse hroom =>
        cases h
        exact ⟨⟨hstatic, by simpa [Nat.succ_le_iff] using hroom⟩, rfl⟩
    · rintro ⟨⟨-, hroom⟩, rfl⟩
      rw [if_neg (by simpa [Nat.succ_le_iff] using hroom)]

theorem withinLimits_empty : ({} : BlockSet).WithinLimits := ⟨by decide, by decide⟩

/-- A set that is within its limits has been so all along. -/
theorem WithinLimits.of_append {s : BlockSet} {blocks : List Block}
    (h : (s.append blocks).WithinLimits) : s.WithinLimits where
  static_le := by
    have hle := h.static_le
    rw [append, List.length_append] at hle
    omega
  dynamic_le := by
    have hle := h.dynamic_le
    rw [append, List.length_append] at hle
    omega

/-- No more blocks can be added than there is room for. -/
theorem WithinLimits.length_le {s : BlockSet} {blocks : List Block}
    (h : (s.append blocks).WithinLimits) : blocks.length ≤ maxStatic + maxDynamic := by
  have hstatic := h.static_le
  have hdynamic := h.dynamic_le
  have hsum := List.length_eq_length_filter_add (l := blocks) Block.isStatic
  simp only [append, List.length_append] at hstatic hdynamic
  omega

/-- **Adding blocks succeeds exactly if they leave the set within its limits**, and then all of them
are kept. -/
theorem foldlM_push_eq_ok_iff {s s' : BlockSet} {blocks : List Block} (hs : s.WithinLimits) :
    blocks.foldlM push s = .ok s' ↔ (s.append blocks).WithinLimits ∧ s' = s.append blocks := by
  induction blocks generalizing s with
  | nil =>
    rw [List.foldlM_nil, append_nil]
    constructor
    · intro h
      cases h
      exact ⟨hs, rfl⟩
    · rintro ⟨-, rfl⟩
      rfl
  | cons b blocks ih =>
    rw [List.foldlM_cons, append_cons]
    constructor
    · intro h
      obtain ⟨s₁, hfirst, hrest⟩ := Checked.ok_of_bind h
      obtain ⟨hlimits, rfl⟩ := (push_eq_ok_iff hs).1 hfirst
      exact (ih hlimits).1 hrest
    · rintro ⟨hlimits, rfl⟩
      have hfirst := (push_eq_ok_iff hs).2 ⟨hlimits.of_append, rfl⟩
      rw [hfirst]
      exact (ih hlimits.of_append).2 ⟨hlimits, rfl⟩

/-- **A set that was built from a list holds its blocks**, and is within its limits. -/
theorem ofList_eq_ok {blocks : List Block} {s : BlockSet} (h : ofList blocks = .ok s) :
    s.WithinLimits ∧ s = ({} : BlockSet).append blocks := by
  obtain ⟨hlimits, rfl⟩ := (foldlM_push_eq_ok_iff withinLimits_empty).1 h
  exact ⟨hlimits, rfl⟩

/-! ### Sorts -/

/-- Each block stands with those of its sort. -/
structure Sorted (s : BlockSet) : Prop where
  static : ∀ b ∈ s.static, b.isStatic = true
  dynamic : ∀ b ∈ s.dynamic, b.isStatic = false

theorem sorted_empty : ({} : BlockSet).Sorted where
  static := by simp
  dynamic := by simp

theorem Sorted.append {s : BlockSet} (h : s.Sorted) (blocks : List Block) :
    (s.append blocks).Sorted where
  static := by
    intro b hb
    rcases List.mem_append.1 hb with hb | hb
    · exact h.static b hb
    · exact (List.mem_filter.1 hb).2
  dynamic := by
    intro b hb
    rcases List.mem_append.1 hb with hb | hb
    · exact h.dynamic b hb
    · simpa using (List.mem_filter.1 hb).2

/-! ### Order -/

/-- The blocks of one sort in the order in which a decoder gets them. -/
def sent (blocks : List Block) : List Block :=
  blocks.filter (fun b => !b.isCmV4) ++ blocks.filter Block.isCmV4

/-- The set that a decoder gets. -/
def coded (s : BlockSet) : BlockSet where
  static := (sent s.static).map Block.coded
  dynamic := (sent s.dynamic).map Block.coded

theorem length_sent (blocks : List Block) : (sent blocks).length = blocks.length := by
  have hsum := List.length_eq_length_filter_add (l := blocks) Block.isCmV4
  rw [sent, List.length_append]
  omega

/-- A decoder gets as many blocks as there are. -/
theorem WithinLimits.coded {s : BlockSet} (h : s.WithinLimits) : s.coded.WithinLimits where
  static_le := by
    rw [BlockSet.coded, List.length_map, length_sent]
    exact h.static_le
  dynamic_le := by
    rw [BlockSet.coded, List.length_map, length_sent]
    exact h.dynamic_le

/-- Blocks in sending order are listed as they came. -/
theorem toList_of_inSendingOrder {blocks : List Block} (h : InSendingOrder blocks) :
    (({} : BlockSet).append blocks).toList = blocks := by
  have hpartition := filter_not_append_filter (p := fun b => !b.isStatic) (l := blocks)
    (h.imp fun hab ha => by simpa using hab.1 (by simpa using ha))
  simpa [append, toList] using hpartition

/-- Blocks of one sort in sending order keep their order. -/
theorem sent_eq_self {blocks : List Block} (static : Bool) (h : InSendingOrder blocks)
    (hsort : ∀ b ∈ blocks, b.isStatic = static) : sent blocks = blocks := by
  refine filter_not_append_filter (List.Pairwise.imp_of_mem ?_ h)
  intro a b ha hb hab
  exact hab.2 ((hsort a ha).trans (hsort b hb).symm)

/-- **A set of blocks that fit, in sending order, is what a decoder gets.** -/
theorem coded_eq_self {blocks : List Block} (horder : InSendingOrder blocks)
    (hfits : ∀ b ∈ blocks, b.Fits) :
    (({} : BlockSet).append blocks).coded = ({} : BlockSet).append blocks := by
  have hmap (p : Block → Bool) : (blocks.filter p).map Block.coded = blocks.filter p :=
    (List.map_congr_left fun b hb =>
      Block.coded_eq_self (hfits b (List.mem_filter.1 hb).1)).trans (List.map_id' _)
  have hstatic : sent (blocks.filter Block.isStatic) = blocks.filter Block.isStatic :=
    sent_eq_self true (List.Pairwise.filter _ horder) fun b hb => (List.mem_filter.1 hb).2
  have hdynamic : sent (blocks.filter fun b => !b.isStatic) = blocks.filter fun b => !b.isStatic :=
    sent_eq_self false (List.Pairwise.filter _ horder) fun b hb => by
      simpa using (List.mem_filter.1 hb).2
  simp only [coded, append, List.nil_append, hstatic, hdynamic, hmap]

end BlockSet

end DolbyVision
