/-
**A NAL unit gives its RPU back.**

A payload may come as it is, in a unit with a header, or in a byte stream with a start code in
front.  What is dropped in front of a payload is told by its first bytes: a header starts with
neither a zero byte nor the first byte of a payload, so nothing of a payload is taken for a header,
and nothing of a header or payload for a start code.

Main definitions:

* `DolbyVision.Nal.startCodes`, `DolbyVision.Nal.IsHeader` — what may stand in front of a payload;
* `DolbyVision.Nal.trimmed` — a byte string without the zero bytes at its end.

Main results:

* `DolbyVision.Nal.unescape_escape` — escapes are removed again;
* `DolbyVision.Nal.unwrap_append_wrap` — start code, header and escapes are removed;
* `DolbyVision.Nal.rpu_unwrap_wrap` — **an RPU that does not end in a zero byte comes back** from
  the NAL unit payload in which it was wrapped;
* `DolbyVision.Nal.eq_of_rpu`, `DolbyVision.Nal.rpu_append_zeros` — a payload holds an RPU and then
  zero bytes, of which any number will do;
* `DolbyVision.Nal.unwrap_framed` — **a payload comes back from behind start code and header**, and
  its RPU if it does not end in a zero byte.
-/

import DolbyVision.Container.Nal

set_option relaxedAutoImplicit false
set_option autoImplicit false

namespace DolbyVision.Nal

/-! ### Escapes -/

/-- An escaped byte string is read with the same count of zero bytes with which it was written: an
inserted byte 3 resets the count on both sides, and a byte that needs no escape is none. -/
theorem unescapeAfter_escapeAfter (zeros : Nat) (bytes : List UInt8) :
    unescapeAfter zeros (escapeAfter zeros bytes) = bytes := by
  induction bytes generalizing zeros with
  | nil => rfl
  | cons b bytes ih =>
    rw [escapeAfter]
    by_cases hescape : 2 ≤ zeros ∧ b ≤ 3
    · have hcount : ¬ (2 ≤ 0 ∧ b = 3) := fun h => absurd h.1 (by decide)
      rw [if_pos hescape, unescapeAfter, if_pos ⟨hescape.1, rfl⟩, unescapeAfter, if_neg hcount, ih]
    · have hplain : ¬ (2 ≤ zeros ∧ b = 3) := fun h => hescape ⟨h.1, by rw [h.2]; decide⟩
      rw [if_neg hescape, unescapeAfter, if_neg hplain, ih]

/-- **Escapes are removed again.** -/
theorem unescape_escape (bytes : List UInt8) : unescape (escape bytes) = bytes :=
  unescapeAfter_escapeAfter 0 bytes

/-- A payload without its escapes is the RPU behind the first byte. -/
theorem unescape_wrap (bytes : List UInt8) : unescape (wrap bytes) = marker :: bytes := by
  have hmarker : ¬ (2 ≤ 0 ∧ marker = 3) := fun h => absurd h.1 (by decide)
  rw [wrap, unescape, unescapeAfter, if_neg hmarker]
  exact congrArg _ (unescape_escape bytes)

/-! ### Framing -/

/-- What may stand in front of a NAL unit: nothing, or a start code. -/
def startCodes : List (List UInt8) := [[], [0, 0, 1], [0, 0, 0, 1]]

/-- What may stand in front of a payload: nothing, or the two bytes of the header of a unit that
holds an RPU. -/
def IsHeader (header : List UInt8) : Prop :=
  header = [] ∨ header.length = 2 ∧ unitType header = some rpuUnitType

variable {start header bytes : List UInt8}

/-- A start code is dropped in front of anything but a zero byte. -/
theorem dropStartCode_append (hstart : start ∈ startCodes) (hbytes : bytes.head? ≠ some 0) :
    dropStartCode (start ++ bytes) = bytes := by
  simp only [startCodes, List.mem_cons, List.not_mem_nil, or_false] at hstart
  rcases hstart with rfl | rfl | rfl
  · rw [List.nil_append]
    unfold dropStartCode
    split
    · exact absurd rfl hbytes
    · exact absurd rfl hbytes
    · rfl
  · rfl
  · rfl

/-- The type of a unit that holds an RPU is not that of a byte 0 or of the first byte of a
payload. -/
theorem ne_of_unitType {first : UInt8} {back : List UInt8}
    (h : unitType (first :: back) = some rpuUnitType) : first ≠ 0 ∧ first ≠ marker := by
  have htype : (first >>> 1) &&& 0x3f = rpuUnitType := Option.some.inj h
  constructor
  · rintro rfl
    exact absurd htype (by decide)
  · rintro rfl
    exact absurd htype (by decide)

/-- A header and a payload do not start with a zero byte. -/
theorem head?_header_append (hheader : IsHeader header) (payload : List UInt8) :
    (header ++ marker :: payload).head? ≠ some 0 := by
  rcases hheader with rfl | ⟨hlength, htype⟩
  · simp [marker]
  · match header, hlength with
    | [_, _], _ => simpa using (ne_of_unitType htype).1

/-- A header is dropped in front of a payload, and nothing of a payload is. -/
theorem dropHeader_append (hheader : IsHeader header) (payload : List UInt8) :
    dropHeader (header ++ marker :: payload) = marker :: payload := by
  rcases hheader with rfl | ⟨hlength, htype⟩
  · rw [dropHeader, List.nil_append, if_neg]
    rintro ⟨-, hne, -⟩
    exact hne rfl
  · match header, hlength with
    | [_, _], _ =>
      rw [dropHeader, if_pos]
      · rfl
      · refine ⟨by simp, ?_, htype⟩
        simpa using (ne_of_unitType htype).2

/-- What stands in front of a payload that was wrapped is dropped, and its escapes are removed. -/
theorem unwrap_append_wrap (hstart : start ∈ startCodes) (hheader : IsHeader header)
    (bytes : List UInt8) : unwrap (start ++ header ++ wrap bytes) = marker :: bytes := by
  have hcode : dropStartCode (start ++ (header ++ wrap bytes)) = header ++ wrap bytes :=
    dropStartCode_append hstart (head?_header_append hheader _)
  have hdrop : dropHeader (header ++ wrap bytes) = wrap bytes := dropHeader_append hheader _
  rw [unwrap, List.append_assoc, hcode, hdrop, unescape_wrap]

/-! ### Padding -/

/-- What is left of a byte string without the zero bytes at its end. -/
def trimmed (bytes : List UInt8) : List UInt8 :=
  (bytes.reverse.dropWhile (· == 0)).reverse

/-- The trimmed bytes and the zeros behind them. -/
theorem trimmed_append_zeros (bytes : List UInt8) :
    trimmed bytes ++ List.replicate (bytes.reverse.takeWhile (· == 0)).length 0 = bytes := by
  have hsplit := List.takeWhile_append_dropWhile (p := (· == (0 : UInt8))) (l := bytes.reverse)
  have hzeros : bytes.reverse.takeWhile (· == 0) =
      List.replicate (bytes.reverse.takeWhile (· == 0)).length 0 := by
    refine List.eq_replicate_of_mem fun b hb => ?_
    exact beq_iff_eq.1 (List.all_eq_true.1 List.all_takeWhile b hb)
  rw [trimmed, ← List.reverse_replicate, ← hzeros, ← List.reverse_append, hsplit,
    List.reverse_reverse]

theorem trimmed_isPrefix (bytes : List UInt8) : trimmed bytes <+: bytes :=
  ⟨_, trimmed_append_zeros bytes⟩

theorem length_trimmed_le (bytes : List UInt8) : (trimmed bytes).length ≤ bytes.length :=
  (trimmed_isPrefix bytes).length_le

/-- **The zero bytes at the end of a byte string are found**: the index where it is cut does not lie
behind its end. -/
theorem trimZeros_eq (bytes : List UInt8) : trimZeros bytes = .ok (trimmed bytes) := by
  have hlength : (bytes.reverse.dropWhile (· == 0)).length = (trimmed bytes).length := by
    rw [trimmed, List.length_reverse]
  have htake : bytes.take (trimmed bytes).length = trimmed bytes :=
    (List.prefix_iff_eq_take.1 (trimmed_isPrefix bytes)).symm
  rw [trimZeros, hlength, Checked.bind_ok (Checked.splitAt_of_le (length_trimmed_le bytes)), htake]
  rfl

/-- A byte string that does not end in a zero byte has nothing to be trimmed. -/
theorem trimmed_eq_self {bytes : List UInt8} {last : UInt8} (hlast : last ≠ 0) :
    trimmed (bytes ++ [last]) = bytes ++ [last] := by
  have hkeep : (last :: bytes.reverse).dropWhile (· == 0) = last :: bytes.reverse := by
    simp [hlast]
  rw [trimmed, List.reverse_append, List.reverse_singleton, List.singleton_append, hkeep,
    List.reverse_cons, List.reverse_reverse]

/-- Zero bytes at the end are trimmed, however many there are. -/
theorem trimmed_append_replicate (bytes : List UInt8) (n : Nat) :
    trimmed (bytes ++ List.replicate n 0) = trimmed bytes := by
  rw [trimmed, List.reverse_append, List.reverse_replicate,
    List.dropWhile_append_of_pos (by simp), trimmed]

/-- Nothing is trimmed exactly if there is no zero byte at the end. -/
theorem trimmed_eq_self_iff : trimmed bytes = bytes ↔ bytes.getLast? ≠ some 0 := by
  rcases List.eq_nil_or_concat bytes with rfl | ⟨front, last, rfl⟩
  · exact iff_of_true rfl (by simp)
  rw [List.concat_eq_append, List.getLast?_concat, ne_eq, Option.some.injEq]
  constructor
  · rintro hsame rfl
    have hle := length_trimmed_le front
    rw [← trimmed_append_replicate front 1, List.replicate_one, hsame, List.length_append,
      List.length_singleton] at hle
    omega
  · exact trimmed_eq_self

/-- A payload holds its RPU behind the first byte, and then padding. -/
theorem eq_of_rpu {data bytes : List UInt8} (h : rpu data = .ok bytes) :
    ∃ n, data = marker :: (bytes ++ List.replicate n 0) := by
  cases data with
  | nil => cases h
  | cons b data =>
    rw [rpu] at h
    split at h
    · case isTrue hmarker =>
      rw [trimZeros_eq] at h
      obtain rfl := Except.ok.inj h
      exact ⟨_, by rw [hmarker, trimmed_append_zeros]⟩
    · cases h

/-- An RPU comes back from behind the first byte, with padding behind it, exactly if it does not end
in a zero byte. -/
theorem rpu_eq_ok_iff (bytes : List UInt8) (n : Nat) :
    rpu (marker :: bytes ++ List.replicate n 0) = .ok bytes ↔ bytes.getLast? ≠ some 0 := by
  rw [List.cons_append, rpu, if_pos rfl, trimZeros_eq, trimmed_append_replicate, Except.ok.injEq,
    trimmed_eq_self_iff]

/-- Padding does not matter. -/
theorem rpu_append_zeros {bytes : List UInt8} {last : UInt8} (hlast : last ≠ 0) (n : Nat) :
    rpu (marker :: (bytes ++ [last] ++ List.replicate n 0)) = .ok (bytes ++ [last]) :=
  (rpu_eq_ok_iff (bytes ++ [last]) n).2 (by simpa using hlast)

/-- **An RPU that does not end in a zero byte comes back** from the payload in which it was
wrapped. -/
theorem rpu_unwrap_wrap {bytes : List UInt8} {last : UInt8} (hlast : last ≠ 0) :
    rpu (unwrap (wrap (bytes ++ [last]))) = .ok (bytes ++ [last]) := by
  have hunwrap : unwrap (wrap (bytes ++ [last])) = marker :: (bytes ++ [last]) :=
    unwrap_append_wrap (List.mem_cons_self : [] ∈ startCodes) (Or.inl rfl) (bytes ++ [last])
  rw [hunwrap, rpu, if_pos rfl, trimZeros_eq, trimmed_eq_self hlast]

/-! ### Units -/

/-- **A payload comes back from behind start code and header.**  Its RPU comes back as well, also if
zero bytes are appended, exactly if it does not end in a zero byte. -/
theorem unwrap_framed (hstart : start ∈ startCodes) (hheader : IsHeader header)
    (bytes : List UInt8) :
    unwrap (start ++ header ++ wrap bytes) = marker :: bytes ∧
      ∀ n, rpu (unwrap (start ++ header ++ wrap bytes) ++ List.replicate n 0) = .ok bytes ↔
        bytes.getLast? ≠ some 0 := by
  have hunwrap := unwrap_append_wrap hstart hheader bytes
  refine ⟨hunwrap, fun n => ?_⟩
  rw [hunwrap]
  exact rpu_eq_ok_iff bytes n

/-- A unit of a byte stream, with an RPU that has escapes, and with three bytes of padding. -/
theorem unwrap_framed_stream :
    [0, 0, 0, 1] ∈ startCodes ∧ IsHeader [0x7c, 1] ∧
      wrap [8, 0, 0, 1, 0, 0, 0, 0x80] = [0x19, 8, 0, 0, 3, 1, 0, 0, 3, 0, 0x80] ∧
      rpu (unwrap ([0, 0, 0, 1] ++ [0x7c, 1] ++ wrap [8, 0, 0, 1, 0, 0, 0, 0x80]) ++
        List.replicate 3 0) = .ok [8, 0, 0, 1, 0, 0, 0, 0x80] := by
  have hstart : [0, 0, 0, 1] ∈ startCodes := by decide
  have hheader : IsHeader [0x7c, 1] := Or.inr ⟨rfl, rfl⟩
  exact ⟨hstart, hheader, by decide, ((unwrap_framed hstart hheader _).2 3).2 (by decide)⟩

end DolbyVision.Nal
