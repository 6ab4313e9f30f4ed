/-
**Regenerating metadata.**

Metadata that was decoded should survive being encoded and decoded again by streams that have seen
nothing else.

Main definitions:

* `DolbyVision.Stream.regenerating` — an empty stream for encoding the metadata of another one;
* `DolbyVision.Stream.regenerates` — whether encoding and decoding gives metadata back.
-/

import DolbyVision.Stream.Encode

set_option relaxedAutoImplicit false
set_option autoImplicit false

namespace DolbyVision.Stream

/-- The profile under which metadata is encoded if its header does not tell. -/
def defaultProfile : UInt8 := 8

/-- An empty stream with the configuration of `s`.  A stream without a profile gets the one that the
header tells. -/
def regenerating (s : Stream) (h : Header) : Stream :=
  let profile := s.profileFor h
  { configuration := { s.configuration with
      profile := if profile = 0 then defaultProfile else profile } }

/-- Takes an RPU out of the wrapping that its stream uses. -/
def unwrap (s : Stream) (wrapped : List UInt8) : Except Fault (List UInt8) :=
  if s.configuration.profile = t35Profile then T35.unwrap wrapped else .ok (Nal.unwrap wrapped)

/-- Whether encoding and decoding gives metadata back.  The decoder verifies the checksum and gives
up on minor errors. -/
def regenerates (s : Stream) (m : Metadata) : Except Fault Bool := do
  let fresh := s.regenerating m.header
  let t35 := fresh.configuration.profile == t35Profile
  let wrapped ← (fresh.encode (some m) { nal := !t35, t35 }).result
  let decoded := fresh.decode (← fresh.unwrap wrapped) (Strictness.checksum.union .explode)
  decoded.result
  return decoded.state.metadata == some m

end DolbyVision.Stream
