-- What the links of the pipeline hand to each other: FFmpeg's packets, and
-- the datagrams that lie in the buffer of the link before.
import Payloader.Memory

set_option autoImplicit false

namespace payloader.interfaces

open payloader.memory

inductive AVMediaType
  | AVMEDIA_TYPE_UNKNOWN
  | AVMEDIA_TYPE_VIDEO
  | AVMEDIA_TYPE_AUDIO
  deriving DecidableEq, Repr

/-- The members of FFmpeg's packet that the code reads: `size` bytes at
`data`, and the decode time. -/
structure AVPacket where
  data : List UInt8
  dts : BitVec 64
  deriving DecidableEq, Repr

/-- The arguments of `RtpReceiver::receiveRtpPacket`. The datagram is the
first `buffSize` bytes, and the buffer may be longer: after them it holds what
older datagrams left there. -/
structure Arrival where
  size : Nat
  inBuff : Block size UInt8
  buffSize : Nat

/-- The buffer holds the datagram `d`, and room for the header class. -/
structure Arrival.Carries (a : Arrival) (d : List UInt8) : Prop where
  room : 16 ≤ a.size
  fits : d.length ≤ a.size
  size : a.buffSize = d.length
  bytes : a.inBuff.slice 0 d.length = d
  address : a.size < 2 ^ 64

/-- A buffer of just the datagram. -/
def Arrival.ofBytes (d : List UInt8) : Arrival :=
  { size := d.length, inBuff := Block.ofList d 0, buffSize := d.length }

/-- A datagram with four more readable bytes. -/
def Arrival.padded (d : List UInt8) : Arrival :=
  { size := d.length + 4, inBuff := Block.ofList d 0, buffSize := d.length }

theorem Arrival.padded_carries (d : List UInt8) (h1 : 12 ≤ d.length) (h2 : d.length ≤ 1500) :
    (Arrival.padded d).Carries d := by
  have hsize : (Arrival.padded d).size = d.length + 4 := rfl
  refine ⟨by omega, by omega, rfl, ?_, by omega⟩
  change (Block.ofList d 0 : Block (d.length + 4) UInt8).slice 0 d.length = d
  exact slice_ofList_self d 0

/-- The bytes of the datagram are at the start of the buffer. -/
theorem Arrival.Carries.cell {a : Arrival} {d : List UInt8} (h : a.Carries d) (i : Nat)
    (hi : i < d.length) : a.inBuff.cell i = d.getD i 0 := by
  have hget := slice_getElem? a.inBuff 0 d.length i
  rw [h.bytes, if_pos hi, Nat.zero_add] at hget
  rw [List.getD_eq_getElem?_getD, hget]
  rfl

end payloader.interfaces
