-- Fields that RtpHeaders.h keeps in a 24-bit member and reads through `ntohl`:
-- the send time of an extension, the bit rate of a REMB packet, and the block
-- header of RFC 2198. Each is a slice of three bytes on the wire.
import Payloader.RtcpHeaders

set_option autoImplicit false

namespace payloader.packed_fields

open payloader.memory payloader.byte_order payloader.rtcp_headers

/-! ## The classes -/

structure AbsSendTimeExtension where
  ext_info : BitVec 8
  abs_data : BitVec 24
  deriving DecidableEq, Repr

namespace AbsSendTimeExtension

def ofBytes (m : Nat → UInt8) : AbsSendTimeExtension :=
  { ext_info := (wordAt m 0).extractLsb' 0 8, abs_data := (wordAt m 0).extractLsb' 8 24 }

def getId (e : AbsSendTimeExtension) : BitVec 8 := e.ext_info >>> 4

def getLength (e : AbsSendTimeExtension) : BitVec 8 := e.ext_info &&& 0x0F

def getAbsSendTime (e : AbsSendTimeExtension) : BitVec 32 := ntohl (e.abs_data.setWidth 32) >>> 8

def setAbsSendTime (e : AbsSendTimeExtension) (aTime : BitVec 32) : AbsSendTimeExtension :=
  { e with abs_data := (htonl aTime >>> 8).setWidth 24 }

end AbsSendTimeExtension

structure RedHeader where
  payloadtype : BitVec 7
  follow : BitVec 1
  tsLength : BitVec 24
  deriving DecidableEq, Repr

namespace RedHeader

def ofBytes (m : Nat → UInt8) : RedHeader :=
  { payloadtype := (wordAt m 0).extractLsb' 0 7
    follow := (wordAt m 0).extractLsb' 7 1
    tsLength := (wordAt m 0).extractLsb' 8 24 }

def getTS (h : RedHeader) : BitVec 32 := (ntohl (h.tsLength.setWidth 32) &&& 0xfffc0000) >>> 18

/-- There is no shift after the mask. -/
def getLength (h : RedHeader) : BitVec 32 := ntohl (h.tsLength.setWidth 32) &&& 0x3ff00

end RedHeader

/-! ## Three bytes on the wire -/

/-- The number at `p`, in network byte order. -/
def net24 (m : Nat → UInt8) (p : Nat) : Nat :=
  (m p).toNat * 2 ^ 16 + (m (p + 1)).toNat * 2 ^ 8 + (m (p + 2)).toNat

/-- The upper three bytes of a word. -/
theorem swap24_wordAt (m : Nat → UInt8) (p : Nat) :
    (swap24 ((wordAt m p).extractLsb' 8 24)).toNat = net24 m (p + 1) := by
  have h0 := (m p).toNat_lt
  have h1 := (m (p + 1)).toNat_lt
  have h2 := (m (p + 2)).toNat_lt
  have h3 := (m (p + 3)).toNat_lt
  have hw := toNat_wordAt m p
  have hfield : ((wordAt m p).extractLsb' 8 24).toNat =
      (m (p + 3)).toNat * 2 ^ 16 + (m (p + 2)).toNat * 2 ^ 8 + (m (p + 1)).toNat := by
    rw [toNat_field]
    omega
  rw [toNat_swap24, hfield]
  change _ = (m (p + 1)).toNat * 2 ^ 16 + (m (p + 2)).toNat * 2 ^ 8 + (m (p + 3)).toNat
  omega

theorem toNat_ntohl_shift (x : BitVec 24) :
    (ntohl (x.setWidth 32) >>> 8).toNat = (swap24 x).toNat := by
  rw [BitVec.toNat_ushiftRight, toNat_ntohl_setWidth, Nat.shiftRight_eq_div_pow]
  omega

/-! ## The accessors -/

theorem getAbsSendTime_eq (m : Nat → UInt8) :
    (AbsSendTimeExtension.ofBytes m).getAbsSendTime.toNat = net24 m 1 :=
  (toNat_ntohl_shift _).trans (swap24_wordAt m 0)

/-- A time that is set is read with its low 24 bits, and the byte before it stays. -/
theorem getAbsSendTime_set (e : AbsSendTimeExtension) (aTime : BitVec 32) :
    (e.setAbsSendTime aTime).getAbsSendTime.toNat = aTime.toNat % 2 ^ 24 ∧
      (e.setAbsSendTime aTime).getId = e.getId ∧
      (e.setAbsSendTime aTime).getLength = e.getLength := by
  refine ⟨(toNat_ntohl_shift _).trans ?_, rfl, rfl⟩
  change (swap24 ((htonl aTime >>> 8).setWidth 24)).toNat = _
  rw [htonl_shift, swap24_swap24]
  exact BitVec.toNat_setWidth 24 aTime

theorem getBrExp_eq (h : RtcpHeader) :
    h.getBrExp.toNat = (swap24 h.rembPacket.brLength).toNat / 2 ^ 18 := by
  unfold RtcpHeader.getBrExp
  rw [BitVec.toNat_ushiftRight, toNat_ntohl_setWidth, Nat.shiftRight_eq_div_pow]
  omega

theorem getBrMantis_eq (h : RtcpHeader) :
    h.getBrMantis.toNat = (swap24 h.rembPacket.brLength).toNat % 2 ^ 18 := by
  unfold RtcpHeader.getBrMantis
  rw [toNat_mask _ _ 18 rfl, toNat_ntohl_shift]

theorem getTS_eq (h : RedHeader) : h.getTS.toNat = (swap24 h.tsLength).toNat / 2 ^ 10 := by
  have hlt := (swap24 h.tsLength).isLt
  unfold RedHeader.getTS
  rw [BitVec.ushiftRight_and_distrib, toNat_mask _ _ 14 rfl, BitVec.toNat_ushiftRight,
    toNat_ntohl_setWidth, Nat.shiftRight_eq_div_pow]
  omega

/-- The length comes out 256 times as large. -/
theorem getLength_eq (h : RedHeader) :
    h.getLength.toNat = (swap24 h.tsLength).toNat % 2 ^ 10 * 2 ^ 8 := by
  have hmask : (0x3ff00 : BitVec 32) = (0x3ff : BitVec 32) <<< 8 := rfl
  have hlow : ((swap24 h.tsLength).setWidth 32 &&& 0x3ff).toNat =
      (swap24 h.tsLength).toNat % 2 ^ 10 := by
    rw [toNat_mask _ _ 10 rfl, BitVec.toNat_setWidth_of_le (by decide)]
  unfold RedHeader.getLength
  rw [ntohl_setWidth, hmask, ← BitVec.shiftLeft_and_distrib, BitVec.toNat_shiftLeft, hlow,
    Nat.shiftLeft_eq]
  exact Nat.mod_eq_of_lt (by omega)

/-! ## Slices of the wire -/

/-- The send time is the number at the bytes 1 to 3 of its extension, the
exponent and the mantissa are the bits of the bytes 17 to 19 of a REMB packet,
and the time offset is in the bytes 1 to 3 of a block header. -/
def TimesAndRatesRead (time remb red : Nat → UInt8) : Prop :=
  (AbsSendTimeExtension.ofBytes time).getAbsSendTime.toNat = net24 time 1 ∧
    (RtcpHeader.ofBytes remb).getBrExp.toNat = net24 remb 17 / 2 ^ 18 ∧
    (RtcpHeader.ofBytes remb).getBrMantis.toNat = net24 remb 17 % 2 ^ 18 ∧
    (RedHeader.ofBytes red).getTS.toNat = net24 red 1 / 2 ^ 10

/-- Every accessor gives its slice. The last one is the length of a block. -/
def SlicesRead (time remb red : Nat → UInt8) : Prop :=
  TimesAndRatesRead time remb red ∧
    (RedHeader.ofBytes red).getLength.toNat = net24 red 1 % 2 ^ 10

theorem brLength_ofBytes (m : Nat → UInt8) :
    (swap24 (RtcpHeader.ofBytes m).rembPacket.brLength).toNat = net24 m 17 :=
  swap24_wordAt (RtcpHeader.ofBytes m).report.cell 8

theorem tsLength_ofBytes (m : Nat → UInt8) :
    (swap24 (RedHeader.ofBytes m).tsLength).toNat = net24 m 1 := swap24_wordAt m 0

theorem times_and_rates_read (time remb red : Nat → UInt8) : TimesAndRatesRead time remb red := by
  refine ⟨getAbsSendTime_eq time, ?_, ?_, ?_⟩
  · rw [getBrExp_eq, brLength_ofBytes]
  · rw [getBrMantis_eq, brLength_ofBytes]
  · rw [getTS_eq, tsLength_ofBytes]

/-- Every accessor but the last one gives its slice for all bytes, and the last
one exactly for blocks with the length 0. -/
theorem the_slices_are_read_exactly_when_the_block_is_empty (time remb red : Nat → UInt8) :
    TimesAndRatesRead time remb red ∧
      (SlicesRead time remb red ↔ net24 red 1 % 2 ^ 10 = 0) := by
  have hlength := getLength_eq (RedHeader.ofBytes red)
  rw [tsLength_ofBytes] at hlength
  refine ⟨times_and_rates_read time remb red, fun h => ?_, fun hzero => ?_⟩
  · have hslice := h.2
    omega
  · refine ⟨times_and_rates_read time remb red, ?_⟩
    rw [hlength, hzero, Nat.zero_mul]

/-- A block of one byte. -/
theorem a_block_of_one_byte_is_read_as_256 :
    ¬ ∀ time remb red : Nat → UInt8, SlicesRead time remb red := by
  intro h
  have hlength := (h (fun _ => 0) (fun _ => 0) (fun i => if i = 3 then 1 else 0)).2
  revert hlength
  decide

end payloader.packed_fields
