-- The RTP header of RtpHeaders.h: its members, how they lie in memory with
-- GCC's bit-field order on a little-endian host, and what RFC 3550 reads at
-- the same bytes.
import Payloader.ByteOrder
import Mathlib.Tactic.IntervalCases
import Mathlib.Tactic.Ring

set_option autoImplicit false

namespace payloader.rtp_headers

open payloader.memory payloader.byte_order

/-- The members of the class, each as wide as its bit-field. `extensions` is
left out: the constructor does not set it, and no code reads it. -/
structure RtpHeader where
  cc : BitVec 4
  hasextension : BitVec 1
  padding : BitVec 1
  version : BitVec 2
  payloadtype : BitVec 7
  marker : BitVec 1
  seqnum : BitVec 16
  timestamp : BitVec 32
  ssrc : BitVec 32
  extensionpayload : BitVec 16
  extensionlength : BitVec 16
  deriving DecidableEq, Repr

namespace RtpHeader

def MIN_SIZE : Nat := 12

/-- The constructor. -/
def init : RtpHeader :=
  { cc := 0, hasextension := 0, padding := 0, version := 2, payloadtype := 0, marker := 0,
    seqnum := 0, timestamp := 0, ssrc := 0, extensionpayload := 0, extensionlength := 0 }

def hasPadding (h : RtpHeader) : BitVec 8 := h.padding.setWidth 8

def getVersion (h : RtpHeader) : BitVec 8 := h.version.setWidth 8

def setVersion (h : RtpHeader) (aVersion : BitVec 8) : RtpHeader :=
  { h with version := aVersion.setWidth 2 }

def getMarker (h : RtpHeader) : BitVec 8 := h.marker.setWidth 8

def setMarker (h : RtpHeader) (aMarker : BitVec 8) : RtpHeader :=
  { h with marker := aMarker.setWidth 1 }

def getExtension (h : RtpHeader) : BitVec 8 := h.hasextension.setWidth 8

def setExtension (h : RtpHeader) (ext : BitVec 8) : RtpHeader :=
  { h with hasextension := ext.setWidth 1 }

def getCc (h : RtpHeader) : BitVec 8 := h.cc.setWidth 8

def setCc (h : RtpHeader) (theCc : BitVec 8) : RtpHeader := { h with cc := theCc.setWidth 4 }

def getPayloadType (h : RtpHeader) : BitVec 8 := h.payloadtype.setWidth 8

def setPayloadType (h : RtpHeader) (aType : BitVec 8) : RtpHeader :=
  { h with payloadtype := aType.setWidth 7 }

def getSeqNumber (h : RtpHeader) : BitVec 16 := ntohs h.seqnum

def setSeqNumber (h : RtpHeader) (aSeqNumber : BitVec 16) : RtpHeader :=
  { h with seqnum := htons aSeqNumber }

def getTimestamp (h : RtpHeader) : BitVec 32 := ntohl h.timestamp

def setTimestamp (h : RtpHeader) (aTimestamp : BitVec 32) : RtpHeader :=
  { h with timestamp := htonl aTimestamp }

def getSSRC (h : RtpHeader) : BitVec 32 := ntohl h.ssrc

def setSSRC (h : RtpHeader) (aSSRC : BitVec 32) : RtpHeader :=
  { h with ssrc := htonl aSSRC }

def getExtId (h : RtpHeader) : BitVec 16 := ntohs h.extensionpayload

def setExtId (h : RtpHeader) (extensionId : BitVec 16) : RtpHeader :=
  { h with extensionpayload := htons extensionId }

def getExtLength (h : RtpHeader) : BitVec 16 := ntohs h.extensionlength

def setExtLength (h : RtpHeader) (extensionLength : BitVec 16) : RtpHeader :=
  { h with extensionlength := htons extensionLength }

def getHeaderLength (h : RtpHeader) : Nat :=
  MIN_SIZE + h.cc.toNat * 4 + h.hasextension.toNat * (4 + (ntohs h.extensionlength).toNat * 4)

/-! ## The header in memory -/

/-- The first word. The member declared first has the lowest bits. -/
def flagsWord (h : RtpHeader) : BitVec 32 :=
  h.seqnum ++ h.marker ++ h.payloadtype ++ h.version ++ h.padding ++ h.hasextension ++ h.cc

def extensionWord (h : RtpHeader) : BitVec 32 := h.extensionlength ++ h.extensionpayload

/-- The bytes of the members, in the order of their addresses. -/
def image (h : RtpHeader) : List UInt8 :=
  wordBytes h.flagsWord ++ wordBytes h.timestamp ++ wordBytes h.ssrc ++ wordBytes h.extensionWord

/-- The header that `reinterpret_cast<RtpHeader*>` reads at address 0. -/
def ofBytes (m : Nat → UInt8) : RtpHeader :=
  let flags := wordAt m 0
  let extension := wordAt m 12
  { cc := flags.extractLsb' 0 4
    hasextension := flags.extractLsb' 4 1
    padding := flags.extractLsb' 5 1
    version := flags.extractLsb' 6 2
    payloadtype := flags.extractLsb' 8 7
    marker := flags.extractLsb' 15 1
    seqnum := flags.extractLsb' 16 16
    timestamp := wordAt m 4
    ssrc := wordAt m 8
    extensionpayload := extension.extractLsb' 0 16
    extensionlength := extension.extractLsb' 16 16 }

/-- The header over a block. `getHeaderLength` reads `extensionlength`, the
bytes 14 and 15, for every header, so the block must hold 16 bytes. -/
def overlay {size : Nat} (b : Block size UInt8) : Except Fault RtpHeader :=
  if 16 ≤ size then .ok (ofBytes b.cell) else .error .read

@[simp] theorem image_length (h : RtpHeader) : h.image.length = 16 := rfl

/-- With no CSRC and no extension the header is 12 bytes. -/
theorem getHeaderLength_fixed (h : RtpHeader) (h1 : h.cc = 0) (h2 : h.hasextension = 0) :
    h.getHeaderLength = 12 := by
  simp [getHeaderLength, MIN_SIZE, h1, h2]

theorem toNat_flagsWord (h : RtpHeader) :
    h.flagsWord.toNat = h.seqnum.toNat * 2 ^ 16 + h.marker.toNat * 2 ^ 15 +
      h.payloadtype.toNat * 2 ^ 8 + h.version.toNat * 2 ^ 6 + h.padding.toNat * 2 ^ 5 +
      h.hasextension.toNat * 2 ^ 4 + h.cc.toNat := by
  simp only [flagsWord, toNat_append]
  omega

/-- A bit-field read out of the first word. -/
theorem flagsWord_fields (h : RtpHeader) :
    h.flagsWord.extractLsb' 0 4 = h.cc ∧ h.flagsWord.extractLsb' 4 1 = h.hasextension ∧
      h.flagsWord.extractLsb' 5 1 = h.padding ∧ h.flagsWord.extractLsb' 6 2 = h.version ∧
      h.flagsWord.extractLsb' 8 7 = h.payloadtype ∧ h.flagsWord.extractLsb' 15 1 = h.marker ∧
      h.flagsWord.extractLsb' 16 16 = h.seqnum := by
  have hw := toNat_flagsWord h
  have h1 := h.cc.isLt
  have h2 := h.hasextension.isLt
  have h3 := h.padding.isLt
  have h4 := h.version.isLt
  have h5 := h.payloadtype.isLt
  have h6 := h.marker.isLt
  have h7 := h.seqnum.isLt
  refine ⟨?_, ?_, ?_, ?_, ?_, ?_, ?_⟩ <;> apply BitVec.eq_of_toNat_eq <;> rw [toNat_field] <;> omega

/-- Bytes that start with the first 12 bytes of a header hold its fixed
members. The extension members may be anything: they lie after it. -/
theorem ofBytes_image {m : Nat → UInt8} {h : RtpHeader}
    (hm : ∀ i < 12, m i = h.image.getD i 0) :
    ∃ p l, ofBytes m = { h with extensionpayload := p, extensionlength := l } := by
  have h0 : wordAt m 0 = h.flagsWord := wordAt_of_bytes (fun i hi => by
    rw [hm (0 + i) (by omega)]
    interval_cases i <;> rfl)
  have h4 : wordAt m 4 = h.timestamp := wordAt_of_bytes (fun i hi => by
    rw [hm (4 + i) (by omega)]
    interval_cases i <;> rfl)
  have h8 : wordAt m 8 = h.ssrc := wordAt_of_bytes (fun i hi => by
    rw [hm (8 + i) (by omega)]
    interval_cases i <;> rfl)
  obtain ⟨f1, f2, f3, f4, f5, f6, f7⟩ := flagsWord_fields h
  refine ⟨(wordAt m 12).extractLsb' 0 16, (wordAt m 12).extractLsb' 16 16, ?_⟩
  simp only [ofBytes, h0, h4, h8, f1, f2, f3, f4, f5, f6, f7]

end RtpHeader

/-! ## What RFC 3550 reads at the same bytes -/

/-- The fixed header of RFC 3550, section 5.1, as numbers. -/
structure FixedHeader where
  version : Nat
  padding : Nat
  extension : Nat
  csrcCount : Nat
  marker : Nat
  payloadType : Nat
  sequenceNumber : Nat
  timestamp : Nat
  ssrc : Nat
  deriving DecidableEq, Repr

/-- The fixed header at address 0, in network byte order. -/
def readFixedHeader (m : Nat → UInt8) : FixedHeader :=
  { version := (m 0).toNat / 64
    padding := (m 0).toNat / 32 % 2
    extension := (m 0).toNat / 16 % 2
    csrcCount := (m 0).toNat % 16
    marker := (m 1).toNat / 128
    payloadType := (m 1).toNat % 128
    sequenceNumber := (m 2).toNat * 256 + (m 3).toNat
    timestamp := (m 4).toNat * 2 ^ 24 + (m 5).toNat * 2 ^ 16 + (m 6).toNat * 2 ^ 8 + (m 7).toNat
    ssrc := (m 8).toNat * 2 ^ 24 + (m 9).toNat * 2 ^ 16 + (m 10).toNat * 2 ^ 8 + (m 11).toNat }

/-- The fixed header is in the first 12 bytes. -/
theorem readFixedHeader_congr {m m' : Nat → UInt8} (h : ∀ i < 12, m i = m' i) :
    readFixedHeader m = readFixedHeader m' := by
  simp only [readFixedHeader, h _ (by decide : 0 < 12), h _ (by decide : 1 < 12),
    h _ (by decide : 2 < 12), h _ (by decide : 3 < 12), h _ (by decide : 4 < 12),
    h _ (by decide : 5 < 12), h _ (by decide : 6 < 12), h _ (by decide : 7 < 12),
    h _ (by decide : 8 < 12), h _ (by decide : 9 < 12), h _ (by decide : 10 < 12),
    h _ (by decide : 11 < 12)]

/-- The same header, from the members of the class. -/
def RtpHeader.fixed (h : RtpHeader) : FixedHeader :=
  { version := h.version.toNat
    padding := h.padding.toNat
    extension := h.hasextension.toNat
    csrcCount := h.cc.toNat
    marker := h.marker.toNat
    payloadType := h.payloadtype.toNat
    sequenceNumber := (ntohs h.seqnum).toNat
    timestamp := (ntohl h.timestamp).toNat
    ssrc := (ntohl h.ssrc).toNat }

theorem ntohl_wordAt (m : Nat → UInt8) (p : Nat) :
    (ntohl (wordAt m p)).toNat = (m p).toNat * 2 ^ 24 + (m (p + 1)).toNat * 2 ^ 16 +
      (m (p + 2)).toNat * 2 ^ 8 + (m (p + 3)).toNat := by
  have h0 := (m p).toNat_lt
  have h1 := (m (p + 1)).toNat_lt
  have h2 := (m (p + 2)).toNat_lt
  have h3 := (m (p + 3)).toNat_lt
  have hw := toNat_wordAt m p
  rw [toNat_ntohl]
  omega

/-- The members of the class are the fields of RFC 3550, for all bytes. -/
theorem fixed_ofBytes (m : Nat → UInt8) : (RtpHeader.ofBytes m).fixed = readFixedHeader m := by
  have h0 := (m 0).toNat_lt
  have h1 := (m 1).toNat_lt
  have h2 := (m 2).toNat_lt
  have h3 := (m 3).toNat_lt
  have hw := toNat_wordAt m 0
  simp only [Nat.zero_add] at hw
  simp only [RtpHeader.fixed, RtpHeader.ofBytes, readFixedHeader, toNat_ntohs, toNat_field,
    ntohl_wordAt, hw, FixedHeader.mk.injEq, and_true]
  refine ⟨?_, ?_, ?_, ?_, ?_, ?_, ?_⟩ <;> omega

/-- With no CSRC and no extension in byte 0 the header is 12 bytes. -/
theorem getHeaderLength_plain {m : Nat → UInt8} (h1 : (readFixedHeader m).csrcCount = 0)
    (h2 : (readFixedHeader m).extension = 0) : (RtpHeader.ofBytes m).getHeaderLength = 12 := by
  rw [← fixed_ofBytes] at h1 h2
  exact RtpHeader.getHeaderLength_fixed _ (BitVec.eq_of_toNat_eq h1) (BitVec.eq_of_toNat_eq h2)

/-- `getHeaderLength` over bytes: the CSRC count and the X bit of byte 0, and
the length word at the bytes 14 and 15. -/
theorem getHeaderLength_ofBytes (m : Nat → UInt8) :
    (RtpHeader.ofBytes m).getHeaderLength = 12 + 4 * ((m 0).toNat % 16) +
      (m 0).toNat / 16 % 2 * (4 + 4 * ((m 14).toNat * 256 + (m 15).toNat)) := by
  have h0 := (m 0).toNat_lt
  have h1 := (m 1).toNat_lt
  have h2 := (m 2).toNat_lt
  have h12 := (m 12).toNat_lt
  have h13 := (m 13).toNat_lt
  have h14 := (m 14).toNat_lt
  have h15 := (m 15).toNat_lt
  have hw := toNat_wordAt m 0
  have hx := toNat_wordAt m 12
  simp only [Nat.zero_add, Nat.reduceAdd] at hw hx
  have hcc : (wordAt m 0).toNat % 16 = (m 0).toNat % 16 := by omega
  have hext : (wordAt m 0).toNat / 16 % 2 = (m 0).toNat / 16 % 2 := by omega
  have hlen : (wordAt m 12).toNat / 2 ^ 16 % 2 ^ 16 = (m 15).toNat * 256 + (m 14).toNat := by omega
  have hswap : ((m 15).toNat * 256 + (m 14).toNat) % 2 ^ 8 * 2 ^ 8 +
      ((m 15).toNat * 256 + (m 14).toNat) / 2 ^ 8 % 2 ^ 8 =
      (m 14).toNat * 256 + (m 15).toNat := by omega
  simp only [RtpHeader.getHeaderLength, RtpHeader.MIN_SIZE, RtpHeader.ofBytes, toNat_ntohs,
    toNat_field, hlen, hswap]
  rw [show (2 : Nat) ^ 4 = 16 from rfl, Nat.pow_zero, Nat.div_one, Nat.pow_one, hcc, hext]
  ring

end payloader.rtp_headers
