-- The RTCP header of RtpHeaders.h. Its report is a union: the bytes are there
-- once, and each member of the union is a way to read and to write them.
import Payloader.ByteOrder

set_option autoImplicit false

namespace payloader.rtcp_headers

open payloader.memory payloader.byte_order

def RTCP_Sender_PT : BitVec 8 := 200
def RTCP_Receiver_PT : BitVec 8 := 201
def RTCP_APP : BitVec 8 := 204
def RTCP_RTP_Feedback_PT : BitVec 8 := 205
def RTCP_PS_Feedback_PT : BitVec 8 := 206

/-! ## The members of the union -/

/-- `receiverReport_t`. The member `lost` has a sign. -/
structure ReceiverReport where
  ssrcsource : BitVec 32
  fractionlost : BitVec 8
  lost : BitVec 24
  seqnumcycles : BitVec 16
  highestseqnum : BitVec 16
  jitter : BitVec 32
  lastsr : BitVec 32
  delaysincelast : BitVec 32
  deriving DecidableEq, Repr

namespace ReceiverReport

def words (r : ReceiverReport) : List (BitVec 32) :=
  [r.ssrcsource, r.lost ++ r.fractionlost, r.highestseqnum ++ r.seqnumcycles, r.jitter, r.lastsr,
    r.delaysincelast]

def ofBytes (m : Nat → UInt8) : ReceiverReport :=
  { ssrcsource := wordAt m 0
    fractionlost := (wordAt m 4).extractLsb' 0 8
    lost := (wordAt m 4).extractLsb' 8 24
    seqnumcycles := (wordAt m 8).extractLsb' 0 16
    highestseqnum := (wordAt m 8).extractLsb' 16 16
    jitter := wordAt m 12
    lastsr := wordAt m 16
    delaysincelast := wordAt m 20 }

end ReceiverReport

/-- `senderReport_t`. No accessor looks at the receiver reports behind it. -/
structure SenderReport where
  ntptimestamp : BitVec 64
  rtprts : BitVec 32
  packetsent : BitVec 32
  octetssent : BitVec 32
  deriving DecidableEq, Repr

namespace SenderReport

/-- The low half of the timestamp comes first. -/
def words (r : SenderReport) : List (BitVec 32) :=
  [r.ntptimestamp.extractLsb' 0 32, r.ntptimestamp.extractLsb' 32 32, r.rtprts, r.packetsent,
    r.octetssent]

def ofBytes (m : Nat → UInt8) : SenderReport :=
  { ntptimestamp := wordAt m 4 ++ wordAt m 0
    rtprts := wordAt m 8
    packetsent := wordAt m 12
    octetssent := wordAt m 16 }

end SenderReport

/-- `genericNack_t`. -/
structure GenericNack where
  ssrcsource : BitVec 32
  pid : BitVec 16
  blp : BitVec 16
  deriving DecidableEq, Repr

namespace GenericNack

def words (r : GenericNack) : List (BitVec 32) := [r.ssrcsource, r.blp ++ r.pid]

def ofBytes (m : Nat → UInt8) : GenericNack :=
  { ssrcsource := wordAt m 0
    pid := (wordAt m 4).extractLsb' 0 16
    blp := (wordAt m 4).extractLsb' 16 16 }

end GenericNack

/-- `pli_t`. -/
structure Pli where
  ssrcsource : BitVec 32
  fci : BitVec 32
  deriving DecidableEq, Repr

namespace Pli

def words (r : Pli) : List (BitVec 32) := [r.ssrcsource, r.fci]

def ofBytes (m : Nat → UInt8) : Pli := { ssrcsource := wordAt m 0, fci := wordAt m 4 }

end Pli

/-- `remb_t`. -/
structure Remb where
  ssrcsource : BitVec 32
  uniqueid : BitVec 32
  numssrc : BitVec 8
  brLength : BitVec 24
  ssrcfeedb : BitVec 32
  deriving DecidableEq, Repr

namespace Remb

def words (r : Remb) : List (BitVec 32) :=
  [r.ssrcsource, r.uniqueid, r.brLength ++ r.numssrc, r.ssrcfeedb]

def ofBytes (m : Nat → UInt8) : Remb :=
  { ssrcsource := wordAt m 0
    uniqueid := wordAt m 4
    numssrc := (wordAt m 8).extractLsb' 0 8
    brLength := (wordAt m 8).extractLsb' 8 24
    ssrcfeedb := wordAt m 12 }

end Remb

/-! ## The class -/

/-- The largest member of the union, `senderReport_t`, takes 44 bytes, and its
64-bit member brings it to 48. -/
def REPORT_SIZE : Nat := 48

structure RtcpHeader where
  blockcount : BitVec 5
  padding : BitVec 1
  version : BitVec 2
  packettype : BitVec 8
  length : BitVec 16
  ssrc : BitVec 32
  report : Block REPORT_SIZE UInt8

namespace RtcpHeader

/-- The constructor. The report holds what the memory held. -/
def init (report : Block REPORT_SIZE UInt8) : RtcpHeader :=
  { blockcount := 0, padding := 0, version := 2, packettype := 0, length := 0, ssrc := 0, report }

def receiverReport (h : RtcpHeader) : ReceiverReport := ReceiverReport.ofBytes h.report.cell

def rembPacket (h : RtcpHeader) : Remb := Remb.ofBytes h.report.cell

def senderReport (h : RtcpHeader) : SenderReport := SenderReport.ofBytes h.report.cell

def nackPacket (h : RtcpHeader) : GenericNack := GenericNack.ofBytes h.report.cell

def pli (h : RtcpHeader) : Pli := Pli.ofBytes h.report.cell

/-- A write to members of `report.receiverReport`. -/
def putReceiverReport (h : RtcpHeader) (r : ReceiverReport) : RtcpHeader :=
  { h with report := h.report.put 0 (wordsImage r.words) }

/-- A write to members of `report.rembPacket`. -/
def putRemb (h : RtcpHeader) (r : Remb) : RtcpHeader :=
  { h with report := h.report.put 0 (wordsImage r.words) }

/-- A write to members of `report.senderReport`. -/
def putSenderReport (h : RtcpHeader) (r : SenderReport) : RtcpHeader :=
  { h with report := h.report.put 0 (wordsImage r.words) }

/-- A write to members of `report.nackPacket`. -/
def putNack (h : RtcpHeader) (r : GenericNack) : RtcpHeader :=
  { h with report := h.report.put 0 (wordsImage r.words) }

/-- A write to members of `report.pli`. -/
def putPli (h : RtcpHeader) (r : Pli) : RtcpHeader :=
  { h with report := h.report.put 0 (wordsImage r.words) }

def isFeedback (h : RtcpHeader) : Bool :=
  h.packettype == RTCP_Receiver_PT || h.packettype == RTCP_PS_Feedback_PT ||
    h.packettype == RTCP_RTP_Feedback_PT

def isRtcp (h : RtcpHeader) : Bool :=
  h.packettype == RTCP_Sender_PT || h.packettype == RTCP_APP || h.isFeedback

/-- The packet types 200 to 206 count as RTCP, but for SDES and BYE. -/
theorem isRtcp_iff (h : RtcpHeader) : h.isRtcp = true ↔
    200 ≤ h.packettype ∧ h.packettype ≤ 206 ∧ h.packettype ≠ 202 ∧ h.packettype ≠ 203 := by
  unfold isRtcp isFeedback
  generalize h.packettype = pt
  revert pt
  decide

def getPacketType (h : RtcpHeader) : BitVec 8 := h.packettype

def setPacketType (h : RtcpHeader) (pt : BitVec 8) : RtcpHeader := { h with packettype := pt }

def getBlockCount (h : RtcpHeader) : BitVec 8 := h.blockcount.setWidth 8

def setBlockCount (h : RtcpHeader) (count : BitVec 8) : RtcpHeader :=
  { h with blockcount := count.setWidth 5 }

def getLength (h : RtcpHeader) : BitVec 16 := ntohs h.length

def setLength (h : RtcpHeader) (theLength : BitVec 16) : RtcpHeader :=
  { h with length := htons theLength }

def getSSRC (h : RtcpHeader) : BitVec 32 := ntohl h.ssrc

def setSSRC (h : RtcpHeader) (aSsrc : BitVec 32) : RtcpHeader := { h with ssrc := htonl aSsrc }

/-! ### The receiver report -/

def getSourceSSRC (h : RtcpHeader) : BitVec 32 := ntohl h.receiverReport.ssrcsource

def setSourceSSRC (h : RtcpHeader) (sourceSsrc : BitVec 32) : RtcpHeader :=
  h.putReceiverReport { h.receiverReport with ssrcsource := htonl sourceSsrc }

def getFractionLost (h : RtcpHeader) : BitVec 8 := h.receiverReport.fractionlost

def setFractionLost (h : RtcpHeader) (fractionLost : BitVec 8) : RtcpHeader :=
  h.putReceiverReport { h.receiverReport with fractionlost := fractionLost }

/-- The sign of `lost` is extended before the bytes are swapped. -/
def getLostPackets (h : RtcpHeader) : BitVec 32 :=
  ntohl (h.receiverReport.lost.signExtend 32) >>> 8

def setLostPackets (h : RtcpHeader) (lost : BitVec 32) : RtcpHeader :=
  h.putReceiverReport { h.receiverReport with lost := (htonl lost >>> 8).setWidth 24 }

def getSeqnumCycles (h : RtcpHeader) : BitVec 16 := ntohs h.receiverReport.seqnumcycles

def setSeqnumCycles (h : RtcpHeader) (seqnumcycles : BitVec 16) : RtcpHeader :=
  h.putReceiverReport { h.receiverReport with seqnumcycles := htons seqnumcycles }

def getHighestSeqnum (h : RtcpHeader) : BitVec 16 := ntohs h.receiverReport.highestseqnum

def setHighestSeqnum (h : RtcpHeader) (highest : BitVec 16) : RtcpHeader :=
  h.putReceiverReport { h.receiverReport with highestseqnum := htons highest }

def getJitter (h : RtcpHeader) : BitVec 32 := ntohl h.receiverReport.jitter

def setJitter (h : RtcpHeader) (jitter : BitVec 32) : RtcpHeader :=
  h.putReceiverReport { h.receiverReport with jitter := htonl jitter }

def getLastSr (h : RtcpHeader) : BitVec 32 := ntohl h.receiverReport.lastsr

def setLastSr (h : RtcpHeader) (lastsr : BitVec 32) : RtcpHeader :=
  h.putReceiverReport { h.receiverReport with lastsr := htonl lastsr }

def getDelaySinceLastSr (h : RtcpHeader) : BitVec 32 := ntohl h.receiverReport.delaysincelast

def setDelaySinceLastSr (h : RtcpHeader) (delaylastsr : BitVec 32) : RtcpHeader :=
  h.putReceiverReport { h.receiverReport with delaysincelast := htonl delaylastsr }

/-! ### The sender report -/

def getPacketsSent (h : RtcpHeader) : BitVec 32 := ntohl h.senderReport.packetsent

def setPacketsSent (h : RtcpHeader) (packetssent : BitVec 32) : RtcpHeader :=
  h.putSenderReport { h.senderReport with packetsent := htonl packetssent }

def getOctetsSent (h : RtcpHeader) : BitVec 32 := ntohl h.senderReport.octetssent

/-- `htonl` cuts its argument to the low half. -/
def getNtpTimestamp (h : RtcpHeader) : BitVec 64 :=
  ((htonl (h.senderReport.ntptimestamp.setWidth 32)).setWidth 64 <<< 32) +
    (htonl ((h.senderReport.ntptimestamp >>> 32).setWidth 32)).setWidth 64

/-! ### The NACK and PLI packets -/

def getNackPid (h : RtcpHeader) : BitVec 16 := ntohs h.nackPacket.pid

def setNackPid (h : RtcpHeader) (pid : BitVec 16) : RtcpHeader :=
  h.putNack { h.nackPacket with pid := htons pid }

/-- The bytes of `blp` are not swapped. -/
def getNackBlp (h : RtcpHeader) : BitVec 16 := h.nackPacket.blp

def setNackBlp (h : RtcpHeader) (blp : BitVec 16) : RtcpHeader :=
  h.putNack { h.nackPacket with blp := blp }

def getFCI (h : RtcpHeader) : BitVec 32 := ntohl h.pli.fci

def setFCI (h : RtcpHeader) (fci : BitVec 32) : RtcpHeader :=
  h.putPli { h.pli with fci := htonl fci }

/-! ### The bit rate of a REMB packet -/

/-- `value << n` and `value >> n`. A shift by the width of the type or more is
undefined. -/
def shl {w : Nat} (value : BitVec w) (n : Nat) : Option (BitVec w) :=
  if n < w then some (value <<< n) else none

def shr {w : Nat} (value : BitVec w) (n : Nat) : Option (BitVec w) :=
  if n < w then some (value >>> n) else none

/-- `while (bitRate >= max && exp < 64)`. Gives the last value of `exp`. -/
def rateExponent (bitRate max : BitVec 64) (exp : Nat) : Nat :=
  if max ≤ bitRate ∧ exp < 64 then rateExponent bitRate (max <<< 1) (exp + 1) else exp
termination_by 64 - exp
decreasing_by omega

def setREMBBitRate (h : RtcpHeader) (bitRate : BitVec 64) : Option RtcpHeader := do
  let exp := rateExponent bitRate 0x3FFFF 0
  let mantissa ← shr bitRate exp
  let exp : BitVec 32 := BitVec.ofNat 32 exp &&& 0x3F
  let mantissa := mantissa &&& 0x3FFFF
  let line : BitVec 32 := (mantissa + (exp <<< 18).setWidth 64).setWidth 32
  some (h.putRemb { h.rembPacket with brLength := (htonl line >>> 8).setWidth 24 })

/-- The eight low bits that `ntohl` adds and the mantissa go. -/
def getBrExp (h : RtcpHeader) : BitVec 32 := ntohl (h.rembPacket.brLength.setWidth 32) >>> 26

def getBrMantis (h : RtcpHeader) : BitVec 32 :=
  ntohl (h.rembPacket.brLength.setWidth 32) >>> 8 &&& 0x3ffff

/-- Both operands of the shift are 32 bits wide. -/
def getREMBBitRate (h : RtcpHeader) : Option (BitVec 64) :=
  (shl h.getBrMantis h.getBrExp.toNat).map (·.setWidth 64)

def getREMBNumSSRC (h : RtcpHeader) : BitVec 8 := h.rembPacket.numssrc

def setREMBNumSSRC (h : RtcpHeader) (num : BitVec 8) : RtcpHeader :=
  h.putRemb { h.rembPacket with numssrc := num }

def getREMBFeedSSRC (h : RtcpHeader) : BitVec 32 := ntohl h.rembPacket.ssrcfeedb

def setREMBFeedSSRC (h : RtcpHeader) (ssrc : BitVec 32) : RtcpHeader :=
  h.putRemb { h.rembPacket with ssrcfeedb := htonl ssrc }

/-! ## The header in memory -/

/-- The first word. The member declared first has the lowest bits. -/
def flagsWord (h : RtcpHeader) : BitVec 32 :=
  h.length ++ h.packettype ++ h.version ++ h.padding ++ h.blockcount

def image (h : RtcpHeader) : List UInt8 :=
  wordsImage [h.flagsWord, h.ssrc] ++ h.report.slice 0 REPORT_SIZE

/-- The header that `reinterpret_cast<RtcpHeader*>` reads at address 0. -/
def ofBytes (m : Nat → UInt8) : RtcpHeader :=
  let flags := wordAt m 0
  { blockcount := flags.extractLsb' 0 5
    padding := flags.extractLsb' 5 1
    version := flags.extractLsb' 6 2
    packettype := flags.extractLsb' 8 8
    length := flags.extractLsb' 16 16
    ssrc := wordAt m 4
    report := { cell := fun i => m (8 + i) } }

theorem toNat_flagsWord (h : RtcpHeader) :
    h.flagsWord.toNat = h.length.toNat * 2 ^ 16 + h.packettype.toNat * 2 ^ 8 +
      h.version.toNat * 2 ^ 6 + h.padding.toNat * 2 ^ 5 + h.blockcount.toNat := by
  simp only [flagsWord, toNat_append]
  omega

/-- A word of the report, right after the bytes of some words were written to it. -/
theorem word_put (b : Block REPORT_SIZE UInt8) {ws : List (BitVec 32)} {k : Nat} {w : BitVec 32}
    (hk : ws[k]? = some w) : wordAt (b.put 0 (wordsImage ws)).cell (0 + 4 * k) = w := by
  refine wordAt_of_image (fun i hi => ?_) hk
  have hlt : i < (wordsImage ws).length := by rwa [wordsImage_length]
  rw [put_cell_inside b 0 i _ hlt, List.getD_eq_getElem _ _ hlt]

/-- What is written to a member of the union is read back from it. -/
@[simp] theorem receiverReport_put (h : RtcpHeader) (r : ReceiverReport) :
    (h.putReceiverReport r).receiverReport = r := by
  have hword : ∀ k w, r.words[k]? = some w →
      wordAt (h.putReceiverReport r).report.cell (0 + 4 * k) = w :=
    fun k w hk => word_put h.report hk
  have h0 : wordAt (h.putReceiverReport r).report.cell 0 = _ := hword 0 _ rfl
  have h1 : wordAt (h.putReceiverReport r).report.cell 4 = _ := hword 1 _ rfl
  have h2 : wordAt (h.putReceiverReport r).report.cell 8 = _ := hword 2 _ rfl
  have h3 : wordAt (h.putReceiverReport r).report.cell 12 = _ := hword 3 _ rfl
  have h4 : wordAt (h.putReceiverReport r).report.cell 16 = _ := hword 4 _ rfl
  have h5 : wordAt (h.putReceiverReport r).report.cell 20 = _ := hword 5 _ rfl
  obtain ⟨hfraction, hlost⟩ := extract_append r.lost r.fractionlost
  obtain ⟨hcycles, hhighest⟩ := extract_append r.highestseqnum r.seqnumcycles
  unfold receiverReport ReceiverReport.ofBytes
  rw [h0, h1, h2, h3, h4, h5, hfraction, hlost, hcycles, hhighest]

@[simp] theorem rembPacket_put (h : RtcpHeader) (r : Remb) : (h.putRemb r).rembPacket = r := by
  have hword : ∀ k w, r.words[k]? = some w →
      wordAt (h.putRemb r).report.cell (0 + 4 * k) = w := fun k w hk => word_put h.report hk
  have h0 : wordAt (h.putRemb r).report.cell 0 = _ := hword 0 _ rfl
  have h1 : wordAt (h.putRemb r).report.cell 4 = _ := hword 1 _ rfl
  have h2 : wordAt (h.putRemb r).report.cell 8 = _ := hword 2 _ rfl
  have h3 : wordAt (h.putRemb r).report.cell 12 = _ := hword 3 _ rfl
  obtain ⟨hnum, hlength⟩ := extract_append r.brLength r.numssrc
  unfold rembPacket Remb.ofBytes
  rw [h0, h1, h2, h3, hnum, hlength]

end RtcpHeader

end payloader.rtcp_headers
