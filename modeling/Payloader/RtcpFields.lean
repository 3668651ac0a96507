-- The receiver report of the class `RtcpHeader`. Its accessor pairs are registers
-- of their own, although they share the words of a union, and the image of the
-- object is the receiver report of RFC 3550 with one block.
import Payloader.Registers
import Payloader.RtcpHeaders
import Payloader.RtpPackets

set_option autoImplicit false

namespace payloader.rtcp_fields

open payloader.memory payloader.byte_order payloader.registers payloader.rtcp_headers
open payloader.rtp_packets

/-! ## The accessor pairs -/

inductive Field
  | packetType
  | blockCount
  | length
  | ssrc
  | sourceSSRC
  | fractionLost
  | lostPackets
  | seqnumCycles
  | highestSeqnum
  | jitter
  | lastSr
  | delaySinceLastSr
  deriving DecidableEq, Repr

/-- The bits of a member. -/
def Field.width : Field → Nat
  | .packetType => 8
  | .blockCount => 5
  | .length => 16
  | .ssrc => 32
  | .sourceSSRC => 32
  | .fractionLost => 8
  | .lostPackets => 24
  | .seqnumCycles => 16
  | .highestSeqnum => 16
  | .jitter => 32
  | .lastSr => 32
  | .delaySinceLastSr => 32

/-- A setter call. C cuts the argument to the type of the parameter. -/
def set (f : Field) (v : BitVec 32) (h : RtcpHeader) : RtcpHeader :=
  match f with
  | .packetType => h.setPacketType (v.setWidth 8)
  | .blockCount => h.setBlockCount (v.setWidth 8)
  | .length => h.setLength (v.setWidth 16)
  | .ssrc => h.setSSRC v
  | .sourceSSRC => h.setSourceSSRC v
  | .fractionLost => h.setFractionLost (v.setWidth 8)
  | .lostPackets => h.setLostPackets v
  | .seqnumCycles => h.setSeqnumCycles (v.setWidth 16)
  | .highestSeqnum => h.setHighestSeqnum (v.setWidth 16)
  | .jitter => h.setJitter v
  | .lastSr => h.setLastSr v
  | .delaySinceLastSr => h.setDelaySinceLastSr v

def get (f : Field) (h : RtcpHeader) : Nat :=
  match f with
  | .packetType => h.getPacketType.toNat
  | .blockCount => h.getBlockCount.toNat
  | .length => h.getLength.toNat
  | .ssrc => h.getSSRC.toNat
  | .sourceSSRC => h.getSourceSSRC.toNat
  | .fractionLost => h.getFractionLost.toNat
  | .lostPackets => h.getLostPackets.toNat
  | .seqnumCycles => h.getSeqnumCycles.toNat
  | .highestSeqnum => h.getHighestSeqnum.toNat
  | .jitter => h.getJitter.toNat
  | .lastSr => h.getLastSr.toNat
  | .delaySinceLastSr => h.getDelaySinceLastSr.toNat

/-- What a member keeps of a value. -/
def keep (f : Field) (v : BitVec 32) : Nat := v.toNat % 2 ^ f.width

/-- The bytes that `ntohl` takes from the sign are shifted out again. -/
theorem getLostPackets_eq (h : RtcpHeader) :
    h.getLostPackets.toNat = (swap24 h.receiverReport.lost).toNat := by
  unfold RtcpHeader.getLostPackets
  rw [ntohl_shift, setWidth_signExtend]
  exact BitVec.toNat_setWidth_of_le (by decide)

/-- What a getter makes of the report, when it looks at it. -/
def inReport (f : Field) (r : ReceiverReport) : Option Nat :=
  match f with
  | .sourceSSRC => some (ntohl r.ssrcsource).toNat
  | .fractionLost => some r.fractionlost.toNat
  | .lostPackets => some (swap24 r.lost).toNat
  | .seqnumCycles => some (ntohs r.seqnumcycles).toNat
  | .highestSeqnum => some (ntohs r.highestseqnum).toNat
  | .jitter => some (ntohl r.jitter).toNat
  | .lastSr => some (ntohl r.lastsr).toNat
  | .delaySinceLastSr => some (ntohl r.delaysincelast).toNat
  | _ => none

/-- A getter looks at the report, or at the first two words. -/
theorem get_put (f : Field) (h : RtcpHeader) (r : ReceiverReport) :
    get f (h.putReceiverReport r) = (inReport f r).getD (get f h) := by
  have hread : ∀ {α : Type} (a : ReceiverReport → α),
      a (h.putReceiverReport r).receiverReport = a r := by
    intro α a
    rw [RtcpHeader.receiverReport_put]
  cases f with
  | packetType => rfl
  | blockCount => rfl
  | length => rfl
  | ssrc => rfl
  | sourceSSRC => exact hread (fun r => (ntohl r.ssrcsource).toNat)
  | fractionLost => exact hread (fun r => r.fractionlost.toNat)
  | lostPackets => exact (getLostPackets_eq _).trans (hread (fun r => (swap24 r.lost).toNat))
  | seqnumCycles => exact hread (fun r => (ntohs r.seqnumcycles).toNat)
  | highestSeqnum => exact hread (fun r => (ntohs r.highestseqnum).toNat)
  | jitter => exact hread (fun r => (ntohl r.jitter).toNat)
  | lastSr => exact hread (fun r => (ntohl r.lastsr).toNat)
  | delaySinceLastSr => exact hread (fun r => (ntohl r.delaysincelast).toNat)

theorem get_report (f : Field) (h : RtcpHeader) :
    get f h = (inReport f h.receiverReport).getD (get f h) := by
  cases f with
  | lostPackets => exact getLostPackets_eq h
  | _ => rfl

theorem get_set (f : Field) (v : BitVec 32) (h : RtcpHeader) : get f (set f v h) = keep f v := by
  cases f with
  | packetType => exact BitVec.toNat_setWidth 8 v
  | blockCount => exact toNat_cut v (by decide) (by decide)
  | length => exact toNat_half v
  | ssrc => exact toNat_word v
  | sourceSSRC => exact (get_put _ h _).trans (toNat_word v)
  | fractionLost => exact (get_put _ h _).trans (BitVec.toNat_setWidth 8 v)
  | lostPackets =>
    apply (get_put _ h _).trans
    change (swap24 ((htonl v >>> 8).setWidth 24)).toNat = _
    rw [htonl_shift, swap24_swap24]
    exact BitVec.toNat_setWidth 24 v
  | seqnumCycles => exact (get_put _ h _).trans (toNat_half v)
  | highestSeqnum => exact (get_put _ h _).trans (toNat_half v)
  | jitter => exact (get_put _ h _).trans (toNat_word v)
  | lastSr => exact (get_put _ h _).trans (toNat_word v)
  | delaySinceLastSr => exact (get_put _ h _).trans (toNat_word v)

/-- A write to one member of the report, seen by the getter of another. -/
theorem get_put_other {g : Field} {h : RtcpHeader} {r : ReceiverReport}
    (hr : inReport g r = inReport g h.receiverReport) :
    get g (h.putReceiverReport r) = get g h := by
  rw [get_put, hr, ← get_report]

theorem get_set_other (f g : Field) (v : BitVec 32) (h : RtcpHeader) (hne : g ≠ f) :
    get g (set f v h) = get g h := by
  cases f with
  | packetType => cases g <;> first | exact absurd rfl hne | rfl
  | blockCount => cases g <;> first | exact absurd rfl hne | rfl
  | length => cases g <;> first | exact absurd rfl hne | rfl
  | ssrc => cases g <;> first | exact absurd rfl hne | rfl
  | _ =>
    apply get_put_other
    generalize h.receiverReport = r
    cases g <;> first | exact absurd rfl hne | rfl

theorem fields_independent : Independent get set keep := ⟨get_set, get_set_other⟩

/-! ## The image -/

/-- A receiver report with one block, as numbers. The highest sequence number
is extended by the cycles. -/
structure RfcReport where
  padding : Nat
  count : Nat
  packetType : Nat
  length : Nat
  ssrc : Nat
  source : Nat
  fractionLost : Nat
  cumulativeLost : Nat
  extendedHighest : Nat
  jitter : Nat
  lastSR : Nat
  delaySinceLastSR : Nat
  deriving DecidableEq, Repr

/-- The 32 bytes of the report, in network byte order. -/
def RfcReport.bytes (r : RfcReport) : List UInt8 :=
  netBytes 1 (64 * 2 + 32 * r.padding + r.count) ++ netBytes 1 r.packetType ++
    netBytes 2 r.length ++ netBytes 4 r.ssrc ++ netBytes 4 r.source ++
    (netBytes 1 r.fractionLost ++ netBytes 3 r.cumulativeLost) ++
    netBytes 4 r.extendedHighest ++ netBytes 4 r.jitter ++ netBytes 4 r.lastSR ++
    netBytes 4 r.delaySinceLastSR

/-- The report of some values, one for each accessor pair. -/
def reportOf (value : Field → Nat) : RfcReport :=
  { padding := 0
    count := value .blockCount
    packetType := value .packetType
    length := value .length
    ssrc := value .ssrc
    source := value .sourceSSRC
    fractionLost := value .fractionLost
    cumulativeLost := value .lostPackets
    extendedHighest := value .seqnumCycles * 2 ^ 16 + value .highestSeqnum
    jitter := value .jitter
    lastSR := value .lastSr
    delaySinceLastSR := value .delaySinceLastSr }

theorem flagsWord_net (h : RtcpHeader) : wordBytes h.flagsWord =
    netBytes 1 (64 * h.version.toNat + 32 * h.padding.toNat + h.blockcount.toNat) ++
      netBytes 1 h.packettype.toNat ++ netBytes 2 (ntohs h.length).toNat := by
  have h1 := h.blockcount.isLt
  have h2 := h.padding.isLt
  have h3 := h.version.isLt
  have h4 := h.packettype.isLt
  have h5 := h.length.isLt
  have hflags : (ntohl h.flagsWord).toNat =
      (64 * h.version.toNat + 32 * h.padding.toNat + h.blockcount.toNat) * 2 ^ 24 +
        h.packettype.toNat * 2 ^ 16 + (ntohs h.length).toNat := by
    rw [toNat_ntohl, toNat_ntohs, RtcpHeader.toNat_flagsWord]
    omega
  rw [wordBytes_eq, hflags, netBytes_parts _ _ _ h4 (ntohs h.length).isLt]

theorem lostWord_net (r : ReceiverReport) : wordBytes (r.lost ++ r.fractionlost) =
    netBytes 1 r.fractionlost.toNat ++ netBytes 3 (swap24 r.lost).toNat := by
  have h1 := r.fractionlost.isLt
  have h2 := r.lost.isLt
  have hword : (ntohl (r.lost ++ r.fractionlost)).toNat =
      r.fractionlost.toNat * 2 ^ 24 + (swap24 r.lost).toNat := by
    rw [toNat_ntohl, toNat_swap24, toNat_append]
    omega
  rw [wordBytes_eq, hword, netBytes_byte _ _ (swap24 r.lost).isLt]

theorem highestWord_net (r : ReceiverReport) : wordBytes (r.highestseqnum ++ r.seqnumcycles) =
    netBytes 4 ((ntohs r.seqnumcycles).toNat * 2 ^ 16 + (ntohs r.highestseqnum).toNat) := by
  have h1 := r.seqnumcycles.isLt
  have h2 := r.highestseqnum.isLt
  have hword : (ntohl (r.highestseqnum ++ r.seqnumcycles)).toNat =
      (ntohs r.seqnumcycles).toNat * 2 ^ 16 + (ntohs r.highestseqnum).toNat := by
    rw [toNat_ntohl, toNat_ntohs, toNat_ntohs, toNat_append]
    omega
  rw [wordBytes_eq, hword]

/-- The first 24 bytes of the union are the words of the report. -/
theorem slice_receiverReport (h : RtcpHeader) :
    h.report.slice 0 24 = wordsImage h.receiverReport.words := by
  have hlost := append_extract (v := 24) (w := 8) (wordAt h.report.cell 4)
  have hhighest := append_extract (v := 16) (w := 16) (wordAt h.report.cell 8)
  unfold RtcpHeader.receiverReport ReceiverReport.ofBytes ReceiverReport.words
  simp only [hlost, hhighest, wordsImage_cons, wordBytes_wordAt]
  rfl

/-- The image starts with the report of the values that the getters give. -/
theorem image_report (h : RtcpHeader) (hversion : h.version = 2) (hpadding : h.padding = 0) :
    h.image.take 32 = (reportOf (fun f => get f h)).bytes := by
  have htake : h.image.take 32 = wordsImage [h.flagsWord, h.ssrc] ++ h.report.slice 0 24 := by
    have hslice : h.report.slice 0 REPORT_SIZE = h.report.slice 0 24 ++ h.report.slice 24 24 :=
      slice_append h.report 0 24 24
    have hlen : (wordsImage [h.flagsWord, h.ssrc] ++ h.report.slice 0 24).length = 32 := by
      rw [List.length_append, wordsImage_length, slice_length]
      rfl
    unfold RtcpHeader.image
    rw [hslice, ← List.append_assoc]
    exact List.take_left' hlen
  have hcount : h.getBlockCount.toNat = h.blockcount.toNat :=
    BitVec.toNat_setWidth_of_le (by decide)
  have htwo : 64 * (2 : BitVec 2).toNat + 32 * (0 : BitVec 1).toNat = 64 * 2 + 32 * 0 := rfl
  rw [htake, slice_receiverReport]
  unfold ReceiverReport.words reportOf RfcReport.bytes get RtcpHeader.getPacketType
    RtcpHeader.getLength RtcpHeader.getSSRC RtcpHeader.getSourceSSRC RtcpHeader.getFractionLost
    RtcpHeader.getSeqnumCycles RtcpHeader.getHighestSeqnum RtcpHeader.getJitter
    RtcpHeader.getLastSr RtcpHeader.getDelaySinceLastSr
  simp only [wordsImage_cons, flagsWord_net, lostWord_net, highestWord_net]
  simp only [wordBytes_eq, hversion, hpadding, htwo, hcount, getLostPackets_eq, wordsImage_nil,
    List.append_assoc, List.append_nil]

/-! ## Runs of setters -/

/-- What a run of setters has put in a member of a new header, over what the
memory held. -/
def valueOf (report : Block REPORT_SIZE UInt8) (calls : List (Field × BitVec 32)) (f : Field) :
    Nat := ((lastValue f calls).map (keep f)).getD (get f (RtcpHeader.init report))

theorem get_calls (report : Block REPORT_SIZE UInt8) (calls : List (Field × BitVec 32))
    (f : Field) : get f (setAll set calls (RtcpHeader.init report)) = valueOf report calls f :=
  fields_independent.get_setAll f calls _

/-- No setter changes the version or the padding bit. -/
theorem version_calls (report : Block REPORT_SIZE UInt8) (calls : List (Field × BitVec 32)) :
    (setAll set calls (RtcpHeader.init report)).version = 2 ∧
      (setAll set calls (RtcpHeader.init report)).padding = 0 :=
  ⟨setAll_kept (fun h : RtcpHeader => h.version) (fun f v h => by cases f <;> rfl) calls _,
    setAll_kept (fun h : RtcpHeader => h.padding) (fun f v h => by cases f <;> rfl) calls _⟩

/-- Each getter gives what the last call of its setter has put there, cut to
the width of the member, and the image starts with the receiver report of these
values. Once every setter was called, nothing of the old memory is in them. -/
theorem the_accessors_hold_the_receiver_report (report : Block REPORT_SIZE UInt8)
    (calls : List (Field × BitVec 32)) :
    (∀ f, get f (setAll set calls (RtcpHeader.init report)) = valueOf report calls f) ∧
      (∀ f g v h, g ≠ f → get g (set f v h) = get g h) ∧
      (setAll set calls (RtcpHeader.init report)).image.take 32 =
        (reportOf (valueOf report calls)).bytes ∧
      ((∀ f, ∃ v, (f, v) ∈ calls) →
        ∀ f, ∃ v, lastValue f calls = some v ∧ valueOf report calls f = keep f v) := by
  obtain ⟨hversion, hpadding⟩ := version_calls report calls
  refine ⟨get_calls report calls, get_set_other, ?_, fun hall f => ?_⟩
  · rw [image_report _ hversion hpadding]
    simp only [get_calls]
  · obtain ⟨v, hv⟩ := hall f
    obtain ⟨w, hw⟩ := lastValue_of_mem hv
    refine ⟨w, hw, ?_⟩
    unfold valueOf
    rw [hw]
    rfl

end payloader.rtcp_fields
