-- The union in the class `RtcpHeader`. Five structures lie over the same bytes,
-- and each setter writes the bytes of one member. So a run of setters leaves in
-- each byte what the last one over it has put there, and a getter reads what is
-- there, from whichever structure it came.
import Payloader.Overlays
import Payloader.RembBitRate
import Payloader.RtcpFields

set_option autoImplicit false

namespace payloader.rtcp_union

open payloader.memory payloader.byte_order payloader.registers payloader.overlays
open payloader.rtcp_headers payloader.rtp_packets payloader.exponents payloader.remb_bit_rate

/-! ## The structures of the union -/

/-- A structure of the union, as its words and as the bytes of its members. -/
structure View (R : Type) where
  read : RtcpHeader → R
  put : RtcpHeader → R → RtcpHeader
  words : R → List (BitVec 32)
  parts : R → List (List UInt8)
  sizes : List Nat
  lengths : ∀ r, (parts r).map List.length = sizes
  image : ∀ r, wordsImage (words r) = (parts r).flatten
  starts : ∀ h, h.report.slice 0 (4 * (words (read h)).length) = wordsImage (words (read h))
  writes : ∀ h r, put h r = { h with report := h.report.put 0 (wordsImage (words r)) }

section
variable {R : Type} {h : RtcpHeader} {r : R} {k : Nat} {l part : List UInt8}

theorem View.startsWith (V : View R) (h : RtcpHeader) :
    StartsWith h.report (V.parts (V.read h)) := by
  unfold StartsWith
  rw [← V.image, wordsImage_length]
  exact V.starts h

/-- A write that gives one member new bytes. -/
theorem View.put_part (V : View R) (hparts : V.parts r = (V.parts (V.read h)).set k l)
    (hsize : V.sizes[k]? = some l.length) :
    V.put h r = { h with report := h.report.put (V.sizes.take k).sum l } := by
  rw [← V.lengths (V.read h), List.getElem?_map] at hsize
  obtain ⟨part, hpart, hlen⟩ := Option.map_eq_some_iff.mp hsize
  rw [V.writes, V.image, hparts, (V.startsWith h).put_part hpart hlen.symm, partOff_eq, V.lengths]

theorem View.read_part (V : View R) (hpart : (V.parts (V.read h))[k]? = some part) :
    h.report.slice (V.sizes.take k).sum part.length = part := by
  rw [← V.lengths (V.read h), ← partOff_eq]
  exact (V.startsWith h).slice_part hpart

end

/-- A half word in the order of the host. -/
theorem net_swapped (x : BitVec 16) :
    netBytes 2 (ntohs x).toNat = (netBytes 2 x.toNat).reverse := by
  have hx := x.isLt
  have hlow : x.toNat % 2 ^ 8 < 2 ^ 8 := Nat.mod_lt _ (by decide)
  have hhigh : x.toNat / 2 ^ 8 % 2 ^ 8 = x.toNat / 2 ^ 8 := Nat.mod_eq_of_lt (by omega)
  have hswap := toNat_ntohs x
  unfold netBytes netBytes netBytes
  simp only [List.reverse_cons, List.reverse_nil, List.nil_append, List.cons_append,
    List.cons.injEq, and_true, ← UInt8.toNat_inj, UInt8.toNat_ofNat', Nat.pow_zero, Nat.pow_one,
    Nat.div_one]
  generalize x.toNat % 2 ^ 8 = low at *
  generalize x.toNat / 2 ^ 8 % 2 ^ 8 = high at *
  constructor <;> omega

theorem halves_net (high low : BitVec 16) :
    wordBytes (high ++ low) = netBytes 2 (ntohs low).toNat ++ netBytes 2 (ntohs high).toNat := by
  have h1 := low.isLt
  have h2 := high.isLt
  have hword : (ntohl (high ++ low)).toNat =
      (ntohs low).toNat * 256 ^ 2 + (ntohs high).toNat := by
    rw [toNat_ntohl, toNat_ntohs, toNat_ntohs, toNat_append]
    omega
  rw [wordBytes_eq, hword, netBytes_append 2 2 _ _ (ntohs high).isLt]

theorem byte_net (high : BitVec 24) (low : BitVec 8) :
    wordBytes (high ++ low) = netBytes 1 low.toNat ++ netBytes 3 (swap24 high).toNat := by
  have h1 := low.isLt
  have h2 := high.isLt
  have hword : (ntohl (high ++ low)).toNat = low.toNat * 2 ^ 24 + (swap24 high).toNat := by
    rw [toNat_ntohl, toNat_swap24, toNat_append]
    omega
  rw [wordBytes_eq, hword, netBytes_byte _ _ (swap24 high).isLt]

/-- The bytes of `receiverReport_t`. -/
def reportView : View ReceiverReport where
  read := RtcpHeader.receiverReport
  put := RtcpHeader.putReceiverReport
  words := ReceiverReport.words
  parts r := [netBytes 4 (ntohl r.ssrcsource).toNat, netBytes 1 r.fractionlost.toNat,
    netBytes 3 (swap24 r.lost).toNat, netBytes 2 (ntohs r.seqnumcycles).toNat,
    netBytes 2 (ntohs r.highestseqnum).toNat, netBytes 4 (ntohl r.jitter).toNat,
    netBytes 4 (ntohl r.lastsr).toNat, netBytes 4 (ntohl r.delaysincelast).toNat]
  sizes := [4, 1, 3, 2, 2, 4, 4, 4]
  lengths _ := rfl
  image r := by
    unfold ReceiverReport.words
    simp only [wordsImage_cons, wordsImage_nil, byte_net, halves_net]
    simp only [wordBytes_eq, List.flatten_cons, List.flatten_nil, List.append_assoc]
  starts h := rtcp_fields.slice_receiverReport h
  writes _ _ := rfl

/-- The bytes of `senderReport_t`. -/
def senderView : View SenderReport where
  read := RtcpHeader.senderReport
  put := RtcpHeader.putSenderReport
  words := SenderReport.words
  parts r := [netBytes 4 (ntohl (r.ntptimestamp.extractLsb' 0 32)).toNat,
    netBytes 4 (ntohl (r.ntptimestamp.extractLsb' 32 32)).toNat, netBytes 4 (ntohl r.rtprts).toNat,
    netBytes 4 (ntohl r.packetsent).toNat, netBytes 4 (ntohl r.octetssent).toNat]
  sizes := [4, 4, 4, 4, 4]
  lengths _ := rfl
  image r := by
    unfold SenderReport.words
    simp only [wordsImage_cons, wordsImage_nil, wordBytes_eq, List.flatten_cons, List.flatten_nil]
  starts h := by
    obtain ⟨hlow, hhigh⟩ := extract_append (wordAt h.report.cell 4) (wordAt h.report.cell 0)
    unfold RtcpHeader.senderReport SenderReport.ofBytes SenderReport.words
    simp only [hlow, hhigh, wordsImage_cons, wordBytes_wordAt]
    rfl
  writes _ _ := rfl

/-- The bytes of `genericNack_t`. Those of `blp` lie in the order of the host. -/
def nackView : View GenericNack where
  read := RtcpHeader.nackPacket
  put := RtcpHeader.putNack
  words := GenericNack.words
  parts r := [netBytes 4 (ntohl r.ssrcsource).toNat, netBytes 2 (ntohs r.pid).toNat,
    (netBytes 2 r.blp.toNat).reverse]
  sizes := [4, 2, 2]
  lengths _ := rfl
  image r := by
    unfold GenericNack.words
    simp only [wordsImage_cons, wordsImage_nil, halves_net, net_swapped r.blp]
    simp only [wordBytes_eq, List.flatten_cons, List.flatten_nil, List.append_assoc]
  starts h := by
    have hword := append_extract (v := 16) (w := 16) (wordAt h.report.cell 4)
    unfold RtcpHeader.nackPacket GenericNack.ofBytes GenericNack.words
    simp only [hword, wordsImage_cons, wordBytes_wordAt]
    rfl
  writes _ _ := rfl

/-- The bytes of `pli_t`. -/
def pliView : View Pli where
  read := RtcpHeader.pli
  put := RtcpHeader.putPli
  words := Pli.words
  parts r := [netBytes 4 (ntohl r.ssrcsource).toNat, netBytes 4 (ntohl r.fci).toNat]
  sizes := [4, 4]
  lengths _ := rfl
  image r := by
    unfold Pli.words
    simp only [wordsImage_cons, wordsImage_nil, wordBytes_eq, List.flatten_cons, List.flatten_nil]
  starts h := by
    unfold RtcpHeader.pli Pli.ofBytes Pli.words
    simp only [wordsImage_cons, wordBytes_wordAt]
    rfl
  writes _ _ := rfl

/-- The bytes of `remb_t`. -/
def rembView : View Remb where
  read := RtcpHeader.rembPacket
  put := RtcpHeader.putRemb
  words := Remb.words
  parts r := [netBytes 4 (ntohl r.ssrcsource).toNat, netBytes 4 (ntohl r.uniqueid).toNat,
    netBytes 1 r.numssrc.toNat, netBytes 3 (swap24 r.brLength).toNat,
    netBytes 4 (ntohl r.ssrcfeedb).toNat]
  sizes := [4, 4, 1, 3, 4]
  lengths _ := rfl
  image r := by
    unfold Remb.words
    simp only [wordsImage_cons, wordsImage_nil, byte_net]
    simp only [wordBytes_eq, List.flatten_cons, List.flatten_nil, List.append_assoc]
  starts h := by
    have hword := append_extract (v := 24) (w := 8) (wordAt h.report.cell 8)
    unfold RtcpHeader.rembPacket Remb.ofBytes Remb.words
    simp only [hword, wordsImage_cons, wordBytes_wordAt]
    rfl
  writes _ _ := rfl

/-! ## The accessors of the union -/

/-- The accessor pairs. The rate of a REMB packet is the word that the setter
makes of it, an exponent above a mantissa. -/
inductive Member
  | sourceSSRC
  | fractionLost
  | lostPackets
  | seqnumCycles
  | highestSeqnum
  | jitter
  | lastSr
  | delaySinceLastSr
  | packetsSent
  | nackPid
  | nackBlp
  | fci
  | rembNumSSRC
  | rembBitRate
  | rembFeedSSRC
  deriving DecidableEq, Repr

namespace Member

/-- The first byte of a member in the report. -/
def off : Member → Nat
  | sourceSSRC => 0
  | fractionLost => 4
  | lostPackets => 5
  | seqnumCycles => 8
  | highestSeqnum => 10
  | jitter => 12
  | lastSr => 16
  | delaySinceLastSr => 20
  | packetsSent => 12
  | nackPid => 4
  | nackBlp => 6
  | fci => 4
  | rembNumSSRC => 8
  | rembBitRate => 9
  | rembFeedSSRC => 12

/-- The bytes that a member takes. -/
def size : Member → Nat
  | fractionLost => 1
  | rembNumSSRC => 1
  | seqnumCycles => 2
  | highestSeqnum => 2
  | nackPid => 2
  | nackBlp => 2
  | lostPackets => 3
  | rembBitRate => 3
  | _ => 4

/-- How a number lies in a member. -/
def bytes (m : Member) (n : Nat) : List UInt8 :=
  if m = nackBlp then (netBytes m.size n).reverse else netBytes m.size n

/-- The number that lies in the bytes of a member. -/
def number (m : Member) (l : List UInt8) : Nat :=
  if m = nackBlp then netNumber l.reverse else netNumber l

/-- A rate can be shifted by the exponent that the loop gives. -/
def Fits (m : Member) (v : BitVec 64) : Prop :=
  m = rembBitRate → v.toNat < RATE_MAX * 2 ^ 46

instance (m : Member) (v : BitVec 64) : Decidable (m.Fits v) := by
  unfold Fits
  infer_instance

/-- The number that a setter makes of its argument. -/
def kept (m : Member) (v : BitVec 64) : Nat :=
  if m = rembBitRate then
    RtcpHeader.rateExponent v 0x3FFFF 0 * 2 ^ 18 + v.toNat / 2 ^ RtcpHeader.rateExponent v 0x3FFFF 0
  else v.toNat % 256 ^ m.size

end Member

/-- A setter call. C cuts the argument to the type of the parameter. -/
def set (m : Member) (v : BitVec 64) (h : RtcpHeader) : Option RtcpHeader :=
  match m with
  | .sourceSSRC => some (h.setSourceSSRC (v.setWidth 32))
  | .fractionLost => some (h.setFractionLost (v.setWidth 8))
  | .lostPackets => some (h.setLostPackets (v.setWidth 32))
  | .seqnumCycles => some (h.setSeqnumCycles (v.setWidth 16))
  | .highestSeqnum => some (h.setHighestSeqnum (v.setWidth 16))
  | .jitter => some (h.setJitter (v.setWidth 32))
  | .lastSr => some (h.setLastSr (v.setWidth 32))
  | .delaySinceLastSr => some (h.setDelaySinceLastSr (v.setWidth 32))
  | .packetsSent => some (h.setPacketsSent (v.setWidth 32))
  | .nackPid => some (h.setNackPid (v.setWidth 16))
  | .nackBlp => some (h.setNackBlp (v.setWidth 16))
  | .fci => some (h.setFCI (v.setWidth 32))
  | .rembNumSSRC => some (h.setREMBNumSSRC (v.setWidth 8))
  | .rembBitRate => h.setREMBBitRate v
  | .rembFeedSSRC => some (h.setREMBFeedSSRC (v.setWidth 32))

def get (m : Member) (h : RtcpHeader) : Nat :=
  match m with
  | .sourceSSRC => h.getSourceSSRC.toNat
  | .fractionLost => h.getFractionLost.toNat
  | .lostPackets => h.getLostPackets.toNat
  | .seqnumCycles => h.getSeqnumCycles.toNat
  | .highestSeqnum => h.getHighestSeqnum.toNat
  | .jitter => h.getJitter.toNat
  | .lastSr => h.getLastSr.toNat
  | .delaySinceLastSr => h.getDelaySinceLastSr.toNat
  | .packetsSent => h.getPacketsSent.toNat
  | .nackPid => h.getNackPid.toNat
  | .nackBlp => h.getNackBlp.toNat
  | .fci => h.getFCI.toNat
  | .rembNumSSRC => h.getREMBNumSSRC.toNat
  | .rembBitRate => h.getBrExp.toNat * 2 ^ 18 + h.getBrMantis.toNat
  | .rembFeedSSRC => h.getREMBFeedSSRC.toNat

/-! ### Numbers and bytes -/

@[simp] theorem bytes_length (m : Member) (n : Nat) : (m.bytes n).length = m.size := by
  unfold Member.bytes
  split
  · rw [List.length_reverse, netBytes_length]
  · exact netBytes_length _ _

theorem number_bytes (m : Member) (n : Nat) : m.number (m.bytes n) = n % 256 ^ m.size := by
  unfold Member.number Member.bytes
  split
  · rw [List.reverse_reverse, netNumber_netBytes]
  · exact netNumber_netBytes _ _

theorem bytes_number {m : Member} {l : List UInt8} (hlen : l.length = m.size) :
    m.bytes (m.number l) = l := by
  unfold Member.number Member.bytes
  rw [← hlen]
  split
  · rw [← List.length_reverse, netBytes_netNumber, List.reverse_reverse]
  · exact netBytes_netNumber l

/-! ### Writes of the setters -/

section
variable {h h' : RtcpHeader} {v : BitVec 64} {off n w : Nat} {l l' : List UInt8}

theorem word_bytes (v : BitVec 64) :
    netBytes 4 (ntohl (htonl (v.setWidth 32))).toNat = netBytes 4 (v.toNat % 256 ^ 4) := by
  have hpow : 256 ^ 4 = 2 ^ 32 := rfl
  rw [hpow, ntohl_htonl, BitVec.toNat_setWidth]

theorem half_bytes (v : BitVec 64) :
    netBytes 2 (ntohs (htons (v.setWidth 16))).toNat = netBytes 2 (v.toNat % 256 ^ 2) := by
  have hpow : 256 ^ 2 = 2 ^ 16 := rfl
  rw [hpow, ntohs_htons, BitVec.toNat_setWidth]

theorem byte_bytes (v : BitVec 64) :
    netBytes 1 (v.setWidth 8).toNat = netBytes 1 (v.toNat % 256 ^ 1) := by
  have hpow : 256 ^ 1 = 2 ^ 8 := rfl
  rw [hpow, BitVec.toNat_setWidth]

theorem lost_bytes (v : BitVec 64) :
    netBytes 3 (swap24 ((htonl (v.setWidth 32) >>> 8).setWidth 24)).toNat =
      netBytes 3 (v.toNat % 256 ^ 3) := by
  have hpow : 256 ^ 3 = 2 ^ 24 := rfl
  rw [hpow, htonl_shift, swap24_swap24, BitVec.toNat_setWidth, BitVec.toNat_setWidth,
    Nat.mod_mod_of_dvd _ (by decide)]

/-- A write to one part, with its bytes spelt out. -/
theorem written (hput : h' = { h with report := h.report.put off l }) (hl : l = l') :
    some h' = some { h with report := h.report.put off l' } := by
  rw [hput, hl]

end

/-- The exponent and the mantissa are stored for each rate below the last bound. -/
theorem setREMBBitRate_eq {v : BitVec 64} (h : RtcpHeader) (hv : v.toNat < RATE_MAX * 2 ^ 46) :
    ∃ brLength, h.setREMBBitRate v = some (h.putRemb { h.rembPacket with brLength }) ∧
      (swap24 brLength).toNat = Member.kept .rembBitRate v := by
  obtain ⟨h', e, hs, hleast, -⟩ := stored_least h hv
  obtain ⟨hbound, -⟩ := rateExponent_least hv (Nat.zero_le 46) (Or.inl rfl)
  obtain ⟨brLength, rfl⟩ := setREMBBitRate_put hs.returns
  obtain rfl := hleast.unique hbound
  have hbits := hs.bits
  rw [RtcpHeader.rembPacket_put] at hbits
  exact ⟨brLength, hs.returns, hbits⟩

/-- What a member keeps fills its bytes at most. -/
theorem kept_lt {m : Member} {v : BitVec 64} (hfits : m.Fits v) : m.kept v < 256 ^ m.size := by
  by_cases hrate : m = .rembBitRate
  · subst hrate
    obtain ⟨brLength, -, hbits⟩ :=
      setREMBBitRate_eq (RtcpHeader.init { cell := fun _ => 0 }) (hfits rfl)
    rw [← hbits]
    exact (swap24 brLength).isLt
  · unfold Member.kept
    rw [if_neg hrate]
    exact Nat.mod_lt _ (Nat.pow_pos (by decide))

/-- Each setter writes the bytes of its member, and no more. -/
theorem set_eq {m : Member} {v : BitVec 64} (h : RtcpHeader) (hfits : m.Fits v) :
    set m v h = some { h with report := h.report.put m.off (m.bytes (m.kept v)) } := by
  cases m with
  | sourceSSRC => exact written (reportView.put_part (k := 0) rfl rfl) (word_bytes v)
  | fractionLost => exact written (reportView.put_part (k := 1) rfl rfl) (byte_bytes v)
  | lostPackets => exact written (reportView.put_part (k := 2) rfl rfl) (lost_bytes v)
  | seqnumCycles => exact written (reportView.put_part (k := 3) rfl rfl) (half_bytes v)
  | highestSeqnum => exact written (reportView.put_part (k := 4) rfl rfl) (half_bytes v)
  | jitter => exact written (reportView.put_part (k := 5) rfl rfl) (word_bytes v)
  | lastSr => exact written (reportView.put_part (k := 6) rfl rfl) (word_bytes v)
  | delaySinceLastSr => exact written (reportView.put_part (k := 7) rfl rfl) (word_bytes v)
  | packetsSent => exact written (senderView.put_part (k := 3) rfl rfl) (word_bytes v)
  | nackPid => exact written (nackView.put_part (k := 1) rfl rfl) (half_bytes v)
  | nackBlp =>
    refine written (nackView.put_part (k := 2) rfl rfl) ?_
    have hpow : 256 ^ 2 = 2 ^ 16 := rfl
    change (netBytes 2 (v.setWidth 16).toNat).reverse = (netBytes 2 (v.toNat % 256 ^ 2)).reverse
    rw [hpow, BitVec.toNat_setWidth]
  | fci => exact written (pliView.put_part (k := 1) rfl rfl) (word_bytes v)
  | rembNumSSRC => exact written (rembView.put_part (k := 2) rfl rfl) (byte_bytes v)
  | rembBitRate =>
    obtain ⟨brLength, hset, hbits⟩ := setREMBBitRate_eq h (hfits rfl)
    change h.setREMBBitRate v = _
    rw [hset]
    exact written (rembView.put_part (k := 3) rfl rfl) (congrArg (netBytes 3) hbits)
  | rembFeedSSRC => exact written (rembView.put_part (k := 4) rfl rfl) (word_bytes v)

/-- The setter of a rate above the last bound has no result. -/
theorem set_none {m : Member} {v : BitVec 64} (h : RtcpHeader) (hfits : ¬ m.Fits v) :
    set m v h = none := by
  unfold Member.Fits at hfits
  obtain ⟨rfl, hlarge⟩ := Classical.not_imp.mp hfits
  change h.setREMBBitRate v = none
  unfold RtcpHeader.setREMBBitRate RtcpHeader.shr
  rw [rateExponent_overflows (Nat.le_of_not_lt hlarge)]
  rfl

/-! ### Reads of the getters -/

section
variable {b : Block REPORT_SIZE UInt8} {off n w : Nat}

/-- A number that fills its bytes. -/
theorem numbered {x : BitVec w} (hslice : b.slice off n = netBytes n x.toNat)
    (hw : 2 ^ w ≤ 256 ^ n) : x.toNat = netNumber (b.slice off n) := by
  rw [hslice, netNumber_netBytes]
  exact (Nat.mod_eq_of_lt (x.isLt.trans_le hw)).symm

end

/-- Each getter reads the bytes of its member. -/
theorem get_eq (m : Member) (h : RtcpHeader) :
    get m h = m.number (h.report.slice m.off m.size) := by
  cases m with
  | sourceSSRC => exact numbered (reportView.read_part (h := h) (k := 0) rfl) (by decide)
  | fractionLost => exact numbered (reportView.read_part (h := h) (k := 1) rfl) (by decide)
  | lostPackets =>
    exact (rtcp_fields.getLostPackets_eq h).trans
      (numbered (reportView.read_part (h := h) (k := 2) rfl) (by decide))
  | seqnumCycles => exact numbered (reportView.read_part (h := h) (k := 3) rfl) (by decide)
  | highestSeqnum => exact numbered (reportView.read_part (h := h) (k := 4) rfl) (by decide)
  | jitter => exact numbered (reportView.read_part (h := h) (k := 5) rfl) (by decide)
  | lastSr => exact numbered (reportView.read_part (h := h) (k := 6) rfl) (by decide)
  | delaySinceLastSr => exact numbered (reportView.read_part (h := h) (k := 7) rfl) (by decide)
  | packetsSent => exact numbered (senderView.read_part (h := h) (k := 3) rfl) (by decide)
  | nackPid => exact numbered (nackView.read_part (h := h) (k := 1) rfl) (by decide)
  | nackBlp =>
    have hslice : h.report.slice 6 2 = (netBytes 2 h.getNackBlp.toNat).reverse :=
      nackView.read_part (h := h) (k := 2) rfl
    change h.getNackBlp.toNat = netNumber (h.report.slice 6 2).reverse
    rw [hslice, List.reverse_reverse, netNumber_netBytes]
    exact (Nat.mod_eq_of_lt h.getNackBlp.isLt).symm
  | fci => exact numbered (pliView.read_part (h := h) (k := 1) rfl) (by decide)
  | rembNumSSRC => exact numbered (rembView.read_part (h := h) (k := 2) rfl) (by decide)
  | rembBitRate =>
    refine Eq.trans ?_ (numbered (rembView.read_part (h := h) (k := 3) rfl) (by decide))
    change h.getBrExp.toNat * 2 ^ 18 + h.getBrMantis.toNat = (swap24 h.rembPacket.brLength).toNat
    rw [packed_fields.getBrExp_eq, packed_fields.getBrMantis_eq]
    omega
  | rembFeedSSRC => exact numbered (rembView.read_part (h := h) (k := 4) rfl) (by decide)

theorem getOctetsSent_eq (h : RtcpHeader) :
    h.getOctetsSent.toNat = netNumber (h.report.slice 16 4) :=
  numbered (senderView.read_part (h := h) (k := 4) rfl) (by decide)

theorem slice_word (b : Block REPORT_SIZE UInt8) (p : Nat) :
    b.slice p 4 = netBytes 4 (htonl (wordAt b.cell p)).toNat := by
  change _ = netBytes 4 (ntohl (wordAt b.cell p)).toNat
  rw [← wordBytes_eq, wordBytes_wordAt]
  rfl

/-- The two halves of a double word. -/
theorem halves_append (high low : BitVec 32) :
    (high ++ low).setWidth 32 = low ∧ ((high ++ low) >>> 32).setWidth 32 = high := by
  have h1 := low.isLt
  have h2 := high.isLt
  refine ⟨BitVec.eq_of_toNat_eq ?_, BitVec.eq_of_toNat_eq ?_⟩
  · rw [BitVec.toNat_setWidth, toNat_append]
    omega
  · rw [BitVec.toNat_setWidth, BitVec.toNat_ushiftRight, toNat_append, Nat.shiftRight_eq_div_pow]
    omega

/-- The two words of the time are swapped as one number. -/
theorem getNtpTimestamp_eq (h : RtcpHeader) :
    h.getNtpTimestamp.toNat = netNumber (h.report.slice 0 8) := by
  have hlow := (htonl (wordAt h.report.cell 0)).isLt
  have hhigh := (htonl (wordAt h.report.cell 4)).isLt
  obtain ⟨hfirst, hsecond⟩ := halves_append (wordAt h.report.cell 4) (wordAt h.report.cell 0)
  have hslice : h.report.slice 0 8 = netBytes 8 ((htonl (wordAt h.report.cell 0)).toNat * 256 ^ 4 +
      (htonl (wordAt h.report.cell 4)).toNat) := by
    rw [slice_append h.report 0 4 4, slice_word, slice_word]
    exact (netBytes_append 4 4 _ _ hhigh).symm
  have htime : h.getNtpTimestamp = ((htonl (wordAt h.report.cell 0)).setWidth 64 <<< 32) +
      (htonl (wordAt h.report.cell 4)).setWidth 64 := by
    unfold RtcpHeader.getNtpTimestamp RtcpHeader.senderReport SenderReport.ofBytes
    rw [hfirst, hsecond]
  rw [htime, hslice, netNumber_netBytes, BitVec.toNat_add, BitVec.toNat_shiftLeft,
    BitVec.toNat_setWidth, BitVec.toNat_setWidth, Nat.shiftLeft_eq]
  omega

/-! ## Runs of setters -/

/-- A setter and its argument. -/
abbrev Call : Type := Member × BitVec 64

/-- What a call writes. -/
def write (call : Call) : Write UInt8 := ⟨call.1.off, call.1.bytes (call.1.kept call.2)⟩

def setAll (calls : List Call) (h : RtcpHeader) : Option RtcpHeader :=
  calls.foldlM (fun h call => set call.1 call.2 h) h

variable {calls : List Call} {h h' : RtcpHeader}

theorem setAll_fits (hfits : ∀ call ∈ calls, call.1.Fits call.2) (h : RtcpHeader) :
    setAll calls h = some { h with report := putAll (calls.map write) h.report } := by
  unfold setAll
  induction calls generalizing h with
  | nil => rfl
  | cons call calls ih =>
    rw [List.foldlM_cons, set_eq h (hfits call List.mem_cons_self)]
    exact ih (fun x hx => hfits x (List.mem_cons_of_mem call hx)) _

theorem fits_of_setAll (hrun : setAll calls h = some h') :
    ∀ call ∈ calls, call.1.Fits call.2 := by
  unfold setAll at hrun
  induction calls generalizing h with
  | nil => exact fun call hcall => absurd hcall List.not_mem_nil
  | cons call calls ih =>
    rw [List.foldlM_cons] at hrun
    obtain ⟨h₁, hset, hrest⟩ := Option.bind_eq_some_iff.mp hrun
    intro x hx
    cases hx with
    | head =>
      by_contra hlarge
      rw [set_none h hlarge] at hset
      cases hset
    | tail _ hx => exact ih hrest x hx

theorem run_eq (hrun : setAll calls h = some h') :
    h' = { h with report := putAll (calls.map write) h.report } := by
  rw [setAll_fits (fits_of_setAll hrun) h] at hrun
  exact (Option.some_inj.mp hrun).symm

theorem write_length (call : Call) : (write call).cells.length = call.1.size := bytes_length _ _

section
variable {before after : List Call} {m : Member} {v : BitVec 64}

/-- The number of a member, when no call after its own writes there. -/
theorem number_last (hmiss : ∀ call ∈ after, (write call).Misses m.off m.size)
    (b : Block REPORT_SIZE UInt8) :
    m.number ((putAll ((before ++ (m, v) :: after).map write) b).slice m.off m.size) =
      m.kept v % 256 ^ m.size := by
  have hwrites : ∀ w ∈ after.map write,
      w.Misses (write (m, v)).off (write (m, v)).cells.length := by
    intro w hw
    obtain ⟨call, hcall, rfl⟩ := List.mem_map.mp hw
    rw [write_length]
    exact hmiss call hcall
  have hslice : (putAll (before.map write ++ write (m, v) :: after.map write) b).slice _ _ =
      (write (m, v)).cells := slice_putAll_last hwrites b
  rw [write_length] at hslice
  rw [List.map_append, List.map_cons]
  exact (congrArg m.number hslice).trans (number_bytes m (m.kept v))

/-- What a call has set stays as long as the calls after it write elsewhere. -/
theorem get_undisturbed (hrun : setAll (before ++ (m, v) :: after) h = some h')
    (hmiss : ∀ call ∈ after, (write call).Misses m.off m.size) : get m h' = m.kept v := by
  have hfits : m.Fits v :=
    fits_of_setAll hrun (m, v) (List.mem_append_right _ List.mem_cons_self)
  rw [get_eq, run_eq hrun, number_last hmiss]
  exact Nat.mod_eq_of_lt (kept_lt hfits)

end

/-- A run of setters has a result when each rate in it fits. It changes nothing
but the report, each byte of the report is what the last call over it has put
there, and each getter gives the number in the bytes of its member, whichever
calls they are from: the value of its own setter, when no call after that one
writes there. -/
theorem the_union_is_one_memory (h : RtcpHeader) (calls : List Call) :
    ((setAll calls h).isSome ↔ ∀ call ∈ calls, call.1.Fits call.2) ∧
      ∀ h', setAll calls h = some h' →
        h' = { h with report := h'.report } ∧
        (∀ i, h'.report.cell i = (lastOver i (calls.map write)).getD (h.report.cell i)) ∧
        (∀ m, get m h' = m.number (h'.report.slice m.off m.size)) ∧
        (∀ before m v after, calls = before ++ (m, v) :: after →
          (∀ call ∈ after, (write call).Misses m.off m.size) → get m h' = m.kept v) ∧
        h'.getOctetsSent.toNat = netNumber (h'.report.slice 16 4) ∧
        h'.getNtpTimestamp.toNat = netNumber (h'.report.slice 0 8) := by
  refine ⟨⟨fun hsome => ?_, fun hfits => ?_⟩, fun h' hrun => ?_⟩
  · obtain ⟨h', hrun⟩ := Option.isSome_iff_exists.mp hsome
    exact fits_of_setAll hrun
  · rw [setAll_fits hfits]
    rfl
  · refine ⟨?_, fun i => ?_, fun m => get_eq m h', ?_, getOctetsSent_eq h', getNtpTimestamp_eq h'⟩
    · rw [run_eq hrun]
    · rw [run_eq hrun]
      exact cell_putAll _ _ i
    · rintro before m v after rfl hmiss
      exact get_undisturbed hrun hmiss

/-! ## Packets -/

/-- The members lie one after another from `off` on. -/
def InLine : Nat → List Member → Prop
  | _, [] => True
  | off, m :: ms => m.off = off ∧ InLine (off + m.size) ms

instance : (off : Nat) → (ms : List Member) → Decidable (InLine off ms)
  | _, [] => inferInstanceAs (Decidable True)
  | off, m :: ms =>
    have := instDecidableInLine (off + m.size) ms
    inferInstanceAs (Decidable (m.off = off ∧ InLine (off + m.size) ms))

/-- The members that a packet of one kind uses. -/
structure Packet where
  members : List Member
  inLine : InLine 0 members

namespace Packet

/-- A report with one block. -/
def receiverReport : Packet :=
  ⟨[.sourceSSRC, .fractionLost, .lostPackets, .seqnumCycles, .highestSeqnum, .jitter, .lastSr,
    .delaySinceLastSr], by decide⟩

def nack : Packet := ⟨[.sourceSSRC, .nackPid, .nackBlp], by decide⟩

def pli : Packet := ⟨[.sourceSSRC, .fci], by decide⟩

/-- The unique identifier has no accessor, and lies where the FCI does. -/
def remb : Packet := ⟨[.sourceSSRC, .fci, .rembNumSSRC, .rembBitRate, .rembFeedSSRC], by decide⟩

/-- The bytes that the members take. -/
def size (p : Packet) : Nat := (p.members.map Member.size).sum

end Packet

section
variable {off : Nat} {ms : List Member} {m m' : Member}

theorem InLine.off_le (hline : InLine off ms) (hm : m ∈ ms) : off ≤ m.off := by
  induction ms generalizing off with
  | nil => cases hm
  | cons m₁ ms ih =>
    obtain ⟨rfl, hrest⟩ := hline
    cases hm with
    | head => exact Nat.le_refl _
    | tail _ hm => exact (Nat.le_add_right _ _).trans (ih hrest hm)

/-- Two members in line lie apart. -/
theorem InLine.apart (hline : InLine off ms) (hm : m ∈ ms) (hm' : m' ∈ ms) (hne : m ≠ m') :
    m.off + m.size ≤ m'.off ∨ m'.off + m'.size ≤ m.off := by
  induction ms generalizing off with
  | nil => cases hm
  | cons m₁ ms ih =>
    obtain ⟨rfl, hrest⟩ := hline
    cases hm with
    | head =>
      cases hm' with
      | head => exact absurd rfl hne
      | tail _ hm' => exact Or.inl (hrest.off_le hm')
    | tail _ hm =>
      cases hm' with
      | head => exact Or.inr (hrest.off_le hm)
      | tail _ hm' => exact ih hrest hm hm'

theorem InLine.end_le (hline : InLine off ms) (hoff : off ≤ 24) :
    off + (ms.map Member.size).sum ≤ 24 := by
  induction ms generalizing off with
  | nil => exact hoff
  | cons m ms ih =>
    obtain ⟨rfl, hrest⟩ := hline
    have hend : m.off + m.size ≤ 24 := by cases m <;> decide
    have hle := ih hrest hend
    rw [List.map_cons, List.sum_cons]
    omega

/-- The bytes of members in line are the bytes of their numbers. -/
theorem InLine.slice (hline : InLine off ms) (h : RtcpHeader) :
    h.report.slice off (ms.map Member.size).sum =
      (ms.map (fun m => m.bytes (get m h))).flatten := by
  induction ms generalizing off with
  | nil => rfl
  | cons m ms ih =>
    obtain ⟨rfl, hrest⟩ := hline
    rw [List.map_cons, List.sum_cons, slice_append, ih hrest, List.map_cons, List.flatten_cons,
      get_eq m h, bytes_number (slice_length _ _ _)]

end

variable {p : Packet} {m : Member}

/-- A member of a packet holds the last value that was set, as long as no
setter of another packet is called. -/
theorem number_putAll (hcalls : ∀ call ∈ calls, call.1 ∈ p.members) (hm : m ∈ p.members)
    (b : Block REPORT_SIZE UInt8) :
    m.number ((putAll (calls.map write) b).slice m.off m.size) =
      ((lastValue m calls).map (fun v => m.kept v % 256 ^ m.size)).getD
        (m.number (b.slice m.off m.size)) := by
  induction calls using List.reverseRecOn with
  | nil => rfl
  | append_singleton calls call ih =>
    obtain ⟨m₁, v⟩ := call
    have hrest := ih (fun x hx => hcalls x (List.mem_append_left _ hx))
    have hm₁ : m₁ ∈ p.members :=
      hcalls (m₁, v) (List.mem_append_right _ (List.mem_singleton.mpr rfl))
    by_cases heq : m₁ = m
    · subst heq
      rw [lastValue_snoc_self]
      exact number_last (fun _ hcall => absurd hcall List.not_mem_nil) b
    · have hmiss : (write (m₁, v)).Misses m.off m.size := by
        unfold Write.Misses
        rw [write_length]
        exact p.inLine.apart hm hm₁ (Ne.symm heq)
      rw [lastValue_snoc_other _ _ heq, ← hrest, List.map_append, putAll_append, List.map_singleton,
        putAll_cons, putAll_nil, slice_put_outside _ _ _ _ _ hmiss]

/-- A run of setters that stays with the members of one packet: each getter of
the packet gives what the last call of its setter has kept, and the image is the
first two words and then, in line, the bytes of these numbers. -/
theorem a_packet_holds_its_last_values (p : Packet) (calls : List Call)
    (hcalls : ∀ call ∈ calls, call.1 ∈ p.members) (h h' : RtcpHeader)
    (hrun : setAll calls h = some h') :
    (∀ m ∈ p.members, get m h' = ((lastValue m calls).map m.kept).getD (get m h)) ∧
      h'.image.take (8 + p.size) =
        h.image.take 8 ++ (p.members.map (fun m => m.bytes (get m h'))).flatten := by
  have hfits := fits_of_setAll hrun
  have heq := run_eq hrun
  refine ⟨fun m hm => ?_, ?_⟩
  · have hreport : h'.report = putAll (calls.map write) h.report := by rw [heq]
    rw [get_eq m h', hreport, number_putAll hcalls hm, ← get_eq m h]
    cases hlast : lastValue m calls with
    | none => rfl
    | some v =>
      have hlt := kept_lt (hfits (m, v) (mem_of_lastValue hlast))
      rw [Option.map_some, Option.map_some, Nat.mod_eq_of_lt hlt]
  · have hwords : wordsImage [h'.flagsWord, h'.ssrc] = h.image.take 8 := by
      rw [heq]
      exact (List.take_left' rfl).symm
    have hend : p.size ≤ 24 := Nat.zero_add p.size ▸ p.inLine.end_le (Nat.zero_le 24)
    have hsize : REPORT_SIZE = p.size + (REPORT_SIZE - p.size) := by
      unfold REPORT_SIZE
      omega
    have himage : h'.image = h.image.take 8 ++ (h'.report.slice 0 p.size ++
        h'.report.slice (0 + p.size) (REPORT_SIZE - p.size)) := by
      unfold RtcpHeader.image
      rw [hwords, ← slice_append, ← hsize]
      rfl
    have hlen : (h.image.take 8 ++ h'.report.slice 0 p.size).length = 8 + p.size := by
      rw [List.length_append, slice_length, ← hwords, wordsImage_length]
      rfl
    rw [himage, ← List.append_assoc, List.take_left' hlen]
    exact congrArg _ (p.inLine.slice h')

/-- The mask of lost packets lies with its low byte first. -/
theorem a_nack_lies_with_its_mask_turned :
    ∃ h', setAll [(.sourceSSRC, 1), (.nackPid, 0x0203), (.nackBlp, 0x0405)]
        (RtcpHeader.init { cell := fun _ => 0 }) = some h' ∧
      h'.image.take 16 = [128, 0, 0, 0, 0, 0, 0, 0, 0, 0, 0, 1, 2, 3, 5, 4] := by
  refine ⟨_, rfl, ?_⟩
  have himage := (a_packet_holds_its_last_values .nack
    [(.sourceSSRC, 1), (.nackPid, 0x0203), (.nackBlp, 0x0405)] (by decide)
    (RtcpHeader.init { cell := fun _ => 0 }) _ rfl).2
  exact himage.trans (by decide)

end payloader.rtcp_union
