-- The packets of RFC 3550: a fixed header, a list of CSRC words, a header
-- extension, the payload and its padding, and their bytes on the wire. The
-- class of RtpHeaders.h is laid over these bytes.
import Payloader.RtpHeaders
import Mathlib.Data.List.Induction

set_option autoImplicit false

namespace payloader.rtp_packets

open payloader.memory payloader.byte_order payloader.rtp_headers

/-! ## The bytes of a packet -/

/-- The `k` low bytes of a number, high byte first. -/
def netBytes : Nat → Nat → List UInt8
  | 0, _ => []
  | k + 1, n => UInt8.ofNat (n / 256 ^ k) :: netBytes k n

@[simp] theorem netBytes_length (k n : Nat) : (netBytes k n).length = k := by
  induction k with
  | zero => rfl
  | succ k ih => rw [netBytes, List.length_cons, ih]

/-- The number of some bytes, high byte first. -/
def netNumber (l : List UInt8) : Nat := l.foldl (fun n b => n * 256 + b.toNat) 0

theorem netBytes_snoc (k n : Nat) :
    netBytes (k + 1) n = netBytes k (n / 256) ++ [UInt8.ofNat n] := by
  induction k with
  | zero => rw [netBytes, netBytes, netBytes, Nat.pow_zero, Nat.div_one, List.nil_append]
  | succ k ih =>
    rw [netBytes, ih, netBytes, Nat.div_div_eq_div_mul, ← Nat.pow_add_one', List.cons_append]

@[simp] theorem netNumber_nil : netNumber [] = 0 := rfl

theorem netNumber_snoc (l : List UInt8) (b : UInt8) :
    netNumber (l ++ [b]) = netNumber l * 256 + b.toNat := by
  unfold netNumber
  rw [List.foldl_append]
  rfl

@[simp] theorem netNumber_netBytes (k n : Nat) : netNumber (netBytes k n) = n % 256 ^ k := by
  induction k generalizing n with
  | zero => rw [netBytes, netNumber_nil, Nat.pow_zero, Nat.mod_one]
  | succ k ih =>
    have hsplit : n % 256 ^ (k + 1) = n % 256 + 256 * (n / 256 % 256 ^ k) := by
      rw [Nat.pow_add_one', Nat.mod_mul]
    rw [netBytes_snoc, netNumber_snoc, ih, UInt8.toNat_ofNat']
    omega

/-- Some bytes, from their number. -/
theorem netBytes_netNumber (l : List UInt8) : netBytes l.length (netNumber l) = l := by
  induction l using List.reverseRecOn with
  | nil => rfl
  | append_singleton l b ih =>
    have hdiv : (netNumber l * 256 + b.toNat) / 256 = netNumber l := by
      have hb := b.toNat_lt
      omega
    have hlow : UInt8.ofNat (netNumber l * 256 + b.toNat) = b := by
      have hb := b.toNat_lt
      rw [← UInt8.toNat_inj, UInt8.toNat_ofNat']
      omega
    rw [List.length_append, List.length_singleton, netBytes_snoc, netNumber_snoc, hdiv, hlow, ih]

/-- The bytes of two numbers, one after the other. -/
theorem netBytes_append (j k m n : Nat) (hn : n < 256 ^ k) :
    netBytes (j + k) (m * 256 ^ k + n) = netBytes j m ++ netBytes k n := by
  induction k generalizing n with
  | zero =>
    have hzero : n = 0 := by
      rw [Nat.pow_zero] at hn
      omega
    rw [hzero, Nat.pow_zero, Nat.mul_one, Nat.add_zero, Nat.add_zero, netBytes, List.append_nil]
  | succ k ih =>
    have hsplit : m * 256 ^ (k + 1) = m * 256 ^ k * 256 := by rw [Nat.pow_add_one, Nat.mul_assoc]
    have hhigh : (m * 256 ^ (k + 1) + n) / 256 = m * 256 ^ k + n / 256 := by omega
    have hlow : UInt8.ofNat (m * 256 ^ (k + 1) + n) = UInt8.ofNat n := by
      rw [← UInt8.toNat_inj, UInt8.toNat_ofNat', UInt8.toNat_ofNat']
      omega
    have hlt : n / 256 < 256 ^ k := by
      rw [Nat.pow_add_one] at hn
      exact Nat.div_lt_of_lt_mul (by omega)
    rw [← Nat.add_assoc, netBytes_snoc, hhigh, hlow, ih _ hlt, netBytes_snoc k n,
      List.append_assoc]

/-- A word in memory, from the number that `ntohl` makes of it. -/
theorem wordBytes_eq (w : BitVec 32) : wordBytes w = netBytes 4 (ntohl w).toNat := by
  have hswap := toNat_ntohl w
  have hbyte : ∀ i, w.toNat / 2 ^ i % 2 ^ 8 < 2 ^ 8 := fun i => Nat.mod_lt _ (by decide)
  have h0 := hbyte 0
  have h1 := hbyte 8
  have h2 := hbyte 16
  have h3 := hbyte 24
  have hfield : ∀ i, (⟨w.extractLsb' i 8⟩ : UInt8).toNat = w.toNat / 2 ^ i % 2 ^ 8 :=
    fun i => toNat_field w i 8
  unfold wordBytes netBytes netBytes netBytes netBytes netBytes
  simp only [List.cons.injEq, and_true, ← UInt8.toNat_inj, UInt8.toNat_ofNat', hfield]
  rw [show w.toNat % 2 ^ 8 = w.toNat / 2 ^ 0 % 2 ^ 8 by rw [Nat.pow_zero, Nat.div_one]] at hswap
  generalize w.toNat / 2 ^ 0 % 2 ^ 8 = b0 at *
  generalize w.toNat / 2 ^ 8 % 2 ^ 8 = b1 at *
  generalize w.toNat / 2 ^ 16 % 2 ^ 8 = b2 at *
  generalize w.toNat / 2 ^ 24 % 2 ^ 8 = b3 at *
  refine ⟨?_, ?_, ?_, ?_⟩ <;> omega

/-- Two bytes and a half word, as one word. -/
theorem netBytes_parts (a b c : Nat) (hb : b < 2 ^ 8) (hc : c < 2 ^ 16) :
    netBytes 4 (a * 2 ^ 24 + b * 2 ^ 16 + c) = netBytes 1 a ++ netBytes 1 b ++ netBytes 2 c := by
  unfold netBytes netBytes netBytes netBytes netBytes
  simp only [List.cons_append, List.nil_append, List.cons.injEq, and_true, ← UInt8.toNat_inj,
    UInt8.toNat_ofNat']
  refine ⟨?_, ?_, ?_, ?_⟩ <;> omega

/-- A byte and three bytes, as one word. -/
theorem netBytes_byte (a b : Nat) (hb : b < 2 ^ 24) :
    netBytes 4 (a * 2 ^ 24 + b) = netBytes 1 a ++ netBytes 3 b := by
  unfold netBytes netBytes netBytes netBytes netBytes
  simp only [List.cons_append, List.nil_append, List.cons.injEq, and_true, ← UInt8.toNat_inj,
    UInt8.toNat_ofNat']
  refine ⟨?_, ?_, ?_, ?_⟩ <;> omega

def wordsBytes (ws : List (BitVec 32)) : List UInt8 :=
  (ws.map (fun w => netBytes 4 w.toNat)).flatten

@[simp] theorem wordsBytes_length (ws : List (BitVec 32)) :
    (wordsBytes ws).length = 4 * ws.length := by
  induction ws with
  | nil => rfl
  | cons w ws ih =>
    have hcons : wordsBytes (w :: ws) = netBytes 4 w.toNat ++ wordsBytes ws := rfl
    rw [hcons, List.length_append, ih, netBytes_length, List.length_cons]
    omega

/-- A header extension. Its length field counts the words after the first one. -/
structure Extension where
  profile : BitVec 16
  words : List (BitVec 32)
  words_lt : words.length < 2 ^ 16

def Extension.bytes (e : Extension) : List UInt8 :=
  netBytes 2 e.profile.toNat ++ netBytes 2 e.words.length ++ wordsBytes e.words

/-- A packet of version 2. `padding` is what fills the packet before the count
that is its last byte. -/
structure RfcPacket where
  marker : Bool
  payloadType : BitVec 7
  sequenceNumber : BitVec 16
  timestamp : BitVec 32
  ssrc : BitVec 32
  csrcs : List (BitVec 32)
  extension : Option Extension
  payload : List UInt8
  padding : Option (List UInt8)
  csrcs_le : csrcs.length ≤ 15
  padding_lt : ∀ fill, padding = some fill → fill.length < 255

namespace RfcPacket

def extensionBytes (p : RfcPacket) : List UInt8 := (p.extension.map Extension.bytes).getD []

/-- The count says how many bytes of padding there are, with itself. -/
def paddingBytes (p : RfcPacket) : List UInt8 :=
  (p.padding.map (fun fill => fill ++ [UInt8.ofNat (fill.length + 1)])).getD []

/-- The version, P, X and CC. -/
def firstByte (p : RfcPacket) : Nat :=
  128 + 32 * p.padding.isSome.toNat + 16 * p.extension.isSome.toNat + p.csrcs.length

/-- The first 12 bytes. -/
def fixedBytes (p : RfcPacket) : List UInt8 :=
  netBytes 1 p.firstByte ++ netBytes 1 (128 * p.marker.toNat + p.payloadType.toNat) ++
    netBytes 2 p.sequenceNumber.toNat ++ netBytes 4 p.timestamp.toNat ++ netBytes 4 p.ssrc.toNat

def headerBytes (p : RfcPacket) : List UInt8 :=
  p.fixedBytes ++ (wordsBytes p.csrcs ++ p.extensionBytes)

def bytes (p : RfcPacket) : List UInt8 := p.headerBytes ++ (p.payload ++ p.paddingBytes)

/-- `12 + 4 * CC + X * (4 + 4 * L)`. -/
def headerLength (p : RfcPacket) : Nat :=
  12 + 4 * p.csrcs.length + (p.extension.map (fun e => 4 + 4 * e.words.length)).getD 0

theorem headerBytes_length (p : RfcPacket) : p.headerBytes.length = p.headerLength := by
  have hfixed : p.fixedBytes.length = 12 := by simp [fixedBytes]
  unfold headerBytes headerLength extensionBytes
  rw [List.length_append, List.length_append, hfixed, wordsBytes_length]
  cases p.extension with
  | none => rfl
  | some e =>
    simp only [Option.map_some, Option.getD_some, Extension.bytes, List.length_append,
      netBytes_length, wordsBytes_length]
    omega

/-- The payload and the padding are what follows the header. -/
theorem bytes_drop (p : RfcPacket) :
    p.bytes.drop p.headerLength = p.payload ++ p.paddingBytes := by
  unfold bytes
  rw [← headerBytes_length, List.drop_left]

theorem bytes_length (p : RfcPacket) :
    p.bytes.length = p.headerLength + (p.payload ++ p.paddingBytes).length := by
  unfold bytes
  rw [List.length_append, headerBytes_length]

/-- Memory that starts with the bytes of the packet. -/
def LiesAt (p : RfcPacket) (m : Nat → UInt8) : Prop :=
  ∀ i < p.bytes.length, m i = p.bytes.getD i 0

variable {p : RfcPacket} {m : Nat → UInt8}

theorem firstByte_lt (p : RfcPacket) : p.firstByte < 256 := by
  have hcc := p.csrcs_le
  have hp := Bool.toNat_le p.padding.isSome
  have hx := Bool.toNat_le p.extension.isSome
  unfold firstByte
  omega

/-- The first two bytes, as numbers. -/
theorem LiesAt.first (h : p.LiesAt m) : (m 0).toNat = p.firstByte ∧
    (m 1).toNat = 128 * p.marker.toNat + p.payloadType.toNat := by
  have hlen := p.bytes_length
  have hhead : 12 ≤ p.headerLength := by
    unfold headerLength
    omega
  have h0 : m 0 = UInt8.ofNat (p.firstByte / 256 ^ 0) := h 0 (by omega)
  have h1 : m 1 = UInt8.ofNat ((128 * p.marker.toNat + p.payloadType.toNat) / 256 ^ 0) :=
    h 1 (by omega)
  have hfirst := p.firstByte_lt
  have hmarker := Bool.toNat_le p.marker
  have htype := p.payloadType.isLt
  rw [h0, h1, UInt8.toNat_ofNat', UInt8.toNat_ofNat', Nat.pow_zero, Nat.div_one, Nat.div_one]
  omega

/-- The two bytes where the class has the length of the extension. -/
def lengthAt (m : Nat → UInt8) : Nat := (m 14).toNat * 256 + (m 15).toNat

/-- With a CSRC word they are the low half of the first one. -/
theorem LiesAt.length_csrc (h : p.LiesAt m) {c : BitVec 32} {cs : List (BitVec 32)}
    (hcsrcs : p.csrcs = c :: cs) : lengthAt m = c.toNat % 2 ^ 16 := by
  have hbytes : p.bytes = p.fixedBytes ++ (netBytes 4 c.toNat ++ (wordsBytes cs ++
      p.extensionBytes ++ (p.payload ++ p.paddingBytes))) := by
    have hcons : wordsBytes (c :: cs) = netBytes 4 c.toNat ++ wordsBytes cs := rfl
    unfold bytes headerBytes
    rw [hcsrcs, hcons]
    simp only [List.append_assoc]
  have hlen : 16 ≤ p.bytes.length := by
    rw [bytes_length]
    unfold headerLength
    rw [hcsrcs, List.length_cons]
    omega
  have h14 : m 14 = UInt8.ofNat (c.toNat / 256 ^ 1) := by
    rw [h 14 (by omega), hbytes]
    rfl
  have h15 : m 15 = UInt8.ofNat (c.toNat / 256 ^ 0) := by
    rw [h 15 (by omega), hbytes]
    rfl
  unfold lengthAt
  rw [h14, h15, UInt8.toNat_ofNat', UInt8.toNat_ofNat']
  omega

/-- With an extension and no CSRC word they are its length. -/
theorem LiesAt.length_extension (h : p.LiesAt m) {e : Extension} (hcsrcs : p.csrcs = [])
    (hext : p.extension = some e) : lengthAt m = e.words.length := by
  have hbytes : p.bytes = p.fixedBytes ++ (netBytes 2 e.profile.toNat ++
      (netBytes 2 e.words.length ++ (wordsBytes e.words ++ (p.payload ++ p.paddingBytes)))) := by
    have hnil : wordsBytes [] = [] := rfl
    unfold bytes headerBytes extensionBytes Extension.bytes
    rw [hcsrcs, hnil, hext]
    simp only [Option.map_some, Option.getD_some, List.append_assoc, List.nil_append]
  have hlen : 16 ≤ p.bytes.length := by
    rw [bytes_length]
    unfold headerLength
    rw [hext, Option.map_some, Option.getD_some]
    omega
  have h14 : m 14 = UInt8.ofNat (e.words.length / 256 ^ 1) := by
    rw [h 14 (by omega), hbytes]
    rfl
  have h15 : m 15 = UInt8.ofNat (e.words.length / 256 ^ 0) := by
    rw [h 15 (by omega), hbytes]
    rfl
  have hlt := e.words_lt
  unfold lengthAt
  rw [h14, h15, UInt8.toNat_ofNat', UInt8.toNat_ofNat']
  omega

/-- What the class reads over a packet. -/
theorem LiesAt.getHeaderLength (h : p.LiesAt m) :
    (RtpHeader.ofBytes m).getHeaderLength =
      12 + 4 * p.csrcs.length + p.extension.isSome.toNat * (4 + 4 * lengthAt m) := by
  have hcc := p.csrcs_le
  have hp := Bool.toNat_le p.padding.isSome
  have hx := Bool.toNat_le p.extension.isSome
  have hcount : p.firstByte % 16 = p.csrcs.length := by
    unfold firstByte
    omega
  have hext : p.firstByte / 16 % 2 = p.extension.isSome.toNat := by
    unfold firstByte
    omega
  rw [getHeaderLength_ofBytes, h.first.1, hcount, hext]
  rfl

/-- Where the packet has both a CSRC list and an extension, the low half of the
first CSRC word happens to be the length of the extension. -/
def Aligned (p : RfcPacket) : Prop :=
  ∀ e c, p.extension = some e → p.csrcs.head? = some c → c.toNat % 2 ^ 16 = e.words.length

theorem LiesAt.headerLength_iff (h : p.LiesAt m) :
    (RtpHeader.ofBytes m).getHeaderLength = p.headerLength ↔ p.Aligned := by
  rw [h.getHeaderLength]
  unfold headerLength Aligned
  cases hext : p.extension with
  | none =>
    simp only [Option.isSome_none, Bool.toNat_false, Nat.zero_mul, Option.map_none,
      Option.getD_none, true_iff]
    intro e c hsome
    cases hsome
  | some e =>
    simp only [Option.isSome_some, Bool.toNat_true, Nat.one_mul, Option.map_some,
      Option.getD_some, Option.some.injEq]
    cases hcsrcs : p.csrcs with
    | nil =>
      rw [h.length_extension hcsrcs hext]
      simp
    | cons c cs =>
      rw [h.length_csrc hcsrcs]
      constructor
      · rintro hlength e' c' rfl hc
        cases hc
        omega
      · intro haligned
        rw [haligned e c rfl rfl]

/-- Over the bytes of any packet, the class gives the header length of RFC 3550
exactly when the packet is aligned. -/
theorem the_header_length_is_right_exactly_when_the_packet_is_aligned (h : p.LiesAt m) :
    (RtpHeader.ofBytes m).getHeaderLength = p.headerLength ↔ p.Aligned := h.headerLength_iff

/-- A packet with the given options, and zeros in its fixed header. -/
def plain (csrcs : List (BitVec 32)) (extension : Option Extension) (payload : List UInt8)
    (padding : Option (List UInt8)) (csrcs_le : csrcs.length ≤ 15)
    (padding_lt : ∀ fill, padding = some fill → fill.length < 255) : RfcPacket :=
  { marker := true, payloadType := 96, sequenceNumber := 0, timestamp := 0, ssrc := 0, csrcs,
    extension, payload, padding, csrcs_le, padding_lt }

/-- Memory that holds a packet, and zeros after it. -/
def memory (p : RfcPacket) (i : Nat) : UInt8 := p.bytes.getD i 0

theorem liesAt_memory (p : RfcPacket) : p.LiesAt p.memory := fun _ _ => rfl

def oneWord : Extension := { profile := 0xBEDE, words := [0], words_lt := by decide }

theorem no_csrc : ([] : List (BitVec 32)).length ≤ 15 := Nat.zero_le 15

theorem one_csrc : [(5 : BitVec 32)].length ≤ 15 := Nat.le_add_left 1 14

theorem no_padding : ∀ fill : List UInt8, none = some fill → fill.length < 255 := by
  intro fill h
  cases h

/-- An extension of one word, and no CSRC list. -/
def extended : RfcPacket := plain [] (some oneWord) [7] none no_csrc no_padding

/-- The same extension after a CSRC word of 5. -/
def mixed : RfcPacket := plain [5] (some oneWord) [7] none one_csrc no_padding

theorem the_header_length_of_an_extension_is_right :
    (RtpHeader.ofBytes extended.memory).getHeaderLength = 20 := by
  have haligned : extended.Aligned := by
    intro e c _ hc
    cases hc
  exact (the_header_length_is_right_exactly_when_the_packet_is_aligned
    (liesAt_memory extended)).mpr haligned

/-- The class takes the CSRC word for the length: five words instead of one. -/
theorem the_header_length_of_both_is_wrong :
    ¬ ∀ (p : RfcPacket) (m : Nat → UInt8), p.LiesAt m →
      (RtpHeader.ofBytes m).getHeaderLength = p.headerLength := by
  intro h
  have haligned := (liesAt_memory mixed).headerLength_iff.mp (h mixed _ (liesAt_memory mixed))
  have hfive := haligned oneWord 5 rfl rfl
  exact absurd hfive (by decide)

end RfcPacket

end payloader.rtp_packets
