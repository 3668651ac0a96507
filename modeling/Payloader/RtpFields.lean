-- The accessors of the class `RtpHeader`. Its members share bytes, and some of
-- them are swapped on the way in and some are not, but each accessor pair is a
-- register of its own, and the image of the object is the header of RFC 3550.
import Payloader.Registers
import Payloader.RtpPackets

set_option autoImplicit false

namespace payloader.rtp_fields

open payloader.memory payloader.byte_order payloader.registers payloader.rtp_headers
open payloader.rtp_packets

/-! ## The accessor pairs -/

inductive Field
  | version
  | marker
  | extension
  | cc
  | payloadType
  | seqNumber
  | timestamp
  | ssrc
  | extId
  | extLength
  deriving DecidableEq, Repr

/-- The bits of a member. -/
def Field.width : Field → Nat
  | .version => 2
  | .marker => 1
  | .extension => 1
  | .cc => 4
  | .payloadType => 7
  | .seqNumber => 16
  | .timestamp => 32
  | .ssrc => 32
  | .extId => 16
  | .extLength => 16

/-- A setter call. C cuts the argument to the type of the parameter. -/
def set (f : Field) (v : BitVec 32) (h : RtpHeader) : RtpHeader :=
  match f with
  | .version => h.setVersion (v.setWidth 8)
  | .marker => h.setMarker (v.setWidth 8)
  | .extension => h.setExtension (v.setWidth 8)
  | .cc => h.setCc (v.setWidth 8)
  | .payloadType => h.setPayloadType (v.setWidth 8)
  | .seqNumber => h.setSeqNumber (v.setWidth 16)
  | .timestamp => h.setTimestamp v
  | .ssrc => h.setSSRC v
  | .extId => h.setExtId (v.setWidth 16)
  | .extLength => h.setExtLength (v.setWidth 16)

def get (f : Field) (h : RtpHeader) : Nat :=
  match f with
  | .version => h.getVersion.toNat
  | .marker => h.getMarker.toNat
  | .extension => h.getExtension.toNat
  | .cc => h.getCc.toNat
  | .payloadType => h.getPayloadType.toNat
  | .seqNumber => h.getSeqNumber.toNat
  | .timestamp => h.getTimestamp.toNat
  | .ssrc => h.getSSRC.toNat
  | .extId => h.getExtId.toNat
  | .extLength => h.getExtLength.toNat

/-- What a member keeps of a value. -/
def keep (f : Field) (v : BitVec 32) : Nat := v.toNat % 2 ^ f.width

theorem fields_independent : Independent get set keep where
  same f v h := by
    cases f with
    | version => exact toNat_cut v (by decide) (by decide)
    | marker => exact toNat_cut v (by decide) (by decide)
    | extension => exact toNat_cut v (by decide) (by decide)
    | cc => exact toNat_cut v (by decide) (by decide)
    | payloadType => exact toNat_cut v (by decide) (by decide)
    | seqNumber => exact toNat_half v
    | timestamp => exact toNat_word v
    | ssrc => exact toNat_word v
    | extId => exact toNat_half v
    | extLength => exact toNat_half v
  other f g v h hne := by
    cases f <;> cases g <;> first
      | rfl
      | exact absurd rfl hne

/-- What a getter gives on a new header. -/
def atFirst (f : Field) : Nat := if f = .version then 2 else 0

theorem get_init (f : Field) : get f RtpHeader.init = atFirst f := by cases f <;> rfl

/-! ## The image -/

/-- The 12 bytes of the fixed header, in network byte order. -/
def FixedHeader.bytes (h : FixedHeader) : List UInt8 :=
  netBytes 1 (64 * h.version + 32 * h.padding + 16 * h.extension + h.csrcCount) ++
    netBytes 1 (128 * h.marker + h.payloadType) ++ netBytes 2 h.sequenceNumber ++
    netBytes 4 h.timestamp ++ netBytes 4 h.ssrc

/-- The image of any header starts with its fixed header. -/
theorem image_fixed (h : RtpHeader) : h.image.take 12 = FixedHeader.bytes h.fixed := by
  have htake : h.image.take 12 =
      wordBytes h.flagsWord ++ wordBytes h.timestamp ++ wordBytes h.ssrc := rfl
  have h1 := h.cc.isLt
  have h2 := h.hasextension.isLt
  have h3 := h.padding.isLt
  have h4 := h.version.isLt
  have h5 := h.payloadtype.isLt
  have h6 := h.marker.isLt
  have h7 := h.seqnum.isLt
  have hseq := (ntohs h.seqnum).isLt
  have hflags : (ntohl h.flagsWord).toNat =
      (64 * h.version.toNat + 32 * h.padding.toNat + 16 * h.hasextension.toNat + h.cc.toNat) *
        2 ^ 24 + (128 * h.marker.toNat + h.payloadtype.toNat) * 2 ^ 16 +
        (ntohs h.seqnum).toNat := by
    rw [toNat_ntohl, toNat_ntohs, RtpHeader.toNat_flagsWord]
    omega
  rw [htake, wordBytes_eq, wordBytes_eq, wordBytes_eq, hflags,
    netBytes_parts _ _ _ (by omega) hseq]
  rfl

/-- The fixed header of the values that the getters give. -/
def shown (h : RtpHeader) : FixedHeader :=
  { version := get .version h
    padding := h.hasPadding.toNat
    extension := get .extension h
    csrcCount := get .cc h
    marker := get .marker h
    payloadType := get .payloadType h
    sequenceNumber := get .seqNumber h
    timestamp := get .timestamp h
    ssrc := get .ssrc h }

theorem shown_eq (h : RtpHeader) : shown h = h.fixed := by
  have hwide : ∀ {w : Nat} (x : BitVec w), w ≤ 8 → (x.setWidth 8).toNat = x.toNat :=
    fun x hw => BitVec.toNat_setWidth_of_le hw
  unfold shown RtpHeader.fixed get RtpHeader.getVersion RtpHeader.hasPadding
    RtpHeader.getExtension RtpHeader.getCc RtpHeader.getMarker RtpHeader.getPayloadType
  simp only [hwide h.version (by decide), hwide h.padding (by decide),
    hwide h.hasextension (by decide), hwide h.cc (by decide), hwide h.marker (by decide),
    hwide h.payloadtype (by decide)]
  rfl

/-! ## Runs of setters -/

/-- What a run of setters has put in a member of a new header. -/
def valueOf (calls : List (Field × BitVec 32)) (f : Field) : Nat :=
  ((lastValue f calls).map (keep f)).getD (atFirst f)

/-- The header of these values. There is no setter for the padding bit. -/
def headerOf (calls : List (Field × BitVec 32)) : FixedHeader :=
  { version := valueOf calls .version
    padding := 0
    extension := valueOf calls .extension
    csrcCount := valueOf calls .cc
    marker := valueOf calls .marker
    payloadType := valueOf calls .payloadType
    sequenceNumber := valueOf calls .seqNumber
    timestamp := valueOf calls .timestamp
    ssrc := valueOf calls .ssrc }

theorem get_calls (calls : List (Field × BitVec 32)) (f : Field) :
    get f (setAll set calls RtpHeader.init) = valueOf calls f := by
  rw [fields_independent.get_setAll, get_init]
  rfl

theorem hasPadding_calls (calls : List (Field × BitVec 32)) :
    (setAll set calls RtpHeader.init).hasPadding.toNat = 0 :=
  setAll_kept (fun h : RtpHeader => h.hasPadding.toNat)
    (fun f v h => by cases f <;> rfl) calls RtpHeader.init

theorem shown_calls (calls : List (Field × BitVec 32)) :
    shown (setAll set calls RtpHeader.init) = headerOf calls := by
  unfold shown headerOf
  simp only [get_calls, hasPadding_calls]

/-- Bytes with this header in front give its values again. -/
theorem shown_ofBytes {m : Nat → UInt8} {h : RtpHeader}
    (hm : ∀ i < 12, m i = (FixedHeader.bytes (shown h)).getD i 0) :
    shown (RtpHeader.ofBytes m) = shown h := by
  have himage : ∀ i < 12, m i = h.image.getD i 0 := by
    intro i hi
    rw [hm i hi, shown_eq, ← image_fixed, List.getD_eq_getElem?_getD, List.getElem?_take,
      if_pos hi, List.getD_eq_getElem?_getD]
  obtain ⟨p, l, hbytes⟩ := RtpHeader.ofBytes_image himage
  rw [hbytes]
  rfl

/-- Each getter gives what the last call of its setter has put there, cut to
the width of the member. No setter changes another member. The image starts
with the header of these values, and these 12 bytes give them again. -/
theorem the_accessors_hold_the_fixed_header (calls : List (Field × BitVec 32)) :
    (∀ f, get f (setAll set calls RtpHeader.init) = valueOf calls f) ∧
      (∀ f g v h, g ≠ f → get g (set f v h) = get g h) ∧
      (setAll set calls RtpHeader.init).image.take 12 = FixedHeader.bytes (headerOf calls) ∧
      ∀ m : Nat → UInt8, (∀ i < 12, m i = (FixedHeader.bytes (headerOf calls)).getD i 0) →
        shown (RtpHeader.ofBytes m) = headerOf calls := by
  refine ⟨get_calls calls, fields_independent.other, ?_, fun m hm => ?_⟩
  · rw [image_fixed, ← shown_eq, shown_calls]
  · rw [← shown_calls] at hm ⊢
    exact shown_ofBytes hm

end payloader.rtp_fields
