-- The unpackager over the packets of RFC 3550, with a CSRC list or an extension
-- and with padding: what the sink gets at each marker. The class has
-- `hasPadding`, and the unpackager does not call it.
import Payloader.RtpPackets
import Payloader.UnpackagerLaws

set_option autoImplicit false

namespace payloader.unpackager_frames

open payloader.memory payloader.machines payloader.framing payloader.rtp_headers
open payloader.interfaces payloader.unpackager payloader.unpackager_laws payloader.rtp_packets

/-! ## What is read in a packet -/

/-- A packet without a CSRC list, or without an extension. -/
def Simple (p : RfcPacket) : Prop := p.csrcs = [] ∨ p.extension = none

/-- What the packet has for its receiver. -/
def rfcPiece (p : RfcPacket) : Piece UInt8 := { payload := p.payload, last := p.marker }

/-- What the unpackager takes for it: all that follows the header. -/
def takenPiece (p : RfcPacket) : Piece UInt8 :=
  { payload := p.payload ++ p.paddingBytes, last := p.marker }

variable {p : RfcPacket} {ps : List RfcPacket} {a : Arrival} {arrivals : List Arrival}
variable {buffer : Block UNPACKAGED_BUFFER_SIZE UInt8} {u : Unpackager}
variable {outs : List (Option AVPacket)}

theorem Simple.aligned (h : Simple p) : p.Aligned := by
  intro e c hext hc
  rcases h with hcsrcs | hnone
  · rw [hcsrcs] at hc
    cases hc
  · rw [hnone] at hext
    cases hext

theorem carries_liesAt (h : a.Carries p.bytes) : p.LiesAt a.inBuff.cell := h.cell

theorem carries_headerLength (h : a.Carries p.bytes) (hs : Simple p) :
    (head a).getHeaderLength = p.headerLength :=
  (carries_liesAt h).headerLength_iff.mpr hs.aligned

theorem carries_wellFormed (h : a.Carries p.bytes) (hs : Simple p) : WellFormed a := by
  refine ⟨h.room, ?_, ?_, h.address⟩
  · rw [h.size]
    exact h.fits
  · rw [carries_headerLength h hs, h.size, p.bytes_length]
    exact Nat.le_add_right _ _

/-- A packet is read as its payload with its padding. -/
theorem carries_piece (h : a.Carries p.bytes) (hs : Simple p) : (parse a).piece = takenPiece p := by
  have hpayload : (parse a).payload = p.payload ++ p.paddingBytes := by
    have hslice := slice_drop_take a.inBuff 0 p.bytes.length p.headerLength
      (p.bytes.length - p.headerLength) (by rw [p.bytes_length]; omega)
    rw [h.bytes, p.bytes_drop, List.take_of_length_le (by rw [p.bytes_length]; omega),
      Nat.zero_add] at hslice
    simp only [parse]
    rw [carries_headerLength h hs, h.size]
    exact hslice.symm
  have hmarker : (parse a).marker = p.marker := by
    have htype := p.payloadType.isLt
    rw [parse_marker]
    simp only [readFixedHeader]
    rw [(carries_liesAt h).first.2]
    cases p.marker with
    | true =>
      rw [beq_iff_eq, Bool.toNat_true]
      omega
    | false =>
      rw [beq_eq_false_iff_ne, Bool.toNat_false]
      omega
  unfold RtpPacket.piece takenPiece
  rw [hpayload, hmarker]

/-- The datagrams of a run carry the packets, one each. -/
def Carry (arrivals : List Arrival) (ps : List RfcPacket) : Prop :=
  List.Forall₂ (fun a p => a.Carries p.bytes) arrivals ps

theorem carry_wellFormed (h : Carry arrivals ps) (hs : ∀ p ∈ ps, Simple p) :
    ∀ a ∈ arrivals, WellFormed a := by
  intro a ha
  obtain ⟨p, hp, hcarries⟩ := forall₂_exists_right h a ha
  exact carries_wellFormed hcarries (hs p hp)

theorem carry_pieces (h : Carry arrivals ps) (hs : ∀ p ∈ ps, Simple p) :
    arrivals.map (fun a => (parse a).piece) = ps.map takenPiece := by
  induction h with
  | nil => rfl
  | cons hcarries _ ih =>
    rw [List.forall_mem_cons] at hs
    rw [List.map_cons, List.map_cons, carries_piece hcarries hs.1, ih hs.2]

/-! ## What is handed over -/

/-- A run that ends has handed over what it took between the markers. -/
theorem run_taken (h : Carry arrivals ps) (hs : ∀ p ∈ ps, Simple p)
    (hrun : run Unpackager.receive ((Unpackager.init buffer).setSink true) arrivals =
      .ok (u, outs)) :
    outs.map (Option.map AVPacket.data) = (collectAll [] (ps.map takenPiece)).2 := by
  have hagree := run_receive_agrees arrivals (tracks_init buffer true) (carry_wellFormed h hs)
  rw [hrun] at hagree
  obtain ⟨s, hspec, -⟩ := hagree.inv_ok
  rw [run_depacketize] at hspec
  split at hspec
  · cases hspec
    rw [handed_data _ _ rfl, List.map_map, ← carry_pieces h hs]
    rfl
  · cases hspec

theorem paddingBytes_nil : p.paddingBytes = [] ↔ p.padding = none := by
  unfold RfcPacket.paddingBytes
  cases p.padding with
  | none => exact iff_of_true rfl rfl
  | some fill => simp

theorem takenPiece_eq (h : p.padding = none) : takenPiece p = rfcPiece p := by
  unfold takenPiece
  rw [paddingBytes_nil.mpr h, List.append_nil]
  rfl

/-- Bytes of padding make what is taken longer. -/
theorem taken_length (ps : List RfcPacket) :
    (ps.map (fun p => (takenPiece p).payload)).flatten.length =
      (ps.map RfcPacket.payload).flatten.length +
        (ps.map RfcPacket.paddingBytes).flatten.length := by
  induction ps with
  | nil => rfl
  | cons p ps ih =>
    have hone : (takenPiece p).payload.length = p.payload.length + p.paddingBytes.length :=
      List.length_append
    simp only [List.map_cons, List.flatten_cons, List.length_append, ih, hone]
    omega

/-- The payloads since the marker before, with that of the marker `p`. -/
def framePayload (before : List RfcPacket) (p : RfcPacket) : List UInt8 :=
  ((before.rtakeWhile (fun q => !q.marker) ++ [p]).map RfcPacket.payload).flatten

/-- At each marker the sink gets the payloads since the marker before, and
nothing else. -/
def HandsOverPayloads (buffer : Block UNPACKAGED_BUFFER_SIZE UInt8) (arrivals : List Arrival)
    (ps : List RfcPacket) : Prop :=
  ∀ before p after, ps = before ++ p :: after → p.marker = true →
    ∃ u outs pkt,
      run Unpackager.receive ((Unpackager.init buffer).setSink true)
        (arrivals.take (before.length + 1)) = .ok (u, outs) ∧
      outs[before.length]? = some (some pkt) ∧ pkt.data = framePayload before p

/-- No packet up to a marker has padding. -/
def Unpadded (ps : List RfcPacket) : Prop :=
  ∀ before p after, ps = before ++ p :: after → p.marker = true →
    ∀ q ∈ before ++ [p], q.padding = none

section
variable {before after : List RfcPacket}

theorem take_split : (before ++ p :: after).take (before.length + 1) = before ++ [p] := by
  rw [List.append_cons]
  exact List.take_left' (by rw [List.length_append, List.length_singleton])

theorem carry_take (h : Carry arrivals (before ++ p :: after)) :
    Carry (arrivals.take (before.length + 1)) (before ++ [p]) := by
  have htake := List.forall₂_take (before.length + 1) h
  rwa [take_split] at htake

theorem mem_split {q : RfcPacket} (hq : q ∈ before ++ [p]) : q ∈ before ++ p :: after := by
  rw [List.append_cons]
  exact List.mem_append_left after hq

/-- Without padding the frame of a marker is handed over as it is. -/
theorem frame_without_padding (hcarry : Carry arrivals (before ++ p :: after))
    (hs : ∀ q ∈ before ++ p :: after, Simple q)
    (hfit : ∀ x ∈ loads 0 ((before ++ p :: after).map rfcPiece), x ≤ UNPACKAGED_BUFFER_SIZE)
    (hmarker : p.marker = true) (hnone : ∀ q ∈ before ++ [p], q.padding = none) :
    ∃ u outs pkt,
      run Unpackager.receive ((Unpackager.init buffer).setSink true)
        (arrivals.take (before.length + 1)) = .ok (u, outs) ∧
      outs[before.length]? = some (some pkt) ∧ pkt.data = framePayload before p := by
  have htaken : (before ++ [p]).map takenPiece = (before ++ [p]).map rfcPiece :=
    List.map_congr_left (fun q hq => takenPiece_eq (hnone q hq))
  have hsimple : ∀ q ∈ before ++ [p], Simple q := fun q hq => hs q (mem_split hq)
  have hpieces := carry_pieces (carry_take hcarry) hsimple
  have hloads : ∀ x ∈ loads 0 ((arrivals.take (before.length + 1)).map
      (fun a => (parse a).piece)), x ≤ UNPACKAGED_BUFFER_SIZE := by
    rw [hpieces, htaken, ← take_split, List.map_take]
    exact loads_take hfit _
  obtain ⟨u, hrun⟩ := run_receive _ (tracks_init buffer true)
    (carry_wellFormed (carry_take hcarry) hsimple) hloads
  have hdata := run_taken (carry_take hcarry) hsimple hrun
  rw [htaken] at hdata
  have hframe := collectAll_frame rfcPiece before p hmarker
  rw [← hdata, List.getElem?_map] at hframe
  obtain ⟨out, hout, hpkt⟩ := Option.map_eq_some_iff.mp hframe
  obtain ⟨pkt, rfl, hbytes⟩ := Option.map_eq_some_iff.mp hpkt
  exact ⟨u, _, pkt, hrun, hout, hbytes⟩

/-- A frame that is handed over as it is has no padding. -/
theorem padding_of_frame (hcarry : Carry arrivals (before ++ p :: after))
    (hs : ∀ q ∈ before ++ p :: after, Simple q) (hmarker : p.marker = true) {pkt : AVPacket}
    (hrun : run Unpackager.receive ((Unpackager.init buffer).setSink true)
      (arrivals.take (before.length + 1)) = .ok (u, outs))
    (hout : outs[before.length]? = some (some pkt))
    (hdata : pkt.data = framePayload before p) :
    ∀ q ∈ before.rtakeWhile (fun q => !q.marker) ++ [p], q.padding = none := by
  have htaken := run_taken (carry_take hcarry) (fun q hq => hs q (mem_split hq)) hrun
  have hframe := collectAll_frame takenPiece before p hmarker
  rw [← htaken, List.getElem?_map, hout, Option.map_some, Option.map_some, Option.some_inj,
    Option.some_inj, hdata] at hframe
  have hlength := congrArg List.length hframe
  unfold framePayload at hlength
  simp only [show ∀ q, (takenPiece q).last = q.marker from fun _ => rfl] at hlength
  rw [taken_length] at hlength
  have hnil := List.length_eq_zero_iff.mp (Nat.left_eq_add.mp hlength)
  rw [List.flatten_eq_nil_iff, List.forall_mem_map] at hnil
  exact fun q hq => paddingBytes_nil.mp (hnil q hq)
end

/-- Over packets of any sender that fit the buffer, the sink gets the payloads
between the markers exactly when no packet up to a marker has padding. -/
theorem the_payloads_are_handed_over_exactly_when_no_packet_has_padding
    (buffer : Block UNPACKAGED_BUFFER_SIZE UInt8) (arrivals : List Arrival) (ps : List RfcPacket)
    (hcarry : Carry arrivals ps) (hs : ∀ p ∈ ps, Simple p)
    (hfit : ∀ x ∈ loads 0 (ps.map rfcPiece), x ≤ UNPACKAGED_BUFFER_SIZE) :
    HandsOverPayloads buffer arrivals ps ↔ Unpadded ps := by
  constructor
  · rintro hhands before p after rfl hmarker q hq
    -- the frame of `q` ends at a marker, which may come before `p`
    have hend : ∃ x, (before ++ [p]).getLast? = some x ∧ x.marker = true :=
      ⟨p, List.getLast?_concat, hmarker⟩
    obtain ⟨mid, x, rest, hsplit, hx, hmem⟩ :=
      exists_frame RfcPacket.marker q (before ++ [p]) [] hend (Or.inr hq)
    have hwhole : before ++ p :: after = mid ++ x :: (rest ++ after) := by
      rw [List.append_cons, hsplit, List.append_assoc, List.cons_append]
    obtain ⟨u, outs, pkt, hrun, hout, hdata⟩ := hhands mid x (rest ++ after) hwhole hx
    rw [hwhole] at hcarry hs
    rw [List.nil_append] at hmem
    exact padding_of_frame hcarry hs hx hrun hout hdata q hmem
  · rintro hnone before p after rfl hmarker
    exact frame_without_padding hcarry hs hfit hmarker (hnone before p after rfl hmarker)

/-- Two bytes behind a CSRC list, with the marker. -/
def listed : RfcPacket :=
  RfcPacket.plain [5] none [7, 7] none RfcPacket.one_csrc RfcPacket.no_padding

theorem two_paddings (fill : List UInt8) (h : some [0] = some fill) : fill.length < 255 := by
  obtain rfl := Option.some_inj.mp h
  decide

/-- Two bytes before two bytes of padding, with the marker. -/
def padded : RfcPacket :=
  RfcPacket.plain [] none [7, 7] (some [0]) RfcPacket.no_csrc two_paddings

theorem carry_one (p : RfcPacket) (h : p.bytes.length ≤ 1500) :
    Carry [Arrival.padded p.bytes] [p] := by
  have h12 : 12 ≤ p.bytes.length := by
    rw [p.bytes_length]
    unfold RfcPacket.headerLength
    omega
  exact .cons (Arrival.padded_carries p.bytes h12 h) .nil

theorem two_bytes_fit (hp : p.payload.length = 2) :
    ∀ x ∈ loads 0 ([p].map rfcPiece), x ≤ UNPACKAGED_BUFFER_SIZE := by
  have htwo : (rfcPiece p).payload.length = 2 := hp
  rw [List.map_singleton, loads, loads, List.forall_mem_singleton, htwo]
  decide

theorem a_packet_with_a_csrc_is_handed_over :
    HandsOverPayloads (Block.ofList [] 0) [Arrival.padded listed.bytes] [listed] := by
  refine (the_payloads_are_handed_over_exactly_when_no_packet_has_padding _ _ _
    (carry_one listed (by decide)) (List.forall_mem_singleton.mpr (Or.inr rfl))
    (two_bytes_fit rfl)).mpr ?_
  intro before p after hsplit _ q hq
  have hmem : q ∈ [listed] := by
    rw [hsplit]
    exact mem_split hq
  rw [List.mem_singleton.mp hmem]
  rfl

/-- The padding goes to the sink with the payload. -/
theorem padding_is_handed_over :
    ¬ ∀ (buffer : Block UNPACKAGED_BUFFER_SIZE UInt8) (arrivals : List Arrival)
      (ps : List RfcPacket), Carry arrivals ps → (∀ p ∈ ps, Simple p) →
      (∀ x ∈ loads 0 (ps.map rfcPiece), x ≤ UNPACKAGED_BUFFER_SIZE) →
        HandsOverPayloads buffer arrivals ps := by
  intro h
  have hcarry : Carry [Arrival.padded padded.bytes] ([] ++ padded :: []) :=
    carry_one padded (by decide)
  have hs : ∀ p ∈ [] ++ padded :: [], Simple p := List.forall_mem_singleton.mpr (Or.inl rfl)
  obtain ⟨u, outs, pkt, hrun, hout, hdata⟩ :=
    h (Block.ofList [] 0) _ _ hcarry hs (two_bytes_fit rfl) [] padded [] rfl rfl
  have hnone := padding_of_frame hcarry hs rfl hrun hout hdata padded
    (List.mem_append_right _ (List.mem_singleton_self _))
  cases hnone

end payloader.unpackager_frames
