-- One RTP session: a packager, a network that loses datagrams, and an
-- unpackager. The datagrams of the frames that come through are cut into
-- groups again by the markers alone, so a lost marker is all that can go wrong.
import Payloader.PackagerLaws
import Payloader.Unpackager

set_option autoImplicit false

namespace payloader.rtp_session

open payloader.memory payloader.machines payloader.framing payloader.rtp_headers
open payloader.interfaces payloader.packager payloader.packager_laws payloader.unpackager

/-! ## The session -/

/-- A packager right after `init`, with a sink. -/
def sender (outBuff_ rtpBuffer_ : Block PACKAGED_BUFFER_SIZE UInt8) : Packager :=
  (Packager.init outBuff_ rtpBuffer_).setSink true

/-- An unpackager right after `init`, with a sink. -/
def receiver (buffer : Block UNPACKAGED_BUFFER_SIZE UInt8) : Unpackager :=
  (Unpackager.init buffer).setSink true

/-- A video frame of at least one byte. An `AVPacket` has its size in an `int`. -/
def Video (c : Call) : Prop :=
  c.type = .AVMEDIA_TYPE_VIDEO ∧ 0 < c.packet.data.length ∧ c.packet.data.length < 2 ^ 31

/-- A video frame that the receiver's buffer can hold. -/
def Frame (c : Call) : Prop :=
  c.type = .AVMEDIA_TYPE_VIDEO ∧ 0 < c.packet.data.length ∧ c.packet.data.length ≤ 1500000

/-- What a datagram of this sender carries. -/
def packetOf (d : List UInt8) : RtpPacket :=
  { payload := d.drop 12
    marker := (headerOf d).marker == 1
    timestamp := (headerOf d).timestamp }

/-- Some datagrams of each call come through, in order. -/
def ComeThrough (got sent : List (List (List UInt8))) : Prop := List.Forall₂ List.Sublist got sent

/-- The buffers that the unpackager gets hold the datagrams that came through. -/
def Carry (arrivals : List Arrival) (got : List (List (List UInt8))) : Prop :=
  List.Forall₂ Arrival.Carries arrivals got.flatten

/-- The payload bytes from one marker that came through to the next fit the buffer. -/
def Fits (got : List (List (List UInt8))) : Prop :=
  ∀ x ∈ loads 0 (got.flatten.map (fun d => (packetOf d).piece)), x ≤ 1500000

/-- The marker datagram of frame `k` came through. -/
def MarkerCame (got : List (List (List UInt8))) (k : Nat) : Prop :=
  ∃ ds, got[k]? = some ds ∧ ∃ d ∈ ds, (headerOf d).marker = 1

/-- Some datagram of frame `k` came through. -/
def SomeCame (got : List (List (List UInt8))) (k : Nat) : Prop :=
  ∃ ds, got[k]? = some ds ∧ ds ≠ []

theorem Frame.video {c : Call} (h : Frame c) : Video c :=
  ⟨h.1, h.2.1, by have := h.2.2; omega⟩

theorem frames_video {calls : List Call} (h : ∀ c ∈ calls, Frame c) : ∀ c ∈ calls, Video c :=
  fun c hc => (h c hc).video

/-- The sender's datagrams, for a list of frames. -/
theorem sends_frames [FFmpeg] (outBuff_ rtpBuffer_ : Block PACKAGED_BUFFER_SIZE UInt8)
    (calls : List Call) (h : ∀ c ∈ calls, Video c) :
    Sends (sender outBuff_ rtpBuffer_) calls (sentBy 0 calls) :=
  sends_sentBy _ calls rfl (fun c hc _ => (h c hc).2)

/-! ## From the sender's datagrams to the receiver's packets -/

/-- The receiver reads in a datagram of this sender what the sender put there. -/
theorem carries_parse {a : Arrival} {b : Bool} {seq dts : BitVec 32} {millis : BitVec 64}
    {payload : List UInt8} (h : a.Carries (datagram b seq dts millis payload)) :
    WellFormed a ∧ parse a = packetOf (datagram b seq dts millis payload) := by
  have hlen : (datagram b seq dts millis payload).length = 12 + payload.length :=
    datagram_length b seq dts millis payload
  have hread : readFixedHeader a.inBuff.cell = headerOf (datagram b seq dts millis payload) :=
    readFixedHeader_congr (fun i hi => h.cell i (by omega))
  have h12 : (head a).getHeaderLength = 12 := by
    apply getHeaderLength_plain
    · rw [hread, headerOf_datagram]
    · rw [hread, headerOf_datagram]
  refine ⟨⟨h.room, h.size ▸ h.fits, by rw [h12, h.size]; omega, h.address⟩, ?_⟩
  have hpayload : (parse a).payload = (datagram b seq dts millis payload).drop 12 := by
    have hpart := slice_drop_take a.inBuff 0 (datagram b seq dts millis payload).length 12
      payload.length (by omega)
    rw [h.bytes, Nat.zero_add, datagram_drop, List.take_length] at hpart
    rw [datagram_drop, hpart]
    simp only [parse, h12, h.size, hlen, Nat.add_sub_cancel_left]
  unfold packetOf
  rw [← hpayload, ← hread, ← parse_marker, ← parse_timestamp]

theorem ComeThrough.flatten {got sent : List (List (List UInt8))} (h : ComeThrough got sent) :
    got.flatten.Sublist sent.flatten := by
  induction h with
  | nil => exact List.Sublist.slnil
  | cons hds _ ih =>
    rw [List.flatten_cons, List.flatten_cons]
    exact hds.append ih

theorem ComeThrough.refl (sent : List (List (List UInt8))) : ComeThrough sent sent :=
  List.forall₂_same.mpr fun _ _ => List.Sublist.refl _

/-- Every datagram of the sender is a header and a payload. -/
theorem mem_sentBy {seq : BitVec 32} {calls : List Call} {d : List UInt8}
    (h : d ∈ (sentBy seq calls).flatten) :
    ∃ b n dts millis payload, d = datagram b n dts millis payload ∧ 0 < payload.length ∧
      payload.length ≤ 1099 := by
  obtain ⟨n, hn⟩ := List.mem_iff_getElem?.mp h
  obtain ⟨b, dts, millis, payload, rfl, h1, h2⟩ := sentBy_flatten_getElem? hn
  exact ⟨b, _, dts, millis, payload, rfl, h1, h2⟩

/-- Buffers that carry what comes through exist. -/
theorem carry_padded {seq : BitVec 32} {calls : List Call} {got : List (List (List UInt8))}
    (hgot : ComeThrough got (sentBy seq calls)) : Carry (got.flatten.map Arrival.padded) got := by
  unfold Carry
  rw [List.forall₂_map_left_iff, List.forall₂_same]
  intro d hd
  obtain ⟨b, n, dts, millis, payload, rfl, h1, h2⟩ := mem_sentBy (hgot.flatten.subset hd)
  have hlen := datagram_length b n dts millis payload
  exact Arrival.padded_carries _ (by omega) (by omega)

/-- The receiver reads the datagrams that come through as they were sent. -/
theorem carry_parse {seq : BitVec 32} {calls : List Call} {arrivals : List Arrival}
    {got : List (List (List UInt8))} (hgot : ComeThrough got (sentBy seq calls))
    (hcarry : Carry arrivals got) :
    (∀ a ∈ arrivals, WellFormed a) ∧ arrivals.map parse = got.flatten.map packetOf := by
  have hsub := hgot.flatten.subset
  unfold Carry at hcarry
  generalize got.flatten = ds at hsub hcarry
  induction hcarry with
  | nil => simp
  | cons hd _ ih =>
    obtain ⟨b, n, dts, millis, payload, rfl, -⟩ := mem_sentBy (hsub List.mem_cons_self)
    obtain ⟨h1, h2⟩ := carries_parse hd
    obtain ⟨h3, h4⟩ := ih (fun x hx => hsub (List.mem_cons_of_mem _ hx))
    exact ⟨List.forall_mem_cons.mpr ⟨h1, h3⟩, by rw [List.map_cons, List.map_cons, h2, h4]⟩

/-- The receiver's spec, right after `init`. -/
def fresh : Depacketizer := { sink := true, acc := [], first := -1 }

/-- The receiver's run over the datagrams that come through. -/
theorem run_got (buffer : Block UNPACKAGED_BUFFER_SIZE UInt8) {seq : BitVec 32}
    {calls : List Call} {arrivals : List Arrival} {got : List (List (List UInt8))}
    (hgot : ComeThrough got (sentBy seq calls)) (hcarry : Carry arrivals got) (hfit : Fits got) :
    ∃ u, run Unpackager.receive (receiver buffer) arrivals =
      .ok (u, handed fresh (got.flatten.map packetOf)) := by
  obtain ⟨hwf, hparse⟩ := carry_parse hgot hcarry
  have hloads : arrivals.map (fun a => (parse a).piece) =
      got.flatten.map (fun d => (packetOf d).piece) := by
    have h := congrArg (List.map RtpPacket.piece) hparse
    rwa [List.map_map, List.map_map] at h
  rw [← hparse]
  exact run_receive arrivals (tracks_init buffer true) hwf (by rw [hloads]; exact hfit)

/-! ## The frames as groups of datagrams -/

theorem packetOf_datagramAt (seq dts : BitVec 32) (millis : BitVec 64) (data : List UInt8)
    (i : Nat) :
    packetOf (datagramAt seq dts millis data i) =
      { payload := piece 1099 data i
        marker := i + 1 == pieceCount 1099 data.length
        timestamp := (timestampOf dts millis).toNat } := by
  unfold packetOf datagramAt
  rw [headerOf_datagram, datagram_drop]
  by_cases h : i + 1 = pieceCount 1099 data.length <;> simp [h]

/-- The datagrams of one frame, with the marker of each as its mark: the last
one has it and no other. -/
theorem frameDatagrams_complete {α : Type} (f : List UInt8 → Piece α)
    (hf : ∀ d, (f d).last = (packetOf d).marker) (seq dts : BitVec 32) (millis : BitVec 64)
    (data : List UInt8) (h : 0 < data.length) :
    Complete ((frameDatagrams seq dts millis data).map f) := by
  obtain ⟨m, hm⟩ : ∃ m, pieceCount 1099 data.length = m + 1 :=
    ⟨_, (Nat.succ_pred_eq_of_pos ((pieceCount_pos (by decide)).mpr h)).symm⟩
  unfold frameDatagrams
  rw [List.map_map, hm, List.range_succ, List.map_append]
  refine ⟨_, _, rfl, List.forall_mem_map.mpr fun i hi => ?_, ?_⟩
  · have hlt := List.mem_range.mp hi
    rw [Function.comp_apply, hf, packetOf_datagramAt, hm, beq_eq_false_iff_ne]
    omega
  · simp only [Function.comp_apply, hf, packetOf_datagramAt, hm, beq_self_eq_true]

/-- Together the datagrams of a frame carry the frame. -/
theorem frameDatagrams_payload (seq dts : BitVec 32) (millis : BitVec 64) (data : List UInt8) :
    ((frameDatagrams seq dts millis data).map (fun d => (packetOf d).payload)).flatten =
      data := by
  have hflat := flatten_pieces (k := 1099) (by decide) data
  unfold pieces at hflat
  unfold frameDatagrams
  rw [List.map_map]
  simp only [Function.comp_def, packetOf_datagramAt]
  exact hflat

/-- What a sender of frames sends for frame `k`. -/
theorem sentBy_frame (seq : BitVec 32) {calls : List Call} {k : Nat} {c : Call}
    (hc : calls[k]? = some c) (h : Video c) :
    ∃ start, (sentBy seq calls)[k]? =
      some (frameDatagrams start c.dts c.millis c.packet.data) := by
  obtain ⟨start, hs⟩ := sentBy_getElem? seq hc
  exact ⟨start, by rw [hs, if_pos h.1]⟩

/-- What comes through of a frame is a partial frame. -/
theorem got_partial {seq : BitVec 32} {calls : List Call} {got : List (List (List UInt8))}
    (h : ∀ c ∈ calls, Video c) (hgot : ComeThrough got (sentBy seq calls)) {ds : List (List UInt8)}
    (hds : ds ∈ got) : Partial (ds.map (fun d => (packetOf d).piece)) := by
  obtain ⟨ss, hss, hsub⟩ := forall₂_exists_right hgot ds hds
  obtain ⟨k, hk⟩ := List.mem_iff_getElem?.mp hss
  have hlt : k < calls.length := by
    have := (List.getElem?_eq_some_iff.mp hk).1
    rwa [sentBy_length] at this
  have hc := List.getElem?_eq_getElem hlt
  obtain ⟨start, hs⟩ := sentBy_frame seq hc (h _ (List.getElem_mem hlt))
  rw [hk, Option.some.injEq] at hs
  subst hs
  exact (frameDatagrams_complete _ (fun _ => rfl) _ _ _ _ (h _ (List.getElem_mem hlt)).2.1).sublist
    (hsub.map _)

end payloader.rtp_session
