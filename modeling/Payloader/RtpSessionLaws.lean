-- The laws of a session: which frames arrive whole, at what times, and which
-- losses make one packet out of two frames.
import Payloader.Origins
import Payloader.RtpSession
import Mathlib.Data.List.Nodup

set_option autoImplicit false

namespace payloader.rtp_session_laws

open payloader.memory payloader.machines payloader.framing payloader.rtp_headers
open payloader.interfaces payloader.packager payloader.packager_laws payloader.unpackager
open payloader.origins payloader.rtp_session

/-! ## Delivery -/

/-- What a receiver hands over: the payloads between the markers. -/
theorem handed_fresh (got : List (List (List UInt8))) :
    (handed fresh (got.flatten.map packetOf)).map (Option.map AVPacket.data) =
      (collectAll [] (got.flatten.map (fun d => (packetOf d).piece))).2 := by
  rw [handed_data _ _ rfl, List.map_map]
  rfl

/-- The marker of the frame before came through, so the buffer is empty when
frame `k` starts. -/
theorem empty_before {seq : BitVec 32} {calls : List Call} {got : List (List (List UInt8))}
    {k : Nat} (h : ∀ c ∈ calls, Video c) (hgot : ComeThrough got (sentBy seq calls))
    (hk : k = 0 ∨ MarkerCame got (k - 1)) :
    (collectAll [] ((got.take k).flatten.map (fun d => (packetOf d).piece))).1 = [] := by
  cases k with
  | zero => rfl
  | succ k =>
    rw [Nat.add_sub_cancel] at hk
    obtain ⟨ds, hds, d, hd, hm⟩ := hk.resolve_left (Nat.succ_ne_zero k)
    have hpartial := got_partial h hgot (List.mem_of_getElem? hds)
    have hmarked : Marked (ds.map (fun d => (packetOf d).piece)) :=
      ⟨_, List.mem_map_of_mem hd, beq_iff_eq.mpr hm⟩
    rw [List.take_add_one, hds, List.flatten_append, List.map_append, collectAll_append]
    simpa using collectAll_of_marked hpartial hmarked _

/-- A frame of which nothing is lost, after a marker that came through, is
handed over whole at its own marker. -/
theorem frame_at_marker {seq : BitVec 32} {calls : List Call} {got : List (List (List UInt8))}
    {k : Nat} {c : Call} (h : ∀ c ∈ calls, Video c) (hgot : ComeThrough got (sentBy seq calls))
    (hc : calls[k]? = some c) (hall : got[k]? = (sentBy seq calls)[k]?)
    (hk : k = 0 ∨ MarkerCame got (k - 1)) :
    (collectAll [] (got.flatten.map (fun d => (packetOf d).piece))).2[
      (got.take (k + 1)).flatten.length - 1]? = some (some c.packet.data) := by
  have hframe := h c (List.mem_of_getElem? hc)
  obtain ⟨start, hs⟩ := sentBy_frame seq hc hframe
  have hcomplete := frameDatagrams_complete (fun d => (packetOf d).piece) (fun _ => rfl) start c.dts
    c.millis c.packet.data hframe.2.1
  have hdata := frameDatagrams_payload start c.dts c.millis c.packet.data
  rw [hs] at hall
  have hempty := empty_before h hgot hk
  have hsplit : got = got.take k ++
      (frameDatagrams start c.dts c.millis c.packet.data :: got.drop (k + 1)) := by
    obtain ⟨hlt, hget⟩ := List.getElem?_eq_some_iff.mp hall
    rw [← hget, List.cons_getElem_drop_succ, List.take_append_drop]
  have hat := collectAll_at hempty hcomplete
    ((got.drop (k + 1)).flatten.map (fun d => (packetOf d).piece))
  rw [← List.map_append, ← List.map_append, ← List.map_append, List.length_map, List.map_map,
    ← List.flatten_cons, ← List.flatten_append, ← hsplit] at hat
  rw [List.take_add_one, hall, List.flatten_append]
  simpa [Function.comp_def, hdata] using hat

theorem sentBy_complete (seq : BitVec 32) {calls : List Call} (h : ∀ c ∈ calls, Video c) :
    (∀ ds ∈ sentBy seq calls, Complete (ds.map (fun d => (packetOf d).piece))) ∧
      (sentBy seq calls).map (fun ds => (ds.map (fun d => (packetOf d).payload)).flatten) =
        calls.map (fun c => c.packet.data) := by
  induction calls generalizing seq with
  | nil => simp [sentBy]
  | cons c cs ih =>
    rw [List.forall_mem_cons] at h
    have hcomplete := frameDatagrams_complete (fun d => (packetOf d).piece) (fun _ => rfl) seq
      c.dts c.millis c.packet.data h.1.2.1
    have hdata := frameDatagrams_payload seq c.dts c.millis c.packet.data
    obtain ⟨h1, h2⟩ := ih (seq + BitVec.ofNat 32 c.count) h.2
    rw [sentBy, if_pos h.1.1]
    exact ⟨List.forall_mem_cons.mpr ⟨hcomplete, h1⟩, by
      rw [List.map_cons, List.map_cons, hdata, h2]⟩

/-- When nothing is lost, the packets are the frames. -/
theorem delivered_frames {seq : BitVec 32} {calls : List Call} (h : ∀ c ∈ calls, Video c) :
    (delivered (handed fresh ((sentBy seq calls).flatten.map packetOf))).map AVPacket.data =
      calls.map (fun c => c.packet.data) := by
  obtain ⟨hcomplete, hdata⟩ := sentBy_complete seq h
  have hframes := (collectAll_frames ((sentBy seq calls).map
    (fun ds => ds.map (fun d => (packetOf d).piece))) (List.forall_mem_map.mpr hcomplete)).2
  rw [← List.map_flatten, ← handed_fresh, delivered_map, List.map_map] at hframes
  rw [hframes, ← hdata]
  simp [Function.comp_def]

/-- When nothing is lost, the frames fit the buffer. -/
theorem fits_frames {seq : BitVec 32} {calls : List Call} (h : ∀ c ∈ calls, Frame c) :
    Fits (sentBy seq calls) := by
  obtain ⟨hcomplete, hdata⟩ := sentBy_complete seq (frames_video h)
  unfold Fits
  rw [List.map_flatten]
  refine loads_frames _ _ (List.forall_mem_map.mpr hcomplete)
    (List.forall_mem_map.mpr fun ds hds => ?_)
  have hmem : (ds.map (fun d => (packetOf d).payload)).flatten ∈
      calls.map (fun c => c.packet.data) := by
    rw [← hdata]
    exact List.mem_map_of_mem hds
  obtain ⟨c, hc, hpayload⟩ := List.mem_map.mp hmem
  rw [List.map_map]
  change (ds.map (fun d => (packetOf d).payload)).flatten.length ≤ 1500000
  rw [← hpayload]
  exact (h c hc).2.2

/-- For every loss of datagrams: the sink gets one packet for each marker that
comes through, a frame of which nothing is lost after a marker that came
through is delivered whole at its own marker, and with no loss at all the
packets are the frames. -/
theorem every_frame_after_a_marker_is_delivered_whole [FFmpeg]
    (outBuff_ rtpBuffer_ : Block PACKAGED_BUFFER_SIZE UInt8)
    (buffer : Block UNPACKAGED_BUFFER_SIZE UInt8) (calls : List Call)
    (h : ∀ c ∈ calls, Frame c) :
    ∃ sent, Sends (sender outBuff_ rtpBuffer_) calls sent ∧
      ∀ got arrivals, ComeThrough got sent → Carry arrivals got → Fits got →
        ∃ u outs, run Unpackager.receive (receiver buffer) arrivals = .ok (u, outs) ∧
          outs.map Option.isSome = got.flatten.map (fun d => (headerOf d).marker == 1) ∧
          (∀ (k : Nat) (c : Call), calls[k]? = some c → got[k]? = sent[k]? →
            (k = 0 ∨ MarkerCame got (k - 1)) →
            ∃ pkt, outs[(got.take (k + 1)).flatten.length - 1]? = some (some pkt) ∧
              pkt.data = c.packet.data) ∧
          (got = sent →
            (delivered outs).map AVPacket.data = calls.map (fun c => c.packet.data)) := by
  have hvideo := frames_video h
  refine ⟨_, sends_frames outBuff_ rtpBuffer_ calls hvideo, ?_⟩
  intro got arrivals hgot hcarry hfit
  obtain ⟨u, hrun⟩ := run_got buffer hgot hcarry hfit
  refine ⟨u, _, hrun, ?_, ?_, ?_⟩
  · have hsome := collectAll_isSome [] (got.flatten.map (fun d => (packetOf d).piece))
    rw [← handed_fresh, List.map_map, List.map_map] at hsome
    exact (List.map_congr_left fun o _ => by cases o <;> rfl).trans hsome
  · intro k c hc hall hk
    have hat := frame_at_marker hvideo hgot hc hall hk
    rw [← handed_fresh, List.getElem?_map, Option.map_eq_some_iff] at hat
    obtain ⟨out, hout, hdata⟩ := hat
    obtain ⟨pkt, rfl, hpkt⟩ := Option.map_eq_some_iff.mp hdata
    exact ⟨pkt, hout, hpkt⟩
  · rintro rfl
    exact delivered_frames hvideo

/-- Two frames of two datagrams each. -/
def longFrames : List Call :=
  [⟨⟨List.replicate 1100 1, 40⟩, .AVMEDIA_TYPE_VIDEO, 1⟩,
    ⟨⟨List.replicate 1100 2, 80⟩, .AVMEDIA_TYPE_VIDEO, 2⟩]

theorem count_long (x : UInt8) : pieceCount 1099 (List.replicate 1100 x).length = 2 := by
  rw [List.length_replicate]
  decide

theorem sentBy_longFrames :
    sentBy 0 longFrames = [frameDatagrams 0 40 1 (List.replicate 1100 1),
      frameDatagrams 2 80 2 (List.replicate 1100 2)] := by
  simp only [longFrames, sentBy, Call.count, Call.dts, count_long, if_true]
  rfl

theorem frameDatagrams_long (seq dts : BitVec 32) (millis : BitVec 64) (x : UInt8) :
    frameDatagrams seq dts millis (List.replicate 1100 x) =
      [datagramAt seq dts millis (List.replicate 1100 x) 0,
        datagramAt seq dts millis (List.replicate 1100 x) 1] := by
  unfold frameDatagrams
  rw [count_long]
  rfl

theorem longFrames_fit : ∀ c ∈ longFrames, Frame c := by
  simp only [longFrames, Frame, List.forall_mem_cons, List.length_replicate]
  decide

/-- All that comes through when the first datagram of the first frame is lost. -/
def withoutStart : List (List (List UInt8)) :=
  [[datagramAt 0 40 1 (List.replicate 1100 1) 1],
    [datagramAt 2 80 2 (List.replicate 1100 2) 0, datagramAt 2 80 2 (List.replicate 1100 2) 1]]

theorem withoutStart_comes : ComeThrough withoutStart (sentBy 0 longFrames) := by
  rw [sentBy_longFrames, frameDatagrams_long, frameDatagrams_long]
  exact .cons (List.sublist_cons_self _ _) (.cons (List.Sublist.refl _) .nil)

theorem withoutStart_fits : Fits withoutStart := by
  intro x hx
  have hle := loads_le 0 _ x hx
  simp only [withoutStart, List.flatten_cons, List.flatten_nil, List.cons_append,
    List.nil_append, List.append_nil, List.map_cons, List.map_nil, List.sum_cons, List.sum_nil,
    packetOf_datagramAt, piece_payload, piece_length] at hle
  omega

/-- The first frame is cut short, and the second one comes out whole. -/
theorem a_frame_after_a_loss_is_delivered_whole :
    ∃ arrivals u outs pkt,
      Sends (sender (Block.ofList [] 0) (Block.ofList [] 0)) longFrames (sentBy 0 longFrames) ∧
      Carry arrivals withoutStart ∧
      run Unpackager.receive (receiver (Block.ofList [] 0)) arrivals = .ok (u, outs) ∧
      outs.map Option.isSome = [true, false, true] ∧
      outs[2]? = some (some pkt) ∧ pkt.data = List.replicate 1100 2 := by
  obtain ⟨sent, hsent, hall⟩ := every_frame_after_a_marker_is_delivered_whole (Block.ofList [] 0)
    (Block.ofList [] 0) (Block.ofList [] 0) longFrames longFrames_fit
  obtain rfl := hsent.unique (sends_frames _ _ _ (frames_video longFrames_fit))
  have hcarry := carry_padded withoutStart_comes
  obtain ⟨u, outs, hrun, hsome, hwhole, -⟩ :=
    hall withoutStart _ withoutStart_comes hcarry withoutStart_fits
  have hall : withoutStart[1]? = (sentBy 0 longFrames)[1]? := by
    rw [sentBy_longFrames, frameDatagrams_long, frameDatagrams_long, withoutStart]
    simp only [List.getElem?_cons_succ, List.getElem?_cons_zero]
  have hmarker : MarkerCame withoutStart 0 :=
    ⟨_, rfl, _, List.mem_cons_self, by rw [(headerOf_datagramAt _ _ _ _ _).2, count_long]; rfl⟩
  obtain ⟨pkt, hpkt, hdata⟩ := hwhole 1 _ rfl hall (Or.inr hmarker)
  refine ⟨_, u, outs, pkt, hsent, hcarry, hrun, ?_, hpkt, hdata⟩
  rw [hsome]
  simp only [withoutStart, List.flatten_cons, List.flatten_nil, List.cons_append, List.nil_append,
    List.map_cons, List.map_nil, (headerOf_datagramAt _ _ _ _ _).2, count_long]
  rfl

/-! ## Times -/

/-- The decode time of a frame, in ms. -/
def decodeTime (c : Call) : Nat := c.packet.dts.toNat

/-- A frame with a decode time has 90 times it as its RTP timestamp. -/
theorem timestamp_of_decodeTime {c : Call} (h1 : 90 * decodeTime c < 2 ^ 32)
    (h2 : 0 < decodeTime c) : (timestampOf c.dts c.millis).toNat = 90 * decodeTime c := by
  unfold decodeTime at h1 h2
  have hnat : c.dts.toNat = c.packet.dts.toNat := by
    rw [Call.dts, BitVec.toNat_setWidth]
    omega
  have hne : c.dts ≠ 0 := by
    intro h0
    rw [h0] at hnat
    simp only [BitVec.ofNat_eq_ofNat, BitVec.toNat_ofNat, Nat.zero_mod] at hnat
    omega
  have hint : c.dts.toInt = c.packet.dts.toNat := by
    rw [BitVec.toInt_eq_toNat_of_lt (by omega), hnat]
  unfold timestampOf decodeTime
  rw [if_neg hne, hint, BitVec.toNat_ofInt]
  omega

/-- A frame with decode time 0 has the wall clock in its RTP timestamp. -/
theorem timestamp_of_millis {c : Call} (h : decodeTime c = 0) :
    (timestampOf c.dts c.millis).toNat = 90 * c.millis.toNat % 2 ^ 32 := by
  have hzero : c.dts = 0 := by
    apply BitVec.eq_of_toNat_eq
    rw [Call.dts, BitVec.toNat_setWidth, show c.packet.dts.toNat = 0 from h]
    rfl
  have hint := BitVec.toInt_eq_toNat_cond c.millis
  unfold timestampOf
  rw [if_pos hzero, BitVec.toNat_ofInt, hint]
  split <;> omega

/-- The times of the markers of a whole stream of frames. -/
theorem markerTimes_frames {seq : BitVec 32} {calls : List Call} (h : ∀ c ∈ calls, Video c) :
    markerTimes ((sentBy seq calls).flatten.map packetOf) =
      calls.map (fun c => (timestampOf c.dts c.millis).toNat) := by
  induction calls generalizing seq with
  | nil => rfl
  | cons c cs ih =>
    rw [List.forall_mem_cons] at h
    have hone : markerTimes ((frameDatagrams seq c.dts c.millis c.packet.data).map packetOf) =
        [(timestampOf c.dts c.millis).toNat] := by
      refine markerTimes_complete ?_ (List.forall_mem_map.mpr fun d hd => ?_)
      · rw [List.map_map]
        exact frameDatagrams_complete _ (fun _ => rfl) seq c.dts c.millis c.packet.data h.1.2.1
      · obtain ⟨i, -, rfl⟩ := List.mem_map.mp hd
        rw [packetOf_datagramAt]
    rw [sentBy, if_pos h.1.1, List.flatten_cons, List.map_append, markerTimes_append, hone, ih h.2]
    rfl

/-- The decode times of the packets of a whole stream of frames. -/
theorem delivered_frame_times (seq : BitVec 32) {calls : List Call}
    (h : ∀ c ∈ calls, Video c) :
    (delivered (handed fresh ((sentBy seq calls).flatten.map packetOf))).map
        (fun p => p.dts.toInt) =
      (calls.map (fun c => (timestampOf c.dts c.millis).toNat)).map (fun t : Nat => ((t : Int) -
        ((calls.map (fun c => (timestampOf c.dts c.millis).toNat)).headD 0 : Nat)).tdiv 90) := by
  have htimes := delivered_times ((sentBy seq calls).flatten.map packetOf)
    (List.forall_mem_map.mpr fun d hd => ?_)
  · rw [markerTimes_frames h] at htimes
    exact htimes
  · obtain ⟨b, n, dts, millis, payload, rfl, -⟩ := mem_sentBy hd
    unfold packetOf
    rw [headerOf_datagram]
    exact (timestampOf dts millis).isLt

/-- The decode time of packet `i`, from the RTP timestamps of its frame and of
the first one. -/
theorem delivered_frame_time (seq : BitVec 32) {calls : List Call} (h : ∀ c ∈ calls, Video c)
    {i : Nat} {c c0 : Call} (hc0 : calls[0]? = some c0) (hc : calls[i]? = some c) :
    ∃ pkt, (delivered (handed fresh ((sentBy seq calls).flatten.map packetOf)))[i]? = some pkt ∧
      pkt.dts.toInt = (((timestampOf c.dts c.millis).toNat : Int) -
        (timestampOf c0.dts c0.millis).toNat).tdiv 90 := by
  have hi := congrArg (fun l => l[i]?) (delivered_frame_times seq h)
  simp only [List.getElem?_map, hc, Option.map_some] at hi
  obtain ⟨pkt, hpkt, hdts⟩ := Option.map_eq_some_iff.mp hi
  refine ⟨pkt, hpkt, ?_⟩
  rw [hdts, List.headD_eq_head?_getD, List.head?_eq_getElem?, List.getElem?_map, hc0]
  rfl

/-- For a stream of which nothing is lost, whatever the wall clock says: when
the first decode time is not 0, packet `i` has the time since the first frame.
When it is 0, the first frame has the wall clock in its timestamp, so the
first packet has time 0 and each later one is counted from that clock. -/
theorem the_times_count_from_the_first_frame [FFmpeg]
    (outBuff_ rtpBuffer_ : Block PACKAGED_BUFFER_SIZE UInt8)
    (buffer : Block UNPACKAGED_BUFFER_SIZE UInt8) (calls : List Call)
    (h : ∀ c ∈ calls, Frame c) (hlt : ∀ c ∈ calls, 90 * decodeTime c < 2 ^ 32)
    (hinc : calls.Pairwise (fun b c => decodeTime b < decodeTime c)) :
    ∃ sent, Sends (sender outBuff_ rtpBuffer_) calls sent ∧
      ∀ arrivals, Carry arrivals sent →
        ∃ u outs, run Unpackager.receive (receiver buffer) arrivals = .ok (u, outs) ∧
          (delivered outs).length = calls.length ∧
          ∀ (i : Nat) (c c0 : Call), calls[0]? = some c0 → calls[i]? = some c →
            ∃ pkt, (delivered outs)[i]? = some pkt ∧
              (0 < decodeTime c0 → pkt.dts.toInt = (decodeTime c : Int) - decodeTime c0) ∧
              (decodeTime c0 = 0 → i = 0 → pkt.dts.toInt = 0) ∧
              (decodeTime c0 = 0 → 0 < i → pkt.dts.toInt =
                (((90 * decodeTime c : Nat) : Int) - (90 * c0.millis.toNat % 2 ^ 32 : Nat)).tdiv
                  90) := by
  have hvideo := frames_video h
  refine ⟨_, sends_frames outBuff_ rtpBuffer_ calls hvideo, ?_⟩
  intro arrivals hcarry
  obtain ⟨u, hrun⟩ := run_got buffer (ComeThrough.refl _) hcarry
    (fits_frames h)
  refine ⟨u, _, hrun, ?_, ?_⟩
  · simpa using congrArg List.length (delivered_frame_times 0 hvideo)
  · intro i c c0 hc0 hc
    obtain ⟨pkt, hpkt, hdts⟩ := delivered_frame_time 0 hvideo hc0 hc
    have hlater : 0 < i → decodeTime c0 < decodeTime c := by
      intro hpos
      obtain ⟨hlt0, rfl⟩ := List.getElem?_eq_some_iff.mp hc0
      obtain ⟨hlti, rfl⟩ := List.getElem?_eq_some_iff.mp hc
      exact List.pairwise_iff_getElem.mp hinc 0 i hlt0 hlti hpos
    have hsame : i = 0 → c = c0 := by
      rintro rfl
      exact Option.some.inj (hc.symm.trans hc0)
    have hltc := hlt c (List.mem_of_getElem? hc)
    have hltc0 := hlt c0 (List.mem_of_getElem? hc0)
    refine ⟨pkt, hpkt, fun h0 => ?_, fun _ hz => ?_, fun h0 hpos => ?_⟩
    · have hle : 0 < decodeTime c := by
        rcases Nat.eq_zero_or_pos i with hz | hpos
        · rw [hsame hz]
          exact h0
        · exact h0.trans (hlater hpos)
      rw [hdts, timestamp_of_decodeTime hltc hle, timestamp_of_decodeTime hltc0 h0,
        Nat.cast_mul, Nat.cast_mul, ← Int.mul_sub]
      exact Int.mul_tdiv_cancel_left _ (by decide)
    · rw [hdts, hsame hz, Int.sub_self]
      rfl
    · have hle : 0 < decodeTime c := by
        have := hlater hpos
        omega
      rw [hdts, timestamp_of_decodeTime hltc hle, timestamp_of_millis h0]

/-- A stream of two frames, 40 ms apart, that starts at decode time 0 when the
wall clock says 1 ms. -/
def twoFrames : List Call :=
  [⟨⟨[1], 0⟩, .AVMEDIA_TYPE_VIDEO, 1⟩, ⟨⟨[2], 40⟩, .AVMEDIA_TYPE_VIDEO, 41⟩]

theorem the_times_of_two_frames :
    ∃ sent, Sends (sender (Block.ofList [] 0) (Block.ofList [] 0)) twoFrames sent ∧
      ∀ arrivals, Carry arrivals sent →
        ∃ u outs, run Unpackager.receive (receiver (Block.ofList [] 0)) arrivals = .ok (u, outs) ∧
          ∃ pkt, (delivered outs)[1]? = some pkt ∧ pkt.dts.toInt = 39 := by
  obtain ⟨sent, hsent, hall⟩ := the_times_count_from_the_first_frame (Block.ofList [] 0)
    (Block.ofList [] 0) (Block.ofList [] 0) twoFrames (by simp [Frame, twoFrames])
    (by decide) (by decide)
  refine ⟨sent, hsent, ?_⟩
  intro arrivals hcarry
  obtain ⟨u, outs, hrun, -, hpkt⟩ := hall arrivals hcarry
  obtain ⟨pkt, hget, -, -, hdts⟩ := hpkt 1 ⟨⟨[2], 40⟩, .AVMEDIA_TYPE_VIDEO, 41⟩
    ⟨⟨[1], 0⟩, .AVMEDIA_TYPE_VIDEO, 1⟩ rfl rfl
  exact ⟨u, outs, hrun, pkt, hget, hdts rfl (by decide)⟩

/-- The packets of the same stream: the second one has time 39, and it was
decoded 40 ms after the first. -/
theorem the_first_frame_takes_the_wall_clock :
    ∃ sent arrivals u outs,
      Sends (sender (Block.ofList [] 0) (Block.ofList [] 0)) twoFrames sent ∧
      Carry arrivals sent ∧
      run Unpackager.receive (receiver (Block.ofList [] 0)) arrivals = .ok (u, outs) ∧
      (delivered outs).map (fun p => p.dts.toInt) = [0, 39] ∧
      (delivered outs).map (fun p => p.dts.toInt) ≠
        twoFrames.map (fun c => (decodeTime c : Int)) := by
  have hframes : ∀ c ∈ twoFrames, Frame c := by simp [Frame, twoFrames]
  have hcarry := carry_padded (ComeThrough.refl (sentBy 0 twoFrames))
  obtain ⟨u, hrun⟩ := run_got (Block.ofList [] 0) (ComeThrough.refl _) hcarry (fits_frames hframes)
  have htimes := delivered_frame_times 0 (frames_video hframes)
  refine ⟨_, _, u, _, sends_frames _ _ _ (frames_video hframes), hcarry, hrun, ?_, ?_⟩
  · rw [htimes]
    decide
  · rw [htimes]
    decide

/-! ## Frames that run into each other -/

/-- A receiver with the origins of its bytes, which start as anything. -/
def tracedReceiver (buffer : Block UNPACKAGED_BUFFER_SIZE UInt8)
    (origin : Block UNPACKAGED_BUFFER_SIZE Nat) : Traced :=
  { u := receiver buffer, origin }

/-- What comes through of each frame has the frame's timestamp as its origin. -/
theorem got_tagged {seq : BitVec 32} {calls : List Call} {got : List (List (List UInt8))}
    (h : ∀ c ∈ calls, Video c) (hgot : ComeThrough got (sentBy seq calls)) :
    List.Forall₂ Tagged (got.map (fun ds => ds.map (fun d => originPiece (packetOf d))))
      (calls.map (fun c => (timestampOf c.dts c.millis).toNat)) := by
  induction calls generalizing seq got with
  | nil =>
    cases hgot
    exact .nil
  | cons c cs ih =>
    rw [List.forall_mem_cons] at h
    rw [sentBy, if_pos h.1.1] at hgot
    obtain ⟨ds, dss, hds, hdss, rfl⟩ := List.forall₂_cons_right_iff.mp hgot
    have hcomplete := frameDatagrams_complete (fun d => originPiece (packetOf d)) (fun _ => rfl) seq
      c.dts c.millis c.packet.data h.1.2.1
    refine .cons ⟨hcomplete.sublist (hds.map _), List.forall_mem_map.mpr fun d hd => ?_⟩
      (ih h.2 hdss)
    obtain ⟨i, hi, rfl⟩ := List.mem_map.mp (hds.subset hd)
    have hpos := piece_length_pos (by decide) (List.mem_range.mp hi)
    rw [packetOf_datagramAt]
    exact ⟨by simpa [originPiece] using List.ne_nil_of_length_pos hpos,
      fun x hx => List.eq_of_mem_replicate hx⟩

/-- Each frame of which something comes through closes before the next marker. -/
def Closed (got : List (List (List UInt8))) : Prop :=
  ∀ k k', k < k' → MarkerCame got k' → SomeCame got k → MarkerCame got k

theorem marked_iff (ds : List (List UInt8)) :
    Marked (ds.map (fun d => originPiece (packetOf d))) ↔ ∃ d ∈ ds, (headerOf d).marker = 1 := by
  simp [Marked, originPiece, packetOf]

theorem closed_iff (got : List (List (List UInt8))) :
    (got.map (fun ds => ds.map (fun d => originPiece (packetOf d)))).Pairwise Closes ↔
      Closed got := by
  rw [List.pairwise_map, List.pairwise_iff_getElem]
  simp only [Closes, marked_iff, ne_eq, List.map_eq_nil_iff]
  constructor
  · rintro h k k' hlt ⟨es, hes, hmark⟩ ⟨ds, hds, hne⟩
    obtain ⟨hk', rfl⟩ := List.getElem?_eq_some_iff.mp hes
    obtain ⟨hk, rfl⟩ := List.getElem?_eq_some_iff.mp hds
    exact ⟨_, hds, h k k' hk hk' hlt hmark hne⟩
  · intro h k k' hk hk' hlt hmark hne
    obtain ⟨ds, hds, hm⟩ := h k k' hlt ⟨_, List.getElem?_eq_getElem hk', hmark⟩
      ⟨_, List.getElem?_eq_getElem hk, hne⟩
    rw [List.getElem?_eq_getElem hk, Option.some.injEq] at hds
    subst hds
    exact hm

/-- The run over what comes through, with the origins: it is the run of the
receiver, and every packet has one origin exactly when the frames close. -/
theorem run_traced (buffer : Block UNPACKAGED_BUFFER_SIZE UInt8)
    (origin : Block UNPACKAGED_BUFFER_SIZE Nat) {seq : BitVec 32} {calls : List Call}
    {arrivals : List Arrival} {got : List (List (List UInt8))} (h : ∀ c ∈ calls, Video c)
    (hnd : (calls.map (fun c => timestampOf c.dts c.millis)).Nodup)
    (hgot : ComeThrough got (sentBy seq calls)) (hcarry : Carry arrivals got) (hfit : Fits got) :
    ∃ s outs, run Traced.receive (tracedReceiver buffer origin) arrivals = .ok (s, outs) ∧
      run Unpackager.receive (receiver buffer) arrivals =
        .ok (s.u, outs.map (Option.map Prod.fst)) ∧
      ((∀ p ∈ delivered outs, Uniform p.2) ↔ Closed got) := by
  obtain ⟨hwf, hparse⟩ := carry_parse hgot hcarry
  have hstart : Follows (tracedReceiver buffer origin) fresh [] :=
    ⟨tracks_init buffer true, rfl, rfl, rfl⟩
  have hloads : arrivals.map (fun a => (parse a).piece) =
      got.flatten.map (fun d => (packetOf d).piece) := by
    have hp := congrArg (List.map RtpPacket.piece) hparse
    rwa [List.map_map, List.map_map] at hp
  have horigins : arrivals.map (fun a => originPiece (parse a)) =
      (got.map (fun ds => ds.map (fun d => originPiece (packetOf d)))).flatten := by
    have hp := congrArg (List.map originPiece) hparse
    rwa [List.map_map, List.map_map, List.map_flatten] at hp
  obtain ⟨s, outs, hrun, hu, houts⟩ := run_follows arrivals hstart hwf
    (by rw [hloads]; exact hfit)
  have hnat : (calls.map (fun c => (timestampOf c.dts c.millis).toNat)).Nodup := by
    have hinj := List.Nodup.map (fun x y hxy => BitVec.eq_of_toNat_eq hxy) hnd
    rwa [List.map_map] at hinj
  refine ⟨s, outs, hrun, hu, ?_⟩
  rw [← closed_iff, ← uniform_iff (got_tagged h hgot) hnat, ← horigins, ← houts, delivered_map,
    List.forall_mem_map]

/-- For every loss of datagrams of frames with different timestamps: no packet
has bytes of two frames exactly when each frame of which something comes
through has its marker come through before that of a later frame. -/
theorem no_packet_mixes_frames_exactly_when_the_markers_come_through [FFmpeg]
    (outBuff_ rtpBuffer_ : Block PACKAGED_BUFFER_SIZE UInt8)
    (buffer : Block UNPACKAGED_BUFFER_SIZE UInt8) (origin : Block UNPACKAGED_BUFFER_SIZE Nat)
    (calls : List Call) (h : ∀ c ∈ calls, Video c)
    (hnd : (calls.map (fun c => timestampOf c.dts c.millis)).Nodup) :
    ∃ sent, Sends (sender outBuff_ rtpBuffer_) calls sent ∧
      ∀ got arrivals, ComeThrough got sent → Carry arrivals got → Fits got →
        ∃ s outs, run Traced.receive (tracedReceiver buffer origin) arrivals = .ok (s, outs) ∧
          run Unpackager.receive (receiver buffer) arrivals =
            .ok (s.u, outs.map (Option.map Prod.fst)) ∧
          ((∀ p ∈ delivered outs, Uniform p.2) ↔ Closed got) :=
  ⟨_, sends_frames outBuff_ rtpBuffer_ calls h, fun _ _ hgot hcarry hfit =>
    run_traced buffer origin h hnd hgot hcarry hfit⟩

theorem two_short_frames_do_not_mix :
    ∃ sent, Sends (sender (Block.ofList [] 0) (Block.ofList [] 0)) twoFrames sent ∧
      ∀ got arrivals, ComeThrough got sent → Carry arrivals got → Fits got →
        ∃ s outs, run Traced.receive (tracedReceiver (Block.ofList [] 0) (Block.ofList [] 0))
            arrivals = .ok (s, outs) ∧
          ((∀ p ∈ delivered outs, Uniform p.2) ↔ Closed got) := by
  obtain ⟨sent, hsent, hall⟩ := no_packet_mixes_frames_exactly_when_the_markers_come_through
    (Block.ofList [] 0) (Block.ofList [] 0) (Block.ofList [] 0) (Block.ofList [] 0) twoFrames
    (by simp [Video, twoFrames]) (by decide)
  refine ⟨sent, hsent, ?_⟩
  intro got arrivals hgot hcarry hfit
  obtain ⟨s, outs, hrun, -, hiff⟩ := hall got arrivals hgot hcarry hfit
  exact ⟨s, outs, hrun, hiff⟩

/-- All that comes through when the marker of the first frame is lost. -/
def withoutMarker : List (List (List UInt8)) :=
  [[datagramAt 0 40 1 (List.replicate 1100 1) 0],
    [datagramAt 2 80 2 (List.replicate 1100 2) 0, datagramAt 2 80 2 (List.replicate 1100 2) 1]]

theorem withoutMarker_comes : ComeThrough withoutMarker (sentBy 0 longFrames) := by
  rw [sentBy_longFrames, frameDatagrams_long, frameDatagrams_long]
  exact .cons (List.Sublist.cons_cons _ (List.nil_sublist _))
    (.cons (List.Sublist.refl _) .nil)

theorem withoutMarker_fits : Fits withoutMarker := by
  intro x hx
  have hle := loads_le 0 _ x hx
  simp only [withoutMarker, List.flatten_cons, List.flatten_nil, List.cons_append,
    List.nil_append, List.append_nil, List.map_cons, List.map_nil, List.sum_cons, List.sum_nil,
    packetOf_datagramAt, piece_payload, piece_length] at hle
  omega

/-- When the first of two markers is lost, the one packet that goes out has
bytes of both frames. -/
theorem a_lost_marker_mixes_two_frames :
    ∃ sent got arrivals s outs,
      Sends (sender (Block.ofList [] 0) (Block.ofList [] 0)) longFrames sent ∧
      ComeThrough got sent ∧ Carry arrivals got ∧ Fits got ∧
      run Traced.receive (tracedReceiver (Block.ofList [] 0) (Block.ofList [] 0)) arrivals =
        .ok (s, outs) ∧
      ¬ ∀ p ∈ delivered outs, Uniform p.2 := by
  have hframes := frames_video longFrames_fit
  have hfit := withoutMarker_fits
  have hcarry := carry_padded withoutMarker_comes
  obtain ⟨s, outs, hrun, -, hiff⟩ := run_traced (Block.ofList [] 0) (Block.ofList [] 0) hframes
    (by decide) withoutMarker_comes hcarry hfit
  refine ⟨_, _, _, s, outs, sends_frames _ _ _ hframes, withoutMarker_comes, hcarry, hfit, hrun, ?_⟩
  rw [hiff]
  intro hclosed
  obtain ⟨ds, hds, d, hd, hmark⟩ := hclosed 0 1 (by decide)
    ⟨_, rfl, _, List.mem_cons_of_mem _ List.mem_cons_self, by
      rw [(headerOf_datagramAt _ _ _ _ _).2, count_long]
      rfl⟩
    ⟨_, rfl, List.cons_ne_nil _ _⟩
  cases hds
  rw [List.mem_singleton] at hd
  rw [hd, (headerOf_datagramAt _ _ _ _ _).2, count_long] at hmark
  exact absurd hmark (by decide)

end payloader.rtp_session_laws
