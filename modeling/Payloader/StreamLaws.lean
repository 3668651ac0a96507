-- The laws of a whole stream. A frame that loses none of its datagrams comes out
-- as it went in, whatever the order of the steps was. While nothing is lost at
-- all, no party fails, and all that went in can still come out.
import Payloader.Stream

set_option autoImplicit false

namespace payloader.stream

open payloader.memory payloader.machines payloader.framing payloader.interfaces
open payloader.rtp_fragmenter payloader.packager payloader.packager_laws payloader.unpackager
open payloader.sender (Sender dataPacket)
open payloader.receiver (Receiver)
open payloader.rtp_session (Frame frames_video ComeThrough MarkerCame packetOf fresh)

variable {log : List Event} {e : Event} {s s' : Stream} {c : Call} {t t' : Turn} {p : Packager}
variable {d : List UInt8} {ds taking : List (List UInt8)} {calls : List Call}
variable {outBuff_ rtpBuffer_ : Block PACKAGED_BUFFER_SIZE UInt8}
variable {buffer_ : Block (8 * receiver.LENGTH) UInt8}
variable {buffer : Block UNPACKAGED_BUFFER_SIZE UInt8}

/-! ## What comes in -/

/-- What is left of a stream of datagrams is what is left of each frame. -/
theorem comes_through {sent : List (List (List UInt8))} (h : ds.Sublist sent.flatten) :
    ∃ got, ComeThrough got sent ∧ got.flatten = ds := by
  induction sent generalizing ds with
  | nil => exact ⟨[], .nil, (List.sublist_nil.mp h).symm⟩
  | cons group sent ih =>
    rw [List.flatten_cons] at h
    obtain ⟨first, rest, rfl, hfirst, hrest⟩ := List.sublist_append_iff.mp h
    obtain ⟨got, hgot, rfl⟩ := ih hrest
    exact ⟨first :: got, .cons hfirst hgot, List.flatten_cons⟩

/-- What the unpackager got is left of what the frames were cut into. -/
theorem Good.sublist (h : Good buffer log s) :
    (taken log ++ s.inFlight).Sublist (sentBy 0 (frames log)).flatten :=
  h.inOrder.trans h.feeds.begins.sublist

/-- Arrivals with datagrams of this packager are well formed, and they are read
as they were sent. -/
theorem reads_sent {arrivals : List Arrival} (h : List.Forall₂ Arrival.Carries arrivals ds)
    (hsent : ds.Sublist (sentBy 0 calls).flatten) :
    (∀ a ∈ arrivals, WellFormed a) ∧ arrivals.map parse = ds.map packetOf := by
  obtain ⟨got, hgot, rfl⟩ := comes_through hsent
  exact rtp_session.carry_parse hgot h

/-- What the unpackager handed over. -/
theorem Good.outs_eq (h : Good buffer log s) :
    outs log = unpackager.handed fresh ((taken log).map packetOf) := by
  obtain ⟨hwf, hparse⟩ :=
    reads_sent h.carried ((List.sublist_append_left _ _).trans h.sublist)
  have hagree := run_receive_agrees _ (tracks_init buffer true) hwf
  rw [show (Unpackager.init buffer).setSink true = rtp_session.receiver buffer from rfl, h.unpacks,
    hparse, run_depacketize] at hagree
  obtain ⟨x, hx, -⟩ := hagree.inv_ok
  split at hx
  · exact (congrArg Prod.snd (Except.ok.inj hx)).symm
  · cases hx

/-- As the data that were collected. -/
theorem Good.outs_data (h : Good buffer log s) :
    (outs log).map (Option.map AVPacket.data) =
      (collectAll [] ((taken log).map (fun d => (packetOf d).piece))).2 := by
  obtain ⟨got, -, hgot⟩ := comes_through ((List.sublist_append_left _ _).trans h.sublist)
  rw [h.outs_eq, ← hgot]
  exact rtp_session_laws.handed_fresh got

/-! ## Frames come out as they went in -/

/-- What comes out of the first datagrams comes out of all of them, first. -/
theorem Good.delivers (h : Good buffer log s) (hframes : ∀ c ∈ frames log, Frame c)
    (hfirst : taken log <+: (sentBy 0 (frames log)).flatten) :
    (delivered (outs log)).map AVPacket.data <+: (frames log).map (fun c => c.packet.data) := by
  obtain ⟨rest, hrest⟩ := hfirst
  have hall : List.map AVPacket.data (delivered (unpackager.handed fresh
      ((sentBy 0 (frames log)).flatten.map packetOf))) = _ :=
    rtp_session_laws.delivered_frames (frames_video hframes)
  rw [← delivered_map, rtp_session_laws.handed_fresh, ← hrest, List.map_append, collectAll_append,
    delivered_append, ← h.outs_data, delivered_map] at hall
  exact ⟨_, hall⟩

/-- When nothing is lost and nothing is under way, all has come in. -/
theorem Good.all_taken (h : Good buffer log s) (hkept : ∀ e ∈ log, e.Kept)
    (hidle : s.feeder = .idle p) (hempty : s.inFlight = []) :
    taken log = (sentBy 0 (frames log)).flatten := by
  have hfeeds := h.feeds
  rw [hidle] at hfeeds
  have htaken := h.kept hkept
  rw [hempty, List.append_nil] at htaken
  cases hfeeds with
  | idle _ _ hhanded => exact htaken.trans hhanded

theorem Good.all_delivered (h : Good buffer log s) (hframes : ∀ c ∈ frames log, Frame c)
    (hkept : ∀ e ∈ log, e.Kept) (hidle : s.feeder = .idle p) (hempty : s.inFlight = []) :
    (delivered (outs log)).map AVPacket.data = (frames log).map (fun c => c.packet.data) := by
  rw [h.outs_eq, h.all_taken hkept hidle hempty]
  exact rtp_session_laws.delivered_frames (frames_video hframes)

/-- While nothing is lost, the packets that have come out are the first frames, in
order. When nothing is under way any more they are all the frames. -/
theorem frames_come_out_in_order [FFmpeg]
    (h : Reaches Step (start outBuff_ rtpBuffer_ buffer_ buffer) log s)
    (hframes : ∀ c ∈ frames log, Frame c) (hkept : ∀ e ∈ log, e.Kept) :
    (delivered (outs log)).map AVPacket.data <+: (frames log).map (fun c => c.packet.data) ∧
      (s.feeder = .idle p → s.inFlight = [] →
        (delivered (outs log)).map AVPacket.data = (frames log).map (fun c => c.packet.data)) := by
  have hI := good_reaches h hframes
  refine ⟨?_, ?_⟩
  · refine hI.delivers hframes (List.IsPrefix.trans ?_ hI.feeds.begins)
    rw [← hI.kept hkept]
    exact List.prefix_append _ _
  · exact fun hidle hempty => hI.all_delivered hframes hkept hidle hempty

/-! ## No party fails -/

/-- While nothing is lost, the buffer of the unpackager holds what comes next. -/
theorem Good.unpack_ok (h : Good buffer log s) (hframes : ∀ c ∈ frames log, Frame c)
    (hkept : ∀ e ∈ log, e.Kept) {rest : List (List UInt8)}
    (hsocket : s.receiver.socket_ = d :: rest) :
    ∃ a u out, (s.receiver.received d rest).2 = some a ∧
      s.unpackager.receive a = .ok (u, out) := by
  have hmem : d ∈ s.inFlight := by
    unfold Stream.inFlight
    rw [hsocket]
    exact List.mem_append_left _ (List.mem_append_left _ List.mem_cons_self)
  obtain ⟨a, ha, hcarries, -⟩ := receive_whole h.sink (h.length hmem) rest
  refine ⟨a, ?_⟩
  obtain ⟨more, hmore⟩ : taken log ++ [d] <+: (sentBy 0 (frames log)).flatten := by
    refine List.IsPrefix.trans ?_ h.feeds.begins
    rw [← h.kept hkept]
    unfold Stream.inFlight
    rw [hsocket, List.prefix_append_right_inj]
    exact ⟨_, rfl⟩
  have hcarried : List.Forall₂ Arrival.Carries (arrivals log ++ [a]) (taken log ++ [d]) :=
    List.rel_append h.carried (.cons hcarries .nil)
  obtain ⟨hwf, hparse⟩ := reads_sent hcarried
    ((List.prefix_append _ more).sublist.trans (by rw [hmore]))
  have hpieces : (arrivals log ++ [a]).map (fun a => (parse a).piece) =
      (taken log ++ [d]).map (fun d => (packetOf d).piece) := by
    have hp := congrArg (List.map RtpPacket.piece) hparse
    rwa [List.map_map, List.map_map] at hp
  have hfit : ∀ x ∈ loads 0 ((taken log ++ [d]).map (fun d => (packetOf d).piece)),
      x ≤ UNPACKAGED_BUFFER_SIZE := by
    intro x hx
    have hfits : rtp_session.Fits (sentBy 0 (frames log)) := rtp_session_laws.fits_frames hframes
    refine hfits x ?_
    have hloads := loads_append [] ((taken log ++ [d]).map (fun d => (packetOf d).piece))
      (more.map (fun d => (packetOf d).piece))
    rw [List.length_nil] at hloads
    rw [← hmore, List.map_append, hloads]
    exact List.mem_append_left _ hx
  obtain ⟨u, hu⟩ := run_receive _ (tracks_init buffer true) hwf (by rw [hpieces]; exact hfit)
  have hlast := (run_snoc h.unpacks).symm.trans hu
  cases hreceive : s.unpackager.receive a with
  | error x =>
    rw [hreceive] at hlast
    cases hlast
  | ok r => exact ⟨r.1, r.2, ha, rfl⟩

theorem roused_reaches [FFmpeg]
    (h : Reaches Step (start outBuff_ rtpBuffer_ buffer_ buffer) log s)
    (hframes : ∀ c ∈ frames log, Frame c) : sender.Roused s.sender := by
  refine (h.invariant (fun log s => (∀ c ∈ frames log, Frame c) →
    Good buffer log s ∧ sender.Roused s.sender) (fun _ => ⟨good_start, sender.roused_init⟩) ?_
      hframes).2
  intro log s e s' hI hs hframes
  rw [frames_append, List.forall_mem_append] at hframes
  obtain ⟨hgood, hroused⟩ := hI hframes.1
  refine ⟨hgood.next hs (by rintro c rfl; exact hframes.2 c List.mem_cons_self), ?_⟩
  cases hs with
  | @hand c t t' last accepted d q p_ hloop ht hd hq =>
    have hint : d.length < 2 ^ 31 := (hgood.turned hloop ht hd).2.trans_lt (by decide)
    let a : Arrival :=
      { size := PACKAGED_BUFFER_SIZE, inBuff := t'.p.rtpBuffer_, buffSize := d.length }
    exact hroused.receive (a := a) hint hq
  | send hq => exact hroused.next hq
  | quiet hq => exact hroused.next hq
  | _ => exact hroused

/-- While nothing is lost, no party reads or writes outside of its buffers: not
the packager in its loop and the call that it makes, not the thread of the
sender, and not the unpackager. -/
theorem no_party_fails [FFmpeg]
    (h : Reaches Step (start outBuff_ rtpBuffer_ buffer_ buffer) log s)
    (hframes : ∀ c ∈ frames log, Frame c) (hkept : ∀ e ∈ log, e.Kept) :
    (∀ c t, s.feeder = .loop c t → ∃ t' last d, turn c.dts c.millis t = .ok (t', last) ∧
        t'.sent = t.sent ++ [d] ∧ ∀ p_, ∃ q accepted,
          s.sender.receiveRtpPacket p_ t'.p.rtpBuffer_ d.length = .ok (q, accepted)) ∧
      (∃ q x, s.sender.serve = .ok (q, x)) ∧
      ∀ d a r, receiver.Step s.receiver (.received d (some a)) r →
        ∃ u out, s.unpackager.receive a = .ok (u, out) := by
  have hI := good_reaches h hframes
  refine ⟨?_, ?_, ?_⟩
  · intro c t hloop
    have hfeeds := hI.feeds
    rw [hloop] at hfeeds
    obtain ⟨t', last, d, ht, hd, -, hnext⟩ := hfeeds.turn
    have hlen := hnext.length (List.mem_append_right _ List.mem_cons_self)
    refine ⟨t', last, d, ht, hd, fun p_ => ?_⟩
    have hslot : d.length ≤ 1500 := by omega
    have hbuffer : d.length ≤ PACKAGED_BUFFER_SIZE := hslot.trans (by decide)
    let a : Arrival :=
      { size := PACKAGED_BUFFER_SIZE, inBuff := t'.p.rtpBuffer_, buffSize := d.length }
    exact sender.receive_ok s.sender p_ a hslot hbuffer
  · exact sender.serve_ok (roused_reaches h hframes).sound
  · intro d a r hr
    obtain ⟨rest, hsocket, hsunk, -⟩ := receive_front hr rfl
    obtain ⟨a', u, out, ha', hu⟩ := hI.unpack_ok hframes hkept hsocket
    cases hsunk.trans ha'
    exact ⟨u, out, hu⟩

/-! ## What is under way can come out -/

/-- Nothing has been lost, the flag of the sender is up, and a receive is pending. -/
structure Going (buffer : Block UNPACKAGED_BUFFER_SIZE UInt8) (log : List Event) (s : Stream) :
    Prop where
  good : Good buffer log s
  called : ∀ c ∈ frames log, Frame c
  kept : ∀ e ∈ log, e.Kept
  roused : sender.Roused s.sender
  sending : s.sender.sending_ = true
  pending : s.receiver.pending = true

/-- The next packet comes in. -/
theorem Going.call (h : Going buffer log s) (hidle : s.feeder = .idle p) (hframe : Frame c) :
    Going buffer (log ++ [.frame c]) { s with feeder := receivePacket p c } := by
  refine ⟨h.good.call hidle hframe, ?_, forall_mem_snoc.mpr ⟨h.kept, trivial⟩, h.roused, h.sending,
    h.pending⟩
  rw [frames_append]
  exact forall_mem_snoc.mpr ⟨h.called, hframe⟩

theorem going_start : Going buffer [] (start outBuff_ rtpBuffer_ buffer_ buffer) :=
  ⟨good_start, nofun, nofun, sender.roused_init, rfl, rfl⟩

section GoesOn

variable [FFmpeg]

/-- With no new packet, a run can go on to such a state. -/
def GoesOn (buffer : Block UNPACKAGED_BUFFER_SIZE UInt8) (log : List Event) (s : Stream)
    (P : Stream → Prop) : Prop :=
  ∃ more s', Reaches Step s more s' ∧ frames more = [] ∧ Going buffer (log ++ more) s' ∧ P s'

theorem Going.here (h : Going buffer log s) {P : Stream → Prop} (hP : P s) :
    GoesOn buffer log s P :=
  ⟨[], s, .start, rfl, by rwa [List.append_nil], hP⟩

theorem GoesOn.then {P Q : Stream → Prop} (h : GoesOn buffer log s P)
    (hnext : ∀ log' s', Going buffer log' s' → P s' → GoesOn buffer log' s' Q) :
    GoesOn buffer log s Q := by
  obtain ⟨more, s', hrun, hnone, hgoing, hP⟩ := h
  obtain ⟨more', s'', hrun', hnone', hgoing', hQ⟩ := hnext _ _ hgoing hP
  refine ⟨more ++ more', s'', hrun.trans hrun', ?_, ?_, hQ⟩
  · rw [frames_append, hnone, hnone', List.append_nil]
  · rwa [← List.append_assoc]

theorem GoesOn.mono {P Q : Stream → Prop} (h : GoesOn buffer log s P)
    (hPQ : ∀ s', P s' → Q s') : GoesOn buffer log s Q :=
  h.then (fun _ s' hgoing hP => hgoing.here (hPQ s' hP))

/-- One step that loses nothing. -/
theorem Going.step (h : Going buffer log s) (hs : Step s e s') (hnone : frames [e] = [])
    (hkept : e.Kept) (hroused : sender.Roused s'.sender) (hsending : s'.sender.sending_ = true)
    (hpending : s'.receiver.pending = true) {P : Stream → Prop} (hP : P s') :
    GoesOn buffer log s P := by
  refine ⟨[e], s', .next .start hs, hnone, ⟨h.good.next hs ?_, ?_, ?_, hroused, hsending, hpending⟩,
    hP⟩
  · rintro c rfl
    cases hnone
  · rw [frames_append, hnone, List.append_nil]
    exact h.called
  · exact forall_mem_snoc.mpr ⟨h.kept, hkept⟩

/-- The steps that the datagrams under way are from the unpackager. -/
def Stream.weight (s : Stream) : Nat :=
  3 * s.sender.sendQueue_.length + 2 * s.network.length + s.receiver.socket_.length

/-- A section of the thread sends the front of the queue. -/
theorem Going.serves (h : Going buffer log s) {front : dataPacket} {rest : List dataPacket}
    (hqueue : s.sender.sendQueue_ = front :: rest)
    (hthread : s.sender.send_Thread_ = .lock ∨ s.sender.send_Thread_ = .woken) :
    GoesOn buffer log s
      (fun s' => s'.feeder = s.feeder ∧ s'.weight < s.weight ∧ s'.network ≠ []) := by
  have hsound := h.roused.sound
  rw [hqueue, List.forall_mem_cons] at hsound
  have hserve := sender.serve_front hqueue hsound.1
  have hstep : sender.Step s.sender (.sent front.bytes)
      { s.sender with sendQueue_ := rest, send_Thread_ := .test } := by
    rcases hthread with hlock | hwoken
    · exact .serve hlock hserve
    · refine .wake hwoken ?_
      unfold Sender.afterWait
      rw [if_neg (by rw [h.sending]; decide)]
      exact hserve
  refine h.step (.send hstep) rfl trivial (h.roused.next hstep) h.sending h.pending
    ⟨rfl, ?_, List.append_ne_nil_of_right_ne_nil _ (List.cons_ne_nil _ _)⟩
  unfold Stream.weight
  simp only [hqueue, List.length_cons, List.length_append, List.length_nil]
  omega

/-- The thread of the sender comes to send the front of the queue. -/
theorem Going.sends (h : Going buffer log s) (hqueue : s.sender.sendQueue_ ≠ []) :
    GoesOn buffer log s
      (fun s' => s'.feeder = s.feeder ∧ s'.weight < s.weight ∧ s'.network ≠ []) := by
  obtain ⟨front, rest, hfront⟩ := List.exists_cons_of_ne_nil hqueue
  cases hthread : s.sender.send_Thread_ with
  | lock => exact h.serves hfront (Or.inl hthread)
  | woken => exact h.serves hfront (Or.inr hthread)
  | waiting => exact absurd (h.roused.waiting hthread) hqueue
  | ended => cases h.sending.symm.trans (h.roused.ended hthread)
  | test =>
    have htest : sender.Step s.sender .quiet s.sender.testSending := .test hthread
    have hlock : s.sender.testSending.send_Thread_ = .lock := by
      unfold Sender.testSending
      rw [if_pos h.sending]
    have htested := h.step (.quiet htest) rfl trivial (h.roused.next htest) h.sending h.pending
      (P := fun s' => s' = { s with sender := s.sender.testSending }) rfl
    refine htested.then (fun log' s' hgoing hs' => ?_)
    subst hs'
    exact hgoing.serves hfront (Or.inl hlock)

/-- The oldest datagram on the network arrives. -/
theorem Going.arrives (h : Going buffer log s) (hnetwork : s.network ≠ []) :
    GoesOn buffer log s
      (fun s' => s'.feeder = s.feeder ∧ s'.weight < s.weight ∧ s'.receiver.socket_ ≠ []) := by
  obtain ⟨d, rest, hfront⟩ := List.exists_cons_of_ne_nil hnetwork
  refine h.step (.arrive hfront (.arrive d)) rfl trivial h.roused h.sending h.pending
    ⟨rfl, ?_, List.append_ne_nil_of_right_ne_nil _ (List.cons_ne_nil _ _)⟩
  unfold Stream.weight
  simp only [hfront, List.length_cons, List.length_append, List.length_nil]
  omega

/-- The oldest datagram of the socket goes to the unpackager. -/
theorem Going.unpacks (h : Going buffer log s) (hsocket : s.receiver.socket_ ≠ []) :
    GoesOn buffer log s (fun s' => s'.feeder = s.feeder ∧ s'.weight < s.weight) := by
  obtain ⟨d, rest, hfront⟩ := List.exists_cons_of_ne_nil hsocket
  obtain ⟨a, u, out, ha, hu⟩ := h.good.unpack_ok h.called h.kept hfront
  have hmem : d ∈ s.inFlight := by
    unfold Stream.inFlight
    rw [hfront]
    exact List.mem_append_left _ (List.mem_append_left _ List.mem_cons_self)
  have hne : d ≠ [] := List.ne_nil_of_length_pos (by have := h.good.length hmem; omega)
  obtain ⟨a', ha', -⟩ := receiver.received_bytes h.good.sink hne rest
  have hstep := receiver.Step.receive h.pending hfront
  rw [ha] at hstep
  refine h.step (.unpack hstep hu) rfl trivial h.roused h.sending ?_ ⟨rfl, ?_⟩
  · change (s.receiver.received d rest).1.pending = true
    rw [ha']
  · unfold Stream.weight
    rw [ha', hfront]
    exact Nat.lt_succ_self _

/-- All that is under way can come out. -/
theorem Going.drains (h : Going buffer log s) :
    GoesOn buffer log s (fun s' => s'.feeder = s.feeder ∧ s'.inFlight = []) := by
  induction hw : s.weight using Nat.strong_induction_on generalizing log s with
  | h n ih =>
    subst hw
    have hgo : GoesOn buffer log s (fun s' => s'.feeder = s.feeder ∧ s'.weight < s.weight) →
        GoesOn buffer log s (fun s' => s'.feeder = s.feeder ∧ s'.inFlight = []) := by
      intro hnext
      refine hnext.then (fun log' s' hgoing hs' => ?_)
      obtain ⟨hfeeder, hlt⟩ := hs'
      rw [← hfeeder]
      exact ih _ hlt hgoing rfl
    by_cases hsocket : s.receiver.socket_ = []
    · by_cases hnetwork : s.network = []
      · by_cases hqueue : s.sender.sendQueue_ = []
        · refine h.here ⟨rfl, ?_⟩
          unfold Stream.inFlight
          rw [hsocket, hnetwork, hqueue]
          rfl
        · exact hgo ((h.sends hqueue).mono fun _ hs' => ⟨hs'.1, hs'.2.1⟩)
      · exact hgo ((h.arrives hnetwork).mono fun _ hs' => ⟨hs'.1, hs'.2.1⟩)
    · exact hgo (h.unpacks hsocket)

/-- The feeder hands over its next datagram, and an empty queue accepts it. -/
theorem Going.hands (h : Going buffer log s) (hloop : s.feeder = .loop c t)
    (hqueue : s.sender.sendQueue_ = []) :
    GoesOn buffer log s (fun s' =>
      s'.feeder.fragments + 1 = s.feeder.fragments ∧ s'.sender.sendQueue_ ≠ []) := by
  have hfeeds := h.good.feeds
  rw [hloop] at hfeeds
  obtain ⟨t', last, d, ht, hd, hfewer, hnext⟩ := hfeeds.turn
  have hlen := hnext.length (List.mem_append_right _ List.mem_cons_self)
  let a : Arrival :=
    { size := PACKAGED_BUFFER_SIZE, inBuff := t'.p.rtpBuffer_, buffSize := d.length }
  have hslot : a.buffSize ≤ 1500 := hlen.2.trans (by decide)
  have hbuffer : a.buffSize ≤ a.size := hlen.2.trans (by decide : 1111 ≤ PACKAGED_BUFFER_SIZE)
  have hint : a.buffSize < 2 ^ 31 := hlen.2.trans_lt (by decide)
  obtain ⟨q, ok, hq⟩ := sender.receive_ok s.sender (Block.ofList [] 0) a hslot hbuffer
  obtain ⟨rfl, hfilled⟩ : ok = true ∧ q.sendQueue_ ≠ [] := by
    rcases sender.receive_cases hint hq with ⟨hok, -, x, -, -, hback⟩ | ⟨-, hfull, -⟩
    · exact ⟨hok, by rw [hback]; exact List.append_ne_nil_of_right_ne_nil _ (List.cons_ne_nil _ _)⟩
    · have hmany := hfull h.sending
      rw [hqueue] at hmany
      cases hmany
  refine h.step (.hand (Block.ofList [] 0) hloop ht hd hq) rfl rfl (h.roused.receive hint hq)
    ((sender.receive_thread hq).1.trans h.sending) h.pending ⟨?_, hfilled⟩
  rw [hloop]
  exact hfewer

/-- The frame in the loop can be handed over, and all can come out. -/
theorem Going.finishes (h : Going buffer log s) :
    GoesOn buffer log s (fun s' => (∃ p, s'.feeder = .idle p) ∧ s'.inFlight = []) := by
  induction hw : s.feeder.fragments using Nat.strong_induction_on generalizing log s with
  | h n ih =>
    subst hw
    refine h.drains.then (fun log' s' hgoing hs' => ?_)
    obtain ⟨hfeeder, hempty⟩ := hs'
    cases hidle : s'.feeder with
    | idle p => exact hgoing.here ⟨⟨p, hidle⟩, hempty⟩
    | loop c t =>
      have hqueue : s'.sender.sendQueue_ = [] :=
        List.map_eq_nil_iff.mp (List.append_eq_nil_iff.mp hempty).2
      refine (hgoing.hands hidle hqueue).then (fun log'' s'' hgoing' hs'' => ?_)
      have hfewer := hs''.1
      rw [hfeeder] at hfewer
      exact ih _ (by omega) hgoing' rfl

/-- While nothing has been lost, the flag of the sender is up and a receive is
pending, the parties can go on until all the frames have come out, without a new
packet and without a loss. -/
theorem all_frames_can_come_out
    (h : Reaches Step (start outBuff_ rtpBuffer_ buffer_ buffer) log s)
    (hframes : ∀ c ∈ frames log, Frame c) (hkept : ∀ e ∈ log, e.Kept)
    (hsending : s.sender.sending_ = true) (hpending : s.receiver.pending = true) :
    ∃ more s', Reaches Step s more s' ∧ frames more = [] ∧ (∀ e ∈ more, e.Kept) ∧
      (delivered (outs (log ++ more))).map AVPacket.data =
        (frames log).map (fun c => c.packet.data) := by
  have hgoing : Going buffer log s :=
    ⟨good_reaches h hframes, hframes, hkept, roused_reaches h hframes, hsending, hpending⟩
  obtain ⟨more, s', hrun, hnone, hgoing', ⟨p, hidle⟩, hempty⟩ := hgoing.finishes
  refine ⟨more, s', hrun, hnone, fun e he => hgoing'.kept e (List.mem_append_right log he), ?_⟩
  have hall := hgoing'.good.all_delivered hgoing'.called hgoing'.kept hidle hempty
  rwa [frames_append, hnone, List.append_nil] at hall

/-- Every list of frames can go all the way, one frame after the other. -/
theorem every_list_of_frames_can_come_out (hcalls : ∀ c ∈ calls, Frame c) :
    ∃ log s p, Reaches Step (start outBuff_ rtpBuffer_ buffer_ buffer) log s ∧
      frames log = calls ∧ Going buffer log s ∧ s.feeder = .idle p ∧ s.inFlight = [] := by
  induction calls using List.reverseRecOn with
  | nil => exact ⟨[], _, _, .start, rfl, going_start, rfl, rfl⟩
  | append_singleton calls c ih =>
    rw [forall_mem_snoc] at hcalls
    obtain ⟨log, s, p, hrun, rfl, hgoing, hidle, -⟩ := ih hcalls.1
    obtain ⟨more, s', hmore, hnone, hgoing', ⟨p', hidle'⟩, hempty⟩ :=
      (hgoing.call hidle hcalls.2).finishes
    refine ⟨_, s', p', (hrun.next (.frame c hidle)).trans hmore, ?_, hgoing', hidle', hempty⟩
    rw [frames_append, frames_append, hnone, List.append_nil]
    rfl

end GoesOn

/-! ## Two frames of two datagrams each -/

open payloader.rtp_session_laws (longFrames longFrames_fit count_long sentBy_longFrames)

/-- The parties with zeros in their buffers. -/
def zeros : Stream :=
  start (Block.ofList [] 0) (Block.ofList [] 0) (Block.ofList [] 0) (Block.ofList [] 0)

theorem zeros_finish (hcalls : ∀ c ∈ calls, Frame c) :
    ∃ log s p, Reaches Step zeros log s ∧ frames log = calls ∧ Going (Block.ofList [] 0) log s ∧
      s.feeder = .idle p ∧ s.inFlight = [] :=
  every_list_of_frames_can_come_out hcalls

theorem two_frames_come_out_in_order : ∃ log s, Reaches Step zeros log s ∧
    (delivered (outs log)).map AVPacket.data = [List.replicate 1100 1, List.replicate 1100 2] := by
  obtain ⟨log, s, p, hrun, hlong, hgoing, hidle, hempty⟩ :=
    zeros_finish longFrames_fit
  have hall := (frames_come_out_in_order hrun hgoing.called hgoing.kept).2 hidle hempty
  rw [hlong] at hall
  exact ⟨log, s, hrun, hall⟩

/-- The datagrams of the first of them. -/
def firstFrame : List (List UInt8) := frameDatagrams 0 40 1 (List.replicate 1100 1)

theorem longFrames_datagrams : (sentBy 0 longFrames).flatten =
    firstFrame ++ frameDatagrams 2 80 2 (List.replicate 1100 2) := by
  rw [sentBy_longFrames, List.flatten_cons, List.flatten_singleton]
  rfl

/-- A run in which the first frame has come out, and one of the two datagrams of
the second is on the network. -/
theorem in_the_second_frame : ∃ log s, Reaches Step zeros log s ∧ frames log = longFrames ∧
    Going (Block.ofList [] 0) log s ∧ s.feeder.fragments = 1 ∧ s.network ≠ [] ∧
    firstFrame <+: taken log := by
  have hone : ∀ c ∈ longFrames.take 1, Frame c :=
    fun c hc => longFrames_fit c (List.mem_of_mem_take hc)
  obtain ⟨log, s, p, hrun, hfirst, hgoing, hidle, hempty⟩ := zeros_finish hone
  have htaken : taken log = firstFrame := by
    rw [hgoing.good.all_taken hgoing.kept hidle hempty, hfirst]
    exact List.append_nil _
  have hcall := hgoing.call hidle (longFrames_fit _ (List.getElem_mem (n := 1) (by decide)))
  have hframes : frames (log ++ [.frame longFrames[1]]) = longFrames := by
    rw [frames_append, hfirst]
    rfl
  have htwo : (receivePacket p longFrames[1]).fragments = 2 := by
    have hcount := hcall.good.feeds.count
    rw [← hcall.good.kept hcall.kept, hframes, longFrames_datagrams] at hcount
    have hflight : Stream.inFlight { s with feeder := receivePacket p longFrames[1] } = [] := hempty
    rw [taken_append, htaken, hflight] at hcount
    simp only [List.length_append, firstFrame, frameDatagrams_length, count_long] at hcount
    change 2 + 0 + 0 + _ = 2 + 2 at hcount
    omega
  have hgoes : GoesOn (Block.ofList [] 0) (log ++ [.frame longFrames[1]])
      { s with feeder := receivePacket p longFrames[1] }
      (fun s' => s'.feeder.fragments = 1 ∧ s'.network ≠ []) := by
    have hqueue : s.sender.sendQueue_ = [] :=
      List.map_eq_nil_iff.mp (List.append_eq_nil_iff.mp hempty).2
    refine (hcall.hands rfl hqueue).then (fun _ s' hgoing' hs' => ?_)
    refine (hgoing'.sends hs'.2).mono (fun s'' hs'' => ⟨?_, hs''.2.2⟩)
    have hfewer : s'.feeder.fragments + 1 = 2 := hs'.1.trans htwo
    rw [hs''.1]
    omega
  obtain ⟨more, s', hmore, hnone, hgoing', hlast, hnetwork⟩ := hgoes
  refine ⟨_, s', (hrun.next (.frame _ hidle)).trans hmore, ?_, hgoing', hlast, hnetwork, ?_⟩
  · rw [frames_append, hnone, List.append_nil, hframes]
  · rw [taken_append, taken_append, htaken, List.append_assoc]
    exact List.prefix_append _ _

theorem the_second_frame_can_come_out : ∃ log s c t more s', Reaches Step zeros log s ∧
    s.feeder = .loop c t ∧ Reaches Step s more s' ∧ frames more = [] ∧
    (delivered (outs (log ++ more))).map AVPacket.data =
      [List.replicate 1100 1, List.replicate 1100 2] := by
  obtain ⟨log, s, hrun, hlong, hgoing, hlast, -, -⟩ := in_the_second_frame
  obtain ⟨more, s', hmore, hnone, -, hall⟩ := all_frames_can_come_out hrun hgoing.called hgoing.kept
    hgoing.sending hgoing.pending
  rw [hlong] at hall
  cases hloop : s.feeder with
  | idle p =>
    rw [hloop] at hlast
    cases hlast
  | loop c t => exact ⟨log, s, c, t, more, s', hrun, hloop, hmore, hnone, hall⟩

/-- In one state the packager can go on with the second frame, the sender with
its queue, and the unpackager with what has arrived. -/
theorem no_party_fails_in_the_second_frame :
    ∃ log s c t d a r, Reaches Step zeros log s ∧ s.feeder = .loop c t ∧
      receiver.Step s.receiver (.received d (some a)) r ∧
      (∃ t' last, turn c.dts c.millis t = .ok (t', last)) ∧
      (∃ q x, s.sender.serve = .ok (q, x)) ∧ ∃ u out, s.unpackager.receive a = .ok (u, out) := by
  obtain ⟨log, s, hrun, hlong, hgoing, hlast, hnetwork, -⟩ := in_the_second_frame
  obtain ⟨more, s', hmore, hnone, hgoing', hfeeder, -, hsocket⟩ := hgoing.arrives hnetwork
  obtain ⟨hturn, hserve, hunpack⟩ :=
    no_party_fails (hrun.trans hmore) hgoing'.called hgoing'.kept
  obtain ⟨d, rest, hfront⟩ := List.exists_cons_of_ne_nil hsocket
  obtain ⟨a, -, -, ha, -⟩ := hgoing'.good.unpack_ok hgoing'.called hgoing'.kept hfront
  have hstep := receiver.Step.receive hgoing'.pending hfront
  rw [ha] at hstep
  cases hloop : s'.feeder with
  | idle p =>
    rw [← hfeeder, hloop] at hlast
    cases hlast
  | loop c t =>
    obtain ⟨t', last, -, ht, -⟩ := hturn c t hloop
    exact ⟨_, s', c, t, d, a, _, hrun.trans hmore, hloop, hstep, ⟨t', last, ht⟩, hserve,
      hunpack d a _ hstep⟩

end payloader.stream
