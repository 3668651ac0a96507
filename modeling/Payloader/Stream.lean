-- A whole stream. The packager hands its datagrams to the sender one by one,
-- the thread of the sender puts them on the network, and the receiver hands
-- what arrives to the unpackager. Each of them takes its steps when it likes.
-- The network loses datagrams, and it does not reorder them.
import Payloader.Receiver
import Payloader.RtpSessionLaws
import Payloader.Sender

set_option autoImplicit false

namespace payloader.stream

open payloader.memory payloader.machines payloader.framing payloader.interfaces
open payloader.rtp_fragmenter payloader.packager payloader.packager_laws payloader.unpackager
open payloader.sender (Sender dataPacket)
open payloader.receiver (Receiver)
open payloader.rtp_session (Frame ComeThrough MarkerCame Carry Fits packetOf fresh)

/-! ## The parties -/

/-- The thread that calls the packager: it is between two calls, or in the loop
of `receivePacket`. -/
inductive Feeder
  | idle (p : Packager)
  | loop (c : Call) (t : Turn)

structure Stream where
  feeder : Feeder
  sender : Sender
  network : List (List UInt8)
  receiver : Receiver
  unpackager : Unpackager

/-- The fragments that the feeder still has to hand over. -/
def Feeder.fragments : Feeder → Nat
  | .idle _ => 0
  | .loop _ t => t.frag.fragmentQueue_.length

/-- `receivePacket` is called. With a video packet its loop starts, and with
any other it returns. -/
def receivePacket (p : Packager) (c : Call) : Feeder :=
  match c.type with
  | .AVMEDIA_TYPE_VIDEO =>
    let data : Block c.packet.data.length UInt8 := Block.ofList c.packet.data 0
    .loop c { frag := RtpFragmenter.init data, lastFrame := false, p, sent := [] }
  | _ => .idle p

/-- A packet comes in, its datagrams are handed to the queue of the sender, put
on the network, lost there or taken to the socket, and the unpackager gets
them. -/
inductive Event
  | frame (c : Call)
  | handed (d : List UInt8) (accepted : Bool)
  | sent (d : List UInt8)
  | lost (d : List UInt8)
  | arrived (d : List UInt8)
  | unpacked (a : Arrival) (out : Option AVPacket)
  | dropped (d : List UInt8)
  | quiet

inductive Step [FFmpeg] : Stream → Event → Stream → Prop
  | frame {s : Stream} {p : Packager} (c : Call) (h : s.feeder = .idle p) :
      Step s (.frame c) { s with feeder := receivePacket p c }
  /-- One turn of the loop calls the sink. -/
  | hand {s : Stream} {c : Call} {t t' : Turn} {last accepted : Bool} {d : List UInt8} {q : Sender}
      (p_ : Block 1500 UInt8) (h : s.feeder = .loop c t)
      (ht : turn c.dts c.millis t = .ok (t', last)) (hd : t'.sent = t.sent ++ [d])
      (hs : s.sender.receiveRtpPacket p_ t'.p.rtpBuffer_ d.length = .ok (q, accepted)) :
      Step s (.handed d accepted)
        { s with feeder := if last then .idle t'.p else .loop c t', sender := q }
  | send {s : Stream} {d : List UInt8} {q : Sender} (h : sender.Step s.sender (.sent d) q) :
      Step s (.sent d) { s with sender := q, network := s.network ++ [d] }
  | quiet {s : Stream} {q : Sender} (h : sender.Step s.sender .quiet q) :
      Step s .quiet { s with sender := q }
  | lose {s : Stream} {d : List UInt8} {before after : List (List UInt8)}
      (h : s.network = before ++ d :: after) :
      Step s (.lost d) { s with network := before ++ after }
  | arrive {s : Stream} {d : List UInt8} {rest : List (List UInt8)} {r : Receiver}
      (h : s.network = d :: rest) (hr : receiver.Step s.receiver (.arrived d) r) :
      Step s (.arrived d) { s with network := rest, receiver := r }
  | unpack {s : Stream} {d : List UInt8} {a : Arrival} {r : Receiver} {u : Unpackager}
      {out : Option AVPacket} (hr : receiver.Step s.receiver (.received d (some a)) r)
      (hu : s.unpackager.receive a = .ok (u, out)) :
      Step s (.unpacked a out) { s with receiver := r, unpackager := u }
  | drop {s : Stream} {d : List UInt8} {r : Receiver}
      (hr : receiver.Step s.receiver (.received d none) r) :
      Step s (.dropped d) { s with receiver := r }
  | fail {s : Stream} {r : Receiver} (hr : receiver.Step s.receiver (.failed none) r) :
      Step s .quiet { s with receiver := r }

/-- The parties right after their `init`, each with its sink. -/
def start (outBuff_ rtpBuffer_ : Block PACKAGED_BUFFER_SIZE UInt8)
    (buffer_ : Block (8 * receiver.LENGTH) UInt8) (buffer : Block UNPACKAGED_BUFFER_SIZE UInt8) :
    Stream :=
  { feeder := .idle (rtp_session.sender outBuff_ rtpBuffer_)
    sender := Sender.init
    network := []
    receiver := receiver.start buffer_
    unpackager := rtp_session.receiver buffer }

/-! ## What a run did -/

def frames (log : List Event) : List Call :=
  log.filterMap (fun e =>
    match e with
    | .frame c => some c
    | _ => none)

def handed (log : List Event) : List (List UInt8) :=
  log.filterMap (fun e =>
    match e with
    | .handed d _ => some d
    | _ => none)

def unpacked (log : List Event) : List (Arrival × Option AVPacket) :=
  log.filterMap (fun e =>
    match e with
    | .unpacked a out => some (a, out)
    | _ => none)

/-- The datagram that an arrival holds. -/
def bytes (a : Arrival) : List UInt8 := a.inBuff.slice 0 a.buffSize

/-- The calls of the unpackager. -/
def arrivals (log : List Event) : List Arrival := (unpacked log).map Prod.fst

/-- The datagrams that the unpackager got. -/
def taken (log : List Event) : List (List UInt8) := (arrivals log).map bytes

/-- What each of them made it hand over. -/
def outs (log : List Event) : List (Option AVPacket) := (unpacked log).map Prod.snd

/-- The datagrams that are under way, the oldest first. -/
def Stream.inFlight (s : Stream) : List (List UInt8) :=
  s.receiver.socket_ ++ s.network ++ s.sender.sendQueue_.map dataPacket.bytes

/-- Nothing is lost by this event. -/
def Event.Kept : Event → Prop
  | .handed _ accepted => accepted = true
  | .lost _ => False
  | .dropped _ => False
  | _ => True

variable {log : List Event} {e : Event} {s s' : Stream} {c : Call} {t t' : Turn} {p : Packager}
variable {d : List UInt8} {ds : List (List UInt8)} {calls : List Call} {f : Feeder}

theorem frames_append (more : List Event) : frames (log ++ more) = frames log ++ frames more :=
  List.filterMap_append

theorem handed_append (more : List Event) : handed (log ++ more) = handed log ++ handed more :=
  List.filterMap_append

theorem unpacked_append (more : List Event) :
    unpacked (log ++ more) = unpacked log ++ unpacked more :=
  List.filterMap_append

theorem taken_append (more : List Event) : taken (log ++ more) = taken log ++ taken more := by
  unfold taken arrivals
  rw [unpacked_append, List.map_append, List.map_append]

/-! ## The packager in the loop -/

/-- The counter of the packager after some calls. -/
def counterAfter (seq : BitVec 32) : List Call → BitVec 32
  | [] => seq
  | c :: cs =>
    counterAfter (if c.type = .AVMEDIA_TYPE_VIDEO then seq + BitVec.ofNat 32 c.count else seq) cs

theorem counterAfter_snoc (seq : BitVec 32) (hv : c.type = .AVMEDIA_TYPE_VIDEO) :
    counterAfter seq (calls ++ [c]) = counterAfter seq calls + BitVec.ofNat 32 c.count := by
  induction calls generalizing seq with
  | nil => simp only [List.nil_append, counterAfter, if_pos hv]
  | cons b cs ih => exact ih _

theorem sentBy_snoc (seq : BitVec 32) (hv : c.type = .AVMEDIA_TYPE_VIDEO) :
    sentBy seq (calls ++ [c]) =
      sentBy seq calls ++
        [frameDatagrams (counterAfter seq calls) c.dts c.millis c.packet.data] := by
  induction calls generalizing seq with
  | nil => simp only [List.nil_append, sentBy, if_pos hv, counterAfter]
  | cons b cs ih =>
    rw [List.cons_append]
    unfold sentBy counterAfter
    split
    · rw [ih, List.cons_append]
    · rw [ih, List.cons_append]

/-- Where the feeder stands: it has been called with `calls`, and has handed
over `ds`. -/
inductive Feeds (calls : List Call) (ds : List (List UInt8)) : Feeder → Prop
  | idle {p : Packager} (hsink : p.sink_ = true) (hseq : p.videoSeqNum_ = counterAfter 0 calls)
      (hds : ds = (sentBy 0 calls).flatten) : Feeds calls ds (.idle p)
  | loop {done : List Call} {c : Call} {p : Packager} {sent : List (List UInt8)} {i m : Nat}
      (hcalls : calls = done ++ [c]) (hframe : Frame c)
      (hm : i + (m + 1) = pieceCount 1099 c.packet.data.length) (hsink : p.sink_ = true)
      (hseq : p.videoSeqNum_ = counterAfter 0 done + BitVec.ofNat 32 i)
      (hds : ds = (sentBy 0 done).flatten ++
        (List.range i).map (datagramAt (counterAfter 0 done) c.dts c.millis c.packet.data)) :
      Feeds calls ds (.loop c
        { frag := { totalLenth_ := c.packet.data.length, totalData_ := Block.ofList c.packet.data 0,
                    fragmentQueue_ :=
                      (List.range' i (m + 1)).map (fragmentAt c.packet.data.length) }
          lastFrame := false, p, sent })

theorem Feeds.call (h : Feeds calls ds (.idle p)) (hframe : Frame c) :
    Feeds (calls ++ [c]) ds (receivePacket p c) := by
  cases h with
  | idle hsink hseq hds =>
    obtain ⟨hv, hpos, hlen⟩ := hframe
    obtain ⟨m, hm⟩ : ∃ m, pieceCount 1099 c.packet.data.length = m + 1 :=
      ⟨_, (Nat.succ_pred_eq_of_pos ((pieceCount_pos (by decide)).mpr hpos)).symm⟩
    have hqueue := calculatePackets_eq c.packet.data.length (by omega)
    rw [hm, List.range_eq_range'] at hqueue
    unfold receivePacket
    rw [hv]
    simp only [RtpFragmenter.init, hqueue]
    refine .loop rfl ⟨hv, hpos, hlen⟩ (by omega) hsink (by rw [hseq, BitVec.add_zero]) ?_
    rw [hds, List.range_zero, List.map_nil, List.append_nil]

/-- A turn leaves the datagram at the start of the packager's buffer. -/
theorem turn_buffer [FFmpeg] {dts : BitVec 32} {millis : BitVec 64} {last : Bool}
    (ht : turn dts millis t = .ok (t', last)) (hd : t'.sent = t.sent ++ [d]) :
    t'.p.rtpBuffer_.slice 0 d.length = d := by
  obtain ⟨x, -, hx⟩ := bind_eq_ok ht
  obtain ⟨y, -, hy⟩ := bind_eq_ok hx
  obtain ⟨z, -, hz⟩ := bind_eq_ok hy
  cases hz
  simp only at hd
  split at hd
  · obtain rfl := List.singleton_inj.mp (List.append_cancel_left hd)
    rw [slice_length]
  · exact absurd hd.symm (by simp)

/-- The next turn hands over the next datagram. -/
theorem Feeds.turn [FFmpeg] (h : Feeds calls ds (.loop c t)) :
    ∃ t' last d, turn c.dts c.millis t = .ok (t', last) ∧ t'.sent = t.sent ++ [d] ∧
      Feeder.fragments (if last then .idle t'.p else .loop c t') + 1 =
        t.frag.fragmentQueue_.length ∧
      Feeds calls (ds ++ [d]) (if last then .idle t'.p else .loop c t') := by
  cases h with
  | @loop done c p sent i m hcalls hframe hm hsink hseq hds =>
    obtain ⟨out, rtp, hturn⟩ := turn_fragment c.dts c.millis c.packet.data i
      ((List.range' (i + 1) m).map (fragmentAt c.packet.data.length)) p sent (by omega)
    rw [if_pos hsink] at hturn
    have hempty : ((List.range' (i + 1) m).map (fragmentAt c.packet.data.length)).isEmpty =
        (i + 1 == pieceCount 1099 c.packet.data.length) := by
      rw [List.isEmpty_map, ← hm]
      cases m with
      | zero => simp
      | succ m =>
        rw [List.range'_succ]
        exact (beq_eq_false_iff_ne.mpr (by omega)).symm
    have hd : datagram (i + 1 == pieceCount 1099 c.packet.data.length) p.videoSeqNum_ c.dts c.millis
        (piece 1099 c.packet.data i) =
          datagramAt (counterAfter 0 done) c.dts c.millis c.packet.data i := by
      rw [hseq]
      rfl
    rw [hempty, hd] at hturn
    have hnext := List.range_succ (n := i)
    refine ⟨_, _, _, hturn, rfl, ?_⟩
    by_cases hlast : i + 1 = pieceCount 1099 c.packet.data.length
    · rw [if_pos (beq_iff_eq.mpr hlast)]
      obtain rfl : m = 0 := by omega
      refine ⟨rfl, .idle hsink ?_ ?_⟩
      · change p.videoSeqNum_ + 1 = _
        rw [hcalls, counterAfter_snoc 0 hframe.1, hseq, ofNat_succ, hlast, Call.count]
      · rw [hcalls, sentBy_snoc 0 hframe.1, hds, List.flatten_append, List.flatten_singleton,
          frameDatagrams, ← hlast, hnext, List.map_append, List.map_singleton, List.append_assoc]
    · rw [if_neg (by rwa [beq_iff_eq])]
      obtain ⟨m, rfl⟩ : ∃ k, m = k + 1 := ⟨m - 1, by omega⟩
      have hflag : (i + 1 == pieceCount 1099 c.packet.data.length) = false :=
        beq_eq_false_iff_ne.mpr hlast
      simp only [hflag]
      refine ⟨by simp [Feeder.fragments], .loop hcalls hframe (by omega) hsink ?_ ?_⟩
      · change p.videoSeqNum_ + 1 = _
        rw [hseq, ofNat_succ]
      · rw [hds, hnext, List.map_append, List.map_singleton, List.append_assoc]

/-- What has been handed over is the first part of the datagrams of the frames. -/
theorem Feeds.begins (h : Feeds calls ds f) : ds <+: (sentBy 0 calls).flatten := by
  cases h with
  | idle _ _ hds =>
    subst hds
    exact List.prefix_rfl
  | @loop done c p sent i m hcalls hframe hm _ _ hds =>
    rw [hds, hcalls, sentBy_snoc 0 hframe.1, List.flatten_append, List.flatten_singleton,
      List.prefix_append_right_inj, frameDatagrams, ← hm, List.range_add, List.map_append]
    exact List.prefix_append _ _

/-- What has been handed over and what is still to come are all of them. -/
theorem Feeds.count (h : Feeds calls ds f) :
    ds.length + f.fragments = (sentBy 0 calls).flatten.length := by
  cases h with
  | idle _ _ hds => rw [hds]; rfl
  | @loop done c p sent i m hcalls hframe hm _ _ hds =>
    rw [hds, hcalls, sentBy_snoc 0 hframe.1, List.flatten_append, List.flatten_singleton]
    simp only [Feeder.fragments, List.length_append, List.length_map, List.length_range,
      List.length_range', frameDatagrams_length]
    omega

/-- Every datagram that is handed over has a header and at most 1099 bytes. -/
theorem Feeds.length (h : Feeds calls ds f) (hd : d ∈ ds) : 12 ≤ d.length ∧ d.length ≤ 1111 := by
  obtain ⟨b, n, dts, millis, payload, rfl, -, hlen⟩ :=
    rtp_session.mem_sentBy (h.begins.subset hd)
  rw [datagram_length]
  omega

/-! ## The sender and the receiver -/

/-- The thread of the sender sends the oldest datagram of the queue ... -/
theorem send_front {q q' : Sender} {x : sender.Event} (h : sender.Step q x q') (hx : x = .sent d) :
    q.sendQueue_.map dataPacket.bytes = d :: q'.sendQueue_.map dataPacket.bytes := by
  have hserve : q.serve = .ok (q', x) → q.sendQueue_.map dataPacket.bytes =
      d :: q'.sendQueue_.map dataPacket.bytes := by
    intro hs
    rcases sender.serve_cases hs with ⟨-, -, hquiet⟩ | ⟨front, rest, hq, hq', hsent⟩
    · cases hquiet.symm.trans hx
    · cases hsent.symm.trans hx
      rw [hq, hq', List.map_cons]
  cases h with
  | serve _ hs => exact hserve hs
  | wake _ hs =>
    unfold Sender.afterWait at hs
    split at hs
    · cases hs
      cases hx
    · exact hserve hs
  | _ => cases hx

/-- ... and no other step of it changes the queue. -/
theorem quiet_queue {q q' : Sender} {x : sender.Event} (h : sender.Step q x q')
    (hx : x = .quiet) : q'.sendQueue_ = q.sendQueue_ := by
  have hserve : q.serve = .ok (q', x) → q'.sendQueue_ = q.sendQueue_ := by
    intro hs
    rcases sender.serve_cases hs with ⟨hq, hq', -⟩ | ⟨front, rest, -, -, hsent⟩
    · exact hq'.trans hq.symm
    · cases hsent.symm.trans hx
  cases h with
  | receive p_ a hint hr => cases hx
  | serve _ hs => exact hserve hs
  | wake _ hs =>
    unfold Sender.afterWait at hs
    split at hs
    · cases hs
      rfl
    · exact hserve hs
  | _ => rfl

/-- A receive that completes takes the oldest datagram of the socket. -/
theorem receive_front {r r' : Receiver} {x : receiver.Event} {sunk : Option Arrival}
    (h : receiver.Step r x r') (hx : x = .received d sunk) :
    ∃ rest, r.socket_ = d :: rest ∧ sunk = (r.received d rest).2 ∧ r' = (r.received d rest).1 := by
  cases h with
  | arrive _ => cases hx
  | receive _ hd =>
    cases hx
    exact ⟨_, hd, rfl, rfl⟩
  | fail _ => cases hx

theorem arrive_back {r r' : Receiver} {x : receiver.Event} (h : receiver.Step r x r')
    (hx : x = .arrived d) : r' = { r with socket_ := r.socket_ ++ [d] } := by
  cases h with
  | arrive _ =>
    cases hx
    rfl
  | _ => cases hx

theorem fail_stops {r r' : Receiver} {x : receiver.Event} {sunk : Option Arrival}
    (h : receiver.Step r x r') (hx : x = .failed sunk) : r' = { r with pending := false } := by
  cases h with
  | fail _ => rw [receiver.failed_eq]
  | _ => cases hx

/-- The sink of the receiver gets a datagram as it is. -/
theorem receive_whole {r : Receiver} (hsink : r.sink_ = true)
    (hlen : 12 ≤ d.length ∧ d.length ≤ 1111) (rest : List (List UInt8)) :
    ∃ a, (r.received d rest).2 = some a ∧ a.Carries d ∧ bytes a = d ∧
      (r.received d rest).1.sink_ = true ∧ (r.received d rest).1.socket_ = rest := by
  have hsize : receiver.LENGTH = 1500 := rfl
  have htake : d.take receiver.LENGTH = d := List.take_of_length_le (by omega)
  have hroom : 16 ≤ 8 * receiver.LENGTH := by decide
  have hfits : d.length ≤ 8 * receiver.LENGTH := by omega
  have haddress : 8 * receiver.LENGTH < 2 ^ 64 := by decide
  unfold Receiver.received Receiver.handleReceive
  rw [htake, if_pos ⟨by omega, hsink⟩]
  have hbytes := slice_put_self r.buffer_ 0 d
  exact ⟨_, rfl, ⟨hroom, hfits, rfl, hbytes, haddress⟩, hbytes, hsink, rfl⟩

/-! ## The invariant -/

/-- What the feeder has handed over is on its way in order, and what has come
in made the unpackager what it is. -/
structure Good (buffer : Block UNPACKAGED_BUFFER_SIZE UInt8) (log : List Event) (s : Stream) :
    Prop where
  feeds : Feeds (frames log) (handed log) s.feeder
  sink : s.receiver.sink_ = true
  inOrder : (taken log ++ s.inFlight).Sublist (handed log)
  kept : (∀ e ∈ log, e.Kept) → taken log ++ s.inFlight = handed log
  carried : List.Forall₂ Arrival.Carries (arrivals log) (taken log)
  unpacks : run Unpackager.receive (rtp_session.receiver buffer) (arrivals log) =
    .ok (s.unpackager, outs log)

variable {buffer : Block UNPACKAGED_BUFFER_SIZE UInt8}

/-- What is under way has been handed over. -/
theorem Good.length (h : Good buffer log s) (hd : d ∈ s.inFlight) :
    12 ≤ d.length ∧ d.length ≤ 1111 :=
  h.feeds.length (h.inOrder.subset (List.mem_append_right _ hd))

/-- A step that the unpackager has no part in. -/
theorem Good.moves (h : Good buffer log s)
    (hfeeds : Feeds (frames log ++ frames [e]) (handed log ++ handed [e]) s'.feeder)
    (hsink : s'.receiver.sink_ = s.receiver.sink_) (hunpacked : unpacked [e] = [])
    (hsame : s'.unpackager = s.unpackager)
    (hflight : s'.inFlight.Sublist (s.inFlight ++ handed [e]))
    (hkept : e.Kept → s'.inFlight = s.inFlight ++ handed [e]) : Good buffer (log ++ [e]) s' := by
  have hlog : unpacked (log ++ [e]) = unpacked log := by
    rw [unpacked_append, hunpacked, List.append_nil]
  have harrivals : arrivals (log ++ [e]) = arrivals log := congrArg (List.map Prod.fst) hlog
  have htaken : taken (log ++ [e]) = taken log := congrArg (List.map bytes) harrivals
  have houts : outs (log ++ [e]) = outs log := congrArg (List.map Prod.snd) hlog
  refine ⟨?_, hsink.trans h.sink, ?_, ?_, ?_, ?_⟩
  · rw [frames_append, handed_append]
    exact hfeeds
  · rw [htaken, handed_append]
    have hall := h.inOrder.append (List.Sublist.refl (handed [e]))
    rw [List.append_assoc] at hall
    exact ((List.Sublist.refl _).append hflight).trans hall
  · intro hall
    rw [forall_mem_snoc] at hall
    rw [htaken, handed_append, hkept hall.2, ← List.append_assoc, h.kept hall.1]
  · rw [htaken, harrivals]
    exact h.carried
  · rw [houts, harrivals, hsame]
    exact h.unpacks

/-- The feeder takes no part either. -/
theorem Good.stays (h : Good buffer log s) (hframes : frames [e] = []) (hhanded : handed [e] = [])
    (hunpacked : unpacked [e] = []) (hfeeder : s'.feeder = s.feeder)
    (hsink : s'.receiver.sink_ = s.receiver.sink_) (hsame : s'.unpackager = s.unpackager)
    (hflight : s'.inFlight.Sublist s.inFlight) (hkept : e.Kept → s'.inFlight = s.inFlight) :
    Good buffer (log ++ [e]) s' := by
  refine h.moves ?_ hsink hunpacked hsame ?_ ?_
  · rw [hframes, hhanded, List.append_nil, List.append_nil, hfeeder]
    exact h.feeds
  · rwa [hhanded, List.append_nil]
  · rwa [hhanded, List.append_nil]

theorem Good.call (h : Good buffer log s) (hidle : s.feeder = .idle p) (hframe : Frame c) :
    Good buffer (log ++ [.frame c]) { s with feeder := receivePacket p c } := by
  have hfeeds := h.feeds
  rw [hidle] at hfeeds
  have hcall : Feeds (frames log ++ frames [.frame c]) (handed log ++ handed [.frame c])
      (receivePacket p c) := by
    rw [show handed [.frame c] = [] from rfl, List.append_nil]
    exact hfeeds.call hframe
  have hflight : Stream.inFlight { s with feeder := receivePacket p c } =
      s.inFlight ++ handed [.frame c] := (List.append_nil _).symm
  exact h.moves hcall rfl rfl rfl (by rw [hflight]) (fun _ => hflight)

/-- The datagram of a turn is the next one of its frame. -/
theorem Good.turned [FFmpeg] (h : Good buffer log s) {last : Bool} (hloop : s.feeder = .loop c t)
    (ht : turn c.dts c.millis t = .ok (t', last)) (hd : t'.sent = t.sent ++ [d]) :
    Feeds (frames log) (handed log ++ [d]) (if last then .idle t'.p else .loop c t') ∧
      d.length ≤ 1111 := by
  have hfeeds := h.feeds
  rw [hloop] at hfeeds
  obtain ⟨t1, last1, d1, ht1, hd1, -, hnext⟩ := hfeeds.turn
  cases ht.symm.trans ht1
  obtain rfl := List.singleton_inj.mp (List.append_cancel_left (hd.symm.trans hd1))
  exact ⟨hnext, (hnext.length (List.mem_append_right _ List.mem_cons_self)).2⟩

theorem Good.hand [FFmpeg] (h : Good buffer log s) {last accepted : Bool} {q : Sender}
    (p_ : Block 1500 UInt8) (hloop : s.feeder = .loop c t)
    (ht : turn c.dts c.millis t = .ok (t', last)) (hd : t'.sent = t.sent ++ [d])
    (hs : s.sender.receiveRtpPacket p_ t'.p.rtpBuffer_ d.length = .ok (q, accepted)) :
    Good buffer (log ++ [.handed d accepted])
      { s with feeder := if last then .idle t'.p else .loop c t', sender := q } := by
  obtain ⟨hnext, hlen⟩ := h.turned hloop ht hd
  have hhand : Feeds (frames log ++ frames [.handed d accepted])
      (handed log ++ handed [.handed d accepted]) (if last then .idle t'.p else .loop c t') := by
    rw [show frames [.handed d accepted] = [] from rfl, List.append_nil]
    exact hnext
  let a : Arrival :=
    { size := PACKAGED_BUFFER_SIZE, inBuff := t'.p.rtpBuffer_, buffSize := d.length }
  have hbytes : a.inBuff.slice 0 a.buffSize = d := turn_buffer ht hd
  have hint : a.buffSize < 2 ^ 31 := hlen.trans_lt (by decide)
  have hcases := sender.receive_cases (a := a) hint hs
  rcases hcases with ⟨rfl, -, x, -, hx, hq⟩ | ⟨rfl, -, hq⟩
  · have hflight : Stream.inFlight
        { s with feeder := if last then .idle t'.p else .loop c t', sender := q } =
          s.inFlight ++ [d] := by
      unfold Stream.inFlight
      rw [hq, List.map_append, List.map_singleton, hx, hbytes, ← List.append_assoc]
    exact h.moves hhand rfl rfl rfl (by rw [hflight]; rfl) (fun _ => hflight)
  · have hflight : Stream.inFlight
        { s with feeder := if last then .idle t'.p else .loop c t', sender := q } =
          s.inFlight := by
      unfold Stream.inFlight
      rw [hq]
    refine h.moves hhand rfl rfl rfl ?_ nofun
    rw [hflight]
    exact List.sublist_append_left _ _

theorem Good.unpack (h : Good buffer log s) {a : Arrival} {r : Receiver} {u : Unpackager}
    {out : Option AVPacket} (hr : receiver.Step s.receiver (.received d (some a)) r)
    (hu : s.unpackager.receive a = .ok (u, out)) :
    Good buffer (log ++ [.unpacked a out]) { s with receiver := r, unpackager := u } := by
  obtain ⟨rest, hsocket, hsunk, rfl⟩ := receive_front hr rfl
  have hmem : d ∈ s.inFlight := by
    unfold Stream.inFlight
    rw [hsocket]
    exact List.mem_append_left _ (List.mem_append_left _ List.mem_cons_self)
  obtain ⟨a', ha', hcarries, hbytes, hsink, hrest⟩ := receive_whole h.sink (h.length hmem) rest
  cases hsunk.trans ha'
  have hunpacked : unpacked (log ++ [.unpacked a out]) = unpacked log ++ [(a, out)] :=
    unpacked_append _
  have harrivals : arrivals (log ++ [.unpacked a out]) = arrivals log ++ [a] := by
    unfold arrivals
    rw [hunpacked, List.map_append, List.map_singleton]
  have htaken : taken (log ++ [.unpacked a out]) = taken log ++ [d] := by
    rw [taken_append, ← hbytes]
    rfl
  have hflight : taken (log ++ [.unpacked a out]) ++ Stream.inFlight
      { s with receiver := (s.receiver.received d rest).1, unpackager := u } =
        taken log ++ s.inFlight := by
    unfold Stream.inFlight
    rw [htaken, hrest, hsocket]
    simp only [List.append_assoc, List.cons_append, List.nil_append]
  have hhanded : handed (log ++ [.unpacked a out]) = handed log := by
    rw [handed_append]
    exact List.append_nil _
  refine ⟨?_, hsink, ?_, ?_, ?_, ?_⟩
  · rw [hhanded, frames_append, show frames [.unpacked a out] = [] from rfl, List.append_nil]
    exact h.feeds
  · rw [hflight, hhanded]
    exact h.inOrder
  · intro hall
    rw [hflight, hhanded]
    exact h.kept (forall_mem_snoc.mp hall).1
  · rw [htaken, harrivals]
    exact List.rel_append h.carried (.cons hcarries .nil)
  · unfold outs
    rw [harrivals, hunpacked, List.map_append]
    exact (run_snoc h.unpacks).trans (by rw [hu]; rfl)

theorem Good.next [FFmpeg] (h : Good buffer log s) (hs : Step s e s')
    (hframe : ∀ c, e = .frame c → Frame c) :
    Good buffer (log ++ [e]) s' := by
  cases hs with
  | frame c hidle => exact h.call hidle (hframe c rfl)
  | hand p_ hloop ht hd hq => exact h.hand p_ hloop ht hd hq
  | @send d q hq =>
    have hflight : Stream.inFlight { s with sender := q, network := s.network ++ [d] } =
        s.inFlight := by
      unfold Stream.inFlight
      rw [send_front hq rfl]
      simp only [List.append_assoc, List.cons_append, List.nil_append]
    exact h.stays rfl rfl rfl rfl rfl rfl (by rw [hflight]) (fun _ => hflight)
  | @quiet q hq =>
    have hflight : Stream.inFlight { s with sender := q } = s.inFlight := by
      unfold Stream.inFlight
      rw [quiet_queue hq rfl]
    exact h.stays rfl rfl rfl rfl rfl rfl (by rw [hflight]) (fun _ => hflight)
  | @lose d before after hnetwork =>
    refine h.stays rfl rfl rfl rfl rfl rfl ?_ nofun
    unfold Stream.inFlight
    rw [hnetwork]
    exact (((List.sublist_cons_self d after).append_left before).append_left _).append_right _
  | @arrive d rest r hnetwork hr =>
    obtain rfl := arrive_back hr rfl
    have hflight : Stream.inFlight { s with
        network := rest
        receiver := { s.receiver with socket_ := s.receiver.socket_ ++ [d] } } = s.inFlight := by
      unfold Stream.inFlight
      rw [hnetwork]
      simp only [List.append_assoc, List.cons_append, List.nil_append]
    exact h.stays rfl rfl rfl rfl rfl rfl (by rw [hflight]) (fun _ => hflight)
  | unpack hr hu => exact h.unpack hr hu
  | @drop d r hr =>
    obtain ⟨rest, hsocket, hsunk, -⟩ := receive_front hr rfl
    have hmem : d ∈ s.inFlight := by
      unfold Stream.inFlight
      rw [hsocket]
      exact List.mem_append_left _ (List.mem_append_left _ List.mem_cons_self)
    obtain ⟨a, ha, -⟩ := receive_whole h.sink (h.length hmem) rest
    cases hsunk.trans ha
  | @fail r hr =>
    obtain rfl := fail_stops hr rfl
    exact h.stays rfl rfl rfl rfl rfl rfl (List.Sublist.refl _) (fun _ => rfl)

variable {outBuff_ rtpBuffer_ : Block PACKAGED_BUFFER_SIZE UInt8}
variable {buffer_ : Block (8 * receiver.LENGTH) UInt8}

theorem good_start : Good buffer [] (start outBuff_ rtpBuffer_ buffer_ buffer) := by
  refine ⟨.idle rfl rfl rfl, rfl, List.Sublist.refl _, fun _ => rfl, .nil, rfl⟩

theorem good_reaches [FFmpeg]
    (h : Reaches Step (start outBuff_ rtpBuffer_ buffer_ buffer) log s)
    (hframes : ∀ c ∈ frames log, Frame c) : Good buffer log s := by
  refine h.invariant (fun log s => (∀ c ∈ frames log, Frame c) → Good buffer log s)
    (fun _ => good_start) ?_ hframes
  intro log s e s' hI hs hframes
  rw [frames_append, List.forall_mem_append] at hframes
  refine (hI hframes.1).next hs ?_
  rintro c rfl
  exact hframes.2 c List.mem_cons_self

end payloader.stream
