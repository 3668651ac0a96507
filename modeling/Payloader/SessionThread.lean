-- The thread of a session, `thread_function01` of TcpServer.cpp: what it does
-- at each tick of its timer and with the bytes of each `recv`.
import Payloader.RtspHandlersLaws
import Payloader.RtspBounds

set_option autoImplicit false

namespace payloader.session_thread

open payloader.memory payloader.machines payloader.c_strings payloader.streamer
open payloader.rtsp_parser payloader.rtsp_reading payloader.rtsp_reading_laws
open payloader.rtsp_bounds payloader.rtsp_stack payloader.rtsp_history payloader.rtsp_handlers
open payloader.rtsp_handlers_laws

/-! ## The loop -/

/-- The variables of the loop, with the objects that it works on. The streamer
keeps the address of the client in `RecvAddr`. -/
structure Session where
  new_connection : Connection
  host : Host
  RecvAddr : SockAddr
  StreamingStarted : Bool
  Stop : Bool

/-- A new session. The constructor calls `rand` twice, and the rest is what the
memory held. -/
def Session.init (rand1 rand2 : BitVec 32) (buf_Date : Block 200 UInt8) (m_Streamer : Streamer)
    (RecvAddr : SockAddr) : Session where
  new_connection := Connection.init rand1 rand2 buf_Date m_Streamer
  host := Host.init
  RecvAddr := RecvAddr
  StreamingStarted := false
  Stop := false

/-- What wakes the loop: the timer, or bytes on the socket of the client. There
are no bytes when `recv` fails or when the client has closed. -/
inductive Event where
  | tick (peer : Int → Option SockAddr)
  | received (w : World) (data : List UInt8)

/-- `recv` gets the size of its buffer. -/
def Event.Fits : Event → Prop
  | .tick _ => True
  | .received _ data => data.length ≤ RTSP_BUFFER_SIZE

/-- What one turn of the loop does. -/
inductive Outcome where
  | idle
  | streamed (RecvAddr : SockAddr) (m_RtpSocket : Int)
  | ignored
  | handled (res : Handled)

/-- `memset` comes before `recv`, so zeros come behind the bytes. -/
def RecvBuf (data : List UInt8) : Request := Block.ofList data 0

def turn [Libc] (s : Session) : Event → Except Fault (Session × Outcome)
  | .tick peer =>
    if s.StreamingStarted then
      let (RecvAddr, m_RtpSocket) := s.new_connection.m_Streamer.StartStreaming peer s.RecvAddr
      .ok ({ s with RecvAddr }, .streamed RecvAddr m_RtpSocket)
    else .ok (s, .idle)
  | .received w data =>
    if Accepted ((RecvBuf data).cell 0) then do
      let res ← Handle_RtspRequest w s.new_connection s.host (RecvBuf data) data.length
      .ok ({ s with new_connection := res.c
                    host := res.host
                    StreamingStarted := s.StreamingStarted || res.C = .RTSP_PLAY
                    Stop := s.Stop || res.C = .RTSP_TEARDOWN }, .handled res)
    else .ok (s, .ignored)

/-- `while (!Stop)`. -/
def Turn [Libc] (s : Session) (o : Event × Outcome) (s' : Session) : Prop :=
  s.Stop = false ∧ o.1.Fits ∧ turn s o.1 = .ok (s', o.2)

/-- What one turn does to the session. -/
theorem turn_cases [Libc] {s s' : Session} {ev : Event} {out : Outcome}
    (h : turn s ev = .ok (s', out)) :
    (∃ peer, ev = .tick peer ∧ s.StreamingStarted = false ∧ s' = s ∧ out = .idle) ∨
    (∃ peer RecvAddr m_RtpSocket, ev = .tick peer ∧ s.StreamingStarted = true ∧
      s' = { s with RecvAddr } ∧ out = .streamed RecvAddr m_RtpSocket) ∨
    (∃ w data, ev = .received w data ∧ ¬ Accepted ((RecvBuf data).cell 0) ∧ s' = s ∧
      out = .ignored) ∨
    ∃ w data res, ev = .received w data ∧ Accepted ((RecvBuf data).cell 0) ∧
      Handle_RtspRequest w s.new_connection s.host (RecvBuf data) data.length = .ok res ∧
      s' = { s with new_connection := res.c
                    host := res.host
                    StreamingStarted := s.StreamingStarted || res.C = .RTSP_PLAY
                    Stop := s.Stop || res.C = .RTSP_TEARDOWN } ∧ out = .handled res := by
  cases ev with
  | tick peer =>
    simp only [turn] at h
    by_cases hstarted : s.StreamingStarted = true
    · rw [if_pos hstarted] at h
      cases h
      exact Or.inr (Or.inl ⟨peer, _, _, rfl, hstarted, rfl, rfl⟩)
    · rw [if_neg hstarted] at h
      cases h
      exact Or.inl ⟨peer, rfl, eq_false_of_ne_true hstarted, rfl, rfl⟩
  | received w data =>
    simp only [turn] at h
    by_cases hfirst : Accepted ((RecvBuf data).cell 0)
    · rw [if_pos hfirst] at h
      obtain ⟨res, hres, hout⟩ := bind_eq_ok h
      cases hout
      exact Or.inr (Or.inr (Or.inr ⟨w, data, res, rfl, hfirst, hres, rfl, rfl⟩))
    · rw [if_neg hfirst] at h
      cases h
      exact Or.inr (Or.inr (Or.inl ⟨w, data, rfl, hfirst, rfl, rfl⟩))

theorem turn_handled [Libc] {s : Session} {w : World} {data : List UInt8} {res : Handled}
    (hfirst : Accepted ((RecvBuf data).cell 0))
    (hres : Handle_RtspRequest w s.new_connection s.host (RecvBuf data) data.length = .ok res) :
    turn s (.received w data) =
      .ok ({ s with new_connection := res.c
                    host := res.host
                    StreamingStarted := s.StreamingStarted || res.C = .RTSP_PLAY
                    Stop := s.Stop || res.C = .RTSP_TEARDOWN }, .handled res) := by
  simp only [turn]
  rw [if_pos hfirst, hres, ok_bind]

/-- What a request that is accepted does. -/
theorem turn_accepted [Libc] {s : Session} {w : World} {data : List UInt8} {r : Reading}
    (hfit : data.length ≤ RTSP_BUFFER_SIZE) (hfirst : Accepted ((RecvBuf data).cell 0))
    (hr : reading w.l (RecvBuf data) data.length = .ok r) (haccepted : r.accepted = true)
    (hend : s.new_connection.m_URLHostPort.cell 9999 = 0) (hfits : FitsHost s.new_connection r) :
    ∃ res, Handle_RtspRequest w s.new_connection s.host (RecvBuf data) data.length = .ok res ∧
      turn s (.received w data) =
        .ok ({ s with new_connection := res.c
                      host := res.host
                      StreamingStarted := s.StreamingStarted || res.C = .RTSP_PLAY
                      Stop := s.Stop || res.C = .RTSP_TEARDOWN }, .handled res) ∧
      res.C = r.type s.new_connection.m_RtspCmdType := by
  have hn : data.length < 2 ^ 32 := Nat.lt_of_le_of_lt hfit (by decide)
  obtain ⟨c', host', hres, -⟩ := Handle_accepted s.host hn hr haccepted hend hfits
  exact ⟨_, hres, turn_handled hfirst hres, rfl⟩

theorem turn_streamed [Libc] {s : Session} (peer : Int → Option SockAddr)
    (h : s.StreamingStarted = true) :
    ∃ RecvAddr m_RtpSocket,
      turn s (.tick peer) = .ok ({ s with RecvAddr }, .streamed RecvAddr m_RtpSocket) := by
  simp only [turn]
  rw [if_pos h]
  exact ⟨_, _, rfl⟩

/-! ## Streaming -/

variable {log before after : List (Event × Outcome)} {o : Event × Outcome} {s s' : Session}

/-- A `SETUP` over UDP that was parsed and that bound the RTP socket. -/
def BoundSetup (o : Event × Outcome) : Prop :=
  ∃ res, o.2 = .handled res ∧ res.parsed = true ∧ res.C = .RTSP_SETUP ∧
    res.c.m_TcpTransport = false ∧ Bound res.c.m_Streamer res.host

/-- A `PLAY` that was parsed. -/
def Played (o : Event × Outcome) : Prop :=
  ∃ res, o.2 = .handled res ∧ res.parsed = true ∧ res.C = .RTSP_PLAY

/-- There was such a `SETUP`, and such a `PLAY` after it. -/
def Ready (log : List (Event × Outcome)) : Prop :=
  ∃ before after, log = before ++ after ∧ (∃ o ∈ before, BoundSetup o) ∧ ∃ o ∈ after, Played o

/-- `StartStreaming` is called only after the two. -/
def StreamsReady (log : List (Event × Outcome)) : Prop :=
  ∀ before ev RecvAddr m_RtpSocket after,
    log = before ++ (ev, .streamed RecvAddr m_RtpSocket) :: after → Ready before

theorem Ready.append (h : Ready log) (more : List (Event × Outcome)) : Ready (log ++ more) := by
  obtain ⟨before, after, rfl, hsetup, o, ho, hplay⟩ := h
  exact ⟨before, after ++ more, List.append_assoc _ _ _, hsetup, o,
    List.mem_append_left more ho, hplay⟩

/-- Only the last turn is new. -/
theorem StreamsReady.snoc (h : StreamsReady log)
    (hlast : ∀ RecvAddr m_RtpSocket, o.2 = .streamed RecvAddr m_RtpSocket → Ready log) :
    StreamsReady (log ++ [o]) := by
  intro before ev RecvAddr m_RtpSocket after hsplit
  rcases List.eq_nil_or_concat after with rfl | ⟨after', o', rfl⟩
  · obtain ⟨rfl, ho⟩ := List.append_inj' hsplit rfl
    rw [List.singleton_inj] at ho
    exact hlast RecvAddr m_RtpSocket (by rw [ho])
  · rw [List.concat_eq_append, ← List.cons_append, ← List.append_assoc] at hsplit
    exact h before ev RecvAddr m_RtpSocket after' (List.append_inj' hsplit rfl).1

/-- Until the stream has started, a request that leaves the command at `PLAY`
is one that is parsed, and the session has a UDP socket by then. -/
def Careful [Libc] (s : Session) : Event → Prop
  | .tick _ => True
  | .received w data =>
    s.StreamingStarted = false → Accepted ((RecvBuf data).cell 0) →
      ∀ r, reading w.l (RecvBuf data) data.length = .ok r →
        r.type s.new_connection.m_RtspCmdType = .RTSP_PLAY →
          r.accepted = true ∧ s.host.sockets ≠ []

def CarefulTurn [Libc] (s : Session) (o : Event × Outcome) (s' : Session) : Prop :=
  Turn s o s' ∧ Careful s o.1

/-- What is known of the past in a session whose turns are careful. -/
structure Known (log : List (Event × Outcome)) (s : Session) : Prop where
  host_end : s.new_connection.m_URLHostPort.cell 9999 = 0
  setup : s.host.sockets ≠ [] → ∃ o ∈ log, BoundSetup o
  play : s.StreamingStarted = true → Ready log
  streams : StreamsReady log

/-- A socket of the session is old, or the `SETUP` at hand has bound it. -/
theorem Handle_sockets [Libc] {size n : Nat} {w : World} {c : Connection} {host : Host}
    {aRequest : Block size UInt8} {res : Handled} (hn : n < 2 ^ 32)
    (hend : c.m_URLHostPort.cell 9999 = 0) (hfresh : host.Fresh)
    (h : Handle_RtspRequest w c host aRequest n = .ok res) (hsockets : res.host.sockets ≠ []) :
    host.sockets ≠ [] ∨ (res.parsed = true ∧ res.C = .RTSP_SETUP ∧
      res.c.m_TcpTransport = false ∧ Bound res.c.m_Streamer res.host) := by
  obtain ⟨r, -, hC, hparsed, hkept, hsetup, hother⟩ := Handle_cases hn hend h
  by_cases hs : r.accepted = true ∧ r.type c.m_RtspCmdType = .RTSP_SETUP
  · have hinit := hsetup hs
    cases htcp : (r.store c.toTcpConnection).m_TcpTransport with
    | true =>
      rw [htcp, InitTransport_tcp] at hinit
      have hhost := (Prod.mk.inj (Except.ok.inj hinit)).2
      left
      rwa [hhost]
    | false =>
      rw [htcp] at hinit
      rcases InitTransport_udp hfresh hinit with hbound | hold
      · right
        rw [hparsed, hC, hkept]
        exact ⟨hs.1, hs.2, htcp, hbound⟩
      · left
        rwa [hold] at hsockets
  · rw [(hother hs).2] at hsockets
    exact Or.inl hsockets

theorem Known.next [Libc] (hI : Known log s) (hfresh : s.host.Fresh) (h : CarefulTurn s o s') :
    Known (log ++ [o]) s' := by
  obtain ⟨ev, out⟩ := o
  obtain ⟨⟨-, hfit, hturn⟩, hcareful⟩ := h
  have hold : (∃ o ∈ log, BoundSetup o) → ∃ o ∈ log ++ [(ev, out)], BoundSetup o :=
    fun ⟨o, ho, hb⟩ => ⟨o, List.mem_append_left _ ho, hb⟩
  rcases turn_cases hturn with ⟨peer, rfl, hstarted, rfl, rfl⟩ |
    ⟨peer, RecvAddr, m_RtpSocket, rfl, hstarted, rfl, rfl⟩ | ⟨w, data, rfl, -, rfl, rfl⟩ |
    ⟨w, data, res, rfl, hfirst, hres, rfl, rfl⟩
  · exact ⟨hI.host_end, fun hs => hold (hI.setup hs), fun hs => (hI.play hs).append _,
      hI.streams.snoc nofun⟩
  · exact ⟨hI.host_end, fun hs => hold (hI.setup hs), fun hs => (hI.play hs).append _,
      hI.streams.snoc (fun _ _ _ => hI.play hstarted)⟩
  · exact ⟨hI.host_end, fun hs => hold (hI.setup hs), fun hs => (hI.play hs).append _,
      hI.streams.snoc nofun⟩
  · have hn : data.length < 2 ^ 32 := Nat.lt_of_le_of_lt hfit (by decide)
    refine ⟨Handle_host_end hn hI.host_end hres, fun hs => ?_, fun hs => ?_, hI.streams.snoc nofun⟩
    · rcases Handle_sockets hn hI.host_end hfresh hres hs with h1 | h1
      · exact hold (hI.setup h1)
      · exact ⟨_, List.mem_append_right _ (List.mem_singleton_self _), res, rfl, h1⟩
    · by_cases hstarted : s.StreamingStarted = true
      · exact (hI.play hstarted).append _
      · -- the stream starts with this request, so it is a careful one
        have hno := eq_false_of_ne_true hstarted
        simp only at hs
        rw [hno, Bool.false_or, decide_eq_true_eq] at hs
        obtain ⟨r, hr, hC, hparsed, -⟩ := Handle_cases hn hI.host_end hres
        obtain ⟨haccepted, hsockets⟩ := hcareful hno hfirst r hr (hC ▸ hs)
        exact ⟨log, _, rfl, hI.setup hsockets, _, List.mem_singleton_self _, res, rfl,
          hparsed.trans haccepted, hs⟩

/-- One turn keeps to descriptors that were given out. -/
theorem Turn.fresh [Libc] (h : Turn s o s') (hend : s.new_connection.m_URLHostPort.cell 9999 = 0)
    (hfresh : s.host.Fresh) : s'.host.Fresh := by
  obtain ⟨ev, out⟩ := o
  obtain ⟨-, hfit, hturn⟩ := h
  rcases turn_cases hturn with ⟨peer, -, -, rfl, -⟩ | ⟨peer, RecvAddr, m_RtpSocket, -, -, rfl, -⟩ |
    ⟨w, data, -, -, rfl, -⟩ | ⟨w, data, res, rfl, -, hres, rfl, -⟩
  · exact hfresh
  · exact hfresh
  · exact hfresh
  · exact Handle_fresh (Nat.lt_of_le_of_lt hfit (by decide)) hend hfresh hres

/-- In a session whose turns are careful, the stream starts only after a
`SETUP` over UDP that was parsed and bound its socket, and a `PLAY` that was
parsed after it. -/
theorem the_stream_waits_for_setup_and_play [Libc] {rand1 rand2 : BitVec 32}
    {buf_Date : Block 200 UInt8} {m_Streamer : Streamer} {RecvAddr : SockAddr}
    (h : Reaches CarefulTurn (Session.init rand1 rand2 buf_Date m_Streamer RecvAddr) log s) :
    StreamsReady log := by
  have hstart : Known [] (Session.init rand1 rand2 buf_Date m_Streamer RecvAddr) :=
    ⟨rfl, fun hs => absurd rfl hs, nofun, by
      intro before ev RecvAddr m_RtpSocket after hsplit
      exact absurd hsplit (by simp)⟩
  have hboth := h.invariant (fun log s => Known log s ∧ s.host.Fresh)
    ⟨hstart, fun _ hx => absurd hx List.not_mem_nil⟩
    (fun _ _ _ _ hI hstep => ⟨hI.1.next hI.2 hstep, hstep.1.fresh hI.1.host_end hI.2⟩)
  exact hboth.1.streams

/-! ## Two sessions -/

/-- A session whose memory held zeros. -/
def newSession : Session where
  new_connection := newConnection
  host := Host.init
  RecvAddr := { sin_family := 0, sin_port := 0, sin_addr := 0 }
  StreamingStarted := false
  Stop := false

def playRequest : List UInt8 := bytes "PLAY rtsp://h/a/b RTSP/1.0\r\nCSeq: 3\r\n\r\n"

def playReading : Reading :=
  { command := some .RTSP_PLAY, tcp := some false, host := some (bytes "h"),
    suffix := some (bytes "b"), preSuffix := some (bytes "a"), seq := some (bytes "3"),
    accepted := true }

theorem playRequest_length : playRequest.length = 39 := by decide +kernel

theorem playRequest_fits : playRequest.length ≤ RTSP_BUFFER_SIZE := by
  rw [playRequest_length]
  decide

theorem playRequest_reading :
    reading (quietWorld 39).l (RecvBuf playRequest) playRequest.length = .ok playReading := by
  rw [playRequest_length]
  exact (reading_received (stackWith 39 []) playRequest (by decide +kernel) rfl).trans
    (by decide +kernel)

theorem playRequest_first : Accepted ((RecvBuf playRequest).cell 0) := by decide +kernel

def setupReading : Reading :=
  { ports := some 50, command := some .RTSP_SETUP, tcp := some false, host := some (bytes "h"),
    suffix := some (bytes "b"), preSuffix := some (bytes "a"), seq := some (bytes "2"),
    accepted := true }

theorem setupRequest_reading :
    reading (quietWorld 78).l (RecvBuf setupRequest) setupRequest.length = .ok setupReading := by
  rw [setupRequest_length]
  exact (reading_received (stackWith 78 []) setupRequest (by decide +kernel) rfl).trans
    (by decide +kernel)

theorem setupRequest_fits : setupRequest.length ≤ RTSP_BUFFER_SIZE := by
  rw [setupRequest_length]
  decide

theorem setupRequest_first : Accepted ((RecvBuf setupRequest).cell 0) := by decide +kernel

/-- The turn of the `SETUP`, in any session. -/
theorem setup_turn (hstop : s.Stop = false)
    (hend : s.new_connection.m_URLHostPort.cell 9999 = 0) :
    ∃ res, Turn s (.received (quietWorld 78) setupRequest, .handled res)
        { s with new_connection := res.c, host := res.host } ∧
      res.parsed = true ∧ res.C = .RTSP_SETUP ∧ res.c.m_URLHostPort.cell 9999 = 0 ∧
      res.c.m_TcpTransport = false ∧
      s.new_connection.m_Streamer.InitTransport (fun _ => true) s.host 50 51 false =
        .ok (res.c.m_Streamer, res.host) := by
  obtain ⟨res, hres, hturn, hC⟩ := turn_accepted setupRequest_fits setupRequest_first
    setupRequest_reading rfl hend nofun
  have hn : setupRequest.length < 2 ^ 32 := Nat.lt_of_le_of_lt setupRequest_fits (by decide)
  obtain ⟨r, hr, -, hparsed, hkept, hsetup, -⟩ := Handle_cases hn hend hres
  cases setupRequest_reading.symm.trans hr
  refine ⟨res, ⟨hstop, setupRequest_fits, ?_⟩, hparsed, hC, Handle_host_end hn hend hres, ?_,
    hsetup ⟨rfl, rfl⟩⟩
  · rw [hturn, hC]
    simp only [Reading.type, setupReading, Option.getD_some, reduceCtorEq, decide_false,
      Bool.or_false]
  · rw [hkept]
    rfl

/-- The turn of the `PLAY`, in any session. -/
theorem play_turn (hstop : s.Stop = false)
    (hend : s.new_connection.m_URLHostPort.cell 9999 = 0) :
    ∃ res, Turn s (.received (quietWorld 39) playRequest, .handled res)
        { s with new_connection := res.c, host := res.host, StreamingStarted := true } ∧
      res.parsed = true ∧ res.C = .RTSP_PLAY := by
  obtain ⟨res, hres, hturn, hC⟩ := turn_accepted playRequest_fits playRequest_first
    playRequest_reading rfl hend nofun
  have hn : playRequest.length < 2 ^ 32 := Nat.lt_of_le_of_lt playRequest_fits (by decide)
  obtain ⟨r, hr, -, hparsed, -⟩ := Handle_cases hn hend hres
  cases playRequest_reading.symm.trans hr
  refine ⟨res, ⟨hstop, playRequest_fits, ?_⟩, hparsed, hC⟩
  rw [hturn, hC]
  simp only [Reading.type, playReading, Option.getD_some, reduceCtorEq, decide_false, decide_true,
    Bool.or_false, Bool.or_true]

/-- `PLAY` as the first request of a session starts the stream. -/
theorem a_play_with_no_setup_starts_the_stream :
    ¬ ∀ (rand1 rand2 : BitVec 32) (buf_Date : Block 200 UInt8) (m_Streamer : Streamer)
      (RecvAddr : SockAddr) (log : List (Event × Outcome)) (s : Session),
      Reaches Turn (Session.init rand1 rand2 buf_Date m_Streamer RecvAddr) log s →
        StreamsReady log := by
  intro h
  obtain ⟨res, hplay, -, hC⟩ := play_turn (s := newSession) rfl rfl
  obtain ⟨RecvAddr, m_RtpSocket, htick⟩ := turn_streamed (fun _ => none) (s := { newSession with
    new_connection := res.c, host := res.host, StreamingStarted := true }) rfl
  have hstep : Turn _ (.tick (fun _ => none), .streamed RecvAddr m_RtpSocket) _ :=
    ⟨rfl, trivial, htick⟩
  have hrun : Reaches Turn newSession _ _ := (Reaches.start.next hplay).next hstep
  obtain ⟨before, after, hsplit, ⟨o, ho, res', hres', -, hsetup, -⟩, -⟩ :=
    h 0 0 _ _ _ _ _ hrun _ _ _ _ [] rfl
  have hmem : o ∈ [] ++ [(Event.received (quietWorld 39) playRequest, Outcome.handled res)] := by
    rw [hsplit]
    exact List.mem_append_left after ho
  obtain rfl := List.mem_singleton.mp hmem
  cases hres'
  rw [hC] at hsetup
  cases hsetup

theorem a_setup_and_a_play_start_the_stream :
    ∃ log s, Reaches CarefulTurn newSession log s ∧
      (∃ ev RecvAddr m_RtpSocket, (ev, .streamed RecvAddr m_RtpSocket) ∈ log) ∧
      StreamsReady log := by
  obtain ⟨res, hsetup, -, -, hend, -, hinit⟩ := setup_turn (s := newSession) rfl rfl
  have hsockets : res.host.sockets ≠ [] := by
    obtain ⟨s', host', hfound, hne⟩ : ∃ s' host', newConnection.m_Streamer.InitTransport
        (fun _ => true) Host.init 50 51 false = .ok (s', host') ∧ host'.sockets ≠ [] :=
      ⟨_, _, rfl, List.cons_ne_nil _ _⟩
    cases hfound.symm.trans hinit
    exact hne
  have hstep1 : CarefulTurn newSession (.received (quietWorld 78) setupRequest, .handled res) _ :=
    ⟨hsetup, fun _ _ r' hr' htype => by
      cases setupRequest_reading.symm.trans hr'
      cases htype⟩
  obtain ⟨res', hplay, -⟩ := play_turn (s := { newSession with
    new_connection := res.c, host := res.host }) rfl hend
  have hstep2 : CarefulTurn _ (.received (quietWorld 39) playRequest, .handled res') _ :=
    ⟨hplay, fun _ _ r' hr' _ => by
      cases playRequest_reading.symm.trans hr'
      exact ⟨rfl, hsockets⟩⟩
  obtain ⟨RecvAddr, m_RtpSocket, htick⟩ := turn_streamed (fun _ => none) (s := { newSession with
    new_connection := res'.c, host := res'.host, StreamingStarted := true }) rfl
  have hstep3 : CarefulTurn _ (.tick (fun _ => none), .streamed RecvAddr m_RtpSocket) _ :=
    ⟨⟨rfl, trivial, htick⟩, trivial⟩
  have hrun : Reaches CarefulTurn newSession _ _ :=
    ((Reaches.start.next hstep1).next hstep2).next hstep3
  exact ⟨_, _, hrun,
    ⟨_, RecvAddr, m_RtpSocket, List.mem_append_right _ (List.mem_singleton_self _)⟩,
    the_stream_waits_for_setup_and_play hrun⟩

end payloader.session_thread
