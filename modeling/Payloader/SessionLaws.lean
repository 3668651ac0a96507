-- The laws of a session over a whole run: how often it starts a stream, and
-- when it ends. The flag of the stream is set and never cleared, and the loop
-- looks at what `Handle_RtspRequest` returns and not at what `recv` does.
import Payloader.SessionThread

set_option autoImplicit false

namespace payloader.session_laws

open payloader.memory payloader.machines payloader.c_strings payloader.streamer
open payloader.rtsp_parser payloader.rtsp_reading payloader.rtsp_reading_laws
open payloader.rtsp_bounds payloader.rtsp_stack payloader.rtsp_history payloader.rtsp_handlers
open payloader.rtsp_handlers_laws payloader.session_thread

/-! ## What a client asks for -/

/-- What the parser reads in the bytes of a `recv`, when they pass the filter. -/
def readingOf [Libc] : Event → Option Reading
  | .tick _ => none
  | .received w data =>
    if Accepted ((RecvBuf data).cell 0) then (reading w.l (RecvBuf data) data.length).toOption
    else none

/-- The command that a request names, parsed or not. -/
def namedBy [Libc] (ev : Event) : Option RTSP_CMD_TYPES := (readingOf ev).bind (·.command)

/-- The command of a request that was parsed. -/
def commandOf [Libc] (ev : Event) : Option RTSP_CMD_TYPES :=
  ((readingOf ev).filter (·.accepted)).bind (·.command)

variable {log before after mid : List (Event × Outcome)} {o : Event × Outcome} {s s' : Session}
variable {rand1 rand2 : BitVec 32} {buf_Date : Block 200 UInt8} {m_Streamer : Streamer}
variable {RecvAddr : SockAddr}

theorem readingOf_received [Libc] {w : World} {data : List UInt8} {r : Reading}
    (hfirst : Accepted ((RecvBuf data).cell 0))
    (hr : reading w.l (RecvBuf data) data.length = .ok r) :
    readingOf (.received w data) = some r := by
  simp only [readingOf]
  rw [if_pos hfirst, hr]
  rfl

/-- One turn: nothing is read, or a request is read and handled. -/
theorem Turn.read [Libc] (hend : s.new_connection.m_URLHostPort.cell 9999 = 0) (h : Turn s o s') :
    (readingOf o.1 = none ∧ (∀ res, o.2 ≠ .handled res) ∧
      s'.new_connection = s.new_connection ∧ s'.StreamingStarted = s.StreamingStarted ∧
      s'.Stop = s.Stop) ∨
    ∃ w data r res, o.1 = .received w data ∧ data.length < 2 ^ 32 ∧ readingOf o.1 = some r ∧
      Handle_RtspRequest w s.new_connection s.host (RecvBuf data) data.length = .ok res ∧
      res.C = r.type s.new_connection.m_RtspCmdType ∧ res.parsed = r.accepted ∧
      res.c.toTcpConnection = r.store s.new_connection.toTcpConnection ∧
      o.2 = .handled res ∧ s' = { s with
        new_connection := res.c
        host := res.host
        StreamingStarted := s.StreamingStarted || res.C = .RTSP_PLAY
        Stop := s.Stop || res.C = .RTSP_TEARDOWN } := by
  obtain ⟨ev, out⟩ := o
  obtain ⟨-, hfit, hturn⟩ := h
  rcases turn_cases hturn with ⟨peer, rfl, -, rfl, rfl⟩ |
    ⟨peer, RecvAddr, m_RtpSocket, rfl, -, rfl, rfl⟩ | ⟨w, data, rfl, hfirst, rfl, rfl⟩ |
    ⟨w, data, res, rfl, hfirst, hres, rfl, rfl⟩
  · exact Or.inl ⟨rfl, fun _ => Outcome.noConfusion, rfl, rfl, rfl⟩
  · exact Or.inl ⟨rfl, fun _ => Outcome.noConfusion, rfl, rfl, rfl⟩
  · exact Or.inl ⟨if_neg hfirst, fun _ => Outcome.noConfusion, rfl, rfl, rfl⟩
  · have hn : data.length < 2 ^ 32 := Nat.lt_of_le_of_lt hfit (by decide)
    obtain ⟨r, hr, hC, hparsed, hkept, -⟩ := Handle_cases hn hend hres
    exact Or.inr ⟨w, data, r, res, rfl, hn, readingOf_received hfirst hr, hres, hC, hparsed, hkept,
      rfl, rfl⟩

/-- The flags know what the requests have named, parsed or not. -/
structure Flags [Libc] (log : List (Event × Outcome)) (s : Session) : Prop where
  host_end : s.new_connection.m_URLHostPort.cell 9999 = 0
  type : s.new_connection.m_RtspCmdType ≠ .RTSP_UNKNOWN →
    ∃ o ∈ log, namedBy o.1 = some s.new_connection.m_RtspCmdType
  started : s.StreamingStarted = true ↔ ∃ o ∈ log, namedBy o.1 = some .RTSP_PLAY
  stop : s.Stop = true ↔ ∃ o ∈ log, namedBy o.1 = some .RTSP_TEARDOWN

theorem namedBy_read [Libc] {r : Reading} (hr : readingOf o.1 = some r) :
    namedBy o.1 = r.command := by
  unfold namedBy
  rw [hr]
  rfl

/-- The command after a request is one that was named, as the one before it was. -/
theorem type_named [Libc] {old : RTSP_CMD_TYPES} {r : Reading} (hr : readingOf o.1 = some r)
    (htype : old ≠ .RTSP_UNKNOWN → ∃ o ∈ log, namedBy o.1 = some old)
    (hT : r.type old ≠ .RTSP_UNKNOWN) :
    ∃ o' ∈ log ++ [o], namedBy o'.1 = some (r.type old) := by
  rw [exists_mem_snoc, namedBy_read hr]
  unfold Reading.type at hT ⊢
  cases hcommand : r.command with
  | some T => exact Or.inr rfl
  | none =>
    rw [hcommand] at hT
    exact Or.inl (htype hT)

/-- A flag that is set when the command comes to be `T` says whether `T` was named. -/
theorem flag_named [Libc] {T old : RTSP_CMD_TYPES} {flag : Bool} {r : Reading}
    (hT : T ≠ .RTSP_UNKNOWN) (hr : readingOf o.1 = some r)
    (htype : old ≠ .RTSP_UNKNOWN → ∃ o ∈ log, namedBy o.1 = some old)
    (hflag : flag = true ↔ ∃ o ∈ log, namedBy o.1 = some T) :
    (flag || decide (r.type old = T)) = true ↔ ∃ o' ∈ log ++ [o], namedBy o'.1 = some T := by
  rw [Bool.or_eq_true, decide_eq_true_eq]
  constructor
  · rintro (h | rfl)
    · exact exists_mem_snoc.mpr (Or.inl (hflag.mp h))
    · exact type_named hr htype hT
  · intro h
    rcases exists_mem_snoc.mp h with h | h
    · exact Or.inl (hflag.mpr h)
    · right
      rw [namedBy_read hr] at h
      unfold Reading.type
      rw [h, Option.getD_some]

theorem Flags.next [Libc] (hI : Flags log s) (h : Turn s o s') : Flags (log ++ [o]) s' := by
  rcases Turn.read hI.host_end h with ⟨hr, -, hc, hstarted, hstop⟩ |
    ⟨w, data, r, res, -, hn, hr, hres, hC, -, hkept, -, rfl⟩
  · have hname : ∀ T, namedBy o.1 ≠ some T := by
      intro T hT
      unfold namedBy at hT
      rw [hr] at hT
      cases hT
    refine ⟨hc ▸ hI.host_end, ?_, ?_, ?_⟩
    · rw [hc, exists_mem_snoc]
      exact fun hT => Or.inl (hI.type hT)
    · rw [hstarted, exists_mem_snoc, hI.started, or_iff_left (hname _)]
    · rw [hstop, exists_mem_snoc, hI.stop, or_iff_left (hname _)]
  · refine ⟨Handle_host_end hn hI.host_end hres, ?_, ?_, ?_⟩
    · have htype : res.c.m_RtspCmdType = r.type s.new_connection.m_RtspCmdType := by
        rw [hkept]
        rfl
      simp only
      rw [htype]
      exact type_named hr hI.type
    · simp only
      rw [hC]
      exact flag_named nofun hr hI.type hI.started
    · simp only
      rw [hC]
      exact flag_named nofun hr hI.type hI.stop

theorem flags_reached [Libc]
    (h : Reaches Turn (Session.init rand1 rand2 buf_Date m_Streamer RecvAddr) log s) :
    Flags log s := by
  refine h.invariant Flags ⟨rfl, fun hT => absurd rfl hT, ?_, ?_⟩
    (fun _ _ _ _ hI hturn => hI.next hturn)
  · exact ⟨nofun, fun ⟨_, ho, _⟩ => absurd ho List.not_mem_nil⟩
  · exact ⟨nofun, fun ⟨_, ho, _⟩ => absurd ho List.not_mem_nil⟩

/-! ## One stream for each PLAY -/

def isTick (o : Event × Outcome) : Bool :=
  match o.1 with
  | .tick _ => true
  | .received _ _ => false

/-- `StartStreaming` is called. -/
def called (o : Event × Outcome) : Bool :=
  match o.2 with
  | .streamed _ _ => true
  | _ => false

/-- A request names `PLAY`, parsed or not. -/
def namesPlay [Libc] (o : Event × Outcome) : Bool := namedBy o.1 = some .RTSP_PLAY

def isPlay [Libc] (o : Event × Outcome) : Bool := commandOf o.1 = some .RTSP_PLAY

def isPause [Libc] (o : Event × Outcome) : Bool := commandOf o.1 = some .RTSP_PAUSE

/-- The stream is started at most once for each `PLAY` that was parsed, and not
between a `PAUSE` and the next `PLAY`. -/
structure OneStreamEach [Libc] (log : List (Event × Outcome)) : Prop where
  calls : log.countP called ≤ log.countP isPlay
  paused : ∀ before pause mid call after, log = before ++ pause :: (mid ++ call :: after) →
    isPause pause = true → called call = true → ∃ play ∈ mid, isPlay play = true

/-- What comes from the first request that names `PLAY`. -/
def sincePlay [Libc] (log : List (Event × Outcome)) : List (Event × Outcome) :=
  log.dropWhile (fun o => !namesPlay o)

/-- Since the first `PLAY` the timer ticks at most once for each `PLAY` that is
parsed, and not between a `PAUSE` and the next `PLAY`. -/
structure Timely [Libc] (log : List (Event × Outcome)) : Prop where
  ticks : (sincePlay log).countP isTick ≤ log.countP isPlay
  paused : ∀ before pause mid tick after, log = before ++ pause :: (mid ++ tick :: after) →
    isPause pause = true → isTick tick = true →
      (before ++ pause :: mid).any namesPlay = true → ∃ play ∈ mid, isPlay play = true

theorem any_namesPlay [Libc] :
    log.any namesPlay = true ↔ ∃ o ∈ log, namedBy o.1 = some .RTSP_PLAY := by
  simp only [List.any_eq_true, namesPlay, decide_eq_true_eq]

/-- A tick is no request. -/
theorem isTick_namesPlay [Libc] (h : isTick o = true) : namesPlay o = false := by
  obtain ⟨ev, out⟩ := o
  cases ev with
  | tick peer => rfl
  | received w data => cases h

/-- Only a tick over the flag calls `StartStreaming`. -/
theorem Turn.called [Libc] (h : Turn s o s') : called o = (s.StreamingStarted && isTick o) := by
  obtain ⟨ev, out⟩ := o
  obtain ⟨-, -, hturn⟩ := h
  rcases turn_cases hturn with ⟨peer, rfl, hstarted, rfl, rfl⟩ |
    ⟨peer, RecvAddr, m_RtpSocket, rfl, hstarted, rfl, rfl⟩ | ⟨w, data, rfl, -, rfl, rfl⟩ |
    ⟨w, data, res, rfl, -, -, rfl, rfl⟩
  · rw [hstarted]
    rfl
  · rw [hstarted]
    rfl
  · exact (Bool.and_false _).symm
  · exact (Bool.and_false _).symm

/-- The flag says whether some request has named `PLAY`. -/
theorem flag_reached [Libc]
    (h : Reaches Turn (Session.init rand1 rand2 buf_Date m_Streamer RecvAddr) log s) :
    s.StreamingStarted = log.any namesPlay :=
  Bool.eq_iff_iff.mpr ((flags_reached h).started.trans any_namesPlay.symm)

/-- A call of `StartStreaming` is a tick after a `PLAY`. -/
theorem called_iff [Libc]
    (h : Reaches Turn (Session.init rand1 rand2 buf_Date m_Streamer RecvAddr)
      (before ++ o :: after) s) :
    called o = true ↔ before.any namesPlay = true ∧ isTick o = true := by
  obtain ⟨s1, s2, hbefore, hturn, -⟩ := h.step_at
  rw [Turn.called hturn, flag_reached hbefore, Bool.and_eq_true]

theorem sincePlay_nil [Libc] (h : log.any namesPlay = false) : sincePlay log = [] := by
  unfold sincePlay
  rw [List.dropWhile_eq_nil_iff]
  intro o ho
  rw [List.any_eq_false] at h
  simpa using h o ho

theorem sincePlay_append [Libc] (h : log.any namesPlay = true) (more : List (Event × Outcome)) :
    sincePlay (log ++ more) = sincePlay log ++ more := by
  unfold sincePlay
  rw [List.dropWhile_append, if_neg]
  rw [List.isEmpty_iff, List.dropWhile_eq_nil_iff]
  intro hall
  obtain ⟨o, ho, hplay⟩ := List.any_eq_true.mp h
  have hnot := hall o ho
  rw [hplay] at hnot
  cases hnot

/-- The calls are the ticks since the first `PLAY`. -/
theorem countP_called [Libc]
    (h : Reaches Turn (Session.init rand1 rand2 buf_Date m_Streamer RecvAddr) log s) :
    log.countP called = (sincePlay log).countP isTick := by
  induction h with
  | start => rfl
  | @next log s s' o h hturn ih =>
    rw [List.countP_append, List.countP_singleton, ih, Turn.called hturn, flag_reached h]
    by_cases hplayed : log.any namesPlay = true
    · rw [sincePlay_append hplayed, List.countP_append, List.countP_singleton, hplayed,
        Bool.true_and]
    · have hnone := eq_false_of_ne_true hplayed
      -- a tick names nothing, so what comes first after nothing is no tick
      have hone : (sincePlay [o]).countP isTick = 0 := by
        by_cases ho : isTick o = true
        · rw [sincePlay_nil (by rw [List.any_cons, List.any_nil, isTick_namesPlay ho]; rfl)]
          rfl
        · exact List.countP_eq_zero.mpr (fun x hx => by
            obtain rfl := List.mem_singleton.mp ((List.dropWhile_sublist _).subset hx)
            exact ho)
      have hskip : sincePlay (log ++ [o]) = sincePlay [o] := by
        unfold sincePlay
        rw [List.dropWhile_append, if_pos]
        rw [List.isEmpty_iff]
        exact sincePlay_nil hnone
      rw [hskip, hone, sincePlay_nil hnone, hnone]
      rfl

/-- In every run the stream is started once for each `PLAY`, and not in a pause,
exactly when the ticks of the timer come so. -/
theorem streams_start_once_when_the_ticks_are_timely [Libc]
    (h : Reaches Turn (Session.init rand1 rand2 buf_Date m_Streamer RecvAddr) log s) :
    OneStreamEach log ↔ Timely log := by
  have hcount := countP_called h
  constructor
  · rintro ⟨hcalls, hpaused⟩
    refine ⟨hcount ▸ hcalls, fun before pause mid tick after hsplit hpause htick hplayed => ?_⟩
    apply hpaused before pause mid tick after hsplit hpause
    rw [hsplit, ← List.cons_append, ← List.append_assoc] at h
    exact (called_iff h).mpr ⟨hplayed, htick⟩
  · rintro ⟨hticks, hpaused⟩
    refine ⟨hcount ▸ hticks, fun before pause mid call after hsplit hpause hcall => ?_⟩
    rw [hsplit, ← List.cons_append, ← List.append_assoc] at h
    obtain ⟨hplayed, htick⟩ := (called_iff h).mp hcall
    exact hpaused before pause mid call after hsplit hpause htick hplayed

/-! ## A session that plays -/

theorem playRequest_command :
    commandOf (.received (quietWorld 39) playRequest) = some .RTSP_PLAY := by
  unfold commandOf
  rw [readingOf_received playRequest_first playRequest_reading]
  rfl

/-- A new session, after its first `PLAY`. -/
theorem a_session_plays :
    ∃ res s, Reaches Turn newSession [(.received (quietWorld 39) playRequest, .handled res)] s ∧
      s.Stop = false ∧ s.StreamingStarted = true := by
  obtain ⟨res, hplay, -⟩ := play_turn (s := newSession) rfl rfl
  exact ⟨res, _, Reaches.start.next hplay, rfl, rfl⟩

/-- Each tick over the flag is one more call. -/
theorem tick_calls [Libc] (hstop : s.Stop = false) (hstarted : s.StreamingStarted = true) :
    ∃ out s', Turn s (.tick (fun _ => none), out) s' ∧ called (.tick (fun _ => none), out) = true ∧
      s'.Stop = false ∧ s'.StreamingStarted = true := by
  obtain ⟨RecvAddr, m_RtpSocket, hturn⟩ := turn_streamed (fun _ => none) hstarted
  exact ⟨_, _, ⟨hstop, trivial, hturn⟩, rfl, hstop, hstarted⟩

/-- `PLAY` and one tick: the one stream is started. -/
theorem one_play_starts_one_stream :
    ∃ log s, Reaches Turn newSession log s ∧ (∃ o ∈ log, called o = true) ∧ OneStreamEach log := by
  obtain ⟨res, s, hplay, hstop, hstarted⟩ := a_session_plays
  obtain ⟨out, s1, htick, hcalled, -, -⟩ := tick_calls hstop hstarted
  have hrun := hplay.next htick
  refine ⟨_, _, hrun, ⟨_, List.mem_append_right _ (List.mem_singleton_self _), hcalled⟩,
    (streams_start_once_when_the_ticks_are_timely hrun).mpr ⟨?_, ?_⟩⟩
  · apply ((List.dropWhile_sublist _).countP_le).trans
    have hone : isPlay (.received (quietWorld 39) playRequest, .handled res) = true :=
      decide_eq_true playRequest_command
    simp only [List.countP_append, List.countP_singleton, hone, if_true]
    exact Nat.le_add_right 1 _
  · intro before pause mid tick after hsplit hpause htick _
    -- neither of the two is a `PAUSE`
    have hmem : pause ∈ [(Event.received (quietWorld 39) playRequest, Outcome.handled res)] ++
        [(.tick (fun _ => none), out)] := by
      rw [hsplit]
      exact List.mem_append_right _ List.mem_cons_self
    rcases List.mem_append.mp hmem with hone | hone
    · obtain rfl := List.mem_singleton.mp hone
      have hcommand := of_decide_eq_true hpause
      rw [playRequest_command] at hcommand
      cases hcommand
    · obtain rfl := List.mem_singleton.mp hone
      cases hpause

/-- One `PLAY` and two ticks: the stream is started twice. -/
theorem a_second_tick_starts_a_second_stream :
    ¬ ∀ (rand1 rand2 : BitVec 32) (buf_Date : Block 200 UInt8) (m_Streamer : Streamer)
      (RecvAddr : SockAddr) (log : List (Event × Outcome)) (s : Session),
      Reaches Turn (Session.init rand1 rand2 buf_Date m_Streamer RecvAddr) log s →
        OneStreamEach log := by
  intro h
  obtain ⟨res, s, hplay, hstop, hstarted⟩ := a_session_plays
  obtain ⟨out, s1, htick, hcalled, hstop1, hstarted1⟩ := tick_calls hstop hstarted
  obtain ⟨out', s2, htick', hcalled', -, -⟩ := tick_calls hstop1 hstarted1
  have hcalls := (h 0 0 _ _ _ _ _ ((hplay.next htick).next htick')).calls
  simp only [List.countP_append, List.countP_singleton, hcalled, hcalled', if_true] at hcalls
  have hplays : ∀ out, isPlay (.tick (fun _ => none), out) = false := fun _ => rfl
  rw [hplays, hplays] at hcalls
  -- one request was parsed, so at most one of the three is a `PLAY`
  have hone : (if isPlay (.received (quietWorld 39) playRequest, .handled res) = true
      then 1 else 0) ≤ 1 := by
    split <;> omega
  have htwo : (if called (.received (quietWorld 39) playRequest, .handled res) = true
      then 1 else 0) = 0 := rfl
  rw [htwo] at hcalls
  simp only [Bool.false_eq_true, if_false] at hcalls
  omega

/-! ## The end of a session -/

/-- `recv` gives no bytes: it fails, or the client has closed. -/
def Gone : Event → Prop
  | .tick _ => False
  | .received _ data => data = []

/-- `Stop` is set exactly when a `TEARDOWN` was parsed or the client is gone. -/
def EndsRight [Libc] (log : List (Event × Outcome)) (s : Session) : Prop :=
  s.Stop = true ↔
    (∃ o ∈ log, commandOf o.1 = some .RTSP_TEARDOWN) ∨ ∃ o ∈ log, Gone o.1

/-- The client is there, and a `TEARDOWN` that it names is parsed. -/
def Orderly [Libc] (ev : Event) : Prop :=
  ¬ Gone ev ∧ (namedBy ev = some .RTSP_TEARDOWN → commandOf ev = some .RTSP_TEARDOWN)

/-- A command that was parsed is one that was named. -/
theorem namedBy_of_commandOf [Libc] {ev : Event} {T : RTSP_CMD_TYPES} (h : commandOf ev = some T) :
    namedBy ev = some T := by
  unfold commandOf at h
  unfold namedBy
  obtain ⟨r, hr, hT⟩ := Option.bind_eq_some_iff.mp h
  rw [(Option.filter_eq_some_iff.mp hr).1]
  exact hT

/-- Nothing is read from a client that is gone. -/
theorem namedBy_gone [Libc] {ev : Event} (h : Gone ev) : namedBy ev = none := by
  cases ev with
  | tick peer => rfl
  | received w data =>
    obtain rfl : data = [] := h
    have hfirst : ¬ Accepted ((RecvBuf []).cell 0) := by decide
    have hnone : readingOf (.received w []) = none := by
      simp only [readingOf]
      rw [if_neg hfirst]
    unfold namedBy
    rw [hnone]
    rfl

/-- A session whose events are orderly ends right. -/
theorem EndsRight.of_orderly [Libc]
    (h : Reaches Turn (Session.init rand1 rand2 buf_Date m_Streamer RecvAddr) log s)
    (horderly : ∀ o ∈ log, Orderly o.1) : EndsRight log s := by
  unfold EndsRight
  rw [(flags_reached h).stop]
  constructor
  · rintro ⟨o, ho, hname⟩
    exact Or.inl ⟨o, ho, (horderly o ho).2 hname⟩
  · rintro (⟨o, ho, hcommand⟩ | ⟨o, ho, hgone⟩)
    · exact ⟨o, ho, namedBy_of_commandOf hcommand⟩
    · exact absurd hgone (horderly o ho).1

/-- When the end is right before a turn and after it, the event of the turn is orderly. -/
theorem Orderly.of_endsRight [Libc] {s1 s2 : Session}
    (hbefore : Reaches Turn (Session.init rand1 rand2 buf_Date m_Streamer RecvAddr) before s1)
    (hturn : Turn s1 o s2)
    (hend1 : EndsRight before s1) (hend2 : EndsRight (before ++ [o]) s2) : Orderly o.1 := by
  have hflags := flags_reached (hbefore.next hturn)
  -- the loop still runs, so nothing has ended the session before
  have hstop1 : ¬ s1.Stop = true := ne_true_of_eq_false hturn.1
  have hnamed : ¬ ∃ o ∈ before, namedBy o.1 = some .RTSP_TEARDOWN :=
    fun hname => hstop1 ((flags_reached hbefore).stop.mpr hname)
  have hname : s2.Stop = true ↔ namedBy o.1 = some .RTSP_TEARDOWN := by
    rw [hflags.stop, exists_mem_snoc, or_iff_right hnamed]
  constructor
  · intro hgone
    have hlast : o ∈ before ++ [o] := List.mem_append_right _ (List.mem_singleton_self o)
    have hstop2 := hend2.mpr (Or.inr ⟨o, hlast, hgone⟩)
    have hnone := hname.mp hstop2
    rw [namedBy_gone hgone] at hnone
    cases hnone
  · intro hteardown
    rcases hend2.mp (hname.mpr hteardown) with ⟨o', ho', hcommand⟩ | ⟨o', ho', hgone⟩
    · rcases List.mem_append.mp ho' with hold | hnew
      · exact absurd ⟨o', hold, namedBy_of_commandOf hcommand⟩ hnamed
      · rwa [List.mem_singleton.mp hnew] at hcommand
    · rcases List.mem_append.mp ho' with hold | hnew
      · exact absurd (hend1.mpr (Or.inr ⟨o', hold, hgone⟩)) hstop1
      · rw [List.mem_singleton.mp hnew] at hgone
        rw [namedBy_gone hgone] at hteardown
        cases hteardown

/-- A session ends right all along exactly when its events are orderly. -/
theorem a_session_ends_right_when_its_events_are_orderly [Libc]
    (h : Reaches Turn (Session.init rand1 rand2 buf_Date m_Streamer RecvAddr) log s) :
    (∀ before after s1, log = before ++ after →
      Reaches Turn (Session.init rand1 rand2 buf_Date m_Streamer RecvAddr) before s1 →
        EndsRight before s1) ↔ ∀ o ∈ log, Orderly o.1 := by
  constructor
  · intro hends o ho
    obtain ⟨before, after, rfl⟩ := List.append_of_mem ho
    obtain ⟨s1, s2, hbefore, hturn, hnext⟩ := h.step_at
    exact Orderly.of_endsRight hbefore hturn (hends before _ s1 rfl hbefore)
      (hends (before ++ [o]) after s2 (List.append_cons before o after) hnext)
  · rintro horderly before after s1 rfl hbefore
    exact EndsRight.of_orderly hbefore (fun o ho => horderly o (List.mem_append_left after ho))

def teardownRequest : List UInt8 := bytes "TEARDOWN rtsp://h/a/b RTSP/1.0\r\nCSeq: 4\r\n\r\n"

def teardownReading : Reading :=
  { command := some .RTSP_TEARDOWN, tcp := some false, host := some (bytes "h"),
    suffix := some (bytes "b"), preSuffix := some (bytes "a"), seq := some (bytes "4"),
    accepted := true }

theorem teardownRequest_length : teardownRequest.length = 43 := by decide +kernel

theorem teardownRequest_reading :
    reading (quietWorld 43).l (RecvBuf teardownRequest) teardownRequest.length =
      .ok teardownReading := by
  rw [teardownRequest_length]
  exact (reading_received (stackWith 43 []) teardownRequest (by decide +kernel) rfl).trans
    (by decide +kernel)

/-- A `TEARDOWN` that is parsed ends the session. -/
theorem a_teardown_ends_the_session :
    ∃ log s, Reaches Turn newSession log s ∧ s.Stop = true ∧
      ∀ before after s1, log = before ++ after → Reaches Turn newSession before s1 →
        EndsRight before s1 := by
  have hfit : teardownRequest.length ≤ RTSP_BUFFER_SIZE := by
    rw [teardownRequest_length]
    decide
  have hfirst : Accepted ((RecvBuf teardownRequest).cell 0) := by decide +kernel
  obtain ⟨res, -, hturn, hC⟩ := turn_accepted (s := newSession) hfit hfirst
    teardownRequest_reading rfl newConnection_reachable.host_end nofun
  have hstep : Turn newSession (.received (quietWorld 43) teardownRequest, .handled res) _ :=
    ⟨rfl, hfit, hturn⟩
  rw [hC] at hstep
  have hrun := Reaches.start.next hstep
  have hread := readingOf_received hfirst teardownRequest_reading
  refine ⟨_, _, hrun, rfl, (a_session_ends_right_when_its_events_are_orderly hrun).mpr ?_⟩
  intro o ho
  obtain rfl := List.mem_singleton.mp ho
  refine ⟨fun hgone => ?_, fun _ => ?_⟩
  · have hlength := congrArg List.length hgone
    rw [teardownRequest_length] at hlength
    cases hlength
  · unfold commandOf
    rw [hread]
    rfl

/-- A client that has closed does not end its session. -/
theorem a_client_that_is_gone_stays :
    ¬ ∀ (rand1 rand2 : BitVec 32) (buf_Date : Block 200 UInt8) (m_Streamer : Streamer)
      (RecvAddr : SockAddr) (log : List (Event × Outcome)) (s : Session),
      Reaches Turn (Session.init rand1 rand2 buf_Date m_Streamer RecvAddr) log s →
        EndsRight log s := by
  intro h
  have hfirst : ¬ Accepted ((RecvBuf []).cell 0) := by decide
  have hstep : Turn newSession (.received (quietWorld 0) [], .ignored) newSession :=
    ⟨rfl, Nat.zero_le _, by simp only [turn]; rw [if_neg hfirst]⟩
  have hstop := (h 0 0 _ _ _ _ _ (Reaches.start.next hstep)).mpr
    (Or.inr ⟨_, List.mem_singleton_self _, rfl⟩)
  cases hstop

end payloader.session_laws
