-- The UDP sockets of a session over a whole run: whose they are, and what the
-- session says of their ports. `InitTransport` opens a pair for each `SETUP`
-- over UDP, and does not say when it finds none.
import Payloader.SessionThread

set_option autoImplicit false

namespace payloader.session_sockets

open payloader.memory payloader.machines payloader.c_strings payloader.streamer
open payloader.rtsp_parser payloader.rtsp_reading payloader.rtsp_reading_laws
open payloader.rtsp_bounds payloader.rtsp_stack payloader.rtsp_history payloader.rtsp_handlers
open payloader.rtsp_handlers_laws payloader.session_thread

/-! ## The pair of a session -/

/-- A session handles a request, and what comes of it. -/
def Handles [Libc] (s : Connection × Host) (o : Received × Handled) (s' : Connection × Host) :
    Prop :=
  Handle_RtspRequest o.1.w s.1 s.2 o.1.aRequest o.1.aRequestSize.toNat = .ok o.2 ∧
    s' = (o.2.c, o.2.host)

/-- A `SETUP` over UDP that was parsed, and so answered. -/
def UdpSetup (o : Received × Handled) : Prop :=
  o.2.parsed = true ∧ o.2.C = .RTSP_SETUP ∧ o.2.c.m_TcpTransport = false

/-- The RTP socket, at the port that `GetRtpServerPort` reports. -/
def rtp (m_Streamer : Streamer) : UdpSocket :=
  ⟨m_Streamer.m_RtpSocket, some m_Streamer.m_RtpServerPort⟩

/-- The RTCP socket, at the port that `GetRtcpServerPort` reports. -/
def rtcp (m_Streamer : Streamer) : UdpSocket :=
  ⟨m_Streamer.m_RtcpSocket, some m_Streamer.m_RtcpServerPort⟩

/-- The open sockets are those of one pair, and after a `SETUP` over UDP both of
them are open. -/
structure OnePair (log : List (Received × Handled)) (s : Connection × Host) : Prop where
  owned : ∀ x ∈ s.2.sockets, x = rtp s.1.m_Streamer ∨ x = rtcp s.1.m_Streamer
  bound : (∃ o ∈ log, UdpSetup o) → rtp s.1.m_Streamer ∈ s.2.sockets ∧
    rtcp s.1.m_Streamer ∈ s.2.sockets

/-- A request that the session takes for a `SETUP` over UDP. -/
def AsksForPair [Libc] (s : Connection × Host) (q : Received) : Prop :=
  ∃ r, reading q.w.l q.aRequest q.aRequestSize.toNat = .ok r ∧ r.accepted = true ∧
    r.type s.1.m_RtspCmdType = .RTSP_SETUP ∧ (r.store s.1.toTcpConnection).m_TcpTransport = false

/-- Such a request comes while the session has no socket, and while there is a
pair of ports for it. -/
def Room [Libc] (s : Connection × Host) (q : Received) : Prop :=
  AsksForPair s q → s.2.sockets = [] ∧
    ∃ P, SearchPort P ∧ q.w.free P = true ∧ q.w.free (P + 1) = true

variable {log before after : List (Received × Handled)} {o : Received × Handled}
variable {s s' : Connection × Host} {rand1 rand2 : BitVec 32} {buf_Date : Block 200 UInt8}
variable {m_Streamer : Streamer}

/-! ## One request -/

/-- What a request does to the sockets of a session. -/
theorem Handles.sockets [Libc] (h : Handles s o s') (hend : s.1.m_URLHostPort.cell 9999 = 0) :
    (AsksForPair s o.1 ∧ UdpSetup o ∧ ∃ aRtpPort aRtcpPort,
      s.1.m_Streamer.InitTransport o.1.w.free s.2 aRtpPort aRtcpPort false =
        .ok (s'.1.m_Streamer, s'.2)) ∨
    (¬ AsksForPair s o.1 ∧ ¬ UdpSetup o ∧ s'.2 = s.2 ∧ rtp s'.1.m_Streamer = rtp s.1.m_Streamer ∧
      rtcp s'.1.m_Streamer = rtcp s.1.m_Streamer) := by
  obtain ⟨hres, rfl⟩ := h
  obtain ⟨r, hr, hC, hparsed, hkept, hsetup, hother⟩ := Handle_cases o.1.aRequestSize.isLt hend hres
  have hread : AsksForPair s o.1 ↔ r.accepted = true ∧ r.type s.1.m_RtspCmdType = .RTSP_SETUP ∧
      (r.store s.1.toTcpConnection).m_TcpTransport = false := by
    constructor
    · rintro ⟨r', hr', hasks⟩
      cases hr.symm.trans hr'
      exact hasks
    · exact fun hasks => ⟨r, hr, hasks⟩
  have hudp : UdpSetup o ↔ r.accepted = true ∧ r.type s.1.m_RtspCmdType = .RTSP_SETUP ∧
      (r.store s.1.toTcpConnection).m_TcpTransport = false := by
    unfold UdpSetup
    rw [hparsed, hC, hkept]
  by_cases hs : r.accepted = true ∧ r.type s.1.m_RtspCmdType = .RTSP_SETUP
  · have hinit := hsetup hs
    cases htcp : (r.store s.1.toTcpConnection).m_TcpTransport with
    | false =>
      rw [htcp] at hinit
      exact Or.inl ⟨hread.mpr ⟨hs.1, hs.2, htcp⟩, hudp.mpr ⟨hs.1, hs.2, htcp⟩, _, _, hinit⟩
    | true =>
      rw [htcp, InitTransport_tcp] at hinit
      obtain ⟨hstreamer, hhost⟩ := Prod.mk.inj (Except.ok.inj hinit)
      refine Or.inr ⟨fun hasks => ?_, fun hasks => ?_, hhost.symm, ?_, ?_⟩
      · exact Bool.false_ne_true ((hread.mp hasks).2.2.symm.trans htcp)
      · exact Bool.false_ne_true ((hudp.mp hasks).2.2.symm.trans htcp)
      · simp only
        rw [← hstreamer]
        rfl
      · simp only
        rw [← hstreamer]
        rfl
  · obtain ⟨hstreamer, hhost⟩ := hother hs
    refine Or.inr ⟨fun hasks => hs ⟨(hread.mp hasks).1, (hread.mp hasks).2.1⟩,
      fun hasks => hs ⟨(hudp.mp hasks).1, (hudp.mp hasks).2.1⟩, hhost, ?_, ?_⟩
    · simp only
      rw [hstreamer]
    · simp only
      rw [hstreamer]

/-- What every session keeps. -/
structure Kept (s : Connection × Host) : Prop where
  host_end : s.1.m_URLHostPort.cell 9999 = 0
  fresh : s.2.Fresh

theorem Kept.next [Libc] (hI : Kept s) (h : Handles s o s') : Kept s' := by
  obtain ⟨hres, rfl⟩ := h
  exact ⟨Handle_host_end o.1.aRequestSize.isLt hI.host_end hres,
    Handle_fresh o.1.aRequestSize.isLt hI.host_end hI.fresh hres⟩

theorem kept_reached [Libc]
    (h : Reaches Handles (Connection.init rand1 rand2 buf_Date m_Streamer, Host.init) log s) :
    Kept s :=
  h.invariant (fun _ s => Kept s) ⟨rfl, fun _ hx => absurd hx List.not_mem_nil⟩
    (fun _ _ _ _ hI hstep => hI.next hstep)

/-- Where there is room, a request keeps to the pair. -/
theorem OnePair.next [Libc] (hI : OnePair log s) (hK : Kept s) (h : Handles s o s')
    (hroom : Room s o.1) :
    OnePair (log ++ [o]) s' := by
  rcases h.sockets hK.host_end with ⟨hasks, -, aRtpPort, aRtcpPort, hinit⟩ |
    ⟨-, hudp, hhost, hrtp, hrtcp⟩
  · obtain ⟨hnone, P, hP, hfree, hfree'⟩ := hroom hasks
    have hunbound : ∀ P', ∀ x ∈ s.2.sockets, x.port ≠ some P' := by
      intro P' x hx
      rw [hnone] at hx
      exact absurd hx List.not_mem_nil
    rcases (InitTransport_sockets hK.fresh hinit).2.2 with ⟨-, -, hpair⟩ | ⟨hno, -⟩
    · rw [hnone, List.nil_append] at hpair
      refine ⟨?_, fun _ => ?_⟩
      · rw [hpair]
        exact fun x hx => by simpa [rtp, rtcp] using hx
      · rw [hpair]
        exact ⟨List.mem_cons_self, List.mem_cons_of_mem _ List.mem_cons_self⟩
    · exact absurd ⟨⟨hfree, hunbound P⟩, hfree', hunbound (P + 1)⟩ (hno P hP)
  · refine ⟨?_, fun hsetup => ?_⟩
    · rw [hhost, hrtp, hrtcp]
      exact hI.owned
    · rw [hhost, hrtp, hrtcp]
      exact hI.bound ((exists_mem_snoc.mp hsetup).resolve_right hudp)

/-- A pair after a request says that there was room for it. -/
theorem Room.of_onePair [Libc] (hK : Kept s) (h : Handles s o s')
    (hpair : OnePair (log ++ [o]) s') :
    Room s o.1 := by
  intro hasks
  rcases h.sockets hK.host_end with ⟨-, hudp, aRtpPort, aRtcpPort, hinit⟩ | ⟨hno, -⟩
  · obtain ⟨-, hrtp, hfound⟩ := InitTransport_sockets hK.fresh hinit
    rcases hfound with ⟨⟨P, hP, hfree, hfree'⟩, hrtcp, hsockets⟩ | ⟨-, hsockets⟩
    · refine ⟨List.eq_nil_iff_forall_not_mem.mpr fun x hx => ?_, P, hP, hfree.1, hfree'.1⟩
      -- a socket that was there before is none of the new pair
      have hold := hK.fresh x hx
      have hmem : x ∈ s'.2.sockets := by
        rw [hsockets]
        exact List.mem_append_left _ hx
      rcases hpair.owned x hmem with rfl | rfl
      · simp only [rtp] at hold
        omega
      · simp only [rtcp] at hold
        omega
    · have hmem := (hpair.bound (exists_mem_snoc.mpr (Or.inr hudp))).1
      rw [hsockets] at hmem
      have hold := hK.fresh _ hmem
      simp only [rtp] at hold
      omega
  · exact absurd hasks hno

/-! ## A whole run -/

theorem Handles.unique [Libc] (s : Connection × Host) (o : Received × Handled)
    (s1 s2 : Connection × Host) (h1 : Handles s o s1) (h2 : Handles s o s2) : s1 = s2 :=
  h1.2.trans h2.2.symm

/-- A session has one pair all along exactly when each request that asks for one
finds room. -/
theorem a_session_has_one_pair_when_each_request_finds_room [Libc]
    (h : Reaches Handles (Connection.init rand1 rand2 buf_Date m_Streamer, Host.init) log s) :
    (∀ before after s1, log = before ++ after →
      Reaches Handles (Connection.init rand1 rand2 buf_Date m_Streamer, Host.init) before s1 →
        OnePair before s1) ↔
    ∀ before o after s1, log = before ++ o :: after →
      Reaches Handles (Connection.init rand1 rand2 buf_Date m_Streamer, Host.init) before s1 →
        Room s1 o.1 := by
  constructor
  · rintro hpair before o after s1 rfl hbefore
    obtain ⟨s2, s3, hreached, hstep, hnext⟩ := h.step_at
    obtain rfl := hbefore.unique Handles.unique hreached
    exact Room.of_onePair (kept_reached hbefore) hstep
      (hpair (before ++ [o]) after s3 (List.append_cons before o after) hnext)
  · rintro hroom before after s1 rfl hbefore
    clear h
    induction hbefore generalizing after with
    | start =>
      exact ⟨fun _ hx => absurd hx List.not_mem_nil, fun ⟨_, ho, _⟩ => absurd ho List.not_mem_nil⟩
    | @next before s1 s2 o hreached hstep ih =>
      have hsplit : (before ++ [o]) ++ after = before ++ o :: after :=
        (List.append_cons before o after).symm
      exact (ih (o :: after) (fun b o' a s' hb => hroom b o' a s' (hsplit.trans hb))).next
        (kept_reached hreached) hstep (hroom before o after s1 hsplit hreached)

/-! ## One `SETUP` and two -/

/-- A `SETUP` over UDP, while every port is free. -/
def setupReceived : Received where
  w := quietWorld 78
  aRequest := RecvBuf setupRequest
  aRequestSize := 78

theorem setupReceived_reading :
    reading setupReceived.w.l setupReceived.aRequest setupReceived.aRequestSize.toNat =
      .ok setupReading := by
  have h := setupRequest_reading
  rw [setupRequest_length] at h
  exact h

/-- Any session handles it, and takes it for such a `SETUP`. -/
theorem setupReceived_handled (hK : Kept s) :
    AsksForPair s setupReceived ∧ ∃ res s', Handles s (setupReceived, res) s' := by
  refine ⟨⟨setupReading, setupReceived_reading, rfl, rfl, rfl⟩, ?_⟩
  obtain ⟨c', host', hres, -⟩ := Handle_accepted s.2 setupReceived.aRequestSize.isLt
    setupReceived_reading rfl hK.host_end nofun
  exact ⟨_, _, hres, rfl⟩

theorem newConnection_kept : Kept (newConnection, Host.init) :=
  ⟨rfl, fun _ hx => absurd hx List.not_mem_nil⟩

theorem one_setup_opens_one_pair :
    ∃ log s, Reaches Handles (newConnection, Host.init) log s ∧ (∃ o ∈ log, UdpSetup o) ∧
      ∀ before after s1, log = before ++ after →
        Reaches Handles (newConnection, Host.init) before s1 → OnePair before s1 := by
  obtain ⟨hasks, res, s', hstep⟩ := setupReceived_handled newConnection_kept
  have hrun := Reaches.start.next hstep
  refine ⟨_, _, hrun, ⟨_, List.mem_singleton_self _, ?_⟩,
    (a_session_has_one_pair_when_each_request_finds_room hrun).mpr ?_⟩
  · rcases hstep.sockets newConnection_kept.host_end with ⟨-, hudp, -⟩ | ⟨hno, -⟩
    · exact hudp
    · exact absurd hasks hno
  · intro before o after s1 hsplit hbefore _
    rcases before with _ | ⟨o', before⟩
    · obtain ⟨rfl, -⟩ := List.cons.inj hsplit
      obtain rfl := hbefore.no_steps rfl
      exact ⟨rfl, 6970, ⟨by decide, by decide, by decide⟩, rfl, rfl⟩
    · have hlength := congrArg List.length hsplit
      simp only [List.nil_append, List.length_cons, List.length_nil, List.cons_append,
        List.length_append] at hlength
      omega

/-- A second `SETUP` leaves the pair of the first one open. -/
theorem two_setups_open_two_pairs :
    ¬ ∀ (rand1 rand2 : BitVec 32) (buf_Date : Block 200 UInt8) (m_Streamer : Streamer)
      (log : List (Received × Handled)) (s : Connection × Host),
      Reaches Handles (Connection.init rand1 rand2 buf_Date m_Streamer, Host.init) log s →
        OnePair log s := by
  intro h
  obtain ⟨hasks, res, s1, hstep⟩ := setupReceived_handled newConnection_kept
  have hK := newConnection_kept.next hstep
  obtain ⟨hasks', res', s2, hstep'⟩ := setupReceived_handled hK
  have hrun := Reaches.start.next hstep
  have hroom := Room.of_onePair hK hstep' (h _ _ _ _ _ _ (hrun.next hstep'))
  -- the first pair is still there
  rcases hstep.sockets newConnection_kept.host_end with ⟨-, hudp, -⟩ | ⟨hno, -⟩
  · have hmem := ((h _ _ _ _ _ _ hrun).bound ⟨_, List.mem_singleton_self _, hudp⟩).1
    rw [(hroom hasks').1] at hmem
    cases hmem
  · exact absurd hasks hno

end payloader.session_sockets
