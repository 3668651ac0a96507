-- Where a session sends its stream. The port comes from the last `SETUP`, and
-- the address from `getpeername` on `m_Client`, a member of the streamer that
-- nothing assigns.
import Payloader.RtspPorts
import Payloader.SessionLaws

set_option autoImplicit false

namespace payloader.session_target

open payloader.memory payloader.machines payloader.c_strings payloader.streamer
open payloader.rtsp_parser payloader.rtsp_reading payloader.rtsp_reading_laws
open payloader.rtsp_bounds payloader.rtsp_stack payloader.rtsp_history payloader.rtsp_handlers
open payloader.rtsp_handlers_laws payloader.rtsp_ports payloader.session_thread
open payloader.session_laws

/-! ## The client of a session -/

/-- A turn of the session that `accept` gave the descriptor `Client`, with
`client` at the other end: `getpeername` knows it at every tick. -/
def ClientTurn [Libc] (Client : Int) (client : SockAddr) (s : Session) (o : Event × Outcome)
    (s' : Session) : Prop :=
  Turn s o s' ∧ ∀ peer, o.1 = .tick peer → peer Client = some client

/-- The bytes of a `SETUP` that was parsed. -/
def setupText (o : Event × Outcome) : Option (List UInt8) :=
  match o with
  | (.received _ data, .handled res) =>
    if res.parsed = true ∧ res.C = .RTSP_SETUP then some data else none
  | _ => none

/-- The last one. -/
def lastSetup (log : List (Event × Outcome)) : Option (List UInt8) :=
  (log.filterMap setupText).getLast?

/-- A `SETUP` over UDP that was parsed. -/
def UdpSetup (o : Event × Outcome) : Prop :=
  ∃ res, o.2 = .handled res ∧ res.parsed = true ∧ res.C = .RTSP_SETUP ∧
    res.c.m_TcpTransport = false

/-- There was such a `SETUP`, and a `PLAY` after it. -/
def Playing (log : List (Event × Outcome)) : Prop :=
  ∃ before after, log = before ++ after ∧ (∃ o ∈ before, UdpSetup o) ∧ ∃ o ∈ after, Played o

/-- The stream goes to the address of the client, at the port that its last `SETUP`
names. -/
def GoesToClient (client : SockAddr) (log : List (Event × Outcome)) : Prop :=
  ∀ before peer RecvAddr m_RtpSocket after,
    log = before ++ (.tick peer, .streamed RecvAddr m_RtpSocket) :: after → Playing before →
      RecvAddr.sin_addr = client.sin_addr ∧
        ∃ data ∈ lastSetup before, ∃ a ∈ named data, RecvAddr.sin_port.toNat = a.1

/-! ## What the memory and the requests say -/

/-- What `getpeername` leaves for a descriptor at a tick that starts a stream. -/
def nextAddr (m_Client : Int) (addr : SockAddr) (o : Event × Outcome) : SockAddr :=
  match o with
  | (.tick peer, .streamed _ _) => (peer m_Client).getD addr
  | _ => addr

/-- The last peer of a descriptor at such a tick, and before that what the memory
held. -/
def addressAt (m_Client : Int) (RecvAddr : SockAddr) (log : List (Event × Outcome)) : SockAddr :=
  log.foldl (nextAddr m_Client) RecvAddr

/-- At each tick of a session that plays, that is the address of the client. -/
def AddressLeads (m_Client : Int) (RecvAddr client : SockAddr) (log : List (Event × Outcome)) :
    Prop :=
  ∀ before peer out after, log = before ++ (.tick peer, out) :: after → Playing before →
    (addressAt m_Client RecvAddr (before ++ [(.tick peer, out)])).sin_addr = client.sin_addr

/-- The first `client_port` of the request is a parameter that names a port, with at
most 11 bytes behind its `=`. -/
def NamesPort (data : List UInt8) : Prop := ∃ a ∈ wanted data, FirstParameter (upToNul data 0) a.1

/-- At each tick of a session that plays, the last `SETUP` is such a request. -/
def PortsNamed (log : List (Event × Outcome)) : Prop :=
  ∀ before peer out after, log = before ++ (.tick peer, out) :: after → Playing before →
    ∃ data ∈ lastSetup before, NamesPort data

variable {log before after : List (Event × Outcome)} {o : Event × Outcome} {s s' : Session}
variable {rand1 rand2 : BitVec 32} {buf_Date : Block 200 UInt8} {m_Streamer : Streamer}
variable {RecvAddr client : SockAddr} {Client m_Client : Int}

theorem lastSetup_snoc : lastSetup (log ++ [o]) = (setupText o).or (lastSetup log) := by
  unfold lastSetup
  rw [List.filterMap_append, List.getLast?_append]
  cases hsetup : setupText o with
  | none => rw [List.filterMap_cons_none hsetup]; rfl
  | some data => rw [List.filterMap_cons_some hsetup]; rfl

theorem addressAt_snoc : addressAt m_Client RecvAddr (log ++ [o]) =
    nextAddr m_Client (addressAt m_Client RecvAddr log) o :=
  List.foldl_append

theorem nextAddr_congr {addr addr' : SockAddr} (h : addr.sin_addr = addr'.sin_addr)
    (o : Event × Outcome) :
    (nextAddr m_Client addr o).sin_addr = (nextAddr m_Client addr' o).sin_addr := by
  unfold nextAddr
  split
  · rename_i peer _ _
    cases peer m_Client with
    | none => exact h
    | some found => rfl
  · exact h

theorem Playing.played (h : Playing log) : ∃ o ∈ log, Played o := by
  obtain ⟨before, after, rfl, -, o, ho, hplay⟩ := h
  exact ⟨o, List.mem_append_right before ho, hplay⟩

/-! ## What the streamer knows -/

/-- One turn: the descriptor in the streamer stays, and a `SETUP` sets the port. -/
theorem Turn.streamer [Libc] (hend : s.new_connection.m_URLHostPort.cell 9999 = 0)
    (h : Turn s o s') :
    s'.new_connection.m_Streamer.m_Client = s.new_connection.m_Streamer.m_Client ∧
      (setupText o = none → s'.new_connection.m_Streamer.m_RtpClientPort =
        s.new_connection.m_Streamer.m_RtpClientPort) ∧
      ∀ data ∈ setupText o, ∀ p < 65536, FirstParameter (upToNul data 0) p →
        s'.new_connection.m_Streamer.m_RtpClientPort.toNat = p := by
  obtain ⟨ev, out⟩ := o
  obtain ⟨-, hfit, hturn⟩ := h
  rcases turn_cases hturn with ⟨peer, rfl, -, rfl, rfl⟩ |
    ⟨peer, RecvAddr, m_RtpSocket, rfl, -, rfl, rfl⟩ | ⟨w, data, rfl, -, rfl, rfl⟩ |
    ⟨w, data, res, rfl, -, hres, rfl, rfl⟩
  · exact ⟨rfl, fun _ => rfl, nofun⟩
  · exact ⟨rfl, fun _ => rfl, nofun⟩
  · exact ⟨rfl, fun _ => rfl, nofun⟩
  · have hn : data.length < 2 ^ 32 := Nat.lt_of_le_of_lt hfit (by decide)
    obtain ⟨r, hr, hC, hparsed, hkept, hsetup, hother⟩ := Handle_cases hn hend hres
    unfold setupText
    simp only
    rw [hparsed, hC]
    by_cases hs : r.accepted = true ∧ r.type s.new_connection.m_RtspCmdType = .RTSP_SETUP
    · obtain ⟨hclient, hport⟩ := InitTransport_kept (hsetup hs)
      rw [if_pos hs]
      refine ⟨hclient, nofun, ?_⟩
      rintro data' ⟨⟩ p hp hfirst
      have hslice : (RecvBuf data).slice 0 data.length = data := slice_ofList_self data 0
      rw [← hslice] at hfirst
      obtain ⟨port, hread, rfl⟩ := hfirst.read hn hr hp
      rw [hport]
      change (putPorts _ r.ports).m_ClientRTPPort.toNat = _
      rw [hread]
      rfl
    · rw [if_neg hs, (hother hs).1]
      exact ⟨rfl, fun _ => rfl, nofun⟩

/-- One turn: the address is what `getpeername` leaves. -/
theorem Turn.addr [Libc] (h : Turn s o s') : s'.RecvAddr.sin_addr =
    (nextAddr s.new_connection.m_Streamer.m_Client s.RecvAddr o).sin_addr := by
  obtain ⟨ev, out⟩ := o
  obtain ⟨-, -, hturn⟩ := h
  cases ev with
  | tick peer =>
    simp only [turn] at hturn
    split at hturn
    · cases hturn
      rfl
    · cases hturn
      rfl
  | received w data =>
    rcases turn_cases hturn with ⟨_, ⟨⟩, _⟩ | ⟨_, _, _, ⟨⟩, _⟩ | ⟨_, _, _, -, rfl, rfl⟩ |
      ⟨_, _, res, _, -, -, rfl, rfl⟩
    · rfl
    · rfl

/-- One turn: a `PLAY` starts the stream, and it goes on. -/
theorem Turn.started [Libc] (hend : s.new_connection.m_URLHostPort.cell 9999 = 0) (h : Turn s o s')
    (hplay : s.StreamingStarted = true ∨ Played o) : s'.StreamingStarted = true := by
  rcases Turn.read hend h with ⟨-, hno, -, hstarted, -⟩ |
    ⟨-, -, -, res, -, -, -, -, -, -, -, hout, rfl⟩
  · rcases hplay with hbefore | ⟨res, hres, -⟩
    · exact hstarted.trans hbefore
    · exact absurd hres (hno res)
  · simp only [Bool.or_eq_true, decide_eq_true_eq]
    rcases hplay with hbefore | ⟨res', hres', -, hC⟩
    · exact Or.inl hbefore
    · cases hout.symm.trans hres'
      exact Or.inr hC

/-- What a session knows of its target, from what the memory held. -/
structure Target (m_Client : Int) (RecvAddr : SockAddr) (log : List (Event × Outcome))
    (s : Session) : Prop where
  host_end : s.new_connection.m_URLHostPort.cell 9999 = 0
  client : s.new_connection.m_Streamer.m_Client = m_Client
  addr : s.RecvAddr.sin_addr = (addressAt m_Client RecvAddr log).sin_addr
  port : ∀ data ∈ lastSetup log, ∀ p < 65536, FirstParameter (upToNul data 0) p →
    s.new_connection.m_Streamer.m_RtpClientPort.toNat = p
  started : (∃ o ∈ log, Played o) → s.StreamingStarted = true

theorem Target.next [Libc] (hI : Target m_Client RecvAddr log s) (h : Turn s o s')
    (hend : s'.new_connection.m_URLHostPort.cell 9999 = 0) :
    Target m_Client RecvAddr (log ++ [o]) s' := by
  obtain ⟨hclient, hkept, hset⟩ := Turn.streamer hI.host_end h
  refine ⟨hend, hclient.trans hI.client, ?_, fun data hdata p hp hfirst => ?_, ?_⟩
  · rw [addressAt_snoc, Turn.addr h, hI.client]
    exact nextAddr_congr hI.addr o
  · rw [lastSetup_snoc] at hdata
    cases hsetup : setupText o with
    | some data' =>
      rw [hsetup] at hdata
      exact hset data (hsetup.trans hdata) p hp hfirst
    | none =>
      rw [hsetup] at hdata
      rw [hkept hsetup]
      exact hI.port data hdata p hp hfirst
  · rintro ⟨o', ho', hplay⟩
    apply Turn.started hI.host_end h
    rcases List.mem_append.mp ho' with hold | hnew
    · exact Or.inl (hI.started ⟨o', hold, hplay⟩)
    · exact Or.inr (List.mem_singleton.mp hnew ▸ hplay)

theorem target_reached [Libc]
    (h : Reaches (ClientTurn Client client)
      (Session.init rand1 rand2 buf_Date m_Streamer RecvAddr) log s) :
    Target m_Streamer.m_Client RecvAddr log s := by
  induction h with
  | start =>
    exact ⟨rfl, rfl, rfl, nofun, fun ⟨_, ho, _⟩ => absurd ho List.not_mem_nil⟩
  | next h hstep ih =>
    have hflags := flags_reached ((h.next hstep).mono (fun _ _ _ hturn => hturn.1))
    exact ih.next hstep.1 hflags.host_end

/-! ## Where the stream goes -/

/-- A tick of a session that plays hands on the address that it finds, and the
port of a last `SETUP` that names it. -/
theorem tick_target [Libc] {peer : Int → Option SockAddr} {out : Outcome} {s1 s2 : Session}
    (hbefore : Reaches (ClientTurn Client client)
      (Session.init rand1 rand2 buf_Date m_Streamer RecvAddr) before s1)
    (hplaying : Playing before) (hturn : Turn s1 (.tick peer, out) s2) :
    ∃ dest m_RtpSocket, out = .streamed dest m_RtpSocket ∧
      dest.sin_addr =
        (addressAt m_Streamer.m_Client RecvAddr (before ++ [(.tick peer, out)])).sin_addr ∧
      ∀ data ∈ lastSetup before, ∀ p < 65536, FirstParameter (upToNul data 0) p →
        dest.sin_port.toNat = p := by
  have htarget := target_reached hbefore
  have haddr := Turn.addr hturn
  rw [htarget.client, nextAddr_congr htarget.addr, ← addressAt_snoc] at haddr
  have hstarted := htarget.started hplaying.played
  have hstream := hturn.2.2
  simp only [turn] at hstream
  rw [if_pos hstarted] at hstream
  cases hstream
  exact ⟨_, _, rfl, haddr, htarget.port⟩

/-- In every run the stream goes to the client only if, at each tick of a session
that plays, the descriptor that the memory held leads to the address of the client.
It does go there if that is so and each last `SETUP` names its port first. -/
theorem the_stream_goes_to_the_client_when_the_descriptor_leads_there [Libc]
    (h : Reaches (ClientTurn Client client)
      (Session.init rand1 rand2 buf_Date m_Streamer RecvAddr) log s) :
    (GoesToClient client log → AddressLeads m_Streamer.m_Client RecvAddr client log) ∧
      (AddressLeads m_Streamer.m_Client RecvAddr client log → PortsNamed log →
        GoesToClient client log) := by
  constructor
  · rintro hgoes before peer out after rfl hplaying
    obtain ⟨s1, s2, hbefore, hstep, -⟩ := h.step_at
    obtain ⟨dest, m_RtpSocket, rfl, haddr, -⟩ := tick_target hbefore hplaying hstep.1
    rw [← haddr]
    exact (hgoes before peer dest m_RtpSocket after rfl hplaying).1
  · rintro hleads hnamed before peer dest m_RtpSocket after rfl hplaying
    obtain ⟨s1, s2, hbefore, hstep, -⟩ := h.step_at
    obtain ⟨dest', m_RtpSocket', hout, haddr, hport⟩ := tick_target hbefore hplaying hstep.1
    cases hout
    obtain ⟨data, hdata, a, ha, hfirst⟩ := hnamed before peer _ after rfl hplaying
    have hwanted := (List.mem_filter.mp ha).2
    have hin : a.1 < 65536 := Nat.lt_succ_of_le (of_decide_eq_true hwanted).1.2
    exact ⟨haddr.trans (hleads before peer _ after rfl hplaying), data, hdata, a,
      List.mem_of_mem_filter ha, hport data hdata a.1 hin hfirst⟩

/-! ## A session that plays -/

/-- A session that a `SETUP` over UDP and a `PLAY` have come to, whatever the
memory held. -/
theorem a_session_is_set_up (m_Streamer : Streamer) (RecvAddr : SockAddr) (Client : Int)
    (client : SockAddr) :
    ∃ log s, Reaches (ClientTurn Client client)
      (Session.init 0 0 (Block.ofList [] 0) m_Streamer RecvAddr) log s ∧ Playing log ∧
        s.Stop = false ∧ lastSetup log = some setupRequest ∧
        ∀ o ∈ log, ∀ peer, o.1 ≠ .tick peer := by
  obtain ⟨res, hsetup, hparsed, hC, hend, hudp, -⟩ := setup_turn
    (s := Session.init 0 0 (Block.ofList [] 0) m_Streamer RecvAddr) rfl rfl
  obtain ⟨res', hplay, hparsed', hC'⟩ := play_turn (s := { Session.init 0 0 (Block.ofList [] 0)
    m_Streamer RecvAddr with new_connection := res.c, host := res.host }) rfl hend
  have hstep1 : ClientTurn Client client _ (.received (quietWorld 78) setupRequest, .handled res)
    _ := ⟨hsetup, nofun⟩
  have hstep2 : ClientTurn Client client _ (.received (quietWorld 39) playRequest, .handled res')
    _ := ⟨hplay, nofun⟩
  have hset : UdpSetup (.received (quietWorld 78) setupRequest, .handled res) :=
    ⟨res, rfl, hparsed, hC, hudp⟩
  have hplayed : Played (.received (quietWorld 39) playRequest, .handled res') :=
    ⟨res', rfl, hparsed', hC'⟩
  refine ⟨_, _, (Reaches.start.next hstep1).next hstep2,
    ⟨_, _, rfl, ⟨_, List.mem_singleton_self _, hset⟩, _, List.mem_singleton_self _, hplayed⟩,
    rfl, ?_, ?_⟩
  · rw [lastSetup_snoc, lastSetup_snoc]
    unfold setupText
    simp only
    rw [hC', if_neg (fun h => nomatch h.2), if_pos ⟨hparsed, hC⟩]
    rfl
  · rw [List.forall_mem_append, List.nil_append, List.forall_mem_singleton,
      List.forall_mem_singleton]
    exact ⟨fun _ => Event.noConfusion, fun _ => Event.noConfusion⟩

/-- The host 10.0.0.1. -/
def somebody : SockAddr := { sin_family := AF_INET, sin_port := 40000, sin_addr := 0x0A000001 }

/-- No address. -/
def nobody : SockAddr := { sin_family := 0, sin_port := 0, sin_addr := 0 }

/-- The one descriptor 4 is a socket that is connected. -/
def onlyPeer (fd : Int) : Option SockAddr := if fd = 4 then some somebody else none

theorem onlyPeer_tick [Libc] {s s' : Session} {out : Outcome}
    (h : Turn s (.tick onlyPeer, out) s') :
    ClientTurn 4 somebody s (.tick onlyPeer, out) s' := by
  refine ⟨h, fun peer hpeer => ?_⟩
  cases hpeer
  rfl

/-- A streamer where the memory held `fd` for the descriptor. -/
def streamerWith (fd : Int) : Streamer := { newConnection.m_Streamer with m_Client := fd }

/-- A session of the descriptor 4, up to its first tick. -/
theorem a_session_ticks (fd : Int) :
    ∃ log dest m_RtpSocket s s', Reaches (ClientTurn 4 somebody)
        (Session.init 0 0 (Block.ofList [] 0) (streamerWith fd) nobody) log s ∧ Playing log ∧
      lastSetup log = some setupRequest ∧ (∀ o ∈ log, ∀ peer, o.1 ≠ .tick peer) ∧
      ClientTurn 4 somebody s (.tick onlyPeer, .streamed dest m_RtpSocket) s' := by
  obtain ⟨log, s, hrun, hplaying, hstop, hsetup, hticks⟩ := a_session_is_set_up (streamerWith fd)
    nobody 4 somebody
  have hstarted := (target_reached hrun).started hplaying.played
  obtain ⟨dest, m_RtpSocket, hturn⟩ := turn_streamed onlyPeer hstarted
  exact ⟨log, dest, m_RtpSocket, s, _, hrun, hplaying, hsetup, hticks,
    onlyPeer_tick ⟨hstop, trivial, hturn⟩⟩

/-- The address is what the memory held when no tick came before. -/
theorem addressAt_quiet (h : ∀ o ∈ log, ∀ peer, o.1 ≠ .tick peer) :
    addressAt m_Client RecvAddr log = RecvAddr := by
  induction log using List.reverseRecOn with
  | nil => rfl
  | append_singleton log o ih =>
    rw [List.forall_mem_append, List.forall_mem_singleton] at h
    rw [addressAt_snoc, ih h.1]
    unfold nextAddr
    split
    · exact absurd rfl (h.2 _)
    · rfl

/-- A tick behind turns that are none is the only one. -/
theorem only_tick {peer peer' : Int → Option SockAddr} {out out' : Outcome}
    (h : ∀ o ∈ log, ∀ peer, o.1 ≠ .tick peer)
    (hsplit : log ++ [(.tick peer, out)] = before ++ (.tick peer', out') :: after) :
    before = log ∧ peer' = peer ∧ out' = out := by
  rcases List.eq_nil_or_concat after with rfl | ⟨after', o, rfl⟩
  · obtain ⟨rfl, ho⟩ := List.append_inj' hsplit rfl
    cases ho
    exact ⟨rfl, rfl, rfl⟩
  · rw [List.concat_eq_append, ← List.cons_append, ← List.append_assoc] at hsplit
    obtain ⟨rfl, -⟩ := List.append_inj' hsplit rfl
    exact absurd rfl (h (.tick peer', out') (by simp) peer')

theorem setupRequest_namesPort : NamesPort setupRequest := by
  refine ⟨(50, 51), by decide +kernel, ?_⟩
  rw [upToNul_eq (by decide +kernel), List.drop_zero]
  exact setupRequest_first

/-- The memory held the descriptor of the client. -/
theorem a_lucky_streamer_reaches_its_client :
    ∃ log s, Reaches (ClientTurn 4 somebody)
        (Session.init 0 0 (Block.ofList [] 0) (streamerWith 4) nobody) log s ∧
      (∃ before peer out, log = before ++ [(.tick peer, out)] ∧ Playing before) ∧
      GoesToClient somebody log := by
  obtain ⟨log, dest, m_RtpSocket, s, s', hrun, hplaying, hsetup, hticks, htick⟩ := a_session_ticks 4
  refine ⟨_, _, hrun.next htick, ⟨log, onlyPeer, _, rfl, hplaying⟩,
    (the_stream_goes_to_the_client_when_the_descriptor_leads_there (hrun.next htick)).2 ?_ ?_⟩
  · intro before peer out after hsplit _
    obtain ⟨rfl, rfl, rfl⟩ := only_tick hticks hsplit
    rw [addressAt_snoc]
    rfl
  · intro before peer out after hsplit _
    obtain ⟨rfl, -, -⟩ := only_tick hticks hsplit
    exact ⟨setupRequest, hsetup, setupRequest_namesPort⟩

/-- The memory held zeros, and the stream goes to no one. -/
theorem a_stream_goes_to_nobody :
    ¬ ∀ (rand1 rand2 : BitVec 32) (buf_Date : Block 200 UInt8) (m_Streamer : Streamer)
      (RecvAddr client : SockAddr) (Client : Int) (log : List (Event × Outcome)) (s : Session),
      Reaches (ClientTurn Client client)
        (Session.init rand1 rand2 buf_Date m_Streamer RecvAddr) log s →
      GoesToClient client log := by
  intro h
  obtain ⟨log, dest, m_RtpSocket, s, s', hrun, hplaying, -, hticks, htick⟩ := a_session_ticks 0
  obtain ⟨dest', m_RtpSocket', hout, hdest, -⟩ := tick_target hrun hplaying htick.1
  cases hout
  have hgoes := (h _ _ _ _ _ _ _ _ _ (hrun.next htick) _ _ _ _ [] rfl hplaying).1
  rw [hdest, addressAt_snoc, addressAt_quiet hticks] at hgoes
  exact absurd (show nobody.sin_addr = somebody.sin_addr from hgoes) (by decide)

end payloader.session_target
