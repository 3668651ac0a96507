-- The streamer of a session: the ports of its transport, and what it gives to
-- a new sender. A streamer is not initialised when it is made, so its members
-- are what the memory held until they are assigned.
import Payloader.Machines

set_option autoImplicit false

namespace payloader.streamer

open payloader.memory payloader.machines

/-- The members that the session uses. A socket is an `int`. -/
structure Streamer where
  m_RtpSocket : Int
  m_RtcpSocket : Int
  m_RtpClientPort : BitVec 16
  m_RtcpClientPort : BitVec 16
  m_RtpServerPort : BitVec 16
  m_RtcpServerPort : BitVec 16
  m_TCPTransport : Bool
  m_Client : Int

/-! ## The system below -/

/-- A UDP socket that is open, and the port that it is bound to. -/
structure UdpSocket where
  fd : Int
  port : Option (BitVec 16)
  deriving DecidableEq

/-- The UDP sockets of a session, and the descriptor that the next one gets. -/
structure Host where
  next : Nat
  sockets : List UdpSocket

/-- No socket yet. -/
def Host.init : Host := { next := 3, sockets := [] }

/-- `socket(AF_INET, SOCK_DGRAM, 0)`. -/
def Host.socket (host : Host) : Int × Host :=
  (host.next, { next := host.next + 1, sockets := host.sockets ++ [⟨host.next, none⟩] })

/-- `bind` gives 0 when no one else has the port (`free`), and no socket of the
session has it. -/
def Host.bind (free : BitVec 16 → Bool) (host : Host) (fd : Int) (port : BitVec 16) :
    Bool × Host :=
  if free port ∧ ∀ s ∈ host.sockets, s.port ≠ some port then
    (true, { host with
      sockets := host.sockets.map
        (fun s => if s.fd = fd then { s with port := some port } else s) })
  else (false, host)

def Host.close (host : Host) (fd : Int) : Host :=
  { host with sockets := host.sockets.filter (fun s => s.fd ≠ fd) }

/-! ## The transport -/

/-- One turn of the search for two free ports. -/
def portPair (free : BitVec 16 → Bool) (P : BitVec 16) (s : Streamer) (host : Host) :
    Bool × Streamer × Host :=
  let (fd, host) := host.socket
  let s := { s with m_RtpSocket := fd }
  match host.bind free s.m_RtpSocket P with
  | (true, host) =>
    let (fd, host) := host.socket
    let s := { s with m_RtcpSocket := fd }
    match host.bind free s.m_RtcpSocket (P + 1) with
    | (true, host) => (true, { s with m_RtpServerPort := P, m_RtcpServerPort := P + 1 }, host)
    | (false, host) => (false, s, (host.close s.m_RtpSocket).close s.m_RtcpSocket)
  | (false, host) => (false, s, host.close s.m_RtpSocket)

/-- `for (u_short P = 6970; P < 0xFFFE; P += 2)` up to the first free pair. -/
def pairTurn (free : BitVec 16 → Bool) (t : BitVec 16 × Streamer × Host) :
    Except Fault (Flow (BitVec 16 × Streamer × Host) (Streamer × Host)) :=
  if t.1 < 0xFFFE then
    match portPair free t.1 t.2.1 t.2.2 with
    | (true, s, host) => .ok (.leave (s, host))
    | (false, s, host) => .ok (.next (t.1 + 2, s, host))
  else .ok (.leave t.2)

def portPairs (fuel : Nat) (free : BitVec 16 → Bool) (s : Streamer) (host : Host) :
    Except Fault (Streamer × Host) := loop (pairTurn free) fuel (6970, s, host)

/-- Turns enough for every pair of ports. -/
def PORT_TURNS : Nat := 29283

def Streamer.InitTransport (free : BitVec 16 → Bool) (s : Streamer) (host : Host)
    (aRtpPort aRtcpPort : BitVec 16) (TCP : Bool) : Except Fault (Streamer × Host) :=
  let s := { s with m_RtpClientPort := aRtpPort, m_RtcpClientPort := aRtcpPort,
                    m_TCPTransport := TCP }
  if s.m_TCPTransport = false then portPairs PORT_TURNS free s host else .ok (s, host)

def Streamer.GetRtpServerPort (s : Streamer) : BitVec 16 := s.m_RtpServerPort

def Streamer.GetRtcpServerPort (s : Streamer) : BitVec 16 := s.m_RtcpServerPort

/-! ## Streaming -/

structure SockAddr where
  sin_family : BitVec 16
  sin_port : BitVec 16
  sin_addr : BitVec 32

def AF_INET : BitVec 16 := 2

/-- The destination and the socket that a new sender gets. `peer` is what
`getpeername` gives for a descriptor; when it fails the address stays as it
was (`RecvAddr`). The port is in the order of the host. -/
def Streamer.StartStreaming (peer : Int → Option SockAddr) (RecvAddr : SockAddr) (s : Streamer) :
    SockAddr × Int :=
  let RecvAddr := (peer s.m_Client).getD RecvAddr
  ({ RecvAddr with sin_family := AF_INET, sin_port := s.m_RtpClientPort }, s.m_RtpSocket)

/-! ## Facts about the transport -/

/-- The RTP socket is one of the open sockets, and it is bound. -/
def Bound (s : Streamer) (host : Host) : Prop :=
  ∃ x ∈ host.sockets, x.fd = s.m_RtpSocket ∧ x.port.isSome = true

instance (s : Streamer) (host : Host) : Decidable (Bound s host) :=
  inferInstanceAs (Decidable (∃ x ∈ host.sockets, x.fd = s.m_RtpSocket ∧ x.port.isSome = true))

/-- A transport over TCP opens no socket. -/
theorem InitTransport_tcp (free : BitVec 16 → Bool) (s : Streamer) (host : Host)
    (aRtpPort aRtcpPort : BitVec 16) :
    s.InitTransport free host aRtpPort aRtcpPort true =
      .ok ({ s with m_RtpClientPort := aRtpPort, m_RtcpClientPort := aRtcpPort,
                    m_TCPTransport := true }, host) := rfl

/-- The ports that the search takes for RTP. -/
def SearchPort (P : BitVec 16) : Prop := 6970 ≤ P.toNat ∧ P.toNat < 65534 ∧ P.toNat % 2 = 0

/-- What every turn of the search keeps, and what its last turn ends with, holds
after the search. The turns take the even ports one after another. -/
theorem portPairs_search (free : BitVec 16 → Bool) (I : BitVec 16 → Streamer → Host → Prop)
    (Q : Streamer → Host → Prop)
    (hnext : ∀ P s host s' host', SearchPort P → I P s host →
      portPair free P s host = (false, s', host') → I (P + 2) s' host')
    (hfound : ∀ P s host s' host', SearchPort P → I P s host →
      portPair free P s host = (true, s', host') → Q s' host')
    (hnone : ∀ s host, I 65534 s host → Q s host) (s : Streamer) (host : Host)
    (h : I 6970 s host) : ∃ r, portPairs PORT_TURNS free s host = .ok r ∧ Q r.1 r.2 := by
  refine loop_total
    (fun t : BitVec 16 × Streamer × Host =>
      I t.1 t.2.1 t.2.2 ∧ 6970 ≤ t.1.toNat ∧ t.1.toNat ≤ 65534 ∧ t.1.toNat % 2 = 0)
    (fun t => (65534 - t.1.toNat) / 2) (fun r : Streamer × Host => Q r.1 r.2) ?_
    (s := (6970, s, host)) ⟨h, ?_, ?_, ?_⟩ ?_
  rotate_left
  · change 6970 ≤ 6970
    decide
  · change 6970 ≤ 65534
    decide
  · change 6970 % 2 = 0
    decide
  · change (65534 - 6970) / 2 < PORT_TURNS
    decide
  rintro ⟨P, s, host⟩ ⟨hI, hfirst, hP, heven⟩
  simp only at hI hfirst hP heven ⊢
  unfold pairTurn
  by_cases hlt : P < 0xFFFE
  · have hsmall : P.toNat < 65534 := hlt
    have hP2 : (P + 2).toNat = P.toNat + 2 := by
      rw [BitVec.toNat_add]
      change (P.toNat + 2) % 65536 = _
      omega
    rw [if_pos hlt]
    rcases hpair : portPair free P s host with ⟨_ | _, s', host'⟩
    · left
      refine ⟨_, rfl, ⟨hnext P s host s' host' ⟨hfirst, hsmall, heven⟩ hI hpair, ?_, ?_, ?_⟩, ?_⟩
      · simp only
        omega
      · simp only
        omega
      · simp only
        omega
      · simp only
        omega
    · exact Or.inr ⟨_, rfl, hfound P s host s' host' ⟨hfirst, hsmall, heven⟩ hI hpair⟩
  · rw [if_neg hlt]
    have hlast : P = 65534 := by
      apply BitVec.eq_of_toNat_eq
      have hnot : ¬ P.toNat < 65534 := hlt
      change P.toNat = 65534
      omega
    exact Or.inr ⟨_, rfl, hnone s host (hlast ▸ hI)⟩

theorem portPairs_total (free : BitVec 16 → Bool) (I Q : Streamer → Host → Prop)
    (hnext : ∀ P s host s' host', I s host → portPair free P s host = (false, s', host') →
      I s' host')
    (hfound : ∀ P s host s' host', I s host → portPair free P s host = (true, s', host') →
      Q s' host')
    (hnone : ∀ s host, I s host → Q s host) (s : Streamer) (host : Host) (h : I s host) :
    ∃ r, portPairs PORT_TURNS free s host = .ok r ∧ Q r.1 r.2 :=
  portPairs_search free (fun _ => I) Q (fun P s host s' host' _ => hnext P s host s' host')
    (fun P s host s' host' _ => hfound P s host s' host') hnone s host h

theorem InitTransport_ok (free : BitVec 16 → Bool) (s : Streamer) (host : Host)
    (aRtpPort aRtcpPort : BitVec 16) (TCP : Bool) :
    ∃ r, s.InitTransport free host aRtpPort aRtcpPort TCP = .ok r := by
  cases TCP with
  | false =>
    obtain ⟨r, hr, -⟩ := portPairs_total free (fun _ _ => True) (fun _ _ => True)
      (fun _ _ _ _ _ _ _ => trivial) (fun _ _ _ _ _ _ _ => trivial) (fun _ _ _ => trivial)
      { s with m_RtpClientPort := aRtpPort, m_RtcpClientPort := aRtcpPort,
               m_TCPTransport := false } host trivial
    exact ⟨r, hr⟩
  | true => exact ⟨_, rfl⟩

section
variable {free : BitVec 16 → Bool} {P : BitVec 16} {s s' : Streamer} {host host' : Host}
variable {fd : Int} {b : Bool}

/-- The search leaves the client of the streamer as it is. -/
theorem portPair_kept (h : portPair free P s host = (b, s', host')) :
    s'.m_Client = s.m_Client ∧ s'.m_RtpClientPort = s.m_RtpClientPort := by
  unfold portPair at h
  simp only at h
  rcases hrtp : host.socket.2.bind free host.socket.1 P with ⟨_ | _, h1⟩
  · simp only [hrtp] at h
    cases h
    exact ⟨rfl, rfl⟩
  · simp only [hrtp] at h
    rcases hrtcp : h1.socket.2.bind free h1.socket.1 (P + 1) with ⟨_ | _, h2⟩
    · simp only [hrtcp] at h
      cases h
      exact ⟨rfl, rfl⟩
    · simp only [hrtcp] at h
      cases h
      exact ⟨rfl, rfl⟩

/-- A transport has the port that it is given, and the client that it had. -/
theorem InitTransport_kept {aRtpPort aRtcpPort : BitVec 16} {TCP : Bool}
    (h : s.InitTransport free host aRtpPort aRtcpPort TCP = .ok (s', host')) :
    s'.m_Client = s.m_Client ∧ s'.m_RtpClientPort = aRtpPort := by
  cases TCP with
  | true =>
    cases h
    exact ⟨rfl, rfl⟩
  | false =>
    let I := fun (now : Streamer) (_ : Host) =>
      now.m_Client = s.m_Client ∧ now.m_RtpClientPort = aRtpPort
    have hkept : ∀ {found P t host1 t' host1'}, I t host1 →
        portPair free P t host1 = (found, t', host1') → I t' host1' := fun hI hpair =>
      ⟨(portPair_kept hpair).1.trans hI.1, (portPair_kept hpair).2.trans hI.2⟩
    obtain ⟨r, hr, hI⟩ := portPairs_total free I I (fun _ _ _ _ _ => hkept)
      (fun _ _ _ _ _ => hkept) (fun _ _ hI => hI)
      { s with m_RtpClientPort := aRtpPort, m_RtcpClientPort := aRtcpPort,
               m_TCPTransport := false } host ⟨rfl, rfl⟩
    rw [show s.InitTransport free host aRtpPort aRtcpPort false = .ok r from hr] at h
    cases h
    exact hI

/-! ## The sockets of a search -/

/-- Every open socket has a descriptor that was given out. -/
def Host.Fresh (host : Host) : Prop := ∀ x ∈ host.sockets, x.fd < host.next

theorem Host.Fresh.ne {n : Nat} (h : host.Fresh) (hn : host.next ≤ n) :
    ∀ y ∈ host.sockets, y.fd ≠ n := by
  intro y hy
  have := h y hy
  omega

/-- `bind` of a socket that is new. -/
theorem bind_last {l : List UdpSocket} {n : Nat} {free : BitVec 16 → Bool}
    (hl : ∀ x ∈ l, x.fd ≠ fd) :
    Host.bind free ⟨n, l ++ [⟨fd, none⟩]⟩ fd P =
      if free P = true ∧ ∀ x ∈ l, x.port ≠ some P then (true, ⟨n, l ++ [⟨fd, some P⟩]⟩)
      else (false, ⟨n, l ++ [⟨fd, none⟩]⟩) := by
  have hports : (∀ x ∈ l ++ [(⟨fd, none⟩ : UdpSocket)], x.port ≠ some P) ↔
      ∀ x ∈ l, x.port ≠ some P := by
    rw [List.forall_mem_append, List.forall_mem_singleton]
    exact and_iff_left (fun hport => by cases hport)
  have hmap : l.map (fun x => if x.fd = fd then { x with port := some P } else x) = l := by
    conv_rhs => rw [← List.map_id l]
    exact List.map_congr_left (fun x hx => if_neg (hl x hx))
  simp only [Host.bind, hports, List.map_append, List.map_cons, List.map_nil, hmap, if_true]

theorem close_one {l r : List UdpSocket} {n : Nat} {port : Option (BitVec 16)}
    (hl : ∀ x ∈ l, x.fd ≠ fd) (hr : ∀ x ∈ r, x.fd ≠ fd) :
    Host.close ⟨n, l ++ ⟨fd, port⟩ :: r⟩ fd = ⟨n, l ++ r⟩ := by
  have hkept : ∀ l : List UdpSocket, (∀ x ∈ l, x.fd ≠ fd) →
      l.filter (fun x => decide (x.fd ≠ fd)) = l :=
    fun l hl => List.filter_eq_self.mpr (fun x hx => decide_eq_true (hl x hx))
  unfold Host.close
  simp only
  rw [List.filter_append, hkept l hl, List.filter_cons_of_neg (by simp), hkept r hr]

/-- No one has the pair of ports. -/
def PairFree (free : BitVec 16 → Bool) (host : Host) (P : BitVec 16) : Prop :=
  (free P = true ∧ ∀ x ∈ host.sockets, x.port ≠ some P) ∧
    free (P + 1) = true ∧ ∀ x ∈ host.sockets, x.port ≠ some (P + 1)

theorem ne_next_port : P ≠ P + 1 := by
  intro h
  have htoNat := congrArg BitVec.toNat h
  rw [BitVec.toNat_add] at htoNat
  have := P.isLt
  change P.toNat = (P.toNat + 1) % 65536 at htoNat
  omega

/-- One turn of the search: a pair that is free is bound to two new sockets, and
otherwise the sockets are as they were. -/
theorem portPair_sockets (hfresh : host.Fresh) (h : portPair free P s host = (b, s', host')) :
    (b = true ∧ PairFree free host P ∧
      s' = { s with m_RtpSocket := host.next, m_RtcpSocket := host.next + 1,
                    m_RtpServerPort := P, m_RtcpServerPort := P + 1 } ∧
      host' = ⟨host.next + 2,
        host.sockets ++ [⟨host.next, some P⟩, ⟨host.next + 1, some (P + 1)⟩]⟩) ∨
    (b = false ∧ ¬ PairFree free host P ∧ s'.m_RtpSocket = host.next ∧
      host'.sockets = host.sockets ∧ host.next < host'.next ∧
      s'.m_RtpServerPort = s.m_RtpServerPort ∧ s'.m_RtcpServerPort = s.m_RtcpServerPort) := by
  have hrtp : ∀ y ∈ host.sockets, y.fd ≠ host.next := hfresh.ne (Nat.le_refl _)
  have hrtcp : ∀ y ∈ host.sockets ++ [⟨host.next, some P⟩],
      y.fd ≠ ((host.next + 1 : Nat) : Int) := by
    rw [List.forall_mem_append, List.forall_mem_singleton]
    refine ⟨hfresh.ne (Nat.le_succ _), ?_⟩
    simp only
    omega
  have hport : (∀ y ∈ host.sockets ++ [(⟨host.next, some P⟩ : UdpSocket)],
      y.port ≠ some (P + 1)) ↔ ∀ y ∈ host.sockets, y.port ≠ some (P + 1) := by
    rw [List.forall_mem_append, List.forall_mem_singleton]
    exact and_iff_left (fun hsome => ne_next_port (Option.some_inj.mp hsome))
  unfold portPair at h
  simp only [Host.socket] at h
  rw [bind_last hrtp] at h
  by_cases hfirst : free P = true ∧ ∀ x ∈ host.sockets, x.port ≠ some P
  · rw [if_pos hfirst] at h
    simp only at h
    rw [bind_last hrtcp] at h
    by_cases hsecond : free (P + 1) = true ∧
        ∀ y ∈ host.sockets ++ [(⟨host.next, some P⟩ : UdpSocket)], y.port ≠ some (P + 1)
    · rw [if_pos hsecond] at h
      simp only [List.append_assoc, List.cons_append, List.nil_append] at h
      cases h
      exact Or.inl ⟨rfl, ⟨hfirst, hsecond.1, hport.mp hsecond.2⟩, rfl, rfl⟩
    · rw [if_neg hsecond] at h
      simp only [List.append_assoc, List.cons_append, List.nil_append] at h
      -- the two new sockets are closed again
      rw [close_one hrtp (List.forall_mem_singleton.mpr (by simp only; omega)),
        close_one (fun y hy => hrtcp y (List.mem_append_left _ hy)) (List.forall_mem_nil _),
        List.append_nil] at h
      cases h
      exact Or.inr ⟨rfl, fun hfree => hsecond ⟨hfree.2.1, hport.mpr hfree.2.2⟩, rfl, rfl,
        Nat.lt_succ_of_lt (Nat.lt_succ_self _), rfl, rfl⟩
  · rw [if_neg hfirst] at h
    simp only at h
    rw [close_one hrtp (List.forall_mem_nil _), List.append_nil] at h
    cases h
    exact Or.inr ⟨rfl, fun hfree => hfirst hfree.1, rfl, rfl, Nat.lt_succ_self _, rfl, rfl⟩

theorem PairFree.of_sockets (h : PairFree free host' P) (hsockets : host'.sockets = host.sockets) :
    PairFree free host P := by
  unfold PairFree at h ⊢
  rwa [hsockets] at h

theorem SearchPort.lt_or_eq {P' : BitVec 16} (hP' : SearchPort P') (hP : SearchPort P)
    (hlt : P'.toNat < (P + 2).toNat) : P'.toNat < P.toNat ∨ P' = P := by
  have hP2 : (P + 2).toNat = P.toNat + 2 := by
    rw [BitVec.toNat_add]
    change (P.toNat + 2) % 65536 = _
    have := hP.2.1
    omega
  have heven := hP.2.2
  have heven' := hP'.2.2
  by_cases heq : P'.toNat = P.toNat
  · exact Or.inr (BitVec.eq_of_toNat_eq heq)
  · exact Or.inl (by omega)

/-- The first pair of the search that no one has. -/
structure FirstPair (free : BitVec 16 → Bool) (host : Host) (P : BitVec 16) : Prop where
  search : SearchPort P
  unused : PairFree free host P
  least : ∀ P', SearchPort P' → PairFree free host P' → P.toNat ≤ P'.toNat

/-- The two new sockets of a search are bound to the first free pair, and the
ports of the pair are stored. -/
structure PairBound (free : BitVec 16 → Bool) (host : Host) (P : BitVec 16) (s' : Streamer)
    (host' : Host) : Prop where
  first : FirstPair free host P
  opened : host.next ≤ s'.m_RtpSocket ∧ s'.m_RtpSocket < s'.m_RtcpSocket
  ports : s'.m_RtpServerPort = P ∧ s'.m_RtcpServerPort = P + 1
  sockets : host'.sockets =
    host.sockets ++ [⟨s'.m_RtpSocket, some P⟩, ⟨s'.m_RtcpSocket, some (P + 1)⟩]

/-- No pair is free, and the sockets and the stored ports are as they were. -/
structure NoPair (free : BitVec 16 → Bool) (host : Host) (s s' : Streamer) (host' : Host) :
    Prop where
  none : ∀ P, SearchPort P → ¬ PairFree free host P
  ports : s'.m_RtpServerPort = s.m_RtpServerPort ∧ s'.m_RtcpServerPort = s.m_RtcpServerPort
  sockets : host'.sockets = host.sockets

/-- What the turns before `P` have kept: the pairs below it are not free, and each
turn has made a new socket and has closed it. -/
structure Searched (free : BitVec 16 → Bool) (host : Host) (s : Streamer) (P : BitVec 16)
    (t : Streamer) (now : Host) : Prop where
  sockets : now.sockets = host.sockets
  next : host.next ≤ now.next
  passed : ∀ P', SearchPort P' → P'.toNat < P.toNat → ¬ PairFree free host P'
  opened : P ≠ 6970 → host.next ≤ t.m_RtpSocket
  ports : t.m_RtpServerPort = s.m_RtpServerPort ∧ t.m_RtcpServerPort = s.m_RtcpServerPort

variable {t t' : Streamer} {now now' : Host}

theorem Searched.fresh (h : Searched free host s P t now) (hfresh : host.Fresh) : now.Fresh := by
  intro x hx
  rw [h.sockets] at hx
  have hold := hfresh x hx
  have hnext := h.next
  omega

theorem Searched.turn (h : Searched free host s P t now) (hfresh : host.Fresh)
    (hP : SearchPort P) (hpair : portPair free P t now = (false, t', now')) :
    Searched free host s (P + 2) t' now' := by
  rcases portPair_sockets (h.fresh hfresh) hpair with
    ⟨hb, -⟩ | ⟨-, hused, hrtp, hsockets, hmore, hport, hport'⟩
  · cases hb
  exact
    { sockets := hsockets.trans h.sockets
      next := Nat.le_trans h.next (Nat.le_of_lt hmore)
      passed := by
        intro P' hP' hlt
        rcases hP'.lt_or_eq hP hlt with hbefore | rfl
        · exact h.passed P' hP' hbefore
        · intro hfree
          exact hused (hfree.of_sockets h.sockets.symm)
      opened := by
        intro _
        rw [hrtp]
        exact Int.ofNat_le.mpr h.next
      ports := ⟨hport.trans h.ports.1, hport'.trans h.ports.2⟩ }

/-- The turn that finds a pair has two more sockets. -/
theorem Searched.found (h : Searched free host s P t now) (hfresh : host.Fresh)
    (hP : SearchPort P) (hpair : portPair free P t now = (true, t', now')) :
    now'.Fresh ∧ PairBound free host P t' now' := by
  have hle := h.next
  rcases portPair_sockets (h.fresh hfresh) hpair with ⟨-, hfree, rfl, rfl⟩ | ⟨hb, -⟩
  · constructor
    · intro x hx
      simp only [List.mem_append, List.mem_cons, List.not_mem_nil, or_false] at hx ⊢
      rcases hx with hold | rfl | rfl
      · have := h.fresh hfresh x hold
        omega
      · simp only
        omega
      · simp only
        omega
    · exact
        { first :=
            { search := hP
              unused := hfree.of_sockets h.sockets
              least := by
                intro P' hP' hfree'
                by_contra hlt
                exact h.passed P' hP' (Nat.lt_of_not_le hlt) hfree' }
          opened := by
            simp only
            omega
          ports := ⟨rfl, rfl⟩
          sockets := by
            simp only
            rw [h.sockets] }
  · cases hb

theorem Searched.none (h : Searched free host s 65534 t now) : NoPair free host s t now where
  none P hP := h.passed P hP hP.2.1
  ports := h.ports
  sockets := h.sockets

/-- The search for a pair, with what every turn of it has kept. -/
theorem InitTransport_search {aRtpPort aRtcpPort : BitVec 16} (hfresh : host.Fresh)
    (h : s.InitTransport free host aRtpPort aRtcpPort false = .ok (s', host')) :
    host'.Fresh ∧ host.next ≤ s'.m_RtpSocket ∧
      ((∃ P, PairBound free host P s' host') ∨ NoPair free host s s' host') := by
  let Q := fun (t : Streamer) (now : Host) => now.Fresh ∧ host.next ≤ t.m_RtpSocket ∧
    ((∃ P, PairBound free host P t now) ∨ NoPair free host s t now)
  have hfound : ∀ P t now t' now', SearchPort P → Searched free host s P t now →
      portPair free P t now = (true, t', now') → Q t' now' := by
    intro P t now t' now' hP hI hpair
    obtain ⟨hfresh', hbound⟩ := hI.found hfresh hP hpair
    exact ⟨hfresh', hbound.opened.1, Or.inl ⟨P, hbound⟩⟩
  have hnone : ∀ t now, Searched free host s 65534 t now → Q t now := by
    intro t now hI
    exact ⟨hI.fresh hfresh, hI.opened (by decide), Or.inr hI.none⟩
  have hstart : Searched free host s 6970
      { s with m_RtpClientPort := aRtpPort, m_RtcpClientPort := aRtcpPort,
               m_TCPTransport := false } host :=
    { sockets := rfl
      next := Nat.le_refl _
      passed := by
        intro P' hP' hlt
        have hfirst := hP'.1
        change P'.toNat < 6970 at hlt
        omega
      opened := fun hne => absurd rfl hne
      ports := ⟨rfl, rfl⟩ }
  obtain ⟨r, hr, hQ⟩ := portPairs_search free (Searched free host s) Q
    (fun P t now t' now' hP hI hpair => hI.turn hfresh hP hpair) hfound hnone _ host hstart
  rw [show s.InitTransport free host aRtpPort aRtcpPort false = .ok r from hr] at h
  cases h
  exact hQ

/-- A transport over UDP takes a pair of ports that is free, or there is none
and the sockets are as they were. -/
theorem InitTransport_sockets {aRtpPort aRtcpPort : BitVec 16} (hfresh : host.Fresh)
    (h : s.InitTransport free host aRtpPort aRtcpPort false = .ok (s', host')) :
    host'.Fresh ∧ host.next ≤ s'.m_RtpSocket ∧
    (((∃ P, SearchPort P ∧ PairFree free host P) ∧ host.next ≤ s'.m_RtcpSocket ∧
        host'.sockets = host.sockets ++ [⟨s'.m_RtpSocket, some s'.m_RtpServerPort⟩,
          ⟨s'.m_RtcpSocket, some s'.m_RtcpServerPort⟩]) ∨
      ((∀ P, SearchPort P → ¬ PairFree free host P) ∧ host'.sockets = host.sockets)) := by
  obtain ⟨hfresh', hrtp, ⟨P, hbound⟩ | hno⟩ := InitTransport_search hfresh h
  · have hopened := hbound.opened
    refine ⟨hfresh', hrtp, Or.inl ⟨⟨P, hbound.first.search, hbound.first.unused⟩, by omega, ?_⟩⟩
    rw [hbound.ports.1, hbound.ports.2]
    exact hbound.sockets
  · exact ⟨hfresh', hrtp, Or.inr ⟨hno.none, hno.sockets⟩⟩

theorem InitTransport_fresh {aRtpPort aRtcpPort : BitVec 16} {TCP : Bool} (hfresh : host.Fresh)
    (h : s.InitTransport free host aRtpPort aRtcpPort TCP = .ok (s', host')) : host'.Fresh := by
  cases TCP with
  | true =>
    rw [InitTransport_tcp] at h
    cases h
    exact hfresh
  | false => exact (InitTransport_sockets hfresh h).1

/-- A transport over UDP is bound, or there are no ports left for it. -/
theorem InitTransport_udp {aRtpPort aRtcpPort : BitVec 16} (hfresh : host.Fresh)
    (h : s.InitTransport free host aRtpPort aRtcpPort false = .ok (s', host')) :
    Bound s' host' ∨ host'.sockets = host.sockets := by
  rcases (InitTransport_sockets hfresh h).2.2 with ⟨-, -, hpair⟩ | ⟨-, hold⟩
  · left
    refine ⟨⟨s'.m_RtpSocket, some s'.m_RtpServerPort⟩, ?_, rfl, rfl⟩
    rw [hpair]
    exact List.mem_append_right _ List.mem_cons_self
  · exact Or.inr hold

/-- Whatever ports are free, a transport over UDP comes to an end. It has bound the
first free pair and reports its ports, or there is none and it reports the ports
of before. No other socket that it opened stays open. -/
theorem the_first_free_pair_is_bound (hfresh : host.Fresh) (free : BitVec 16 → Bool)
    (s : Streamer) (aRtpPort aRtcpPort : BitVec 16) :
    ∃ s' host', s.InitTransport free host aRtpPort aRtcpPort false = .ok (s', host') ∧
      ((∃ P, SearchPort P ∧ PairFree free host P) →
        ∃ P, FirstPair free host P ∧ host.next ≤ s'.m_RtpSocket ∧
          s'.m_RtpSocket < s'.m_RtcpSocket ∧ s'.GetRtpServerPort = P ∧
          s'.GetRtcpServerPort = P + 1 ∧
          host'.sockets =
            host.sockets ++ [⟨s'.m_RtpSocket, some P⟩, ⟨s'.m_RtcpSocket, some (P + 1)⟩]) ∧
      ((∀ P, SearchPort P → ¬ PairFree free host P) →
        host'.sockets = host.sockets ∧ s'.GetRtpServerPort = s.GetRtpServerPort ∧
          s'.GetRtcpServerPort = s.GetRtcpServerPort) := by
  obtain ⟨⟨s', host'⟩, hrun⟩ := InitTransport_ok free s host aRtpPort aRtcpPort false
  refine ⟨s', host', hrun, ?_⟩
  obtain ⟨-, -, ⟨P, hbound⟩ | hno⟩ := InitTransport_search hfresh hrun
  · refine ⟨fun _ => ⟨P, hbound.first, hbound.opened.1, hbound.opened.2, hbound.ports.1,
      hbound.ports.2, hbound.sockets⟩, fun hall => ?_⟩
    exact absurd hbound.first.unused (hall P hbound.first.search)
  · refine ⟨fun ⟨P, hP, hfree⟩ => absurd hfree (hno.none P hP), fun _ => ?_⟩
    exact ⟨hno.sockets, hno.ports.1, hno.ports.2⟩

/-- With no socket open, the free pairs are those of the ports. -/
theorem pairFree_init : PairFree free Host.init P ↔ free P = true ∧ free (P + 1) = true := by
  unfold PairFree Host.init
  simp

/-- A streamer with nothing in its members. -/
def emptyStreamer : Streamer :=
  { m_RtpSocket := 0, m_RtcpSocket := 0, m_RtpClientPort := 0, m_RtcpClientPort := 0,
    m_RtpServerPort := 0, m_RtcpServerPort := 0, m_TCPTransport := false, m_Client := 0 }

/-- Someone else has the ports 6970 and 6973. -/
theorem two_taken_ports_are_passed_over :
    ∃ s' host', emptyStreamer.InitTransport (fun P => decide (P ≠ 6970 ∧ P ≠ 6973)) Host.init
      50 51 false = .ok (s', host') ∧ s'.GetRtpServerPort = 6974 := by
  have hfresh : Host.init.Fresh := fun x hx => absurd hx List.not_mem_nil
  obtain ⟨s', host', hrun, hfound, -⟩ := the_first_free_pair_is_bound hfresh
    (fun P => decide (P ≠ 6970 ∧ P ≠ 6973)) emptyStreamer 50 51
  have hpair : PairFree (fun P => decide (P ≠ 6970 ∧ P ≠ 6973)) Host.init 6974 :=
    pairFree_init.mpr (by decide)
  have hsearch : SearchPort 6974 := by
    unfold SearchPort
    decide
  obtain ⟨P, hfirst, -, -, hport, -⟩ := hfound ⟨6974, hsearch, hpair⟩
  refine ⟨s', host', hrun, hport.trans ?_⟩
  obtain ⟨hlo, -, heven⟩ := hfirst.search
  have hle : P.toNat ≤ 6974 := hfirst.least 6974 hsearch hpair
  obtain ⟨hrtp, hrtcp⟩ := pairFree_init.mp hfirst.unused
  have h70 : P.toNat ≠ 6970 := by
    intro heq
    obtain rfl : P = 6970 := BitVec.eq_of_toNat_eq heq
    revert hrtp
    decide
  have h72 : P.toNat ≠ 6972 := by
    intro heq
    obtain rfl : P = 6972 := BitVec.eq_of_toNat_eq heq
    revert hrtcp
    decide
  apply BitVec.eq_of_toNat_eq
  change P.toNat = 6974
  omega
end

end payloader.streamer
