-- A request that comes in pieces. The thread takes each `recv` for a request,
-- so the pieces do as the request would only when the first one already says
-- all that is answered, and the filter drops the others.
import Payloader.SessionThread
import Payloader.RtspSequence

set_option autoImplicit false

namespace payloader.session_pieces

open payloader.memory payloader.machines payloader.c_strings payloader.streamer
open payloader.rtsp_parser payloader.rtsp_reading payloader.rtsp_reading_laws
open payloader.rtsp_prefixes payloader.rtsp_bounds payloader.rtsp_stack payloader.rtsp_history
open payloader.rtsp_sequence
open payloader.rtsp_handlers payloader.rtsp_handlers_laws payloader.session_thread

/-! ## The first piece -/

variable {p rest text : List UInt8}

/-- The first piece is accepted. It has the start of the URL and the lines with
the ports and with the transport, if there are any. -/
structure Covers [Libc] (p rest : List UInt8) : Prop where
  accepted : ∃ r, readText p = .ok r ∧ r.accepted = true
  url : NoNewUrl p (p ++ rest)
  ports : portsIn (upToNul (p ++ rest) 0) = portsIn (upToNul p 0)
  tcp : isTcp (upToNul (p ++ rest) 0) = isTcp (upToNul p 0)

/-- The line that ends lies in the first piece. -/
theorem endText_append [Libc] {ports : Option (BitVec 16)} {stop : Option Nat}
    (h : portsIn (upToNul p 0) = .ok (ports, stop)) :
    endText (p ++ rest) stop = endText p stop ++ rest := by
  cases stop with
  | none => rfl
  | some s =>
    obtain ⟨q, -, -, -, hs⟩ := portsIn_stop h
    have hle := (upToNul_starts p 0).length_le
    rw [List.length_drop] at hle
    exact List.set_append_left s 0 (by omega)

/-- A text with a NUL ends there, whatever comes behind it. -/
theorem upToNul_append (h : 0 ∈ p) (rest : List UInt8) :
    upToNul (p ++ rest) 0 = upToNul p 0 := by
  unfold upToNul
  rw [List.drop_zero, List.drop_zero, List.takeWhile_append, if_neg]
  intro hall
  have hself := (List.takeWhile_prefix (l := p) (fun x => decide (x ≠ 0))).eq_of_length hall
  rw [← hself] at h
  have := List.mem_takeWhile_imp h
  simp at this

theorem Covers.tcp_end [Libc] (h : Covers p rest) {ports : Option (BitVec 16)} {stop : Option Nat}
    (hports : portsIn (upToNul p 0) = .ok (ports, stop)) :
    isTcp (upToNul (endText p stop ++ rest) 0) = isTcp (upToNul (endText p stop) 0) := by
  cases stop with
  | none => exact h.tcp
  | some s =>
    obtain ⟨q, -, -, -, hs⟩ := portsIn_stop hports
    have hle := (upToNul_starts p 0).length_le
    rw [List.length_drop] at hle
    have hmem : 0 ∈ p.set s 0 := List.mem_set (by omega) 0
    exact congrArg isTcp (upToNul_append hmem rest)

/-- The whole request says the same, but for the content length. -/
theorem Covers.read [Libc] (h : Covers p rest) {r : Reading} (hr : readText p = .ok r) :
    ∃ numbers, readText (p ++ rest) = .ok { r with numbers } := by
  obtain ⟨r', hr', haccepted⟩ := h.accepted
  cases hr.symm.trans hr'
  unfold readText at hr ⊢
  rw [h.ports]
  obtain ⟨⟨ports, stop⟩, hports, hread⟩ := bind_eq_ok hr
  rw [hports, ok_bind]
  simp only at hread ⊢
  rw [endText_append hports, h.tcp_end hports]
  obtain ⟨host, suffix, preSuffix, seq, i, k, numbers, hp, -, hreading⟩ :=
    parts_of_accepted hread haccepted
  have hno : NoNewUrl (endText p stop ++ []) (endText p stop ++ rest) := by
    have halike := endText_alike hports
    rw [List.append_nil]
    exact noNewUrl_alike h.url halike (halike.append rest)
  have hend := (seqEnd_stop hp.seq).1
  rw [← List.append_nil (endText p stop)] at hp
  have hcont : Continues [] rest := ⟨Nat.zero_le 1, Nat.zero_le _⟩
  obtain ⟨hp', hname⟩ := Parts.continues hcont hp (by rwa [List.append_nil]) hno
  rw [List.append_nil] at hname
  have hnumbers : (numberStarts (endText p stop ++ rest)
      ((endText p stop ++ rest).length + 1) k).mapM
      (fun j => Except.ok (sscanf_u (upToNul (endText p stop ++ rest) j))) =
        (Except.ok _ : Except Fault _) := List.mapM_pure
  rw [hp'.read, hname, hreading, hnumbers]
  exact ⟨_, rfl⟩

/-! ## The content length

No handler reads it, so a session with another one answers in the same way. -/

/-- The object with another content length. -/
def withLength (c : Connection) (m : BitVec 32) : Connection := { c with m_ContentLength := m }

/-- What the copy of the host holds does not depend on what its array held. -/
theorem hostOnly_any (OBuf OBuf' : Block 256 UInt8) (b : Block RTSP_BUFFER_SIZE UInt8) :
    hostOnly OBuf b = hostOnly OBuf' b := by
  rcases htext : cString b 0 with e | text
  · unfold hostOnly strcpy
    rw [htext]
    rfl
  · have hnul : 0 ∉ text := by
      rw [(cString_ok htext).2]
      exact nul_notMem_textAt _ _
    by_cases hfit : text.length < 256
    · rw [hostOnly_ok OBuf htext hnul hfit, hostOnly_ok OBuf' htext hnul hfit]
    · rw [hostOnly_long OBuf htext (Nat.le_of_not_lt hfit),
        hostOnly_long OBuf' htext (Nat.le_of_not_lt hfit)]

theorem DESCRIBE_withLength (OBuf OBuf' : Block 256 UInt8) (c : Connection) (host : Host)
    (m : BitVec 32) :
    Handle_RtspDESCRIBE OBuf' (withLength c m) host =
      (Handle_RtspDESCRIBE OBuf c host).map (fun a => (withLength a.1 m, a.2)) := by
  obtain ⟨⟨type, rtp, rtcp, tcp, preSuffix, suffix, seq, hostPort, length⟩, id, stream, date,
    connected, streamer⟩ := c
  unfold Handle_RtspDESCRIBE withLength
  simp only
  rw [hostOnly_any OBuf' OBuf]
  rcases cString preSuffix 0 with e | preSuffix
  · rfl
  rcases cString suffix 0 with e | suffix
  · rfl
  rcases cString seq 0 with e | seq
  · rfl
  rcases cString date 0 with e | date
  · rfl
  simp only [ok_bind]
  by_cases hid : streamID preSuffix suffix = -1
  · rw [if_pos hid, if_pos hid]
    rfl
  · rw [if_neg hid, if_neg hid]
    rcases hostOnly OBuf hostPort with e | copy
    · rfl
    rcases cString hostPort 0 with e | hostPort <;> rfl

theorem SETUP_withLength (free : BitVec 16 → Bool) (c : Connection) (host : Host)
    (m : BitVec 32) :
    Handle_RtspSETUP free (withLength c m) host =
      (Handle_RtspSETUP free c host).map (fun a => (withLength a.1 m, a.2)) := by
  obtain ⟨⟨type, rtp, rtcp, tcp, preSuffix, suffix, seq, hostPort, length⟩, id, stream, date,
    connected, streamer⟩ := c
  unfold Handle_RtspSETUP withLength
  simp only
  obtain ⟨⟨s, host'⟩, hinit⟩ := InitTransport_ok free streamer host rtp rtcp tcp
  rw [hinit, ok_bind, ok_bind]
  cases tcp with
  | true => rfl
  | false =>
    rcases cString seq 0 with e | seq
    · rfl
    rcases cString date 0 with e | date <;> rfl

theorem handle_withLength {w w' : World} (hfree : w'.free = w.free) (c : Connection) (host : Host)
    (m : BitVec 32) :
    handle w' (withLength c m) host =
      (handle w c host).map (fun a => (withLength a.1 m, a.2)) := by
  unfold handle
  rw [show (withLength c m).m_RtspCmdType = c.m_RtspCmdType from rfl, hfree]
  cases c.m_RtspCmdType with
  | RTSP_OPTIONS =>
    simp only [Handle_RtspOPTION, withLength]
    rcases cString c.m_CSeq 0 with e | m_CSeq <;> rfl
  | RTSP_PAUSE =>
    simp only [Handle_RtspPAUSE, withLength]
    rcases cString c.m_CSeq 0 with e | m_CSeq
    · rfl
    rcases cString c.buf_Date 0 with e | buf_Date <;> rfl
  | RTSP_PLAY =>
    simp only [Handle_RtspPLAY, withLength]
    rcases cString c.m_CSeq 0 with e | m_CSeq
    · rfl
    rcases cString c.buf_Date 0 with e | buf_Date <;> rfl
  | RTSP_DESCRIBE => exact DESCRIBE_withLength _ _ _ _ _
  | RTSP_SETUP => exact SETUP_withLength _ _ _ _
  | RTSP_TEARDOWN => rfl
  | RTSP_UNKNOWN => rfl

theorem store_withLength (r : Reading) (numbers : List (Option (BitVec 32))) (c : Connection)
    (m : BitVec 32) :
    { r with numbers }.store (withLength c m).toTcpConnection =
      { r.store c.toTcpConnection with m_ContentLength := lastNumber m numbers } := by
  unfold Reading.store withLength
  cases r.ports <;> rfl

/-- Two readings that differ in the numbers do the same to two sessions that
differ in the content length. -/
theorem Handle_withLength [Libc] {size size' n n' : Nat} {w w' : World} (htm : w'.tm = w.tm)
    (hfree : w'.free = w.free) {aRequest : Block size UInt8} {aRequest' : Block size' UInt8}
    (hn : n < 2 ^ 32) (hn' : n' < 2 ^ 32) {r r' : Reading} (hr : reading w.l aRequest n = .ok r)
    (hr' : reading w'.l aRequest' n' = .ok r') (hsame : r' = { r with numbers := r'.numbers })
    (c : Connection) (host : Host) (m : BitVec 32) :
    Handle_RtspRequest w' (withLength c m) host aRequest' n' =
      (Handle_RtspRequest w c host aRequest n).map
        (fun res => { res with c := withLength res.c (lastNumber m r'.numbers) }) := by
  have haccepted : r'.accepted = r.accepted := by rw [hsame]
  have hstore : r'.store (withLength c m).toTcpConnection =
      { r.store c.toTcpConnection with m_ContentLength := lastNumber m r'.numbers } := by
    rw [hsame]
    exact store_withLength r r'.numbers c m
  have htype : r'.type c.m_RtspCmdType = r.type c.m_RtspCmdType := by
    rw [hsame]
    rfl
  rw [Handle_read host hn hr, Handle_read host hn' hr', haccepted]
  cases r.accepted with
  | false =>
    rw [if_neg Bool.false_ne_true, if_neg Bool.false_ne_true, hstore]
    rw [show (withLength c m).m_RtspCmdType = c.m_RtspCmdType from rfl, htype]
    rfl
  | true =>
    have hparsed : parsedBy w' (withLength c m) r' =
        withLength (parsedBy w c r) (lastNumber m r'.numbers) := by
      unfold parsedBy
      rw [hstore, htm]
      rfl
    rw [if_pos rfl, if_pos rfl, hparsed, handle_withLength hfree]
    rw [show (withLength c m).m_RtspCmdType = c.m_RtspCmdType from rfl, htype]
    rcases handle w (parsedBy w c r) host with e | a <;> rfl

/-! ## What a client sees -/

/-- What the thread does with a request: the command that it returns, the
handler that runs, and the texts that are sent. -/
structure Reply where
  C : RTSP_CMD_TYPES
  handler : Option RTSP_CMD_TYPES
  sent : List (List UInt8)
  deriving DecidableEq

def replyOf : Outcome → List Reply
  | .handled res => [{ C := res.C, handler := res.handler, sent := res.sent }]
  | _ => []

/-- What is left of a turn for the client. -/
def seen (t : Session × Outcome) : Session × List Reply := (t.1, replyOf t.2)

/-- The loop over some events, and the replies that it gives. -/
def serve [Libc] : Session → List Event → Except Fault (Session × List Reply)
  | s, [] => .ok (s, [])
  | s, ev :: evs =>
    if s.Stop then .ok (s, [])
    else do
      let (s', replies) ← (turn s ev).map seen
      (serve s' evs).map (fun t => (t.1, replies ++ t.2))

theorem serve_stop [Libc] {s : Session} (h : s.Stop = true) (evs : List Event) :
    serve s evs = .ok (s, []) := by
  cases evs with
  | nil => rfl
  | cons ev evs =>
    unfold serve
    rw [if_pos h]

theorem serve_turn [Libc] {s : Session} (h : s.Stop = false) (ev : Event) (evs : List Event) :
    serve s (ev :: evs) = (do
      let (s', replies) ← (turn s ev).map seen
      (serve s' evs).map (fun t => (t.1, replies ++ t.2))) := by
  rw [serve, if_neg (by rw [h]; exact Bool.false_ne_true)]

/-- What the filter drops has no effect. -/
theorem serve_ignored [Libc] {data : List UInt8} (h : ¬ Accepted ((RecvBuf data).cell 0))
    (w : World)
    (s : Session) (evs : List Event) : serve s (.received w data :: evs) = serve s evs := by
  by_cases hstop : s.Stop = true
  · rw [serve_stop hstop, serve_stop hstop]
  · have hturn : (turn s (.received w data)).map seen = .ok (s, []) := by
      simp only [turn]
      rw [if_neg h]
      rfl
    rw [serve_turn (eq_false_of_ne_true hstop), hturn, ok_bind]
    simp only
    rcases serve s evs with e | ⟨s', replies⟩ <;> rfl

/-- One `recv`. -/
def received (x : World × List UInt8) : Event := .received x.1 x.2

theorem serve_later [Libc] {later : List (World × List UInt8)}
    (h : ∀ x ∈ later, ¬ Accepted ((RecvBuf x.2).cell 0)) (s : Session) (evs : List Event) :
    serve s (later.map received ++ evs) = serve s evs := by
  induction later with
  | nil => rfl
  | cons x xs ih =>
    obtain ⟨hx, hxs⟩ := List.forall_mem_cons.mp h
    rw [List.map_cons, List.cons_append]
    exact (serve_ignored hx x.1 s _).trans (ih hxs)

/-! ## Requests in pieces -/

/-- A request, and the pieces in which it comes: the first one, and the later
ones. `w` is what the call finds when the request comes alone, and `w'` when it
comes in pieces. -/
structure Arrival where
  request : List UInt8
  w : World
  first : List UInt8
  w' : World
  later : List (World × List UInt8)

def Arrival.alone (a : Arrival) : List Event := [.received a.w a.request]

def Arrival.cut (a : Arrival) : List Event := .received a.w' a.first :: a.later.map received

/-- The pieces make up the request. It is shorter than the buffer, and on both
stacks a NUL stands right behind the bytes that are copied. -/
structure Arrival.Pieces (a : Arrival) : Prop where
  text : a.request = a.first ++ (a.later.map (·.2)).flatten
  short : a.request.length < RTSP_BUFFER_SIZE
  filled : a.first ≠ []
  nul : a.w.l.CurRequest.cell a.request.length = 0
  nul' : a.w'.l.CurRequest.cell a.first.length = 0
  tm : a.w'.tm = a.w.tm
  free : a.w'.free = a.w.free

/-- The filter drops the later pieces. If it lets the request pass, then the
first piece is all of it or says all that is answered. -/
structure Arrival.Harmless [Libc] (a : Arrival) : Prop extends a.Pieces where
  later : ∀ x ∈ a.later, ¬ Accepted ((RecvBuf x.2).cell 0)
  covers : Accepted (a.request.getD 0 0) → a.later = [] ∨ Covers a.first (a.later.map (·.2)).flatten

/-- Two sessions that differ in the content length. -/
def Alike (s' s : Session) : Prop :=
  ∃ m, s' = { s with new_connection := withLength s.new_connection m }

theorem RecvBuf_first (data : List UInt8) : (RecvBuf data).cell 0 = data.getD 0 0 := rfl

/-- What the thread reads in the first piece is what it reads in the request. -/
theorem Arrival.Harmless.reads [Libc] {a : Arrival} (h : a.Harmless)
    (hfirst : Accepted (a.request.getD 0 0)) :
    (∃ e, readText a.request = .error e ∧ readText a.first = .error e) ∨
      ∃ r r', readText a.request = .ok r ∧ readText a.first = .ok r' ∧
        r' = { r with numbers := r'.numbers } := by
  rcases h.covers hfirst with hwhole | hcovers
  · have hsame : a.request = a.first := by
      rw [h.text, hwhole]
      exact List.append_nil _
    rw [hsame]
    rcases readText a.first with e | r
    · exact Or.inl ⟨e, rfl, rfl⟩
    · exact Or.inr ⟨r, r, rfl, rfl, rfl⟩
  · obtain ⟨r, hr, -⟩ := hcovers.accepted
    obtain ⟨numbers, hread⟩ := hcovers.read hr
    rw [h.text]
    exact Or.inr ⟨_, r, hread, hr, rfl⟩

/-- A turn with the first piece is a turn with the request. -/
theorem Arrival.Harmless.turn [Libc] {a : Arrival} (h : a.Harmless) {s' s : Session}
    (halike : Alike s' s) :
    Agree Alike ((turn s' (.received a.w' a.first)).map seen)
      ((turn s (.received a.w a.request)).map seen) := by
  obtain ⟨m, rfl⟩ := halike
  have hsame : (RecvBuf a.first).cell 0 = (RecvBuf a.request).cell 0 := by
    obtain ⟨x, xs, hx⟩ := List.exists_cons_of_ne_nil h.filled
    rw [RecvBuf_first, RecvBuf_first, h.text, hx]
    rfl
  have hshort := h.short
  have hle : a.first.length ≤ a.request.length := by
    rw [h.text, List.length_append]
    exact Nat.le_add_right _ _
  simp only [session_thread.turn]
  rw [hsame]
  by_cases hfirst : Accepted ((RecvBuf a.request).cell 0)
  · rw [if_pos hfirst, if_pos hfirst]
    have hr : reading a.w.l (RecvBuf a.request) a.request.length = readText a.request :=
      reading_received a.w.l a.request hshort h.nul
    have hr' : reading a.w'.l (RecvBuf a.first) a.first.length = readText a.first :=
      reading_received a.w'.l a.first (Nat.lt_of_le_of_lt hle hshort) h.nul'
    have hn : a.request.length < 2 ^ 32 := Nat.lt_trans hshort (by decide)
    have hn' : a.first.length < 2 ^ 32 := Nat.lt_of_le_of_lt hle hn
    rcases h.reads hfirst with ⟨e, hq, hp⟩ | ⟨r, r', hq, hp, hnumbers⟩
    · rw [Handle_unread _ hn (hr.trans hq), Handle_unread _ hn' (hr'.trans hp)]
      exact .error e
    · rw [Handle_withLength h.tm h.free hn hn' (hr.trans hq) (hr'.trans hp) hnumbers]
      rcases Handle_RtspRequest a.w s.new_connection s.host (RecvBuf a.request) a.request.length
        with e | res
      · exact .error e
      · exact .ok ⟨lastNumber m r'.numbers, rfl⟩
  · rw [if_neg hfirst, if_neg hfirst]
    exact .ok ⟨m, rfl⟩

/-- Alike sessions serve the requests alike, in pieces or alone. -/
theorem serve_alike [Libc] {arrivals : List Arrival} (h : ∀ a ∈ arrivals, a.Harmless)
    {s' s : Session} (halike : Alike s' s) :
    Agree Alike (serve s' (arrivals.flatMap Arrival.cut))
      (serve s (arrivals.flatMap Arrival.alone)) := by
  induction arrivals generalizing s' s with
  | nil => exact .ok halike
  | cons a arrivals ih =>
    obtain ⟨ha, harrivals⟩ := List.forall_mem_cons.mp h
    have hstop : s'.Stop = s.Stop := by
      obtain ⟨m, rfl⟩ := halike
      rfl
    rw [List.flatMap_cons, List.flatMap_cons]
    change Agree Alike
      (serve s' (.received a.w' a.first :: (a.later.map received ++ arrivals.flatMap Arrival.cut)))
      (serve s (.received a.w a.request :: arrivals.flatMap Arrival.alone))
    by_cases hs : s.Stop = true
    · rw [serve_stop (hstop.trans hs), serve_stop hs]
      exact .ok halike
    · have hgoes := eq_false_of_ne_true hs
      rw [serve_turn (hstop.trans hgoes), serve_turn hgoes]
      apply (ha.turn halike).bind
      intro s1' s1 replies hnext
      -- the later pieces are dropped, and the rest is the next requests
      simp only
      rw [serve_later ha.later]
      exact (ih harrivals hnext).map (fun more => replies ++ more)

/-- Requests that come in harmless pieces are handled and answered as when each
comes alone. -/
theorem harmless_pieces_are_served_as_the_requests [Libc] {arrivals : List Arrival}
    (h : ∀ a ∈ arrivals, a.Harmless) (s : Session) :
    (serve s (arrivals.flatMap Arrival.cut)).map (·.2) =
      (serve s (arrivals.flatMap Arrival.alone)).map (·.2) := by
  have halike : Alike s s := ⟨s.new_connection.m_ContentLength, rfl⟩
  exact (serve_alike h halike).outputs

/-! ## One request in two pieces -/

/-- `OPTIONS` up to the end of its first line. -/
def requestLine : List UInt8 := bytes "OPTIONS rtsp://h/a/b RTSP/1.0\r\n"

def requestLineReading :
    Reading := { optionsReading (bytes "h") with seq := none, accepted := false }

theorem requestLine_reading :
    reading (quietWorld requestLine.length).l (RecvBuf requestLine) requestLine.length =
      .ok requestLineReading := by
  have hlen : requestLine.length = 31 := by decide +kernel
  rw [hlen]
  exact (reading_received (stackWith 31 []) requestLine (by decide +kernel) rfl).trans
    (by decide +kernel)

/-- The replies do not depend on how the requests are cut: each `recv` is at
the same time, and has a NUL behind its bytes on the stack. -/
def ServedAsAlone [Libc] (requests pieces : List (List UInt8)) (s : Session) : Prop :=
  pieces.flatten = requests.flatten →
    (∀ data ∈ requests ++ pieces, data ≠ [] ∧ data.length < RTSP_BUFFER_SIZE) →
      (serve s (pieces.map (fun data => .received (quietWorld data.length) data))).map (·.2) =
        (serve s (requests.map (fun data => .received (quietWorld data.length) data))).map (·.2)

theorem serve_handled [Libc] {w : World} {data : List UInt8} {s : Session} {res : Handled}
    (hstop : s.Stop = false) (hfirst : Accepted ((RecvBuf data).cell 0))
    (hres : Handle_RtspRequest w s.new_connection s.host (RecvBuf data) data.length = .ok res) :
    (serve s [.received w data]).map (·.2) = .ok [⟨res.C, res.handler, res.sent⟩] := by
  rw [serve_turn hstop, turn_handled hfirst hres]
  rfl

/-- Cut before its sequence number, `OPTIONS` is not answered. -/
theorem a_request_in_two_pieces_is_not_answered :
    ¬ ∀ (requests pieces : List (List UInt8)) (s : Session), ServedAsAlone requests pieces s := by
  intro h
  have hsame := h [optionsFor (bytes "h")] [requestLine, bytes "CSeq: 1\r\n\r\n"] newSession
    (by decide +kernel) (by decide +kernel)
  have hcut : (serve newSession [.received (quietWorld requestLine.length) requestLine,
      .received (quietWorld 11) (bytes "CSeq: 1\r\n\r\n")]).map (·.2) =
        .ok [⟨.RTSP_OPTIONS, none, []⟩] := by
    have hrejected := Handle_rejected (c := newConnection) Host.init
      (by decide +kernel : requestLine.length < 2 ^ 32) requestLine_reading rfl
    rw [serve_turn rfl, turn_handled (s := newSession) (by decide +kernel) hrejected]
    simp only [Except.map, seen, ok_bind]
    rw [serve_ignored (by decide +kernel)]
    rfl
  have hreading : reading (quietWorld (optionsFor (bytes "h")).length).l
      (RecvBuf (optionsFor (bytes "h"))) (optionsFor (bytes "h")).length =
        .ok (optionsReading (bytes "h")) := by
    have hlen : (optionsFor (bytes "h")).length = 42 := by decide +kernel
    rw [hlen]
    exact shortHost_reading
  obtain ⟨c', host', hhandled, -⟩ := Handle_accepted (c := newConnection) Host.init
    (by decide +kernel) hreading rfl newConnection_reachable.host_end nofun
  have halone := serve_handled (s := newSession) rfl (by decide +kernel) hhandled
  cases hcut.symm.trans (hsame.trans halone)

/-- `OPTIONS`, cut behind its sequence number. -/
def lateCut : Arrival where
  request := optionsFor (bytes "h")
  w := quietWorld 42
  first := bytes "OPTIONS rtsp://h/a/b RTSP/1.0\r\nCSeq: 1\r\n"
  w' := quietWorld 40
  later := [(quietWorld 2, bytes "\r\n")]

theorem lateCut_harmless : lateCut.Harmless where
  text := by decide +kernel
  short := by decide +kernel
  filled := by decide
  nul := rfl
  nul' := rfl
  tm := rfl
  free := rfl
  later := by decide +kernel
  covers := fun _ => Or.inr
    ⟨⟨optionsReading (bytes "h"), by decide +kernel, rfl⟩, by unfold NoNewUrl; decide +kernel,
      by decide +kernel, by decide +kernel⟩

theorem a_late_cut_is_served_as_the_request :
    (serve newSession ([lateCut].flatMap Arrival.cut)).map (·.2) =
      (serve newSession ([lateCut].flatMap Arrival.alone)).map (·.2) :=
  harmless_pieces_are_served_as_the_requests (List.forall_mem_singleton.mpr lateCut_harmless)
    newSession

end payloader.session_pieces
