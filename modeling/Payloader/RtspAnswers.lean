-- Which command a request is handled as, and how often it is answered. The
-- type of the last command stays in the session when a request names none, and
-- it is set before the rest of the request is read.
import Payloader.RtspHandlersLaws

set_option autoImplicit false

namespace payloader.rtsp_answers

open payloader.memory payloader.machines payloader.c_strings payloader.streamer
open payloader.rtsp_parser payloader.rtsp_parser_laws payloader.rtsp_reading
open payloader.rtsp_reading_laws payloader.rtsp_stack payloader.rtsp_history
open payloader.rtsp_handlers payloader.rtsp_handlers_laws

variable {text X : List UInt8}

/-! ## Methods -/

/-- The bytes before the first blank. -/
def token (text : List UInt8) : List UInt8 := text.takeWhile (fun x => !isBlank x)

/-- The command whose name is the token. -/
def methodOf (text : List UInt8) : Option RTSP_CMD_TYPES :=
  [.RTSP_OPTIONS, .RTSP_DESCRIBE, .RTSP_SETUP, .RTSP_PLAY, .RTSP_TEARDOWN, .RTSP_PAUSE].find?
    (fun type => token text = methodName type)

theorem methodOf_some {type : RTSP_CMD_TYPES} (h : methodOf text = some type) :
    type ≠ .RTSP_UNKNOWN ∧ token text = methodName type := by
  refine ⟨?_, by simpa using List.find?_some h⟩
  have hmem := List.mem_of_find?_eq_some h
  rintro rfl
  revert hmem
  decide

/-- The text starts with a word and a blank. -/
def Word (text X : List UInt8) : Prop := ∃ x, isBlank x = true ∧ X ++ [x] <+: text

theorem Word.token (h : Word text X) (hX : ∀ x ∈ X, isBlank x = false) :
    token text = X := by
  obtain ⟨x, hx, rest, rfl⟩ := h
  unfold rtsp_answers.token
  rw [List.append_assoc]
  exact takeWhile_before (by simpa using hX) (by simp [hx]) rest

theorem Word.take {n : Nat} (h : Word text X) (hn : X.length < n) : Word (text.take n) X := by
  obtain ⟨x, hx, hpre⟩ := h
  refine ⟨x, hx, List.prefix_take_iff.mpr ⟨hpre, ?_⟩⟩
  rw [List.length_append]
  exact hn

theorem Word.of_take {n : Nat} (h : Word (text.take n) X) : Word text X := by
  obtain ⟨x, hx, hpre⟩ := h
  exact ⟨x, hx, hpre.trans (List.take_prefix n text)⟩

/-- A command name is a word. -/
theorem hasName_word (h : hasName text) : Word text (nameIn text) := by
  have hstop := takeWhile_stop h
  have hlt : (nameIn text).length < (text.take (RTSP_PARAM_STRING_MAX - 1)).length := h
  refine Word.of_take (n := RTSP_PARAM_STRING_MAX - 1)
    ⟨(text.take (RTSP_PARAM_STRING_MAX - 1)).getD (nameIn text).length 0, ?_, ?_⟩
  · rw [Bool.not_eq_false'] at hstop
    exact hstop
  · rw [List.getD_eq_getElem _ _ hlt]
    have hpre : nameIn text = (text.take (RTSP_PARAM_STRING_MAX - 1)).take (nameIn text).length :=
      List.prefix_iff_eq_take.mp (List.takeWhile_prefix _)
    have hnext : nameIn text ++ [(text.take (RTSP_PARAM_STRING_MAX - 1))[(nameIn text).length]] =
        (text.take (RTSP_PARAM_STRING_MAX - 1)).take ((nameIn text).length + 1) := by
      rw [← List.take_concat_get' _ _ hlt, ← hpre]
    rw [hnext]
    exact List.take_prefix _ _

theorem nameIn_not_blank (text : List UInt8) : ∀ x ∈ nameIn text, isBlank x = false := by
  intro x hx
  have := List.mem_takeWhile_imp hx
  rwa [Bool.not_eq_true'] at this

/-- The line of the ports ends behind the first eleven bytes. -/
theorem seen_take [Libc] {b : Request} {n : Nat} {ports : Option (BitVec 16)} {stop : Option Nat}
    (hports : portsIn (textAt b 0) = .ok (ports, stop)) :
    ((endLine b stop).slice 0 n).take 11 = (b.slice 0 n).take 11 := by
  cases stop with
  | none => rfl
  | some p =>
    obtain ⟨q, -, hqp, -⟩ := portsIn_stop hports
    apply List.ext_getElem?
    intro i
    rw [List.getElem?_take, List.getElem?_take]
    by_cases hi : i < 11
    · rw [if_pos hi, if_pos hi, slice_getElem?, slice_getElem?]
      refine ite_congr rfl (fun _ => congrArg some ?_) (fun _ => rfl)
      exact put_cell_outside b p _ [0] (Or.inl (by omega))
    · rw [if_neg hi, if_neg hi]

theorem methodName_short (type : RTSP_CMD_TYPES) : (methodName type).length < 11 := by
  cases type <;> decide

/-- The name that the parser finds is the token, when the token is a method. -/
theorem nameIn_token {seen : List UInt8} (htake : seen.take 11 = text.take 11)
    (hname : hasName seen) (hX : X.length < 11) (htoken : token text = X) : nameIn seen = X := by
  have hword := hasName_word hname
  by_cases hshort : (nameIn seen).length < 11
  · have hword' := hword.take hshort
    rw [htake] at hword'
    rw [← htoken]
    exact (hword'.of_take.token (nameIn_not_blank seen)).symm
  · -- the first eleven bytes are no blanks, so the token is longer
    obtain ⟨x, hx, rest, hrest⟩ := hword
    have hcut : (nameIn seen ++ ([x] ++ rest)).take 11 = (nameIn seen).take 11 :=
      List.take_append_of_le_length (by omega)
    have hfirst : text.take 11 = (nameIn seen).take 11 := by
      rw [← htake, ← hcut, ← List.append_assoc, hrest]
    have hall : ∀ y ∈ text.take 11, (fun x => !isBlank x) y = true := by
      intro y hy
      rw [hfirst] at hy
      simp [nameIn_not_blank seen y (List.mem_of_mem_take hy)]
    have hlong : 11 ≤ (token text).length := by
      have hsplit : (text.take 11 ++ text.drop 11).takeWhile (fun x => !isBlank x) = _ :=
        List.takeWhile_append_of_pos hall
      rw [List.take_append_drop] at hsplit
      have hlen := congrArg List.length hfirst
      rw [List.length_take, List.length_take] at hlen
      unfold token
      rw [hsplit, List.length_append, List.length_take]
      omega
    rw [htoken] at hlong
    omega

/-- A request that is accepted with a method selects the command of it. -/
theorem command_of_method [Libc] {size n : Nat} {l : Locals} {aRequest : Block size UInt8}
    {r : Reading} {type : RTSP_CMD_TYPES} (hn : n < 2 ^ 32) (hr : reading l aRequest n = .ok r)
    (haccepted : r.accepted = true) (hmethod : methodOf (aRequest.slice 0 n) = some type) :
    r.command = some type := by
  obtain ⟨hknown, htoken⟩ := methodOf_some hmethod
  obtain ⟨-, hfits, hread⟩ := reading_ok hn hr
  obtain ⟨ports, stop, tcp, number, hports, hparts⟩ := readBuffer_parts hread
  obtain ⟨host, suffix, preSuffix, seq, i, k, numbers, hp, -, rfl⟩ :=
    parts_of_accepted hparts haccepted
  have hslice : (l.CurRequest.put 0 (aRequest.slice 0 n)).slice 0 n = aRequest.slice 0 n := by
    have hself := slice_put_self l.CurRequest 0 (aRequest.slice 0 n)
    rwa [slice_length] at hself
  have htake := seen_take (n := n) hports
  rw [hslice] at htake
  have hname := nameIn_token htake hp.named (methodName_short type) htoken
  change commandIn (upToNul (nameIn _) 0) = _
  rw [hname]
  cases type with
  | RTSP_UNKNOWN => exact absurd rfl hknown
  | _ => rfl

/-! ## The command that is handled -/

/-- The command that a request should be handled as. -/
def wanted (parsed : Bool) (text : List UInt8) : Option RTSP_CMD_TYPES :=
  if parsed then methodOf text else none

/-- The handler that ran and the type that was returned are those of the
request. There is no handler for `TEARDOWN`. -/
def HandledAsSent [Libc] (w : World) (c : Connection) (host : Host) (aRequest : Request) (n : Nat) :
    Prop :=
  ∃ parsed p res, ParseRtspRequest TURNS c.toTcpConnection w.l aRequest n = .ok (parsed, p) ∧
    Handle_RtspRequest w c host aRequest n = .ok res ∧
    res.handler = (wanted parsed (aRequest.slice 0 n)).bind handlerOf ∧
    res.C = (wanted parsed (aRequest.slice 0 n)).getD .RTSP_UNKNOWN

theorem type_unknown {r : Reading} {old : RTSP_CMD_TYPES} (horder : InOrder r) :
    r.type old = .RTSP_UNKNOWN ↔ r.command = none ∧ old = .RTSP_UNKNOWN := by
  unfold Reading.type
  cases hcommand : r.command with
  | none => simp
  | some type => simp [horder.known type hcommand]

/-- When the type that a request leaves is the one that it wants. -/
theorem type_wanted {r : Reading} (old : RTSP_CMD_TYPES) (raw : List UInt8) (horder : InOrder r)
    (hmethod : ∀ type, r.accepted = true → methodOf raw = some type → r.command = some type) :
    r.type old = (wanted r.accepted raw).getD .RTSP_UNKNOWN ↔
      r.accepted = true ∧ (methodOf raw).isSome = true ∨
        r.command = none ∧ old = .RTSP_UNKNOWN := by
  rcases hwanted : wanted r.accepted raw with _ | type
  · rw [Option.getD_none, type_unknown horder]
    refine ⟨Or.inr, fun h => h.resolve_left ?_⟩
    rintro ⟨haccepted, hsome⟩
    unfold wanted at hwanted
    rw [if_pos haccepted] at hwanted
    rw [hwanted] at hsome
    cases hsome
  · unfold wanted at hwanted
    by_cases haccepted : r.accepted = true
    · rw [if_pos haccepted] at hwanted
      refine iff_of_true ?_ (Or.inl ⟨haccepted, by rw [hwanted]; rfl⟩)
      unfold Reading.type
      rw [hmethod type haccepted hwanted]
      rfl
    · rw [if_neg haccepted] at hwanted
      cases hwanted

/-- The handler follows from the type. -/
theorem handler_wanted {r : Reading} {old : RTSP_CMD_TYPES} {raw : List UInt8}
    (h : r.type old = (wanted r.accepted raw).getD .RTSP_UNKNOWN) :
    handlerOf (r.type old) = (wanted r.accepted raw).bind handlerOf := by
  rw [h]
  cases wanted r.accepted raw <;> rfl

/-- Whatever the requests before it were, a request is handled as what it says
exactly when it is accepted with one of the six methods, or names no command in
a session that has not seen one. -/
theorem requests_with_a_method_are_handled_as_sent [Libc] {c : Connection} {host : Host}
    (h : Reachable c host) (w : World) (aRequest : Request) (n : BitVec 32) :
    HandledAsSent w c host aRequest n.toNat ↔
      ∃ r, reading w.l aRequest n.toNat = .ok r ∧ (r.accepted = true → FitsHost c r) ∧
        (r.accepted = true ∧ (methodOf (aRequest.slice 0 n.toNat)).isSome = true ∨
          r.command = none ∧ c.m_RtspCmdType = .RTSP_UNKNOWN) := by
  unfold HandledAsSent
  rw [ParseRtspRequest_turns _ _ _ n.isLt]
  rcases hr : reading w.l aRequest n.toNat with e | r
  · apply iff_of_false
    · rintro ⟨parsed, p, res, hparse, -⟩
      cases hparse
    · rintro ⟨r, hr', -⟩
      cases hr'
  have hwanted := type_wanted c.m_RtspCmdType (aRequest.slice 0 n.toNat)
    (reading_inOrder n.isLt hr) (fun type ha hm => command_of_method n.isLt hr ha hm)
  by_cases haccepted : r.accepted = true
  · by_cases hfits : FitsHost c r
    · obtain ⟨c', host', hok, -⟩ := Handle_accepted host n.isLt hr haccepted h.host_end hfits
      rw [hok]
      constructor
      · rintro ⟨parsed, p, res, hparse, hres, -, hC⟩
        cases hparse
        cases hres
        exact ⟨r, rfl, fun _ => hfits, hwanted.mp hC⟩
      · rintro ⟨r', hr', -, hcond⟩
        cases hr'
        have hC := hwanted.mpr hcond
        exact ⟨r.accepted, _, _, rfl, rfl, handler_wanted hC, hC⟩
    · apply iff_of_false
      · rintro ⟨parsed, p, res, -, hres, -⟩
        rw [Handle_long host n.isLt hr haccepted h.host_end hfits] at hres
        cases hres
      · rintro ⟨r', hr', hfits', -⟩
        cases hr'
        exact hfits (hfits' haccepted)
  · have hrejected : r.accepted = false := eq_false_of_ne_true haccepted
    have hnone : wanted r.accepted (aRequest.slice 0 n.toNat) = none := by
      rw [hrejected]
      rfl
    rw [Handle_rejected host n.isLt hr hrejected]
    constructor
    · rintro ⟨parsed, p, res, hparse, hres, -, hC⟩
      cases hparse
      cases hres
      exact ⟨r, rfl, fun ha => absurd ha haccepted, hwanted.mp hC⟩
    · rintro ⟨r', hr', -, hcond⟩
      cases hr'
      refine ⟨r.accepted, _, _, rfl, rfl, ?_, hwanted.mpr hcond⟩
      rw [hnone]
      rfl

/-- A new session returns `PLAY` for a request that it has rejected. -/
theorem a_rejected_play_is_returned :
    ¬ ∀ (c : Connection) (host : Host) (w : World) (aRequest : Request) (n : BitVec 32),
      Reachable c host → HandledAsSent w c host aRequest n.toNat := by
  intro h
  obtain ⟨parsed, p, res, hparse, hres, -, hC⟩ := h newConnection Host.init (quietWorld 6)
    (Block.ofList playFragment 0) 6 newConnection_reachable
  have hrejected : ParseRtspRequest TURNS newConnection.toTcpConnection (quietWorld 6).l
      (Block.ofList playFragment 0 : Request) 6 = _ := playFragment_rejected
  rw [show (6 : BitVec 32).toNat = 6 from rfl] at hparse hres
  rw [hrejected] at hparse
  cases hparse
  rw [Handle_rejected (w := quietWorld 6) Host.init (by decide) playFragment_reading rfl] at hres
  cases hres
  revert hC
  decide

theorem optionsFor_slice :
    (Block.ofList (optionsFor (bytes "h")) 0 : Request).slice 0 42 = optionsFor (bytes "h") := by
  decide +kernel

theorem an_options_request_is_handled_as_sent :
    HandledAsSent (quietWorld 42) newConnection Host.init
      (Block.ofList (optionsFor (bytes "h")) 0) 42 := by
  refine (requests_with_a_method_are_handled_as_sent newConnection_reachable (quietWorld 42)
    (Block.ofList (optionsFor (bytes "h")) 0) 42).mpr
    ⟨optionsReading (bytes "h"), shortHost_reading, fun _ => nofun, Or.inl ⟨rfl, ?_⟩⟩
  rw [show (42 : BitVec 32).toNat = 42 from rfl, optionsFor_slice]
  decide +kernel

/-! ## The number of answers -/

theorem answers_length (w : World) (c : Connection) (s : Streamer) (r : Reading) :
    (answersTo w c s r).length = 1 ↔
      r.type c.m_RtspCmdType ≠ .RTSP_UNKNOWN ∧ r.type c.m_RtspCmdType ≠ .RTSP_TEARDOWN ∧
        ¬ (r.type c.m_RtspCmdType = .RTSP_SETUP ∧ r.tcp.getD c.m_TcpTransport = true) := by
  have htype : (parsedBy w c r).m_RtspCmdType = r.type c.m_RtspCmdType := rfl
  have htcp : (parsedBy w c r).m_TcpTransport =
      setTransport (r.type c.m_RtspCmdType) r.tcp c.m_TcpTransport := rfl
  unfold answersTo answers
  rw [htype, htcp]
  cases r.type c.m_RtspCmdType with
  | RTSP_DESCRIBE =>
    simp only
    split <;> simp
  | RTSP_SETUP =>
    rw [show setTransport .RTSP_SETUP r.tcp c.m_TcpTransport = r.tcp.getD c.m_TcpTransport from rfl]
    simp only
    split <;> simp [*]
  | RTSP_OPTIONS => simp
  | RTSP_PLAY => simp
  | RTSP_PAUSE => simp
  | RTSP_TEARDOWN => simp
  | RTSP_UNKNOWN => simp

/-- An accepted request says whether it is over TCP. -/
theorem accepted_tcp [Libc] {size n : Nat} {l : Locals} {aRequest : Block size UInt8} {r : Reading}
    (hn : n < 2 ^ 32) (hr : reading l aRequest n = .ok r) (haccepted : r.accepted = true) :
    ∃ tcp, r.tcp = some tcp := by
  obtain ⟨suffix, -, -, hs, -, -⟩ := accepted_parts hn hr haccepted
  have horder := reading_inOrder hn hr
  rcases htcp : r.tcp with _ | tcp
  · have hnone := (horder.named htcp).2.2
    rw [hs] at hnone
    cases hnone
  · exact ⟨tcp, rfl⟩

/-- A request that is accepted with one of the six methods is answered once
unless it is a `TEARDOWN`, a `SETUP` over TCP, or a `DESCRIBE` of a known
stream whose host does not fit its array. -/
theorem accepted_methods_are_answered_once [Libc] {c : Connection} {host : Host}
    (h : Reachable c host)
    (w : World) (aRequest : Request) (n : BitVec 32) {p : TcpConnection} {type : RTSP_CMD_TYPES}
    (hparse : ParseRtspRequest TURNS c.toTcpConnection w.l aRequest n.toNat = .ok (true, p))
    (hmethod : methodOf (aRequest.slice 0 n.toNat) = some type) :
    (∃ res, Handle_RtspRequest w c host aRequest n.toNat = .ok res ∧ res.sent.length = 1) ↔
      ∃ r, reading w.l aRequest n.toNat = .ok r ∧ type ≠ .RTSP_TEARDOWN ∧
        ¬ (type = .RTSP_SETUP ∧ r.tcp = some true) ∧ FitsHost c r := by
  rw [ParseRtspRequest_turns _ _ _ n.isLt] at hparse
  rcases hr : reading w.l aRequest n.toNat with e | r
  · rw [hr] at hparse
    cases hparse
  rw [hr] at hparse
  have haccepted : r.accepted = true := (Prod.mk.inj (Except.ok.inj hparse)).1
  have hknown := (methodOf_some hmethod).1
  obtain ⟨tcp, htcp⟩ := accepted_tcp n.isLt hr haccepted
  have htype : r.type c.m_RtspCmdType = type := by
    unfold Reading.type
    rw [command_of_method n.isLt hr haccepted hmethod]
    rfl
  by_cases hfits : FitsHost c r
  · obtain ⟨c', host', hok, -⟩ := Handle_accepted host n.isLt hr haccepted h.host_end hfits
    have hlength := answers_length w c c'.m_Streamer r
    rw [htype, htcp] at hlength
    rw [hok]
    constructor
    · rintro ⟨res, hres, hone⟩
      cases hres
      obtain ⟨-, hteardown, hsetup⟩ := hlength.mp hone
      refine ⟨r, rfl, hteardown, ?_, hfits⟩
      rw [htcp, Option.some.injEq]
      exact hsetup
    · rintro ⟨r', hr', hteardown, hsetup, -⟩
      cases hr'
      rw [htcp, Option.some.injEq] at hsetup
      exact ⟨_, rfl, hlength.mpr ⟨hknown, hteardown, hsetup⟩⟩
  · apply iff_of_false
    · rintro ⟨res, hres, -⟩
      rw [Handle_long host n.isLt hr haccepted h.host_end hfits] at hres
      cases hres
    · rintro ⟨r', hr', -, -, hfits'⟩
      cases hr'
      exact hfits hfits'

/-- `SETUP` for a transport over the socket of the session. -/
def setupOverTcp : List UInt8 :=
  bytes "SETUP rtsp://h/ej/1 RTSP/1.0\r\nCSeq: 2\r\nTransport: RTP/AVP/TCP;unicast\r\n\r\n"

def setupOverTcpReading : Reading :=
  { command := some .RTSP_SETUP, tcp := some true, host := some (bytes "h"),
    suffix := some (bytes "1"), preSuffix := some (bytes "ej"), seq := some (bytes "2"),
    accepted := true }

theorem setupOverTcp_reading :
    reading (stackWith 73 []) (Block.ofList setupOverTcp 0 : Request) 73 =
      .ok setupOverTcpReading :=
  (reading_received (stackWith 73 []) setupOverTcp (by decide +kernel) rfl).trans
    (by decide +kernel)

theorem a_setup_over_tcp_is_not_answered :
    ¬ ∀ (c : Connection) (host : Host) (w : World) (aRequest : Request) (n : BitVec 32)
      (p : TcpConnection), Reachable c host →
      ParseRtspRequest TURNS c.toTcpConnection w.l aRequest n.toNat = .ok (true, p) →
      (methodOf (aRequest.slice 0 n.toNat)).isSome = true →
      ∃ res, Handle_RtspRequest w c host aRequest n.toNat = .ok res ∧ res.sent.length = 1 := by
  intro h
  have hslice : (Block.ofList setupOverTcp 0 : Request).slice 0 (73 : BitVec 32).toNat =
      setupOverTcp := by
    decide +kernel
  have hreading : reading (quietWorld 73).l (Block.ofList setupOverTcp 0 : Request)
      (73 : BitVec 32).toNat = .ok setupOverTcpReading := setupOverTcp_reading
  have hparse := ParseRtspRequest_turns newConnection.toTcpConnection (quietWorld 73).l
    (Block.ofList setupOverTcp 0 : Request) (73 : BitVec 32).isLt
  rw [hreading] at hparse
  obtain ⟨res, hres, hone⟩ := h newConnection Host.init (quietWorld 73) _ 73 _
    newConnection_reachable hparse (by rw [hslice]; decide +kernel)
  obtain ⟨c', host', hok, -⟩ := Handle_accepted (c := newConnection) Host.init
    (73 : BitVec 32).isLt hreading rfl newConnection_reachable.host_end nofun
  rw [hok] at hres
  cases hres
  have hlength := answers_length (quietWorld 73) newConnection c'.m_Streamer setupOverTcpReading
  exact (hlength.mp hone).2.2 ⟨rfl, rfl⟩

theorem an_options_request_is_answered_once :
    ∃ res, Handle_RtspRequest (quietWorld 42) newConnection Host.init
      (Block.ofList (optionsFor (bytes "h")) 0 : Request) 42 = .ok res ∧ res.sent.length = 1 := by
  have hmethod : methodOf ((Block.ofList (optionsFor (bytes "h")) 0 : Request).slice 0
      (42 : BitVec 32).toNat) = some .RTSP_OPTIONS := by
    rw [show (42 : BitVec 32).toNat = 42 from rfl, optionsFor_slice]
    decide +kernel
  exact (accepted_methods_are_answered_once newConnection_reachable (quietWorld 42)
    (Block.ofList (optionsFor (bytes "h")) 0) 42
    (shortHost_accepted newConnection.toTcpConnection) hmethod).mpr
    ⟨optionsReading (bytes "h"), shortHost_reading, nofun, nofun, nofun⟩

end payloader.rtsp_answers
