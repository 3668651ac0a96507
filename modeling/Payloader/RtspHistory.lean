-- What a session keeps of its earlier requests. A rejected request has already
-- stored the parts before the one that is missing, and the host of a URL is
-- stored over the last one with no NUL after it.
import Payloader.RtspStack
import Payloader.RtspPrefixes

set_option autoImplicit false

namespace payloader.rtsp_history

open payloader.memory payloader.machines payloader.c_strings payloader.rtsp_parser
open payloader.rtsp_parser_laws payloader.rtsp_reading payloader.rtsp_reading_laws
open payloader.rtsp_bounds payloader.rtsp_prefixes payloader.rtsp_stack

variable {text : List UInt8}

/-! ## The parts of a reading -/

/-- A part is read only after the ones before it, and each fits its array. -/
structure InOrder (r : Reading) : Prop where
  named : r.tcp = none → r.command = none ∧ r.host = none ∧ r.suffix = none
  suffix : r.suffix = none → r.preSuffix = none
  preSuffix : r.preSuffix = none → r.seq = none
  numbers : r.accepted = false → r.numbers = []
  known : ∀ type ∈ r.command, type ≠ .RTSP_UNKNOWN
  hostFits : ∀ host ∈ r.host, host.length < 9999
  suffixFits : ∀ part ∈ r.suffix, part.length < RTSP_PARAM_STRING_MAX
  preSuffixFits : ∀ part ∈ r.preSuffix, part.length < RTSP_PARAM_STRING_MAX
  seqFits : ∀ part ∈ r.seq, part.length < RTSP_PARAM_STRING_MAX

theorem urlIn_fits {i : Nat} (h : text.length ≤ 10000) :
    ∀ host ∈ (urlIn text i).1, host.length < 9999 := by
  unfold urlIn
  rcases hj : firstIn rtspScheme text (pastBlanks text (i + 1)) (text.length - 8) with _ | j
  · exact fun host hhost => nomatch hhost
  · have hle := (List.takeWhile_prefix (fun x => decide (x ≠ ch '/' ∧ x ≠ ch ' '))
      (l := text.drop (j + 7))).length_le
    rw [List.length_drop] at hle
    simp only
    split
    · rintro host ⟨⟩
      omega
    · exact fun host hhost => nomatch hhost

theorem seqIn_fits {i : Nat} {seq : List UInt8} {ended : Bool}
    (h : seqIn text i = some (seq, ended)) : seq.length < RTSP_PARAM_STRING_MAX := by
  obtain ⟨j, -, hj⟩ := Option.map_eq_some_iff.mp h
  have hseq := (Prod.mk.inj hj).1
  have hle := (List.takeWhile_prefix (fun x => decide (¬ (x = ch '\r' ∨ x = ch '\n')))
    (l := (text.drop (pastBlanks text (j + 5))).take (RTSP_PARAM_STRING_MAX - 1))).length_le
  rw [← hseq]
  exact Nat.lt_of_le_of_lt (hle.trans (List.length_take_le _ _)) (by decide)

theorem commandIn_known (name : List UInt8) :
    ∀ type, commandIn name = some type → type ≠ .RTSP_UNKNOWN := by
  intro type htype
  obtain ⟨p, hp, rfl⟩ := Option.map_eq_some_iff.mp htype
  have hmem := List.mem_of_find?_eq_some hp
  revert hmem
  unfold commands
  simp only [List.mem_cons, List.not_mem_nil, or_false]
  rintro (rfl | rfl | rfl | rfl | rfl | rfl) <;> decide

theorem readParts_inOrder {ports : Option (BitVec 16)} {tcp : Bool}
    {number : Nat → Except Fault (Option (BitVec 32))} {r : Reading} (hlen : text.length ≤ 10000)
    (h : readParts ports tcp number text = .ok r) : InOrder r := by
  have hhost := urlIn_fits (i := (nameIn text).length) hlen
  cases readParts_to h with
  | start => constructor <;> simp
  | url hurl =>
    rw [hurl] at hhost
    constructor <;> simp
    · exact commandIn_known _
    · exact hhost
  | suffix hurl hpath =>
    rw [hurl] at hhost
    constructor <;> simp
    · exact commandIn_known _
    · exact hhost
    · exact (pathIn_fits hpath).1
  | path hurl hpath =>
    rw [hurl] at hhost
    constructor <;> simp
    · exact commandIn_known _
    · exact hhost
    · exact (pathIn_fits hpath).1
    · exact ((pathIn_fits hpath).2 _ _ rfl).1
  | seq hurl hpath hseq =>
    rw [hurl] at hhost
    constructor <;> simp
    · exact commandIn_known _
    · exact hhost
    · exact (pathIn_fits hpath).1
    · exact ((pathIn_fits hpath).2 _ _ rfl).1
    · exact seqIn_fits hseq
  | accepted hparts _ =>
    rw [hparts.url] at hhost
    unfold readingOf
    constructor <;> simp
    · exact commandIn_known _
    · exact hhost
    · exact (pathIn_fits hparts.path).1
    · exact ((pathIn_fits hparts.path).2 _ _ rfl).1
    · exact seqIn_fits hparts.seq

theorem readBuffer_parts [Libc] {b : Request} {n : Nat} {r : Reading} (h : readBuffer b n = .ok r) :
    ∃ ports stop tcp number, portsIn (textAt b 0) = .ok (ports, stop) ∧
      readParts ports tcp number ((endLine b stop).slice 0 n) = .ok r := by
  obtain ⟨⟨ports, b'⟩, hread, hparts⟩ := bind_eq_ok h
  obtain ⟨whole, hwhole, hread⟩ := bind_eq_ok hread
  obtain ⟨⟨ports', stop⟩, hports, hend⟩ := bind_eq_ok hread
  rw [(cString_ok hwhole).2] at hports
  cases hend
  exact ⟨ports, stop, _, _, hports, hparts⟩

theorem reading_inOrder [Libc] {size n : Nat} {l : Locals} {aRequest : Block size UInt8}
    {r : Reading} (hn : n < 2 ^ 32) (h : reading l aRequest n = .ok r) : InOrder r := by
  obtain ⟨-, hfits, hread⟩ := reading_ok hn h
  obtain ⟨ports, stop, tcp, number, -, hread⟩ := readBuffer_parts hread
  refine readParts_inOrder ?_ hread
  rw [slice_length]
  exact hfits

/-! ## Rejected requests -/

/-- A rejected request has no effect on the content length. Of the other
members it changes those that it names before the part that is missing, and no
others: the session holds the reading of the request over what it held. -/
theorem a_rejected_request_stores_what_it_names [Libc] {size n : Nat} {c c' : TcpConnection}
    (l : Locals) (aRequest : Block size UInt8) (hn : n < 2 ^ 32)
    (h : ParseRtspRequest TURNS c l aRequest n = .ok (false, c')) :
    ∃ r, reading l aRequest n = .ok r ∧ c' = r.store c ∧
      c'.m_ContentLength = c.m_ContentLength ∧
      (r.tcp = none → c' = putPorts c r.ports) ∧
      (r.suffix = none → c'.m_URLSuffix = c.m_URLSuffix ∧ c'.m_URLPreSuffix = c.m_URLPreSuffix ∧
        c'.m_CSeq = c.m_CSeq) ∧
      (r.preSuffix = none → c'.m_URLPreSuffix = c.m_URLPreSuffix ∧ c'.m_CSeq = c.m_CSeq) ∧
      (r.seq = none → c'.m_CSeq = c.m_CSeq) := by
  rw [ParseRtspRequest_turns c l aRequest hn] at h
  rcases hr : reading l aRequest n with e | r
  · rw [hr] at h
    cases h
  rw [hr] at h
  obtain ⟨hrejected, hstore⟩ := Prod.mk.inj (Except.ok.inj h)
  have horder := reading_inOrder hn hr
  have hseq : r.seq = none → c'.m_CSeq = c.m_CSeq := by
    intro hnone
    rw [← hstore]
    simp [Reading.store, putPart, hnone]
  have hpre : r.preSuffix = none →
      c'.m_URLPreSuffix = c.m_URLPreSuffix ∧ c'.m_CSeq = c.m_CSeq := by
    intro hnone
    refine ⟨?_, hseq (horder.preSuffix hnone)⟩
    rw [← hstore]
    simp [Reading.store, putPart, hnone]
  have hsuffix : r.suffix = none → c'.m_URLSuffix = c.m_URLSuffix ∧
      c'.m_URLPreSuffix = c.m_URLPreSuffix ∧ c'.m_CSeq = c.m_CSeq := by
    intro hnone
    refine ⟨?_, hpre (horder.suffix hnone)⟩
    rw [← hstore]
    simp [Reading.store, putPart, hnone]
  have hlength : lastNumber c.m_ContentLength r.numbers = c.m_ContentLength := by
    rw [horder.numbers hrejected]
    rfl
  refine ⟨r, rfl, hstore.symm, ?_, ?_, hsuffix, hpre, hseq⟩
  · rw [← hstore]
    exact hlength
  · intro hnone
    obtain ⟨hcommand, hhost, hsuf⟩ := horder.named hnone
    have hparts := horder.suffix hsuf
    rw [← hstore]
    unfold Reading.store Reading.type
    rw [hlength, hnone, hcommand, hhost, hsuf, hparts, horder.preSuffix hparts, setTransport_none]
    cases r.ports <;> rfl

/-- A request with no version in it. -/
def playFragment : List UInt8 := bytes "PLAY x"

theorem playFragment_reading :
    reading (stackWith 6 []) (Block.ofList playFragment 0 : Request) 6 =
      .ok { command := some .RTSP_PLAY, tcp := some false } :=
  (reading_received (stackWith 6 []) playFragment (by decide) rfl).trans rfl

theorem playFragment_rejected :
    ParseRtspRequest TURNS TcpConnection.init (stackWith 6 [])
        (Block.ofList playFragment 0 : Request) 6 =
      .ok (false, { TcpConnection.init with m_RtspCmdType := .RTSP_PLAY }) :=
  parse_received TcpConnection.init (stackWith 6 []) playFragment
    (r := { command := some .RTSP_PLAY, tcp := some false }) (by decide) rfl rfl

theorem a_rejected_play_changes_the_command :
    ¬ ∀ (size n : Nat) (c c' : TcpConnection) (l : Locals) (aRequest : Block size UInt8),
      n < 2 ^ 32 → ParseRtspRequest TURNS c l aRequest n = .ok (false, c') → c' = c := by
  intro h
  have hkept := h _ _ _ _ _ _ (by decide) playFragment_rejected
  have htype := congrArg TcpConnection.m_RtspCmdType hkept
  revert htype
  decide

/-- `OPTIONS` for a path on a host. -/
def optionsFor (host : List UInt8) : List UInt8 :=
  bytes "OPTIONS rtsp://" ++ host ++ bytes "/a/b RTSP/1.0\r\nCSeq: 1\r\n\r\n"

def optionsReading (host : List UInt8) : Reading :=
  { command := some .RTSP_OPTIONS, tcp := some false, host := some host,
    suffix := some (bytes "b"), preSuffix := some (bytes "a"), seq := some (bytes "1"),
    accepted := true }

theorem optionsReading_host (c : TcpConnection) (host : List UInt8) :
    ((optionsReading host).store c).m_URLHostPort = c.m_URLHostPort.put 0 host := rfl

/-- The session that has parsed `OPTIONS` for the host `abc`. -/
def afterLongHost : TcpConnection := (optionsReading (bytes "abc")).store TcpConnection.init

theorem afterLongHost_parsed :
    ParseRtspRequest TURNS TcpConnection.init (stackWith 44 [])
        (Block.ofList (optionsFor (bytes "abc")) 0 : Request) 44 = .ok (true, afterLongHost) :=
  parse_received TcpConnection.init (stackWith 44 []) (optionsFor (bytes "abc"))
    (r := optionsReading (bytes "abc")) (by decide +kernel) rfl (by decide +kernel)

/-- A `PLAY` with a URL and no sequence number. -/
def playWithoutSeq : List UInt8 := bytes "PLAY rtsp://h/a/b RTSP/1.0\r\n\r\n"

/-- After an `OPTIONS` that is accepted, a `PLAY` is rejected: it stores its
host and its path, and the sequence number of the `OPTIONS` stays. -/
theorem a_rejected_play_keeps_the_sequence_number :
    ∃ c c', ParseRtspRequest TURNS TcpConnection.init (stackWith 44 [])
          (Block.ofList (optionsFor (bytes "abc")) 0 : Request) 44 = .ok (true, c) ∧
      ParseRtspRequest TURNS c (stackWith 30 []) (Block.ofList playWithoutSeq 0 : Request) 30 =
        .ok (false, c') ∧
      c'.m_RtspCmdType = .RTSP_PLAY ∧ c'.m_CSeq = c.m_CSeq ∧
      cString c'.m_CSeq 0 = .ok (bytes "1") ∧ c'.m_ContentLength = c.m_ContentLength := by
  have hread : readText playWithoutSeq = .ok
      { command := some .RTSP_PLAY, tcp := some false, host := some (bytes "h"),
        suffix := some (bytes "b"), preSuffix := some (bytes "a") } := by decide +kernel
  have hplay := parse_received afterLongHost (stackWith 30 []) playWithoutSeq (by decide) rfl hread
  obtain ⟨r, hr, -, hlength, -, -, -, hseq⟩ :=
    a_rejected_request_stores_what_it_names _ _ (by decide) hplay
  rw [reading_received (stackWith 30 []) playWithoutSeq (by decide) rfl, hread] at hr
  cases hr
  have hkept := hseq rfl
  refine ⟨_, _, afterLongHost_parsed, hplay, rfl, hkept, ?_, hlength⟩
  rw [hkept]
  decide +kernel

/-! ## One request before two stacks -/

/-- When the stack ends the line of the ports, the phases after the ports see
the request as it is, or with a NUL for a carriage return at its end. -/
theorem seen_open [Libc] {b : Request} (h : Starts b text) (hopen : ¬ PortsEnd text)
    {ports : Option (BitVec 16)} {stop : Option Nat}
    (hports : portsIn (textAt b 0) = .ok (ports, stop)) :
    (endLine b stop).slice 0 text.length = text ∨
      ∃ p, text = p ++ [ch '\r'] ∧ (endLine b stop).slice 0 text.length = p ++ [0] := by
  obtain ⟨hzero, hnone⟩ := not_portsEnd hopen
  rw [textAt_starts h (Nat.zero_le _), List.drop_zero, if_neg hzero] at hports
  cases stop with
  | none => exact Or.inl h.slice
  | some p =>
    obtain ⟨q, hq, hqp, hd, -⟩ := portsIn_stop hports
    by_cases hout : text.length ≤ p
    · refine Or.inl (Eq.trans (slice_put_outside _ _ _ _ _ (Or.inl ?_)) h.slice)
      rw [Nat.zero_add]
      exact hout
    have hlast : text.length = p + 1 := by
      by_contra hin
      have hq' : q + (bytes "client_port").length ≤ text.length := by
        change q + 11 ≤ _
        omega
      have hfirst := hnone q (find_append_inside hq hq')
      rw [List.drop_append_of_le_length (by omega)] at hd
      have hline := find_append_inside hd (by
        rw [List.length_drop]
        change p - q + 2 ≤ _
        omega)
      rw [hfirst] at hline
      cases hline
    have hcr : text.getD p 0 = ch '\r' := by
      have hpre := (find_some hd).1
      rw [List.drop_drop, Nat.add_sub_cancel' (by omega),
        List.drop_append_of_le_length (by omega), List.drop_eq_getElem_cons (by omega)] at hpre
      rw [List.getD_eq_getElem _ _ (by omega)]
      exact (List.cons_prefix_cons.mp hpre).1.symm
    refine Or.inr ⟨text.take p, ?_, ?_⟩
    · rw [← hcr, List.getD_eq_getElem _ _ (by omega), List.take_concat_get' _ _ (by omega)]
      exact (List.take_of_length_le hlast.le).symm
    · rw [hlast, slice_append]
      apply congrArg₂ (· ++ ·)
      · apply Eq.trans (slice_put_outside _ _ _ _ _ (Or.inl (Nat.zero_add p).le))
        rw [← slice_drop_take b 0 text.length 0 p (by omega), List.drop_zero, h.slice]
      · rw [Nat.zero_add]
        exact slice_put_self b p [0]

/-- What the phases after the ports see of one request before two stacks. -/
theorem seen_twice [Libc] {b b' : Request} (h : Starts b text) (h' : Starts b' text)
    {ports ports' : Option (BitVec 16)} {stop stop' : Option Nat}
    (hports : portsIn (textAt b 0) = .ok (ports, stop))
    (hports' : portsIn (textAt b' 0) = .ok (ports', stop')) :
    (endLine b stop).slice 0 text.length = (endLine b' stop').slice 0 text.length ∨
      ∃ p, ((endLine b stop).slice 0 text.length = p ++ [0] ∧
          (endLine b' stop').slice 0 text.length = p ++ [ch '\r']) ∨
        (endLine b stop).slice 0 text.length = p ++ [ch '\r'] ∧
          (endLine b' stop').slice 0 text.length = p ++ [0] := by
  by_cases hend : PortsEnd text
  · left
    rw [portsIn_settled h hend] at hports
    rw [portsIn_settled h' hend, hports] at hports'
    cases hports'
    obtain ⟨h1, hlen, -⟩ := starts_endLine h hports
    obtain ⟨h2, -, -⟩ := starts_endLine h' hports
    have hs1 := h1.slice
    have hs2 := h2.slice
    rw [hlen] at hs1 hs2
    rw [hs1, hs2]
  · rcases seen_open h hend hports with h1 | ⟨p, hp, h1⟩
    · rcases seen_open h' hend hports' with h2 | ⟨p, hp, h2⟩
      · left
        rw [h1, h2]
      · exact Or.inr ⟨p, Or.inr ⟨h1.trans hp, h2⟩⟩
    · rcases seen_open h' hend hports' with h2 | ⟨p', hp', h2⟩
      · exact Or.inr ⟨p, Or.inl ⟨h1, h2.trans hp⟩⟩
      · left
        rw [h1, h2, (List.append_inj_left' (hp.symm.trans hp') rfl)]

/-- No URL comes with a carriage return for a NUL at the end. -/
theorem noNewUrl_last (p : List UInt8) : NoNewUrl (p ++ [0]) (p ++ [ch '\r']) := by
  unfold NoNewUrl
  generalize (nameIn (p ++ [0])).length + 1 = i
  intro hnone
  have hblanks : pastBlanks (p ++ [ch '\r']) i = pastBlanks (p ++ [0]) i := by
    unfold pastBlanks
    rw [List.drop_append, List.drop_append]
    cases i - p.length with
    | zero =>
      rw [List.takeWhile_append, List.takeWhile_append]
      rfl
    | succ d => simp
  rw [List.length_append, List.length_singleton] at hnone ⊢
  rw [hblanks]
  unfold firstIn at hnone ⊢
  rw [List.find?_eq_none] at hnone ⊢
  intro j hj
  obtain ⟨hlo, hroom⟩ := List.mem_range'_1.mp hj
  have hlen : rtspScheme.length ≤ (p.drop j).length := by
    rw [List.length_drop]
    change 6 ≤ _
    omega
  have hnot := hnone j hj
  rw [List.drop_append_of_le_length (by omega), holdsAt_continues hlen] at hnot ⊢
  exact hnot

/-- The line of the sequence number ends before a NUL at the end. -/
theorem seqEnd_last {p seq : List UInt8} {k : Nat} (h : seqIn (p ++ [0]) k = some (seq, true)) :
    seqEnd (p ++ [0]) k < p.length := by
  obtain ⟨hlt, hstop⟩ := seqEnd_stop h
  rw [List.length_append, List.length_singleton] at hlt
  by_contra hge
  rw [show seqEnd (p ++ [0]) k = p.length by omega, List.getD_append_right _ _ _ _ le_rfl,
    Nat.sub_self] at hstop
  revert hstop
  decide

theorem Parts.last {p : List UInt8} {host : Option (List UInt8)} {suffix preSuffix seq : List UInt8}
    {i k : Nat} (h : Parts (p ++ [0]) host suffix preSuffix seq i k) :
    Parts (p ++ [ch '\r']) host suffix preSuffix seq i k := by
  have hcont : Continues [0] [ch '\r'] := ⟨le_rfl, le_rfl⟩
  exact (Parts.continues hcont h (seqEnd_last h.seq) (noNewUrl_last p)).1

/-- A request that is accepted before two stacks has the same parts before
both. -/
theorem readings_agree [Libc] {size n : Nat} {l l' : Locals} {aRequest : Block size UInt8}
    {r r' : Reading} (hn : n < 2 ^ 32) (h : reading l aRequest n = .ok r)
    (h' : reading l' aRequest n = .ok r') (hr : r.accepted = true) (hr' : r'.accepted = true) :
    r.host = r'.host ∧ ∃ suffix preSuffix seq, r.suffix = some suffix ∧ r'.suffix = some suffix ∧
      r.preSuffix = some preSuffix ∧ r'.preSuffix = some preSuffix ∧ r.seq = some seq ∧
      r'.seq = some seq := by
  obtain ⟨hsize, hfits, hread⟩ := reading_ok hn h
  obtain ⟨-, -, hread'⟩ := reading_ok hn h'
  obtain ⟨ports, stop, tcp, number, hports, hparts⟩ := readBuffer_parts hread
  obtain ⟨ports', stop', tcp', number', hports', hparts'⟩ := readBuffer_parts hread'
  have hlen : (aRequest.slice 0 n).length = n := slice_length aRequest 0 n
  have hstarts : ∀ l : Locals,
      Starts (l.CurRequest.put 0 (aRequest.slice 0 n)) (aRequest.slice 0 n) :=
    fun l => starts_put l.CurRequest (hlen.le.trans hfits)
  have hseen := seen_twice (hstarts l) (hstarts l') hports hports'
  rw [hlen] at hseen
  obtain ⟨host, suffix, preSuffix, seq, i, k, numbers, hp, -, rfl⟩ := parts_of_accepted hparts hr
  obtain ⟨host', suffix', preSuffix', seq', i', k', numbers', hp', -, rfl⟩ :=
    parts_of_accepted hparts' hr'
  have hsame : host = host' ∧ suffix = suffix' ∧ preSuffix = preSuffix' ∧ seq = seq' := by
    rcases hseen with heq | ⟨p, ⟨h1, h2⟩ | ⟨h1, h2⟩⟩
    · rw [heq] at hp
      exact hp.unique hp'
    · rw [h1] at hp
      rw [h2] at hp'
      exact (Parts.last hp).unique hp'
    · rw [h1] at hp
      rw [h2] at hp'
      exact hp.unique (Parts.last hp')
  obtain ⟨rfl, rfl, rfl, rfl⟩ := hsame
  exact ⟨rfl, suffix, preSuffix, seq, rfl, rfl, rfl, rfl, rfl, rfl⟩

/-! ## Sessions with a history -/

/-- A request that a session has parsed, and the stack that the parser found. -/
structure Call where
  l : Locals
  aRequest : Request
  aRequestSize : BitVec 32

def ParseStep [Libc] (c : TcpConnection) (q : Call) (c' : TcpConnection) : Prop :=
  ∃ accepted, ParseRtspRequest TURNS c q.l q.aRequest q.aRequestSize.toNat = .ok (accepted, c')

def Reached [Libc] (c : TcpConnection) : Prop := ∃ qs, Reaches ParseStep TcpConnection.init qs c

theorem ParseStep.reading [Libc] {c c' : TcpConnection} {q : Call} (h : ParseStep c q c') :
    ∃ r, reading q.l q.aRequest q.aRequestSize.toNat = .ok r ∧ c' = r.store c := by
  obtain ⟨accepted, h⟩ := h
  rw [ParseRtspRequest_turns _ _ _ q.aRequestSize.isLt] at h
  rcases hr : rtsp_reading.reading q.l q.aRequest q.aRequestSize.toNat with e | r
  · rw [hr] at h
    cases h
  · rw [hr] at h
    exact ⟨r, rfl, (Prod.mk.inj (Except.ok.inj h)).2.symm⟩

/-- No request reaches the last byte of the host. -/
theorem InOrder.host_end {r : Reading} (horder : InOrder r)
    {m_URLHostPort : Block RTSP_BUFFER_SIZE UInt8} (hend : m_URLHostPort.cell 9999 = 0) :
    (m_URLHostPort.put 0 (r.host.getD [])).cell 9999 = 0 := by
  rw [put_cell_outside, hend]
  right
  cases hhost : r.host with
  | none => exact Nat.zero_le _
  | some host =>
    have hlt := horder.hostFits host hhost
    rw [Option.getD_some]
    omega

theorem Reached.host_end [Libc] {c : TcpConnection} (h : Reached c) :
    c.m_URLHostPort.cell 9999 = 0 := by
  obtain ⟨qs, h⟩ := h
  refine h.invariant (fun _ c => c.m_URLHostPort.cell 9999 = 0) rfl ?_
  intro _ c q c' hc hstep
  obtain ⟨r, hr, rfl⟩ := hstep.reading
  exact (reading_inOrder q.aRequestSize.isLt hr).host_end hc

/-- The text of a host that is stored over an older one. -/
theorem host_string {old : Block RTSP_BUFFER_SIZE UInt8} {host : List UInt8}
    (hlen : host.length < 9999) (hend : old.cell 9999 = 0) :
    cString (old.put 0 host) 0 = .ok (upToNul host 0) ↔
      0 ∈ host ∨ old.cell host.length = 0 := by
  have hslice : (old.put 0 host).slice 0 10000 =
      host ++ (old.put 0 host).slice host.length (10000 - host.length) := by
    have happ := slice_append (old.put 0 host) 0 host.length (10000 - host.length)
    rwa [slice_put_self, Nat.zero_add, Nat.add_sub_cancel' (by omega)] at happ
  have hlast : (old.put 0 host).cell 9999 = 0 := by
    rw [put_cell_outside _ _ _ _ (Or.inr (by omega)), hend]
  have hnul : 0 ∈ (old.put 0 host).slice 0 10000 :=
    List.mem_map.mpr ⟨9999, List.mem_range.mpr (by decide), hlast⟩
  by_cases hzero : 0 ∈ host
  · refine iff_of_true ?_ (Or.inl hzero)
    rw [show cString (old.put 0 host) 0 = _ from cString_textAt hnul]
    apply congrArg Except.ok
    unfold textAt upToNul
    change List.takeWhile _ (Block.slice _ 0 10000) = _
    rw [hslice, List.drop_zero, takeWhile_append_stop]
    intro hnil
    have hall := List.dropWhile_eq_nil_iff.mp hnil 0 hzero
    simp at hall
  · constructor
    · intro hstring
      right
      by_contra hcell
      have hmore : textAt (old.put 0 host) 0 = upToNul host 0 :=
        Except.ok.inj ((cString_textAt hnul).symm.trans hstring)
      rw [upToNul_eq hzero, List.drop_zero] at hmore
      have hholds := holds_textAt hnul
      have hstop := hholds.cell _ le_rfl
      rw [hmore, List.getD_eq_default _ _ le_rfl,
        put_cell_outside _ _ _ _ (Or.inr (Nat.zero_add _).le)] at hstop
      exact hcell hstop
    · rintro (hmem | hcell)
      · exact absurd hmem hzero
      · exact cString_holds (holds_put_nul old host (hlen.trans (by decide)) hcell) 0
          (Nat.zero_le _)

/-- Two sessions hold the same URL and the same sequence number, as strings. -/
structure SameStrings (c c' : TcpConnection) : Prop where
  host : cString c.m_URLHostPort 0 = cString c'.m_URLHostPort 0
  preSuffix : cString c.m_URLPreSuffix 0 = cString c'.m_URLPreSuffix 0
  suffix : cString c.m_URLSuffix 0 = cString c'.m_URLSuffix 0
  seq : cString c.m_CSeq 0 = cString c'.m_CSeq 0

theorem cString_putPart {old : Block RTSP_PARAM_STRING_MAX UInt8} {part : List UInt8}
    (h : part.length < RTSP_PARAM_STRING_MAX) :
    cString (putPart old (some part)) 0 = .ok (upToNul part 0) :=
  cString_holds (holds_put old part h) 0 (Nat.zero_le _)

/-- Whatever came before, two sessions that accept a request with a URL hold
the same strings after it, and its host, exactly when what they held before
leaves a NUL right after the new host. -/
theorem histories_show_behind_the_host [Libc] {c1 c2 c1' c2' : TcpConnection} (h1 : Reached c1)
    (h2 : Reached c2) (l1 l2 : Locals) (aRequest : Request) (n : BitVec 32)
    (hp1 : ParseRtspRequest TURNS c1 l1 aRequest n.toNat = .ok (true, c1'))
    (hp2 : ParseRtspRequest TURNS c2 l2 aRequest n.toNat = .ok (true, c2')) {r : Reading}
    {host : List UInt8} (hr : reading l1 aRequest n.toNat = .ok r) (hurl : r.host = some host) :
    (SameStrings c1' c2' ∧ cString c1'.m_URLHostPort 0 = .ok (upToNul host 0) ∧
        cString c2'.m_URLHostPort 0 = .ok (upToNul host 0)) ↔
      0 ∈ host ∨
        c1.m_URLHostPort.cell host.length = 0 ∧ c2.m_URLHostPort.cell host.length = 0 := by
  rw [ParseRtspRequest_turns _ _ _ n.isLt, hr] at hp1
  rw [ParseRtspRequest_turns _ _ _ n.isLt] at hp2
  rcases hr2 : reading l2 aRequest n.toNat with e | r2
  · rw [hr2] at hp2
    cases hp2
  rw [hr2] at hp2
  obtain ⟨ha, rfl⟩ := Prod.mk.inj (Except.ok.inj hp1)
  obtain ⟨ha2, rfl⟩ := Prod.mk.inj (Except.ok.inj hp2)
  have horder := reading_inOrder n.isLt hr
  have hlen := horder.hostFits host hurl
  obtain ⟨hhost, suffix, preSuffix, seq, hs, hs2, hpre, hpre2, hseq, hseq2⟩ :=
    readings_agree n.isLt hr hr2 ha ha2
  rw [hurl] at hhost
  have hstring1 := host_string hlen h1.host_end
  have hstring2 := host_string hlen h2.host_end
  have hput1 : (r.store c1).m_URLHostPort = c1.m_URLHostPort.put 0 host := by
    change c1.m_URLHostPort.put 0 (r.host.getD []) = _
    rw [hurl]
    rfl
  have hput2 : (r2.store c2).m_URLHostPort = c2.m_URLHostPort.put 0 host := by
    change c2.m_URLHostPort.put 0 (r2.host.getD []) = _
    rw [← hhost]
    rfl
  rw [hput1, hput2, hstring1, hstring2]
  constructor
  · rintro ⟨-, hl, hr⟩
    rcases hl with hmem | hl
    · exact Or.inl hmem
    · rcases hr with hmem | hr
      · exact Or.inl hmem
      · exact Or.inr ⟨hl, hr⟩
  · intro hcond
    have hleft : 0 ∈ host ∨ c1.m_URLHostPort.cell host.length = 0 := hcond.imp_right (·.1)
    have hright : 0 ∈ host ∨ c2.m_URLHostPort.cell host.length = 0 := hcond.imp_right (·.2)
    refine ⟨⟨?_, ?_, ?_, ?_⟩, hleft, hright⟩
    · rw [hput1, hput2, hstring1.mpr hleft, hstring2.mpr hright]
    · have hfits := horder.preSuffixFits _ hpre
      change cString (putPart c1.m_URLPreSuffix r.preSuffix) 0 =
        cString (putPart c2.m_URLPreSuffix r2.preSuffix) 0
      rw [hpre, hpre2, cString_putPart hfits, cString_putPart hfits]
    · have hfits := horder.suffixFits _ hs
      change cString (putPart c1.m_URLSuffix r.suffix) 0 =
        cString (putPart c2.m_URLSuffix r2.suffix) 0
      rw [hs, hs2, cString_putPart hfits, cString_putPart hfits]
    · have hfits := horder.seqFits _ hseq
      change cString (putPart c1.m_CSeq r.seq) 0 = cString (putPart c2.m_CSeq r2.seq) 0
      rw [hseq, hseq2, cString_putPart hfits, cString_putPart hfits]

theorem afterLongHost_reached : Reached afterLongHost := by
  have hstep : ParseStep TcpConnection.init
      ⟨stackWith 44 [], Block.ofList (optionsFor (bytes "abc")) 0, 44⟩ afterLongHost :=
    ⟨true, afterLongHost_parsed⟩
  exact ⟨_, .next .start hstep⟩

theorem shortHost_accepted (c : TcpConnection) :
    ParseRtspRequest TURNS c (stackWith 42 [])
        (Block.ofList (optionsFor (bytes "h")) 0 : Request) 42 =
      .ok (true, (optionsReading (bytes "h")).store c) :=
  parse_received c (stackWith 42 []) (optionsFor (bytes "h"))
    (r := optionsReading (bytes "h")) (by decide +kernel) rfl (by decide +kernel)

theorem shortHost_reading :
    reading (stackWith 42 []) (Block.ofList (optionsFor (bytes "h")) 0 : Request) 42 =
      .ok (optionsReading (bytes "h")) :=
  (reading_received (stackWith 42 []) (optionsFor (bytes "h")) (by decide +kernel)
    rfl).trans (by decide +kernel)

/-- After a request for `abc` a session holds the host `hbc` for one for `h`. -/
theorem an_old_host_stays_behind_a_new_one :
    ¬ ∀ (c1 c2 c1' c2' : TcpConnection) (l : Locals) (aRequest : Request) (n : BitVec 32)
      (r : Reading), Reached c1 → Reached c2 →
      ParseRtspRequest TURNS c1 l aRequest n.toNat = .ok (true, c1') →
      ParseRtspRequest TURNS c2 l aRequest n.toNat = .ok (true, c2') →
      reading l aRequest n.toNat = .ok r → r.host.isSome = true → SameStrings c1' c2' := by
  intro h
  have hsame := h TcpConnection.init afterLongHost _ _ (stackWith 42 [])
    (Block.ofList (optionsFor (bytes "h")) 0) 42 _ ⟨[], .start⟩ afterLongHost_reached
    (shortHost_accepted _) (shortHost_accepted _) shortHost_reading rfl
  have hnew : cString (TcpConnection.init.m_URLHostPort.put 0 (bytes "h")) 0 =
      .ok (upToNul (bytes "h") 0) := (host_string (by decide) rfl).mpr (Or.inr rfl)
  have hold := hsame.host
  rw [optionsReading_host, optionsReading_host, hnew] at hold
  have hcell := (host_string (by decide) afterLongHost_reached.host_end).mp hold.symm
  revert hcell
  decide

/-- A session that has rejected a `PLAY`, and one that has accepted an `OPTIONS`
for another host, hold the same strings after a request for a longer host. -/
theorem two_histories_hold_the_same_strings :
    ∃ c1 c2 : TcpConnection, Reached c1 ∧ Reached c2 ∧ ¬ SameStrings c1 c2 ∧
      SameStrings ((optionsReading (bytes "wxyz")).store c1)
        ((optionsReading (bytes "wxyz")).store c2) ∧
      cString ((optionsReading (bytes "wxyz")).store c2).m_URLHostPort 0 = .ok (bytes "wxyz") := by
  have hrejected : Reached { TcpConnection.init with m_RtspCmdType := .RTSP_PLAY } := by
    have hstep : ParseStep TcpConnection.init
        ⟨stackWith 6 [], Block.ofList playFragment 0, 6⟩ _ := ⟨false, playFragment_rejected⟩
    exact ⟨_, .next .start hstep⟩
  have hread : readText (optionsFor (bytes "wxyz")) = .ok (optionsReading (bytes "wxyz")) := by
    decide +kernel
  have hlen : (optionsFor (bytes "wxyz")).length < 10000 := by decide +kernel
  have hboth := (histories_show_behind_the_host hrejected afterLongHost_reached (stackWith 45 [])
    (stackWith 45 []) (Block.ofList (optionsFor (bytes "wxyz")) 0) 45
    (parse_received _ (stackWith 45 []) _ hlen rfl hread)
    (parse_received _ (stackWith 45 []) _ hlen rfl hread)
    ((reading_received (stackWith 45 []) _ hlen rfl).trans hread) rfl).mpr (Or.inr ⟨rfl, rfl⟩)
  refine ⟨_, _, hrejected, afterLongHost_reached, ?_, hboth.1, hboth.2.2⟩
  intro hsame
  have hseq := hsame.seq
  revert hseq
  decide +kernel

end payloader.rtsp_history
