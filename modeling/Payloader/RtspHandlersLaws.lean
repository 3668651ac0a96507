-- What the handlers do: the texts that each sends for the strings that the
-- object holds, and the members that they leave alone.
import Payloader.RtspHandlers
import Payloader.RtspHistory

set_option autoImplicit false

namespace payloader.rtsp_handlers_laws

open payloader.memory payloader.machines payloader.c_strings payloader.printing
open payloader.streamer payloader.rtsp_parser payloader.rtsp_parser_laws
open payloader.rtsp_reading payloader.rtsp_reading_laws payloader.rtsp_stack
open payloader.rtsp_history payloader.rtsp_handlers

/-! ## Strings -/

/-- The strings that the handlers read. -/
structure Strings (c : Connection) (m_CSeq buf_Date m_URLPreSuffix m_URLSuffix m_URLHostPort :
    List UInt8) : Prop where
  seq : cString c.m_CSeq 0 = .ok m_CSeq
  date : cString c.buf_Date 0 = .ok buf_Date
  preSuffix : cString c.m_URLPreSuffix 0 = .ok m_URLPreSuffix
  suffix : cString c.m_URLSuffix 0 = .ok m_URLSuffix
  host : cString c.m_URLHostPort 0 = .ok m_URLHostPort

variable {c : Connection} {host : Host}
variable {m_CSeq buf_Date m_URLPreSuffix m_URLSuffix m_URLHostPort : List UInt8}

theorem OPTION_eq (h : Strings c m_CSeq buf_Date m_URLPreSuffix m_URLSuffix m_URLHostPort) :
    Handle_RtspOPTION c host = .ok (c, host, [snprintf 1024 (optionsText m_CSeq)]) := by
  unfold Handle_RtspOPTION
  rw [h.seq, ok_bind]

theorem PAUSE_eq (h : Strings c m_CSeq buf_Date m_URLPreSuffix m_URLSuffix m_URLHostPort) :
    Handle_RtspPAUSE c host =
      .ok (c, host, [snprintf 1024 (pauseText m_CSeq buf_Date c.m_RtspSessionID)]) := by
  unfold Handle_RtspPAUSE
  rw [h.seq, ok_bind, h.date, ok_bind]

theorem PLAY_eq (h : Strings c m_CSeq buf_Date m_URLPreSuffix m_URLSuffix m_URLHostPort) :
    Handle_RtspPLAY c host = .ok ({ c with connected := true }, host,
      [snprintf 1024 (playText m_CSeq buf_Date c.m_RtspSessionID)]) := by
  unfold Handle_RtspPLAY
  rw [h.seq, ok_bind, h.date, ok_bind]

/-- Over TCP nothing is sent. -/
theorem SETUP_tcp (host : Host) (free : BitVec 16 → Bool) (htcp : c.m_TcpTransport = true) :
    ∃ s, c.m_Streamer.InitTransport free host c.m_ClientRTPPort c.m_ClientRTCPPort true =
        .ok (s, host) ∧
      Handle_RtspSETUP free c host = .ok ({ c with m_Streamer := s }, host, []) := by
  refine ⟨_, InitTransport_tcp free _ host _ _, ?_⟩
  unfold Handle_RtspSETUP
  rw [htcp, InitTransport_tcp, ok_bind]
  simp only
  rw [if_pos htcp]

theorem SETUP_udp (host : Host)
    (h : Strings c m_CSeq buf_Date m_URLPreSuffix m_URLSuffix m_URLHostPort)
    (free : BitVec 16 → Bool) (htcp : c.m_TcpTransport = false) :
    ∃ s host', c.m_Streamer.InitTransport free host c.m_ClientRTPPort c.m_ClientRTCPPort false =
        .ok (s, host') ∧
      Handle_RtspSETUP free c host = .ok ({ c with m_Streamer := s }, host',
        [snprintf 1024 (setupText m_CSeq buf_Date (snprintf 255 (transportText c.m_ClientRTPPort
          c.m_ClientRTCPPort s.m_RtpServerPort s.m_RtcpServerPort)) c.m_RtspSessionID)]) := by
  obtain ⟨⟨s, host'⟩, hinit⟩ :=
    InitTransport_ok free c.m_Streamer host c.m_ClientRTPPort c.m_ClientRTCPPort false
  refine ⟨s, host', hinit, ?_⟩
  unfold Handle_RtspSETUP
  rw [htcp, hinit, ok_bind]
  simp only
  rw [if_neg (by rw [htcp]; decide), h.seq, ok_bind, h.date, ok_bind]

/-- The copy of the host is cut at its first colon. -/
def beforeColon (text : List UInt8) : List UInt8 :=
  match find (bytes ":") text with
  | none => text
  | some p => text.take p

theorem hostOnly_ok {b : Block RTSP_BUFFER_SIZE UInt8} {text : List UInt8} (OBuf : Block 256 UInt8)
    (h : cString b 0 = .ok text) (hnul : 0 ∉ text) (hfit : text.length < 256) :
    hostOnly OBuf b = .ok (beforeColon text) := by
  have hholds := holds_put OBuf text hfit
  unfold hostOnly beforeColon
  rw [strcpy_holds OBuf h hfit, ok_bind, strstr_holds hholds (Nat.zero_le _), upToNul_eq hnul,
    List.drop_zero, ok_bind]
  rcases hp : find (bytes ":") text with _ | p
  · exact hholds.cString hnul
  have hlt : p + 1 ≤ text.length := find_le (by decide) hp
  have hstore : (OBuf.put 0 (text ++ [0])).store p 0 = .ok ((OBuf.put 0 (text ++ [0])).put p [0]) :=
    if_pos (by omega)
  simp only [Option.map_some, Nat.zero_add]
  rw [hstore, ok_bind, cString_holds (holds_set hholds hlt) 0 (Nat.zero_le _),
    upToNul_set hnul hlt]

theorem hostOnly_long {b : Block RTSP_BUFFER_SIZE UInt8} {text : List UInt8}
    (OBuf : Block 256 UInt8) (h : cString b 0 = .ok text) (hlong : 256 ≤ text.length) :
    hostOnly OBuf b = .error .write := by
  have hcopy : strcpy OBuf 0 b 0 = .error .write := by
    unfold strcpy
    rw [h]
    exact if_neg (by omega)
  unfold hostOnly
  rw [hcopy]
  rfl

theorem DESCRIBE_unknown
    (h : Strings c m_CSeq buf_Date m_URLPreSuffix m_URLSuffix m_URLHostPort)
    (OBuf : Block 256 UInt8) (hid : streamID m_URLPreSuffix m_URLSuffix = -1) :
    Handle_RtspDESCRIBE OBuf c host = .ok ({ c with m_StreamID := -1 }, host,
      [snprintf 1024 (notFoundText m_CSeq buf_Date)]) := by
  unfold Handle_RtspDESCRIBE
  rw [h.preSuffix, ok_bind, h.suffix, ok_bind, hid]
  simp only
  rw [h.seq, ok_bind, h.date, ok_bind, if_pos trivial]

/-- The answer to a request for a known stream. -/
def describeReply (buf_Date m_URLHostPort m_CSeq : List UInt8) (id : Int) : List UInt8 :=
  describeText buf_Date
    (snprintf 1024 (urlText m_URLHostPort (if id = 0 then bytes "ej/1" else bytes "ej/2"))) m_CSeq
    (snprintf 1024 (sdpText (beforeColon m_URLHostPort)))

theorem DESCRIBE_known
    (h : Strings c m_CSeq buf_Date m_URLPreSuffix m_URLSuffix m_URLHostPort)
    (OBuf : Block 256 UInt8) (hid : streamID m_URLPreSuffix m_URLSuffix ≠ -1)
    (hfit : m_URLHostPort.length < 256) :
    Handle_RtspDESCRIBE OBuf c host =
      .ok ({ c with m_StreamID := streamID m_URLPreSuffix m_URLSuffix }, host,
        [snprintf 1024 (describeReply buf_Date m_URLHostPort m_CSeq
          (streamID m_URLPreSuffix m_URLSuffix))]) := by
  have hnul : 0 ∉ m_URLHostPort := by
    rw [(cString_ok h.host).2]
    exact nul_notMem_textAt _ _
  unfold Handle_RtspDESCRIBE
  rw [h.preSuffix, ok_bind, h.suffix, ok_bind]
  simp only
  rw [h.seq, ok_bind, h.date, ok_bind, if_neg hid, hostOnly_ok OBuf h.host hnul hfit, ok_bind,
    h.host, ok_bind]
  rfl

theorem DESCRIBE_long
    (h : Strings c m_CSeq buf_Date m_URLPreSuffix m_URLSuffix m_URLHostPort)
    (OBuf : Block 256 UInt8) (hid : streamID m_URLPreSuffix m_URLSuffix ≠ -1)
    (hlong : 256 ≤ m_URLHostPort.length) :
    Handle_RtspDESCRIBE OBuf c host = .error .write := by
  unfold Handle_RtspDESCRIBE
  rw [h.preSuffix, ok_bind, h.suffix, ok_bind]
  simp only
  rw [h.seq, ok_bind, h.date, ok_bind, if_neg hid, hostOnly_long OBuf h.host hlong]
  rfl

/-! ## The switch -/

/-- The copy of the host in a `DESCRIBE` of a known stream fits its array. -/
def HostFits (type : RTSP_CMD_TYPES) (m_URLPreSuffix m_URLSuffix m_URLHostPort : List UInt8) :
    Prop :=
  type = .RTSP_DESCRIBE → streamID m_URLPreSuffix m_URLSuffix ≠ -1 → m_URLHostPort.length < 256

/-- The texts that a command is answered with. `s` is the streamer after it. -/
def answers (c : Connection) (s : Streamer)
    (m_CSeq buf_Date m_URLPreSuffix m_URLSuffix m_URLHostPort : List UInt8) : List (List UInt8) :=
  match c.m_RtspCmdType with
  | .RTSP_OPTIONS => [snprintf 1024 (optionsText m_CSeq)]
  | .RTSP_DESCRIBE =>
    if streamID m_URLPreSuffix m_URLSuffix = -1 then [snprintf 1024 (notFoundText m_CSeq buf_Date)]
    else [snprintf 1024 (describeReply buf_Date m_URLHostPort m_CSeq
      (streamID m_URLPreSuffix m_URLSuffix))]
  | .RTSP_SETUP =>
    if c.m_TcpTransport then []
    else [snprintf 1024 (setupText m_CSeq buf_Date (snprintf 255 (transportText c.m_ClientRTPPort
      c.m_ClientRTCPPort s.m_RtpServerPort s.m_RtcpServerPort)) c.m_RtspSessionID)]
  | .RTSP_PLAY => [snprintf 1024 (playText m_CSeq buf_Date c.m_RtspSessionID)]
  | .RTSP_PAUSE => [snprintf 1024 (pauseText m_CSeq buf_Date c.m_RtspSessionID)]
  | _ => []

/-- A handler returns when the host fits. It leaves what the parser has
written, and only a `SETUP` changes the streamer. -/
theorem handle_ok (host : Host)
    (h : Strings c m_CSeq buf_Date m_URLPreSuffix m_URLSuffix m_URLHostPort)
    (w : World) (hfits : HostFits c.m_RtspCmdType m_URLPreSuffix m_URLSuffix m_URLHostPort) :
    ∃ c' host', handle w c host = .ok (c', host', answers c c'.m_Streamer m_CSeq buf_Date
        m_URLPreSuffix m_URLSuffix m_URLHostPort) ∧
      c'.toTcpConnection = c.toTcpConnection ∧
      (c.m_RtspCmdType = .RTSP_SETUP →
        c.m_Streamer.InitTransport w.free host c.m_ClientRTPPort c.m_ClientRTCPPort
          c.m_TcpTransport = .ok (c'.m_Streamer, host')) ∧
      (c.m_RtspCmdType ≠ .RTSP_SETUP → c'.m_Streamer = c.m_Streamer ∧ host' = host) := by
  unfold handle answers
  cases htype : c.m_RtspCmdType with
  | RTSP_OPTIONS => exact ⟨c, host, OPTION_eq h, rfl, nofun, fun _ => ⟨rfl, rfl⟩⟩
  | RTSP_PAUSE => exact ⟨c, host, PAUSE_eq h, rfl, nofun, fun _ => ⟨rfl, rfl⟩⟩
  | RTSP_PLAY =>
    exact ⟨{ c with connected := true }, host, PLAY_eq h, rfl, nofun, fun _ => ⟨rfl, rfl⟩⟩
  | RTSP_TEARDOWN => exact ⟨c, host, rfl, rfl, nofun, fun _ => ⟨rfl, rfl⟩⟩
  | RTSP_UNKNOWN => exact ⟨c, host, rfl, rfl, nofun, fun _ => ⟨rfl, rfl⟩⟩
  | RTSP_DESCRIBE =>
    by_cases hid : streamID m_URLPreSuffix m_URLSuffix = -1
    · rw [if_pos hid]
      exact ⟨_, host, DESCRIBE_unknown h w.OBuf hid, rfl, nofun, fun _ => ⟨rfl, rfl⟩⟩
    · rw [if_neg hid]
      exact ⟨_, host, DESCRIBE_known h w.OBuf hid (hfits htype hid), rfl, nofun,
        fun _ => ⟨rfl, rfl⟩⟩
  | RTSP_SETUP =>
    by_cases htcp : c.m_TcpTransport = true
    · obtain ⟨s, hinit, hs⟩ := SETUP_tcp host w.free htcp
      refine ⟨{ c with m_Streamer := s }, host, ?_, rfl, fun _ => ?_, fun hne => absurd rfl hne⟩
      · simp only
        rw [if_pos htcp]
        exact hs
      · rw [htcp]
        exact hinit
    · have hudp : c.m_TcpTransport = false := eq_false_of_ne_true htcp
      obtain ⟨s, host', hinit, hs⟩ := SETUP_udp host h w.free hudp
      refine ⟨{ c with m_Streamer := s }, host', ?_, rfl, fun _ => ?_, fun hne => absurd rfl hne⟩
      · simp only
        rw [if_neg htcp]
        exact hs
      · rw [hudp]
        exact hinit

/-- It does not return when the host is too long. -/
theorem handle_long (host : Host)
    (h : Strings c m_CSeq buf_Date m_URLPreSuffix m_URLSuffix m_URLHostPort)
    (w : World) (hlong : ¬ HostFits c.m_RtspCmdType m_URLPreSuffix m_URLSuffix m_URLHostPort) :
    handle w c host = .error .write := by
  unfold HostFits at hlong
  simp only [not_forall] at hlong
  obtain ⟨htype, hid, hlen⟩ := hlong
  unfold handle
  rw [htype]
  exact DESCRIBE_long h w.OBuf hid (Nat.le_of_not_lt hlen)

/-! ## Requests -/

/-- The object when the handler of an accepted request runs. -/
def parsedBy (w : World) (c : Connection) (r : Reading) : Connection :=
  { c with toTcpConnection := r.store c.toTcpConnection }.DateHeader w.tm

/-- The string in the array of the host, once a request has stored its own. -/
def hostString (c : Connection) (r : Reading) : List UInt8 :=
  textAt (c.m_URLHostPort.put 0 (r.host.getD [])) 0

/-- An accepted request names its path and its sequence number. -/
theorem accepted_parts [Libc] {size n : Nat} {l : Locals} {aRequest : Block size UInt8}
    {r : Reading} (hn : n < 2 ^ 32) (h : reading l aRequest n = .ok r) (hr : r.accepted = true) :
    ∃ suffix preSuffix seq, r.suffix = some suffix ∧ r.preSuffix = some preSuffix ∧
      r.seq = some seq := by
  obtain ⟨-, suffix, preSuffix, seq, hs, -, hpre, -, hseq, -⟩ := readings_agree hn h h hr hr
  exact ⟨suffix, preSuffix, seq, hs, hpre, hseq⟩

/-- No request reaches the last byte of the host, so there is a NUL in it. -/
theorem hostString_read {c : Connection} {r : Reading} (horder : InOrder r)
    (hend : c.m_URLHostPort.cell 9999 = 0) :
    cString (c.m_URLHostPort.put 0 (r.host.getD [])) 0 = .ok (hostString c r) := by
  refine cString_textAt (List.mem_map.mpr ⟨9999, List.mem_range.mpr (by decide), ?_⟩)
  exact horder.host_end hend

theorem strings_parsedBy (w : World) {c : Connection} {r : Reading} (horder : InOrder r)
    (hend : c.m_URLHostPort.cell 9999 = 0) {suffix preSuffix seq : List UInt8}
    (hs : r.suffix = some suffix) (hpre : r.preSuffix = some preSuffix) (hseq : r.seq = some seq) :
    Strings (parsedBy w c r) (upToNul seq 0) (strftime w.tm) (upToNul preSuffix 0)
      (upToNul suffix 0) (hostString c r) where
  seq := by
    change cString (putPart c.m_CSeq r.seq) 0 = _
    rw [hseq, cString_putPart (horder.seqFits _ hseq)]
  date := by
    have hdate := strftime_plain w.tm
    have hlen := strftime_length w.tm
    exact (holds_put c.buf_Date (strftime w.tm) (by omega)).cString
      (fun hmem => (hdate 0 hmem).1 rfl)
  preSuffix := by
    change cString (putPart c.m_URLPreSuffix r.preSuffix) 0 = _
    rw [hpre, cString_putPart (horder.preSuffixFits _ hpre)]
  suffix := by
    change cString (putPart c.m_URLSuffix r.suffix) 0 = _
    rw [hs, cString_putPart (horder.suffixFits _ hs)]
  host := hostString_read horder hend

/-- A request that can be read: the session holds its reading, and when it is
accepted its handler runs on the session with a new date. -/
theorem Handle_read [Libc] {size n : Nat} {w : World} {c : Connection} (host : Host)
    {aRequest : Block size UInt8} {r : Reading} (hn : n < 2 ^ 32)
    (hr : reading w.l aRequest n = .ok r) :
    Handle_RtspRequest w c host aRequest n =
      if r.accepted then
        (handle w (parsedBy w c r) host).map (fun a =>
          { C := a.1.m_RtspCmdType, parsed := true, handler := handlerOf (r.type c.m_RtspCmdType),
            c := a.1, host := a.2.1, sent := a.2.2 })
      else
        .ok { C := r.type c.m_RtspCmdType, parsed := false, handler := none,
              c := { c with toTcpConnection := r.store c.toTcpConnection }, host, sent := [] } := by
  unfold Handle_RtspRequest
  rw [ParseRtspRequest_turns _ _ _ hn, hr]
  simp only [Except.map, ok_bind]
  cases r.accepted with
  | false => rfl
  | true =>
    rw [if_pos rfl, if_pos rfl]
    unfold parsedBy
    rcases handle w _ host with e | a <;> rfl

theorem Handle_rejected [Libc] {size n : Nat} {w : World} {c : Connection} (host : Host)
    {aRequest : Block size UInt8} {r : Reading} (hn : n < 2 ^ 32)
    (hr : reading w.l aRequest n = .ok r) (hrejected : r.accepted = false) :
    Handle_RtspRequest w c host aRequest n =
      .ok { C := r.type c.m_RtspCmdType, parsed := false, handler := none,
            c := { c with toTcpConnection := r.store c.toTcpConnection }, host, sent := [] } := by
  rw [Handle_read host hn hr, hrejected, if_neg Bool.false_ne_true]

/-- The texts that an accepted request is answered with. `s` is the streamer
after it. -/
def answersTo (w : World) (c : Connection) (s : Streamer) (r : Reading) : List (List UInt8) :=
  answers (parsedBy w c r) s (upToNul (r.seq.getD []) 0) (strftime w.tm)
    (upToNul (r.preSuffix.getD []) 0) (upToNul (r.suffix.getD []) 0) (hostString c r)

/-- The host in a `DESCRIBE` of a known stream fits the array for it. -/
def FitsHost (c : Connection) (r : Reading) : Prop :=
  HostFits (r.type c.m_RtspCmdType) (upToNul (r.preSuffix.getD []) 0)
    (upToNul (r.suffix.getD []) 0) (hostString c r)

/-- What an accepted request does. -/
theorem Handle_accepted [Libc] {size n : Nat} {w : World} {c : Connection} (host : Host)
    {aRequest : Block size UInt8} {r : Reading} (hn : n < 2 ^ 32)
    (hr : reading w.l aRequest n = .ok r) (haccepted : r.accepted = true)
    (hend : c.m_URLHostPort.cell 9999 = 0) (hfits : FitsHost c r) :
    ∃ c' host', Handle_RtspRequest w c host aRequest n =
        .ok { C := r.type c.m_RtspCmdType, parsed := true,
              handler := handlerOf (r.type c.m_RtspCmdType), c := c', host := host',
              sent := answersTo w c c'.m_Streamer r } ∧
      c'.toTcpConnection = r.store c.toTcpConnection ∧
      (r.type c.m_RtspCmdType = .RTSP_SETUP →
        c.m_Streamer.InitTransport w.free host (r.store c.toTcpConnection).m_ClientRTPPort
          (r.store c.toTcpConnection).m_ClientRTCPPort (r.store c.toTcpConnection).m_TcpTransport =
            .ok (c'.m_Streamer, host')) ∧
      (r.type c.m_RtspCmdType ≠ .RTSP_SETUP → c'.m_Streamer = c.m_Streamer ∧ host' = host) := by
  obtain ⟨suffix, preSuffix, seq, hs, hpre, hseq⟩ := accepted_parts hn hr haccepted
  have hstrings := strings_parsedBy w (reading_inOrder hn hr) hend hs hpre hseq
  unfold FitsHost at hfits
  rw [hpre, hs] at hfits
  obtain ⟨c', host', hhandle, hkept, hsetup, hother⟩ := handle_ok host hstrings w hfits
  have hC : c'.m_RtspCmdType = r.type c.m_RtspCmdType :=
    congrArg TcpConnection.m_RtspCmdType hkept
  refine ⟨c', host', ?_, hkept, hsetup, hother⟩
  rw [Handle_read host hn hr, haccepted, if_pos rfl, hhandle]
  unfold answersTo
  rw [hs, hpre, hseq, ← hC]
  rfl

theorem Handle_long [Libc] {size n : Nat} {w : World} {c : Connection} (host : Host)
    {aRequest : Block size UInt8} {r : Reading} (hn : n < 2 ^ 32)
    (hr : reading w.l aRequest n = .ok r) (haccepted : r.accepted = true)
    (hend : c.m_URLHostPort.cell 9999 = 0) (hlong : ¬ FitsHost c r) :
    Handle_RtspRequest w c host aRequest n = .error .write := by
  obtain ⟨suffix, preSuffix, seq, hs, hpre, hseq⟩ := accepted_parts hn hr haccepted
  have hstrings := strings_parsedBy w (reading_inOrder hn hr) hend hs hpre hseq
  unfold FitsHost at hlong
  rw [hpre, hs] at hlong
  rw [Handle_read host hn hr, haccepted, if_pos rfl, handle_long host hstrings w hlong]
  rfl

theorem Handle_unread [Libc] {size n : Nat} {w : World} {c : Connection} (host : Host)
    {aRequest : Block size UInt8} {e : Fault} (hn : n < 2 ^ 32)
    (hr : reading w.l aRequest n = .error e) :
    Handle_RtspRequest w c host aRequest n = .error e := by
  unfold Handle_RtspRequest
  rw [ParseRtspRequest_turns _ _ _ hn, hr]
  rfl

/-- What a request that is handled does: the session holds its reading, and
only an accepted `SETUP` changes the streamer. -/
theorem Handle_cases [Libc] {size n : Nat} {w : World} {c : Connection} {host : Host}
    {aRequest : Block size UInt8} {res : Handled} (hn : n < 2 ^ 32)
    (hend : c.m_URLHostPort.cell 9999 = 0)
    (h : Handle_RtspRequest w c host aRequest n = .ok res) :
    ∃ r, reading w.l aRequest n = .ok r ∧ res.C = r.type c.m_RtspCmdType ∧
      res.parsed = r.accepted ∧ res.c.toTcpConnection = r.store c.toTcpConnection ∧
      (r.accepted = true ∧ r.type c.m_RtspCmdType = .RTSP_SETUP →
        c.m_Streamer.InitTransport w.free host (r.store c.toTcpConnection).m_ClientRTPPort
          (r.store c.toTcpConnection).m_ClientRTCPPort (r.store c.toTcpConnection).m_TcpTransport =
            .ok (res.c.m_Streamer, res.host)) ∧
      (¬ (r.accepted = true ∧ r.type c.m_RtspCmdType = .RTSP_SETUP) →
        res.c.m_Streamer = c.m_Streamer ∧ res.host = host) := by
  rcases hr : reading w.l aRequest n with e | r
  · rw [Handle_unread _ hn hr] at h
    cases h
  refine ⟨r, rfl, ?_⟩
  by_cases haccepted : r.accepted = true
  · by_cases hfits : FitsHost c r
    · obtain ⟨c', host', hok, hkept, hsetup, hother⟩ :=
        Handle_accepted host hn hr haccepted hend hfits
      rw [hok] at h
      cases h
      exact ⟨rfl, haccepted.symm, hkept, fun hs => hsetup hs.2,
        fun hs => hother (fun htype => hs ⟨haccepted, htype⟩)⟩
    · rw [Handle_long host hn hr haccepted hend hfits] at h
      cases h
  · rw [Handle_rejected host hn hr (eq_false_of_ne_true haccepted)] at h
    cases h
    exact ⟨rfl, (eq_false_of_ne_true haccepted).symm, rfl, fun hs => absurd hs.1 haccepted,
      fun _ => ⟨rfl, rfl⟩⟩

/-- It does not reach the last byte of the host either. -/
theorem Handle_host_end [Libc] {size n : Nat} {w : World} {c : Connection} {host : Host}
    {aRequest : Block size UInt8} {res : Handled} (hn : n < 2 ^ 32)
    (hend : c.m_URLHostPort.cell 9999 = 0)
    (h : Handle_RtspRequest w c host aRequest n = .ok res) :
    res.c.m_URLHostPort.cell 9999 = 0 := by
  obtain ⟨r, hr, -, -, hkept, -⟩ := Handle_cases hn hend h
  rw [hkept]
  exact (reading_inOrder hn hr).host_end hend

/-- The descriptors of a session are ones that were given out. -/
theorem Handle_fresh [Libc] {size n : Nat} {w : World} {c : Connection} {host : Host}
    {aRequest : Block size UInt8} {res : Handled} (hn : n < 2 ^ 32)
    (hend : c.m_URLHostPort.cell 9999 = 0) (hfresh : host.Fresh)
    (h : Handle_RtspRequest w c host aRequest n = .ok res) : res.host.Fresh := by
  obtain ⟨r, -, -, -, -, hsetup, hother⟩ := Handle_cases hn hend h
  by_cases hs : r.accepted = true ∧ r.type c.m_RtspCmdType = .RTSP_SETUP
  · exact InitTransport_fresh hfresh (hsetup hs)
  · rw [(hother hs).2]
    exact hfresh

/-! ## Sessions -/

/-- A request as it is handed to a session. -/
structure Received where
  w : World
  aRequest : Request
  aRequestSize : BitVec 32

def HandleStep [Libc] (s : Connection × Host) (q : Received) (s' : Connection × Host) : Prop :=
  ∃ res, Handle_RtspRequest q.w s.1 s.2 q.aRequest q.aRequestSize.toNat = .ok res ∧
    s' = (res.c, res.host)

/-- What a new session can come to, by any requests. -/
def Reachable [Libc] (c : Connection) (host : Host) : Prop :=
  ∃ rand1 rand2 buf_Date m_Streamer qs, Reaches HandleStep
    (Connection.init rand1 rand2 buf_Date m_Streamer, Host.init) qs (c, host)

theorem HandleStep.host_end [Libc] {s s' : Connection × Host} {q : Received} (h : HandleStep s q s')
    (hend : s.1.m_URLHostPort.cell 9999 = 0) : s'.1.m_URLHostPort.cell 9999 = 0 := by
  obtain ⟨res, hres, rfl⟩ := h
  exact Handle_host_end q.aRequestSize.isLt hend hres

theorem Reachable.host_end [Libc] {c : Connection} {host : Host} (h : Reachable c host) :
    c.m_URLHostPort.cell 9999 = 0 := by
  obtain ⟨rand1, rand2, buf_Date, m_Streamer, qs, h⟩ := h
  exact h.invariant (fun _ s => s.1.m_URLHostPort.cell 9999 = 0) rfl
    (fun _ _ _ _ hend hstep => hstep.host_end hend)

/-! ## A new session -/

/-- A session whose memory held zeros. -/
def newConnection : Connection :=
  Connection.init 0 0 (Block.ofList [] 0)
    { m_RtpSocket := 0, m_RtcpSocket := 0, m_RtpClientPort := 0, m_RtcpClientPort := 0,
      m_RtpServerPort := 0, m_RtcpServerPort := 0, m_TCPTransport := false, m_Client := 0 }

theorem newConnection_reachable : Reachable newConnection Host.init := ⟨_, _, _, _, [], .start⟩

/-- A stack with NULs after `n` bytes, at the start of 1970, and every port is
free. -/
def quietWorld (n : Nat) : World where
  l := stackWith n []
  OBuf := Block.ofList [] 0
  tm := { tm_sec := 0, tm_min := 0, tm_hour := 0, tm_mday := 1, tm_mon := 0, tm_year := 70,
          tm_wday := 4 }
  free := fun _ => true

end payloader.rtsp_handlers_laws
