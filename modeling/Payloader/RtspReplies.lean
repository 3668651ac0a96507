-- The answers as a client reads them: lines up to an empty one, and of these
-- lines exactly one for the sequence number.
import Payloader.RtspAnswers
import Payloader.RtspSequence

set_option autoImplicit false

namespace payloader.rtsp_replies

open payloader.memory payloader.machines payloader.c_strings payloader.printing payloader.lines
open payloader.streamer payloader.rtsp_parser payloader.rtsp_reading payloader.rtsp_reading_laws
open payloader.rtsp_stack payloader.rtsp_history payloader.rtsp_handlers
open payloader.rtsp_handlers_laws payloader.rtsp_answers payloader.rtsp_sequence

variable {m_CSeq body text l host date : List UInt8} {as bs ls : List (List UInt8)}

/-! ## Complete heads -/

/-- The line of the sequence number. -/
def cseqLine (m_CSeq : List UInt8) : List UInt8 := bytes "CSeq: " ++ m_CSeq

/-- The lines of the head with an empty line after them, and then a part of the
body. One line gives the sequence number, and no other line names one. -/
def Complete (seq body text : List UInt8) : Prop :=
  ∃ ls rest, Head ls text rest ∧
    (ls.filter (fun l => Names (bytes "cseq") l)).map (valueOf ':') = [seq] ∧ rest <+: body

/-- A line that names no sequence number. -/
structure Field (l : List UInt8) : Prop where
  plain : Plain l
  filled : l ≠ []
  other : ¬ Names (bytes "cseq") l

theorem Field.append (h : Field l) (hcolon : ch ':' ∈ l) {v : List UInt8} (hv : Plain v) :
    Field (l ++ v) :=
  ⟨h.plain.append hv, List.append_ne_nil_of_left_ne_nil h.filled v,
    fun hnames => h.other ((names_append hcolon v).mp hnames)⟩

theorem cseqLine_names (m_CSeq : List UInt8) : Names (bytes "cseq") (cseqLine m_CSeq) :=
  (names_append (by decide) m_CSeq).mpr (by decide)

theorem cseqLine_plain (hseq : Plain m_CSeq) : Plain (cseqLine m_CSeq) :=
  Plain.append (by decide) hseq

theorem cseqLine_filled (m_CSeq : List UInt8) : cseqLine m_CSeq ≠ [] :=
  List.append_ne_nil_of_left_ne_nil (by decide) _

/-- A head in which one line gives the sequence number is complete. -/
theorem complete_head {rest : List UInt8} (h : Head (as ++ cseqLine m_CSeq :: bs) text rest)
    (hother : ∀ l ∈ as ++ bs, ¬ Names (bytes "cseq") l) (hrest : rest <+: body) :
    Complete (trim m_CSeq) body text := by
  refine ⟨_, rest, h, ?_, hrest⟩
  have hnone : ∀ ms : List (List UInt8), (∀ l ∈ ms, l ∈ as ++ bs) →
      ms.filter (fun l => Names (bytes "cseq") l) = [] := by
    intro ms hms
    rw [List.filter_eq_nil_iff]
    exact fun l hl => by simpa using hother l (hms l hl)
  rw [List.filter_append, hnone as (fun l hl => List.mem_append_left _ hl),
    List.filter_cons_of_pos (by simpa using cseqLine_names m_CSeq),
    hnone bs (fun l hl => List.mem_append_right _ hl)]
  rfl

/-- A head of fields is complete. -/
theorem complete_fields (hseq : Plain m_CSeq) (h : ∀ l ∈ as ++ bs, Field l) :
    Complete (trim m_CSeq) [] (lined (as ++ cseqLine m_CSeq :: bs) ++ crlf) := by
  have hline : ∀ l ∈ as ++ cseqLine m_CSeq :: bs, Plain l ∧ l ≠ [] := by
    intro l hl
    rcases List.mem_append.mp hl with hl | hl
    · have hfield := h l (List.mem_append_left _ hl)
      exact ⟨hfield.plain, hfield.filled⟩
    · rcases List.mem_cons.mp hl with rfl | hl
      · exact ⟨cseqLine_plain hseq, cseqLine_filled m_CSeq⟩
      · have hfield := h l (List.mem_append_right _ hl)
        exact ⟨hfield.plain, hfield.filled⟩
  have hended := ended_lined (fun l hl => (hline l hl).1)
    (List.append_ne_nil_of_right_ne_nil as (List.cons_ne_nil _ _))
  have hhead := hended.head (fun l hl => (hline l hl).2) []
  rw [List.append_nil] at hhead
  exact complete_head hhead (fun l hl => (h l hl).other) List.nil_prefix

/-- What a complete head names is the only thing it can name. -/
theorem Complete.unique {seq seq' : List UInt8} (h : Complete seq body text)
    (h' : Complete seq' body text) : seq' = seq := by
  obtain ⟨ls, rest, hhead, hseq, -⟩ := h
  obtain ⟨ls', rest', hhead', hseq', -⟩ := h'
  obtain rfl := hhead.unique hhead'
  exact List.singleton_inj.mp (hseq'.symm.trans hseq)

/-! ## The answers with no host -/

/-- The line that every answer but that to `DESCRIBE` starts with. -/
def okLine : List UInt8 := bytes "RTSP/1.0 200 OK"

theorem okLine_field : Field okLine := ⟨by decide, by decide, by decide⟩

theorem optionsText_complete (hseq : Plain m_CSeq) :
    Complete (trim m_CSeq) [] (optionsText m_CSeq) := by
  have htext : optionsText m_CSeq = lined ([okLine] ++ cseqLine m_CSeq ::
      [bytes "Public: DESCRIBE, SETUP, TEARDOWN, PLAY, PAUSE"]) ++ crlf := by
    simp [optionsText, lined, okLine, cseqLine, crlf, bytes, ch]
  rw [htext]
  apply complete_fields hseq
  rw [List.singleton_append, List.forall_mem_cons, List.forall_mem_singleton]
  exact ⟨okLine_field, ⟨by decide, by decide, by decide⟩⟩

/-- A field of the answers that a number ends. -/
theorem session_field (m_RtspSessionID : BitVec 32) {v : List UInt8} (hv : Plain v) :
    Field (bytes "Session: " ++ (printInt m_RtspSessionID.toInt ++ v)) :=
  Field.append ⟨by decide, by decide, by decide⟩ (by decide) ((printInt_plain _).append hv)

theorem pauseText_complete (hseq : Plain m_CSeq) (hdate : Field date) (id : BitVec 32) :
    Complete (trim m_CSeq) [] (pauseText m_CSeq date id) := by
  have htext : pauseText m_CSeq date id = lined ([okLine] ++ cseqLine m_CSeq ::
      [date, bytes "Range: npt=339.072020-", bytes "Session: " ++ (printInt id.toInt ++ [])]) ++
      crlf := by
    simp [pauseText, lined, okLine, cseqLine, crlf, bytes, ch]
  rw [htext]
  apply complete_fields hseq
  rw [List.singleton_append, List.forall_mem_cons, List.forall_mem_cons, List.forall_mem_cons,
    List.forall_mem_singleton]
  exact ⟨okLine_field, hdate, ⟨by decide, by decide, by decide⟩,
    session_field id (List.forall_mem_nil _)⟩

theorem playText_complete (hseq : Plain m_CSeq) (hdate : Field date) (id : BitVec 32) :
    Complete (trim m_CSeq) [] (playText m_CSeq date id) := by
  have htext : playText m_CSeq date id = lined ([okLine] ++ cseqLine m_CSeq ::
      [date, bytes "RTP-Info: url=rtsp://138.4.7.72:8554/ej/1/video;seq=12312232;rtptime=650",
        bytes "Range: npt=0.000-", bytes "Session: " ++ (printInt id.toInt ++ [])]) ++ crlf := by
    simp [playText, lined, okLine, cseqLine, crlf, bytes, ch]
  rw [htext]
  apply complete_fields hseq
  rw [List.singleton_append, List.forall_mem_cons, List.forall_mem_cons, List.forall_mem_cons,
    List.forall_mem_cons, List.forall_mem_singleton]
  exact ⟨okLine_field, hdate, ⟨by decide +kernel, by decide, by decide⟩,
    ⟨by decide, by decide, by decide⟩, session_field id (List.forall_mem_nil _)⟩

theorem setupText_complete (hseq : Plain m_CSeq) (hdate : Field date) {Transport : List UInt8}
    (htransport : Plain Transport) (id : BitVec 32) :
    Complete (trim m_CSeq) [] (setupText m_CSeq date Transport id) := by
  have htext : setupText m_CSeq date Transport id = lined ([okLine] ++ cseqLine m_CSeq ::
      [date, bytes "Transport: " ++ Transport,
        bytes "Session: " ++ (printInt id.toInt ++ bytes ";")]) ++ crlf := by
    simp [setupText, lined, okLine, cseqLine, crlf, bytes, ch]
  rw [htext]
  apply complete_fields hseq
  rw [List.singleton_append, List.forall_mem_cons, List.forall_mem_cons, List.forall_mem_cons,
    List.forall_mem_singleton]
  exact ⟨okLine_field, hdate, Field.append ⟨by decide, by decide, by decide⟩ (by decide) htransport,
    session_field id (by decide)⟩

theorem notFoundText_incomplete (hseq : Plain m_CSeq) (hdate : Field date) {seq : List UInt8} :
    ¬ Complete seq body (notFoundText m_CSeq date) := by
  have htext : notFoundText m_CSeq date =
      lined [bytes "RTSP/1.0 404 Stream Not Found", cseqLine m_CSeq, date] := by
    simp [notFoundText, lined, cseqLine, crlf, bytes, ch]
  rw [htext]
  rintro ⟨ls, rest, hhead, -⟩
  have hplain : ∀ l ∈ [bytes "RTSP/1.0 404 Stream Not Found", cseqLine m_CSeq, date],
      Plain l := by
    rw [List.forall_mem_cons, List.forall_mem_cons, List.forall_mem_singleton]
    exact ⟨by decide, cseqLine_plain hseq, hdate.plain⟩
  have hended := ended_lined hplain (List.cons_ne_nil _ _)
  refine hended.no_head ?_ hhead
  rw [List.forall_mem_cons, List.forall_mem_cons, List.forall_mem_singleton]
  exact ⟨by decide, cseqLine_filled m_CSeq, hdate.filled⟩

theorem strftime_start (tm : Tm) : ∃ rest, strftime tm = bytes "Date: " ++ rest := by
  unfold strftime
  simp only [List.append_assoc]
  exact ⟨_, rfl⟩

theorem strftime_field (tm : Tm) : Field (strftime tm) := by
  obtain ⟨rest, hrest⟩ := strftime_start tm
  refine ⟨strftime_plain tm, ?_, ?_⟩
  · rw [hrest]
    exact List.append_ne_nil_of_left_ne_nil (by decide) _
  · rw [hrest, names_append (by decide)]
    decide

/-! ## The answer to DESCRIBE -/

theorem colon_notMem_beforeColon (text : List UInt8) : ch ':' ∉ beforeColon text := by
  have hstart : ∀ q, (h : q < text.length) → text[q] = ch ':' → bytes ":" <+: text.drop q := by
    intro q hq heq
    rw [List.drop_eq_getElem_cons hq, heq]
    exact ⟨_, rfl⟩
  intro hmem
  unfold beforeColon at hmem
  rcases hfind : find (bytes ":") text with _ | p
  · rw [hfind] at hmem
    obtain ⟨q, hq, heq⟩ := List.mem_iff_getElem.mp hmem
    exact find_none hfind q (hstart q hq heq)
  · rw [hfind] at hmem
    obtain ⟨q, hq, heq⟩ := List.mem_iff_getElem.mp hmem
    rw [List.length_take] at hq
    rw [List.getElem_take] at heq
    exact (find_some hfind).2 q (by omega) (hstart q (by omega) heq)

/-- What comes after the host in the description. -/
def sdpEnd : List UInt8 :=
  bytes "s=Unnamed\r\nt=0 0\r\nm=video 0 RTP/AVP 96\r\nb=AS:1561\r\n" ++
    bytes "a=rtpmap:96 MP4V-ES/90000\r\na=fmtp:96 profile-level-id=1; config=" ++
    bytes "000001B0F5000001B509000001000000012008BC040687FFFF0AAD8B0218CA31" ++
    bytes "000001B25876694430303530\r\na=control:streamid=0\r\n"

/-- A description names no sequence number. -/
theorem sdpText_unnamed {OBuf : List UInt8} (h : ch ':' ∉ OBuf) :
    ∀ l ∈ pieces (sdpText OBuf), ¬ Names (bytes "cseq") l := by
  have hstart : bytes "v=0\r\no=- 0 0 IN IP4 " =
      bytes "v=0" ++ (crlf ++ bytes "o=- 0 0 IN IP4 ") := by
    decide +kernel
  have hend : bytes "\r\ns=Unnamed\r\nt=0 0\r\nm=video 0 RTP/AVP 96\r\nb=AS:1561\r\n" =
      crlf ++ bytes "s=Unnamed\r\nt=0 0\r\nm=video 0 RTP/AVP 96\r\nb=AS:1561\r\n" := by
    decide +kernel
  have htext : sdpText OBuf =
      bytes "v=0" ++ (crlf ++ (bytes "o=- 0 0 IN IP4 " ++ OBuf ++ (crlf ++ sdpEnd))) := by
    unfold sdpText sdpEnd
    rw [hstart, hend]
    simp only [List.append_assoc]
  have hnone : ∀ text, ch ':' ∉ text → ∀ l ∈ pieces text, ¬ Names (bytes "cseq") l :=
    fun text hcolon l hl hnames => hcolon (mem_of_pieces hl hnames.2.1)
  have hlast : ∀ l ∈ pieces sdpEnd, ¬ Names (bytes "cseq") l := by decide +kernel
  rw [htext, pieces_crlf, pieces_crlf]
  intro l hl
  rcases List.mem_append.mp hl with hl | hl
  · exact hnone (bytes "v=0") (by decide) l hl
  rcases List.mem_append.mp hl with hl | hl
  · refine hnone _ ?_ l hl
    rw [List.mem_append, not_or]
    exact ⟨by decide, h⟩
  · exact hlast l hl

/-- The head of the answer for a known stream. -/
def describeHead (date host tail m_CSeq : List UInt8) (size : Nat) : List UInt8 :=
  lined [okLine, date, bytes "Content-Type: application/sdp"] ++
    (bytes "Content-Base: rtsp://" ++ host ++ ch '/' :: tail ++ crlf) ++
    lined [bytes "Content-Length: " ++ printInt (BitVec.ofNat 32 size).toInt, cseqLine m_CSeq] ++
    crlf

theorem describeText_split (date host name m_CSeq sdp : List UInt8) :
    describeText date (urlText host name) m_CSeq sdp =
      describeHead date host (name ++ bytes "/") m_CSeq sdp.length ++ sdp := by
  simp [describeText, urlText, describeHead, lined, okLine, cseqLine, crlf, bytes, ch]

theorem describeHead_length {tail : List UInt8} {size : Nat} (hdate : date.length ≤ 60)
    (hhost : host.length < 256) (htail : tail.length ≤ 5) (hseq : m_CSeq.length < 200) :
    (describeHead date host tail m_CSeq size).length ≤ 1023 := by
  have hsize := printInt_int (BitVec.ofNat 32 size)
  unfold describeHead cseqLine okLine crlf
  simp only [lined_cons, List.length_append, List.length_cons]
  change 15 + 2 + (_ + 2 + (29 + 2 + 0)) + (21 + _ + (_ + 1) + 2) +
    (16 + _ + 2 + (6 + _ + 2 + 0)) + 2 ≤ 1023
  omega

/-- The lines of the base, with the host in it. -/
def baseLines (host : List UInt8) : List (List UInt8) :=
  pieces (bytes "Content-Base: rtsp://" ++ host ++ bytes "/")

/-- A host that makes the base end the head, or start a line of its own for a
sequence number. -/
def BadHost (host : List UInt8) : Prop :=
  ∃ l ∈ baseLines host, l = [] ∨ Names (bytes "cseq") l

/-- What stands behind the host decides nothing about a line that has a slash. -/
theorem base_iff {P : List UInt8 → Prop} {tail : List UInt8} (htail : Plain tail)
    (hP : ∀ l, P (l ++ bytes "/") ↔ P (l ++ bytes "/" ++ tail)) :
    (∃ l ∈ baseLines host, P l) ↔
      ∃ l ∈ pieces (bytes "Content-Base: rtsp://" ++ host ++ ch '/' :: tail), P l := by
  obtain ⟨init, last, -, hlast⟩ := pieces_tail (bytes "Content-Base: rtsp://" ++ host)
  have hslash : Plain (ch '/' :: tail) := List.forall_mem_cons.mpr ⟨by decide, htail⟩
  have hsplit : last ++ ch '/' :: tail = last ++ bytes "/" ++ tail := by
    rw [List.append_assoc]
    rfl
  unfold baseLines
  rw [hlast _ (by decide), hlast _ hslash, hsplit]
  simp only [List.mem_append, List.mem_singleton, or_and_right, exists_or, exists_eq_left, hP]

theorem badHost_iff {tail : List UInt8} (htail : Plain tail) (hcolon : ch ':' ∉ tail) :
    BadHost host ↔ ∃ l ∈ pieces (bytes "Content-Base: rtsp://" ++ host ++ ch '/' :: tail),
      l = [] ∨ Names (bytes "cseq") l := by
  refine base_iff htail (fun l => ?_)
  rw [names_tail hcolon]
  simp [bytes]

/-- The lines in front of the base. -/
theorem describeFirst_fields (hdate : Field date) :
    ∀ l ∈ [okLine, date, bytes "Content-Type: application/sdp"], Field l := by
  rw [List.forall_mem_cons, List.forall_mem_cons, List.forall_mem_singleton]
  exact ⟨okLine_field, hdate, ⟨by decide, by decide, by decide⟩⟩

theorem length_field (size : Nat) :
    Field (bytes "Content-Length: " ++ printInt (BitVec.ofNat 32 size).toInt) :=
  Field.append ⟨by decide, by decide, by decide⟩ (by decide) (printInt_plain _)

/-- The lines of the head. -/
theorem describeHead_ended (host tail : List UInt8) (size : Nat) (hseq : Plain m_CSeq)
    (hdate : Field date) :
    ∃ X, describeHead date host tail m_CSeq size = X ++ crlf ∧
      Ended X ([okLine, date, bytes "Content-Type: application/sdp"] ++
        pieces (bytes "Content-Base: rtsp://" ++ host ++ ch '/' :: tail) ++
        [bytes "Content-Length: " ++ printInt (BitVec.ofNat 32 size).toInt, cseqLine m_CSeq]) := by
  refine ⟨_, rfl, ?_⟩
  refine ((ended_lined ?_ (List.cons_ne_nil _ _)).append (ended_text _)).append
    (ended_lined ?_ (List.cons_ne_nil _ _))
  · exact fun l hl => (describeFirst_fields hdate l hl).plain
  · rw [List.forall_mem_cons, List.forall_mem_singleton]
    exact ⟨(length_field size).plain, cseqLine_plain hseq⟩

theorem describeLast_filled (size : Nat) (m_CSeq : List UInt8) :
    ∀ l ∈ [bytes "Content-Length: " ++ printInt (BitVec.ofNat 32 size).toInt, cseqLine m_CSeq],
      l ≠ [] := by
  rw [List.forall_mem_cons, List.forall_mem_singleton]
  exact ⟨(length_field size).filled, cseqLine_filled m_CSeq⟩

/-- A base with no empty line ends no head. -/
theorem describeLines_filled (hdate : Field date) {base : List (List UInt8)}
    (hbase : ∀ l ∈ base, l ≠ []) (size : Nat) (m_CSeq : List UInt8) :
    ∀ l ∈ [okLine, date, bytes "Content-Type: application/sdp"] ++ base ++
      [bytes "Content-Length: " ++ printInt (BitVec.ofNat 32 size).toInt, cseqLine m_CSeq],
      l ≠ [] := by
  intro l hl
  rcases List.mem_append.mp hl with hl | hl
  · rcases List.mem_append.mp hl with hl | hl
    · exact (describeFirst_fields hdate l hl).filled
    · exact hbase l hl
  · exact describeLast_filled size m_CSeq l hl

/-- With no such host the head is complete. -/
theorem describe_complete (hseq : Plain m_CSeq) (hdate : Field date) {tail : List UInt8}
    (htail : Plain tail) (hcolon : ch ':' ∉ tail) (hhost : ¬ BadHost host)
    {sdp rest : List UInt8} (hrest : rest <+: sdp) :
    Complete (trim m_CSeq) sdp (describeHead date host tail m_CSeq sdp.length ++ rest) := by
  obtain ⟨X, hX, hended⟩ := describeHead_ended host tail sdp.length hseq hdate
  rw [badHost_iff htail hcolon] at hhost
  simp only [not_exists, not_and, not_or] at hhost
  have hhead := hended.head (describeLines_filled hdate (fun l hl => (hhost l hl).1) _ _) rest
  rw [List.append_cons] at hhead
  rw [hX, List.append_assoc]
  refine complete_head hhead (fun l hl => ?_) hrest
  simp only [List.append_nil, List.mem_append, List.mem_singleton] at hl
  rcases hl with (hl | hl) | rfl
  · exact (describeFirst_fields hdate l hl).other
  · exact (hhost l hl).2
  · exact (length_field sdp.length).other

/-- With such a host it is not: the head ends too early, or it names two
sequence numbers. -/
theorem describe_incomplete (hseq : Plain m_CSeq) (hdate : Field date) {tail : List UInt8}
    (htail : Plain tail) (hcolon : ch ':' ∉ tail) (hhost : BadHost host)
    (hbody : ∀ l ∈ pieces body, ¬ Names (bytes "cseq") l) {seq : List UInt8} {size : Nat}
    (rest : List UInt8) :
    ¬ Complete seq body (describeHead date host tail m_CSeq size ++ rest) := by
  obtain ⟨X, hX, hended⟩ := describeHead_ended host tail size hseq hdate
  rintro ⟨ls, rest', hhead, hnamed, hprefix⟩
  rw [badHost_iff htail hcolon] at hhost
  rw [hX, List.append_assoc] at hhead
  have hlast := describeLast_filled size m_CSeq
  have hfirst := fun l hl => (describeFirst_fields hdate l hl).filled
  rcases hended.head_around hfirst hlast hhead with
    ⟨-, after, hbehind⟩ | ⟨hfilled, rfl⟩
  · -- the line for the sequence number is behind the head
    have hin : cseqLine m_CSeq ∈ pieces rest' := by
      rw [hbehind]
      simp
    obtain ⟨l, hl, hnames⟩ := names_in_prefix hprefix hin (cseqLine_names m_CSeq)
    exact hbody l hl hnames
  · -- two lines of the head name one
    obtain ⟨l, hl, hbad⟩ := hhost
    have hnames := hbad.resolve_left (fun hnil => hfilled (hnil ▸ hl))
    have hmem : ∀ {l : List UInt8} {ms : List (List UInt8)}, l ∈ ms → Names (bytes "cseq") l →
        1 ≤ (ms.filter (fun l => Names (bytes "cseq") l)).length :=
      fun hin hn => List.length_pos_of_mem (List.mem_filter.mpr ⟨hin, decide_eq_true hn⟩)
    have hone := congrArg List.length hnamed
    have hbase := hmem hl hnames
    have hown := hmem (List.mem_cons_of_mem (bytes "Content-Length: " ++
      printInt (BitVec.ofNat 32 size).toInt) (List.mem_singleton_self _)) (cseqLine_names m_CSeq)
    rw [List.length_map, List.filter_append, List.filter_append, List.length_append,
      List.length_append, List.length_singleton] at hone
    omega

/-! ## Texts that fit their array -/

theorem optionsText_fits (hseq : m_CSeq.length < 200) : (optionsText m_CSeq).length < 1024 := by
  unfold optionsText
  simp only [List.length_append]
  change 23 + _ + 52 < 1024
  omega

theorem pauseText_fits (hseq : m_CSeq.length < 200) (hdate : date.length ≤ 60) (id : BitVec 32) :
    (pauseText m_CSeq date id).length < 1024 := by
  have hid := printInt_int id
  unfold pauseText
  simp only [List.length_append]
  change 23 + _ + 2 + _ + 35 + _ + 4 < 1024
  omega

theorem notFoundText_fits (hseq : m_CSeq.length < 200) (hdate : date.length ≤ 60) :
    (notFoundText m_CSeq date).length < 1024 := by
  unfold notFoundText
  simp only [List.length_append]
  change 37 + _ + 2 + _ + 2 < 1024
  omega

theorem setupText_fits (hseq : m_CSeq.length < 200) (hdate : date.length ≤ 60)
    {Transport : List UInt8} (htransport : Transport.length < 255) (id : BitVec 32) :
    (setupText m_CSeq date Transport id).length < 1024 := by
  have hid := printInt_int id
  unfold setupText
  simp only [List.length_append]
  change 23 + _ + 2 + _ + 13 + _ + 11 + _ + 5 < 1024
  omega

theorem playText_fits (hseq : m_CSeq.length < 200) (hdate : date.length ≤ 60) (id : BitVec 32) :
    (playText m_CSeq date id).length < 1024 := by
  have hid := printInt_int id
  unfold playText
  simp only [List.length_append]
  change 23 + _ + 2 + _ + 74 + 30 + _ + 4 < 1024
  omega

theorem urlText_fits {name : List UInt8} (hhost : host.length < 256) (hname : name.length = 4) :
    (urlText host name).length < 1024 := by
  unfold urlText
  simp only [List.length_append, hname]
  change 7 + _ + 1 + 4 < 1024
  omega

theorem snprintf_plain {size : Nat} (h : Plain text) : Plain (snprintf size text) :=
  fun x hx => h x (List.mem_of_mem_take hx)

theorem transportText_plain (clientRtp clientRtcp serverRtp serverRtcp : BitVec 16) :
    Plain (transportText clientRtp clientRtcp serverRtp serverRtcp) := by
  unfold transportText
  simp only [plain_append]
  refine ⟨⟨⟨⟨⟨⟨⟨⟨?_, printInt_plain _⟩, ?_⟩, printInt_plain _⟩, ?_⟩, printInt_plain _⟩, ?_⟩,
    printInt_plain _⟩, ?_⟩
  all_goals decide

/-! ## The answers to a request -/

/-- A command that is answered. -/
def Answered (c : Connection) (r : Reading) : Prop :=
  r.type c.m_RtspCmdType ≠ .RTSP_UNKNOWN ∧ r.type c.m_RtspCmdType ≠ .RTSP_TEARDOWN ∧
    ¬ (r.type c.m_RtspCmdType = .RTSP_SETUP ∧ r.tcp.getD c.m_TcpTransport = true)

/-- What comes behind the head of an answer. -/
def bodyFor (type : RTSP_CMD_TYPES) (m_URLHostPort : List UInt8) : List UInt8 :=
  match type with
  | .RTSP_DESCRIBE => snprintf 1024 (sdpText (beforeColon m_URLHostPort))
  | _ => []

theorem bodyFor_unnamed (type : RTSP_CMD_TYPES) (m_URLHostPort : List UInt8) :
    ∀ l ∈ pieces (bodyFor type m_URLHostPort), ¬ Names (bytes "cseq") l := by
  cases type with
  | RTSP_DESCRIBE =>
    intro l hl hnames
    obtain ⟨l', hl', hnames'⟩ := names_in_prefix (List.take_prefix _ _) hl hnames
    exact sdpText_unnamed (colon_notMem_beforeColon m_URLHostPort) l' hl' hnames'
  | _ =>
    intro l hl
    cases List.mem_singleton.mp hl
    decide

/-- A `DESCRIBE` is for a known stream, and its host does not break its lines. -/
def Describes (type : RTSP_CMD_TYPES) (m_URLPreSuffix m_URLSuffix m_URLHostPort : List UInt8) :
    Prop :=
  type = .RTSP_DESCRIBE → streamID m_URLPreSuffix m_URLSuffix ≠ -1 ∧ ¬ BadHost m_URLHostPort

variable {c : Connection} {m_URLPreSuffix m_URLSuffix m_URLHostPort : List UInt8}

/-- The answer for a known stream, as a client gets it. -/
theorem describeReply_sent (hdate : date.length ≤ 60) (hhost : m_URLHostPort.length < 256)
    (hseq : m_CSeq.length < 200) (id : Int) :
    ∃ tail rest, Plain tail ∧ ch ':' ∉ tail ∧ rest <+: bodyFor .RTSP_DESCRIBE m_URLHostPort ∧
      snprintf 1024 (describeReply date m_URLHostPort m_CSeq id) =
        describeHead date m_URLHostPort tail m_CSeq
          (bodyFor .RTSP_DESCRIBE m_URLHostPort).length ++ rest := by
  obtain ⟨name, hname, hplain, hcolon, hreply⟩ : ∃ name : List UInt8, name.length = 4 ∧
      Plain (name ++ bytes "/") ∧ ch ':' ∉ name ++ bytes "/" ∧
        describeReply date m_URLHostPort m_CSeq id =
          describeText date (snprintf 1024 (urlText m_URLHostPort name)) m_CSeq
            (bodyFor .RTSP_DESCRIBE m_URLHostPort) := by
    by_cases hid : id = 0
    · exact ⟨bytes "ej/1", rfl, by decide, by decide, by rw [describeReply, if_pos hid]; rfl⟩
    · exact ⟨bytes "ej/2", rfl, by decide, by decide, by rw [describeReply, if_neg hid]; rfl⟩
  have hhead : (describeHead date m_URLHostPort (name ++ bytes "/") m_CSeq
      (bodyFor .RTSP_DESCRIBE m_URLHostPort).length).length ≤ 1023 :=
    describeHead_length hdate hhost (by rw [List.length_append, hname]; decide) hseq
  rw [hreply, snprintf_eq (urlText_fits hhost hname), describeText_split]
  unfold snprintf
  rw [List.take_append, List.take_of_length_le hhead]
  exact ⟨_, _, hplain, hcolon, List.take_prefix _ _, rfl⟩

/-- Every answer is complete, but for one to a `DESCRIBE`. -/
theorem answers_complete (s : Streamer) (hseq : Plain m_CSeq) (hlen : m_CSeq.length < 200)
    (hdate : Field date) (hdateLen : date.length ≤ 60)
    (hfits : HostFits c.m_RtspCmdType m_URLPreSuffix m_URLSuffix m_URLHostPort)
    (h : Describes c.m_RtspCmdType m_URLPreSuffix m_URLSuffix m_URLHostPort) :
    ∀ text ∈ answers c s m_CSeq date m_URLPreSuffix m_URLSuffix m_URLHostPort,
      Complete (trim m_CSeq) (bodyFor c.m_RtspCmdType m_URLHostPort) text := by
  unfold answers
  unfold HostFits at hfits
  unfold Describes at h
  cases htype : c.m_RtspCmdType with
  | RTSP_OPTIONS =>
    rw [List.forall_mem_singleton, snprintf_eq (optionsText_fits hlen)]
    exact optionsText_complete hseq
  | RTSP_PAUSE =>
    rw [List.forall_mem_singleton, snprintf_eq (pauseText_fits hlen hdateLen _)]
    exact pauseText_complete hseq hdate _
  | RTSP_PLAY =>
    rw [List.forall_mem_singleton, snprintf_eq (playText_fits hlen hdateLen _)]
    exact playText_complete hseq hdate _
  | RTSP_SETUP =>
    have hlong : ∀ text, (snprintf 255 text).length < 255 :=
      fun text => Nat.lt_of_le_of_lt (List.length_take_le _ _) (by decide)
    simp only
    split
    · nofun
    · rw [List.forall_mem_singleton, snprintf_eq (setupText_fits hlen hdateLen (hlong _) _)]
      exact setupText_complete hseq hdate (snprintf_plain (transportText_plain _ _ _ _)) _
  | RTSP_DESCRIBE =>
    obtain ⟨hid, hhost⟩ := h htype
    obtain ⟨tail, rest, htail, hcolon, hrest, hsent⟩ :=
      describeReply_sent hdateLen (hfits htype hid) hlen (streamID m_URLPreSuffix m_URLSuffix)
    simp only
    rw [if_neg hid, List.forall_mem_singleton, hsent]
    exact describe_complete hseq hdate htail hcolon hhost hrest
  | RTSP_TEARDOWN => nofun
  | RTSP_UNKNOWN => nofun

/-- No answer to such a `DESCRIBE` is complete, whatever it should name. -/
theorem answers_incomplete (s : Streamer) (hseq : Plain m_CSeq) (hlen : m_CSeq.length < 200)
    (hdate : Field date) (hdateLen : date.length ≤ 60)
    (hfits : HostFits c.m_RtspCmdType m_URLPreSuffix m_URLSuffix m_URLHostPort)
    (h : ¬ Describes c.m_RtspCmdType m_URLPreSuffix m_URLSuffix m_URLHostPort) :
    ∃ text ∈ answers c s m_CSeq date m_URLPreSuffix m_URLSuffix m_URLHostPort,
      ∀ seq, ¬ Complete seq (bodyFor c.m_RtspCmdType m_URLHostPort) text := by
  unfold Describes at h
  obtain ⟨htype, hbad⟩ := Classical.not_imp.mp h
  unfold HostFits at hfits
  unfold answers
  rw [htype]
  by_cases hid : streamID m_URLPreSuffix m_URLSuffix = -1
  · refine ⟨_, by rw [if_pos hid]; exact List.mem_singleton_self _, fun seq => ?_⟩
    rw [snprintf_eq (notFoundText_fits hlen hdateLen)]
    exact notFoundText_incomplete hseq hdate
  · have hhost : BadHost m_URLHostPort := not_not.mp (fun hgood => hbad ⟨hid, hgood⟩)
    refine ⟨_, by rw [if_neg hid]; exact List.mem_singleton_self _, fun seq => ?_⟩
    obtain ⟨tail, rest, htail, hcolon, -, hsent⟩ := describeReply_sent hdateLen (hfits htype hid)
      hlen (streamID m_URLPreSuffix m_URLSuffix)
    rw [hsent]
    exact describe_incomplete hseq hdate htail hcolon hhost (bodyFor_unnamed .RTSP_DESCRIBE _) rest

/-! ## Every session -/

/-- The request is handled to an end. What is sent for it is complete, and it names
the sequence number of the request. -/
def AnsweredInFull [Libc] (w : World) (c : Connection) (host : Host) (aRequest : Request)
    (n : Nat) : Prop :=
  ∃ res, Handle_RtspRequest w c host aRequest n = .ok res ∧ ∀ text ∈ res.sent,
    ∃ seq, cseqOf (aRequest.slice 0 n) = some seq ∧
      Complete seq (bodyFor res.C (textAt res.c.m_URLHostPort 0)) text

theorem accepted_seq_plain [Libc] {size n : Nat} {l : Locals} {aRequest : Block size UInt8}
    {r : Reading}
    (hn : n < 2 ^ 32) (hr : reading l aRequest n = .ok r) (haccepted : r.accepted = true) :
    Plain (upToNul (r.seq.getD []) 0) := by
  obtain ⟨-, -, hread⟩ := reading_ok hn hr
  obtain ⟨ports, stop, tcp, number, -, hparts⟩ := readBuffer_parts hread
  obtain ⟨host, suffix, preSuffix, seq, i, k, numbers, hp, -, rfl⟩ :=
    parts_of_accepted hparts haccepted
  obtain ⟨j, -, hj⟩ := Option.map_eq_some_iff.mp hp.seq
  have hvalue := (Prod.mk.inj hj).1
  intro x hx
  have hnul := List.mem_takeWhile_imp hx
  have hmem : x ∈ seq := List.mem_of_mem_drop ((List.takeWhile_prefix _).subset hx)
  rw [← hvalue] at hmem
  have hline := List.mem_takeWhile_imp hmem
  simp only [decide_eq_true_eq, not_or] at hnul hline
  exact ⟨hnul, hline⟩

theorem accepted_seq_fits [Libc] {size n : Nat} {l : Locals} {aRequest : Block size UInt8}
    {r : Reading} (hn : n < 2 ^ 32) (hr : reading l aRequest n = .ok r) :
    (upToNul (r.seq.getD []) 0).length < 200 := by
  rcases hseq : r.seq with _ | seq
  · decide
  · have hle := (List.takeWhile_prefix (l := seq.drop 0) (fun x => decide (x ≠ 0))).length_le
    exact Nat.lt_of_le_of_lt hle ((reading_inOrder hn hr).seqFits seq hseq)

/-- A `DESCRIBE` is for a known stream, and its host does not break the lines
of the answer. -/
def DescribesWell (c : Connection) (r : Reading) : Prop :=
  Describes (r.type c.m_RtspCmdType) (upToNul (r.preSuffix.getD []) 0)
    (upToNul (r.suffix.getD []) 0) (hostString c r)

theorem answers_le_one (c : Connection) (s : Streamer)
    (m_CSeq buf_Date m_URLPreSuffix m_URLSuffix m_URLHostPort : List UInt8) :
    (answers c s m_CSeq buf_Date m_URLPreSuffix m_URLSuffix m_URLHostPort).length ≤ 1 := by
  unfold answers
  cases c.m_RtspCmdType with
  | RTSP_DESCRIBE =>
    simp only
    split <;> exact Nat.le_refl 1
  | RTSP_SETUP =>
    simp only
    split
    · exact Nat.zero_le 1
    · exact Nat.le_refl 1
  | RTSP_TEARDOWN => exact Nat.zero_le 1
  | RTSP_UNKNOWN => exact Nat.zero_le 1
  | _ => exact Nat.le_refl 1

theorem answered_of_mem {w : World} {c : Connection} {s : Streamer} {r : Reading}
    (h : text ∈ answersTo w c s r) : Answered c r := by
  refine (answers_length w c s r).mp (Nat.le_antisymm ?_ (List.length_pos_of_mem h))
  exact answers_le_one (parsedBy w c r) s _ _ _ _ _

theorem hostString_stored {c c' : Connection} {r : Reading}
    (h : c'.toTcpConnection = r.store c.toTcpConnection) :
    textAt c'.m_URLHostPort 0 = hostString c r := by
  rw [h]
  rfl

/-- Such a `DESCRIBE` is answered with a head that is not complete. -/
theorem broken_describe [Libc] {w : World} {c : Connection} {host : Host} {aRequest : Request}
    {n : Nat} {r : Reading} (hn : n < 2 ^ 32) (hr : reading w.l aRequest n = .ok r)
    (haccepted : r.accepted = true) (hend : c.m_URLHostPort.cell 9999 = 0) (hfits : FitsHost c r)
    (hbad : ¬ DescribesWell c r) : ¬ AnsweredInFull w c host aRequest n := by
  rintro ⟨res, hres, hfull⟩
  obtain ⟨c', host', hok, hkept, -⟩ := Handle_accepted host hn hr haccepted hend hfits
  rw [hok] at hres
  cases hres
  have hhost := hostString_stored hkept
  obtain ⟨text, hmem, hnot⟩ := answers_incomplete (c := parsedBy w c r) c'.m_Streamer
    (accepted_seq_plain hn hr haccepted) (accepted_seq_fits hn hr) (strftime_field w.tm)
    (strftime_length w.tm) hfits hbad
  obtain ⟨seq, -, hcomplete⟩ := hfull text hmem
  rw [hhost] at hcomplete
  exact hnot seq hcomplete

/-- A request that is answered has these: a host that fits its copy, the first
`CSeq:` after the path in front of its own sequence number, and, for a `DESCRIBE`, a
known stream and a host that breaks no line of the answer. -/
structure Answerable (c : Connection) (r : Reading) (text : List UInt8) : Prop where
  host : FitsHost c r
  seq : OwnFirst text
  describe : DescribesWell c r

/-- Every request that is handled to an end and answered is answered in full exactly
when its bytes name its sequence number first, its host fits, and, for a `DESCRIBE`,
the stream is known and the host does not break the lines of the answer. -/
theorem answers_are_complete [Libc] {c : Connection} {host : Host} (h : Reachable c host)
    (w : World) (aRequest : Request) (n : BitVec 32) :
    AnsweredInFull w c host aRequest n.toNat ↔
      ∃ r, reading w.l aRequest n.toNat = .ok r ∧
        (r.accepted = true → Answered c r → Answerable c r (aRequest.slice 0 n.toNat)) := by
  rcases hr : reading w.l aRequest n.toNat with e | r
  · refine iff_of_false ?_ (fun ⟨r, hread, _⟩ => nomatch hread)
    rintro ⟨res, hres, -⟩
    rw [Handle_unread host n.isLt hr] at hres
    cases hres
  by_cases haccepted : r.accepted = true
  swap
  · refine iff_of_true ⟨_, Handle_rejected host n.isLt hr (eq_false_of_ne_true haccepted), nofun⟩ ?_
    exact ⟨r, rfl, fun ha => absurd ha haccepted⟩
  by_cases hfits : FitsHost c r
  swap
  · refine iff_of_false ?_ ?_
    · rintro ⟨res, hres, -⟩
      rw [Handle_long host n.isLt hr haccepted h.host_end hfits] at hres
      cases hres
    · rintro ⟨r', hr', hcond⟩
      cases hr'
      have htype : r.type c.m_RtspCmdType = .RTSP_DESCRIBE := (Classical.not_imp.mp hfits).1
      refine hfits (hcond haccepted ?_).host
      unfold Answered
      rw [htype]
      exact ⟨nofun, nofun, nofun⟩
  obtain ⟨c', host', hok, hkept, -⟩ := Handle_accepted host n.isLt hr haccepted h.host_end hfits
  have hhost := hostString_stored hkept
  obtain ⟨j, hj, hvalue⟩ := accepted_value n.isLt hr haccepted
  -- for a good `DESCRIBE`, and for every other command
  have hcomplete : DescribesWell c r → ∀ text ∈ answersTo w c c'.m_Streamer r,
      Complete (trim (valueAt (aRequest.slice 0 n.toNat) (j + 5)))
        (bodyFor (r.type c.m_RtspCmdType) (textAt c'.m_URLHostPort 0)) text := by
    intro hwell
    rw [hhost, ← hvalue]
    exact answers_complete (c := parsedBy w c r) c'.m_Streamer
      (accepted_seq_plain n.isLt hr haccepted) (accepted_seq_fits n.isLt hr) (strftime_field w.tm)
      (strftime_length w.tm) hfits hwell
  constructor
  · intro hfull
    refine ⟨r, rfl, fun _ hanswered => ?_⟩
    have hwell : DescribesWell c r := by
      by_contra hbad
      exact broken_describe n.isLt hr haccepted h.host_end hfits hbad hfull
    obtain ⟨res, hres, hsent⟩ := hfull
    rw [hok] at hres
    cases hres
    have hone := (answers_length w c c'.m_Streamer r).mpr hanswered
    obtain ⟨text, hmem⟩ := List.exists_mem_of_length_pos (Nat.lt_of_lt_of_eq Nat.one_pos hone.symm)
    obtain ⟨seq, hseq, hnamed⟩ := hsent text hmem
    refine ⟨hfits, ⟨j, hj, ?_⟩, hwell⟩
    rw [hseq, (hcomplete hwell text hmem).unique hnamed]
  · rintro ⟨r', hr', hcond⟩
    cases hr'
    refine ⟨_, hok, fun text hmem => ?_⟩
    obtain ⟨-, ⟨j', hj', hown⟩, hwell⟩ := hcond haccepted (answered_of_mem hmem)
    rw [hj] at hj'
    cases hj'
    exact ⟨_, hown, hcomplete hwell text hmem⟩

/-- `DESCRIBE` for a stream that the server does not have. -/
def describeUnknown : List UInt8 := bytes "DESCRIBE rtsp://h/a/b RTSP/1.0\r\nCSeq: 1\r\n\r\n"

def describeUnknownReading : Reading :=
  { command := some .RTSP_DESCRIBE, tcp := some false, host := some (bytes "h"),
    suffix := some (bytes "b"), preSuffix := some (bytes "a"), seq := some (bytes "1"),
    accepted := true }

theorem describeUnknown_reading :
    reading (stackWith 43 []) (Block.ofList describeUnknown 0 : Request) 43 =
      .ok describeUnknownReading :=
  (reading_received (stackWith 43 []) describeUnknown (by decide +kernel) rfl).trans
    (by decide +kernel)

/-- The answer for an unknown stream has no empty line. -/
theorem a_describe_of_no_stream_is_left_open :
    ¬ ∀ (c : Connection) (host : Host) (w : World) (aRequest : Request) (n : BitVec 32),
      Reachable c host → AnsweredInFull w c host aRequest n.toNat := by
  intro h
  have hreading : reading (quietWorld 43).l (Block.ofList describeUnknown 0 : Request)
      (43 : BitVec 32).toNat = .ok describeUnknownReading := describeUnknown_reading
  have hunknown : streamID (bytes "a") (bytes "b") = -1 := by decide
  have hfits : FitsHost newConnection describeUnknownReading := fun _ hid => absurd hunknown hid
  have hbad : ¬ DescribesWell newConnection describeUnknownReading :=
    fun hwell => (hwell rfl).1 hunknown
  exact broken_describe (43 : BitVec 32).isLt hreading rfl newConnection_reachable.host_end hfits
    hbad (h newConnection Host.init (quietWorld 43) _ 43 newConnection_reachable)

/-- A `DESCRIBE` for the first stream. -/
def describeFor (host : List UInt8) : List UInt8 :=
  bytes "DESCRIBE rtsp://" ++ host ++ bytes "/ej/1 RTSP/1.0\r\nCSeq: 1\r\n\r\n"

def describeReading (host : List UInt8) : Reading :=
  { command := some .RTSP_DESCRIBE, tcp := some false, host := some host,
    suffix := some (bytes "1"), preSuffix := some (bytes "ej"), seq := some (bytes "1"),
    accepted := true }

/-- A new session has nothing behind the host. -/
theorem hostString_new (hlen : host.length < 10000) (hnul : 0 ∉ host) :
    hostString newConnection (describeReading host) = host := by
  change textAt (newConnection.m_URLHostPort.put 0 host) 0 = host
  rw [textAt_holds (holds_put_nul _ host hlen rfl), upToNul_eq hnul, List.drop_zero]

theorem describeFor_reading :
    reading (stackWith 44 []) (Block.ofList (describeFor (bytes "h")) 0 : Request) 44 =
      .ok (describeReading (bytes "h")) :=
  (reading_received (stackWith 44 []) (describeFor (bytes "h")) (by decide +kernel) rfl).trans
    (by decide +kernel)

theorem a_describe_is_answered_in_full :
    AnsweredInFull (quietWorld 44) newConnection Host.init
      (Block.ofList (describeFor (bytes "h")) 0) 44 := by
  refine (answers_are_complete newConnection_reachable (quietWorld 44)
    (Block.ofList (describeFor (bytes "h")) 0) 44).mpr ?_
  have hreading : reading (quietWorld 44).l
      (Block.ofList (describeFor (bytes "h")) 0 : Request) (44 : BitVec 32).toNat =
        .ok (describeReading (bytes "h")) := describeFor_reading
  have hslice : (Block.ofList (describeFor (bytes "h")) 0 : Request).slice 0 44 =
      describeFor (bytes "h") := by
    rw [show 44 = (describeFor (bytes "h")).length by decide +kernel]
    exact slice_ofList_self _ _
  have hhost : hostString newConnection (describeReading (bytes "h")) = bytes "h" :=
    hostString_new (by decide) (by decide)
  rw [hreading, show (44 : BitVec 32).toNat = 44 from rfl, hslice]
  refine ⟨_, rfl, fun _ _ => ⟨fun _ _ => ?_, ⟨33, by decide +kernel, by decide +kernel⟩,
    fun _ => ⟨by decide, ?_⟩⟩⟩
  · rw [hhost]
    decide
  · rw [hhost]
    unfold BadHost
    decide

end payloader.rtsp_replies
