-- The requests that a player sends, and what the parser reads in them. The
-- first phase may end one line with a NUL, and the later phases read the
-- request as it is then.
import Payloader.RtspReadingLaws

set_option autoImplicit false

namespace payloader.rtsp_request

open payloader.memory payloader.machines payloader.c_strings payloader.rtsp_parser
open payloader.rtsp_parser_laws payloader.rtsp_reading payloader.rtsp_reading_laws

/-! ## The request -/

/-- The parts of a request: `before` and `after` are the header lines around
the line of the sequence number. -/
structure RequestParts where
  command : RTSP_CMD_TYPES
  host : List UInt8
  pre : List UInt8
  suf : List UInt8
  seq : List UInt8
  before : List (List UInt8)
  after : List (List UInt8)

/-- The first line up to the version. -/
def RequestParts.start (r : RequestParts) : List UInt8 :=
  methodName r.command ++ [ch ' '] ++ (bytes "rtsp://" ++ r.host ++ [ch '/'] ++
    (r.pre ++ ch '/' :: (r.suf ++ ch ' ' :: bytes "RTSP/")))

def RequestParts.lines (r : RequestParts) : List (List UInt8) :=
  (r.start ++ bytes "1.0") :: (r.before ++ (bytes "CSeq: " ++ r.seq) :: r.after)

/-- The request ends with an empty line. -/
def RequestParts.text (r : RequestParts) : List UInt8 := lined r.lines ++ crlf

/-- No space, line end or NUL. -/
def Plain (part : List UInt8) : Prop :=
  ch ' ' ∉ part ∧ ch '\r' ∉ part ∧ ch '\n' ∉ part ∧ 0 ∉ part

instance (part : List UInt8) : Decidable (Plain part) :=
  inferInstanceAs (Decidable (_ ∧ _ ∧ _ ∧ _))

/-- A request that is well formed and fits the arrays of the parser. -/
structure RtspRequest extends RequestParts where
  known : command ≠ .RTSP_UNKNOWN
  host_plain : Plain host
  host_slash : ch '/' ∉ host
  pre_plain : Plain pre
  suf_plain : Plain suf
  suf_slash : ch '/' ∉ suf
  path_version : ¬ bytes "RTSP/" <:+: pre ++ ch '/' :: suf
  pre_fits : pre.length ≤ 199
  suf_fits : suf.length ≤ 199
  seq_digits : ∀ x ∈ seq, isDigit x = true
  seq_some : seq ≠ []
  seq_fits : seq.length ≤ 198
  seq_first : ∀ l ∈ before, ¬ bytes "CSeq:" <:+: l
  ports_fit : ∀ l ∈ toRequestParts.lines, bytes "client_port" <:+: l → l.length < 1000
  fits : toRequestParts.text.length < RTSP_BUFFER_SIZE

/-! ## The shape of the request -/

/-- Lines with a line at the end of them end with a line end. -/
theorem lined_ends (l : List UInt8) (ls : List (List UInt8)) :
    ∃ m, lined (l :: ls) = m ++ crlf := by
  rcases List.eq_nil_or_concat (l :: ls) with h | ⟨init, last, h⟩
  · cases h
  · refine ⟨lined init ++ last, ?_⟩
    rw [h, List.concat_eq_append, lined_append, List.append_assoc]
    simp [lined]

/-- A pattern with no line end in it lies in one of the lines. -/
theorem line_of_infix {pat : List UInt8} (hr : ch '\r' ∉ pat) (hn : ch '\n' ∉ pat)
    (hne : pat ≠ []) {lines : List (List UInt8)} (h : pat <:+: lined lines) :
    ∃ l ∈ lines, pat <:+: l := by
  obtain ⟨q, hq⟩ := infix_iff_drop.mp (h.trans (List.prefix_append _ crlf).isInfix)
  obtain ⟨l, hl, hin, -⟩ := line_of_prefix hr hn hne lines hq
  exact ⟨l, hl, hin⟩

/-- The text between the first line and the sequence number. -/
theorem RtspRequest.split (r : RtspRequest) :
    ∃ mid rest, r.text = r.start ++ (mid ++
        (ch '\n' :: (bytes "CSeq: " ++ r.seq ++ [ch '\r']) ++ rest)) ∧
      [ch '\r'] <:+ mid ∧ ¬ bytes "CSeq:" <:+: mid := by
  obtain ⟨m, hm⟩ := lined_ends (bytes "1.0") r.before
  refine ⟨m ++ [ch '\r'], ch '\n' :: (lined r.after ++ crlf), ?_, List.suffix_append _ _, ?_⟩
  · have htext : r.text = r.start ++ (lined (bytes "1.0" :: r.before) ++
        (bytes "CSeq: " ++ r.seq ++ (crlf ++ (lined r.after ++ crlf)))) := by
      simp [RequestParts.text, RequestParts.lines, lined_append]
    rw [htext, hm]
    simp [crlf, bytes]
  · intro hin
    have hlines : bytes "CSeq:" <:+: lined (bytes "1.0" :: r.before) := by
      rw [hm]
      exact hin.trans ⟨[], [ch '\n'], by simp [crlf, bytes]⟩
    obtain ⟨l, hl, hl2⟩ := line_of_infix (by decide) (by decide) (by decide) hlines
    rcases List.mem_cons.mp hl with rfl | hl
    · revert hl2
      decide
    · exact r.seq_first l hl hl2

theorem methodName_plain (command : RTSP_CMD_TYPES) :
    Plain (methodName command) ∧ ch '\t' ∉ methodName command ∧
      (methodName command).length ≤ 8 := by
  cases command <;> decide

theorem RtspRequest.start_no_cr (r : RtspRequest) : ch '\r' ∉ r.start := by
  have h0 := (methodName_plain r.command).1.2.1
  have h1 := r.host_plain.2.1
  have h2 := r.pre_plain.2.1
  have h3 := r.suf_plain.2.1
  have h4 : ch '\r' ∉ bytes "rtsp://" := by decide
  have h5 : ch '\r' ∉ bytes "RTSP/" := by decide
  have h6 : ch '\r' ≠ ch ' ' := by decide
  have h7 : ch '\r' ≠ ch '/' := by decide
  simp [RequestParts.start, h0, h1, h2, h3, h4, h5, h6, h7]

/-! ## The line of the ports -/

/-- The request after the first phase: as it was, or with a NUL in place of the
CR that ends the line of the first `client_port`. -/
def LineEnded (text text' : List UInt8) : Prop :=
  text' = text ∨ ∃ q p, q ≤ p ∧ text' = text.set p 0 ∧ bytes "client_port" <+: text.drop q ∧
    crlf <+: text.drop p ∧ ∀ p', q ≤ p' → p' < p → ¬ crlf <+: text.drop p'

/-- The search for the ports comes to an end in the line of the ports. -/
theorem portsIn_lines [Libc] {lines : List (List UInt8)}
    (hlines : ∀ l ∈ lines, bytes "client_port" <:+: l → l.length < 1000) :
    ∃ ports stop, portsIn (upToNul (lined lines ++ crlf) 0) = .ok (ports, stop) ∧
      LineEnded (lined lines ++ crlf) (endText (lined lines ++ crlf) stop) := by
  generalize htext : lined lines ++ crlf = text
  rcases hq : find (bytes "client_port") (upToNul text 0) with _ | q
  · exact ⟨_, _, portsIn_none hq, Or.inl rfl⟩
  obtain ⟨hpre, hqlen, -⟩ := find_upToNul (by decide) hq
  have hdrop := drop_upToNul (Nat.le_trans (Nat.le_add_right q _) hqlen)
  rw [Nat.zero_add] at hpre hdrop
  rcases hd : find (bytes "\r\n") ((upToNul text 0).drop q) with _ | d
  · exact ⟨_, _, portsIn_open hq hd, Or.inl rfl⟩
  have hports := portsIn_line hq hd
  rw [hdrop] at hd
  obtain ⟨hend, -, hfirst⟩ := find_upToNul (by decide) hd
  have hended : LineEnded text (text.set (q + d) 0) :=
    Or.inr ⟨q, q + d, Nat.le_add_right q d, rfl, hpre, hend, hfirst⟩
  have hline : d < 1000 := by
    rw [← htext] at hpre
    obtain ⟨l, hl, hin, e, he, hcr⟩ := line_of_prefix (by decide) (by decide) (by decide) lines hpre
    have hlt := hlines l hl hin
    rw [htext] at hcr
    by_contra hge
    exact hfirst (q + e) (by omega) (by omega) hcr
  rw [if_pos (by omega)] at hports
  exact ⟨_, _, hports, hended⟩

/-- The first phase leaves the first line and the line of the sequence number
as they are, and what it writes between them completes no pattern. -/
theorem LineEnded.keeps {start mid line rest text' : List UInt8} (hstart : ch '\r' ∉ start)
    (hmid : [ch '\r'] <:+ mid) (hlf : [ch '\n'] <+: line) (hc : ch 'c' ∉ line)
    (h : LineEnded (start ++ (mid ++ (line ++ rest))) text') :
    ∃ mid' rest', text' = start ++ (mid' ++ (line ++ rest')) ∧
      ∀ pat, 0 ∉ pat → pat ≠ [] → pat <:+: mid' → pat <:+: mid := by
  rcases h with rfl | ⟨q, p, hqp, rfl, hport, hend, hfirst⟩
  · exact ⟨mid, rest, rfl, fun _ _ _ h => h⟩
  have hp : start.length ≤ p := by
    by_contra hlt
    exact hstart (mem_of_prefix_drop hend (Nat.lt_of_not_le hlt))
  rw [List.set_append_right _ _ hp]
  rcases Nat.lt_or_ge (p - start.length) mid.length with hin | hout
  · refine ⟨mid.set (p - start.length) 0, rest, ?_, fun pat h1 h2 => infix_of_set h1 h2⟩
    rw [List.set_append_left _ _ hin]
  · -- the first line end after the port is past `mid`, so the port is past `line`
    obtain ⟨m, rfl⟩ := hmid
    obtain ⟨line', rfl⟩ := hlf
    rw [List.length_append, List.length_singleton] at hout
    have hlineEnd : crlf <+: (start ++ (m ++ [ch '\r'] ++ ([ch '\n'] ++ line' ++ rest))).drop
        (start.length + m.length) := by
      rw [← List.drop_drop, List.drop_left, List.append_assoc, List.drop_left]
      exact ⟨line' ++ rest, by simp [crlf, bytes]⟩
    have hq : start.length + (m ++ [ch '\r']).length ≤ q := by
      by_contra hlt
      rw [List.length_append, List.length_singleton] at hlt
      exact hfirst _ (by omega) (by omega) hlineEnd
    obtain ⟨d, rfl⟩ := Nat.exists_eq_add_of_le hq
    rw [← List.drop_drop, ← List.drop_drop, List.drop_left, List.drop_left] at hport
    have hd : ([ch '\n'] ++ line').length ≤ d := by
      by_contra hlt
      exact hc (mem_of_prefix_drop hport (Nat.lt_of_not_le hlt))
    refine ⟨m ++ [ch '\r'], rest.set (p - start.length - (m ++ [ch '\r']).length -
      ([ch '\n'] ++ line').length) 0, ?_, fun _ _ _ h => h⟩
    rw [List.set_append_right _ _ (by rw [List.length_append, List.length_singleton]; omega),
      List.set_append_right _ _ (by omega)]

/-! ## The phases -/

section
variable {text : List UInt8}

/-- The byte at a place of a text that goes on with a part. -/
theorem getD_part {part : List UInt8} {k : Nat} (h : part <+: text.drop k) (i : Nat)
    (hi : i < part.length) : text.getD (k + i) 0 = part[i] := by
  have hle := h.length_le
  rw [List.length_drop] at hle
  rw [List.getD_eq_getElem _ _ (by omega), h.getElem hi, List.getElem_drop]

theorem part_eq {a : List UInt8} {x y : Nat} (h : a <+: text.drop x) (hy : y = x + a.length) :
    part text x y = a := by
  obtain ⟨rest, hrest⟩ := h
  unfold part
  rw [List.drop_take, ← hrest, hy, Nat.add_sub_cancel_left, List.take_left]

theorem holdsAt_exactly {pat l : List UInt8} : holdsAt (exactly pat) l = true ↔ pat <+: l := by
  induction pat generalizing l with
  | nil => simp [exactly, holdsAt]
  | cons c cs ih =>
    cases l with
    | nil => simp [exactly, holdsAt]
    | cons x xs =>
      change (x == c && holdsAt (exactly cs) xs) = true ↔ _
      rw [Bool.and_eq_true, ih, beq_iff_eq, List.cons_prefix_cons, eq_comm]

/-- A scan for a text that comes right after a separator and not before it. -/
theorem firstIn_after_sep {pat before : List UInt8} (after : List UInt8) {sep : UInt8}
    (hsep : sep ∉ pat) {j hi : Nat} (hpre : before ++ sep :: (pat ++ after) <+: text.drop j)
    (hno : ¬ pat <:+: before) (hroom : j + before.length + 1 < hi) :
    firstIn (exactly pat) text j hi = some (j + before.length + 1) := by
  have hfound : pat ++ after <+: text.drop (j + before.length + 1) :=
    prefix_after (a := [sep]) (prefix_after hpre)
  refine firstIn_some.mpr ⟨?_, by omega, hroom, fun i h1 h2 => ?_⟩
  · exact holdsAt_exactly.mpr ((List.prefix_append _ _).trans hfound)
  · rw [← Bool.not_eq_true, holdsAt_exactly]
    intro hi
    obtain ⟨e, rfl⟩ := Nat.exists_eq_add_of_le h1
    obtain ⟨r, hr⟩ := hpre
    rw [← List.drop_drop, ← hr, List.append_assoc, List.cons_append] at hi
    have hin := prefix_before_sep hsep (by omega) hi
    exact hno (hin.isInfix.trans (List.drop_suffix _ _).isInfix)

/-- The command name ends at the first blank. -/
theorem nameIn_part {name : List UInt8} (hpre : name ++ [ch ' '] <+: text) (hsp : ch ' ' ∉ name)
    (htab : ch '\t' ∉ name) (hlen : name.length < 199) : nameIn text = name ∧ hasName text := by
  obtain ⟨rest, rfl⟩ := hpre
  have htake : (name ++ [ch ' '] ++ rest).take (RTSP_PARAM_STRING_MAX - 1) =
      name ++ ch ' ' :: rest.take (198 - name.length) := by
    change List.take 199 _ = _
    rw [List.append_assoc, List.take_append, List.take_of_length_le hlen.le,
      show 199 - name.length = 198 - name.length + 1 by omega]
    rfl
  have hname : nameIn (name ++ [ch ' '] ++ rest) = name := by
    unfold nameIn
    rw [htake]
    refine takeWhile_before (fun y hy => ?_) (by decide) _
    rw [Bool.not_eq_true', ← Bool.not_eq_true, isBlank_iff]
    rintro (rfl | rfl)
    · exact hsp hy
    · exact htab hy
  refine ⟨hname, ?_⟩
  unfold hasName
  rw [hname, htake, List.length_append, List.length_cons]
  omega

/-- The host goes up to the slash after it. -/
theorem urlIn_part {host : List UInt8} {i : Nat}
    (hpre : bytes "rtsp://" ++ host ++ [ch '/'] <+: text.drop (i + 1))
    (hroom : i + 9 < text.length) (hslash : ch '/' ∉ host) (hsp : ch ' ' ∉ host) :
    urlIn text i = (some host, i + 8 + host.length) := by
  rw [List.append_assoc] at hpre
  have hscheme : bytes "rtsp://" <+: text.drop (i + 1) := (List.prefix_append _ _).trans hpre
  have hblanks : pastBlanks text (i + 1) = i + 1 := by
    have hfirst := getD_part hscheme 0 (by decide)
    rw [Nat.add_zero] at hfirst
    rw [pastBlanks_step text (by omega), hfirst]
    rfl
  have hfound : firstIn rtspScheme text (i + 1) (text.length - 8) = some (i + 1) := by
    obtain ⟨rest, hrest⟩ := hscheme
    refine firstIn_some.mpr ⟨?_, le_rfl, by omega, fun e h1 h2 => by omega⟩
    rw [← hrest]
    rfl
  have hhost : (text.drop (i + 1 + 7)).takeWhile
      (fun x => decide (x ≠ ch '/' ∧ x ≠ ch ' ')) = host := by
    obtain ⟨rest, hrest⟩ : host ++ [ch '/'] <+: text.drop (i + 1 + 7) := prefix_after hpre
    rw [← hrest, List.append_assoc]
    refine takeWhile_before (fun y hy => ?_) (by decide) _
    rw [decide_eq_true_iff]
    constructor
    · rintro rfl
      exact hslash hy
    · rintro rfl
      exact hsp hy
  unfold urlIn
  rw [hblanks, hfound]
  simp only
  rw [if_pos (show text.getD (i + 1 + 6) 0 = ch '/' from getD_part hscheme 6 (by decide)), hhost]

theorem trimmed_stop {i k : Nat} (hik : i ≤ k) (hblank : text.getD (k + 1) 0 = ch ' ')
    (hstop : text.getD k 0 ≠ ch ' ') : trimmed text i (k + 2) = k + 1 := by
  rw [trimmed, if_pos ⟨by omega, hblank⟩, trimmed, if_neg (fun hand => hstop hand.2)]

theorem lastSlash_stop {i t k : Nat} (hit : i < t) (htk : t ≤ k)
    (hslash : text.getD t 0 = ch '/') (hno : ∀ j, t < j → j ≤ k → text.getD j 0 ≠ ch '/') :
    lastSlash text i k = t := by
  induction k with
  | zero => omega
  | succ k ih =>
    unfold lastSlash
    rcases Nat.lt_or_ge t (k + 1) with hlt | hge
    · rw [if_pos ⟨by omega, hno (k + 1) hlt le_rfl⟩]
      exact ih (by omega) (fun j h1 h2 => hno j h1 (by omega))
    · obtain rfl : t = k + 1 := by omega
      exact if_neg (fun hand => hand.2 hslash)

/-- The path before `RTSP/` is split at its last slash. -/
theorem pathIn_part {pre suf : List UInt8} {i : Nat}
    (hpre : pre ++ ch '/' :: (suf ++ ch ' ' :: bytes "RTSP/") <+: text.drop (i + 1))
    (hroom : i + pre.length + suf.length + 8 < text.length) (hslash : ch '/' ∉ suf)
    (hsp : ch ' ' ∉ suf) (hno : ¬ bytes "RTSP/" <:+: pre ++ ch '/' :: suf)
    (hp : pre.length ≤ 199) (hs : suf.length ≤ 199) :
    pathIn text i = .ok (some ⟨suf, some (pre, i + pre.length + suf.length + 8)⟩) := by
  have hrest := prefix_after hpre
  have hsuf := prefix_after (a := [ch '/']) hrest
  have hblank := prefix_after hsuf
  generalize hk1 : i + 1 + pre.length = k1 at hrest hsuf hblank
  generalize hk : k1 + suf.length = k
  rw [List.length_singleton, show k1 + 1 + suf.length = k + 1 by omega] at hblank
  rw [List.length_singleton] at hsuf
  have hlast : text.getD k1 0 = ch '/' := getD_part hrest 0 (Nat.succ_pos _)
  have hbyte : ∀ (e : Nat) (he : e < suf.length), text.getD (k1 + 1 + e) 0 = suf[e] :=
    getD_part ((List.prefix_append suf _).trans hsuf)
  have hscan : firstIn (exactly (bytes "RTSP/")) text (i + 1) (text.length - 5) =
      some (k + 2) := by
    have hlen : (pre ++ ch '/' :: suf).length = pre.length + suf.length + 1 := by
      rw [List.length_append, List.length_cons]
      rfl
    have hpath : pre ++ ch '/' :: suf ++ ch ' ' :: (bytes "RTSP/" ++ []) <+: text.drop (i + 1) := by
      rwa [List.append_nil, List.append_assoc, List.cons_append]
    rw [firstIn_after_sep [] (by decide) hpath hno (by omega)]
    exact congrArg some (by omega)
  -- the last byte of the path is its last slash or a byte of the suffix
  have hstop : text.getD k 0 ≠ ch ' ' := by
    rcases Nat.eq_zero_or_pos suf.length with h0 | h0
    · rw [show k = k1 by omega, hlast]
      decide
    · rw [show k = k1 + 1 + (suf.length - 1) by omega, hbyte _ (by omega)]
      intro heq
      exact hsp (heq ▸ List.getElem_mem _)
  have hslashes : lastSlash text i k = k1 := by
    apply lastSlash_stop (by omega) (by omega) hlast
    intro j h1 h2
    obtain ⟨e, rfl⟩ := Nat.exists_eq_add_of_lt h1
    rw [show k1 + e + 1 = k1 + 1 + e by omega, hbyte e (by omega)]
    intro heq
    exact hslash (heq ▸ List.getElem_mem _)
  unfold pathIn
  rw [hscan]
  simp only
  rw [trimmed_stop (by omega) (getD_part hblank 0 (Nat.succ_pos _)) hstop,
    if_neg (Nat.succ_ne_zero k), Nat.add_sub_cancel, hslashes,
    if_neg (by change ¬ _ > 200; omega), if_neg (by change ¬ (_ ∨ _ > 200); omega),
    if_neg (by omega), part_eq ((List.prefix_append suf _).trans hsuf) (by omega),
    part_eq ((List.prefix_append pre _).trans hpre) hk1.symm,
    show k + 7 = i + pre.length + suf.length + 8 by omega]

/-- The value of the first `CSeq:` goes up to the end of its line. -/
theorem seqIn_part {mid v : List UInt8} {i : Nat}
    (hpre : mid ++ ch '\n' :: (bytes "CSeq: " ++ v ++ [ch '\r']) <+: text.drop i)
    (hno : ¬ bytes "CSeq:" <:+: mid) (hv : ∀ x ∈ v, isDigit x = true) (hne : v ≠ [])
    (hlen : v.length ≤ 198) : seqIn text i = some (v, true) := by
  generalize ht : i + mid.length + 1 = t
  have hname : bytes "CSeq: " ++ (v ++ [ch '\r']) <+: text.drop t := by
    rw [← ht, ← List.append_assoc]
    exact prefix_after (a := [ch '\n']) (prefix_after hpre)
  have hvalue : v ++ [ch '\r'] <+: text.drop (t + 6) := prefix_after hname
  have hle := hname.length_le
  rw [List.length_drop, List.length_append, List.length_append, List.length_singleton] at hle
  change 6 + (v.length + 1) ≤ _ at hle
  have hpos := List.length_pos_iff.mpr hne
  have hfound : firstIn (exactly (bytes "CSeq:")) text i (text.length - 5) = some t := by
    rw [← ht]
    exact firstIn_after_sep (ch ' ' :: (v ++ [ch '\r'])) (by decide) hpre hno (by omega)
  -- no digit is a blank or ends the line
  have hother : ∀ x ∈ v, x ≠ ch ' ' ∧ x ≠ ch '\t' ∧ x ≠ ch '\r' ∧ x ≠ ch '\n' := by
    intro x hx
    have hdigit := hv x hx
    refine ⟨?_, ?_, ?_, ?_⟩ <;>
    · rintro rfl
      revert hdigit
      decide
  have hblanks : pastBlanks text (t + 5) = t + 6 := by
    have hblank : text.getD (t + 5) 0 = ch ' ' :=
      getD_part hname 5 (by rw [List.length_append]; exact Nat.lt_add_right _ (by decide))
    have hfirst : text.getD (t + 6) 0 = v[0] :=
      getD_part ((List.prefix_append v _).trans hvalue) 0 hpos
    have hdigit := hother _ (List.getElem_mem hpos)
    rw [pastBlanks_step text (by omega), hblank, if_pos (by decide),
      pastBlanks_step text (by omega), hfirst, if_neg]
    rw [isBlank_iff]
    exact not_or.mpr ⟨hdigit.1, hdigit.2.1⟩
  obtain ⟨rest, hrest⟩ := hvalue
  have hline : (text.drop (t + 6)).take (RTSP_PARAM_STRING_MAX - 1) =
      v ++ ch '\r' :: rest.take (198 - v.length) := by
    change List.take 199 _ = _
    rw [← hrest, List.append_assoc, List.take_append, List.take_of_length_le (by omega),
      show 199 - v.length = 198 - v.length + 1 by omega]
    rfl
  have hend : (v ++ ch '\r' :: rest.take (198 - v.length)).takeWhile
      (fun x => decide (¬ (x = ch '\r' ∨ x = ch '\n'))) = v := by
    refine takeWhile_before (fun x hx => ?_) (by decide) _
    rw [decide_eq_true_iff]
    exact not_or.mpr (hother x hx).2.2
  unfold seqIn
  rw [hfound, Option.map_some, hblanks, hline]
  simp only
  rw [hend, decide_eq_true (by rw [List.length_append, List.length_cons]; omega)]

end

/-! ## The parser -/

theorem RtspRequest.host_fits (r : RtspRequest) : r.host.length < RTSP_BUFFER_SIZE := by
  have hfits := r.fits
  obtain ⟨mid, rest, htext, -⟩ := r.split
  rw [htext] at hfits
  unfold RequestParts.start at hfits
  simp only [List.length_append] at hfits
  omega

/-- Where each phase finds its part of the request. -/
structure Placed (r : RequestParts) (text mid : List UInt8) : Prop where
  name : methodName r.command ++ [ch ' '] <+: text
  url : bytes "rtsp://" ++ r.host ++ [ch '/'] <+:
    text.drop ((methodName r.command).length + 1)
  path : r.pre ++ ch '/' :: (r.suf ++ ch ' ' :: bytes "RTSP/") <+:
    text.drop ((methodName r.command).length + 8 + r.host.length + 1)
  seq : mid ++ ch '\n' :: (bytes "CSeq: " ++ r.seq ++ [ch '\r']) <+:
    text.drop ((methodName r.command).length + 8 + r.host.length + r.pre.length + r.suf.length + 8)

theorem RequestParts.placed (r : RequestParts) (mid rest : List UInt8) :
    Placed r (r.start ++ (mid ++ (ch '\n' :: (bytes "CSeq: " ++ r.seq ++ [ch '\r']) ++ rest)))
      mid := by
  generalize htext : r.start ++ (mid ++ (_ ++ rest)) = text
  unfold RequestParts.start at htext
  rw [List.append_assoc, List.append_assoc (_ ++ _) _ (mid ++ _), ← List.append_assoc mid] at htext
  have h1 : _ <+: text.drop 0 := ⟨[], (List.append_nil _).trans htext⟩
  have h2 := prefix_after h1
  have h3 := prefix_after h2
  have h4 := prefix_after h3
  simp only [List.length_append, List.length_cons, List.length_nil, Nat.zero_add] at h2 h3 h4
  refine ⟨(List.prefix_append _ _).trans h1, (List.prefix_append _ _).trans h2, ?_, ?_⟩
  · convert (List.prefix_append _ _).trans h3 using 2
    change _ = _ + 1 + (7 + _ + 1)
    omega
  · convert (List.prefix_append _ _).trans h4 using 2
    change _ = _ + 1 + (7 + _ + 1) + (_ + (_ + (5 + 1) + 1))
    omega

/-- Each phase still finds its part when the first phase has ended a line. -/
theorem RtspRequest.placed_of_ended (r : RtspRequest) {text : List UInt8}
    (h : LineEnded r.text text) :
    ∃ mid, Placed r.toRequestParts text mid ∧ ¬ bytes "CSeq:" <:+: mid := by
  obtain ⟨mid, rest, htext, hmid, hno⟩ := r.split
  have hline : ch 'c' ∉ ch '\n' :: (bytes "CSeq: " ++ r.seq ++ [ch '\r']) := by
    have hseq : ch 'c' ∉ r.seq := fun hmem => absurd (r.seq_digits _ hmem) (by decide)
    have hname : ch 'c' ∉ bytes "CSeq: " := by decide
    have hlf : ch 'c' ≠ ch '\n' := by decide
    have hcr : ch 'c' ≠ ch '\r' := by decide
    simp [hseq, hname, hlf, hcr]
  rw [htext] at h
  obtain ⟨mid', rest', rfl, hmid'⟩ := h.keeps r.start_no_cr hmid ⟨_, rfl⟩ hline
  exact ⟨mid', r.placed mid' rest', mt (hmid' _ (by decide) (by decide)) hno⟩

theorem commandIn_method {command : RTSP_CMD_TYPES} (hk : command ≠ .RTSP_UNKNOWN) :
    commandIn (methodName command) = some command := by
  cases command with
  | RTSP_UNKNOWN => exact absurd rfl hk
  | _ => rfl

/-- A well-formed request has all its parts, and they are the ones it was made of. -/
theorem Placed.parts {r : RtspRequest} {text mid : List UInt8}
    (h : Placed r.toRequestParts text mid) (hno : ¬ bytes "CSeq:" <:+: mid) :
    nameIn text = methodName r.command ∧
      ∃ i k, Parts text (some r.host) r.suf r.pre r.seq i k := by
  obtain ⟨hname, hurl, hpath, hseq⟩ := h
  obtain ⟨hplain, htab, hshort⟩ := methodName_plain r.command
  obtain ⟨hnameIn, hnamed⟩ := nameIn_part hname hplain.1 htab (by omega)
  have hpl := hpath.length_le
  have hsl := hseq.length_le
  simp only [List.length_append, List.length_cons, List.length_nil, List.length_drop] at hpl hsl
  refine ⟨hnameIn, _, _, hnamed, ?_,
    pathIn_part hpath (by omega) r.suf_slash r.suf_plain.1 r.path_version r.pre_fits r.suf_fits,
    seqIn_part hseq hno r.seq_digits r.seq_some r.seq_fits⟩
  rw [hnameIn]
  exact urlIn_part hurl (by omega) r.host_slash r.host_plain.1

/-- What is read from a well-formed request with a NUL right after it. -/
theorem RtspRequest.read [Libc] (r : RtspRequest) :
    ∃ ports tcp numbers, readText r.text =
      .ok (readingOf ports tcp (methodName r.command) (some r.host) r.suf r.pre r.seq numbers) := by
  obtain ⟨ports, stop, hports, hended⟩ := portsIn_lines r.ports_fit
  obtain ⟨mid, hplaced, hno⟩ := r.placed_of_ended hended
  obtain ⟨hname, i, k, hparts⟩ := hplaced.parts hno
  unfold readText RequestParts.text
  rw [hports, ok_bind]
  simp only
  rw [hparts.read, hname]
  exact ⟨_, _, _, congrArg (Except.map _) List.mapM_pure⟩

/-- Every well-formed request is accepted, from any state of the session, and
the members then hold its parts. The host has no NUL after it, so it is read
back when the array is as the constructor left it. -/
theorem a_well_formed_request_is_parsed [Libc] {size : Nat} (r : RtspRequest) (c : TcpConnection)
    (l : Locals) (aRequest : Block size UInt8) (hsize : r.text.length ≤ size)
    (hreq : aRequest.slice 0 r.text.length = r.text)
    (hnul : l.CurRequest.cell r.text.length = 0) (fuel : Nat) (hf : r.text.length + 202 ≤ fuel) :
    ∃ c', ParseRtspRequest fuel c l aRequest r.text.length = .ok (true, c') ∧
      c'.m_RtspCmdType = r.command ∧ cString c'.m_URLPreSuffix 0 = .ok r.pre ∧
      cString c'.m_URLSuffix 0 = .ok r.suf ∧ cString c'.m_CSeq 0 = .ok r.seq ∧
      (c.m_URLHostPort = TcpConnection.init.m_URLHostPort →
        cString c'.m_URLHostPort 0 = .ok r.host) := by
  have hfits : r.text.length < 10000 := r.fits
  obtain ⟨ports, tcp, numbers, hread⟩ := r.read
  have hreading := reading_copied l aRequest hfits.le hsize
  rw [hreq, readBuffer_holds (holds_put_nul l.CurRequest r.text r.fits hnul), hread] at hreading
  have hname : upToNul (methodName r.command) 0 = methodName r.command :=
    upToNul_eq (methodName_plain r.command).1.2.2.2 0
  have hparse : ParseRtspRequest fuel c l aRequest r.text.length = .ok (true, (readingOf ports tcp
      (methodName r.command) (some r.host) r.suf r.pre r.seq numbers).store c) := by
    rw [ParseRtspRequest_reading c l aRequest (by omega) (fun _ => hf), hreading]
    rfl
  refine ⟨_, hparse, ?_, ?_, ?_, ?_, fun hfirst => ?_⟩
  · change (commandIn (upToNul (methodName r.command) 0)).getD _ = _
    rw [hname, commandIn_method r.known]
    rfl
  · exact (holds_put _ r.pre (Nat.lt_succ_of_le r.pre_fits)).cString r.pre_plain.2.2.2
  · exact (holds_put _ r.suf (Nat.lt_succ_of_le r.suf_fits)).cString r.suf_plain.2.2.2
  · exact (holds_put _ r.seq (Nat.lt_succ_of_le (r.seq_fits.trans (by decide)))).cString
      (digits_no_nul r.seq_digits)
  · refine (holds_put_nul _ r.host r.host_fits ?_).cString r.host_plain.2.2.2
    rw [hfirst]
    rfl

/-- A `SETUP` whose ports come before its sequence number. -/
def setupParts : RequestParts where
  command := .RTSP_SETUP
  host := bytes "127.0.0.1:8554"
  pre := bytes "live"
  suf := bytes "video"
  seq := bytes "3"
  before := [bytes "Transport: RTP/AVP;unicast;client_port=6970-6971"]
  after := [bytes "User-Agent: player"]

theorem setupParts_length : setupParts.text.length ≤ 190 := by decide +kernel

def setupRequest : RtspRequest where
  toRequestParts := setupParts
  known := by decide
  host_plain := by decide
  host_slash := by decide
  pre_plain := by decide
  suf_plain := by decide
  suf_slash := by decide
  path_version := by decide
  pre_fits := by decide
  suf_fits := by decide
  seq_digits := List.all_eq_true.mp rfl
  seq_some := by decide
  seq_fits := by decide
  seq_first := by decide
  ports_fit := by decide
  fits := setupParts_length.trans_lt (by decide)

theorem a_setup_request_is_parsed :
    ∃ c', ParseRtspRequest 392 TcpConnection.init
        { CmdName := Block.ofList [] 0, CurRequest := Block.ofList [] 0, CP := Block.ofList [] 0 }
        (Block.ofList setupRequest.text 0 : Block 1000 UInt8) setupRequest.text.length =
          .ok (true, c') ∧
      c'.m_RtspCmdType = .RTSP_SETUP ∧ cString c'.m_URLPreSuffix 0 = .ok (bytes "live") ∧
      cString c'.m_URLSuffix 0 = .ok (bytes "video") ∧ cString c'.m_CSeq 0 = .ok (bytes "3") ∧
      cString c'.m_URLHostPort 0 = .ok (bytes "127.0.0.1:8554") := by
  obtain ⟨c', hok, hcmd, hpre, hsuf, hseq, hhost⟩ := a_well_formed_request_is_parsed setupRequest
    TcpConnection.init ⟨Block.ofList [] 0, Block.ofList [] 0, Block.ofList [] 0⟩
    (Block.ofList setupRequest.text 0 : Block 1000 UInt8) (setupParts_length.trans (by decide))
    (slice_ofList_self _ _) rfl 392 (Nat.add_le_add_right setupParts_length 202)
  exact ⟨c', hok, hcmd, hpre, hsuf, hseq, hhost rfl⟩

end payloader.rtsp_request
