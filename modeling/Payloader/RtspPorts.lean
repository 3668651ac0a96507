-- The phase of the client ports. The copy of a line is bounded by nothing but
-- the place of its end, and the text behind its `=` is then copied onto its start,
-- over itself when it is long. What is stored comes from the first `client_port`
-- anywhere in the request.
import Mathlib.Algebra.Order.BigOperators.Group.List
import Payloader.Lines
import Payloader.RtspAnswers

set_option autoImplicit false

namespace payloader.rtsp_ports

open payloader.memory payloader.machines payloader.c_strings payloader.lines payloader.rtsp_parser
open payloader.rtsp_reading payloader.rtsp_reading_laws payloader.rtsp_stack

variable {cap : Nat} {b : Block cap UInt8} {text : List UInt8}

/-! ## The copy of the line -/

/-- A request in memory with a NUL right after it. It may hold a NUL too. -/
structure Received (b : Block cap UInt8) (text : List UInt8) : Prop where
  nonempty : 1 ≤ text.length
  short : text.length ≤ RTSP_BUFFER_SIZE
  holds : Holds b text

/-- From the first `client_port` of a text its line ends within 1023 bytes, if at
all. -/
def ShortLine (text : List UInt8) : Prop :=
  ∀ q d, find (bytes "client_port") text = some q → find crlf (text.drop q) = some d → d < 1024

/-- The phase comes to its end, so the copy stays in its array. -/
def CopyFits [Libc] (c : TcpConnection) (b : Block cap UInt8) (CP : Block 1024 UInt8) : Prop :=
  ∃ r, clientPort c b CP = .ok r

theorem portsIn_short [Libc] (h : ShortLine text) : ∃ r, portsIn text = .ok r := by
  rcases hq : find (bytes "client_port") text with _ | q
  · exact ⟨_, portsIn_none hq⟩
  rcases hd : find (bytes "\r\n") (text.drop q) with _ | d
  · exact ⟨_, portsIn_open hq hd⟩
  rw [portsIn_line hq hd, if_pos (h q d hq hd)]
  exact ⟨_, rfl⟩

theorem portsIn_long [Libc] (h : ¬ ShortLine text) : portsIn text = .error .write := by
  unfold ShortLine at h
  simp only [not_forall] at h
  obtain ⟨q, d, hq, hd, hlong⟩ := h
  rw [portsIn_line hq hd]
  exact if_neg hlong

/-- No line of a request of at most 1025 bytes is too long. -/
theorem shortLine_of_length (h : text.length ≤ 1025) : ShortLine text := by
  intro q d _ hd
  have hle : d + 2 ≤ (text.drop q).length := find_le (by decide) hd
  rw [List.length_drop] at hle
  omega

theorem clientPort_received [Libc] (h : Received b text) (c : TcpConnection)
    (CP : Block 1024 UInt8) :
    clientPort c b CP = (portsIn (upToNul text 0)).map
      (fun r => (putPorts c r.1, r.2.elim b (fun p => b.put p [0]))) := by
  have hseen := cString_holds h.holds 0 (Nat.zero_le _)
  obtain ⟨hnul, htext⟩ := cString_ok hseen
  rw [htext]
  exact clientPort_text (holds_textAt hnul) (nul_notMem_textAt b 0) c CP

/-- Of the requests with a NUL right after them the copy fits exactly for those
whose line is short up to the first NUL. For the others it leaves its array. -/
theorem the_copy_fits_exactly_when_the_line_is_short [Libc] (h : Received b text)
    (c : TcpConnection) (CP : Block 1024 UInt8) :
    (CopyFits c b CP ↔ ShortLine (upToNul text 0)) ∧
      (¬ ShortLine (upToNul text 0) → clientPort c b CP = .error .write) ∧
      (text.length ≤ 1025 → CopyFits c b CP) := by
  have hphase := clientPort_received h c CP
  have hlong : ¬ ShortLine (upToNul text 0) → clientPort c b CP = .error .write := by
    intro hno
    rw [hphase, portsIn_long hno]
    rfl
  have hshort : ShortLine (upToNul text 0) → CopyFits c b CP := by
    intro hyes
    obtain ⟨r, hr⟩ := portsIn_short hyes
    rw [CopyFits, hphase, hr]
    exact ⟨_, rfl⟩
  refine ⟨⟨fun ⟨r, hr⟩ => ?_, hshort⟩, hlong, fun hle => hshort (shortLine_of_length ?_)⟩
  · by_contra hno
    rw [hlong hno] at hr
    cases hr
  · exact (upToNul_starts text 0).length_le.trans (by rwa [List.drop_zero])

/-- A text with a NUL after it, in a block that ends there. -/
def blockOf (text : List UInt8) : Block (text.length + 1) UInt8 :=
  (Block.ofList [] 0 : Block (text.length + 1) UInt8).put 0 (text ++ [0])

theorem blockOf_received (h1 : 1 ≤ text.length) (h2 : text.length ≤ RTSP_BUFFER_SIZE) :
    Received (blockOf text) text := ⟨h1, h2, holds_put _ text (Nat.lt_succ_self _)⟩

theorem the_line_of_a_setup_fits :
    CopyFits TcpConnection.init (blockOf setupRequest) (Block.ofList [] 0) := by
  have hlen := setupRequest_length
  have hreceived : Received (blockOf setupRequest) setupRequest :=
    blockOf_received (by omega) (by rw [hlen]; decide)
  exact (the_copy_fits_exactly_when_the_line_is_short hreceived _ _).2.2 (by omega)

/-- A `SETUP` with a line of 1035 bytes. -/
def longSetup : List UInt8 := bytes "SETUP " ++ longLine

theorem longSetup_length : longSetup.length = 1043 := by
  unfold longSetup
  rw [List.length_append, longLine_length]
  rfl

theorem a_long_line_leaves_its_copy :
    ¬ ∀ (cap : Nat) (b : Block cap UInt8) (text : List UInt8) (c : TcpConnection)
      (CP : Block 1024 UInt8), Received b text → CopyFits c b CP := by
  intro hall
  have hlen := longSetup_length
  have hreceived : Received (blockOf longSetup) longSetup :=
    blockOf_received (by omega) (by rw [hlen]; decide)
  have hnul : 0 ∉ longSetup := by
    unfold longSetup
    rw [List.mem_append]
    exact not_or.mpr ⟨by decide, nul_notMem_longLine⟩
  have hopen : ¬ PortsEnd (bytes "SETUP ") := by
    unfold PortsEnd
    rw [show find (bytes "client_port") (bytes "SETUP ") = none by decide]
    simp
    decide
  obtain ⟨r, hr⟩ := hall _ _ _ TcpConnection.init (Block.ofList [] 0) hreceived
  rw [clientPort_received hreceived, upToNul_eq hnul, List.drop_zero] at hr
  unfold longSetup at hr
  rw [portsIn_longLine hopen] at hr
  cases hr

/-! ## The ports that a request names -/

/-- `p` or `p-q`. The second port is the next one when it is left out. -/
def portPair (value : List UInt8) : Option (Nat × Nat) :=
  let p := value.takeWhile isDigit
  if p = [] then none
  else
    match value.dropWhile isDigit with
    | [] => some (decimal p, decimal p + 1)
    | x :: q =>
      if x = ch '-' ∧ q ≠ [] ∧ q.all isDigit = true then some (decimal p, decimal q) else none

/-- The well-formed `client_port` parameters of a `Transport` line. -/
def namedIn (field : List UInt8) : List (Nat × Nat) :=
  if nameOf ':' field = bytes "transport" then
    ((valueOf ':' field).splitOnP (fun x => x = ch ';' ∨ x = ch ',')).filterMap (fun part =>
      if nameOf '=' part = bytes "client_port" then portPair (valueOf '=' part) else none)
  else []

/-- The ports that a request names. Only a `SETUP` does. -/
def named (text : List UInt8) : List (Nat × Nat) :=
  if rtsp_answers.token text = bytes "SETUP" then (fieldsOf text).flatMap namedIn else []

def Port (n : Nat) : Prop := 1 ≤ n ∧ n ≤ 65535

instance (n : Nat) : Decidable (Port n) := inferInstanceAs (Decidable (_ ∧ _))

/-- Those of them that are ports. -/
def wanted (text : List UInt8) : List (Nat × Nat) :=
  (named text).filter (fun a => Port a.1 ∧ Port a.2)

example : wanted setupRequest = [(50, 51)] := by decide +kernel

/-! ## The number of them -/

theorem splitOnP_length {α : Type} (p : α → Bool) (l : List α) :
    (l.splitOnP p).length ≤ l.length + 1 := by
  induction l with
  | nil => simp
  | cons x xs ih =>
    rw [List.splitOnP_cons_eq_if_modifyHead]
    split
    · simpa using ih
    · simp only [List.length_modifyHead, List.length_cons]
      omega

theorem namedIn_length (field : List UInt8) : (namedIn field).length ≤ field.length := by
  unfold namedIn
  split
  · rename_i hname
    have hfield : field ≠ [] := by
      rintro rfl
      revert hname
      decide
    have hpos := List.length_pos_iff.mpr hfield
    have hvalue : (valueOf ':' field).length ≤ field.length - 1 := by
      refine (trim_length _).trans ?_
      rw [List.length_drop]
      exact Nat.sub_le_sub_right (List.dropWhile_suffix _).length_le 1
    refine (List.length_filterMap_le _ _).trans ((splitOnP_length _ _).trans ?_)
    omega
  · exact Nat.zero_le _

theorem named_length (text : List UInt8) : (named text).length ≤ text.length := by
  unfold named
  split
  · refine le_trans ?_ (fieldsOf_length text)
    rw [List.length_flatMap, List.length_flatten]
    exact List.sum_le_sum fun field _ => namedIn_length field
  · exact Nat.zero_le _

/-- Some port is not in a short list. -/
theorem exists_port (ps : List Nat) (h : ps.length < 65536) : ∃ p : BitVec 16, p.toNat ∉ ps := by
  by_contra hall
  simp only [not_exists, not_not] at hall
  have hsub : List.range 65536 ⊆ ps := by
    intro i hi
    have hport := hall (BitVec.ofNat 16 i)
    rwa [BitVec.toNat_ofNat, Nat.mod_eq_of_lt (List.mem_range.mp hi)] at hport
  have hle := List.nodup_range.length_le_of_subset hsub
  rw [List.length_range] at hle
  omega

/-! ## The ports that the parser stores -/

/-- What the search for the ports sees: the request and the stack behind it, up
to the first NUL. -/
def seenBy {size : Nat} (l : Locals) (aRequest : Block size UInt8) (n : Nat) : List UInt8 :=
  textAt (l.CurRequest.put 0 (aRequest.slice 0 n)) 0

/-- The line of the first `client_port`. -/
def firstLine (seen : List UInt8) : Option (List UInt8) := do
  let q ← find (bytes "client_port") seen
  let d ← find crlf (seen.drop q)
  some ((seen.drop q).take d)

/-- The text between `=` and `-` in it. -/
def numberText (seen : List UInt8) : Option (List UInt8) := do
  let line ← firstLine seen
  let x ← find (bytes "=") line
  let y ← find (bytes "-") (line.drop (x + 1))
  some ((line.drop (x + 1)).take y)

/-- Behind the first `=` the line is longer than up to there, so that it overlaps
its copy. -/
def Overlaps (seen : List UInt8) : Prop :=
  ∃ line x, firstLine seen = some line ∧ find (bytes "=") line = some x ∧
    x < (line.drop (x + 1)).length

/-- The ports of the client, as the session holds them. -/
def portsOf (c : TcpConnection) : BitVec 16 × BitVec 16 := (c.m_ClientRTPPort, c.m_ClientRTCPPort)

/-- The ports after the phase, from those before it. -/
def portsAfter (port : Option (BitVec 16)) (old : BitVec 16 × BitVec 16) : BitVec 16 × BitVec 16 :=
  port.elim old (fun p => (p, p + 1))

variable {old new : BitVec 16 × BitVec 16} {seen : List UInt8} {ports : Option (BitVec 16)}
  {stop : Option Nat}

theorem portsIn_first [Libc] (h : portsIn text = .ok (ports, stop)) :
    ports = (firstLine text).bind portOf := by
  rcases hq : find (bytes "client_port") text with _ | q
  · rw [portsIn_none hq] at h
    cases h
    unfold firstLine
    rw [hq]
    rfl
  rcases hd : find crlf (text.drop q) with _ | d
  · rw [portsIn_open hq hd] at h
    cases h
    unfold firstLine
    simp [hq, hd]
  rw [portsIn_line hq hd] at h
  split at h
  · cases h
    unfold firstLine
    simp only [hq, hd, Option.bind_eq_bind, Option.bind_some]
  · cases h

/-- Where nothing overlaps, the number in the line is stored. -/
theorem portOf_apart [Libc] (h : ¬ Overlaps seen) :
    (firstLine seen).bind portOf = (numberText seen).map (fun t => (atoi t).setWidth 16) := by
  unfold numberText
  rcases hline : firstLine seen with _ | line
  · rfl
  simp only [Option.bind_some, Option.bind_eq_bind, portOf]
  rcases hx : find (bytes "=") line with _ | x
  · rfl
  have hapart : (line.drop (x + 1)).length < x + 1 := by
    by_contra hlt
    exact h ⟨line, x, hline, hx, by omega⟩
  simp only [Option.bind_some, copiedDown_apart hapart]
  cases find (bytes "-") (line.drop (x + 1)) <;> rfl

/-- The port that a request is read with. -/
theorem reading_ports [Libc] {size : Nat} {l : Locals} {aRequest : Block size UInt8} {n : Nat}
    {r : Reading} (hn : n < 2 ^ 32) (hr : reading l aRequest n = .ok r) :
    n ≤ 10000 ∧ ShortLine (seenBy l aRequest n) ∧
      r.ports = (firstLine (seenBy l aRequest n)).bind portOf := by
  obtain ⟨-, hfits, hread⟩ := reading_ok hn hr
  obtain ⟨⟨ports, b'⟩, hports, hparts⟩ := bind_eq_ok hread
  obtain ⟨seen, hseen, hports⟩ := bind_eq_ok hports
  obtain ⟨⟨ports', stop⟩, hin, hports⟩ := bind_eq_ok hports
  obtain rfl := (Prod.mk.inj (Except.ok.inj hports)).1
  have htext : seen = seenBy l aRequest n := (cString_ok hseen).2
  rw [htext] at hin
  refine ⟨hfits, ?_, (readParts_ports hparts).trans (portsIn_first hin)⟩
  by_contra hlong
  rw [portsIn_long hlong] at hin
  cases hin

/-- What a run of the parser leaves in the two members. -/
theorem parse_ports [Libc] {size : Nat} {c c' : TcpConnection} {l : Locals}
    {aRequest : Block size UInt8} {n : Nat} {accepted : Bool} (hn : n < 2 ^ 32)
    (h : ParseRtspRequest TURNS c l aRequest n = .ok (accepted, c')) :
    n ≤ 10000 ∧ ShortLine (seenBy l aRequest n) ∧
      portsOf c' = portsAfter ((firstLine (seenBy l aRequest n)).bind portOf) (portsOf c) := by
  rw [ParseRtspRequest_turns c l aRequest hn] at h
  rcases hr : reading l aRequest n with e | r
  · rw [hr] at h
    cases h
  rw [hr] at h
  cases h
  obtain ⟨hfits, hshort, hports⟩ := reading_ports hn hr
  refine ⟨hfits, hshort, ?_⟩
  change portsOf (putPorts c r.ports) = _
  rw [hports]
  cases (firstLine (seenBy l aRequest n)).bind portOf <;> rfl

/-! ## Ports that are as the request says -/

/-- The session holds these two ports. -/
def Are (held : BitVec 16 × BitVec 16) (a : Nat × Nat) : Prop :=
  held.1.toNat = a.1 ∧ held.2.toNat = a.2

/-- The session holds the ports that the request names. It keeps its own when the
request names none, or a number that is no port. A 0 is free to be stored. -/
def PortsRight (text : List UInt8) (old new : BitVec 16 × BitVec 16) : Prop :=
  if wanted text = [] then new = old ∨ ∃ a ∈ named text, Are new a else ∃ a ∈ wanted text, Are new a

/-- The line of the first `client_port` has a number that is the first port in 16
bits, with the second next to it. Or it has none, and the session holds the two
already. -/
def LineGives (seen : List UInt8) (old : BitVec 16 × BitVec 16) (a : Nat × Nat) : Prop :=
  match numberText seen with
  | none => Are old a
  | some t => ((atoi t).setWidth 16).toNat = a.1 ∧ a.2 = (a.1 + 1) % 65536

/-- The line of the first `client_port` leaves the session its ports. -/
def LineKeeps (seen : List UInt8) (old : BitVec 16 × BitVec 16) : Prop :=
  LineGives seen old (old.1.toNat, old.2.toNat)

/-- The first `client_port` line of what is seen does not overlap its copy, and
it fits what the request names. -/
def FirstLineFits (text seen : List UInt8) (old : BitVec 16 × BitVec 16) : Prop :=
  ¬ Overlaps seen ∧
    if wanted text = [] then LineKeeps seen old ∨ ∃ a ∈ named text, LineGives seen old a
    else ∃ a ∈ wanted text, LineGives seen old a

theorem are_self (held : BitVec 16 × BitVec 16) :
    new = held ↔ Are new (held.1.toNat, held.2.toNat) := by
  unfold Are
  rw [BitVec.toNat_inj, BitVec.toNat_inj, Prod.ext_iff]

theorem lineGives_iff (a : Nat × Nat)
    (hnew : new = portsAfter ((numberText seen).map (fun t => (atoi t).setWidth 16)) old) :
    Are new a ↔ LineGives seen old a := by
  obtain ⟨p, q⟩ := a
  subst hnew
  unfold LineGives portsAfter
  rcases numberText seen with _ | t
  · exact Iff.rfl
  · simp only [Option.map_some, Option.elim_some, Are, BitVec.toNat_add]
    constructor
    · rintro ⟨rfl, rfl⟩
      exact ⟨rfl, rfl⟩
    · rintro ⟨rfl, rfl⟩
      exact ⟨rfl, rfl⟩

theorem portsRight_iff [Libc] (hapart : ¬ Overlaps seen)
    (hnew : new = portsAfter ((firstLine seen).bind portOf) old) :
    PortsRight text old new ↔ FirstLineFits text seen old := by
  rw [portOf_apart hapart] at hnew
  unfold PortsRight FirstLineFits LineKeeps
  rw [and_iff_right hapart]
  simp only [lineGives_iff _ hnew, are_self old]

/-! ## A first line that is the parameter itself -/

/-- The number of a text of digits. -/
theorem atoi_digits {ds : List UInt8} (h : ∀ x ∈ ds, isDigit x = true) (hlt : decimal ds < 2 ^ 16) :
    ((atoi ds).setWidth 16).toNat = decimal ds := by
  have hsigned : signedDigits ds = (false, ds) := by
    unfold signedDigits
    cases ds with
    | nil => rfl
    | cons d ds =>
      obtain ⟨hspace, hminus, hplus⟩ := isDigit_not (h d List.mem_cons_self)
      rw [List.dropWhile_cons_of_neg (by simp [hspace])]
      simp only
      rw [if_neg hminus, if_neg hplus, List.takeWhile_eq_self_iff.mpr h]
  have hvalue : strtol ds = (decimal ds : Int) := by
    unfold strtol
    rw [hsigned]
    simp only [Bool.false_eq_true, if_false]
    omega
  unfold atoi
  rw [hvalue, BitVec.ofInt_natCast, BitVec.toNat_setWidth, BitVec.toNat_ofNat]
  omega

theorem digit_not_dash {ds : List UInt8} (h : ∀ x ∈ ds, isDigit x = true) : ch '-' ∉ ds :=
  fun hmem => (isDigit_not (h _ hmem)).2.1 rfl

/-- The first line is the parameter `client_port=p-`, and at most 11 bytes stand
behind its `=`. -/
def FirstParameter (seen : List UInt8) (p : Nat) : Prop :=
  ∃ ds rest, firstLine seen = some (bytes "client_port" ++ ch '=' :: (ds ++ ch '-' :: rest)) ∧
    (∀ x ∈ ds, isDigit x = true) ∧ decimal ds = p ∧ (ds ++ ch '-' :: rest).length ≤ 11

theorem FirstParameter.number {p : Nat} (h : FirstParameter seen p) :
    ¬ Overlaps seen ∧ ∃ ds, numberText seen = some ds ∧ (∀ x ∈ ds, isDigit x = true) ∧
      decimal ds = p := by
  obtain ⟨ds, rest, hline, hdigits, hvalue, hshort⟩ := h
  have heq : find (bytes "=") (bytes "client_port" ++ ch '=' :: (ds ++ ch '-' :: rest)) = some 11 :=
    find_sep (by decide) _
  have hdash : find (bytes "-") (ds ++ ch '-' :: rest) = some ds.length :=
    find_sep (digit_not_dash hdigits) rest
  refine ⟨?_, ds, ?_, hdigits, hvalue⟩
  · rintro ⟨line, x, hline', hx, hlt⟩
    rw [hline] at hline'
    cases hline'
    rw [heq] at hx
    cases hx
    change 11 < (ds ++ ch '-' :: rest).length at hlt
    omega
  · unfold numberText
    rw [hline]
    simp only [Option.bind_eq_bind, Option.bind_some, heq]
    change (find (bytes "-") (ds ++ ch '-' :: rest)).bind _ = _
    rw [hdash, Option.bind_some]
    exact congrArg some List.take_left

theorem FirstParameter.stored [Libc] {p : Nat} (h : FirstParameter seen p) (hp : p < 65536) :
    ∃ port : BitVec 16, (firstLine seen).bind portOf = some port ∧ port.toNat = p := by
  obtain ⟨hapart, ds, hnumber, hdigits, hvalue⟩ := h.number
  refine ⟨(atoi ds).setWidth 16, ?_, (atoi_digits hdigits (by omega)).trans hvalue⟩
  rw [portOf_apart hapart, hnumber, Option.map_some]

/-- The first line of a text stays the first when more text follows. -/
theorem firstLine_prefix {a : List UInt8} (h : a <+: seen) {line : List UInt8}
    (hline : firstLine a = some line) : firstLine seen = some line := by
  obtain ⟨t, rfl⟩ := h
  obtain ⟨q, hq, hline⟩ := Option.bind_eq_some_iff.mp hline
  obtain ⟨d, hd, hline⟩ := Option.bind_eq_some_iff.mp hline
  have hqle := find_le (by decide) hq
  have hdle : d + 2 ≤ (a.drop q).length := find_le (by decide) hd
  have hdrop : (a ++ t).drop q = a.drop q ++ t := List.drop_append_of_le_length (by omega)
  unfold firstLine
  simp only [Option.bind_eq_bind, find_append (by decide) hq t, Option.bind_some, hdrop,
    find_append (by decide) hd t]
  rw [List.take_append_of_le_length (by omega)]
  exact hline

theorem seenBy_starts {size n : Nat} {l : Locals} {aRequest : Block size UInt8} (hn : n ≤ 10000) :
    upToNul (aRequest.slice 0 n) 0 <+: seenBy l aRequest n := by
  have hlen : (aRequest.slice 0 n).length = n := slice_length aRequest 0 n
  have hstarts := starts_put l.CurRequest (hlen.le.trans hn)
  unfold seenBy
  rw [textAt_starts hstarts (Nat.zero_le _)]
  split
  · exact List.prefix_refl _
  · rename_i hnul
    rw [upToNul_drop hnul]
    exact List.prefix_append _ _

/-- A first line in the request itself decides, whatever is behind the request. -/
theorem FirstParameter.read [Libc] {size n p : Nat} {l : Locals} {aRequest : Block size UInt8}
    {r : Reading} (h : FirstParameter (upToNul (aRequest.slice 0 n) 0) p) (hn : n < 2 ^ 32)
    (hr : reading l aRequest n = .ok r) (hp : p < 65536) :
    ∃ port : BitVec 16, r.ports = some port ∧ port.toNat = p := by
  obtain ⟨hfits, -, hports⟩ := reading_ports hn hr
  obtain ⟨ds, rest, hline, hnumber⟩ := h
  have hseen : FirstParameter (seenBy l aRequest n) p :=
    ⟨ds, rest, firstLine_prefix (seenBy_starts hfits) hline, hnumber⟩
  rw [hports]
  exact hseen.stored hp

/-- With the parameter itself in the first line, only the second port decides. -/
theorem FirstParameter.fits_iff {p q : Nat} (h : FirstParameter seen p)
    (hone : wanted text = [(p, q)]) : FirstLineFits text seen old ↔ q = p + 1 := by
  obtain ⟨hapart, ds, hnumber, hdigits, hvalue⟩ := h.number
  have hports : Port p ∧ Port q := by
    have hmem : (p, q) ∈ wanted text := by
      rw [hone]
      exact List.mem_singleton_self _
    simpa using (List.mem_filter.mp hmem).2
  have hp := hports.1.2
  have hq := hports.2
  have hstored : ((atoi ds).setWidth 16).toNat = p :=
    (atoi_digits hdigits (by omega)).trans hvalue
  unfold FirstLineFits
  rw [and_iff_right hapart, hone, if_neg (List.cons_ne_nil _ _)]
  simp only [List.mem_singleton, exists_eq_left, LineGives, hnumber, hstored, true_and]
  unfold Port at hq
  omega

/-! ## A first line that overlaps its copy -/

open payloader.printing (digits digits_isDigit digits_length_le decimal_digits)

/-- A C library that leaves the text `p-` of every copy that overlaps. -/
@[reducible] def writing (p : BitVec 16) : Libc where
  overlapped line d :=
    (digits p.toNat ++ [ch '-'] ++ List.replicate ((line.drop d).length + 1) 0).take
      ((line.drop d).length + 1)
  overlapped_length line d := by
    rw [List.length_take, List.length_append, List.length_replicate]
    omega

theorem writing_copied (p : BitVec 16) {line : List UInt8} {d : Nat} (h : d ≤ (line.drop d).length)
    (hroom : 6 ≤ (line.drop d).length) :
    @copiedDown (writing p) line d = digits p.toNat ++ [ch '-'] := by
  have hdigits : (digits p.toNat).length ≤ 5 :=
    digits_length_le (by decide) (by have := p.isLt; omega)
  have hplain : ∀ x ∈ digits p.toNat ++ [ch '-'], decide (x ≠ 0) = true := by
    refine ne_nul (fun hx => ?_)
    rcases List.mem_append.mp hx with hx | hx
    · exact digits_no_nul (digits_isDigit _) hx
    · revert hx
      decide
  have hlen : (digits p.toNat ++ [ch '-']).length ≤ (line.drop d).length := by
    rw [List.length_append, List.length_singleton]
    omega
  obtain ⟨k, hk⟩ := Nat.exists_eq_add_of_le hlen
  have hleft : (writing p).overlapped line d =
      digits p.toNat ++ [ch '-'] ++ 0 :: List.replicate k 0 := by
    change (digits p.toNat ++ [ch '-'] ++ List.replicate ((line.drop d).length + 1) 0).take
      ((line.drop d).length + 1) = _
    rw [hk, Nat.add_assoc, List.take_length_add_append, List.take_replicate, Nat.min_eq_left,
      List.replicate_succ]
    omega
  unfold copiedDown upToNul
  rw [if_neg (Nat.not_lt.mpr h), hleft, List.drop_zero, List.append_assoc, List.cons_append,
    List.takeWhile_append_of_pos hplain, List.takeWhile_cons_of_neg (by decide), List.append_nil]

/-- The first line starts with the parameter's name. -/
theorem firstLine_starts {line : List UInt8} (h : firstLine seen = some line) :
    bytes "client_port" <+: line := by
  obtain ⟨q, hq, h⟩ := Option.bind_eq_some_iff.mp h
  obtain ⟨d, hd, h⟩ := Option.bind_eq_some_iff.mp h
  cases h
  obtain ⟨rest, hrest⟩ := (find_some hq).1
  rw [← hrest] at hd
  have hplace : (bytes "client_port").length ≤ d := find_behind (by decide) hd
  rw [← hrest, List.prefix_take_iff]
  exact ⟨⟨rest, rfl⟩, hplace⟩

/-- Every port may be stored when the first line overlaps its copy. -/
theorem Overlaps.any (h : Overlaps seen) (p : BitVec 16) :
    (firstLine seen).bind (@portOf (writing p)) = some p := by
  obtain ⟨line, x, hline, hx, hlong⟩ := h
  have hplace : 11 ≤ x := by
    obtain ⟨rest, rfl⟩ := firstLine_starts hline
    exact find_behind (show ch '=' ∉ bytes "client_port" by decide) hx
  have hdash : find (bytes "-") (digits p.toNat ++ [ch '-']) = some (digits p.toNat).length :=
    find_sep (digit_not_dash (digits_isDigit _)) []
  rw [hline, Option.bind_some]
  unfold portOf
  rw [hx]
  simp only [writing_copied p (show x + 1 ≤ (line.drop (x + 1)).length from hlong) (by omega)]
  rw [hdash, Option.map_some, List.take_left]
  refine congrArg some (BitVec.eq_of_toNat_eq ?_)
  rw [atoi_digits (digits_isDigit _) (by rw [decimal_digits]; exact p.isLt), decimal_digits]

/-- So some port is stored that nobody named. -/
theorem Overlaps.wrong (h : Overlaps seen) (text : List UInt8) (hshort : text.length < 65535)
    (old : BitVec 16 × BitVec 16) : ∃ p : BitVec 16,
      ¬ PortsRight text old (portsAfter ((firstLine seen).bind (@portOf (writing p))) old) := by
  obtain ⟨p, hp⟩ := exists_port (old.1.toNat :: (named text).map (·.1)) (by
    have hlen := named_length text
    rw [List.length_cons, List.length_map]
    omega)
  rw [List.mem_cons, not_or] at hp
  have hnamed : ¬ ∃ a ∈ named text, Are (p, p + 1) a := by
    rintro ⟨a, ha, hport, -⟩
    exact hp.2 (List.mem_map.mpr ⟨a, ha, hport.symm⟩)
  refine ⟨p, ?_⟩
  rw [h.any p]
  change ¬ PortsRight text old (p, p + 1)
  unfold PortsRight
  split
  · rintro (hkept | hsome)
    · exact hp.1 (by rw [← hkept])
    · exact hnamed hsome
  · rintro ⟨a, ha, hare⟩
    exact hnamed ⟨a, List.mem_of_mem_filter ha, hare⟩

/-! ## The same request with another C library -/

theorem portsIn_other (L L' : Libc) (h : @portsIn L text = .ok (ports, stop)) :
    ∃ ports', @portsIn L' text = .ok (ports', stop) := by
  rcases hq : find (bytes "client_port") text with _ | q
  · rw [@portsIn_none L text hq] at h
    cases h
    exact ⟨_, @portsIn_none L' text hq⟩
  rcases hd : find (bytes "\r\n") (text.drop q) with _ | d
  · rw [@portsIn_open L text q hq hd] at h
    cases h
    exact ⟨_, @portsIn_open L' text q hq hd⟩
  rw [@portsIn_line L text q d hq hd] at h
  split at h
  · rename_i hshort
    cases h
    exact ⟨_, (@portsIn_line L' text q d hq hd).trans (if_pos hshort)⟩
  · cases h

/-- The port is not looked at by the phases after it. -/
theorem readParts_other {tcp : Bool} {number : Nat → Except Fault (Option (BitVec 32))}
    (ports ports' : Option (BitVec 16)) :
    readParts ports' tcp number text =
      (readParts ports tcp number text).map (fun r => { r with ports := ports' }) := by
  unfold readParts
  by_cases hname : hasName text
  · rw [if_pos hname, if_pos hname]
    rcases urlIn text (nameIn text).length with ⟨host, i⟩
    simp only
    rcases pathIn text i with e | _ | ⟨suffix, _ | ⟨preSuffix, k⟩⟩
    · rfl
    · rfl
    · rfl
    simp only [ok_bind]
    rcases seqIn text k with _ | ⟨seq, _ | _⟩
    · rfl
    · rfl
    simp only
    cases (numberStarts text (text.length + 1) k).mapM number <;> rfl
  · rw [if_neg hname, if_neg hname]
    rfl

/-- A request that is read to an end with one C library is with every other. -/
theorem reading_other (L L' : Libc) {size n : Nat} {l : Locals} {aRequest : Block size UInt8}
    {r : Reading} (h : @reading L size l aRequest n = .ok r) :
    ∃ r', @reading L' size l aRequest n = .ok r' := by
  obtain ⟨b, hcopy, h⟩ := bind_eq_ok h
  obtain ⟨⟨ports, b'⟩, hports, hparts⟩ := bind_eq_ok h
  obtain ⟨seen, hseen, hports⟩ := bind_eq_ok hports
  obtain ⟨⟨ports', stop⟩, hin, hports⟩ := bind_eq_ok hports
  cases hports
  obtain ⟨ports', hin'⟩ := portsIn_other L L' hin
  refine ⟨{ r with ports := ports' }, ?_⟩
  unfold reading readBuffer readPorts
  rw [hcopy, ok_bind, hseen, ok_bind, hin', ok_bind]
  exact (readParts_other ports ports').trans (congrArg _ hparts)

/-! ## The parser as a whole -/

/-- The parser comes to an end. The C library has no part in it. -/
def Returns {size : Nat} (c : TcpConnection) (l : Locals) (aRequest : Block size UInt8) (n : Nat) :
    Prop :=
  ∃ (_ : Libc) (r : Bool × TcpConnection), ParseRtspRequest TURNS c l aRequest n = .ok r

/-- Whatever the C library does to a line that overlaps its copy, the ports are as
the request says. -/
def RightInEvery {size : Nat} (c : TcpConnection) (l : Locals) (aRequest : Block size UInt8)
    (n : Nat) : Prop :=
  ∀ (_ : Libc) (accepted : Bool) (c' : TcpConnection),
    ParseRtspRequest TURNS c l aRequest n = .ok (accepted, c') →
      PortsRight (aRequest.slice 0 n) (portsOf c) (portsOf c')

theorem Returns.every {size n : Nat} {c : TcpConnection} {l : Locals} {aRequest : Block size UInt8}
    (h : Returns c l aRequest n) (hn : n < 2 ^ 32) (L : Libc) :
    ∃ r, @ParseRtspRequest L size TURNS c l aRequest n = .ok r := by
  obtain ⟨L', res, hrun⟩ := h
  rw [@ParseRtspRequest_turns L' size n c l aRequest hn] at hrun
  rcases hr : @reading L' size l aRequest n with e | r
  · rw [hr] at hrun
    cases hrun
  obtain ⟨r', hr'⟩ := reading_other L' L hr
  rw [@ParseRtspRequest_turns L size n c l aRequest hn, hr']
  exact ⟨_, rfl⟩

theorem rightInEvery_iff {size n : Nat} {c : TcpConnection} {l : Locals}
    {aRequest : Block size UInt8} (hn : n < 2 ^ 32) (h : Returns c l aRequest n) :
    RightInEvery c l aRequest n ↔
      FirstLineFits (aRequest.slice 0 n) (seenBy l aRequest n) (portsOf c) := by
  constructor
  · intro hright
    by_cases hover : Overlaps (seenBy l aRequest n)
    · have hlen : (aRequest.slice 0 n).length = n := slice_length aRequest 0 n
      obtain ⟨r, hr⟩ := h.every hn (writing 0)
      have hfits : n ≤ 10000 := (@parse_ports (writing 0) _ _ _ _ _ _ _ hn hr).1
      obtain ⟨p, hwrong⟩ := hover.wrong (aRequest.slice 0 n) (by omega) (portsOf c)
      let _ := writing p
      obtain ⟨⟨accepted, c'⟩, hrun⟩ := h.every hn (writing p)
      have hports := hright (writing p) accepted c' hrun
      rw [(parse_ports hn hrun).2.2] at hports
      exact absurd hports hwrong
    · obtain ⟨L, ⟨accepted, c'⟩, hrun⟩ := h
      obtain ⟨-, -, hports⟩ := parse_ports hn hrun
      exact (portsRight_iff hover hports).mp (hright L accepted c' hrun)
  · intro hfits L accepted c' hrun
    obtain ⟨-, -, hports⟩ := parse_ports hn hrun
    exact (portsRight_iff hfits.1 hports).mpr hfits

/-- A request that the server hands on, with a NUL somewhere behind it. -/
structure HandedOn {size : Nat} (l : Locals) (aRequest : Block size UInt8) (n : Nat) : Prop where
  nonempty : 1 ≤ n
  received : n ≤ size
  short : n ≤ RTSP_BUFFER_SIZE
  first : rtsp_bounds.Accepted (aRequest.cell 0)
  nul : NulAfter l.CurRequest n

/-- A NUL that is put in a block leaves the others in it. -/
theorem nul_mem_put {size off n p : Nat} {b : Block size UInt8} (h : 0 ∈ b.slice off n) :
    0 ∈ (b.put p [0]).slice off n := by
  obtain ⟨i, hi, hzero⟩ := List.mem_map.mp h
  refine List.mem_map.mpr ⟨i, hi, ?_⟩
  rcases eq_or_ne (off + i) p with rfl | hne
  · exact put_cell_inside b (off + i) 0 [0] Nat.one_pos
  · rw [put_cell_outside b p _ [0] (by simp; omega)]
    exact hzero

theorem nulAfter_endLine {b : Request} {n : Nat} (h : NulAfter b n) (stop : Option Nat) :
    NulAfter (endLine b stop) n := by
  cases stop with
  | none => exact h
  | some p => exact nul_mem_put h

/-- A buffer with a NUL behind the request is read to an end unless the copy of the
line leaves its array. -/
theorem readBuffer_ok [Libc] {b : Request} {n : Nat} (hn : n ≤ 10000) (hpos : 1 ≤ n)
    (hnul : NulAfter b n) (hfirst : isBlank (b.cell 0) = false) (hshort : ShortLine (textAt b 0)) :
    ∃ r, readBuffer b n = .ok r := by
  have hstarts := starts_slice b hn
  have hlen : (b.slice 0 n).length = n := slice_length b 0 n
  obtain ⟨⟨ports, stop⟩, hports⟩ := portsIn_short hshort
  have hseen := cString_starts hstarts (by rwa [hlen]) (Nat.zero_le _)
  have hread := readPorts_eq hseen hports
  have htake := rtsp_answers.seen_take (n := n) hports
  have hend := nulAfter_endLine hnul stop
  unfold readBuffer
  rw [hread, ok_bind]
  simp only
  generalize endLine b stop = b' at hend htake
  have hstarts' := starts_slice b' hn
  have hlen' : (b'.slice 0 n).length = n := slice_length b' 0 n
  have hfirst' : isBlank ((b'.slice 0 n).getD 0 0) = false := by
    have hget := congrArg (fun t => t.getD 0 0) htake
    simp only [List.getD_eq_getElem?_getD, List.getElem?_take, Nat.zero_lt_succ, if_true] at hget
    rw [List.getD_eq_getElem?_getD, hget, ← List.getD_eq_getElem?_getD,
      ← hstarts.cell 0 (by omega)]
    exact hfirst
  obtain ⟨r, hr⟩ := readParts_ok ports (isTcp (textAt b' 0)) (fun t => sscanf_u (textAt b' t))
    hfirst'
  exact ⟨r, (readParts_starts hstarts' (by rwa [hlen']) ports _).trans hr⟩

/-- The parser comes to an end unless the copy of the line leaves its array. -/
theorem HandedOn.returns_iff {size n : Nat} {l : Locals} {aRequest : Block size UInt8}
    (h : HandedOn l aRequest n) (c : TcpConnection) :
    Returns c l aRequest n ↔ ShortLine (seenBy l aRequest n) := by
  have hfits : n ≤ 10000 := h.short
  have hn : n < 2 ^ 32 := by omega
  have hlen : (aRequest.slice 0 n).length = n := slice_length aRequest 0 n
  constructor
  · rintro ⟨L, ⟨accepted, c'⟩, hr⟩
    exact (parse_ports hn hr).2.1
  · intro hshort
    have hfirst : isBlank ((l.CurRequest.put 0 (aRequest.slice 0 n)).cell 0) = false := by
      have hpos : 0 < n := h.nonempty
      rw [(starts_put l.CurRequest (hlen.le.trans hfits)).cell 0 (by omega),
        List.getD_eq_getElem?_getD, slice_getElem?, if_pos hpos]
      exact h.first.not_blank
    let _ := writing 0
    obtain ⟨r, hr⟩ := readBuffer_ok hfits h.nonempty (nulAfter_put h.nul hlen) hfirst hshort
    refine ⟨writing 0, (r.accepted, r.store c), ?_⟩
    rw [ParseRtspRequest_turns c l aRequest hn, reading_copied l aRequest hfits h.received, hr]
    rfl

/-- Of the runs that return, from every session and over every stack, exactly those
store the right ports with every C library whose line of the first `client_port`
does not overlap its copy and fits the request. When that line is the parameter
itself, the second port must be the next one. The runs of the requests that are
handed on return unless that line is too long. -/
theorem the_ports_are_right_exactly_when_the_first_line_fits {size : Nat} (c : TcpConnection)
    (l : Locals) (aRequest : Block size UInt8) (n : BitVec 32) :
    (Returns c l aRequest n.toNat →
      (RightInEvery c l aRequest n.toNat ↔
        FirstLineFits (aRequest.slice 0 n.toNat) (seenBy l aRequest n.toNat) (portsOf c)) ∧
      ∀ p q, wanted (aRequest.slice 0 n.toNat) = [(p, q)] →
        FirstParameter (seenBy l aRequest n.toNat) p →
        (RightInEvery c l aRequest n.toNat ↔ q = p + 1)) ∧
      (HandedOn l aRequest n.toNat →
        (Returns c l aRequest n.toNat ↔ ShortLine (seenBy l aRequest n.toNat))) := by
  refine ⟨fun hreturns => ?_, fun hrequest => hrequest.returns_iff c⟩
  have hright := rightInEvery_iff n.isLt hreturns
  exact ⟨hright, fun p q hwanted hfirst => hright.trans (hfirst.fits_iff hwanted)⟩

/-! ## Two requests -/

/-- A request over a stack of zeros is handed on, and nothing but itself is seen. -/
theorem handedOn_text {n : Nat} (hlen : text.length = n) (hpos : 1 ≤ n) (hn : n < 10000)
    (htext : 0 ∉ text) (hfirst : rtsp_bounds.Accepted (text.getD 0 0)) :
    HandedOn (stackWith n []) (Block.ofList text 0 : Request) n ∧
      seenBy (stackWith n []) (Block.ofList text 0 : Request) n = text ∧
      (Block.ofList text 0 : Request).slice 0 n = text := by
  subst hlen
  have hslice : (Block.ofList text 0 : Request).slice 0 text.length = text :=
    slice_ofList_self text 0
  refine ⟨?_, ?_, hslice⟩
  · exact
      { nonempty := hpos
        received := hn.le
        short := hn.le
        first := hfirst
        nul := stackWith_nulAfter hn }
  · unfold seenBy
    rw [hslice, textAt_holds (holds_put_nul _ text hn rfl), upToNul_eq htext, List.drop_zero]

theorem setupRequest_first : FirstParameter setupRequest 50 :=
  ⟨bytes "50", bytes "51", by decide +kernel, List.all_eq_true.mp (by decide), by decide,
    by decide⟩

/-- Both ports of this request are stored. -/
theorem the_ports_of_a_setup_are_stored :
    Returns TcpConnection.init (stackWith 78 []) (Block.ofList setupRequest 0 : Request) 78 ∧
      RightInEvery TcpConnection.init (stackWith 78 []) (Block.ofList setupRequest 0 : Request)
        78 := by
  have hmain := the_ports_are_right_exactly_when_the_first_line_fits TcpConnection.init
    (stackWith 78 []) (Block.ofList setupRequest 0 : Request) 78#32
  have hlen := setupRequest_length
  obtain ⟨hhanded, hseen, hslice⟩ := handedOn_text hlen (by decide) (by decide)
    (show 0 ∉ setupRequest by decide +kernel) (by decide)
  rw [show (78#32).toNat = 78 from rfl, hseen, hslice] at hmain
  have hreturns := (hmain.2 hhanded).mpr (shortLine_of_length (by omega))
  have hright := (hmain.1 hreturns).2 50 51 (by decide +kernel) setupRequest_first
  exact ⟨hreturns, hright.mpr rfl⟩

/-- The second port is left out. -/
def soloRequest : List UInt8 :=
  bytes "SETUP rtsp://h/a/b RTSP/1.0\r\nCSeq: 2\r\nTransport: RTP/AVP;client_port=50\r\n\r\n"

theorem a_port_without_its_next_one_is_not_stored :
    ¬ ∀ (size : Nat) (c : TcpConnection) (l : Locals) (aRequest : Block size UInt8)
      (n : BitVec 32), Returns c l aRequest n.toNat → RightInEvery c l aRequest n.toNat := by
  intro hall
  have hlen : soloRequest.length = 75 := by decide +kernel
  obtain ⟨hhanded, hseen, hslice⟩ := handedOn_text hlen (by decide) (by decide)
    (show 0 ∉ soloRequest by decide +kernel) (by decide)
  have hreturns : Returns TcpConnection.init (stackWith 75 [])
      (Block.ofList soloRequest 0 : Request) 75 :=
    (hhanded.returns_iff TcpConnection.init).mpr
      (by rw [hseen]; exact shortLine_of_length (by omega))
  have hfits := (rightInEvery_iff (by decide) hreturns).mp (hall _ _ _ _ 75#32 hreturns)
  rw [hseen, hslice] at hfits
  have hnumber : numberText soloRequest = none := by decide +kernel
  have hwanted : wanted soloRequest = [(50, 51)] := by decide +kernel
  have hgives := hfits.2
  rw [hwanted, if_neg (List.cons_ne_nil _ _)] at hgives
  obtain ⟨a, hmem, hgives⟩ := hgives
  obtain rfl := List.mem_singleton.mp hmem
  unfold LineGives at hgives
  rw [hnumber] at hgives
  revert hgives
  change ¬ Are (portsOf TcpConnection.init) (50, 51)
  unfold Are
  decide

end payloader.rtsp_ports
