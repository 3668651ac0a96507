-- The answer to `DESCRIBE`: which hosts and sequence numbers its arrays have room
-- for, and when the client finds as many bytes behind the head as the head says.
import Payloader.RtspReplies

set_option autoImplicit false

namespace payloader.rtsp_describe

open payloader.memory payloader.machines payloader.c_strings payloader.printing payloader.lines
open payloader.streamer payloader.rtsp_parser payloader.rtsp_reading payloader.rtsp_reading_laws
open payloader.rtsp_stack payloader.rtsp_history payloader.rtsp_handlers
open payloader.rtsp_handlers_laws payloader.rtsp_replies

variable {m_CSeq body text host date name : List UInt8} {tm : Tm}

/-! ## Answers with a length -/

/-- The name of the field that announces a body. -/
def lengthName : List UInt8 := bytes "content-length"

/-- The number in a field. -/
def numberOf (field : List UInt8) : Option Nat :=
  let value := valueOf ':' field
  if value ≠ [] ∧ value.all isDigit = true then some (decimal value) else none

/-- The lines of the head with an empty line after them, and then the whole body.
There is a line for its length, and each of them gives it. -/
def Sized (body text : List UInt8) : Prop :=
  ∃ ls, Head ls text body ∧ (∃ l ∈ ls, Names lengthName l) ∧
    ∀ l ∈ ls, Names lengthName l → numberOf l = some body.length

/-- In a host with these the head ends, or has another length. -/
def BreaksLength (size : Nat) (host : List UInt8) : Prop :=
  ∃ l ∈ baseLines host, l = [] ∨ (Names lengthName l ∧ numberOf l ≠ some size)

theorem numberOf_slash {l : List UInt8} (h : ch ':' ∈ l) (t : List UInt8) :
    numberOf (l ++ bytes "/" ++ t) = none := by
  obtain ⟨x, xs, hdrop⟩ : ∃ x xs, l.dropWhile (· ≠ ch ':') = x :: xs := by
    apply List.exists_cons_of_ne_nil
    intro hnil
    have hcolon := List.dropWhile_eq_nil_iff.mp hnil _ h
    simp at hcolon
  have hvalue : valueOf ':' (l ++ bytes "/" ++ t) = trim (xs ++ (bytes "/" ++ t)) := by
    unfold valueOf
    rw [List.append_assoc, List.dropWhile_append, hdrop]
    rfl
  have hslash : ch '/' ∈ valueOf ':' (l ++ bytes "/" ++ t) := by
    rw [hvalue]
    exact mem_trim (List.mem_append_right _ List.mem_cons_self) (by decide)
  unfold numberOf
  refine if_neg (fun hdigits => ?_)
  have hdigit := List.all_eq_true.mp hdigits.2 _ hslash
  revert hdigit
  decide

theorem breaksLength_iff {tail : List UInt8} {size : Nat} (htail : Plain tail)
    (hcolon : ch ':' ∉ tail) :
    BreaksLength size host ↔
      ∃ l ∈ pieces (bytes "Content-Base: rtsp://" ++ host ++ ch '/' :: tail),
        l = [] ∨ (Names lengthName l ∧ numberOf l ≠ some size) := by
  refine base_iff htail (fun l => ?_)
  rw [names_tail hcolon]
  refine or_congr (by simp [bytes]) (and_congr_right fun hnames => ?_)
  have hin : ch ':' ∈ l := (List.mem_append.mp hnames.2.1).resolve_right (by decide)
  have hshort := numberOf_slash hin []
  rw [List.append_nil] at hshort
  rw [hshort, numberOf_slash hin]

/-- The line of the length gives it. -/
theorem numberOf_length (n : Nat) : numberOf (bytes "Content-Length: " ++ digits n) = some n := by
  have hvalue : valueOf ':' (bytes "Content-Length: " ++ digits n) = digits n := by
    change trim (digits n) = digits n
    apply trim_eq_self
    intro x hx
    have hdigit := digits_isDigit n x hx
    rw [Bool.eq_false_iff]
    intro hblank
    rcases of_decide_eq_true hblank with rfl | rfl <;> revert hdigit <;> decide
  have hne : digits n ≠ [] := fun hnil => Nat.toDigits_ne_nil (List.map_eq_nil_iff.mp hnil)
  unfold numberOf
  simp only [hvalue, decimal_digits]
  exact if_pos ⟨hne, List.all_eq_true.mpr (digits_isDigit n)⟩

/-- The length that is printed with `%d`. -/
theorem printInt_length {n : Nat} (h : n < 2 ^ 31) :
    printInt (BitVec.ofNat 32 n).toInt = digits n := by
  have htoInt : (BitVec.ofNat 32 n).toInt = (n : Int) := by
    rw [BitVec.toInt_eq_toNat_of_lt, BitVec.toNat_ofNat, Nat.mod_eq_of_lt (by omega)]
    rw [BitVec.toNat_ofNat, Nat.mod_eq_of_lt (by omega)]
    omega
  rw [htoInt, printInt, if_neg (by omega), Int.natAbs_natCast]

theorem strftime_other (tm : Tm) : ¬ Names lengthName (strftime tm) := by
  obtain ⟨rest, hrest⟩ := strftime_start tm
  rw [hrest, names_append (by decide)]
  decide

theorem cseqLine_other (m_CSeq : List UInt8) : ¬ Names lengthName (cseqLine m_CSeq) := by
  unfold cseqLine
  rw [names_append (by decide)]
  decide

theorem name_slash (hname : Plain name) (hcolon : ch ':' ∉ name) :
    Plain (name ++ bytes "/") ∧ ch ':' ∉ name ++ bytes "/" := by
  rw [List.mem_append, not_or]
  exact ⟨hname.append (by decide), hcolon, by decide⟩

/-- With no such host the answer announces its body. -/
theorem describe_sized (hseq : Plain m_CSeq) (hname : Plain name) (hcolon : ch ':' ∉ name)
    (hhost : ¬ BreaksLength body.length host) (hbody : body.length < 2 ^ 31) :
    Sized body (describeText (strftime tm) (urlText host name) m_CSeq body) := by
  obtain ⟨htail, hnone⟩ := name_slash hname hcolon
  obtain ⟨X, hX, hended⟩ := describeHead_ended host (name ++ bytes "/") body.length hseq
    (strftime_field tm)
  rw [breaksLength_iff htail hnone] at hhost
  simp only [not_exists, not_and, not_or, not_not] at hhost
  have hhead := hended.head
    (describeLines_filled (strftime_field tm) (fun l hl => (hhost l hl).1) _ _) body
  rw [printInt_length hbody] at hhead
  rw [describeText_split, hX, List.append_assoc]
  refine ⟨_, hhead, ⟨_, List.mem_append_right _ List.mem_cons_self, ?_⟩, ?_⟩
  · rw [names_append (by decide)]
    decide
  · intro l hl hnames
    simp only [List.mem_append, List.mem_cons, List.not_mem_nil, or_false] at hl
    rcases hl with ((rfl | rfl | rfl) | hl) | rfl | rfl
    · exact absurd hnames (by decide)
    · exact absurd hnames (strftime_other tm)
    · exact absurd hnames (by decide)
    · exact (hhost l hl).2 hnames
    · exact numberOf_length body.length
    · exact absurd hnames (cseqLine_other m_CSeq)

/-- With such a host it does not. -/
theorem describe_unsized (hseq : Plain m_CSeq) (hname : Plain name) (hcolon : ch ':' ∉ name)
    (hhost : BreaksLength body.length host) :
    ¬ Sized body (describeText (strftime tm) (urlText host name) m_CSeq body) := by
  obtain ⟨htail, hnone⟩ := name_slash hname hcolon
  obtain ⟨X, hX, hended⟩ := describeHead_ended host (name ++ bytes "/") body.length hseq
    (strftime_field tm)
  rintro ⟨ls, hhead, -, hsizes⟩
  rw [breaksLength_iff htail hnone] at hhost
  rw [describeText_split, hX, List.append_assoc] at hhead
  have hfirst := fun l hl => (describeFirst_fields (strftime_field tm) l hl).filled
  rcases hended.head_around hfirst (describeLast_filled _ _) hhead with
    ⟨-, after, hbehind⟩ | ⟨hfilled, rfl⟩
  · -- more lines would stand behind the empty one than there are
    have hlen := congrArg List.length hbehind
    rw [List.length_append, List.length_cons] at hlen
    omega
  · obtain ⟨l, hl, hbad⟩ := hhost
    obtain ⟨hnames, hother⟩ := hbad.resolve_left (fun hnil => hfilled (hnil ▸ hl))
    exact hother (hsizes l (List.mem_append_left _ (List.mem_append_right _ hl)) hnames)

/-! ## Texts that fit their arrays -/

theorem sdpText_length (OBuf : List UInt8) : (sdpText OBuf).length = 249 + OBuf.length := by
  unfold sdpText
  simp only [List.length_append]
  change 20 + _ + 55 + 66 + 64 + 44 = _
  omega

theorem digits_length_three {n : Nat} (hlo : 100 ≤ n) (hhi : n < 1000) :
    (digits n).length = 3 := by
  have hle := digits_length_le (k := 3) (by decide) hhi
  have hge : ¬ (digits n).length ≤ 2 := by
    unfold digits
    rw [List.length_map, Nat.length_toDigits_le_iff (by decide) (by decide)]
    omega
  omega

/-- The answer as it is printed, with all of its parts. -/
theorem describeText_length {OBuf : List UInt8} (hname : name.length = 4)
    (hcopy : OBuf.length < 256) :
    (describeText date (urlText host name) m_CSeq (sdpText OBuf)).length =
      359 + date.length + host.length + m_CSeq.length + OBuf.length := by
  have hsdp := sdpText_length OBuf
  have hdigits : (digits (249 + OBuf.length)).length = 3 :=
    digits_length_three (by omega) (by omega)
  unfold describeText urlText
  rw [printInt_length (by omega), hsdp]
  simp only [List.length_append, hdigits, hsdp, hname]
  change 17 + _ + 47 + (7 + _ + 1 + 4) + 19 + 3 + 8 + _ + 4 + _ = _
  omega

/-- The name of a stream. -/
def streamName (id : Int) : List UInt8 := if id = 0 then bytes "ej/1" else bytes "ej/2"

theorem streamName_length (id : Int) : (streamName id).length = 4 ∧ Plain (streamName id) ∧
    ch ':' ∉ streamName id := by
  unfold streamName
  split
  · exact ⟨rfl, by decide, by decide⟩
  · exact ⟨rfl, by decide, by decide⟩

theorem beforeColon_length_le (host : List UInt8) : (beforeColon host).length ≤ host.length := by
  unfold beforeColon
  split
  · exact Nat.le_refl _
  · exact List.length_take_le' _ _

/-- What is printed for a host that fits its copy. -/
theorem describeReply_eq (hcopy : host.length < 256) (id : Int) :
    describeReply date host m_CSeq id =
      describeText date (urlText host (streamName id)) m_CSeq (sdpText (beforeColon host)) := by
  have hle := beforeColon_length_le host
  have hsdp : snprintf 1024 (sdpText (beforeColon host)) = sdpText (beforeColon host) := by
    apply snprintf_eq
    rw [sdpText_length]
    omega
  unfold describeReply
  rw [hsdp]
  exact congrArg (describeText date · m_CSeq _)
    (snprintf_eq (urlText_fits hcopy (streamName_length id).1))

/-! ## Every session -/

/-- A `DESCRIBE` that was parsed, for a stream that the server has. -/
structure ForStream (c : Connection) (r : Reading) : Prop where
  accepted : r.accepted = true
  command : r.type c.m_RtspCmdType = .RTSP_DESCRIBE
  stream : streamID (upToNul (r.preSuffix.getD []) 0) (upToNul (r.suffix.getD []) 0) ≠ -1

/-- The sequence number in the session, once a request has stored its own. -/
def seqString (r : Reading) : List UInt8 := upToNul (r.seq.getD []) 0

/-- The whole answer, with nothing cut off. -/
def wholeAnswer (w : World) (c : Connection) (r : Reading) : List UInt8 :=
  describeText (strftime w.tm)
    (urlText (hostString c r)
      (streamName (streamID (upToNul (r.preSuffix.getD []) 0) (upToNul (r.suffix.getD []) 0))))
    (seqString r) (sdpText (beforeColon (hostString c r)))

/-- The handler stays in its arrays, and it sends the whole answer, whose head gives
the length of the description behind it. -/
def DescribedInFull [Libc] {size : Nat} (w : World) (c : Connection) (host : Host)
    (aRequest : Block size UInt8) (n : Nat) (r : Reading) : Prop :=
  ∃ res, Handle_RtspRequest w c host aRequest n = .ok res ∧ res.sent = [wholeAnswer w c r] ∧
    Sized (sdpText (beforeColon (hostString c r))) (wholeAnswer w c r)

/-- The host fits its copy, it fits the answer together with the sequence number, and
it has no line that breaks the head. -/
structure FitsAnswer (w : World) (c : Connection) (r : Reading) : Prop where
  copy : (hostString c r).length < 256
  answer : 359 + (strftime w.tm).length + (hostString c r).length + (seqString r).length +
    (beforeColon (hostString c r)).length < 1024
  lines : ¬ BreaksLength (sdpText (beforeColon (hostString c r))).length (hostString c r)

theorem wholeAnswer_length {w : World} {c : Connection} {r : Reading}
    (hcopy : (hostString c r).length < 256) :
    (wholeAnswer w c r).length = 359 + (strftime w.tm).length + (hostString c r).length +
      (seqString r).length + (beforeColon (hostString c r)).length :=
  describeText_length (streamName_length _).1
    (Nat.lt_of_le_of_lt (beforeColon_length_le _) hcopy)

/-- What is sent when the host fits its copy. -/
theorem describe_sent [Libc] {size n : Nat} {w : World} {c : Connection} {r : Reading} (host : Host)
    {aRequest : Block size UInt8} (hn : n < 2 ^ 32) (hr : reading w.l aRequest n = .ok r)
    (hend : c.m_URLHostPort.cell 9999 = 0) (h : ForStream c r)
    (hcopy : (hostString c r).length < 256) :
    ∃ res, Handle_RtspRequest w c host aRequest n = .ok res ∧
      res.sent = [snprintf 1024 (wholeAnswer w c r)] := by
  obtain ⟨c', host', hok, -⟩ := Handle_accepted host hn hr h.accepted hend (fun _ _ => hcopy)
  refine ⟨_, hok, ?_⟩
  have hcommand : (parsedBy w c r).m_RtspCmdType = .RTSP_DESCRIBE := h.command
  have hreply : describeReply (strftime w.tm) (hostString c r) (seqString r)
      (streamID (upToNul (r.preSuffix.getD []) 0) (upToNul (r.suffix.getD []) 0)) =
        wholeAnswer w c r := describeReply_eq hcopy _
  change answersTo w c c'.m_Streamer r = _
  unfold answersTo answers
  rw [hcommand]
  simp only
  rw [if_neg h.stream]
  exact congrArg (fun text => [snprintf 1024 text]) hreply

/-- In every session that can be reached, a `DESCRIBE` for a known stream is answered
in full exactly when its host and its sequence number fit the answer. -/
theorem a_description_is_sent_in_full_exactly_when_it_fits [Libc] {size : Nat} {c : Connection}
    {host : Host} (hreach : Reachable c host) (w : World) (aRequest : Block size UInt8)
    (n : BitVec 32) {r : Reading} (hr : reading w.l aRequest n.toNat = .ok r)
    (h : ForStream c r) :
    DescribedInFull w c host aRequest n.toNat r ↔ FitsAnswer w c r := by
  have hend := hreach.host_end
  by_cases hcopy : (hostString c r).length < 256
  · obtain ⟨res, hok, hsent⟩ := describe_sent host n.isLt hr hend h hcopy
    have hlength := wholeAnswer_length (w := w) hcopy
    obtain ⟨-, hname, hcolon⟩ := streamName_length
      (streamID (upToNul (r.preSuffix.getD []) 0) (upToNul (r.suffix.getD []) 0))
    have hseq := accepted_seq_plain n.isLt hr h.accepted
    have hbody : (sdpText (beforeColon (hostString c r))).length < 2 ^ 31 := by
      have hle := beforeColon_length_le (hostString c r)
      rw [sdpText_length]
      omega
    constructor
    · rintro ⟨res', hok', hsent', hsized⟩
      rw [hok] at hok'
      cases hok'
      rw [hsent] at hsent'
      have hwhole := List.singleton_inj.mp hsent'
      refine ⟨hcopy, ?_, fun hbreaks => describe_unsized hseq hname hcolon hbreaks hsized⟩
      have hcut := congrArg List.length hwhole
      unfold snprintf at hcut
      rw [List.length_take, hlength] at hcut
      omega
    · intro hfits
      have hshort : (wholeAnswer w c r).length < 1024 := by
        rw [hlength]
        exact hfits.answer
      refine ⟨res, hok, ?_, ?_⟩
      · rw [hsent, snprintf_eq hshort]
      · exact describe_sized hseq hname hcolon hfits.lines hbody
  · refine iff_of_false ?_ (fun hfits => hcopy hfits.copy)
    rintro ⟨res, hok, -⟩
    rw [Handle_long host n.isLt hr h.accepted hend
      (fun hfits => hcopy (hfits h.command h.stream))] at hok
    cases hok

/-! ## A host that fits and one that does not -/

theorem describeReading_forStream (host : List UInt8) :
    ForStream newConnection (describeReading host) :=
  ⟨rfl, rfl, show streamID (upToNul (bytes "ej") 0) (upToNul (bytes "1") 0) ≠ -1 by decide⟩

theorem a_short_host_is_described :
    DescribedInFull (quietWorld 44) newConnection Host.init
      (Block.ofList (describeFor (bytes "h")) 0 : Request) (44 : BitVec 32).toNat
      (describeReading (bytes "h")) := by
  have hhost : hostString newConnection (describeReading (bytes "h")) = bytes "h" :=
    hostString_new (by decide) (by decide)
  refine (a_description_is_sent_in_full_exactly_when_it_fits newConnection_reachable
    (quietWorld 44) (Block.ofList (describeFor (bytes "h")) 0 : Request) 44 describeFor_reading
    (describeReading_forStream _)).mpr ⟨?_, ?_, ?_⟩
  · rw [hhost]
    decide
  · rw [hhost]
    decide +kernel
  · rw [hhost]
    unfold BreaksLength
    decide

/-- One byte more than the copy has room for. -/
def longHost : List UInt8 := List.replicate 256 (ch 'x')

theorem longHost_reading :
    reading (stackWith 299 []) (Block.ofList (describeFor longHost) 0 : Request) 299 =
      .ok (describeReading longHost) := by
  have hlen : (describeFor longHost).length = 299 := by decide +kernel
  have hcell : ∀ i, (stackWith 299 []).CurRequest.cell i = 0 := fun _ => rfl
  have hread := reading_received (stackWith 299 []) (describeFor longHost)
    (by rw [hlen]; decide) (hcell _)
  have hvalue : readText (describeFor longHost) = .ok (describeReading longHost) := by
    decide +kernel
  rw [hvalue] at hread
  rw [hlen] at hread
  exact hread

theorem a_long_host_leaves_its_copy :
    ¬ ∀ (size : Nat) (c : Connection) (host : Host) (w : World) (aRequest : Block size UInt8)
      (n : BitVec 32) (r : Reading), Reachable c host → reading w.l aRequest n.toNat = .ok r →
        ForStream c r → DescribedInFull w c host aRequest n.toNat r := by
  intro hall
  have hnul : 0 ∉ longHost := by
    unfold longHost
    rw [List.mem_replicate]
    decide
  have hlen : longHost.length = 256 := List.length_replicate
  have hhost : hostString newConnection (describeReading longHost) = longHost :=
    hostString_new (by rw [hlen]; decide) hnul
  have hn : (299 : BitVec 32).toNat = 299 := by decide
  have hreading : reading (quietWorld 299).l (Block.ofList (describeFor longHost) 0 : Request)
      (299 : BitVec 32).toNat = .ok (describeReading longHost) := by
    rw [hn]
    exact longHost_reading
  obtain ⟨res, hok, -⟩ := hall _ newConnection Host.init (quietWorld 299) _ 299 _
    newConnection_reachable hreading (describeReading_forStream _)
  have hfits : ¬ FitsHost newConnection (describeReading longHost) := by
    intro hfits
    have hlt := hfits rfl (by decide)
    rw [hhost, hlen] at hlt
    exact absurd hlt (by decide)
  rw [Handle_long Host.init (299 : BitVec 32).isLt hreading rfl
    newConnection_reachable.host_end hfits] at hok
  cases hok

end payloader.rtsp_describe
