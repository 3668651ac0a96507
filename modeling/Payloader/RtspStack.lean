-- What the parser reads of the stack memory behind a request. The copy of the
-- request has no NUL after it, so the searches for C strings go on into
-- whatever lies there, unless the request itself stops them.
import Payloader.RtspBounds

set_option autoImplicit false

namespace payloader.rtsp_stack

open payloader.memory payloader.machines payloader.c_strings payloader.rtsp_parser
open payloader.rtsp_parser_laws payloader.rtsp_reading payloader.rtsp_reading_laws
open payloader.rtsp_bounds

/-! ## Strings that go on behind the request -/

/-- There is a NUL in the stack memory behind the first `n` bytes. -/
def NulAfter (b : Request) (n : Nat) : Prop := 0 ∈ b.slice n (10000 - n)

variable {b : Request} {text : List UInt8}

theorem slice_from {t : Nat} (h : Starts b text) (ht : t ≤ text.length) :
    b.slice t (10000 - t) = text.drop t ++ b.slice text.length (10000 - text.length) := by
  have hfits : text.length ≤ 10000 := h.fits
  have happ := slice_append b t (text.length - t) (10000 - text.length)
  rw [show text.length - t + (10000 - text.length) = 10000 - t by omega,
    Nat.add_sub_cancel' ht] at happ
  rw [happ]
  refine congrArg (· ++ _) (List.ext_getElem? (fun i => ?_))
  rw [slice_getElem?, List.getElem?_drop]
  by_cases hi : i < text.length - t
  · rw [if_pos hi, h.cell _ (by omega), List.getD_eq_getElem?_getD,
      List.getElem?_eq_getElem (by omega)]
    rfl
  · rw [if_neg hi, List.getElem?_eq_none (by omega)]

/-- A string from inside the request ends in it, or goes on behind it. -/
theorem textAt_starts {t : Nat} (h : Starts b text) (ht : t ≤ text.length) :
    textAt b t =
      if 0 ∈ text.drop t then upToNul text t else text.drop t ++ textAt b text.length := by
  unfold textAt upToNul
  change ((b.slice t (10000 - t)).takeWhile _) = _
  rw [slice_from h ht]
  by_cases hzero : 0 ∈ text.drop t
  · rw [if_pos hzero, takeWhile_append_stop]
    intro hnil
    rw [List.dropWhile_eq_nil_iff] at hnil
    have := hnil 0 hzero
    simp at this
  · rw [if_neg hzero, List.takeWhile_append_of_pos (ne_nul hzero)]
    rfl

/-- With a NUL behind the request every search from inside it comes to an end. -/
theorem cString_starts {t : Nat} (h : Starts b text) (hnul : NulAfter b text.length)
    (ht : t ≤ text.length) : cString b t = .ok (textAt b t) := by
  apply cString_textAt
  change 0 ∈ Block.slice b t (10000 - t)
  rw [slice_from h ht]
  exact List.mem_append_right _ hnul

/-- And so do the numbers that are read in it. -/
theorem readParts_starts (h : Starts b text) (hnul : NulAfter b text.length)
    (ports : Option (BitVec 16)) (tcp : Bool) :
    readParts ports tcp (number b) text =
      readParts ports tcp (fun t => .ok (sscanf_u (textAt b t))) text := by
  apply readParts_congr _ _
  intro t ht
  unfold number
  rw [cString_starts h hnul ht, ok_bind]

/-- A request that is copied to the start of the block leaves the NUL behind it. -/
theorem nulAfter_put {n : Nat} (hnul : NulAfter b n) (hlen : text.length = n) :
    NulAfter (b.put 0 text) n := by
  unfold NulAfter
  rw [slice_put_outside _ _ _ _ _ (Or.inr (by omega))]
  exact hnul

/-! ## What the request decides -/

/-- The request stops the search for the ports: it has a NUL, or a line end
after its first `client_port`. -/
def PortsEnd (text : List UInt8) : Prop :=
  0 ∈ text ∨ ∃ q, find (bytes "client_port") text = some q ∧
    (find (bytes "\r\n") (text.drop q)).isSome = true

/-- The number at the start of a text ends in it. Or it is so large already
that no digit after it changes what is read. -/
def Steady (text : List UInt8) : Prop :=
  afterNumber text ≠ [] ∨
    (2 ^ 64 ≤ 10 * decimal (signedDigits text).2 ∧ sscanf_u text = some (BitVec.allOnes 32))

/-- Where an accepted request has its numbers. -/
def numbersIn (text : List UInt8) : List Nat :=
  if hasName text then
    match pathIn text (urlIn text (nameIn text).length).2 with
    | .ok (some ⟨_, some (_, k)⟩) =>
      match seqIn text k with
      | some (_, true) => numberStarts text (text.length + 1) k
      | _ => []
    | _ => []
  else []

/-- The bytes of the request decide what is read. -/
def Settled [Libc] (text : List UInt8) : Prop :=
  PortsEnd text ∧ ∀ ports stop, portsIn (upToNul text 0) = .ok (ports, stop) →
    ∀ t ∈ numbersIn (endText text stop), Steady ((endText text stop).drop t)

theorem readParts_numbers (ports : Option (BitVec 16)) (tcp : Bool)
    {number number' : Nat → Except Fault (Option (BitVec 32))} {text : List UInt8}
    (h : ∀ t ∈ numbersIn text, number t = number' t) :
    readParts ports tcp number text = readParts ports tcp number' text := by
  unfold readParts
  unfold numbersIn at h
  by_cases hname : hasName text
  · rw [if_pos hname] at h
    rw [if_pos hname, if_pos hname]
    rcases hurl : urlIn text (nameIn text).length with ⟨host, i⟩
    rw [hurl] at h
    simp only at h ⊢
    rcases hpath : pathIn text i with e | _ | ⟨suffix, _ | ⟨preSuffix, k⟩⟩
    · rfl
    · rfl
    · rfl
    rw [hpath] at h
    simp only [ok_bind] at h ⊢
    rcases hseq : seqIn text k with _ | ⟨seq, _ | _⟩
    · rfl
    · rfl
    rw [hseq] at h
    simp only at h ⊢
    rw [mapM_congr h]
  · rw [if_neg hname, if_neg hname]

/-- A search for the ports that ends in the request. -/
theorem portsIn_append [Libc] {u : List UInt8} {q d : Nat}
    (hq : find (bytes "client_port") text = some q)
    (hd : find (bytes "\r\n") (text.drop q) = some d) : portsIn (text ++ u) = portsIn text := by
  have hqle : q + 11 ≤ text.length := find_le (by decide) hq
  have hdle : d + 2 ≤ (text.drop q).length := find_le (by decide) hd
  have hdrop : (text ++ u).drop q = text.drop q ++ u := List.drop_append_of_le_length (by omega)
  have hend : find (bytes "\r\n") ((text ++ u).drop q) = some d := by
    rw [hdrop]
    exact find_append (by decide) hd u
  rw [portsIn_line (find_append (by decide) hq u) hend, portsIn_line hq hd, hdrop,
    List.take_append_of_le_length (by omega)]

theorem portsIn_settled [Libc] (h : Starts b text) (hports : PortsEnd text) :
    portsIn (textAt b 0) = portsIn (upToNul text 0) := by
  rw [textAt_starts h (Nat.zero_le _), List.drop_zero]
  by_cases hzero : 0 ∈ text
  · rw [if_pos hzero]
  · obtain hmem | ⟨q, hq, hd⟩ := hports
    · exact absurd hmem hzero
    obtain ⟨d, hd⟩ := Option.isSome_iff_exists.mp hd
    rw [if_neg hzero, portsIn_append hq hd, upToNul_eq hzero, List.drop_zero]

/-- A number that is read the same whatever comes after its text. -/
theorem Steady.append {s : List UInt8} (h : Steady s) (u : List UInt8) :
    sscanf_u (s ++ u) = sscanf_u s := by
  by_cases hafter : afterNumber s = []
  · obtain hne | ⟨hbig, hones⟩ := h
    · exact absurd hafter hne
    have hdigits : (signedDigits s).2 ≠ [] := by
      intro hnil
      rw [hnil] at hbig
      revert hbig
      decide
    have hopen := signedDigits_open (b := u) hafter (Or.inl hdigits)
    by_cases hmore : u.takeWhile isDigit = []
    · rw [hmore, List.append_nil] at hopen
      unfold sscanf_u
      rw [hopen]
    · -- one more digit makes the number too large
      have hlarge : 2 ^ 64 ≤ decimal ((signedDigits s).2 ++ u.takeWhile isDigit) := by
        have hpos := List.length_pos_iff.mpr hmore
        refine Nat.le_trans ?_ (decimal_append _ _)
        apply hbig.trans
        rw [Nat.mul_comm]
        exact Nat.mul_le_mul_left _ (Nat.le_self_pow (by omega) 10)
      rw [hones]
      unfold sscanf_u
      rw [hopen]
      simp only
      rw [if_neg (by simp [hdigits]), if_neg (Nat.not_lt.mpr hlarge)]
      rfl
  · unfold sscanf_u
    rw [signedDigits_append hafter]

theorem numbersIn_le {t : Nat} (h : t ∈ numbersIn text) : t ≤ text.length := by
  unfold numbersIn at h
  split at h
  · split at h
    · split at h
      · exact numberStarts_le h
      · cases h
    · cases h
  · cases h

theorem starts_endLine [Libc] (h : Starts b text) {ports : Option (BitVec 16)} {stop : Option Nat}
    (hstop : portsIn (upToNul text 0) = .ok (ports, stop)) :
    Starts (endLine b stop) (endText text stop) ∧
      (endText text stop).length = text.length ∧
      (endLine b stop).slice text.length (10000 - text.length) =
        b.slice text.length (10000 - text.length) := by
  cases stop with
  | none => exact ⟨h, rfl, rfl⟩
  | some p =>
    obtain ⟨-, -, -, -, hp⟩ := portsIn_stop hstop
    have hle := (upToNul_starts text 0).length_le
    rw [List.drop_zero] at hle
    refine ⟨⟨?_, h.small, ?_⟩, List.length_set, slice_put_outside _ _ _ _ _ ?_⟩
    · change (text.set p 0).length ≤ _
      rw [List.length_set]
      exact h.fits
    · intro i hi
      change i < (text.set p 0).length at hi
      rw [List.length_set] at hi
      change (b.put p [0]).cell i = (text.set p 0).getD i 0
      rw [List.getD_eq_getElem?_getD]
      by_cases hip : i = p
      · rw [hip, List.getElem?_set_self (by omega)]
        exact put_cell_inside b p 0 [0] Nat.one_pos
      · rw [put_cell_outside b p i [0] (by simp; omega), List.getElem?_set_ne (Ne.symm hip),
          h.cell i hi, List.getD_eq_getElem?_getD]
    · right
      simp
      omega

/-- The ports phase leaves a NUL in the request when the request stops it. -/
theorem nul_mem_endText [Libc] (hports : PortsEnd text) {ports : Option (BitVec 16)}
    {stop : Option Nat}
    (hstop : portsIn (upToNul text 0) = .ok (ports, stop)) : 0 ∈ endText text stop := by
  cases stop with
  | none =>
    change 0 ∈ text
    by_contra hzero
    obtain hmem | ⟨q, hq, hd⟩ := hports
    · exact hzero hmem
    obtain ⟨d, hd⟩ := Option.isSome_iff_exists.mp hd
    rw [upToNul_eq hzero, List.drop_zero] at hstop
    rw [portsIn_line hq hd] at hstop
    split at hstop
    · cases hstop
    · cases hstop
  | some p =>
    obtain ⟨-, -, -, -, hp⟩ := portsIn_stop hstop
    have hle := (upToNul_starts text 0).length_le
    rw [List.drop_zero] at hle
    exact List.mem_iff_getElem?.mpr ⟨p, List.getElem?_set_self (by omega)⟩

/-- When the request stops the search for the ports, only the numbers can go on
behind it. -/
theorem readBuffer_portsEnd [Libc] (h : Starts b text) (hnul : NulAfter b text.length)
    (hports : PortsEnd text) {ports : Option (BitVec 16)} {stop : Option Nat}
    (hstop : portsIn (upToNul text 0) = .ok (ports, stop)) :
    readBuffer b text.length =
      readParts ports (isTcp (upToNul (endText text stop) 0))
        (fun t => .ok (sscanf_u (textAt (endLine b stop) t))) (endText text stop) := by
  have htext := cString_starts h hnul (Nat.zero_le _)
  obtain ⟨hend, hlen, htail⟩ := starts_endLine h hstop
  have hzero := nul_mem_endText hports hstop
  have hslice : (endLine b stop).slice 0 text.length = endText text stop := by
    rw [← hlen]
    exact hend.slice
  have hread : readPorts b = .ok (ports, endLine b stop) := by
    apply readPorts_eq htext
    rw [portsIn_settled h hports]
    exact hstop
  unfold readBuffer
  rw [hread, ok_bind]
  simp only
  rw [hslice, textAt_starts hend (Nat.zero_le _), List.drop_zero, if_pos hzero]
  apply readParts_starts hend
  unfold NulAfter
  rw [hlen, htail]
  exact hnul

/-- The same with a number as it stands in the request. -/
theorem textAt_endLine [Libc] (h : Starts b text) {ports : Option (BitVec 16)} {stop : Option Nat}
    (hstop : portsIn (upToNul text 0) = .ok (ports, stop)) {t : Nat}
    (ht : t ≤ (endText text stop).length) :
    textAt (endLine b stop) t =
      if 0 ∈ (endText text stop).drop t then upToNul (endText text stop) t
      else (endText text stop).drop t ++ textAt b text.length := by
  obtain ⟨hend, hlen, htail⟩ := starts_endLine h hstop
  have hsame : textAt (endLine b stop) text.length = textAt b text.length := by
    unfold textAt
    change List.takeWhile _ (Block.slice _ _ (10000 - _)) = _
    rw [htail]
    rfl
  rw [textAt_starts hend ht, hlen, hsame]

/-- A settled request is read as if a NUL came right after it. -/
theorem readBuffer_settled [Libc] (h : Starts b text) (hnul : NulAfter b text.length)
    (hs : Settled text) : readBuffer b text.length = readText text := by
  obtain ⟨hports, hnumbers⟩ := hs
  rcases hstop : portsIn (upToNul text 0) with e | ⟨ports, stop⟩
  · unfold readBuffer readText readPorts
    rw [cString_starts h hnul (Nat.zero_le _), ok_bind, portsIn_settled h hports, hstop]
    rfl
  have hsteady := hnumbers ports stop hstop
  rw [readBuffer_portsEnd h hnul hports hstop]
  unfold readText
  rw [hstop, ok_bind]
  refine readParts_numbers _ _ (fun t ht => congrArg Except.ok ?_)
  rw [textAt_endLine h hstop (numbersIn_le ht)]
  by_cases hin : 0 ∈ (endText text stop).drop t
  · rw [if_pos hin]
  · rw [if_neg hin, (hsteady t ht).append, upToNul_drop hin]

/-! ## Requests that let the stack decide -/

/-- A request that the server handles is always read to an end. -/
theorem readParts_ok (ports : Option (BitVec 16)) (tcp : Bool)
    (number : Nat → Option (BitVec 32)) (hfirst : isBlank (text.getD 0 0) = false) :
    ∃ r, readParts ports tcp (fun t => .ok (number t)) text = .ok r := by
  unfold readParts
  by_cases hname : hasName text
  · have hi : (nameIn text).length < text.length :=
      Nat.lt_of_lt_of_le hname (List.length_take_le' _ _)
    obtain ⟨path, hpath⟩ := pathIn_ok text
      ((le_nameIn hfirst (by omega)).trans (le_urlIn text (nameIn text).length))
    rw [if_pos hname]
    simp only
    rw [hpath, ok_bind]
    obtain _ | ⟨suffix, _ | ⟨preSuffix, k⟩⟩ := path
    · exact ⟨_, rfl⟩
    · exact ⟨_, rfl⟩
    simp only
    obtain _ | ⟨seq, _ | _⟩ := seqIn text k
    · exact ⟨_, rfl⟩
    · exact ⟨_, rfl⟩
    have hnumbers : (numberStarts text (text.length + 1) k).mapM
        (fun t => (Except.ok (number t) : Except Fault _)) =
          .ok ((numberStarts text (text.length + 1) k).map number) := List.mapM_pure
    simp only
    rw [hnumbers]
    exact ⟨_, rfl⟩
  · rw [if_neg hname]
    exact ⟨_, rfl⟩

theorem not_portsEnd (h : ¬ PortsEnd text) :
    0 ∉ text ∧ ∀ q, find (bytes "client_port") text = some q →
      find (bytes "\r\n") (text.drop q) = none := by
  unfold PortsEnd at h
  refine ⟨fun hzero => h (Or.inl hzero), fun q hq => ?_⟩
  by_contra hd
  exact h (Or.inr ⟨q, hq, Option.isSome_iff_ne_none.mpr hd⟩)

/-- A `client_port` parameter with a line that is too long for its copy. -/
def longLine : List UInt8 :=
  bytes "client_port" ++ List.replicate 1024 (ch 'x') ++ crlf

/-- Stack memory with a text behind the request, and NULs after it. -/
def stackWith (n : Nat) (tail : List UInt8) : Locals where
  CmdName := Block.ofList [] 0
  CurRequest := { cell := fun i => tail.getD (i - n) 0 }
  CP := Block.ofList [] 0

theorem longLine_length : longLine.length = 1037 := by
  unfold longLine
  rw [List.length_append, List.length_append, List.length_replicate]
  rfl

theorem nul_notMem_longLine : 0 ∉ longLine := by
  unfold longLine
  rw [List.mem_append, List.mem_append, List.mem_replicate]
  decide

theorem longLine_no_end {d : Nat} (hd : d < 1035) : ¬ crlf <+: longLine.drop d := by
  intro h
  have hlen : (bytes "client_port" ++ List.replicate 1024 (ch 'x')).length = 1035 := by
    rw [List.length_append, List.length_replicate]
    rfl
  have hmem := mem_of_prefix_drop h (by omega)
  rw [List.mem_append, List.mem_replicate] at hmem
  revert hmem
  decide

theorem portsIn_longLine [Libc] (h : ¬ PortsEnd text) :
    portsIn (text ++ longLine) = .error .write := by
  obtain ⟨hzero, hnone⟩ := not_portsEnd h
  obtain ⟨w, hw⟩ : ∃ w, longLine = ch 'c' :: w := ⟨_, rfl⟩
  have hstart : bytes "client_port" <+: (text ++ longLine).drop text.length := by
    rw [List.drop_left, longLine, List.append_assoc]
    exact List.prefix_append _ _
  rcases hq : find (bytes "client_port") (text ++ longLine) with _ | q
  · exact absurd hstart (find_none hq _)
  obtain ⟨hpre, hfirst⟩ := find_some hq
  have hqle : q ≤ text.length := by
    by_contra hlt
    exact hfirst _ (Nat.lt_of_not_le hlt) hstart
  have hlate : ∀ d < 1024, ¬ crlf <+: ((text ++ longLine).drop q).drop d := by
    intro d hd hcr
    rw [List.drop_drop] at hcr
    by_cases hin : q + d < text.length
    · -- both start in the request, so both end in it
      rw [hw] at hcr hpre
      have hcr' := prefix_before_sep (by decide) hin.le hcr
      have hpre' : bytes "client_port" <+: text.drop q := prefix_before_first (by decide)
        (by omega) hpre
      rcases hq' : find (bytes "client_port") text with _ | q'
      · exact find_none hq' q hpre'
      · have happ := find_append (by decide) hq' longLine
        rw [hq, Option.some.injEq] at happ
        subst happ
        apply find_none (hnone q hq') d
        rw [List.drop_drop]
        exact hcr'
    · rw [List.drop_append, List.drop_eq_nil_of_le (by omega), List.nil_append] at hcr
      exact longLine_no_end (by omega) hcr
  rcases hd : find (bytes "\r\n") ((text ++ longLine).drop q) with _ | d
  · have hend : crlf <+: ((text ++ longLine).drop q).drop (text.length + 1035 - q) := by
      rw [List.drop_drop, show q + (text.length + 1035 - q) = text.length + 1035 by omega,
        ← List.drop_drop, List.drop_left]
      exact ⟨[], by decide +kernel⟩
    exact absurd hend (find_none hd _)
  · have hlong : ¬ d < 1024 := fun hlt => hlate d hlt (find_some hd).1
    rw [portsIn_line hq hd, if_neg hlong]

/-! ## Numbers that let the stack decide -/

theorem contentLengthName_starts {x : UInt8} {xs : List UInt8}
    (h : holdsAt contentLengthName (x :: xs) = true) : x = ch 'C' := by
  obtain ⟨tests, htests⟩ : ∃ tests, contentLengthName = (fun x => x == ch 'C') :: tests := ⟨_, rfl⟩
  rw [htests, holdsAt, Bool.and_eq_true] at h
  exact beq_iff_eq.mp h.1

theorem numberStarts_mark {fuel j : Nat} (h : numberStarts text fuel j ≠ []) :
    ∃ i, j ≤ i ∧ i < text.length ∧ text.getD i 0 = ch 'C' := by
  induction fuel generalizing j with
  | zero => exact absurd rfl h
  | succ fuel ih =>
    unfold numberStarts at h
    by_cases hroom : j + 15 < text.length
    · rw [if_pos hroom] at h
      by_cases hm : holdsAt contentLengthName (text.drop j)
      · have hlt : j < text.length := by omega
        rw [List.drop_eq_getElem_cons hlt] at hm
        have hc := contentLengthName_starts hm
        exact ⟨j, le_rfl, hlt, by rw [List.getD_eq_getElem _ _ hlt, hc]⟩
      · rw [if_neg hm] at h
        obtain ⟨i, hi, hlt, hc⟩ := ih h
        exact ⟨i, by omega, hlt, hc⟩
    · rw [if_neg hroom] at h
      exact absurd rfl h

/-- Only the last number can go on behind the request: the others have the next
`Content-Length:` after them. -/
theorem numberStarts_ended (text : List UInt8) (fuel j : Nat) :
    ∀ t ∈ (numberStarts text fuel j).dropLast, afterNumber (text.drop t) ≠ [] := by
  induction fuel generalizing j with
  | zero => simp [numberStarts]
  | succ fuel ih =>
    unfold numberStarts
    split
    · split
      · generalize pastBlanks text (j + 15) = t0
        intro t ht
        by_cases hrest : numberStarts text fuel (t0 + 1) = []
        · rw [hrest] at ht
          cases ht
        · rw [List.dropLast_cons_of_ne_nil hrest] at ht
          rcases List.mem_cons.mp ht with rfl | ht
          · obtain ⟨i, hi, hlt, hc⟩ := numberStarts_mark hrest
            have hmem : ch 'C' ∈ text.drop t := by
              rw [← hc, List.getD_eq_getElem _ _ hlt]
              refine List.mem_iff_getElem?.mpr ⟨i - t, ?_⟩
              rw [List.getElem?_drop, show t + (i - t) = i by omega, List.getElem?_eq_getElem hlt]
            exact afterNumber_of_mem hmem (by decide) (by decide) (by decide) (by decide)
          · exact ih _ t ht
      · exact ih _
    · simp

theorem numbersIn_parts {t : Nat} (h : t ∈ numbersIn text) :
    ∃ host suffix preSuffix seq i k, Parts text host suffix preSuffix seq i k ∧
      numbersIn text = numberStarts text (text.length + 1) k := by
  unfold numbersIn at h ⊢
  by_cases hname : hasName text
  · rw [if_pos hname] at h ⊢
    rcases hurl : urlIn text (nameIn text).length with ⟨host, i⟩
    rw [hurl] at h
    simp only at h ⊢
    rcases hpath : pathIn text i with e | _ | ⟨suffix, _ | ⟨preSuffix, k⟩⟩
    · rw [hpath] at h
      cases h
    · rw [hpath] at h
      cases h
    · rw [hpath] at h
      cases h
    rw [hpath] at h
    simp only at h ⊢
    rcases hseq : seqIn text k with _ | ⟨seq, _ | _⟩
    · rw [hseq] at h
      cases h
    · rw [hseq] at h
      cases h
    · exact ⟨host, suffix, preSuffix, seq, i, k, ⟨hname, hurl, hpath, hseq⟩, rfl⟩
  · rw [if_neg hname] at h
    cases h

theorem decimal_concat (digits : List UInt8) (x : UInt8) :
    decimal (digits ++ [x]) = 10 * decimal digits + (x.toNat - 48) := by
  unfold decimal
  rw [List.foldl_append]
  rfl

/-- The low half of a number with its sign. -/
def signed32 (negative : Bool) (n : Nat) : BitVec 32 :=
  BitVec.ofInt 32 (if negative then -(n : Int) else n)

/-- Two numbers that follow each other differ in 32 bits too. -/
theorem signed32_succ_ne (negative : Bool) (n : Nat) :
    signed32 negative n ≠ signed32 negative (n + 1) := by
  intro heq
  have hmod := congrArg BitVec.toNat heq
  unfold signed32 at hmod
  rw [BitVec.toNat_ofInt, BitVec.toNat_ofInt, show ((2 ^ 32 : Nat) : Int) = 4294967296 from rfl]
    at hmod
  split at hmod
  · omega
  · omega

/-- One digit more for a number that goes on behind its text. -/
theorem sscanf_u_digit {s : List UInt8} (hopen : afterNumber s = []) {x : UInt8} {d : Nat}
    (hx : isDigit x = true) (hd : x.toNat - 48 = d) :
    sscanf_u (s ++ [x]) =
      if 10 * decimal (signedDigits s).2 + d < 2 ^ 64 then
        some (signed32 (signedDigits s).1 (10 * decimal (signedDigits s).2 + d))
      else some (BitVec.allOnes 32) := by
  have hdigits := signedDigits_open hopen (Or.inr ⟨x, [], rfl, hx⟩)
  rw [List.takeWhile_cons_of_pos hx, List.takeWhile_nil] at hdigits
  unfold sscanf_u
  rw [hdigits]
  simp only
  rw [if_neg (by simp), decimal_concat, hd]
  rfl

/-- A number that is not steady is not read the same with nothing, a `0` and a
`1` after it. -/
theorem not_steady {s : List UInt8} (h : ¬ Steady s) (old : BitVec 32)
    (h0 : (sscanf_u (s ++ [ch '0'])).getD old = (sscanf_u s).getD old) :
    (sscanf_u (s ++ [ch '0'])).getD old ≠ (sscanf_u (s ++ [ch '1'])).getD old := by
  obtain ⟨hopen, hsmall⟩ := not_or.mp h
  have hopen := not_ne_iff.mp hopen
  rw [sscanf_u_digit hopen (d := 0) (by decide) (by decide), Nat.add_zero] at h0 ⊢
  rw [sscanf_u_digit hopen (d := 1) (by decide) (by decide)]
  by_cases hlt : 10 * decimal (signedDigits s).2 + 1 < 2 ^ 64
  · rw [if_pos (Nat.lt_of_succ_lt hlt), if_pos hlt, Option.getD_some, Option.getD_some]
    exact signed32_succ_ne _ _
  · -- `10 * n` is not the largest number of 64 bits
    have hlarge : 2 ^ 64 ≤ 10 * decimal (signedDigits s).2 := by omega
    rw [if_neg (Nat.not_lt.mpr hlarge), Option.getD_some] at h0
    refine absurd ⟨hlarge, ?_⟩ hsmall
    have hdigits : (signedDigits s).2 ≠ [] := by
      intro hnil
      rw [hnil] at hlarge
      revert hlarge
      decide
    obtain ⟨w, hw⟩ : ∃ w, sscanf_u s = some w := by
      unfold sscanf_u
      simp only
      rw [if_neg hdigits]
      split
      · exact ⟨_, rfl⟩
      · exact ⟨_, rfl⟩
    rw [hw, Option.getD_some] at h0
    rw [hw, ← h0]

/-! ## Stacks with a text behind the request -/

/-- The copy of a request, with a text behind it. -/
def bufferWith (text tail : List UInt8) : Request :=
  (stackWith text.length tail).CurRequest.put 0 text

theorem bufferWith_starts (text : List UInt8) (h : text.length ≤ 10000) (tail : List UInt8) :
    Starts (bufferWith text tail) text :=
  starts_put (stackWith text.length tail).CurRequest h

theorem bufferWith_behind (text tail : List UInt8) (i : Nat) :
    (bufferWith text tail).cell (text.length + i) = tail.getD i 0 := by
  have hcell := put_cell_outside (stackWith text.length tail).CurRequest 0 (text.length + i) text
    (Or.inr (by omega))
  apply hcell.trans
  change tail.getD (text.length + i - text.length) 0 = _
  rw [Nat.add_sub_cancel_left]

theorem bufferWith_slice {tail : List UInt8} (hroom : text.length + tail.length < 10000) :
    ∃ rest, (bufferWith text tail).slice text.length (10000 - text.length) =
      tail ++ 0 :: rest := by
  have happ := slice_append (bufferWith text tail) text.length tail.length
    (10000 - text.length - tail.length)
  rw [show tail.length + (10000 - text.length - tail.length) = 10000 - text.length by omega] at happ
  have hnul := slice_append (bufferWith text tail) (text.length + tail.length) 1
    (10000 - text.length - tail.length - 1)
  rw [show 1 + (10000 - text.length - tail.length - 1) = 10000 - text.length - tail.length by omega]
    at hnul
  have htail : (bufferWith text tail).slice text.length tail.length = tail := by
    apply List.ext_getElem?
    intro i
    rw [slice_getElem?]
    by_cases hi : i < tail.length
    · rw [if_pos hi, bufferWith_behind, List.getD_eq_getElem _ _ hi, List.getElem?_eq_getElem hi]
    · rw [if_neg hi, List.getElem?_eq_none (by omega)]
  have hzero : (bufferWith text tail).slice (text.length + tail.length) 1 = [0] := by
    change [(bufferWith text tail).cell (text.length + tail.length + 0)] = _
    rw [Nat.add_zero, bufferWith_behind, List.getD_eq_default _ _ le_rfl]
  rw [happ, hnul, htail, hzero]
  exact ⟨_, rfl⟩

theorem bufferWith_nulAfter {tail : List UInt8} (hroom : text.length + tail.length < 10000) :
    NulAfter (bufferWith text tail) text.length := by
  obtain ⟨rest, hrest⟩ := bufferWith_slice hroom
  unfold NulAfter
  rw [hrest]
  exact List.mem_append_right _ List.mem_cons_self

theorem textAt_bufferWith {tail : List UInt8} (hroom : text.length + tail.length < 10000)
    (htail : 0 ∉ tail) : textAt (bufferWith text tail) text.length = tail := by
  obtain ⟨rest, hrest⟩ := bufferWith_slice hroom
  unfold textAt
  change List.takeWhile _ (Block.slice _ _ (10000 - _)) = _
  rw [hrest]
  exact takeWhile_before (ne_nul htail) (by decide) rest

theorem cString_bufferWith {tail : List UInt8} (hroom : text.length + tail.length < 10000)
    (htext : 0 ∉ text) (htail : 0 ∉ tail) :
    cString (bufferWith text tail) 0 = .ok (text ++ tail) := by
  have hstarts := bufferWith_starts text (by omega) tail
  have hall := textAt_starts hstarts (Nat.zero_le _)
  rw [List.drop_zero, if_neg htext, textAt_bufferWith hroom htail] at hall
  rw [← hall]
  exact cString_starts hstarts (bufferWith_nulAfter hroom) (Nat.zero_le _)

/-- A request that does not stop the search for the ports is read in two ways. -/
theorem readBuffer_portsOpen [Libc] (hroom : text.length + 1100 ≤ 10000)
    (hfirst : isBlank (text.getD 0 0) = false) (h : ¬ PortsEnd text) :
    readBuffer (bufferWith text longLine) text.length = .error .write ∧
      ∃ r, readBuffer (bufferWith text []) text.length = .ok r := by
  have hlong := longLine_length
  have hzero : 0 ∉ text := (not_portsEnd h).1
  constructor
  · unfold readBuffer readPorts
    rw [cString_bufferWith (by omega) hzero nul_notMem_longLine, ok_bind, portsIn_longLine h]
    rfl
  · have hports : portsIn text = .ok (none, none) := by
      rcases hq : find (bytes "client_port") text with _ | q
      · exact portsIn_none hq
      · exact portsIn_open hq ((not_portsEnd h).2 q hq)
    have hroom' : text.length + ([] : List UInt8).length < 10000 := by
      rw [List.length_nil]
      omega
    have hstarts := bufferWith_starts text (by omega) []
    have hseen := cString_bufferWith hroom' hzero List.not_mem_nil
    rw [List.append_nil] at hseen
    obtain ⟨r, hr⟩ := readParts_ok none (isTcp (textAt (bufferWith text []) 0))
      (fun t => sscanf_u (textAt (bufferWith text []) t)) hfirst
    refine ⟨r, ?_⟩
    unfold readBuffer
    rw [readPorts_eq hseen hports, ok_bind]
    change readParts none _ _ (Block.slice (bufferWith text []) 0 _) = _
    rw [hstarts.slice]
    exact (readParts_starts hstarts (bufferWith_nulAfter hroom') _ _).trans hr

theorem lastNumber_concat (old : BitVec 32) (numbers : List (Option (BitVec 32)))
    (x : Option (BitVec 32)) :
    lastNumber old (numbers ++ [x]) = x.getD (lastNumber old numbers) := by
  unfold lastNumber
  rw [List.foldl_append]
  rfl

/-- A number that goes on behind the request is the length that is stored. -/
theorem readBuffer_numberOpen [Libc] (hports : PortsEnd text) {ports : Option (BitVec 16)}
    {stop : Option Nat} (hstop : portsIn (upToNul text 0) = .ok (ports, stop)) {t : Nat}
    (ht : t ∈ numbersIn (endText text stop))
    (hopen : afterNumber ((endText text stop).drop t) = []) (first : BitVec 32) :
    ∃ old, ∀ tail : List UInt8, 0 ∉ tail → text.length + tail.length < 10000 →
      ∃ r, readBuffer (bufferWith text tail) text.length = .ok r ∧
        lastNumber first r.numbers =
          (sscanf_u ((endText text stop).drop t ++ tail)).getD old := by
  obtain ⟨host, suffix, preSuffix, seq, i, k, hparts, hnumbers⟩ := numbersIn_parts ht
  have hended := numberStarts_ended (endText text stop) ((endText text stop).length + 1) k
  rw [← hnumbers] at hended
  have hlast : numbersIn (endText text stop) = (numbersIn (endText text stop)).dropLast ++ [t] := by
    have hne := List.ne_nil_of_mem ht
    have hsplit := List.dropLast_append_getLast hne
    rw [← hsplit, List.mem_append, List.mem_singleton] at ht
    rcases ht with hmem | hlast
    · exact absurd hopen (hended t hmem)
    · rw [← hlast] at hsplit
      exact hsplit.symm
  have hzero : 0 ∉ (endText text stop).drop t := by
    intro hmem
    exact afterNumber_of_mem hmem (by decide) (by decide) (by decide) (by decide) hopen
  -- the numbers before the last one end in the request
  refine ⟨lastNumber first ((numbersIn (endText text stop)).dropLast.map
    (fun t => sscanf_u (upToNul (endText text stop) t))), fun tail htail hroom => ?_⟩
  have hstarts := bufferWith_starts text (by omega) tail
  have hread := readBuffer_portsEnd hstarts (bufferWith_nulAfter hroom) hports hstop
  have hnumber : ∀ t ≤ (endText text stop).length,
      textAt (endLine (bufferWith text tail) stop) t =
        if 0 ∈ (endText text stop).drop t then upToNul (endText text stop) t
        else (endText text stop).drop t ++ tail := by
    intro t ht
    rw [textAt_endLine hstarts hstop ht, textAt_bufferWith hroom htail]
  have hmap : (numberStarts (endText text stop) ((endText text stop).length + 1) k).mapM
      (fun t => (Except.ok (sscanf_u (textAt (endLine (bufferWith text tail) stop) t)) :
        Except Fault _)) = .ok ((numbersIn (endText text stop)).map
          (fun t => sscanf_u (textAt (endLine (bufferWith text tail) stop) t))) := by
    rw [hnumbers]
    exact List.mapM_pure
  rw [hparts.read, hmap] at hread
  refine ⟨_, hread, ?_⟩
  change lastNumber first ((numbersIn (endText text stop)).map _) = _
  have hfront : (numbersIn (endText text stop)).dropLast.map
      (fun t => sscanf_u (textAt (endLine (bufferWith text tail) stop) t)) =
      (numbersIn (endText text stop)).dropLast.map
        (fun t => sscanf_u (upToNul (endText text stop) t)) := by
    apply List.map_congr_left
    intro t' ht'
    rw [hnumber t' (numbersIn_le (List.mem_of_mem_dropLast ht'))]
    by_cases hin : 0 ∈ (endText text stop).drop t'
    · rw [if_pos hin]
    · have hsteady : Steady ((endText text stop).drop t') := Or.inl (hended t' ht')
      rw [if_neg hin, hsteady.append, upToNul_drop hin]
  have hall := congrArg (List.map
    (fun t => sscanf_u (textAt (endLine (bufferWith text tail) stop) t))) hlast
  rw [List.map_append, List.map_singleton, hfront, hnumber t (numbersIn_le ht), if_neg hzero]
    at hall
  rw [hall, lastNumber_concat]

/-! ## Requests that no stack changes -/

/-- Whatever the stack holds behind the request, the parser gives the same. -/
def StackFree [Libc] {size : Nat} (c : TcpConnection) (aRequest : Block size UInt8) (n : Nat) :
    Prop :=
  ∀ l l' : Locals, NulAfter l.CurRequest n → NulAfter l'.CurRequest n →
    ParseRtspRequest TURNS c l aRequest n = ParseRtspRequest TURNS c l' aRequest n

/-- The parser over a stack with a text behind the request. -/
theorem parse_stackWith [Libc] {size n : Nat} (c : TcpConnection) (aRequest : Block size UInt8)
    (hn : n ≤ 10000) (hsize : n ≤ size) (tail : List UInt8) :
    ParseRtspRequest TURNS c (stackWith n tail) aRequest n =
      (readBuffer (bufferWith (aRequest.slice 0 n) tail) n).map
        (fun r => (r.accepted, r.store c)) := by
  rw [ParseRtspRequest_turns c _ aRequest (by omega), reading_copied _ _ hn hsize]
  unfold bufferWith
  rw [slice_length]

theorem settled_stackFree [Libc] {size n : Nat} (aRequest : Block size UInt8) (hn : n ≤ 10000)
    (hsize : n ≤ size) (h : Settled (aRequest.slice 0 n)) (c : TcpConnection) :
    StackFree c aRequest n := by
  have hlen : (aRequest.slice 0 n).length = n := slice_length aRequest 0 n
  have hread : ∀ l : Locals, NulAfter l.CurRequest n →
      reading l aRequest n = readText (aRequest.slice 0 n) := by
    intro l hnul
    rw [reading_copied l aRequest hn hsize]
    have hstarts := starts_put l.CurRequest (hlen.le.trans hn)
    have hafter : NulAfter (l.CurRequest.put 0 (aRequest.slice 0 n))
        (aRequest.slice 0 n).length := by
      rw [hlen]
      exact nulAfter_put hnul hlen
    have hsettled := readBuffer_settled hstarts hafter h
    rwa [hlen] at hsettled
  intro l l' hl hl'
  rw [ParseRtspRequest_turns c l aRequest (by omega), hread l hl,
    ParseRtspRequest_turns c l' aRequest (by omega), hread l' hl']

theorem stackWith_nulAfter {n : Nat} {tail : List UInt8} (hroom : n + tail.length < 10000) :
    NulAfter (stackWith n tail).CurRequest n := by
  refine List.mem_map.mpr ⟨tail.length, List.mem_range.mpr (by omega), ?_⟩
  change tail.getD (n + tail.length - n) 0 = 0
  rw [Nat.add_sub_cancel_left, List.getD_eq_default _ _ le_rfl]

/-- Two stacks give the same reading of a request that leaves the stack out. -/
theorem StackFree.readings [Libc] {size n : Nat} {c : TcpConnection} {aRequest : Block size UInt8}
    (h : StackFree c aRequest n) (hsize : n ≤ size) (tail tail' : List UInt8)
    (hroom : n + tail.length < 10000) (hroom' : n + tail'.length < 10000) :
    (readBuffer (bufferWith (aRequest.slice 0 n) tail) n).map (fun r => (r.accepted, r.store c)) =
      (readBuffer (bufferWith (aRequest.slice 0 n) tail') n).map
        (fun r => (r.accepted, r.store c)) := by
  rw [← parse_stackWith c aRequest (by omega) hsize, ← parse_stackWith c aRequest (by omega) hsize]
  exact h _ _ (stackWith_nulAfter hroom) (stackWith_nulAfter hroom')

theorem stackFree_portsEnd [Libc] {size n : Nat} {c : TcpConnection} {aRequest : Block size UInt8}
    (h : StackFree c aRequest n) (hsize : n ≤ size) (hroom : n + 1100 ≤ 10000)
    (hfirst : isBlank ((aRequest.slice 0 n).getD 0 0) = false) : PortsEnd (aRequest.slice 0 n) := by
  by_contra hopen
  have hlen : (aRequest.slice 0 n).length = n := slice_length aRequest 0 n
  have hlong := longLine_length
  have hsame := h.readings hsize longLine [] (by omega)
    (by simp only [List.length_nil]; omega)
  have hboth := readBuffer_portsOpen (by omega) hfirst hopen
  rw [hlen] at hboth
  obtain ⟨hfault, r, hr⟩ := hboth
  rw [hfault, hr] at hsame
  cases hsame

theorem stackFree_steady [Libc] {size n : Nat} {c : TcpConnection} {aRequest : Block size UInt8}
    (h : StackFree c aRequest n) (hsize : n ≤ size) (hroom : n + 1 < 10000)
    (hports : PortsEnd (aRequest.slice 0 n)) {ports : Option (BitVec 16)} {stop : Option Nat}
    (hstop : portsIn (upToNul (aRequest.slice 0 n) 0) = .ok (ports, stop)) {t : Nat}
    (ht : t ∈ numbersIn (endText (aRequest.slice 0 n) stop)) :
    Steady ((endText (aRequest.slice 0 n) stop).drop t) := by
  by_contra hnot
  have hlen : (aRequest.slice 0 n).length = n := slice_length aRequest 0 n
  have hafter := not_ne_iff.mp (not_or.mp hnot).1
  obtain ⟨old, hold⟩ := readBuffer_numberOpen hports hstop ht hafter c.m_ContentLength
  rw [hlen] at hold
  have hsame : ∀ tail tail' : List UInt8, 0 ∉ tail → 0 ∉ tail' → n + tail.length < 10000 →
      n + tail'.length < 10000 →
      (sscanf_u ((endText (aRequest.slice 0 n) stop).drop t ++ tail)).getD old =
        (sscanf_u ((endText (aRequest.slice 0 n) stop).drop t ++ tail')).getD old := by
    intro tail tail' htail htail' hfit hfit'
    obtain ⟨r, hr, hnumber⟩ := hold tail htail hfit
    obtain ⟨r', hr', hnumber'⟩ := hold tail' htail' hfit'
    have heq := h.readings hsize tail tail' hfit hfit'
    rw [hr, hr'] at heq
    have hstore := congrArg (fun p => p.2.m_ContentLength) (Except.ok.inj heq)
    rw [← hnumber, ← hnumber']
    exact hstore
  have hzero := hsame [ch '0'] [] (by decide) (by decide) hroom (Nat.lt_of_succ_lt hroom)
  have hone := hsame [ch '0'] [ch '1'] (by decide) (by decide) hroom hroom
  rw [List.append_nil] at hzero
  exact not_steady hnot old hzero hone

/-- A settled request is read the same from every stack. Of the requests that
the server handles, and with room for a line behind them, no other one is. -/
theorem the_stack_is_left_out_of_settled_requests [Libc] {size n : Nat} (c : TcpConnection)
    (aRequest : Block size UInt8) (h1 : 1 ≤ n) (hn : n < RTSP_BUFFER_SIZE) (hsize : n ≤ size) :
    (Settled (aRequest.slice 0 n) → StackFree c aRequest n) ∧
      (Accepted (aRequest.cell 0) → n + 1100 ≤ RTSP_BUFFER_SIZE →
        (StackFree c aRequest n ↔ Settled (aRequest.slice 0 n))) := by
  have hsettled : Settled (aRequest.slice 0 n) → StackFree c aRequest n :=
    fun h => settled_stackFree aRequest (Nat.le_of_lt hn) hsize h c
  refine ⟨hsettled, fun hfirst hroom => ⟨fun hfree => ?_, hsettled⟩⟩
  have hcell : (aRequest.slice 0 n).getD 0 0 = aRequest.cell 0 := by
    rw [List.getD_eq_getElem?_getD, slice_getElem?, if_pos (by omega)]
    rfl
  have hroom' : n + 1100 ≤ 10000 := hroom
  have hports := stackFree_portsEnd hfree hsize hroom (by rw [hcell]; exact hfirst.not_blank)
  refine ⟨hports, fun ports stop hstop t ht => ?_⟩
  exact stackFree_steady hfree hsize (by omega) hports hstop ht

/-- A request with its ports in a line of its own. -/
def setupRequest : List UInt8 :=
  bytes "SETUP rtsp://h/a/b RTSP/1.0\r\nCSeq: 2\r\nTransport: RTP/AVP;client_port=50-51\r\n\r\n"

theorem setupRequest_length : setupRequest.length = 78 := by decide +kernel

/-- The same with a content length. -/
def setupWithLength : List UInt8 :=
  bytes "SETUP rtsp://h/a/b RTSP/1.0\r\nCSeq: 2\r\nTransport: RTP/AVP;client_port=50-51\r\n" ++
    bytes "Content-Length: 24\r\n\r\n"

theorem a_number_is_read_from_any_stack :
    Accepted (setupWithLength.getD 0 0) ∧ Settled setupWithLength ∧
      numbersIn (endText setupWithLength (some 74)) = [92] ∧
      StackFree TcpConnection.init (Block.ofList setupWithLength 0 : Request) 98 := by
  have hfirst : Accepted (setupWithLength.getD 0 0) := by
    unfold Accepted
    decide
  have hlen : setupWithLength.length = 98 := by decide +kernel
  have hnumbers : numbersIn (endText setupWithLength (some 74)) = [92] := by decide +kernel
  have hmain := the_stack_is_left_out_of_settled_requests TcpConnection.init
    (Block.ofList setupWithLength 0 : Request) (n := 98) (by decide) (by decide) (by decide)
  have hsettled : Settled setupWithLength := by
    refine ⟨Or.inr ⟨57, by decide +kernel, by decide +kernel⟩, fun ports stop hstop t ht => ?_⟩
    have hports : portsIn (upToNul setupWithLength 0) = .ok (some 50, some 74) := by
      decide +kernel
    rw [hports] at hstop
    cases hstop
    rw [hnumbers, List.mem_singleton] at ht
    subst ht
    -- the line end after the number stops it
    exact Or.inl (by decide +kernel)
  rw [← hlen, slice_ofList_self, hlen] at hmain
  exact ⟨hfirst, hsettled, hnumbers, hmain.1 hsettled⟩

/-- A search for the ports that ends behind the request. -/
theorem readBuffer_behind [Libc] (text tail : List UInt8)
    (hroom : text.length + tail.length < 10000)
    (htext : 0 ∉ text) (htail : 0 ∉ tail) {ports : Option (BitVec 16)} {stop : Option Nat}
    (hports : portsIn (text ++ tail) = .ok (ports, stop)) (hstop : ∀ p ∈ stop, text.length ≤ p) :
    ∃ tcp number, readBuffer (bufferWith text tail) text.length =
      readParts ports tcp number text := by
  have hread := readPorts_eq (cString_bufferWith hroom htext htail) hports
  have hslice : (endLine (bufferWith text tail) stop).slice 0 text.length = text := by
    have hstarts := bufferWith_starts text (by omega) tail
    cases stop with
    | none => exact hstarts.slice
    | some p =>
      refine Eq.trans (slice_put_outside _ _ _ _ _ (Or.inl ?_)) hstarts.slice
      rw [Nat.zero_add]
      exact hstop p rfl
  unfold readBuffer
  rw [hread, ok_bind]
  simp only
  rw [hslice]
  exact ⟨_, _, rfl⟩

def optionsRequest : List UInt8 := bytes "OPTIONS rtsp://h/a/b RTSP/1.0\r\nCSeq: 1\r\n\r\n"

theorem optionsRequest_ports (ports : Option (BitVec 16)) (tcp : Bool)
    (number : Nat → Except Fault (Option (BitVec 32))) :
    (readParts ports tcp number optionsRequest).map (·.ports) = .ok ports := rfl

/-- A request with no ports, and two things that the stack may hold behind it. -/
theorem the_ports_come_from_the_stack :
    ¬ ∀ (size n : Nat) (c : TcpConnection) (aRequest : Block size UInt8), 1 ≤ n →
      n < RTSP_BUFFER_SIZE → n ≤ size → StackFree c aRequest n := by
  intro h
  have hfree := h RTSP_BUFFER_SIZE optionsRequest.length TcpConnection.init
    (Block.ofList optionsRequest 0) (by decide) (by decide) (by decide)
  have hsame := hfree.readings (by decide) (bytes "client_port=77-78\r\n") []
    (by decide) (by decide)
  rw [slice_ofList_self] at hsame
  obtain ⟨tcp, number, hport⟩ := readBuffer_behind optionsRequest
    (bytes "client_port=77-78\r\n") (by decide) (by decide) (by decide)
    (show portsIn _ = .ok (some 77, some 59) by decide +kernel)
    (fun p hp => by cases hp; decide)
  obtain ⟨tcp', number', hnone⟩ := readBuffer_behind optionsRequest []
    (by decide) (by decide) List.not_mem_nil (show portsIn _ = .ok (none, none) by decide +kernel)
    (fun p hp => nomatch hp)
  rw [hport, hnone] at hsame
  obtain ⟨r, hr⟩ : ∃ r, readParts (some 77) tcp number optionsRequest = .ok r := ⟨_, rfl⟩
  obtain ⟨r', hr'⟩ : ∃ r, readParts none tcp' number' optionsRequest = .ok r := ⟨_, rfl⟩
  have hports := optionsRequest_ports (some 77) tcp number
  have hports' := optionsRequest_ports none tcp' number'
  rw [hr] at hsame hports
  rw [hr'] at hsame hports'
  have hstore := congrArg (fun p => p.2.m_ClientRTPPort) (Except.ok.inj hsame)
  change (putPorts _ r.ports).m_ClientRTPPort = (putPorts _ r'.ports).m_ClientRTPPort at hstore
  rw [show r.ports = some 77 from Except.ok.inj hports,
    show r'.ports = none from Except.ok.inj hports'] at hstore
  revert hstore
  decide

end payloader.rtsp_stack
