-- The sequence number of a request: the one that its own field gives, and the one
-- that the parser takes, which is behind the first `CSeq:` after the path.
import Payloader.Lines
import Payloader.RtspHistory

set_option autoImplicit false

namespace payloader.rtsp_sequence

open payloader.memory payloader.machines payloader.c_strings payloader.lines payloader.rtsp_parser
open payloader.rtsp_reading payloader.rtsp_reading_laws payloader.rtsp_prefixes
open payloader.rtsp_history

variable {seen text : List UInt8}

/-! ## The number in the request -/

/-- The value of the first field for a sequence number. -/
def cseqOf (text : List UInt8) : Option (List UInt8) :=
  ((fieldsOf text).find? (fun field => Names (bytes "cseq") field)).map (valueOf ':')

/-- Where the search for the number starts: seven bytes behind the last byte before
the version that is no space. -/
def searchStart (text : List UInt8) : Option Nat :=
  let i := (urlIn text (nameIn text).length).2
  (firstIn (exactly (bytes "RTSP/")) text (i + 1) (text.length - 5)).map
    (fun version => trimmed text i version + 6)

/-- The first `CSeq:` from there on. -/
def foundAt (text : List UInt8) : Option Nat :=
  (searchStart text).bind (fun k => firstIn (exactly (bytes "CSeq:")) text k (text.length - 5))

/-- The bytes up to the end of a line or of a string. -/
def valueAt (text : List UInt8) (off : Nat) : List UInt8 :=
  (text.drop off).takeWhile (fun x => decide (x ≠ 0 ∧ ¬ (x = ch '\r' ∨ x = ch '\n')))

/-- Behind the first `CSeq:` after the path stands the number of the request. -/
def OwnFirst (text : List UInt8) : Prop :=
  ∃ j, foundAt text = some j ∧ cseqOf text = some (trim (valueAt text (j + 5)))

/-! ## A NUL for a carriage return -/

def blur (x : UInt8) : UInt8 := if x = ch '\r' then 0 else x

/-- The same texts, but for carriage returns that are a NUL in the other one. -/
def Alike (seen text : List UInt8) : Prop := seen.map blur = text.map blur

/-- A test that does not tell the two. -/
def Blind (q : UInt8 → Bool) : Prop := q (ch '\r') = q 0

instance (q : UInt8 → Bool) : Decidable (Blind q) := inferInstanceAs (Decidable (_ = _))

theorem Blind.eq {q : UInt8 → Bool} (h : Blind q) (x : UInt8) : q (blur x) = q x := by
  unfold blur
  split
  · rename_i hx
    rw [hx]
    exact h.symm
  · rfl

theorem Alike.length (h : Alike seen text) : seen.length = text.length := by
  have hlen := congrArg List.length h
  rwa [List.length_map, List.length_map] at hlen

theorem Alike.drop (h : Alike seen text) (k : Nat) : Alike (seen.drop k) (text.drop k) := by
  unfold Alike
  rw [List.map_drop, List.map_drop, h]

theorem Alike.take (h : Alike seen text) (k : Nat) : Alike (seen.take k) (text.take k) := by
  unfold Alike
  rw [List.map_take, List.map_take, h]

theorem Alike.append (h : Alike seen text) (rest : List UInt8) :
    Alike (seen ++ rest) (text ++ rest) := by
  unfold Alike
  rw [List.map_append, List.map_append, h]

theorem Alike.takeWhile (h : Alike seen text) {q : UInt8 → Bool} (hq : Blind q) :
    Alike (seen.takeWhile q) (text.takeWhile q) := by
  have hcomp : q ∘ blur = q := funext hq.eq
  have hmap : ∀ l : List UInt8, (l.takeWhile q).map blur = (l.map blur).takeWhile q := by
    intro l
    rw [List.takeWhile_map, hcomp]
  unfold Alike
  rw [hmap, hmap, h]

theorem holdsAt_blur {tests : List (UInt8 → Bool)} (hall : ∀ q ∈ tests, Blind q)
    (l : List UInt8) : holdsAt tests (l.map blur) = holdsAt tests l := by
  induction tests generalizing l with
  | nil => rfl
  | cons q tests ih =>
    obtain ⟨hq, hall⟩ := List.forall_mem_cons.mp hall
    cases l with
    | nil => rfl
    | cons x xs => exact congrArg₂ and (hq.eq x) (ih hall xs)

theorem firstIn_alike (h : Alike seen text) {tests : List (UInt8 → Bool)}
    (hall : ∀ q ∈ tests, Blind q) (lo hi : Nat) :
    firstIn tests seen lo hi = firstIn tests text lo hi := by
  have heq : ∀ j, holdsAt tests (seen.drop j) = holdsAt tests (text.drop j) := by
    intro j
    rw [← holdsAt_blur hall, ← holdsAt_blur hall (text.drop j), h.drop j]
  unfold firstIn
  simp only [heq]

theorem getD_alike (h : Alike seen text) {c : UInt8} (hcr : c ≠ ch '\r') (hnul : c ≠ 0) (k : Nat) :
    seen.getD k 0 = c ↔ text.getD k 0 = c := by
  have hsame : ∀ x : UInt8, blur x = c ↔ x = c := by
    intro x
    unfold blur
    split
    · rename_i hx
      exact iff_of_false (Ne.symm hnul) (fun heq => hcr (heq.symm.trans hx))
    · exact Iff.rfl
  have hget : ∀ l : List UInt8, (l.map blur).getD k 0 = blur (l.getD k 0) := by
    intro l
    rw [List.getD_eq_getElem?_getD, List.getD_eq_getElem?_getD, List.getElem?_map]
    cases l[k]? <;> rfl
  rw [← hsame, ← hsame (text.getD k 0), ← hget, ← hget, h]

theorem blind_exactly {pat : List UInt8} (hcr : ch '\r' ∉ pat) (hnul : 0 ∉ pat) :
    ∀ q ∈ exactly pat, Blind q := by
  intro q hq
  obtain ⟨c, hc, rfl⟩ := List.mem_map.mp hq
  have h1 : (ch '\r' == c) = false := beq_eq_false_iff_ne.mpr (fun h => hcr (h ▸ hc))
  have h2 : ((0 : UInt8) == c) = false := beq_eq_false_iff_ne.mpr (fun h => hnul (h ▸ hc))
  exact h1.trans h2.symm

theorem blind_rtspScheme : ∀ q ∈ rtspScheme, Blind q := by
  have hall : rtspScheme.all (fun q => q (ch '\r') == q 0) = true := by decide
  exact fun q hq => beq_iff_eq.mp (List.all_eq_true.mp hall q hq)

theorem pastBlanks_alike (h : Alike seen text) (j : Nat) :
    pastBlanks seen j = pastBlanks text j :=
  congrArg (j + ·) ((h.drop j).takeWhile (by decide : Blind isBlank)).length

theorem nameIn_alike (h : Alike seen text) : (nameIn seen).length = (nameIn text).length :=
  ((h.take _).takeWhile (by decide : Blind fun x => !isBlank x)).length

theorem urlIn_alike (h : Alike seen text) (i : Nat) : (urlIn seen i).2 = (urlIn text i).2 := by
  unfold urlIn
  rw [firstIn_alike h blind_rtspScheme, pastBlanks_alike h, h.length]
  cases firstIn rtspScheme text (pastBlanks text (i + 1))
      (text.length - 8) with
  | none => rfl
  | some j =>
    have hhost := ((h.drop (j + 7)).takeWhile
      (by decide : Blind fun x => decide (x ≠ ch '/' ∧ x ≠ ch ' '))).length
    simp only [getD_alike h (show ch '/' ≠ ch '\r' by decide) (by decide) (j + 6)]
    split
    · exact congrArg (j + 7 + ·) hhost
    · rfl

theorem trimmed_alike (h : Alike seen text) (i k : Nat) : trimmed seen i k = trimmed text i k := by
  induction k with
  | zero => rfl
  | succ k ih =>
    simp only [trimmed, getD_alike h (show ch ' ' ≠ ch '\r' by decide) (by decide) k, ih]

theorem searchStart_alike (h : Alike seen text) : searchStart seen = searchStart text := by
  unfold searchStart
  rw [nameIn_alike h, urlIn_alike h, h.length]
  simp only [firstIn_alike h (blind_exactly (show ch '\r' ∉ bytes "RTSP/" by decide) (by decide)),
    trimmed_alike h]

theorem foundAt_alike (h : Alike seen text) : foundAt seen = foundAt text := by
  unfold foundAt
  rw [searchStart_alike h, h.length]
  exact congrArg (Option.bind _)
    (funext fun k => firstIn_alike h (blind_exactly (by decide) (by decide)) k _)

/-- Values end at both. -/
theorem valueAt_alike (h : Alike seen text) (off : Nat) : valueAt seen off = valueAt text off := by
  have hself : ∀ l : List UInt8, (valueAt l off).map blur = valueAt l off := by
    intro l
    refine (List.map_congr_left fun x hx => ?_).trans (List.map_id _)
    have hcr := List.mem_takeWhile_imp hx
    simp only [decide_eq_true_eq, not_or] at hcr
    exact if_neg hcr.2.1
  have hmap := (h.drop off).takeWhile
    (by decide : Blind fun x => decide (x ≠ 0 ∧ ¬ (x = ch '\r' ∨ x = ch '\n')))
  rw [← hself seen, ← hself text]
  exact hmap

theorem noNewUrl_alike {seen' text' : List UInt8} (h : NoNewUrl text text')
    (hseen : Alike seen text) (hseen' : Alike seen' text') : NoNewUrl seen seen' := by
  unfold NoNewUrl at h ⊢
  rwa [firstIn_alike hseen blind_rtspScheme, firstIn_alike hseen' blind_rtspScheme,
    pastBlanks_alike hseen, pastBlanks_alike hseen', nameIn_alike hseen, hseen.length,
    hseen'.length]

theorem getElem?_of_prefix {a b : List UInt8} (h : a <+: b) {i : Nat} {x : UInt8}
    (hx : a[i]? = some x) : b[i]? = some x := by
  obtain ⟨rest, rfl⟩ := h
  rwa [List.getElem?_append_left (List.getElem?_eq_some_iff.mp hx).1]

/-- The line of the ports ends at a carriage return. -/
theorem portsIn_return [Libc] {ports : Option (BitVec 16)} {p : Nat}
    (h : portsIn text = .ok (ports, some p)) : text[p]? = some (ch '\r') := by
  obtain ⟨q, -, hqp, hend, -⟩ := portsIn_stop h
  obtain ⟨t, ht⟩ := (find_some hend).1
  rw [List.drop_drop, Nat.add_sub_cancel' (by omega)] at ht
  have hhead := congrArg (fun l => l[0]?) ht
  rw [List.getElem?_drop] at hhead
  exact hhead.symm

/-- The end of the line of the ports is all that the parser changes. -/
theorem endLine_alike [Libc] {b : Request} {n : Nat} {ports : Option (BitVec 16)}
    {stop : Option Nat} (h : portsIn (textAt b 0) = .ok (ports, stop)) :
    Alike ((endLine b stop).slice 0 n) (b.slice 0 n) := by
  cases stop with
  | none => rfl
  | some p =>
    have hcell : b.cell p = ch '\r' := by
      have hstarts : textAt b 0 <+: b.slice 0 (10000 - 0) := List.takeWhile_prefix _
      have hbyte := getElem?_of_prefix hstarts (portsIn_return h)
      rw [slice_getElem?, Nat.zero_add] at hbyte
      split at hbyte
      · exact Option.some.inj hbyte
      · cases hbyte
    unfold Alike
    apply List.ext_getElem?
    intro i
    rw [List.getElem?_map, List.getElem?_map, slice_getElem?, slice_getElem?]
    by_cases hi : i < n
    · rw [if_pos hi, if_pos hi]
      refine congrArg some ?_
      rcases eq_or_ne (0 + i) p with rfl | hne
      · rw [Nat.zero_add] at hcell ⊢
        rw [hcell, show (endLine b (some i)).cell i = 0 from put_cell_inside b i 0 [0] Nat.one_pos]
        rfl
      · exact congrArg blur (put_cell_outside b p _ [0] (by simp; omega))
    · rw [if_neg hi, if_neg hi]

/-- And so it is in a text. -/
theorem endText_alike [Libc] {ports : Option (BitVec 16)} {stop : Option Nat}
    (h : portsIn (upToNul text 0) = .ok (ports, stop)) : Alike (endText text stop) text := by
  cases stop with
  | none => rfl
  | some p =>
    have hbyte := getElem?_of_prefix (upToNul_starts text 0) (portsIn_return h)
    obtain ⟨hp, hget⟩ := List.getElem?_eq_some_iff.mp (List.drop_zero ▸ hbyte)
    change (text.set p 0).map blur = text.map blur
    rw [List.map_set, show blur 0 = blur (text[p]) by rw [hget]; rfl, ← List.map_set,
      List.set_getElem_self]

/-! ## The number that is taken -/

theorem drop_takeWhile (q : UInt8 → Bool) (l : List UInt8) :
    l.drop (l.takeWhile q).length = l.dropWhile q := by
  have hdrop := @List.drop_left _ (l.takeWhile q) (l.dropWhile q)
  rwa [List.takeWhile_append_dropWhile] at hdrop

/-- A value that the parser takes up to the end of its line. -/
theorem seqIn_value {k : Nat} {seq : List UInt8} (h : seqIn seen k = some (seq, true)) :
    ∃ j, firstIn (exactly (bytes "CSeq:")) seen k (seen.length - 5) = some j ∧
      trim (upToNul seq 0) = trim (valueAt seen (j + 5)) := by
  obtain ⟨j, hj, hvalue⟩ := Option.map_eq_some_iff.mp h
  refine ⟨j, hj, ?_⟩
  obtain ⟨hseq, hended⟩ := Prod.mk.inj hvalue
  have hblanks : ∀ x ∈ (seen.drop (j + 5)).takeWhile isBlank, blank x = true :=
    fun x hx => List.mem_takeWhile_imp hx
  have hplain : ∀ x, blank x = true →
      decide (x ≠ 0 ∧ ¬ (x = ch '\r' ∨ x = ch '\n')) = true := by
    intro x hx
    rcases of_decide_eq_true hx with rfl | rfl <;> decide
  have hdrop : seen.drop (j + 5) = (seen.drop (j + 5)).takeWhile isBlank ++
      seen.drop (pastBlanks seen (j + 5)) := by
    have hbehind := drop_takeWhile isBlank (seen.drop (j + 5))
    rw [List.drop_drop] at hbehind
    unfold pastBlanks
    rw [hbehind, List.takeWhile_append_dropWhile]
  -- the end of the line is in reach, so it ends the value
  have hwhole : seq = (seen.drop (pastBlanks seen (j + 5))).takeWhile
      (fun x => decide (¬ (x = ch '\r' ∨ x = ch '\n'))) := by
    rw [← hseq, ← takeWhile_append_stop _ ((seen.drop (pastBlanks seen (j + 5))).drop
      (RTSP_PARAM_STRING_MAX - 1)), List.take_append_drop]
    intro hall
    rw [← drop_takeWhile, List.drop_eq_nil_iff] at hall
    exact absurd (of_decide_eq_true hended) (Nat.not_lt.mpr hall)
  have hcut : upToNul seq 0 = valueAt seen (pastBlanks seen (j + 5)) := by
    unfold upToNul valueAt
    rw [hwhole, List.drop_zero, List.takeWhile_takeWhile]
    simp only [Bool.decide_and, decide_eq_true_eq]
  unfold valueAt
  rw [hcut, hdrop, List.takeWhile_append_of_pos fun x hx => hplain x (hblanks x hx)]
  unfold trim
  rw [List.dropWhile_append_of_pos hblanks]
  rfl

theorem pathIn_start {i k : Nat} {suffix preSuffix : List UInt8}
    (h : pathIn seen i = .ok (some ⟨suffix, some (preSuffix, k)⟩)) :
    (firstIn (exactly (bytes "RTSP/")) seen (i + 1) (seen.length - 5)).map
      (fun version => trimmed seen i version + 6) = some k := by
  unfold pathIn at h
  rcases hv : firstIn (exactly (bytes "RTSP/")) seen (i + 1) (seen.length - 5) with _ | version
  · rw [hv] at h
    cases h
  rw [hv] at h
  simp only at h
  split at h
  · cases h
  split at h
  · cases h
  split at h
  · cases h
  split at h
  · cases h
  · cases h
    refine congrArg some ?_
    change trimmed seen i version + 6 = trimmed seen i version - 1 + 7
    omega

/-- An accepted request has the value behind the first `CSeq:` after the path. -/
theorem accepted_value [Libc] {size n : Nat} {l : Locals} {aRequest : Block size UInt8}
    {r : Reading} (hn : n < 2 ^ 32) (hr : reading l aRequest n = .ok r)
    (haccepted : r.accepted = true) :
    ∃ j, foundAt (aRequest.slice 0 n) = some j ∧
      trim (upToNul (r.seq.getD []) 0) = trim (valueAt (aRequest.slice 0 n) (j + 5)) := by
  obtain ⟨-, hfits, hread⟩ := reading_ok hn hr
  obtain ⟨ports, stop, tcp, number, hports, hparts⟩ := readBuffer_parts hread
  obtain ⟨host, suffix, preSuffix, seq, i, k, numbers, hp, -, rfl⟩ :=
    parts_of_accepted hparts haccepted
  have halike := endLine_alike (n := n) hports
  have hslice : (l.CurRequest.put 0 (aRequest.slice 0 n)).slice 0 n = aRequest.slice 0 n := by
    have hself := slice_put_self l.CurRequest 0 (aRequest.slice 0 n)
    rwa [slice_length] at hself
  rw [hslice] at halike
  obtain ⟨j, hj, hvalue⟩ := seqIn_value hp.seq
  refine ⟨j, ?_, hvalue.trans (congrArg trim (valueAt_alike halike _))⟩
  rw [← foundAt_alike halike]
  unfold foundAt searchStart
  rw [hp.url]
  simp only
  rw [pathIn_start hp.path]
  exact hj

end payloader.rtsp_sequence
