-- A request that is accepted is decided by its bytes up to the end of the line
-- of its sequence number. What comes after them may be cut off or be anything
-- else, as long as it makes no URL where there was none.
import Payloader.RtspReadingLaws

set_option autoImplicit false

namespace payloader.rtsp_prefixes

open payloader.memory payloader.machines payloader.c_strings payloader.rtsp_parser
open payloader.rtsp_reading payloader.rtsp_reading_laws

variable {p x y : List UInt8}

/-! ## Searches that end in the first part -/

theorem getD_continues {i : Nat} (hi : i < p.length) : (p ++ x).getD i 0 = (p ++ y).getD i 0 := by
  rw [List.getD_append _ _ _ _ hi, List.getD_append _ _ _ _ hi]

theorem holdsAt_continues {tests : List (UInt8 → Bool)} {l : List UInt8}
    (h : tests.length ≤ l.length) : holdsAt tests (l ++ x) = holdsAt tests l := by
  induction tests generalizing l with
  | nil => rfl
  | cons test tests ih =>
    cases l with
    | nil => exact absurd h (Nat.not_succ_le_zero _)
    | cons c cs =>
      rw [List.cons_append]
      simp only [holdsAt]
      rw [ih (Nat.le_of_succ_le_succ h)]

/-- The texts that go on in two ways after the same first part. The first one
is at most one byte longer than it. -/
structure Continues (x y : List UInt8) : Prop where
  short : x.length ≤ 1
  shorter : x.length ≤ y.length

theorem firstIn_continues (h : Continues x y) {tests : List (UInt8 → Bool)} {ahead lo j : Nat}
    (ht : tests.length ≤ ahead)
    (hj : firstIn tests (p ++ x) lo ((p ++ x).length - ahead) = some j) :
    firstIn tests (p ++ y) lo ((p ++ y).length - ahead) = some j ∧ j + ahead ≤ p.length := by
  obtain ⟨h1, h2, h3, h4⟩ := firstIn_some.mp hj
  have hx := h.short
  have hy := h.shorter
  rw [List.length_append] at h3
  have hroom : j + ahead ≤ p.length := by omega
  have hsame : ∀ i ≤ j, holdsAt tests ((p ++ y).drop i) = holdsAt tests ((p ++ x).drop i) := by
    intro i hi
    have hlen : tests.length ≤ (p.drop i).length := by
      rw [List.length_drop]
      omega
    rw [List.drop_append_of_le_length (by omega), List.drop_append_of_le_length (by omega),
      holdsAt_continues hlen, holdsAt_continues hlen]
  refine ⟨firstIn_some.mpr ⟨?_, h2, ?_, ?_⟩, hroom⟩
  · rw [hsame j le_rfl, h1]
  · rw [List.length_append]
    omega
  · intro i hi1 hi2
    rw [hsame i hi2.le, h4 i hi1 hi2]

/-- A `takeWhile` that ends in the first part. -/
theorem takeWhile_continues {q : UInt8 → Bool} {l : List UInt8}
    (h : ((l ++ x).takeWhile q).length < l.length) :
    (l ++ y).takeWhile q = (l ++ x).takeWhile q := by
  rw [List.takeWhile_append] at h ⊢
  rw [List.takeWhile_append]
  by_cases hl : (l.takeWhile q).length = l.length
  · rw [if_pos hl, List.length_append] at h
    omega
  · rw [if_neg hl, if_neg hl]

theorem pastBlanks_continues {j : Nat} (hj : j ≤ p.length) (h : pastBlanks (p ++ x) j < p.length) :
    pastBlanks (p ++ y) j = pastBlanks (p ++ x) j := by
  unfold pastBlanks at h ⊢
  rw [List.drop_append_of_le_length hj] at h ⊢
  rw [List.drop_append_of_le_length hj,
    takeWhile_continues (x := x) (by rw [List.length_drop]; omega)]

theorem trimmed_continues (i : Nat) {k : Nat} (hk : k ≤ p.length) :
    trimmed (p ++ y) i k = trimmed (p ++ x) i k := by
  induction k with
  | zero => rfl
  | succ k ih =>
    simp only [trimmed]
    rw [getD_continues (y := x) hk, ih (Nat.le_of_succ_le hk)]

theorem lastSlash_continues (i : Nat) {k : Nat} (hk : k < p.length) :
    lastSlash (p ++ y) i k = lastSlash (p ++ x) i k := by
  induction k with
  | zero => rfl
  | succ k ih =>
    simp only [lastSlash]
    rw [getD_continues (y := x) hk, ih (Nat.lt_of_succ_lt hk)]

theorem part_continues (i : Nat) {k : Nat} (hk : k ≤ p.length) :
    part (p ++ y) i k = part (p ++ x) i k := by
  unfold part
  rw [List.take_append_of_le_length hk, List.take_append_of_le_length hk]

/-! ## The parts of a request -/

/-- A line of at most `m` bytes that ends in the first part. -/
theorem line_continues {q : UInt8 → Bool} {l : List UInt8} {m : Nat}
    (h : (((l ++ x).take m).takeWhile q).length < ((l ++ x).take m).length)
    (hl : (((l ++ x).take m).takeWhile q).length < l.length) :
    ((l ++ y).take m).takeWhile q = ((l ++ x).take m).takeWhile q ∧
      (((l ++ y).take m).takeWhile q).length < ((l ++ y).take m).length := by
  rw [← List.take_takeWhile] at h hl ⊢
  rw [← List.take_takeWhile]
  rw [List.length_take, List.length_take] at h
  rw [List.length_take] at hl
  have hstop : ((l ++ x).takeWhile q).length < l.length := by omega
  rw [takeWhile_continues hstop]
  refine ⟨rfl, ?_⟩
  rw [List.length_take, List.length_take, List.length_append]
  omega

theorem nameIn_continues (hname : hasName (p ++ x)) (hlt : (nameIn (p ++ x)).length < p.length) :
    nameIn (p ++ y) = nameIn (p ++ x) ∧ hasName (p ++ y) := by
  obtain ⟨h1, h2⟩ := line_continues (y := y) hname hlt
  exact ⟨h1, h2⟩

/-- The URL, when the cursor after it lies in the first part. Where there is no
URL, none may come with the second way to go on. -/
theorem urlIn_continues (h : Continues x y) {i : Nat} (hi : i < p.length)
    (hlt : (urlIn (p ++ x) i).2 < p.length)
    (hno : firstIn rtspScheme (p ++ x) (pastBlanks (p ++ x) (i + 1)) ((p ++ x).length - 8) = none →
      firstIn rtspScheme (p ++ y) (pastBlanks (p ++ y) (i + 1)) ((p ++ y).length - 8) = none) :
    urlIn (p ++ y) i = urlIn (p ++ x) i := by
  rcases hj : firstIn rtspScheme (p ++ x) (pastBlanks (p ++ x) (i + 1)) ((p ++ x).length - 8)
    with _ | j
  · unfold urlIn
    rw [hno hj, hj]
  obtain ⟨hy, hjp⟩ := firstIn_continues h (by decide) hj
  have hpast := (firstIn_bounds hj).1
  have hblanks : pastBlanks (p ++ y) (i + 1) = pastBlanks (p ++ x) (i + 1) :=
    pastBlanks_continues hi (by omega)
  unfold urlIn at hlt ⊢
  rw [hj] at hlt
  rw [hj, hblanks, hy]
  simp only at hlt ⊢
  rw [getD_continues (y := x) (show j + 6 < p.length by omega)]
  by_cases hslash : (p ++ x).getD (j + 6) 0 = ch '/'
  · rw [if_pos hslash] at hlt
    rw [if_pos hslash, if_pos hslash]
    simp only at hlt
    rw [List.drop_append_of_le_length (by omega)] at hlt ⊢
    rw [List.drop_append_of_le_length (by omega),
      takeWhile_continues (x := x) (by rw [List.length_drop]; omega)]
  · rw [if_neg hslash, if_neg hslash]

theorem pathIn_continues (h : Continues x y) {i k : Nat} {suffix preSuffix : List UInt8}
    (hpath : pathIn (p ++ x) i = .ok (some ⟨suffix, some (preSuffix, k)⟩)) :
    pathIn (p ++ y) i = .ok (some ⟨suffix, some (preSuffix, k)⟩) ∧ i + 6 ≤ p.length := by
  rcases hv : firstIn (exactly (bytes "RTSP/")) (p ++ x) (i + 1) ((p ++ x).length - 5)
    with _ | version
  · unfold pathIn at hpath
    rw [hv] at hpath
    cases hpath
  obtain ⟨hy, hvp⟩ := firstIn_continues h (by decide) hv
  have hv1 := (firstIn_bounds hv).1
  have hstop := trimmed_le (p ++ x) i version
  refine ⟨?_, by omega⟩
  rw [← hpath]
  unfold pathIn
  rw [hv, hy]
  simp only
  rw [trimmed_continues (x := x) i (show version ≤ p.length by omega)]
  by_cases h0 : trimmed (p ++ x) i version = 0
  · rw [if_pos h0, if_pos h0]
  have hk1 := lastSlash_le (p ++ x) i (trimmed (p ++ x) i version - 1)
  rw [if_neg h0, if_neg h0,
    lastSlash_continues (x := x) i (show trimmed (p ++ x) i version - 1 < p.length by omega),
    part_continues (x := x) _ (show trimmed (p ++ x) i version - 1 + 1 ≤ p.length by omega),
    part_continues (x := x) _ (show lastSlash (p ++ x) i (trimmed (p ++ x) i version - 1) ≤ p.length
      by omega)]

/-- Where the line of the sequence number ends. -/
def seqEnd (text : List UInt8) (i : Nat) : Nat :=
  match firstIn (exactly (bytes "CSeq:")) text i (text.length - 5) with
  | none => 0
  | some j => pastBlanks text (j + 5) +
    (((text.drop (pastBlanks text (j + 5))).take (RTSP_PARAM_STRING_MAX - 1)).takeWhile
      (fun x => decide (¬ (x = ch '\r' ∨ x = ch '\n')))).length

/-- The byte there ends the line. -/
theorem seqEnd_stop {text seq : List UInt8} {k : Nat} (h : seqIn text k = some (seq, true)) :
    seqEnd text k < text.length ∧
      (text.getD (seqEnd text k) 0 = ch '\r' ∨ text.getD (seqEnd text k) 0 = ch '\n') := by
  unfold seqIn at h
  unfold seqEnd
  rcases hj : firstIn (exactly (bytes "CSeq:")) text k (text.length - 5) with _ | j
  · rw [hj] at h
    cases h
  rw [hj] at h
  simp only [Option.map_some, Option.some.injEq, Prod.mk.injEq, decide_eq_true_eq] at h ⊢
  obtain ⟨-, hlt⟩ := h
  have hstop := takeWhile_stop hlt
  rw [decide_eq_false_iff_not, not_not] at hstop
  generalize pastBlanks text (j + 5) = t at hlt hstop ⊢
  generalize hm : (List.takeWhile _ _).length = m at hlt hstop ⊢
  rw [List.length_take, List.length_drop] at hlt
  rw [getD_drop_take _ (by omega)] at hstop
  exact ⟨by omega, hstop⟩

theorem seqIn_continues (h : Continues x y) {i : Nat} {seq : List UInt8}
    (hseq : seqIn (p ++ x) i = some (seq, true)) (hend : seqEnd (p ++ x) i < p.length) :
    seqIn (p ++ y) i = some (seq, true) := by
  unfold seqIn at hseq ⊢
  unfold seqEnd at hend
  rcases hj : firstIn (exactly (bytes "CSeq:")) (p ++ x) i ((p ++ x).length - 5) with _ | j
  · rw [hj] at hseq
    cases hseq
  obtain ⟨hy, hjp⟩ := firstIn_continues h (by decide) hj
  rw [hj] at hseq hend
  rw [hy]
  simp only [Option.map_some, Option.some.injEq, Prod.mk.injEq, decide_eq_true_eq] at hseq hend ⊢
  have hpast := le_pastBlanks (p ++ x) (j + 5)
  have hblanks : pastBlanks (p ++ y) (j + 5) = pastBlanks (p ++ x) (j + 5) :=
    pastBlanks_continues hjp (by omega)
  rw [hblanks]
  generalize pastBlanks (p ++ x) (j + 5) = t at hseq hend
  rw [List.drop_append_of_le_length (by omega)] at hseq hend ⊢
  obtain ⟨hv, hlt⟩ := hseq
  obtain ⟨h1, h2⟩ := line_continues (y := y) hlt (by rw [List.length_drop]; omega)
  exact ⟨h1.trans hv, h2⟩

/-- No URL comes with the second way to go on where there was none. -/
def NoNewUrl (text text' : List UInt8) : Prop :=
  firstIn rtspScheme text (pastBlanks text ((nameIn text).length + 1)) (text.length - 8) = none →
    firstIn rtspScheme text' (pastBlanks text' ((nameIn text).length + 1)) (text'.length - 8) = none

/-- An accepted request has the same parts with other bytes after the line of
its sequence number. -/
theorem Parts.continues (h : Continues x y) {host : Option (List UInt8)}
    {suffix preSuffix seq : List UInt8} {i k : Nat}
    (hparts : Parts (p ++ x) host suffix preSuffix seq i k) (hend : seqEnd (p ++ x) k < p.length)
    (hno : NoNewUrl (p ++ x) (p ++ y)) :
    Parts (p ++ y) host suffix preSuffix seq i k ∧ nameIn (p ++ y) = nameIn (p ++ x) := by
  obtain ⟨hpath, hi⟩ := pathIn_continues h hparts.path
  have hurl := hparts.url
  have hle : (nameIn (p ++ x)).length ≤ i := by
    have hle := le_urlIn (p ++ x) (nameIn (p ++ x)).length
    rwa [hurl] at hle
  obtain ⟨hname, hnamed⟩ := nameIn_continues (y := y) hparts.named (by omega)
  refine ⟨⟨hnamed, ?_, hpath, seqIn_continues h hparts.seq hend⟩, hname⟩
  rw [hname, urlIn_continues h (by omega) (by rw [hurl]; simp only; omega) hno, hurl]

end payloader.rtsp_prefixes
