-- Each phase of the parser computes its part of the reading. The request may
-- lie in a block of any capacity that its bytes fit, so no phase after the
-- ports reads past the last of them.
import Payloader.RtspParserLaws
import Payloader.RtspReading

set_option autoImplicit false

namespace payloader.rtsp_reading_laws

open payloader.memory payloader.machines payloader.c_strings payloader.rtsp_parser
open payloader.rtsp_parser_laws payloader.rtsp_reading

variable {cap : Nat} {b : Block cap UInt8} {text : List UInt8}

/-- The block starts with the text. Nothing is said of the cells after it. -/
structure Starts (b : Block cap UInt8) (text : List UInt8) : Prop where
  fits : text.length ≤ cap
  small : cap ≤ 10000
  cell : ∀ i < text.length, b.cell i = text.getD i 0

theorem Starts.load (h : Starts b text) {i : Nat} (hi : i < text.length) :
    b.load i = .ok (text.getD i 0) := by
  rw [load_ok b (Nat.lt_of_lt_of_le hi h.fits), h.cell i hi]

theorem Starts.slice (h : Starts b text) : b.slice 0 text.length = text := by
  apply List.ext_getElem?
  intro i
  rw [slice_getElem?]
  by_cases hi : i < text.length
  · rw [if_pos hi, Nat.zero_add, h.cell i hi, List.getD_eq_getElem _ _ hi,
      List.getElem?_eq_getElem hi]
  · rw [if_neg hi, List.getElem?_eq_none (by omega)]

theorem starts_put (b : Request) {text : List UInt8} (h : text.length ≤ 10000) :
    Starts (b.put 0 text) text := by
  refine ⟨h, le_rfl, fun i hi => ?_⟩
  have hcell := put_cell_inside b 0 i text hi
  rw [Nat.zero_add] at hcell
  rw [hcell, List.getD_eq_getElem _ _ hi]

/-! ## The shared loops -/

theorem matchAt_starts (h : Starts b text) (tests : List (UInt8 → Bool)) {j : Nat}
    (hj : j + tests.length ≤ text.length) :
    matchAt b j tests = .ok (holdsAt tests (text.drop j)) := by
  have hfits := h.fits
  have hsmall := h.small
  induction tests generalizing j with
  | nil => rfl
  | cons test tests ih =>
    rw [List.length_cons] at hj
    have hlt : j < text.length := by omega
    unfold matchAt
    rw [h.load hlt, ok_bind, List.drop_eq_getElem_cons hlt, List.getD_eq_getElem _ _ hlt,
      inc_eq (by omega), ih (by omega)]
    by_cases ht : test text[j]
    · rw [if_pos ht]
      simp [holdsAt, ht]
    · rw [if_neg ht]
      simp [holdsAt, ht]

/-- What a search gives, one place at a time. -/
theorem firstIn_step (tests : List (UInt8 → Bool)) (text : List UInt8) {lo hi : Nat}
    (h : lo < hi) :
    firstIn tests text lo hi =
      if holdsAt tests (text.drop lo) then some lo else firstIn tests text (lo + 1) hi := by
  unfold firstIn
  rw [show hi - lo = hi - (lo + 1) + 1 by omega, List.range'_succ, List.find?_cons]
  cases holdsAt tests (text.drop lo) <;> rfl

theorem firstIn_end (tests : List (UInt8 → Bool)) (text : List UInt8) {lo hi : Nat}
    (h : hi ≤ lo) : firstIn tests text lo hi = none := by
  unfold firstIn
  rw [Nat.sub_eq_zero_of_le h]
  rfl

theorem scan_starts (h : Starts b text) {tests : List (UInt8 → Bool)} {ahead j fuel : Nat}
    (ht : tests.length ≤ ahead) (ha : ahead ≤ 100) (hj : j ≤ text.length + 1)
    (hf : text.length + 1 < fuel) :
    scan fuel b text.length ahead tests j =
      .ok (firstIn tests text j (text.length - ahead)) := by
  have hfits := h.fits
  have hsmall := h.small
  unfold scan
  refine loop_follows (fun j => .ok (firstIn tests text j (text.length - ahead)))
    (fun j => j ≤ text.length + 1) (fun j => text.length + 1 - j) ?_ hj (by omega)
  intro j hj
  rw [toInt_eq (by omega), toInt_minus (by omega) (by omega)]
  by_cases hroom : j + ahead < text.length
  · rw [if_pos (by omega), matchAt_starts h tests (by omega), ok_bind,
      firstIn_step tests text (show j < text.length - ahead by omega)]
    by_cases hm : holdsAt tests (text.drop j)
    · right
      left
      rw [if_pos hm, if_pos hm]
      exact ⟨some j, rfl, rfl⟩
    · left
      rw [if_neg hm, if_neg hm, inc_eq (by omega)]
      exact ⟨j + 1, rfl, by omega, by omega, rfl⟩
  · right
    left
    rw [if_neg (by omega), firstIn_end tests text (by omega)]
    exact ⟨none, rfl, rfl⟩

theorem le_pastBlanks (text : List UInt8) (j : Nat) : j ≤ pastBlanks text j := Nat.le_add_right _ _

theorem pastBlanks_le (text : List UInt8) {j : Nat} (hj : j ≤ text.length) :
    pastBlanks text j ≤ text.length := by
  have hle := (List.takeWhile_prefix isBlank (l := text.drop j)).length_le
  rw [List.length_drop] at hle
  unfold pastBlanks
  omega

theorem pastBlanks_step (text : List UInt8) {j : Nat} (hj : j < text.length) :
    pastBlanks text j = if isBlank (text.getD j 0) then pastBlanks text (j + 1) else j := by
  unfold pastBlanks
  rw [List.drop_eq_getElem_cons hj, List.getD_eq_getElem _ _ hj, List.takeWhile_cons]
  split
  · rw [List.length_cons]
    omega
  · rfl

theorem pastBlanks_end (text : List UInt8) {j : Nat} (hj : text.length ≤ j) :
    pastBlanks text j = j := by
  unfold pastBlanks
  rw [List.drop_eq_nil_of_le hj]
  rfl

theorem isBlank_iff (x : UInt8) : isBlank x = true ↔ x = ch ' ' ∨ x = ch '\t' := decide_eq_true_iff

theorem skipBlanks_starts (h : Starts b text) {j fuel : Nat} (hj : j ≤ text.length)
    (hf : text.length < fuel) : skipBlanks fuel b text.length j = .ok (pastBlanks text j) := by
  have hfits := h.fits
  have hsmall := h.small
  unfold skipBlanks
  refine loop_follows (fun j => .ok (pastBlanks text j)) (fun j => j ≤ text.length)
    (fun j => text.length - j) ?_ hj (by omega)
  intro j hj
  by_cases hlt : j < text.length
  · rw [if_pos hlt, h.load hlt, ok_bind, pastBlanks_step text hlt]
    by_cases hx : isBlank (text.getD j 0)
    · left
      rw [if_pos ((isBlank_iff _).mp hx), if_pos hx, inc_eq (by omega)]
      exact ⟨j + 1, rfl, by omega, by omega, rfl⟩
    · right
      left
      rw [if_neg (mt (isBlank_iff _).mpr hx), if_neg hx]
      exact ⟨j, rfl, rfl⟩
  · right
    left
    rw [if_neg hlt, pastBlanks_end text (by omega)]
    exact ⟨j, rfl, rfl⟩

/-- The byte that ends a `takeWhile` fails its test. -/
theorem takeWhile_stop {p : UInt8 → Bool} {l : List UInt8}
    (h : (l.takeWhile p).length < l.length) : p (l.getD (l.takeWhile p).length 0) = false := by
  induction l with
  | nil => exact absurd h (Nat.not_lt_zero _)
  | cons x xs ih =>
    by_cases hx : p x
    · rw [List.takeWhile_cons_of_pos hx, List.length_cons, List.length_cons] at h
      rw [List.takeWhile_cons_of_pos hx]
      exact ih (Nat.lt_of_succ_lt_succ h)
    · rw [List.takeWhile_cons_of_neg hx]
      simpa using hx

theorem getD_drop_take (text : List UInt8) {k i m : Nat} (hi : i < m) :
    ((text.drop k).take m).getD i 0 = text.getD (k + i) 0 := by
  simp [List.getD_eq_getElem?_getD, hi]

/-- A copy loop that copies the bytes from `k` on that pass a test, and no
more than `m` of them. It stops at the first other byte, or at the end. -/
theorem copyBytes_while {size : Nat} {β : Type} (h : Starts b text) (dst : Block size UInt8)
    {k m : Nat} (hk : k ≤ text.length) {p : UInt8 → Bool} {u v : β}
    {stop : Nat → Nat → Except Fault (Option β)}
    (hin : ∀ i, i < m → k + i < text.length →
      stop i (k + i) = .ok (if p (text.getD (k + i) 0) then none else some u))
    (hout : ∀ i, ¬ (i < m ∧ k + i < text.length) → stop i (k + i) = .ok (some v))
    {line value : List UInt8} (hline : line = (text.drop k).take m)
    (hvalue : value = line.takeWhile p) (hdst : line.length ≤ size) (hsize : size ≤ 10000)
    {fuel : Nat} (hf : line.length < fuel) :
    copyBytes fuel b stop dst 0 k =
      .ok { verdict := if value.length < line.length then u else v, n := value.length,
            k := k + value.length, dst := dst.put 0 value } := by
  have hfits := h.fits
  have hle : value.length ≤ line.length := hvalue ▸ (List.takeWhile_prefix p).length_le
  have hlen : line.length = min m (text.length - k) := by
    rw [hline, List.length_take, List.length_drop]
  have hget : ∀ (i : Nat) (hi : i < value.length), text.getD (k + i) 0 = value[i] := by
    intro i hi
    have hpre : value <+: line := hvalue ▸ List.takeWhile_prefix p
    rw [hpre.getElem hi, ← getD_drop_take text (show i < m by omega), ← hline,
      List.getD_eq_getElem _ _ (by omega)]
  have hp : ∀ x ∈ value, p x = true := by
    rw [hvalue]
    exact fun x hx => List.mem_takeWhile_imp hx
  rw [copyBytes_part dst 0 k value _ ?_ ?_ ?_ (by omega) (by omega) hsize h.small (by omega)]
  · rw [Nat.zero_add]
  · intro i hi
    rw [h.cell _ (by omega), hget i hi]
  · intro i hi
    rw [Nat.zero_add, hin i (by omega) (by omega), hget i hi, if_pos (hp _ (List.getElem_mem hi))]
  · rw [Nat.zero_add]
    by_cases hlt : value.length < line.length
    · have hstop : p (text.getD (k + value.length) 0) = false := by
        rw [← getD_drop_take text (show value.length < m by omega), ← hline]
        rw [hvalue] at hlt ⊢
        exact takeWhile_stop hlt
      rw [hin _ (by omega) (by omega), hstop, if_pos hlt]
      rfl
    · rw [hout _ (by omega), if_neg hlt]

/-! ## The command -/

theorem commandName_starts (h : Starts b text) (CmdName : Block RTSP_PARAM_STRING_MAX UInt8)
    {fuel : Nat} (hf : 200 ≤ fuel) :
    commandName fuel b text.length CmdName =
      .ok (decide (hasName text), (nameIn text).length, CmdName.put 0 (nameIn text ++ [0])) := by
  generalize hline : text.take (RTSP_PARAM_STRING_MAX - 1) = line
  have hmax : line.length ≤ 199 := hline ▸ List.length_take_le _ _
  have hvalue : nameIn text = line.takeWhile (fun x => !isBlank x) := by rw [← hline]; rfl
  have hle : (nameIn text).length ≤ line.length := hvalue ▸ (List.takeWhile_prefix _).length_le
  unfold commandName
  rw [copyBytes_while h CmdName (Nat.zero_le _) (u := true) (v := false) ?_ ?_
    (by rw [List.drop_zero, ← hline]) hvalue (by change _ ≤ 200; omega) (by decide) (by omega),
    ok_bind]
  · simp only
    rw [store_nul CmdName (nameIn text) (by change _ < 200; omega), ok_bind, ← hline]
    simp [hasName]
  · intro i hi hlt
    rw [Nat.zero_add] at hlt
    rw [Nat.zero_add, if_pos ⟨hi, hlt⟩, h.load hlt, ok_bind]
    by_cases hx : isBlank (text.getD i 0)
    · rw [if_pos ((isBlank_iff _).mp hx), hx]
      rfl
    · rw [if_neg (mt (isBlank_iff _).mpr hx), eq_false_of_ne_true hx]
      rfl
  · intro i hi
    rw [Nat.zero_add] at hi
    rw [if_neg hi]

/-- The known names are looked for one after the other. -/
theorem commandType_eq (c : TcpConnection) {CmdName : Block RTSP_PARAM_STRING_MAX UInt8}
    {name : List UInt8} (h : cString CmdName 0 = .ok name) :
    commandType c CmdName =
      .ok { c with m_RtspCmdType := (commandIn name).getD c.m_RtspCmdType } := by
  unfold commandType commandIn commands
  rw [h, ok_bind]
  simp only [List.find?_cons, List.find?_nil]
  repeat' split
  all_goals simp_all

/-! ## The URL -/

theorem firstIn_some {tests : List (UInt8 → Bool)} {lo hi j : Nat} :
    firstIn tests text lo hi = some j ↔ holdsAt tests (text.drop j) = true ∧ lo ≤ j ∧ j < hi ∧
      ∀ i, lo ≤ i → i < j → holdsAt tests (text.drop i) = false := by
  unfold firstIn
  rw [List.find?_range'_eq_some, List.mem_range'_1]
  constructor
  · rintro ⟨h1, h2, h3⟩
    exact ⟨h1, h2.1, by omega, fun i hi1 hi2 => by simpa using h3 i hi1 hi2⟩
  · rintro ⟨h1, h2, h3, h4⟩
    exact ⟨h1, ⟨h2, by omega⟩, fun i hi1 hi2 => by simp [h4 i hi1 hi2]⟩

/-- A scan finds its place inside the request, with room after it. -/
theorem firstIn_bounds {tests : List (UInt8 → Bool)} {lo hi j : Nat}
    (h : firstIn tests text lo hi = some j) : lo ≤ j ∧ j < hi :=
  ⟨(firstIn_some.mp h).2.1, (firstIn_some.mp h).2.2.1⟩

theorem hostPort_starts (h : Starts b text) (c : TcpConnection) {i fuel : Nat}
    (hi : i < text.length) (hf : text.length + 1 < fuel) :
    hostPort fuel c b text.length i =
      .ok ({ c with m_URLHostPort := c.m_URLHostPort.put 0 ((urlIn text i).1.getD []) },
        (urlIn text i).2) := by
  have hfits := h.fits
  have hsmall := h.small
  unfold hostPort urlIn
  rw [inc_eq (by omega), skipBlanks_starts h hi (by omega), ok_bind,
    scan_starts h (by decide) (by decide) (Nat.le_succ_of_le (pastBlanks_le text hi)) hf, ok_bind]
  rcases hj : firstIn rtspScheme text (pastBlanks text (i + 1)) (text.length - 8) with _ | j
  · simp only [Option.getD_none, put_nil]
  have hjlt := (firstIn_bounds hj).2
  simp only
  rw [show (j + 6) % 2 ^ 32 = j + 6 by omega, h.load (by omega), ok_bind]
  split
  · have hlen : (text.drop (j + 7)).length ≤ text.length := by
      rw [List.length_drop]
      exact Nat.sub_le _ _
    rw [inc_eq (by omega), copyBytes_while h c.m_URLHostPort (by omega) (m := text.length)
      (p := fun x => decide (x ≠ ch '/' ∧ x ≠ ch ' ')) (u := ()) (v := ()) ?_ ?_
      (List.take_of_length_le hlen).symm rfl (by change _ ≤ 10000; omega) (by decide) (by omega),
      ok_bind]
    · simp only [Option.getD_some]
    · intro e _ hlt
      rw [if_pos hlt, h.load hlt, ok_bind]
      simp only [decide_eq_true_eq]
    · intro e he
      rw [if_neg (by omega)]
  · rw [dec_eq (by omega) (by omega)]
    simp only [Option.getD_none, put_nil]
    rfl

/-! ## The path -/

theorem trimmed_le (text : List UInt8) (i k : Nat) : trimmed text i k ≤ k := by
  induction k with
  | zero => exact le_rfl
  | succ k ih =>
    unfold trimmed
    split
    · exact Nat.le_succ_of_le ih
    · exact le_rfl

theorem le_trimmed (text : List UInt8) {i k : Nat} (hk : i ≤ k) : i ≤ trimmed text i k := by
  induction k with
  | zero => exact hk
  | succ k ih =>
    unfold trimmed
    split
    · exact ih (by omega)
    · exact hk

theorem lastSlash_le (text : List UInt8) (i k : Nat) : lastSlash text i k ≤ k := by
  induction k with
  | zero => exact le_rfl
  | succ k ih =>
    unfold lastSlash
    split
    · exact Nat.le_succ_of_le ih
    · exact le_rfl

theorem lastSlash_before (text : List UInt8) {i k : Nat} (hk : k < i) : lastSlash text i k = k := by
  cases k with
  | zero => rfl
  | succ k => exact if_neg (fun hand => by omega)

theorem le_lastSlash (text : List UInt8) {i k : Nat} (hk : i ≤ k) : i ≤ lastSlash text i k := by
  induction k with
  | zero => exact hk
  | succ k ih =>
    unfold lastSlash
    split
    · exact ih (by omega)
    · exact hk

theorem dec_succ {k : Nat} (h : k + 1 < 2 ^ 31) : dec (k + 1) = k := dec_eq (Nat.succ_pos k) h

/-- Back over the spaces. From a cursor at the first byte the loop may leave
the request. -/
theorem backBlanks_starts (h : Starts b text) {i k fuel : Nat} (hi : i ≤ k)
    (hk : k < text.length) (hf : text.length < fuel) :
    backBlanks fuel b i k =
      if trimmed text i k = 0 then .error .read else .ok (trimmed text i k - 1) := by
  have hfits := h.fits
  have hsmall := h.small
  unfold backBlanks
  refine loop_follows
    (fun k => if trimmed text i k = 0 then .error .read else .ok (trimmed text i k - 1))
    (fun k => i ≤ k ∧ k < text.length) (fun k => k) ?_ ⟨hi, hk⟩ (by omega)
  rintro k ⟨hi, hk⟩
  cases k with
  | zero =>
    -- `--k` wraps, and the next read is far outside
    right
    right
    have hload : b.load (dec 0) = .error .read := if_neg (by change ¬ 2 ^ 32 - 1 < cap; omega)
    rw [if_pos (Nat.le_trans hi (Nat.zero_le _)), hload]
    exact ⟨.read, rfl, rfl⟩
  | succ k =>
    rw [dec_succ (by omega)]
    by_cases hik : i ≤ k
    · rw [if_pos hik, h.load (by omega), ok_bind]
      by_cases hx : text.getD k 0 = ch ' '
      · have ht : trimmed text i (k + 1) = trimmed text i k := if_pos ⟨hik, hx⟩
        left
        rw [if_pos hx, ht]
        exact ⟨k, rfl, ⟨hik, by omega⟩, by omega, rfl⟩
      · have ht : trimmed text i (k + 1) = k + 1 := if_neg (fun hand => hx hand.2)
        right
        left
        rw [if_neg hx, ht]
        exact ⟨k, rfl, rfl⟩
    · have ht : trimmed text i (k + 1) = k + 1 := if_neg (fun hand => hik hand.1)
      right
      left
      rw [if_neg hik, ht]
      exact ⟨k, rfl, rfl⟩

theorem backToSlash_starts (h : Starts b text) {i k fuel : Nat} (hk : k < text.length)
    (hf : text.length < fuel) : backToSlash fuel b i k = .ok (lastSlash text i k) := by
  have hfits := h.fits
  have hsmall := h.small
  unfold backToSlash
  refine loop_follows (fun k => .ok (lastSlash text i k)) (fun k => k < text.length)
    (fun k => k) ?_ hk (by omega)
  intro k hk
  cases k with
  | zero =>
    right
    left
    rw [if_neg (by omega)]
    exact ⟨0, rfl, rfl⟩
  | succ k =>
    simp only [lastSlash]
    by_cases hik : i < k + 1
    · rw [if_pos hik, h.load hk, ok_bind]
      by_cases hx : text.getD (k + 1) 0 = ch '/'
      · right
        left
        rw [if_neg (not_not.mpr hx), if_neg (fun hand => hand.2 hx)]
        exact ⟨k + 1, rfl, rfl⟩
      · left
        rw [if_pos hx, if_pos ⟨hik, hx⟩, dec_succ (by omega)]
        exact ⟨k, rfl, by omega, by omega, rfl⟩
    · right
      left
      rw [if_neg hik, if_neg (fun hand => hik hand.1)]
      exact ⟨k + 1, rfl, rfl⟩

theorem part_length (text : List UInt8) {x y : Nat} (hy : y ≤ text.length) :
    (part text x y).length = y - x := by
  unfold part
  rw [List.length_drop, List.length_take, Nat.min_eq_left hy]

/-- The bytes of a range are copied. -/
theorem copyBytes_part_starts {size : Nat} (h : Starts b text) (dst : Block size UInt8)
    {x y last : Nat} (hlast : last + 1 = y) (hx : x ≤ text.length)
    (hy : y ≤ text.length)
    (hlen : y - x ≤ size) (hsize : size ≤ 10000) {fuel : Nat} (hf : size < fuel) :
    copyBytes fuel b (fun _ k2 => .ok (if k2 ≤ last then none else some ())) dst 0 x =
      .ok { verdict := (), n := (part text x y).length, k := x + (part text x y).length,
            dst := dst.put 0 (part text x y) } := by
  have hfits := h.fits
  have hplen := part_length text (x := x) hy
  rw [copyBytes_part dst 0 x (part text x y) () ?_ ?_ ?_ (by omega) (by omega) hsize h.small
    (by omega)]
  · rw [Nat.zero_add]
  · intro i hi
    rw [h.cell _ (by omega), List.getD_eq_getElem _ _ (by omega)]
    simp [part]
  · intro i hi
    rw [if_pos (by omega)]
  · rw [if_neg (by omega)]

/-- A copy with no end in sight leaves its array. -/
theorem copyBytes_overflow {size : Nat} {dst : Block size UInt8} {last fuel : Nat}
    (hlast : size + 1 ≤ last) (hcap : size + 1 < cap) (hsmall : cap ≤ 10000) (hf : size < fuel) :
    copyBytes fuel b (fun _ k2 => .ok (if k2 ≤ last then none else some ())) dst 0 1 =
      .error .write := by
  unfold copyBytes
  refine loop_follows (fun _ => .error .write)
    (fun s : Nat × Nat × Block size UInt8 => s.2.1 = s.1 + 1 ∧ s.1 ≤ size) (fun s => size - s.1) ?_
    ⟨rfl, Nat.zero_le _⟩ (by simpa using hf)
  rintro ⟨n, k, dst⟩ ⟨h1, h2⟩
  simp only at h1 h2 ⊢
  subst h1
  rw [if_pos (by omega), ok_bind]
  simp only
  rw [load_ok b (by omega), ok_bind]
  by_cases hn : n < size
  · left
    have hstore : dst.store n (b.cell (n + 1)) = .ok (dst.put n [b.cell (n + 1)]) := if_pos hn
    rw [hstore, ok_bind, inc_eq (by omega), inc_eq (by omega)]
    exact ⟨_, rfl, ⟨rfl, hn⟩, by simp only; omega, trivial⟩
  · right
    right
    have hstore : dst.store n (b.cell (n + 1)) = .error .write := if_neg hn
    rw [hstore]
    exact ⟨.write, rfl, rfl⟩

/-- What the phase stores, and the cursor it goes on with. -/
def storePath (c : TcpConnection) : Option Path → TcpConnection × Option Nat
  | none => (c, none)
  | some ⟨suffix, none⟩ => ({ c with m_URLSuffix := c.m_URLSuffix.put 0 (suffix ++ [0]) }, none)
  | some ⟨suffix, some (preSuffix, i)⟩ =>
    ({ c with m_URLSuffix := c.m_URLSuffix.put 0 (suffix ++ [0])
              m_URLPreSuffix := c.m_URLPreSuffix.put 0 (preSuffix ++ [0]) }, some i)

theorem urlSuffix_starts (h : Starts b text) (c : TcpConnection) {i fuel : Nat}
    (hi : i ≤ text.length) (hroom : i = 0 → 202 ≤ cap) (hf : text.length + 1 < fuel)
    (hf2 : 200 < fuel) :
    urlSuffix fuel c b text.length i = (pathIn text i).map (storePath c) := by
  have hfits := h.fits
  have hsmall := h.small
  unfold urlSuffix pathIn
  rw [inc_eq (by omega), scan_starts h (by decide) (by decide) (by omega) hf, ok_bind]
  rcases hv : firstIn (exactly (bytes "RTSP/")) text (i + 1) (text.length - 5) with _ | version
  · rfl
  obtain ⟨hv1, hv2⟩ := firstIn_bounds hv
  have hstop := trimmed_le text i version
  have hstop2 := le_trimmed text (show i ≤ version by omega)
  simp only
  rw [backBlanks_starts h (by omega) (by omega) (by omega)]
  generalize trimmed text i version = stop at hstop hstop2
  by_cases h0 : stop = 0
  · rw [if_pos h0, if_pos h0]
    rfl
  rw [if_neg h0, if_neg h0, ok_bind, backToSlash_starts h (by omega) (by omega), ok_bind]
  have hk1 := lastSlash_le text i (stop - 1)
  have hk2 : i ≤ stop - 1 → i ≤ lastSlash text i (stop - 1) := le_lastSlash text
  have hk3 : stop - 1 < i → lastSlash text i (stop - 1) = stop - 1  :=
    lastSlash_before text
  generalize lastSlash text i (stop - 1) = k1 at hk1 hk2 hk3
  rw [minus_eq hk1 (by omega), inc_eq (by omega)]
  by_cases hlong : stop - 1 - k1 + 1 > RTSP_PARAM_STRING_MAX
  · rw [if_pos hlong, if_pos hlong]
    rfl
  have hshort : stop - 1 - k1 < 200 := by
    change ¬ _ > 200 at hlong
    omega
  rw [if_neg hlong, if_neg hlong, inc_eq (by omega),
    copyBytes_part_starts h c.m_URLSuffix (y := stop - 1 + 1) rfl (by omega) (by omega)
      (by change _ ≤ 200; omega) (by decide) hf2, ok_bind]
  simp only
  have hslen := part_length text (x := k1 + 1) (show stop - 1 + 1 ≤ text.length by omega)
  rw [store_nul _ _ (by change _ < 200; omega), ok_bind]
  by_cases hwrap : k1 < i
  · have hminus : minus k1 i = 2 ^ 32 - 1 := by
      unfold minus
      omega
    rw [hminus, if_pos (by decide), if_pos (Or.inl hwrap)]
    rfl
  rw [minus_eq (by omega) (by omega)]
  by_cases hpre : k1 - i > RTSP_PARAM_STRING_MAX
  · rw [if_pos hpre, if_pos (Or.inr hpre)]
    rfl
  have hpre' : k1 - i ≤ 200 := Nat.le_of_not_gt hpre
  rw [if_neg hpre, if_neg (not_or.mpr ⟨hwrap, hpre⟩)]
  by_cases hk0 : k1 = 0
  · -- the bound of the copy wraps
    obtain rfl : i = 0 := by omega
    subst hk0
    have hover : copyBytes fuel b (fun _ k2 => .ok (if k2 ≤ dec 0 then none else some ()))
        c.m_URLPreSuffix 0 1 = .error .write :=
      copyBytes_overflow (by decide) (hroom rfl) hsmall hf2
    rw [if_pos rfl, hover]
    rfl
  · have hplen := part_length text (x := i + 1) (show k1 ≤ text.length by omega)
    rw [if_neg hk0, dec_eq (by omega) (by omega),
      copyBytes_part_starts h c.m_URLPreSuffix (y := k1) (by omega) (by omega) (by omega)
        (by change _ ≤ 200; omega) (by decide) hf2, ok_bind]
    simp only
    rw [store_nul _ _ (by change _ < 200; omega), ok_bind,
      show (stop - 1 + 7) % 2 ^ 32 = stop - 1 + 7 by omega]
    rfl

/-! ## The header lines -/

theorem cSeq_starts (h : Starts b text) (c : TcpConnection) {i fuel : Nat}
    (hi : i ≤ text.length) (hf : text.length + 1 < fuel) (hf2 : 200 ≤ fuel) :
    cSeq fuel c b text.length i =
      .ok (match seqIn text i with
        | none => (c, false)
        | some (value, ended) => ({ c with m_CSeq := c.m_CSeq.put 0 (value ++ [0]) }, ended)) := by
  have hfits := h.fits
  have hsmall := h.small
  unfold cSeq seqIn
  rw [scan_starts h (by decide) (by decide) (by omega) hf, ok_bind]
  rcases hj : firstIn (exactly (bytes "CSeq:")) text i (text.length - 5) with _ | j
  · rfl
  have hjlt := (firstIn_bounds hj).2
  have hpast := pastBlanks_le text (show j + 5 ≤ text.length by omega)
  simp only [Option.map_some]
  rw [show (j + 5) % 2 ^ 32 = j + 5 by omega, skipBlanks_starts h (by omega) (by omega), ok_bind]
  generalize pastBlanks text (j + 5) = t at hpast
  generalize hline : (text.drop t).take (RTSP_PARAM_STRING_MAX - 1) = line
  have hmax : line.length ≤ 199 := hline ▸ List.length_take_le _ _
  generalize hvalue : line.takeWhile _ = value
  have hle : value.length ≤ line.length := hvalue ▸ (List.takeWhile_prefix _).length_le
  rw [copyBytes_while h c.m_CSeq hpast (u := true) (v := false) ?_ ?_ hline.symm hvalue.symm
    (by change _ ≤ 200; omega) (by decide) (by omega), ok_bind]
  · simp only
    rw [store_nul c.m_CSeq value (by change _ < 200; omega), ok_bind]
    simp
  · intro n hn hlt
    rw [if_pos ⟨hn, hlt⟩, h.load hlt, ok_bind]
    by_cases hx : text.getD (t + n) 0 = ch '\r' ∨ text.getD (t + n) 0 = ch '\n'
    · rw [if_pos hx, if_neg (by rw [decide_eq_true_iff, not_not]; exact hx)]
    · rw [if_neg hx, if_pos (by rw [decide_eq_true_iff]; exact hx)]
  · intro n hn
    rw [if_neg hn]

/-- More fuel than bytes makes no difference. -/
theorem numberStarts_fuel (text : List UInt8) {m n j : Nat} (hm : text.length ≤ j + m)
    (hn : text.length ≤ j + n) : numberStarts text m j = numberStarts text n j := by
  induction m generalizing n j with
  | zero =>
    cases n with
    | zero => rfl
    | succ n => exact (if_neg (by omega)).symm
  | succ m ih =>
    cases n with
    | zero => exact if_neg (by omega)
    | succ n =>
      have hpast := le_pastBlanks text (j + 15)
      simp only [numberStarts]
      rw [ih (n := n) (by omega) (by omega), ih (n := n) (j := j + 1) (by omega) (by omega)]

/-- The number of each `Content-Length:` is read in turn, and the last one
stays. -/
theorem contentLengths_starts (h : Starts b text)
    (read : Nat → Except Fault (Option (BitVec 32))) (c : TcpConnection) {i fuel : Nat}
    (hi : i ≤ text.length) (hf : text.length + 1 < fuel) :
    contentLengths read fuel c b text.length i =
      ((numberStarts text (text.length + 1) i).mapM read).map (fun numbers =>
        { c with m_ContentLength := lastNumber c.m_ContentLength numbers }) := by
  have hfits := h.fits
  have hsmall := h.small
  unfold contentLengths
  refine loop_follows
    (fun s : Nat × TcpConnection =>
      ((numberStarts text (text.length + 1) s.1).mapM read).map (fun numbers =>
        { s.2 with m_ContentLength := lastNumber s.2.m_ContentLength numbers }))
    (fun s => s.1 ≤ text.length + 1) (fun s => text.length + 1 - s.1) (s := (i, c)) ?_ ?_ ?_
  rotate_left
  · exact Nat.le_succ_of_le hi
  · exact Nat.lt_of_le_of_lt (Nat.sub_le _ _) hf
  rintro ⟨j, c⟩ hj
  simp only at hj ⊢
  rw [toInt_eq (by omega), toInt_minus (by omega) (by omega)]
  by_cases hroom : j + 15 < text.length
  · have hpast := pastBlanks_le text (show j + 15 ≤ text.length by omega)
    have hpast2 := le_pastBlanks text (j + 15)
    have hstarts : numberStarts text (text.length + 1) j =
        if holdsAt contentLengthName (text.drop j) then
          pastBlanks text (j + 15) ::
            numberStarts text (text.length + 1) (pastBlanks text (j + 15) + 1)
        else numberStarts text (text.length + 1) (j + 1) := by
      rw [numberStarts, if_pos hroom,
        numberStarts_fuel text (n := text.length + 1) (by omega) (by omega),
        numberStarts_fuel text (j := j + 1) (n := text.length + 1) (by omega) (by omega)]
    rw [if_pos (by omega), matchAt_starts h _ (by change j + 15 ≤ _; omega), ok_bind, hstarts]
    by_cases hm : holdsAt contentLengthName (text.drop j)
    · rw [if_pos hm, if_pos hm, show (j + 15) % 2 ^ 32 = j + 15 by omega,
        skipBlanks_starts h (by omega) (by omega), ok_bind]
      generalize pastBlanks text (j + 15) = t at hpast hpast2
      rw [inc_eq (by omega), List.mapM_cons]
      rcases hread : read t with e | number
      · right
        right
        exact ⟨e, rfl, rfl⟩
      · left
        have hnext : ∀ c' : TcpConnection,
            ((numberStarts text (text.length + 1) (t + 1)).mapM read).map (fun numbers =>
              { c' with m_ContentLength :=
                  lastNumber (number.getD c.m_ContentLength) numbers }) =
            (do
              let numbers ← (numberStarts text (text.length + 1) (t + 1)).mapM read
              .ok (number :: numbers)).map (fun numbers =>
                { c' with m_ContentLength := lastNumber c.m_ContentLength numbers }) := by
          intro c'
          cases (numberStarts text (text.length + 1) (t + 1)).mapM read <;> rfl
        cases number with
        | none =>
          exact ⟨(t + 1, c), rfl, by simp only; omega, by simp only; omega, hnext c⟩
        | some num =>
          exact ⟨(t + 1, { c with m_ContentLength := num }), rfl, by simp only; omega,
            by simp only; omega, hnext c⟩
    · left
      rw [if_neg hm, if_neg hm, inc_eq (by omega)]
      exact ⟨(j + 1, c), rfl, by simp only; omega, by simp only; omega, rfl⟩
  · right
    left
    rw [if_neg (by omega), numberStarts, if_neg hroom]
    exact ⟨c, rfl, rfl⟩

/-! ## The ports -/

/-- A string that is read has its NUL in the block. -/
theorem cString_ok {size : Nat} {b : Block size UInt8} {off : Nat} {text : List UInt8}
    (h : cString b off = .ok text) :
    0 ∈ b.slice off (size - off) ∧ text = textAt b off := by
  unfold cString at h
  split at h
  · exact ⟨‹_›, (Except.ok.inj h).symm⟩
  · cases h

theorem cString_textAt {size : Nat} {b : Block size UInt8} {off : Nat}
    (h : 0 ∈ b.slice off (size - off)) : cString b off = .ok (textAt b off) := if_pos h

theorem nul_notMem_textAt {size : Nat} (b : Block size UInt8) (off : Nat) :
    0 ∉ textAt b off := by
  intro h
  have := List.mem_takeWhile_imp h
  simp at this

/-- A block with a NUL holds the text before it. -/
theorem holds_textAt {size : Nat} {b : Block size UInt8} (h : 0 ∈ b.slice 0 size) :
    Holds b (textAt b 0) := by
  have hpre : textAt b 0 <+: b.slice 0 size := List.takeWhile_prefix _
  have hlt : (textAt b 0).length < (b.slice 0 size).length := by
    apply Nat.lt_of_le_of_ne hpre.length_le
    intro heq
    rw [← hpre.eq_of_length heq] at h
    exact nul_notMem_textAt b 0 h
  have hcell : ∀ i < size, (b.slice 0 size).getD i 0 = b.cell i := by
    intro i hi
    rw [List.getD_eq_getElem?_getD, slice_getElem?, if_pos hi, Nat.zero_add]
    rfl
  have hfits : (textAt b 0).length < size := by rwa [slice_length] at hlt
  refine ⟨hfits, ?_⟩
  intro i hi
  rcases Nat.lt_or_ge i (textAt b 0).length with hin | hout
  · rw [List.getD_eq_getElem _ _ hin, hpre.getElem hin, ← hcell i (hin.trans hfits),
      List.getD_eq_getElem _ _ (hin.trans hlt)]
  · obtain rfl : i = (textAt b 0).length := Nat.le_antisymm hi hout
    have hstop := takeWhile_stop hlt
    rw [decide_eq_false_iff_not, not_not] at hstop
    rw [List.getD_eq_default _ _ le_rfl]
    exact (hcell _ hfits).symm.trans hstop

theorem portsIn_none [Libc] {text : List UInt8} (hq : find (bytes "client_port") text = none) :
    portsIn text = .ok (none, none) := by
  unfold portsIn
  rw [hq]

theorem portsIn_open [Libc] {text : List UInt8} {q : Nat}
    (hq : find (bytes "client_port") text = some q)
    (hd : find (bytes "\r\n") (text.drop q) = none) : portsIn text = .ok (none, none) := by
  unfold portsIn
  rw [hq]
  simp only
  rw [hd]

theorem portsIn_line [Libc] {text : List UInt8} {q d : Nat}
    (hq : find (bytes "client_port") text = some q)
    (hd : find (bytes "\r\n") (text.drop q) = some d) :
    portsIn text =
      if d < 1024 then .ok (portOf ((text.drop q).take d), some (q + d)) else .error .write := by
  unfold portsIn
  rw [hq]
  simp only
  rw [hd]

/-- A string that is cut with a NUL. -/
theorem upToNul_cut {text : List UInt8} {y : Nat} (hy : y < (upToNul text 0).length) :
    upToNul (text.set y 0) 0 = (upToNul text 0).take y := by
  have hpre : upToNul text 0 <+: text := upToNul_starts text 0
  have htake : (upToNul text 0).take y = text.take y := by
    rw [List.prefix_iff_eq_take.mp hpre, List.take_take, Nat.min_eq_left hy.le]
  have hall : ∀ x ∈ text.take y, decide (x ≠ 0) = true := by
    intro x hx
    rw [← htake] at hx
    have hx' : x ∈ (text.drop 0).takeWhile (fun x => decide (x ≠ 0)) := List.mem_of_mem_take hx
    exact List.mem_takeWhile_imp (p := fun x => decide (x ≠ 0)) hx'
  rw [htake, List.set_eq_take_append_cons_drop, if_pos (hy.trans_le hpre.length_le)]
  exact takeWhile_before hall (by decide) _

theorem upToNul_set {text : List UInt8} (h : 0 ∉ text) {y : Nat} (hy : y < text.length) :
    upToNul (text.set y 0) 0 = text.take y := by
  have hself : upToNul text 0 = text := by rw [upToNul_eq h, List.drop_zero]
  rw [upToNul_cut (by rwa [hself]), hself]

/-- The copies and searches in a copied line stay in it. -/
theorem portInLine_eq [Libc] {CP : Block 1024 UInt8} {line : List UInt8} (h : Holds CP line)
    (hnul : 0 ∉ line) : portInLine CP = .ok (portOf line) := by
  unfold portInLine portOf
  rw [strstr_holds h (Nat.zero_le _), upToNul_eq hnul, List.drop_zero, ok_bind]
  rcases hx : find (bytes "=") line with _ | x
  · rfl
  obtain ⟨CP', text, hcopy, hcp, hvalue⟩ :=
    strcpyDown_holds h hnul (Nat.succ_pos x) (find_le (by decide) hx)
  simp only [Option.map_some, Nat.zero_add]
  rw [hcopy, ok_bind, strstr_holds hcp (Nat.zero_le _), hvalue, ok_bind]
  rcases hy : find (bytes "-") (copiedDown line (x + 1)) with _ | y
  · rfl
  have hylt : y < (upToNul text 0).length := by
    rw [hvalue]
    exact find_le (by decide) hy
  have hin : y < text.length := by
    have hstarts := (upToNul_starts text 0).length_le
    rw [List.drop_zero] at hstarts
    omega
  have hfits := hcp.fits
  have hstore : CP'.store y 0 = .ok (CP'.put y [0]) := if_pos (by omega)
  simp only [Option.map_some, Nat.zero_add]
  rw [hstore, ok_bind, cString_holds (holds_set hcp hin) 0 (Nat.zero_le _), upToNul_cut hylt,
    hvalue]
  rfl

/-- The text from a place on, when a NUL is put after it. -/
theorem upToNul_set_drop {text : List UInt8} (h : 0 ∉ text) {q d : Nat}
    (hd : q + d < text.length) : upToNul (text.set (q + d) 0) q = (text.drop q).take d := by
  have hset : (text.set (q + d) 0).drop q = (text.drop q).set d 0 := by
    rw [List.drop_set, if_neg (by omega), Nat.add_sub_cancel_left]
  have hnul : 0 ∉ text.drop q := fun hmem => h (List.mem_of_mem_drop hmem)
  unfold upToNul
  rw [hset]
  exact upToNul_set hnul (by rw [List.length_drop]; omega)

/-- The phase of the ports in a block that holds a text. -/
theorem clientPort_text [Libc] {size : Nat} {b : Block size UInt8} {text : List UInt8}
    (h : Holds b text) (hnul : 0 ∉ text) (c : TcpConnection) (CP : Block 1024 UInt8) :
    clientPort c b CP =
      (portsIn text).map (fun r => (putPorts c r.1, r.2.elim b (fun p => b.put p [0]))) := by
  have hfits := h.fits
  unfold clientPort portsIn
  rw [strstr_holds h (Nat.zero_le _), upToNul_eq hnul, List.drop_zero, ok_bind]
  rcases hq : find (bytes "client_port") text with _ | q
  · rfl
  have hqle : q + 11 ≤ text.length := find_le (by decide) hq
  simp only [Option.map_some, Nat.zero_add]
  rw [strstr_holds h (by omega), upToNul_eq hnul, ok_bind]
  rcases hd : find (bytes "\r\n") (text.drop q) with _ | d
  · rfl
  have hdle : d + 2 ≤ (text.drop q).length := find_le (by decide) hd
  rw [List.length_drop] at hdle
  have hstore : b.store (q + d) 0 = .ok (b.put (q + d) [0]) := if_pos (by omega)
  have hcopy := cString_holds (holds_set h (p := q + d) (by omega)) q
    (by rw [List.length_set]; omega)
  rw [upToNul_set_drop hnul (by omega)] at hcopy
  have hlen : ((text.drop q).take d).length = d := by
    rw [List.length_take, List.length_drop]
    omega
  have hline : 0 ∉ (text.drop q).take d :=
    fun hmem => hnul (List.mem_of_mem_drop (List.mem_of_mem_take hmem))
  simp only [Option.map_some]
  rw [hstore, ok_bind]
  generalize (text.drop q).take d = line at hcopy hlen hline
  by_cases hshort : d < 1024
  · rw [if_pos hshort, strcpy_holds CP hcopy (by omega), ok_bind,
      portInLine_eq (holds_put CP line (by omega)) hline, ok_bind]
    cases portOf line <;> rfl
  · have hcpy : strcpy CP 0 (b.put (q + d) [0]) q = .error .write := by
      unfold strcpy
      rw [hcopy]
      exact if_neg (by omega)
    rw [if_neg hshort, hcpy]
    rfl

theorem clientPort_eq [Libc] (c : TcpConnection) (CurRequest : Request) (CP : Block 1024 UInt8) :
    clientPort c CurRequest CP =
      (readPorts CurRequest).map (fun r => (putPorts c r.1, r.2)) := by
  by_cases hzero : 0 ∈ CurRequest.slice 0 10000
  · have htext : cString CurRequest 0 = .ok (textAt CurRequest 0) := cString_textAt hzero
    unfold readPorts
    rw [clientPort_text (holds_textAt hzero) (nul_notMem_textAt CurRequest 0), htext, ok_bind]
    rcases portsIn (textAt CurRequest 0) with e | ⟨ports, _ | p⟩
    · rfl
    · rfl
    · rfl
  · have hread : cString CurRequest 0 = .error .read := if_neg hzero
    unfold clientPort readPorts strstr
    rw [hread]
    rfl

theorem readPorts_eq [Libc] {b : Request} {seen : List UInt8} {ports : Option (BitVec 16)}
    {stop : Option Nat} (hseen : cString b 0 = .ok seen) (h : portsIn seen = .ok (ports, stop)) :
    readPorts b = .ok (ports, endLine b stop) := by
  unfold readPorts
  rw [hseen, ok_bind, h]
  rfl

/-- There is a NUL in the request before the ports are read and after it. -/
theorem readPorts_ok [Libc] {b b' : Request} {ports : Option (BitVec 16)}
    (h : readPorts b = .ok (ports, b')) :
    0 ∈ b.slice 0 10000 ∧ 0 ∈ b'.slice 0 10000 := by
  obtain ⟨text, htext, h⟩ := bind_eq_ok h
  obtain ⟨⟨ports', stop⟩, -, h⟩ := bind_eq_ok h
  cases h
  have hzero : 0 ∈ b.slice 0 10000 := (cString_ok htext).1
  refine ⟨hzero, ?_⟩
  have hb : Holds b (textAt b 0) := holds_textAt hzero
  have hcell : b.cell (textAt b 0).length = 0 := by
    rw [hb.cell _ le_rfl, List.getD_eq_default _ _ le_rfl]
  have hend : (endLine b stop).cell (textAt b 0).length = 0 := by
    cases stop with
    | none => exact hcell
    | some p =>
      by_cases hp : (textAt b 0).length = p
      · rw [hp]
        exact put_cell_inside b p 0 [0] Nat.one_pos
      · rw [← hcell]
        exact put_cell_outside b p _ [0] (by simp; omega)
  refine List.mem_map.mpr ⟨_, List.mem_range.mpr hb.fits, ?_⟩
  rw [Nat.zero_add, hend]

theorem transport_eq (c : TcpConnection) {b : Request} (h : 0 ∈ b.slice 0 10000) :
    transport c b =
      .ok { c with
        m_TcpTransport := setTransport c.m_RtspCmdType
          (some (isTcp (textAt b 0))) c.m_TcpTransport } := by
  unfold transport setTransport isTcp
  by_cases hc : c.m_RtspCmdType = .RTSP_SETUP
  · rw [if_pos hc, if_pos hc, Option.getD_some]
    have hfind : strstr b 0 (bytes "RTP/AVP/TCP") =
        .ok ((find (bytes "RTP/AVP/TCP") (textAt b 0)).map (0 + ·)) := by
      have htext : cString b 0 = .ok (textAt b 0) := cString_textAt h
      unfold strstr
      rw [htext]
      rfl
    rw [hfind, ok_bind, Option.isSome_map]
  · rw [if_neg hc, if_neg hc]

/-! ## The parser -/

theorem starts_slice (b : Request) {n : Nat} (hn : n ≤ 10000) : Starts b (b.slice 0 n) := by
  refine ⟨?_, le_rfl, ?_⟩
  · rw [slice_length]
    exact hn
  · intro i hi
    rw [slice_length] at hi
    rw [List.getD_eq_getElem?_getD, slice_getElem?, if_pos hi, Nat.zero_add]
    rfl

theorem urlIn_le {i : Nat} (hi : i ≤ text.length) : (urlIn text i).2 ≤ text.length := by
  unfold urlIn
  rcases hj : firstIn rtspScheme text (pastBlanks text (i + 1)) (text.length - 8) with _ | j
  · exact hi
  have hjlt := (firstIn_bounds hj).2
  simp only
  split
  · have hle := (List.takeWhile_prefix (fun x => decide (x ≠ ch '/' ∧ x ≠ ch ' '))
      (l := text.drop (j + 7))).length_le
    rw [List.length_drop] at hle
    simp only
    omega
  · simp only
    omega

theorem le_urlIn (text : List UInt8) (i : Nat) : i ≤ (urlIn text i).2 := by
  unfold urlIn
  rcases hj : firstIn rtspScheme text (pastBlanks text (i + 1)) (text.length - 8) with _ | j
  · exact le_rfl
  have hpast := le_pastBlanks text (i + 1)
  have hjlo := (firstIn_bounds hj).1
  simp only
  split
  · simp only
    omega
  · simp only
    omega

theorem part_length_le (text : List UInt8) (x y : Nat) : (part text x y).length ≤ y - x := by
  unfold part
  rw [List.length_drop]
  exact Nat.sub_le_sub_right (List.length_take_le _ _) _

/-- The parts of a path fit their arrays, and the cursor after it is in the request. -/
theorem pathIn_fits {i : Nat} {suffix : List UInt8} {rest : Option (List UInt8 × Nat)}
    (h : pathIn text i = .ok (some ⟨suffix, rest⟩)) :
    suffix.length < RTSP_PARAM_STRING_MAX ∧ ∀ preSuffix k, rest = some (preSuffix, k) →
      preSuffix.length < RTSP_PARAM_STRING_MAX ∧ k ≤ text.length := by
  unfold pathIn at h
  rcases hv : firstIn (exactly (bytes "RTSP/")) text (i + 1) (text.length - 5) with _ | version
  · rw [hv] at h
    cases h
  rw [hv] at h
  simp only at h
  have hvlt := (firstIn_bounds hv).2
  have hstop := trimmed_le text i version
  have hslash := lastSlash_le text i (trimmed text i version - 1)
  split at h
  · cases h
  split at h
  · cases h
  rename_i hshort
  change ¬ _ > 200 at hshort
  have hsuf := part_length_le text (lastSlash text i (trimmed text i version - 1) + 1)
    (trimmed text i version - 1 + 1)
  have hpre := part_length_le text (i + 1) (lastSlash text i (trimmed text i version - 1))
  split at h
  · cases h
    refine ⟨?_, fun preSuffix k hrest => nomatch hrest⟩
    change _ < 200
    omega
  rename_i hlong
  change ¬ (_ ∨ _ > 200) at hlong
  split at h
  · cases h
  · cases h
    refine ⟨?_, ?_⟩
    · change _ < 200
      omega
    · rintro preSuffix k ⟨⟩
      change _ < 200 ∧ _
      omega

theorem setTransport_none (type : RTSP_CMD_TYPES) (old : Bool) :
    setTransport type none old = old := ite_self _

/-- The phases after the ports store their parts of the reading. -/
theorem readParts_eq {n fuel : Nat} (c : TcpConnection) (ports : Option (BitVec 16)) (b : Request)
    (CmdName : Block RTSP_PARAM_STRING_MAX UInt8) (hn : n ≤ 10000) (hf : n + 202 ≤ fuel)
    (hnul : 0 ∈ b.slice 0 10000) :
    (do
      let (parseSucceeded, i, CmdName) ← commandName fuel b n CmdName
      if parseSucceeded = false then .ok (false, putPorts c ports)
      else do
        let c ← commandType (putPorts c ports) CmdName
        let c ← transport c b
        let (c, i) ← hostPort fuel c b n i
        let (c, i) ← urlSuffix fuel c b n i
        match i with
        | none => .ok (false, c)
        | some i =>
          let (c, parseSucceeded) ← cSeq fuel c b n i
          if parseSucceeded = false then .ok (false, c)
          else do
            let c ← contentLength fuel c b n i
            .ok (true, c)) =
      (readParts ports (isTcp (textAt b 0)) (number b) (b.slice 0 n)).map
        (fun r => (r.accepted, r.store c)) := by
  have hstarts := starts_slice b hn
  have hlen : (b.slice 0 n).length = n := slice_length b 0 n
  unfold readParts
  generalize b.slice 0 n = text at hstarts hlen
  subst hlen
  rw [commandName_starts hstarts CmdName (by omega), ok_bind]
  simp only
  by_cases hname : hasName text
  · have hi : (nameIn text).length < text.length :=
      Nat.lt_of_lt_of_le hname (List.length_take_le' _ _)
    have hmax : (nameIn text).length < 200 :=
      Nat.lt_of_lt_of_le hname ((List.length_take_le _ _).trans (by decide))
    have hcmd := cString_holds (holds_put CmdName (nameIn text) hmax) 0 (Nat.zero_le _)
    have hurl := urlIn_le hi.le
    rw [decide_eq_true hname, if_neg (by decide), if_pos hname, commandType_eq _ hcmd, ok_bind,
      transport_eq _ hnul, ok_bind, hostPort_starts hstarts _ hi (by omega), ok_bind]
    simp only
    generalize urlIn text (nameIn text).length = url at hurl
    obtain ⟨host, i⟩ := url
    simp only at hurl ⊢
    rw [urlSuffix_starts hstarts _ hurl (fun _ => by decide) (by omega) (by omega)]
    rcases hpath : pathIn text i with e | _ | ⟨suffix, _ | ⟨preSuffix, k⟩⟩
    · rfl
    · cases ports <;> rfl
    · cases ports <;> rfl
    have hk := ((pathIn_fits hpath).2 _ _ rfl).2
    simp only [Except.map, ok_bind, storePath]
    rw [cSeq_starts hstarts _ hk (by omega) (by omega), ok_bind]
    rcases hseq : seqIn text k with _ | ⟨seq, _ | _⟩
    · cases ports <;> rfl
    · cases ports <;> rfl
    · simp only
      rw [if_neg (by decide)]
      unfold contentLength
      rw [contentLengths_starts hstarts _ _ hk (by omega)]
      cases (numberStarts text (text.length + 1) k).mapM (number b) with
      | error e => rfl
      | ok numbers => cases ports <;> rfl
  · rw [decide_eq_false hname, if_pos rfl, if_neg hname]
    have hstore : (show Reading from { ports }).store c = putPorts c ports := by
      unfold Reading.store
      rw [setTransport_none]
      cases ports <;> rfl
    exact congrArg (fun c => Except.ok (false, c)) hstore.symm

/-- The parser stores its reading of the request over the session. -/
theorem ParseRtspRequest_reading [Libc] {size n fuel : Nat} (c : TcpConnection) (l : Locals)
    (aRequest : Block size UInt8) (hn : n < 2 ^ 32) (hf : n ≤ 10000 → n + 202 ≤ fuel) :
    ParseRtspRequest fuel c l aRequest n =
      (reading l aRequest n).map (fun r => (r.accepted, r.store c)) := by
  unfold ParseRtspRequest reading
  rcases hcopy : l.CurRequest.memcpy 0 aRequest 0 n with e | b0
  · rfl
  have hin := (memcpy_ok_inv (p := 0) (q := 0) (by omega) hcopy).2.1
  rw [Nat.zero_add] at hin
  rw [ok_bind, ok_bind, clientPort_eq]
  unfold readBuffer
  rcases hports : readPorts b0 with e | ⟨ports, b⟩
  · rfl
  · exact readParts_eq c ports b l.CmdName hin (hf hin) (readPorts_ok hports).2

theorem ParseRtspRequest_turns [Libc] {size n : Nat} (c : TcpConnection) (l : Locals)
    (aRequest : Block size UInt8) (hn : n < 2 ^ 32) :
    ParseRtspRequest TURNS c l aRequest n =
      (reading l aRequest n).map (fun r => (r.accepted, r.store c)) :=
  ParseRtspRequest_reading c l aRequest hn (fun hfits => Nat.add_le_add_right hfits 202)

/-- The request is copied to the start of the buffer. -/
theorem reading_copied [Libc] {size n : Nat} (l : Locals) (aRequest : Block size UInt8)
    (hn : n ≤ 10000) (hsize : n ≤ size) :
    reading l aRequest n = readBuffer (l.CurRequest.put 0 (aRequest.slice 0 n)) n := by
  have hcopy := memcpy_ok l.CurRequest aRequest (p := 0) (q := 0) (show n < 2 ^ 64 by omega)
    (by omega) (show 0 + n ≤ 10000 by omega)
  rw [Int.ofNat_zero] at hcopy
  unfold reading
  rw [hcopy, ok_bind]

theorem reading_ok [Libc] {size n : Nat} {l : Locals} {aRequest : Block size UInt8} {r : Reading}
    (hn : n < 2 ^ 32) (h : reading l aRequest n = .ok r) :
    n ≤ size ∧ n ≤ 10000 ∧ readBuffer (l.CurRequest.put 0 (aRequest.slice 0 n)) n = .ok r := by
  obtain ⟨b, hcopy, hread⟩ := bind_eq_ok h
  obtain ⟨hsize, hfits, rfl⟩ := memcpy_ok_inv (p := 0) (q := 0) (by omega) hcopy
  rw [Nat.zero_add] at hsize hfits
  exact ⟨hsize, hfits, hread⟩

/-! ## A request with a NUL after it -/

/-- Where the line of the ports ends. -/
theorem portsIn_stop [Libc] {text : List UInt8} {ports : Option (BitVec 16)} {p : Nat}
    (h : portsIn text = .ok (ports, some p)) :
    ∃ q, find (bytes "client_port") text = some q ∧ q + 11 ≤ p ∧
      find (bytes "\r\n") (text.drop q) = some (p - q) ∧ p + 2 ≤ text.length := by
  rcases hq : find (bytes "client_port") text with _ | q
  · rw [portsIn_none hq] at h
    cases h
  rcases hd : find (bytes "\r\n") (text.drop q) with _ | d
  · rw [portsIn_open hq hd] at h
    cases h
  rw [portsIn_line hq hd] at h
  split at h
  · cases h
    have hdle : d + 2 ≤ (text.drop q).length := find_le (by decide) hd
    rw [List.length_drop] at hdle
    -- the name of the parameter holds no line end
    have hname : 11 ≤ d := by
      by_contra hlt
      obtain ⟨rest, hrest⟩ := (find_some hq).1
      have hcr : crlf <+: (text.drop q).drop d := (find_some hd).1
      rw [← hrest] at hcr
      have hmem := mem_of_prefix_drop hcr (Nat.lt_of_not_le hlt)
      revert hmem
      decide
    exact ⟨q, rfl, by omega, by rw [hd, Nat.add_sub_cancel_left], by omega⟩
  · cases h

theorem numberStarts_le {text : List UInt8} {fuel j t : Nat}
    (h : t ∈ numberStarts text fuel j) : t ≤ text.length := by
  induction fuel generalizing j with
  | zero => cases h
  | succ fuel ih =>
    unfold numberStarts at h
    split at h
    · rename_i hroom
      split at h
      · rcases List.mem_cons.mp h with rfl | h
        · exact pastBlanks_le text (Nat.le_of_lt hroom)
        · exact ih h
      · exact ih h
    · cases h

/-- Two ways of reading numbers that agree up to the end of the request. -/
theorem readParts_congr (ports : Option (BitVec 16)) (tcp : Bool)
    {number number' : Nat → Except Fault (Option (BitVec 32))} {text : List UInt8}
    (h : ∀ t ≤ text.length, number t = number' t) :
    readParts ports tcp number text = readParts ports tcp number' text := by
  have hmap : ∀ k, (numberStarts text (text.length + 1) k).mapM number =
      (numberStarts text (text.length + 1) k).mapM number' :=
    fun k => mapM_congr (fun t ht => h t (numberStarts_le ht))
  unfold readParts
  simp only [hmap]

theorem textAt_holds {b : Request} {text : List UInt8} (h : Holds b text) :
    textAt b 0 = upToNul text 0 :=
  (cString_ok (cString_holds h 0 (Nat.zero_le _))).2.symm

/-- With a NUL right after it, the request alone decides what is read. -/
theorem readBuffer_holds [Libc] {b : Request} {text : List UInt8} (h : Holds b text) :
    readBuffer b text.length = readText text := by
  unfold readBuffer readText readPorts
  rw [cString_holds h 0 (Nat.zero_le _), ok_bind]
  rcases hports : portsIn (upToNul text 0) with e | ⟨ports, stop⟩
  · rfl
  simp only [ok_bind]
  have hend : Holds (endLine b stop) (endText text stop) ∧
      (endText text stop).length = text.length := by
    cases stop with
    | none => exact ⟨h, rfl⟩
    | some p =>
      obtain ⟨-, -, -, -, hp⟩ := portsIn_stop hports
      have hle := (upToNul_starts text 0).length_le
      rw [List.drop_zero] at hle
      exact ⟨holds_set h (by omega), List.length_set⟩
  obtain ⟨hend, hlen⟩ := hend
  rw [textAt_holds hend, ← hlen, hend.slice 0 _ (by omega), List.drop_zero, List.take_length]
  apply readParts_congr _ _
  intro t ht
  unfold number
  rw [cString_holds hend t ht, ok_bind]

/-- The reading of a receive buffer that holds a text, from a stack that has a
NUL right behind it. -/
theorem reading_received [Libc] (l : Locals) (text : List UInt8) (hlen : text.length < 10000)
    (hnul : l.CurRequest.cell text.length = 0) :
    reading l (Block.ofList text 0 : Request) text.length = readText text := by
  have hcopied := reading_copied l (Block.ofList text 0 : Request) hlen.le hlen.le
  rw [slice_ofList_self] at hcopied
  rw [hcopied]
  exact readBuffer_holds (holds_put_nul _ text hlen hnul)

theorem parse_received [Libc] (c : TcpConnection) (l : Locals) (text : List UInt8) {r : Reading}
    (hlen : text.length < 10000) (hnul : l.CurRequest.cell text.length = 0)
    (h : readText text = .ok r) :
    ParseRtspRequest TURNS c l (Block.ofList text 0 : Request) text.length =
      .ok (r.accepted, r.store c) := by
  rw [ParseRtspRequest_turns c l _ (by omega), reading_received l text hlen hnul, h]
  rfl

/-! ## Accepted requests -/

/-- The parts of a request that has them all, with the cursors after the URL
and after the path. -/
structure Parts (text : List UInt8) (host : Option (List UInt8))
    (suffix preSuffix seq : List UInt8) (i k : Nat) : Prop where
  named : hasName text
  url : urlIn text (nameIn text).length = (host, i)
  path : pathIn text i = .ok (some ⟨suffix, some (preSuffix, k)⟩)
  seq : seqIn text k = some (seq, true)

theorem Parts.unique {host host' : Option (List UInt8)}
    {suffix suffix' preSuffix preSuffix' seq seq' : List UInt8} {i i' k k' : Nat}
    (h : Parts text host suffix preSuffix seq i k)
    (h' : Parts text host' suffix' preSuffix' seq' i' k') :
    host = host' ∧ suffix = suffix' ∧ preSuffix = preSuffix' ∧ seq = seq' := by
  have hurl := h.url.symm.trans h'.url
  cases hurl
  have hpath := h.path.symm.trans h'.path
  cases hpath
  have hseq := h.seq.symm.trans h'.seq
  cases hseq
  exact ⟨rfl, rfl, rfl, rfl⟩

/-- The reading of a request that has all its parts. -/
def readingOf (ports : Option (BitVec 16)) (tcp : Bool) (name : List UInt8)
    (host : Option (List UInt8)) (suffix preSuffix seq : List UInt8)
    (numbers : List (Option (BitVec 32))) : Reading :=
  { ports, command := commandIn (upToNul name 0), tcp := some tcp, host, suffix := some suffix,
    preSuffix := some preSuffix, seq := some seq, numbers, accepted := true }

theorem Parts.read {text : List UInt8} {host : Option (List UInt8)}
    {suffix preSuffix seq : List UInt8} {i k : Nat} (h : Parts text host suffix preSuffix seq i k)
    (ports : Option (BitVec 16)) (tcp : Bool)
    (number : Nat → Except Fault (Option (BitVec 32))) :
    readParts ports tcp number text =
      ((numberStarts text (text.length + 1) k).mapM number).map
        (readingOf ports tcp (nameIn text) host suffix preSuffix seq) := by
  unfold readParts
  rw [if_pos h.named, h.url]
  simp only
  rw [h.path, ok_bind]
  simp only
  rw [h.seq]
  cases (numberStarts text (text.length + 1) k).mapM number <;> rfl

section
variable {ports : Option (BitVec 16)} {tcp : Bool}
  {number : Nat → Except Fault (Option (BitVec 32))} {text : List UInt8} {r : Reading}

/-- A reading, by the phase that it ends in. -/
inductive ReadTo (ports : Option (BitVec 16)) (tcp : Bool)
    (number : Nat → Except Fault (Option (BitVec 32))) (text : List UInt8) : Reading → Prop
  | start : ReadTo ports tcp number text { ports }
  | url {host : Option (List UInt8)} {i : Nat}
      (hurl : urlIn text (nameIn text).length = (host, i)) :
      ReadTo ports tcp number text
        { ports, command := commandIn (upToNul (nameIn text) 0), tcp := some tcp, host }
  | suffix {host : Option (List UInt8)} {i : Nat} {suffix : List UInt8}
      (hurl : urlIn text (nameIn text).length = (host, i))
      (hpath : pathIn text i = .ok (some ⟨suffix, none⟩)) :
      ReadTo ports tcp number text
        { ports, command := commandIn (upToNul (nameIn text) 0), tcp := some tcp, host,
          suffix := some suffix }
  | path {host : Option (List UInt8)} {i k : Nat} {suffix preSuffix : List UInt8}
      (hurl : urlIn text (nameIn text).length = (host, i))
      (hpath : pathIn text i = .ok (some ⟨suffix, some (preSuffix, k)⟩)) :
      ReadTo ports tcp number text
        { ports, command := commandIn (upToNul (nameIn text) 0), tcp := some tcp, host,
          suffix := some suffix, preSuffix := some preSuffix }
  | seq {host : Option (List UInt8)} {i k : Nat} {suffix preSuffix seq : List UInt8}
      (hurl : urlIn text (nameIn text).length = (host, i))
      (hpath : pathIn text i = .ok (some ⟨suffix, some (preSuffix, k)⟩))
      (hseq : seqIn text k = some (seq, false)) :
      ReadTo ports tcp number text
        { ports, command := commandIn (upToNul (nameIn text) 0), tcp := some tcp, host,
          suffix := some suffix, preSuffix := some preSuffix, seq := some seq }
  | accepted {host : Option (List UInt8)} {i k : Nat} {suffix preSuffix seq : List UInt8}
      {numbers : List (Option (BitVec 32))} (hparts : Parts text host suffix preSuffix seq i k)
      (hnumbers : (numberStarts text (text.length + 1) k).mapM number = .ok numbers) :
      ReadTo ports tcp number text
        (readingOf ports tcp (nameIn text) host suffix preSuffix seq numbers)

theorem readParts_to (h : readParts ports tcp number text = .ok r) :
    ReadTo ports tcp number text r := by
  unfold readParts at h
  by_cases hname : hasName text
  · rw [if_pos hname] at h
    rcases hurl : urlIn text (nameIn text).length with ⟨host, i⟩
    rw [hurl] at h
    simp only at h
    rcases hpath : pathIn text i with e | _ | ⟨suffix, _ | ⟨preSuffix, k⟩⟩
    · rw [hpath] at h
      cases h
    · rw [hpath] at h
      cases h
      exact .url hurl
    · rw [hpath] at h
      cases h
      exact .suffix hurl hpath
    rw [hpath, ok_bind] at h
    simp only at h
    rcases hseq : seqIn text k with _ | ⟨seq, _ | _⟩
    · rw [hseq] at h
      cases h
      exact .path hurl hpath
    · rw [hseq] at h
      cases h
      exact .seq hurl hpath hseq
    rw [hseq] at h
    obtain ⟨numbers, hnumbers, h⟩ := bind_eq_ok h
    cases h
    exact .accepted ⟨hname, hurl, hpath, hseq⟩ hnumbers
  · rw [if_neg hname] at h
    cases h
    exact .start

/-- The part that is read first is in every reading. -/
theorem readParts_ports (h : readParts ports tcp number text = .ok r) : r.ports = ports := by
  cases readParts_to h <;> rfl

/-- An accepted request has all its parts. -/
theorem parts_of_accepted (h : readParts ports tcp number text = .ok r)
    (hr : r.accepted = true) :
    ∃ host suffix preSuffix seq i k numbers, Parts text host suffix preSuffix seq i k ∧
      (numberStarts text (text.length + 1) k).mapM number = .ok numbers ∧
      r = readingOf ports tcp (nameIn text) host suffix preSuffix seq numbers := by
  cases readParts_to h with
  | accepted hparts hnumbers => exact ⟨_, _, _, _, _, _, _, hparts, hnumbers, rfl⟩
  | _ => cases hr

end

end payloader.rtsp_reading_laws
