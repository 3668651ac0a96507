-- C strings in blocks: the text up to a NUL, and the functions of the C
-- library over it. A text with no NUL in its block is a fault. Below them are
-- the facts about patterns that no separator can be a part of.
import Payloader.Memory
import Mathlib.Data.List.Infix
import Mathlib.Data.List.TakeWhile
import Mathlib.Data.List.GetD

set_option autoImplicit false

namespace payloader.c_strings

open payloader.memory

variable {size m : Nat}

def ch (c : Char) : UInt8 := UInt8.ofNat c.toNat

def bytes (s : String) : List UInt8 := s.toList.map ch

/-- The text at an address, without its NUL. -/
def cString (b : Block size UInt8) (off : Nat) : Except Fault (List UInt8) :=
  if 0 ∈ b.slice off (size - off) then
    .ok ((b.slice off (size - off)).takeWhile (· ≠ 0))
  else .error .read

/-- Where a pattern first occurs. -/
def find (pat : List UInt8) : List UInt8 → Option Nat
  | [] => if pat = [] then some 0 else none
  | c :: cs => if pat.isPrefixOf (c :: cs) then some 0 else (find pat cs).map (· + 1)

def strstr (b : Block size UInt8) (off : Nat) (pat : List UInt8) : Except Fault (Option Nat) :=
  (cString b off).map (fun text => (find pat text).map (off + ·))

/-- Between two arrays. -/
def strcpy (dst : Block size UInt8) (p : Nat) (src : Block m UInt8) (q : Nat) :
    Except Fault (Block size UInt8) := do
  let text ← cString src q
  if p + text.length < size then .ok (dst.put p (text ++ [0])) else .error .write

/-- What the C library does where the language leaves it free: the bytes that a
`strcpy` within one array writes when they overlap its text. The text starts
`d` bytes behind the start of the array. -/
class Libc where
  overlapped (line : List UInt8) (d : Nat) : List UInt8
  overlapped_length (line : List UInt8) (d : Nat) :
    (overlapped line d).length = (line.drop d).length + 1

/-- One that copies byte by byte. The fixed inputs below run with it. -/
instance (priority := low) Libc.forward : Libc where
  overlapped line d := line.drop d ++ [0]
  overlapped_length _ _ := List.length_append

/-- `strcpy` to the start of an array, of the text `d` bytes behind it. -/
def strcpyDown [Libc] (b : Block size UInt8) (d : Nat) : Except Fault (Block size UInt8) := do
  let text ← cString b d
  if text.length < d then .ok (b.put 0 (text ++ [0]))
  else .ok (b.put 0 (Libc.overlapped (b.slice 0 (d + text.length)) d))

/-! ## Numbers -/

def isSpace (c : UInt8) : Bool := c = 32 ∨ (9 ≤ c ∧ c ≤ 13)

def isDigit (c : UInt8) : Bool := 48 ≤ c ∧ c ≤ 57

/-- The sign and the digits that a number starts with, after blanks. -/
def signedDigits (text : List UInt8) : Bool × List UInt8 :=
  match text.dropWhile isSpace with
  | [] => (false, [])
  | c :: cs =>
    if c = ch '-' then (true, cs.takeWhile isDigit)
    else if c = ch '+' then (false, cs.takeWhile isDigit)
    else (false, (c :: cs).takeWhile isDigit)

theorem digits_no_nul {digits : List UInt8} (h : ∀ x ∈ digits, isDigit x = true) :
    0 ∉ digits := by
  intro hmem
  have := h 0 hmem
  revert this
  decide

def decimal (digits : List UInt8) : Nat := digits.foldl (fun n c => 10 * n + (c.toNat - 48)) 0

/-- `strtol` with base 10 stops at the ends of a `long`. -/
def strtol (text : List UInt8) : Int :=
  let (negative, digits) := signedDigits text
  if negative then max (-(decimal digits : Int)) (-2 ^ 63)
  else min (decimal digits : Int) (2 ^ 63 - 1)

/-- The C library takes the low half of `strtol`. -/
def atoi (text : List UInt8) : BitVec 32 := BitVec.ofInt 32 (strtol text)

/-- `sscanf` with `%u`: nothing when no digit comes, and else the low half of
`strtoul`, which stops at the end of an `unsigned long`. -/
def sscanf_u (text : List UInt8) : Option (BitVec 32) :=
  let (negative, digits) := signedDigits text
  if digits = [] then none
  else if decimal digits < 2 ^ 64 then
    some (BitVec.ofInt 32 (if negative then -(decimal digits : Int) else decimal digits))
  else some (BitVec.ofNat 32 (2 ^ 64 - 1))

/-- What is left of a text after the number that it starts with. -/
def afterNumber (text : List UInt8) : List UInt8 :=
  match text.dropWhile isSpace with
  | [] => []
  | c :: cs => if c = ch '-' ∨ c = ch '+' then cs.dropWhile isDigit else (c :: cs).dropWhile isDigit

theorem takeWhile_append_stop {p : UInt8 → Bool} {a : List UInt8} (h : a.dropWhile p ≠ [])
    (b : List UInt8) : (a ++ b).takeWhile p = a.takeWhile p := by
  induction a with
  | nil => exact absurd rfl h
  | cons c cs ih =>
    by_cases hc : p c
    · rw [List.dropWhile_cons_of_pos hc] at h
      rw [List.cons_append, List.takeWhile_cons_of_pos hc, List.takeWhile_cons_of_pos hc, ih h]
    · rw [List.cons_append, List.takeWhile_cons_of_neg hc, List.takeWhile_cons_of_neg hc]

/-- What is taken goes up to the first element that fails the test. -/
theorem takeWhile_before {p : UInt8 → Bool} {a : List UInt8} {x : UInt8}
    (ha : ∀ y ∈ a, p y = true) (hx : p x = false) (rest : List UInt8) :
    (a ++ x :: rest).takeWhile p = a := by
  rw [List.takeWhile_append_of_pos ha, List.takeWhile_cons_of_neg (by simp [hx]),
    List.append_nil]

/-- A number that ends in a text is the same in every longer one. -/
theorem signedDigits_append {a : List UInt8} (h : afterNumber a ≠ []) (b : List UInt8) :
    signedDigits (a ++ b) = signedDigits a := by
  unfold afterNumber at h
  unfold signedDigits
  rw [List.dropWhile_append]
  rcases ha : a.dropWhile isSpace with _ | ⟨c, cs⟩
  · rw [ha] at h
    exact absurd rfl h
  rw [ha] at h
  simp only [List.isEmpty_cons, Bool.false_eq_true, if_false, List.cons_append] at h ⊢
  by_cases h1 : c = ch '-'
  · rw [if_pos (Or.inl h1)] at h
    rw [if_pos h1, if_pos h1, takeWhile_append_stop h]
  by_cases h2 : c = ch '+'
  · rw [if_pos (Or.inr h2)] at h
    rw [if_neg h1, if_neg h1, if_pos h2, if_pos h2, takeWhile_append_stop h]
  · rw [if_neg (not_or.mpr ⟨h1, h2⟩)] at h
    rw [if_neg h1, if_neg h1, if_neg h2, if_neg h2, ← List.cons_append, takeWhile_append_stop h]

/-- A byte that no number holds is left after the number. -/
theorem afterNumber_of_mem {text : List UInt8} {x : UInt8} (hx : x ∈ text)
    (h1 : isSpace x = false) (h2 : isDigit x = false) (h3 : x ≠ ch '-') (h4 : x ≠ ch '+') :
    afterNumber text ≠ [] := by
  have hleft : ∀ (p : UInt8 → Bool) (l : List UInt8), x ∈ l → p x = false →
      x ∈ l.dropWhile p := by
    intro p l hl hp
    rw [← List.takeWhile_append_dropWhile (p := p) (l := l), List.mem_append] at hl
    rcases hl with hl | hl
    · rw [List.mem_takeWhile_imp hl] at hp
      cases hp
    · exact hl
  have hspace := hleft isSpace text hx h1
  unfold afterNumber
  rcases hdrop : text.dropWhile isSpace with _ | ⟨c, cs⟩
  · rw [hdrop] at hspace
    cases hspace
  rw [hdrop] at hspace
  simp only
  split
  · rename_i hsign
    rcases List.mem_cons.mp hspace with rfl | hmem
    · rcases hsign with rfl | rfl
      · exact absurd rfl h3
      · exact absurd rfl h4
    · exact List.ne_nil_of_mem (hleft isDigit cs hmem h2)
  · exact List.ne_nil_of_mem (hleft isDigit _ hspace h2)

theorem isDigit_not {d : UInt8} (h : isDigit d = true) :
    isSpace d = false ∧ d ≠ ch '-' ∧ d ≠ ch '+' := by
  refine ⟨?_, ?_, ?_⟩
  · simp only [isDigit, isSpace, decide_eq_true_eq, decide_eq_false_iff_not, UInt8.le_iff_toNat_le,
      ← UInt8.toNat_inj] at h ⊢
    change 48 ≤ d.toNat ∧ d.toNat ≤ 57 at h
    change ¬ (d.toNat = 32 ∨ 9 ≤ d.toNat ∧ d.toNat ≤ 13)
    omega
  · rintro rfl
    revert h
    decide
  · rintro rfl
    revert h
    decide

/-- A number that goes on behind its text. -/
theorem signedDigits_open {a b : List UInt8} (h : afterNumber a = [])
    (hb : (signedDigits a).2 ≠ [] ∨ ∃ d ds, b = d :: ds ∧ isDigit d = true) :
    signedDigits (a ++ b) = ((signedDigits a).1, (signedDigits a).2 ++ b.takeWhile isDigit) := by
  have hall : ∀ cs : List UInt8, cs.dropWhile isDigit = [] →
      (cs ++ b).takeWhile isDigit = cs.takeWhile isDigit ++ b.takeWhile isDigit := by
    intro cs hcs
    have hdigits := List.dropWhile_eq_nil_iff.mp hcs
    rw [List.takeWhile_append_of_pos hdigits, List.takeWhile_eq_self_iff.mpr hdigits]
  unfold afterNumber at h
  unfold signedDigits at hb ⊢
  rw [List.dropWhile_append]
  rcases ha : a.dropWhile isSpace with _ | ⟨c, cs⟩
  · rw [ha] at hb
    obtain hb | ⟨d, ds, rfl, hd⟩ := hb
    · exact absurd rfl hb
    obtain ⟨h1, h2, h3⟩ := isDigit_not hd
    simp [h1, h2, h3]
  rw [ha] at h
  simp only [List.isEmpty_cons, Bool.false_eq_true, if_false, List.cons_append] at h ⊢
  by_cases h1 : c = ch '-'
  · rw [if_pos (Or.inl h1)] at h
    rw [if_pos h1, if_pos h1, hall cs h]
  by_cases h2 : c = ch '+'
  · rw [if_pos (Or.inr h2)] at h
    rw [if_neg h1, if_neg h1, if_pos h2, if_pos h2, hall cs h]
  · rw [if_neg (not_or.mpr ⟨h1, h2⟩)] at h
    rw [if_neg h1, if_neg h1, if_neg h2, if_neg h2, ← List.cons_append, hall _ h]

theorem decimal_append (a b : List UInt8) :
    decimal a * 10 ^ b.length ≤ decimal (a ++ b) := by
  unfold decimal
  rw [List.foldl_append]
  generalize a.foldl (fun n c => 10 * n + (c.toNat - 48)) 0 = n
  induction b generalizing n with
  | nil => simp
  | cons c cs ih =>
    rw [List.foldl_cons, List.length_cons]
    refine Nat.le_trans ?_ (ih _)
    rw [Nat.pow_succ, ← Nat.mul_assoc, Nat.mul_right_comm]
    apply Nat.mul_le_mul_right _
    omega

/-! ## Where a pattern is -/

/-- `find` gives the first place of a pattern. -/
theorem find_some {pat l : List UInt8} {q : Nat} (h : find pat l = some q) :
    pat <+: l.drop q ∧ ∀ q' < q, ¬ pat <+: l.drop q' := by
  induction l generalizing q with
  | nil =>
    unfold find at h
    split at h
    · rename_i hpat
      cases h
      exact ⟨by simp [hpat], fun q' hq' => absurd hq' (Nat.not_lt_zero q')⟩
    · cases h
  | cons c cs ih =>
    unfold find at h
    split at h
    · rename_i hpre
      cases h
      exact ⟨List.isPrefixOf_iff_prefix.mp hpre, fun q' hq' => absurd hq' (Nat.not_lt_zero q')⟩
    · rename_i hpre
      obtain ⟨r, hr, rfl⟩ := Option.map_eq_some_iff.mp h
      obtain ⟨h1, h2⟩ := ih hr
      refine ⟨h1, ?_⟩
      intro q' hq'
      cases q' with
      | zero => exact fun hp => hpre (List.isPrefixOf_iff_prefix.mpr hp)
      | succ q' => exact h2 q' (by omega)

theorem find_none {pat l : List UInt8} (h : find pat l = none) : ∀ q, ¬ pat <+: l.drop q := by
  induction l with
  | nil =>
    intro q hq
    unfold find at h
    split at h
    · cases h
    · rw [List.drop_nil, List.prefix_nil] at hq
      exact absurd hq ‹_›
  | cons c cs ih =>
    unfold find at h
    split at h
    · cases h
    · rename_i hpre
      intro q hq
      cases q with
      | zero => exact hpre (List.isPrefixOf_iff_prefix.mpr hq)
      | succ q => exact ih (Option.map_eq_none_iff.mp h) q hq

/-- The first place is what `find` gives. -/
theorem find_eq_some {pat l : List UInt8} {q : Nat} (h1 : pat <+: l.drop q)
    (h2 : ∀ q' < q, ¬ pat <+: l.drop q') : find pat l = some q := by
  rcases h : find pat l with _ | q0
  · exact absurd h1 (find_none h q)
  obtain ⟨h3, h4⟩ := find_some h
  rcases Nat.lt_trichotomy q q0 with hlt | rfl | hgt
  · exact absurd h1 (h4 q hlt)
  · rfl
  · exact absurd h3 (h2 q0 hgt)

theorem find_le {pat text : List UInt8} {q : Nat} (hne : pat ≠ []) (h : find pat text = some q) :
    q + pat.length ≤ text.length := by
  have hle := (find_some h).1.length_le
  have hpos := List.length_pos_iff.mpr hne
  rw [List.length_drop] at hle
  omega

/-- The first place in a text is the first place in every longer one. -/
theorem find_append {pat a : List UInt8} {q : Nat} (hne : pat ≠ []) (h : find pat a = some q)
    (b : List UInt8) : find pat (a ++ b) = some q := by
  obtain ⟨h1, h2⟩ := find_some h
  have hle := find_le hne h
  refine find_eq_some ?_ (fun q' hq' hpre => h2 q' hq' ?_)
  · rw [List.drop_append_of_le_length (by omega)]
    exact h1.trans (List.prefix_append _ _)
  · rw [List.drop_append_of_le_length (by omega)] at hpre
    apply List.prefix_of_prefix_length_le hpre (List.prefix_append _ _)
    rw [List.length_drop]
    omega

/-- A place that ends in the first part of a text is found in that part. -/
theorem find_append_inside {pat a b : List UInt8} {q : Nat} (h : find pat (a ++ b) = some q)
    (hq : q + pat.length ≤ a.length) : find pat a = some q := by
  obtain ⟨h1, h2⟩ := find_some h
  refine find_eq_some ?_ (fun q' hq' hpre => h2 q' hq' ?_)
  · rw [List.drop_append_of_le_length (by omega)] at h1
    apply List.prefix_of_prefix_length_le h1 (List.prefix_append _ _)
    rw [List.length_drop]
    omega
  · rw [List.drop_append_of_le_length (by omega)]
    exact hpre.trans (List.prefix_append _ _)

/-- No pattern starts where its first byte is missing. -/
theorem not_prefix_within {a pat : List UInt8} {x : UInt8} (h : x ∉ a) {q : Nat}
    (hq : q < a.length) (t : List UInt8) : ¬ x :: pat <+: (a ++ t).drop q := by
  intro hpre
  rw [List.drop_append_of_le_length hq.le, List.drop_eq_getElem_cons hq, List.cons_append] at hpre
  exact h ((List.cons_prefix_cons.mp hpre).1 ▸ List.getElem_mem hq)

/-- So the first place is behind there. -/
theorem find_behind {a pat t : List UInt8} {x : UInt8} (h : x ∉ a) {q : Nat}
    (hq : find (x :: pat) (a ++ t) = some q) : a.length ≤ q :=
  Nat.le_of_not_lt fun hlt => not_prefix_within h hlt t (find_some hq).1

theorem find_sep {a : List UInt8} {x : UInt8} (h : x ∉ a) (t : List UInt8) :
    find [x] (a ++ x :: t) = some a.length := by
  refine find_eq_some ?_ (fun q hq => not_prefix_within h hq (x :: t))
  rw [List.drop_left]
  exact ⟨t, rfl⟩

/-- A pattern in a text, as a place where it starts. -/
theorem infix_iff_drop {pat l : List UInt8} : pat <:+: l ↔ ∃ j, pat <+: l.drop j := by
  constructor
  · rintro ⟨a, b, rfl⟩
    refine ⟨a.length, ?_⟩
    rw [List.append_assoc, List.drop_left]
    exact List.prefix_append pat b
  · rintro ⟨j, h⟩
    exact h.isInfix.trans (List.drop_suffix j l).isInfix

/-- After a part of a text comes the next one. -/
theorem prefix_after {a b l : List UInt8} {i : Nat} (h : a ++ b <+: l.drop i) :
    b <+: l.drop (i + a.length) := by
  obtain ⟨r, hr⟩ := h
  rw [← List.drop_drop, ← hr, List.append_assoc, List.drop_left]
  exact List.prefix_append b r

/-- A pattern that starts before a separator ends before it too. -/
theorem prefix_before_sep {pat a b : List UInt8} {x : UInt8} (hx : x ∉ pat) {j : Nat}
    (hj : j ≤ a.length) (h : pat <+: (a ++ x :: b).drop j) : pat <+: a.drop j := by
  rw [List.drop_append_of_le_length hj] at h
  have hsep : a.drop j ++ [x] <+: a.drop j ++ x :: b := ⟨b, by simp⟩
  rcases List.prefix_or_prefix_of_prefix h hsep with h1 | h1
  · rcases List.prefix_concat_iff.mp h1 with rfl | h2
    · exact absurd (by simp) hx
    · exact h2
  · exact absurd (h1.subset (by simp)) hx

/-- A pattern that starts before its own first byte, which it holds only once,
ends before it. -/
theorem prefix_before_first {pat a b : List UInt8} {x : UInt8} (hx : x ∉ pat) {j : Nat}
    (hj : j < a.length) (h : x :: pat <+: (a ++ x :: b).drop j) : x :: pat <+: a.drop j := by
  rw [List.drop_append_of_le_length hj.le, List.drop_eq_getElem_cons hj, List.cons_append,
    List.cons_prefix_cons, ← List.drop_append_of_le_length hj] at h
  rw [List.drop_eq_getElem_cons hj, List.cons_prefix_cons]
  exact ⟨h.1, prefix_before_sep hx hj h.2⟩

/-- A pattern lies on one side of a separator. -/
theorem infix_append_sep {pat a b : List UInt8} {x : UInt8} (hx : x ∉ pat)
    (h : pat <:+: a ++ x :: b) : pat <:+: a ∨ pat <:+: x :: b := by
  obtain ⟨j, hj⟩ := infix_iff_drop.mp h
  rcases Nat.le_total j a.length with hle | hle
  · exact Or.inl (infix_iff_drop.mpr ⟨j, prefix_before_sep hx hle hj⟩)
  · right
    rw [List.drop_append, List.drop_eq_nil_of_le hle, List.nil_append] at hj
    exact infix_iff_drop.mpr ⟨_, hj⟩

/-- A pattern that does not start with a byte is not at that byte. -/
theorem infix_cons_sep {pat b : List UInt8} {x : UInt8} (hx : x ∉ pat) (hne : pat ≠ [])
    (h : pat <:+: x :: b) : pat <:+: b := by
  rcases List.infix_cons_iff.mp h with h1 | h1
  · obtain ⟨c, cs, rfl⟩ := List.exists_cons_of_ne_nil hne
    rw [List.cons_prefix_cons] at h1
    exact absurd (by simp [h1.1]) hx
  · exact h1

/-- A byte that no pattern holds makes no new place for the pattern. -/
theorem infix_of_set {pat l : List UInt8} {p : Nat} {x : UInt8} (hx : x ∉ pat) (hne : pat ≠ [])
    (h : pat <:+: l.set p x) : pat <:+: l := by
  rcases Nat.lt_or_ge p l.length with hp | hp
  · rw [List.set_eq_take_append_cons_drop, if_pos hp] at h
    rcases infix_append_sep hx h with h1 | h1
    · exact h1.trans (List.take_prefix p l).isInfix
    · exact (infix_cons_sep hx hne h1).trans (List.drop_suffix (p + 1) l).isInfix
  · rwa [List.set_eq_of_length_le hp] at h

/-- A part that starts with a byte starts in a list that holds it. -/
theorem mem_of_prefix_drop {x : UInt8} {xs a b : List UInt8} {d : Nat}
    (h : x :: xs <+: (a ++ b).drop d) (hd : d < a.length) : x ∈ a := by
  obtain ⟨r, hr⟩ := h
  rw [List.drop_append_of_le_length hd.le, List.drop_eq_getElem_cons hd] at hr
  exact (List.cons.inj hr).1 ▸ List.getElem_mem hd

/-! ## Lines -/

def crlf : List UInt8 := bytes "\r\n"

/-- Lines, each with its end. -/
def lined (lines : List (List UInt8)) : List UInt8 := (lines.map (· ++ crlf)).flatten

@[simp] theorem lined_cons (l : List UInt8) (ls : List (List UInt8)) :
    lined (l :: ls) = l ++ crlf ++ lined ls := rfl

theorem lined_append (ls ms : List (List UInt8)) : lined (ls ++ ms) = lined ls ++ lined ms := by
  simp [lined]

/-- A pattern with no line end in it lies in one of the lines, and the end of
that line comes no later than the length of the line after it. -/
theorem line_of_prefix {pat : List UInt8} (hr : ch '\r' ∉ pat) (hn : ch '\n' ∉ pat)
    (hne : pat ≠ []) (lines : List (List UInt8)) {q : Nat}
    (h : pat <+: (lined lines ++ crlf).drop q) :
    ∃ l ∈ lines, pat <:+: l ∧ ∃ d ≤ l.length, crlf <+: (lined lines ++ crlf).drop (q + d) := by
  induction lines generalizing q with
  | nil =>
    have hin : pat <:+: ch '\r' :: [ch '\n'] := infix_iff_drop.mpr ⟨q, h⟩
    have hnil := infix_cons_sep hn hne (infix_cons_sep hr hne hin)
    exact absurd (List.eq_nil_of_infix_nil hnil) hne
  | cons l ls ih =>
    have htext : lined (l :: ls) ++ crlf = l ++ ch '\r' :: ch '\n' :: (lined ls ++ crlf) := by
      rw [lined_cons, List.append_assoc, List.append_assoc]
      rfl
    rw [htext] at h ⊢
    rcases Nat.lt_or_ge l.length q with hq | hq
    · obtain ⟨d, rfl⟩ := Nat.exists_eq_add_of_lt hq
      rw [List.drop_append, List.drop_eq_nil_of_le (by omega), List.nil_append,
        show l.length + d + 1 - l.length = d + 1 by omega, List.drop_succ_cons] at h
      cases d with
      | zero =>
        obtain ⟨c, cs, rfl⟩ := List.exists_cons_of_ne_nil hne
        rw [List.drop_zero, List.cons_prefix_cons] at h
        exact absurd (by simp [h.1]) hn
      | succ d =>
        rw [List.drop_succ_cons] at h
        obtain ⟨l', hl', hin, e, he, hend⟩ := ih h
        refine ⟨l', List.mem_cons_of_mem _ hl', hin, e, he, ?_⟩
        rw [List.drop_append, List.drop_eq_nil_of_le (by omega), List.nil_append,
          show l.length + (d + 1) + 1 + e - l.length = d + e + 1 + 1 by omega,
          List.drop_succ_cons, List.drop_succ_cons]
        exact hend
    · refine ⟨l, List.mem_cons_self, infix_iff_drop.mpr ⟨q, prefix_before_sep hr hq h⟩,
        l.length - q, Nat.sub_le _ _, ?_⟩
      rw [Nat.add_sub_cancel' hq, List.drop_left]
      exact ⟨lined ls ++ crlf, rfl⟩

/-! ## Blocks that hold a text -/

/-- The block starts with the text and a NUL after it. The text may have a NUL
in it too. -/
structure Holds (b : Block size UInt8) (text : List UInt8) : Prop where
  fits : text.length < size
  cell : ∀ i ≤ text.length, b.cell i = text.getD i 0

/-- The text from an address on, up to its first NUL. -/
def upToNul (text : List UInt8) (off : Nat) : List UInt8 := (text.drop off).takeWhile (· ≠ 0)

theorem upToNul_starts (text : List UInt8) (off : Nat) : upToNul text off <+: text.drop off :=
  List.takeWhile_prefix _

theorem ne_nul {text : List UInt8} (h : 0 ∉ text) : ∀ x ∈ text, decide (x ≠ 0) = true := by
  intro x hx
  rw [decide_eq_true_iff]
  rintro rfl
  exact h hx

theorem upToNul_drop {text : List UInt8} {off : Nat} (h : 0 ∉ text.drop off) :
    upToNul text off = text.drop off := List.takeWhile_eq_self_iff.mpr (ne_nul h)

theorem upToNul_eq {text : List UInt8} (h : 0 ∉ text) (off : Nat) :
    upToNul text off = text.drop off := upToNul_drop (fun hmem => h (List.mem_of_mem_drop hmem))

/-- The rest of a string is the string from there on. -/
theorem drop_upToNul {text : List UInt8} {off q : Nat} (hq : q ≤ (upToNul text off).length) :
    (upToNul text off).drop q = upToNul text (off + q) := by
  have hkept : ∀ (l : List UInt8) (q : Nat), q ≤ (l.takeWhile (· ≠ 0)).length →
      (l.takeWhile (· ≠ 0)).drop q = (l.drop q).takeWhile (· ≠ 0) := by
    intro l
    induction l with
    | nil => simp
    | cons x xs ih =>
      intro q hq
      cases q with
      | zero => rfl
      | succ q =>
        by_cases hx : x ≠ 0
        · rw [List.takeWhile_cons_of_pos (by simpa using hx)] at hq ⊢
          exact ih q (Nat.le_of_succ_le_succ hq)
        · rw [List.takeWhile_cons_of_neg (by simpa using hx)] at hq
          cases hq
  unfold upToNul
  rw [hkept _ q hq, List.drop_drop]

/-- The first place of a pattern before the first NUL is its first place in
the whole text. -/
theorem find_upToNul {text pat : List UInt8} {off d : Nat} (hne : pat ≠ [])
    (h : find pat (upToNul text off) = some d) :
    pat <+: text.drop (off + d) ∧ d + pat.length ≤ (upToNul text off).length ∧
      ∀ p, off ≤ p → p < off + d → ¬ pat <+: text.drop p := by
  obtain ⟨h1, h2⟩ := find_some h
  obtain ⟨rest, hrest⟩ := upToNul_starts text off
  have hpos := List.length_pos_iff.mpr hne
  have hlen : d + pat.length ≤ (upToNul text off).length := by
    have hle := h1.length_le
    rw [List.length_drop] at hle
    omega
  have hdrop : ∀ e ≤ d, (upToNul text off).drop e ++ rest = text.drop (off + e) := by
    intro e he
    rw [← List.drop_drop, ← hrest, List.drop_append_of_le_length (by omega)]
  refine ⟨?_, hlen, ?_⟩
  · rw [← hdrop d le_rfl]
    exact h1.trans (List.prefix_append _ _)
  · intro p hp1 hp2 hpre
    obtain ⟨e, rfl⟩ := Nat.exists_eq_add_of_le hp1
    rw [← hdrop e (by omega)] at hpre
    refine h2 e (by omega) (List.prefix_of_prefix_length_le hpre (List.prefix_append _ _) ?_)
    rw [List.length_drop]
    omega

theorem Holds.slice {b : Block size UInt8} {text : List UInt8} (h : Holds b text) (off n : Nat)
    (ho : off + n ≤ text.length) : b.slice off n = (text.drop off).take n := by
  apply List.ext_getElem?
  intro i
  rw [slice_getElem?, List.getElem?_take]
  split
  · rw [h.cell _ (by omega), List.getElem?_drop, List.getD_eq_getElem?_getD,
      List.getElem?_eq_getElem (by omega)]
    rfl
  · rfl

theorem cString_holds {b : Block size UInt8} {text : List UInt8} (h : Holds b text) (off : Nat)
    (ho : off ≤ text.length) : cString b off = .ok (upToNul text off) := by
  have hfits := h.fits
  have hnul : b.cell text.length = 0 := by
    rw [h.cell _ le_rfl, List.getD_eq_default _ _ le_rfl]
  have hslice : b.slice off (size - off) =
      text.drop off ++ 0 :: b.slice (text.length + 1) (size - text.length - 1) := by
    have h1 := slice_append b off (text.length - off) (size - text.length)
    have h2 := slice_append b text.length 1 (size - text.length - 1)
    have h3 : b.slice text.length 1 = [0] := by simp [Block.slice, hnul]
    rw [h3, show 1 + (size - text.length - 1) = size - text.length by omega] at h2
    have h4 := h.slice off (text.length - off) (by omega)
    rw [List.take_of_length_le (by simp)] at h4
    rw [show text.length - off + (size - text.length) = size - off by omega,
      Nat.add_sub_cancel' ho, h2, h4] at h1
    exact h1
  unfold cString upToNul
  rw [hslice, if_pos (by simp), List.takeWhile_append]
  split
  · rename_i hall
    rw [List.takeWhile_cons_of_neg (by simp), List.append_nil]
    exact congrArg Except.ok ((List.takeWhile_prefix _).eq_of_length hall).symm
  · rfl

theorem Holds.cString {size : Nat} {b : Block size UInt8} {text : List UInt8} (h : Holds b text)
    (hnul : 0 ∉ text) : payloader.c_strings.cString b 0 = .ok text := by
  rw [cString_holds h 0 (Nat.zero_le _), upToNul_eq hnul, List.drop_zero]

theorem strstr_holds {b : Block size UInt8} {text : List UInt8} (h : Holds b text) {off : Nat}
    (ho : off ≤ text.length) (pat : List UInt8) :
    strstr b off pat = .ok ((find pat (upToNul text off)).map (off + ·)) := by
  unfold strstr
  rw [cString_holds h off ho]
  rfl

/-- A text that is written with its NUL. -/
theorem holds_put (dst : Block size UInt8) (text : List UInt8) (h : text.length < size) :
    Holds (dst.put 0 (text ++ [0])) text := by
  refine ⟨h, ?_⟩
  intro i hi
  have hcell := put_cell_inside dst 0 i (text ++ [0]) (by simp; omega)
  rw [Nat.zero_add] at hcell
  rw [hcell]
  rcases Nat.lt_or_ge i text.length with hlt | hge
  · rw [List.getElem_append_left hlt, List.getD_eq_getElem _ _ hlt]
  · rw [List.getElem_append_right hge, List.getD_eq_default _ _ hge]
    simp

/-- A text that is written into NULs. -/
theorem holds_put_nul {size : Nat} (dst : Block size UInt8) (text : List UInt8)
    (h : text.length < size) (hnul : dst.cell text.length = 0) : Holds (dst.put 0 text) text := by
  refine ⟨h, ?_⟩
  intro i hi
  rcases Nat.lt_or_ge i text.length with hlt | hge
  · have hcell := put_cell_inside dst 0 i text hlt
    rw [Nat.zero_add] at hcell
    rw [hcell, List.getD_eq_getElem _ _ hlt]
  · obtain rfl : i = text.length := by omega
    rw [put_cell_outside dst 0 _ text (Or.inr (by omega)), hnul, List.getD_eq_default _ _ le_rfl]

/-- One byte of the text becomes a NUL. -/
theorem holds_set {b : Block size UInt8} {text : List UInt8} (h : Holds b text) {p : Nat}
    (hp : p < text.length) : Holds (b.put p [0]) (text.set p 0) := by
  refine ⟨by simpa using h.fits, ?_⟩
  intro i hi
  rw [List.length_set] at hi
  rcases eq_or_ne i p with rfl | hne
  · have hcell := put_cell_inside b i 0 [0] (by decide)
    rw [Nat.add_zero] at hcell
    rw [hcell, List.getD_eq_getElem?_getD, List.getElem?_set_self hp]
    rfl
  · rw [put_cell_outside b p i [0] (by simp; omega), h.cell i hi, List.getD_eq_getElem?_getD,
      List.getD_eq_getElem?_getD, List.getElem?_set_ne hne.symm]

/-- New bytes in front. -/
theorem holds_put_front {b : Block size UInt8} {text front : List UInt8} (h : Holds b text)
    (hle : front.length ≤ text.length) :
    Holds (b.put 0 front) (front ++ text.drop front.length) := by
  have hfits := h.fits
  have hlen : (front ++ text.drop front.length).length = text.length := by
    rw [List.length_append, List.length_drop, Nat.add_sub_cancel' hle]
  refine ⟨by rwa [hlen], ?_⟩
  intro i hi
  rw [hlen] at hi
  rcases Nat.lt_or_ge i front.length with hlt | hge
  · have hcell := put_cell_inside b 0 i front hlt
    rw [Nat.zero_add] at hcell
    rw [hcell, List.getD_append _ _ _ _ hlt, List.getD_eq_getElem _ _ hlt]
  · rw [put_cell_outside b 0 i front (Or.inr (by omega)), h.cell i hi,
      List.getD_append_right _ _ _ _ hge]
    simp only [List.getD_eq_getElem?_getD, List.getElem?_drop, Nat.add_sub_cancel' hge]

/-- What the array holds after `strcpyDown`. -/
def copiedDown [Libc] (line : List UInt8) (d : Nat) : List UInt8 :=
  if (line.drop d).length < d then line.drop d
  else upToNul (Libc.overlapped line d ++ line.drop (Libc.overlapped line d).length) 0

/-- Where the text and its copy do not overlap, the copy is the text. -/
theorem copiedDown_apart [Libc] {line : List UInt8} {d : Nat} (h : (line.drop d).length < d) :
    copiedDown line d = line.drop d := if_pos h

theorem strcpyDown_holds [Libc] {b : Block size UInt8} {line : List UInt8} (h : Holds b line)
    (hnul : 0 ∉ line) {d : Nat} (hpos : 0 < d) (hd : d ≤ line.length) :
    ∃ b' text, strcpyDown b d = .ok b' ∧ Holds b' text ∧ upToNul text 0 = copiedDown line d := by
  have hfits := h.fits
  have hlen : (line.drop d).length = line.length - d := List.length_drop
  have htext : cString b d = .ok (line.drop d) := by rw [cString_holds h d hd, upToNul_eq hnul]
  unfold strcpyDown copiedDown
  rw [htext]
  by_cases hapart : (line.drop d).length < d
  · have hnul' : 0 ∉ line.drop d := fun hmem => hnul (List.mem_of_mem_drop hmem)
    rw [if_pos hapart]
    exact ⟨_, _, if_pos hapart, holds_put b _ (by omega), by rw [upToNul_eq hnul', List.drop_zero]⟩
  · have hslice : b.slice 0 (d + (line.drop d).length) = line := by
      rw [hlen, Nat.add_sub_cancel' hd, h.slice 0 _ (by omega), List.drop_zero, List.take_length]
    have hcopy := Libc.overlapped_length line d
    rw [if_neg hapart]
    refine ⟨_, _, if_neg hapart, ?_, rfl⟩
    rw [hslice]
    exact holds_put_front h (by omega)

/-- A copy of a text that fits. -/
theorem strcpy_holds (dst : Block size UInt8) {src : Block m UInt8} {text : List UInt8} {q : Nat}
    (h : cString src q = .ok text) (hfit : text.length < size) :
    strcpy dst 0 src q = .ok (dst.put 0 (text ++ [0])) := by
  unfold strcpy
  rw [h]
  change (if 0 + text.length < size then _ else _) = _
  rw [Nat.zero_add, if_pos hfit]

end payloader.c_strings
