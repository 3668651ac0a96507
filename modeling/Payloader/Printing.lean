-- Texts that the C library prints: `snprintf` into an array, numbers, and the
-- date of `strftime` in the "C" locale. Numbers and dates are plain: no NUL and
-- no line end is in them.
import Payloader.CStrings
import Mathlib.Tactic.IntervalCases

set_option autoImplicit false

namespace payloader.printing

open payloader.memory payloader.c_strings

/-- The string that `snprintf` leaves in an array of `size` bytes. -/
def snprintf (size : Nat) (text : List UInt8) : List UInt8 := text.take (size - 1)

theorem snprintf_eq {size : Nat} {text : List UInt8} (h : text.length < size) :
    snprintf size text = text := List.take_of_length_le (by omega)

/-! ## Plain texts -/

/-- No NUL and no line end. -/
def Plain (text : List UInt8) : Prop := ∀ x ∈ text, x ≠ 0 ∧ x ≠ ch '\r' ∧ x ≠ ch '\n'

instance (text : List UInt8) : Decidable (Plain text) := List.decidableBAll _ _

theorem plain_append {a b : List UInt8} : Plain (a ++ b) ↔ Plain a ∧ Plain b := by
  unfold Plain
  exact List.forall_mem_append

theorem Plain.append {a b : List UInt8} (ha : Plain a) (hb : Plain b) : Plain (a ++ b) :=
  plain_append.mpr ⟨ha, hb⟩

theorem isDigit_plain {x : UInt8} (h : isDigit x = true) : x ≠ 0 ∧ x ≠ ch '\r' ∧ x ≠ ch '\n' := by
  refine ⟨?_, ?_, ?_⟩
  all_goals
    rintro rfl
    revert h
    decide

theorem plain_digits {text : List UInt8} (h : ∀ x ∈ text, isDigit x = true) : Plain text :=
  fun x hx => isDigit_plain (h x hx)

/-! ## Numbers -/

/-- The digits of a number. -/
def digits (n : Nat) : List UInt8 := (Nat.toDigits 10 n).map ch

/-- `%i` and `%d`. -/
def printInt (n : Int) : List UInt8 :=
  if n < 0 then ch '-' :: digits n.natAbs else digits n.natAbs

theorem isDigit_range {c : Char} (h : c.isDigit = true) : 48 ≤ c.toNat ∧ c.toNat ≤ 57 := by
  simp only [Char.isDigit, Bool.and_eq_true, decide_eq_true_eq] at h
  exact h

theorem isDigit_ch {c : Char} (h : c.isDigit = true) : isDigit (ch c) = true := by
  obtain ⟨hlo, hhi⟩ := isDigit_range h
  unfold ch
  generalize c.toNat = n at hlo hhi
  interval_cases n <;> rfl

theorem digits_isDigit (n : Nat) : ∀ x ∈ digits n, isDigit x = true := by
  intro x hx
  obtain ⟨c, hc, rfl⟩ := List.mem_map.mp hx
  exact isDigit_ch (Nat.isDigit_of_mem_toDigits (by decide) (by decide) hc)

theorem decimal_digits (n : Nat) : decimal (digits n) = n := by
  have hfold : ∀ (cs : List Char) (start : Nat), (∀ c ∈ cs, c.isDigit = true) →
      (cs.map ch).foldl (fun n c => 10 * n + (c.toNat - 48)) start =
        Nat.ofDigitChars 10 cs start := by
    intro cs
    induction cs with
    | nil => exact fun _ _ => rfl
    | cons c cs ih =>
      intro start hcs
      rw [List.forall_mem_cons] at hcs
      have hbyte : (ch c).toNat = c.toNat := by
        have hlt := (isDigit_range hcs.1).2
        unfold ch
        exact UInt8.toNat_ofNat_of_lt' (by change c.toNat < 256; omega)
      rw [List.map_cons, List.foldl_cons, ih _ hcs.2, Nat.ofDigitChars_cons, hbyte]
      rfl
  unfold decimal digits
  rw [hfold _ _ (fun c hc => Nat.isDigit_of_mem_toDigits (by decide) (by decide) hc),
    Nat.ofDigitChars_ten_toDigits]

theorem digits_length_le {n k : Nat} (hk : 0 < k) (h : n < 10 ^ k) : (digits n).length ≤ k := by
  unfold digits
  rw [List.length_map]
  exact (Nat.length_toDigits_le_iff (by decide) hk).mpr h

theorem printInt_plain (n : Int) : Plain (printInt n) := by
  unfold printInt
  split
  · refine List.forall_mem_cons.mpr ⟨by decide, plain_digits (digits_isDigit _)⟩
  · exact plain_digits (digits_isDigit _)

theorem printInt_length_le {n : Int} {k : Nat} (hk : 0 < k) (h : n.natAbs < 10 ^ k) :
    (printInt n).length ≤ k + 1 := by
  have hlen := digits_length_le hk h
  unfold printInt
  split
  · exact Nat.succ_le_succ hlen
  · exact Nat.le_succ_of_le hlen

/-- An `int` takes at most eleven bytes. -/
theorem printInt_int (n : BitVec 32) : (printInt n.toInt).length ≤ 11 := by
  apply printInt_length_le (by decide)
  have hlo := BitVec.le_toInt n
  have hhi := BitVec.toInt_lt (x := n)
  omega

/-! ## Dates -/

/-- What `gmtime` gives. -/
structure Tm where
  tm_sec : Fin 61
  tm_min : Fin 60
  tm_hour : Fin 24
  tm_mday : Fin 32
  tm_mon : Fin 12
  tm_year : BitVec 32
  tm_wday : Fin 7

def dayNames : List (List UInt8) :=
  [bytes "Sun", bytes "Mon", bytes "Tue", bytes "Wed", bytes "Thu", bytes "Fri", bytes "Sat"]

def monthNames : List (List UInt8) :=
  [bytes "Jan", bytes "Feb", bytes "Mar", bytes "Apr", bytes "May", bytes "Jun", bytes "Jul",
   bytes "Aug", bytes "Sep", bytes "Oct", bytes "Nov", bytes "Dec"]

/-- `%d`, `%H`, `%M` and `%S`. -/
def twoDigits (n : Nat) : List UInt8 := [UInt8.ofNat (48 + n / 10), UInt8.ofNat (48 + n % 10)]

/-- `strftime` with `"Date: %a, %b %d %Y %H:%M:%S GMT"`. -/
def strftime (tm : Tm) : List UInt8 :=
  bytes "Date: " ++ dayNames.getD tm.tm_wday [] ++ bytes ", " ++ monthNames.getD tm.tm_mon [] ++
    bytes " " ++ twoDigits tm.tm_mday ++ bytes " " ++ printInt (tm.tm_year.toInt + 1900) ++
    bytes " " ++ twoDigits tm.tm_hour ++ bytes ":" ++ twoDigits tm.tm_min ++ bytes ":" ++
    twoDigits tm.tm_sec ++ bytes " GMT"

theorem twoDigits_plain {n : Nat} (h : n < 100) : Plain (twoDigits n) := by
  have hdigit : ∀ d < 10, isDigit (UInt8.ofNat (48 + d)) = true := by decide
  apply plain_digits
  intro x hx
  rcases List.mem_pair.mp hx with rfl | rfl
  · exact hdigit _ (by omega)
  · exact hdigit _ (by omega)

theorem strftime_plain (tm : Tm) : Plain (strftime tm) := by
  have hday : ∀ d : Fin 7, Plain (dayNames.getD d []) := by decide
  have hmonth : ∀ m : Fin 12, Plain (monthNames.getD m []) := by decide
  unfold strftime
  simp only [plain_append]
  refine ⟨⟨⟨⟨⟨⟨⟨⟨⟨⟨⟨⟨⟨⟨?_, hday _⟩, ?_⟩, hmonth _⟩, ?_⟩, ?_⟩, ?_⟩, printInt_plain _⟩, ?_⟩, ?_⟩,
    ?_⟩, ?_⟩, ?_⟩, ?_⟩, ?_⟩
  all_goals first
    | exact twoDigits_plain (by omega)
    | decide

theorem strftime_length (tm : Tm) : (strftime tm).length ≤ 60 := by
  have hday : ∀ d : Fin 7, (dayNames.getD d []).length = 3 := by decide
  have hmonth : ∀ m : Fin 12, (monthNames.getD m []).length = 3 := by decide
  have hyear : (printInt (tm.tm_year.toInt + 1900)).length ≤ 11 := by
    apply printInt_length_le (by decide)
    have hlo := BitVec.le_toInt tm.tm_year
    have hhi := BitVec.toInt_lt (x := tm.tm_year)
    omega
  unfold strftime
  simp only [List.length_append, hday, hmonth]
  change 6 + 3 + 2 + 3 + 1 + 2 + 1 + _ + 1 + 2 + 1 + 2 + 1 + 2 + 4 ≤ 60
  omega

end payloader.printing
