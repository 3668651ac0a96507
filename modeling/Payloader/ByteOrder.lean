-- Words and bytes on a little-endian host: how a 32-bit word lies in memory,
-- how GCC puts bit-fields in it, and what `htons` and `htonl` do. A word is
-- read as a number here, so that `omega` closes what is left.
import Payloader.Memory
import Mathlib.Data.Bool.Basic
import Mathlib.Data.List.GetD

set_option autoImplicit false

namespace payloader.byte_order

/-! ## Words as numbers -/

/-- The bits of `x` lie above the bits of `y`. -/
theorem toNat_append {v w : Nat} (x : BitVec v) (y : BitVec w) :
    (x ++ y).toNat = x.toNat * 2 ^ w + y.toNat := by
  rw [BitVec.toNat_append, ← Nat.shiftLeft_add_eq_or_of_lt y.isLt, Nat.shiftLeft_eq]

/-- `len` bits of `x` from bit `start`. -/
theorem toNat_field {w : Nat} (x : BitVec w) (start len : Nat) :
    (x.extractLsb' start len).toNat = x.toNat / 2 ^ start % 2 ^ len := by
  rw [BitVec.extractLsb'_toNat, Nat.shiftRight_eq_div_pow]

/-- A value that is cut twice, and read back in a wider type. -/
theorem toNat_cut {k j w : Nat} (v : BitVec 32) (hk : w ≤ k) (hj : w ≤ j) :
    (((v.setWidth k).setWidth w).setWidth j).toNat = v.toNat % 2 ^ w := by
  rw [BitVec.toNat_setWidth, BitVec.toNat_setWidth, BitVec.toNat_setWidth,
    Nat.mod_mod_of_dvd _ (Nat.pow_dvd_pow 2 hk)]
  exact Nat.mod_eq_of_lt (Nat.lt_of_lt_of_le (Nat.mod_lt _ (Nat.two_pow_pos w))
    (Nat.pow_le_pow_right (by decide) hj))

/-- A mask of `k` ones keeps the low bits. -/
theorem toNat_mask {w : Nat} (x mask : BitVec w) (k : Nat) (h : mask.toNat = 2 ^ k - 1) :
    (x &&& mask).toNat = x.toNat % 2 ^ k := by
  rw [BitVec.toNat_and, h]
  exact Nat.and_two_pow_sub_one_eq_mod _ k

/-- A field of a word that was put together from two. -/
theorem extract_append {v w : Nat} (x : BitVec v) (y : BitVec w) :
    (x ++ y).extractLsb' 0 w = y ∧ (x ++ y).extractLsb' w v = x := by
  have hx := x.isLt
  have hy := y.isLt
  refine ⟨BitVec.eq_of_toNat_eq ?_, BitVec.eq_of_toNat_eq ?_⟩
  · rw [toNat_field, toNat_append, Nat.pow_zero, Nat.div_one, Nat.mul_add_mod_self_right,
      Nat.mod_eq_of_lt hy]
  · rw [toNat_field, toNat_append, Nat.mul_comm, Nat.mul_add_div (Nat.two_pow_pos w),
      Nat.div_eq_of_lt hy, Nat.add_zero, Nat.mod_eq_of_lt hx]

/-- A word put together from its two fields. -/
theorem append_extract {v w : Nat} (x : BitVec (v + w)) :
    x.extractLsb' w v ++ x.extractLsb' 0 w = x := by
  have hx := x.isLt
  have hhigh : x.toNat / 2 ^ w < 2 ^ v := by
    rw [Nat.div_lt_iff_lt_mul (Nat.two_pow_pos w), ← Nat.pow_add]
    exact hx
  apply BitVec.eq_of_toNat_eq
  rw [toNat_append, toNat_field, toNat_field, Nat.pow_zero, Nat.div_one, Nat.mod_eq_of_lt hhigh,
    Nat.mul_comm]
  exact Nat.div_add_mod _ _

/-! ## Words in memory -/

/-- The word that lies at address `p`, low byte first. -/
def wordAt (m : Nat → UInt8) (p : Nat) : BitVec 32 :=
  (m (p + 3)).toBitVec ++ (m (p + 2)).toBitVec ++ (m (p + 1)).toBitVec ++ (m p).toBitVec

/-- The bytes of a word, low byte first. -/
def wordBytes (w : BitVec 32) : List UInt8 :=
  [⟨w.extractLsb' 0 8⟩, ⟨w.extractLsb' 8 8⟩, ⟨w.extractLsb' 16 8⟩, ⟨w.extractLsb' 24 8⟩]

theorem toNat_wordAt (m : Nat → UInt8) (p : Nat) :
    (wordAt m p).toNat = (m (p + 3)).toNat * 2 ^ 24 + (m (p + 2)).toNat * 2 ^ 16 +
      (m (p + 1)).toNat * 2 ^ 8 + (m p).toNat := by
  simp only [wordAt, toNat_append, UInt8.toNat_toBitVec]
  omega

/-- Each byte of a word, as a number. -/
theorem toNat_wordBytes (w : BitVec 32) (i : Nat) (h : i < 4) :
    ((wordBytes w).getD i 0).toNat = w.toNat / 2 ^ (8 * i) % 2 ^ 8 := by
  rcases (by omega : i = 0 ∨ i = 1 ∨ i = 2 ∨ i = 3) with rfl | rfl | rfl | rfl <;>
    exact toNat_field w _ 8

/-- A word read back from its bytes. -/
theorem wordAt_of_bytes {m : Nat → UInt8} {p : Nat} {w : BitVec 32}
    (h : ∀ i < 4, m (p + i) = (wordBytes w).getD i 0) : wordAt m p = w := by
  apply BitVec.eq_of_toNat_eq
  have hb : ∀ i < 4, (m (p + i)).toNat = w.toNat / 2 ^ (8 * i) % 2 ^ 8 := by
    intro i hi
    rw [h i hi, toNat_wordBytes w i hi]
  have h0 := hb 0 (by omega)
  have h1 := hb 1 (by omega)
  have h2 := hb 2 (by omega)
  have h3 := hb 3 (by omega)
  have := w.isLt
  rw [toNat_wordAt]
  simp only [Nat.add_zero] at h0
  omega

/-- The bytes of some words, one word after another. -/
def wordsImage (ws : List (BitVec 32)) : List UInt8 := (ws.map wordBytes).flatten

@[simp] theorem wordsImage_nil : wordsImage [] = [] := rfl

theorem wordsImage_cons (w : BitVec 32) (ws : List (BitVec 32)) :
    wordsImage (w :: ws) = wordBytes w ++ wordsImage ws := rfl

@[simp] theorem wordsImage_length (ws : List (BitVec 32)) :
    (wordsImage ws).length = 4 * ws.length := by
  induction ws with
  | nil => rfl
  | cons w ws ih =>
    rw [wordsImage_cons, List.length_append, ih, List.length_cons, Nat.mul_succ, Nat.add_comm]
    rfl

/-- Each word read back from the bytes of all of them. -/
theorem wordAt_of_image {m : Nat → UInt8} {p : Nat} {ws : List (BitVec 32)}
    (h : ∀ i < 4 * ws.length, m (p + i) = (wordsImage ws).getD i 0) {k : Nat} {w : BitVec 32}
    (hk : ws[k]? = some w) : wordAt m (p + 4 * k) = w := by
  induction ws generalizing p k with
  | nil => cases hk
  | cons v ws ih =>
    rw [List.length_cons] at h
    have hlen : (wordBytes v).length = 4 := rfl
    cases k with
    | zero =>
      cases hk
      apply wordAt_of_bytes
      intro i hi
      rw [Nat.mul_zero, Nat.add_zero, h i (by omega), wordsImage_cons, List.getD_append _ _ _ _ hi]
    | succ k =>
      have hrest : ∀ i < 4 * ws.length, m (p + 4 + i) = (wordsImage ws).getD i 0 := by
        intro i hi
        rw [Nat.add_assoc, h (4 + i) (by omega), wordsImage_cons,
          List.getD_append_right _ _ _ _ (by omega), hlen, Nat.add_sub_cancel_left]
      rw [Nat.mul_succ, Nat.add_comm (4 * k) 4, ← Nat.add_assoc]
      exact ih hrest hk

theorem wordBytes_wordAt (m : Nat → UInt8) (p : Nat) :
    wordBytes (wordAt m p) = [m p, m (p + 1), m (p + 2), m (p + 3)] := by
  have hw := toNat_wordAt m p
  have h0 := (m p).toNat_lt
  have h1 := (m (p + 1)).toNat_lt
  have h2 := (m (p + 2)).toNat_lt
  have h3 := (m (p + 3)).toNat_lt
  have hfield : ∀ i, (⟨(wordAt m p).extractLsb' i 8⟩ : UInt8).toNat =
      (wordAt m p).toNat / 2 ^ i % 2 ^ 8 := fun i => toNat_field _ i 8
  unfold wordBytes
  simp only [List.cons.injEq, and_true, ← UInt8.toNat_inj, hfield, hw]
  refine ⟨?_, ?_, ?_, ?_⟩ <;> omega

/-! ## Network byte order -/

/-- `htons` on a little-endian host: the two bytes swapped. -/
def htons (x : BitVec 16) : BitVec 16 := x.extractLsb' 0 8 ++ x.extractLsb' 8 8

/-- `htonl` on a little-endian host: the four bytes in the other order. -/
def htonl (x : BitVec 32) : BitVec 32 :=
  x.extractLsb' 0 8 ++ x.extractLsb' 8 8 ++ x.extractLsb' 16 8 ++ x.extractLsb' 24 8

/-- `ntohs` and `ntohl` swap in the same way. -/
def ntohs : BitVec 16 → BitVec 16 := htons

def ntohl : BitVec 32 → BitVec 32 := htonl

theorem toNat_ntohs (x : BitVec 16) :
    (ntohs x).toNat = x.toNat % 2 ^ 8 * 2 ^ 8 + x.toNat / 2 ^ 8 % 2 ^ 8 := by
  simp only [ntohs, htons, toNat_append, toNat_field]
  omega

theorem toNat_ntohl (x : BitVec 32) :
    (ntohl x).toNat = x.toNat % 2 ^ 8 * 2 ^ 24 + x.toNat / 2 ^ 8 % 2 ^ 8 * 2 ^ 16 +
      x.toNat / 2 ^ 16 % 2 ^ 8 * 2 ^ 8 + x.toNat / 2 ^ 24 % 2 ^ 8 := by
  simp only [ntohl, htonl, toNat_append, toNat_field]
  omega

@[simp] theorem ntohs_htons (x : BitVec 16) : ntohs (htons x) = x := by
  unfold ntohs htons
  apply BitVec.eq_of_getLsbD_eq
  intro i hi
  simp only [BitVec.getLsbD_append, BitVec.getLsbD_extractLsb']
  grind

@[simp] theorem ntohl_htonl (x : BitVec 32) : ntohl (htonl x) = x := by
  unfold ntohl htonl
  apply BitVec.eq_of_getLsbD_eq
  intro i hi
  simp only [BitVec.getLsbD_append, BitVec.getLsbD_extractLsb']
  grind

/-- A value that is swapped on the way in and on the way out. -/
theorem toNat_half (v : BitVec 32) : (ntohs (htons (v.setWidth 16))).toNat = v.toNat % 2 ^ 16 := by
  rw [ntohs_htons, BitVec.toNat_setWidth]

theorem toNat_word (v : BitVec 32) : (ntohl (htonl v)).toNat = v.toNat % 2 ^ 32 := by
  rw [ntohl_htonl, Nat.mod_eq_of_lt v.isLt]

/-! ## Three bytes

A 24-bit member lies in three bytes. `ntohl` of it leaves eight bits below the
swapped ones, and they are whatever the member was extended with. -/

/-- The three bytes in the other order. -/
def swap24 (x : BitVec 24) : BitVec 24 :=
  x.extractLsb' 0 8 ++ x.extractLsb' 8 8 ++ x.extractLsb' 16 8

theorem toNat_swap24 (x : BitVec 24) :
    (swap24 x).toNat = x.toNat % 2 ^ 8 * 2 ^ 16 + x.toNat / 2 ^ 8 % 2 ^ 8 * 2 ^ 8 +
      x.toNat / 2 ^ 16 % 2 ^ 8 := by
  simp only [swap24, toNat_append, toNat_field]
  omega

@[simp] theorem swap24_swap24 (x : BitVec 24) : swap24 (swap24 x) = x := by
  unfold swap24
  apply BitVec.eq_of_getLsbD_eq
  intro i hi
  simp only [BitVec.getLsbD_append, BitVec.getLsbD_extractLsb']
  grind

/-- `htonl(x) >> 8` as it is stored in 24 bits. -/
theorem htonl_shift (x : BitVec 32) :
    (htonl x >>> 8).setWidth 24 = swap24 (x.setWidth 24) := by
  unfold htonl swap24
  apply BitVec.eq_of_getLsbD_eq
  intro i hi
  simp only [BitVec.getLsbD_setWidth, BitVec.getLsbD_ushiftRight, BitVec.getLsbD_append,
    BitVec.getLsbD_extractLsb']
  grind

/-- `ntohl(x) >> 8` of a member that was extended to 32 bits in any way. -/
theorem ntohl_shift (x : BitVec 32) :
    ntohl x >>> 8 = (swap24 (x.setWidth 24)).setWidth 32 := by
  unfold ntohl htonl swap24
  apply BitVec.eq_of_getLsbD_eq
  intro i hi
  simp only [BitVec.getLsbD_setWidth, BitVec.getLsbD_ushiftRight, BitVec.getLsbD_append,
    BitVec.getLsbD_extractLsb']
  grind

/-- `ntohl` of a member with no sign: eight zeros below the swapped bytes. -/
theorem ntohl_setWidth (x : BitVec 24) :
    ntohl (x.setWidth 32) = (swap24 x).setWidth 32 <<< 8 := by
  unfold ntohl htonl swap24
  apply BitVec.eq_of_getLsbD_eq
  intro i hi
  simp only [BitVec.getLsbD_setWidth, BitVec.getLsbD_shiftLeft, BitVec.getLsbD_append,
    BitVec.getLsbD_extractLsb']
  grind

theorem toNat_ntohl_setWidth (x : BitVec 24) :
    (ntohl (x.setWidth 32)).toNat = (swap24 x).toNat * 2 ^ 8 := by
  have hx := (swap24 x).isLt
  rw [ntohl_setWidth, BitVec.toNat_shiftLeft, BitVec.toNat_setWidth_of_le (by decide),
    Nat.shiftLeft_eq]
  exact Nat.mod_eq_of_lt (by omega)

/-- A member with a sign, extended and cut again. -/
theorem setWidth_signExtend (x : BitVec 24) : (x.signExtend 32).setWidth 24 = x := by
  apply BitVec.eq_of_getLsbD_eq
  intro i hi
  rw [BitVec.getLsbD_setWidth, BitVec.getLsbD_signExtend]
  simp [hi, Nat.lt_trans hi (show 24 < 32 by decide)]

end payloader.byte_order
