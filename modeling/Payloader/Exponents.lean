-- Numbers as a mantissa and an exponent, with the low bits cut. The exponent is
-- the least one that brings the mantissa below a bound, so what is left of a
-- number never falls when the number grows.
import Mathlib.Algebra.Order.Group.Nat

set_option autoImplicit false

namespace payloader.exponents

variable {M n n' e e' : Nat}

/-- `e` is the least exponent for `n` with mantissas below `M`. -/
structure Least (M n e : Nat) : Prop where
  fits : n < M * 2 ^ e
  least : e = 0 ∨ M * 2 ^ (e - 1) ≤ n

/-- The number that the mantissa and the exponent stand for. -/
def cut (n e : Nat) : Nat := n / 2 ^ e * 2 ^ e

theorem cut_le (n e : Nat) : cut n e ≤ n := Nat.div_mul_le_self n (2 ^ e)

theorem lt_cut (n e : Nat) : n < (n / 2 ^ e + 1) * 2 ^ e := by
  rw [Nat.mul_comm]
  exact Nat.lt_mul_div_succ n (Nat.two_pow_pos e)

@[simp] theorem cut_zero (n : Nat) : cut n 0 = n := by
  rw [cut, Nat.pow_zero, Nat.div_one, Nat.mul_one]

/-- The bits that are cut never decide whether a number fits a width. -/
theorem cut_lt_two_pow_iff {w : Nat} (he : e ≤ w) : cut n e < 2 ^ w ↔ n < 2 ^ w := by
  refine ⟨fun hlt => ?_, (cut_le n e).trans_lt⟩
  obtain ⟨d, rfl⟩ : ∃ d, w = d + e := ⟨w - e, (Nat.sub_add_cancel he).symm⟩
  rw [Nat.pow_add] at hlt ⊢
  have hmantissa : n / 2 ^ e < 2 ^ d := Nat.lt_of_mul_lt_mul_right hlt
  calc n < (n / 2 ^ e + 1) * 2 ^ e := lt_cut n e
    _ ≤ 2 ^ d * 2 ^ e := Nat.mul_le_mul_right _ hmantissa

theorem Least.mantissa_lt (h : Least M n e) : n / 2 ^ e < M :=
  (Nat.div_lt_iff_lt_mul (Nat.two_pow_pos e)).mpr h.fits

theorem least_zero (h : n < M) : Least M n 0 := ⟨by rwa [Nat.pow_zero, Nat.mul_one], Or.inl rfl⟩

/-- A larger number has no smaller exponent. -/
theorem Least.exponent_mono (h : Least M n e) (h' : Least M n' e') (hle : n ≤ n') : e ≤ e' := by
  rcases h.least with rfl | hleast
  · exact Nat.zero_le e'
  by_contra hlt
  have hpow : 2 ^ e' ≤ 2 ^ (e - 1) := Nat.pow_le_pow_right (by decide) (by omega)
  have hbound : M * 2 ^ e' ≤ M * 2 ^ (e - 1) := Nat.mul_le_mul_left M hpow
  have hfits := h'.fits
  omega

theorem Least.unique (h : Least M n e) (h' : Least M n e') : e = e' :=
  Nat.le_antisymm (h.exponent_mono h' le_rfl) (h'.exponent_mono h le_rfl)

/-- With an exponent the mantissa has at least half of the bound. -/
theorem Least.half_le (h : Least M n (e + 1)) : (M - 1) * 2 ^ e ≤ cut n (e + 1) := by
  have hleast : M * 2 ^ e ≤ n := h.least.resolve_left (Nat.succ_ne_zero e)
  have hhalf : M / 2 ≤ n / 2 ^ (e + 1) := by
    rw [Nat.le_div_iff_mul_le (Nat.two_pow_pos _), Nat.pow_succ, Nat.mul_comm (2 ^ e) 2,
      ← Nat.mul_assoc]
    exact (Nat.mul_le_mul_right _ (Nat.div_mul_le_self M 2)).trans hleast
  calc (M - 1) * 2 ^ e ≤ M / 2 * 2 * 2 ^ e := Nat.mul_le_mul_right _ (by omega)
    _ = M / 2 * 2 ^ (e + 1) := by rw [Nat.pow_succ, Nat.mul_comm (2 ^ e) 2, Nat.mul_assoc]
    _ ≤ cut n (e + 1) := Nat.mul_le_mul_right _ hhalf

/-- What is left of a number never falls when the number grows. -/
theorem Least.cut_mono (h : Least M n e) (h' : Least M n' e') (hle : n ≤ n') :
    cut n e ≤ cut n' e' := by
  rcases Nat.lt_or_eq_of_le (h.exponent_mono h' hle) with hlt | rfl
  · obtain ⟨k, rfl⟩ : ∃ k, e' = k + 1 := ⟨e' - 1, by omega⟩
    have hpow : 2 ^ e ≤ 2 ^ k := Nat.pow_le_pow_right (by decide) (by omega)
    have hmantissa := h.mantissa_lt
    calc cut n e ≤ (M - 1) * 2 ^ k := Nat.mul_le_mul (by omega) hpow
      _ ≤ cut n' (k + 1) := h'.half_le
  · exact Nat.mul_le_mul_right _ (Nat.div_le_div_right hle)

end payloader.exponents
