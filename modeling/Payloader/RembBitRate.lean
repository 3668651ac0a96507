-- The bit rate of a REMB packet: the loop of `setREMBBitRate` that looks for the
-- exponent, and what `getREMBBitRate` makes of the exponent and the mantissa.
import Payloader.Exponents
import Payloader.PackedFields

set_option autoImplicit false

namespace payloader.remb_bit_rate

open payloader.memory payloader.byte_order payloader.exponents payloader.rtcp_headers
open payloader.rtcp_headers.RtcpHeader payloader.packed_fields

/-- The 18 bits of the mantissa. -/
def RATE_MAX : Nat := 2 ^ 18 - 1

/-! ## The loop -/

/-- The bound of the loop after `k` turns. -/
def bound (k : Nat) : BitVec 64 := (0x3FFFF : BitVec 64) <<< k

theorem bound_succ (k : Nat) : bound k <<< 1 = bound (k + 1) :=
  (BitVec.shiftLeft_add (0x3FFFF : BitVec 64) k 1).symm

theorem toNat_bound : ∀ k ≤ 46, (bound k).toNat = RATE_MAX * 2 ^ k := by decide

/-- From then on bits are lost, and the bound falls. -/
theorem toNat_bound_le : ∀ k < 64, (bound k).toNat ≤ RATE_MAX * 2 ^ 46 := by decide

variable {b : BitVec 64}

/-- Below the largest bound the loop finds the least exponent. -/
theorem rateExponent_least {k : Nat} (hb : b.toNat < RATE_MAX * 2 ^ 46) (hk : k ≤ 46)
    (hleast : k = 0 ∨ RATE_MAX * 2 ^ (k - 1) ≤ b.toNat) :
    Least RATE_MAX b.toNat (rateExponent b (bound k) k) ∧ rateExponent b (bound k) k ≤ 46 := by
  have hmax := toNat_bound k hk
  rw [rateExponent]
  by_cases hle : bound k ≤ b
  · have hreached : RATE_MAX * 2 ^ k ≤ b.toNat := by
      rw [← hmax]
      exact hle
    have hlt : k < 46 := by
      by_contra hlast
      obtain rfl : k = 46 := by omega
      omega
    rw [if_pos ⟨hle, by omega⟩, bound_succ]
    exact rateExponent_least hb hlt (Or.inr hreached)
  · have hlt : b.toNat < (bound k).toNat := Nat.lt_of_not_le hle
    rw [if_neg (fun h => hle h.1)]
    exact ⟨⟨hmax ▸ hlt, hleast⟩, hk⟩
termination_by 46 - k

/-- From there on it stops only at its count of turns. -/
theorem rateExponent_large {k : Nat} (hb : RATE_MAX * 2 ^ 46 ≤ b.toNat) (hk : k ≤ 64) :
    rateExponent b (bound k) k = 64 := by
  rw [rateExponent]
  rcases Nat.lt_or_eq_of_le hk with hlt | rfl
  · have hle : bound k ≤ b := (toNat_bound_le k hlt).trans hb
    rw [if_pos ⟨hle, hlt⟩, bound_succ]
    exact rateExponent_large hb hlt
  · exact if_neg (fun h => Nat.lt_irrefl 64 h.2)
termination_by 64 - k

/-! ## The two parts of the rate -/

/-- The word that is stored: the mantissa below the exponent. -/
theorem toNat_line {e : Nat} {m : BitVec 64} (he : e < 64) (hm : m.toNat < 2 ^ 18) :
    (((m &&& (0x3FFFF : BitVec 64)) +
      ((BitVec.ofNat 32 e &&& (0x3F : BitVec 32)) <<< 18).setWidth 64).setWidth 32).toNat =
      e * 2 ^ 18 + m.toNat := by
  have hlow : (m &&& (0x3FFFF : BitVec 64)).toNat = m.toNat := by
    rw [toNat_mask _ _ 18 rfl, Nat.mod_eq_of_lt hm]
  have hexp : (BitVec.ofNat 32 e &&& (0x3F : BitVec 32)).toNat = e := by
    rw [toNat_mask _ _ 6 rfl, BitVec.toNat_ofNat, Nat.mod_eq_of_lt (show e < 2 ^ 32 by omega)]
    exact Nat.mod_eq_of_lt he
  rw [BitVec.toNat_setWidth, BitVec.toNat_add, hlow, BitVec.toNat_setWidth, BitVec.toNat_shiftLeft,
    hexp, Nat.shiftLeft_eq]
  omega

/-- The exponent `e` and the mantissa `m` are the 24 bits of the rate, and the
shift that gave the mantissa is defined. -/
structure Stored (h : RtcpHeader) (b : BitVec 64) (h' : RtcpHeader) (e m : Nat) : Prop where
  shift : rateExponent b 0x3FFFF 0 < 64
  returns : h.setREMBBitRate b = some h'
  exponent : e < 2 ^ 6
  mantissa : m < 2 ^ 18
  bits : (swap24 h'.rembPacket.brLength).toNat = e * 2 ^ 18 + m
  lower : m * 2 ^ e ≤ b.toNat
  upper : b.toNat < (m + 1) * 2 ^ e

/-- Below the largest bound the rate is stored. -/
theorem stored_least (h : RtcpHeader) (hb : b.toNat < RATE_MAX * 2 ^ 46) :
    ∃ h' e, Stored h b h' e (b.toNat / 2 ^ e) ∧ Least RATE_MAX b.toNat e ∧ e ≤ 46 := by
  obtain ⟨hleast, hle⟩ : Least RATE_MAX b.toNat (rateExponent b 0x3FFFF 0) ∧
      rateExponent b 0x3FFFF 0 ≤ 46 := rateExponent_least hb (Nat.zero_le 46) (Or.inl rfl)
  have hmantissa : b.toNat / 2 ^ rateExponent b 0x3FFFF 0 < 2 ^ 18 - 1 := hleast.mantissa_lt
  have hlt : rateExponent b 0x3FFFF 0 < 64 := by omega
  have hshift : (b >>> rateExponent b 0x3FFFF 0).toNat =
      b.toNat / 2 ^ rateExponent b 0x3FFFF 0 := by
    rw [BitVec.toNat_ushiftRight, Nat.shiftRight_eq_div_pow]
  have hline := toNat_line hlt (m := b >>> rateExponent b 0x3FFFF 0) (by omega)
  refine ⟨_, rateExponent b 0x3FFFF 0,
    { shift := hlt
      returns := by
        unfold setREMBBitRate shr
        simp only [hlt, if_true]
        rfl
      exponent := by omega
      mantissa := by omega
      bits := ?_
      lower := cut_le _ _
      upper := lt_cut _ _ }, hleast, hle⟩
  rw [rembPacket_put]
  simp only
  rw [htonl_shift, swap24_swap24, BitVec.toNat_setWidth, hline, hshift]
  omega

/-- With more than that the mantissa is shifted by the width of its type. -/
theorem rateExponent_overflows (hb : RATE_MAX * 2 ^ 46 ≤ b.toNat) :
    rateExponent b 0x3FFFF 0 = 64 := rateExponent_large hb (Nat.zero_le 64)

/-! ## What is read back -/

variable {h h' : RtcpHeader} {e m : Nat}

theorem Stored.getBrExp_eq (hs : Stored h b h' e m) : h'.getBrExp.toNat = e := by
  have hm := hs.mantissa
  rw [packed_fields.getBrExp_eq, hs.bits]
  omega

theorem Stored.getBrMantis_eq (hs : Stored h b h' e m) : h'.getBrMantis.toNat = m := by
  have hm := hs.mantissa
  rw [packed_fields.getBrMantis_eq, hs.bits]
  omega

/-- The getter shifts in 32 bits. -/
theorem Stored.getREMBBitRate_eq (hs : Stored h b h' e m) :
    h'.getREMBBitRate.map BitVec.toNat = if e < 32 then some (m * 2 ^ e % 2 ^ 32) else none := by
  unfold getREMBBitRate shl
  rw [hs.getBrExp_eq]
  split
  · rw [Option.map_some, Option.map_some, BitVec.toNat_setWidth_of_le (by decide),
      BitVec.toNat_shiftLeft, hs.getBrMantis_eq, Nat.shiftLeft_eq]
  · rfl

/-- The setter writes to one member of the packet. -/
theorem setREMBBitRate_put (hset : h.setREMBBitRate b = some h') :
    ∃ brLength, h' = h.putRemb { h.rembPacket with brLength } := by
  unfold setREMBBitRate at hset
  obtain ⟨mantissa, -, hset⟩ := Option.bind_eq_some_iff.mp hset
  exact ⟨_, (Option.some_inj.mp hset).symm⟩

/-- So the other members stay, and a call for one of them leaves the rate. -/
theorem Stored.members_kept (hs : Stored h b h' e m) (num : BitVec 8) (ssrc : BitVec 32) :
    h'.getREMBNumSSRC = h.getREMBNumSSRC ∧ h'.getREMBFeedSSRC = h.getREMBFeedSSRC ∧
      (h'.setREMBNumSSRC num).getREMBBitRate = h'.getREMBBitRate ∧
      (h'.setREMBFeedSSRC ssrc).getREMBBitRate = h'.getREMBBitRate := by
  obtain ⟨brLength, rfl⟩ := setREMBBitRate_put hs.returns
  unfold getREMBNumSSRC getREMBFeedSSRC getREMBBitRate getBrMantis getBrExp setREMBNumSSRC
    setREMBFeedSSRC
  simp only [rembPacket_put, and_self]

/-- The mantissa is the one of the exponent. -/
theorem Stored.mantissa_eq (hs : Stored h b h' e m) : m = b.toNat / 2 ^ e :=
  (Nat.div_eq_of_lt_le hs.lower hs.upper).symm

/-- A rate of 32 bits has an exponent that the getter can shift by. -/
theorem exponent_le (hleast : Least RATE_MAX b.toNat e) (hb : b.toNat < 2 ^ 32) : e ≤ 15 := by
  rcases hleast.least with rfl | hle
  · exact Nat.zero_le 15
  by_contra hlarge
  have hpow : RATE_MAX * 2 ^ 15 ≤ RATE_MAX * 2 ^ (e - 1) :=
    Nat.mul_le_mul_left _ (Nat.pow_le_pow_right (by decide) (by omega))
  have hmax : 2 ^ 32 ≤ RATE_MAX * 2 ^ 15 := by decide
  omega

/-- The getter gives the rate that is stored exactly when it has 32 bits. -/
theorem Stored.read_iff (hs : Stored h b h' e m) :
    h'.getREMBBitRate.map BitVec.toNat = some (m * 2 ^ e) ↔ e < 32 ∧ b.toNat < 2 ^ 32 := by
  have hmantissa := hs.mantissa_eq
  rw [hs.getREMBBitRate_eq]
  by_cases he : e < 32
  · have hfits : m * 2 ^ e < 2 ^ 32 ↔ b.toNat < 2 ^ 32 := by
      rw [hmantissa]
      exact cut_lt_two_pow_iff (Nat.le_of_lt he)
    rw [if_pos he, Option.some_inj, ← hfits]
    exact ⟨fun heq => ⟨he, heq ▸ Nat.mod_lt _ (Nat.two_pow_pos 32)⟩, fun hlt =>
      Nat.mod_eq_of_lt hlt.2⟩
  · rw [if_neg he]
    exact ⟨fun heq => absurd heq.symm (Option.some_ne_none _), fun hlt => absurd hlt.1 he⟩

/-! ## The rates that are kept -/

/-- The setter stores an exponent and a mantissa for the rate. -/
def RateStored (h : RtcpHeader) (b : BitVec 64) : Prop := ∃ h' e m, Stored h b h' e m

/-- The getter then gives what they stand for. -/
def RateKept (h : RtcpHeader) (b : BitVec 64) : Prop :=
  ∃ h' e m, Stored h b h' e m ∧ h'.getREMBBitRate.map BitVec.toNat = some (m * 2 ^ e)

/-- The rate that is read after `b` was set. -/
def rateRead (h : RtcpHeader) (b : BitVec 64) : Option Nat :=
  ((h.setREMBBitRate b).bind getREMBBitRate).map BitVec.toNat

theorem rateStored_iff (h : RtcpHeader) (b : BitVec 64) :
    RateStored h b ↔ b.toNat < 2 ^ 64 - 2 ^ 46 := by
  have hmax : RATE_MAX * 2 ^ 46 = 2 ^ 64 - 2 ^ 46 := by decide
  rw [← hmax]
  refine ⟨fun ⟨h', e, m, hs⟩ => ?_, fun hb => ?_⟩
  · by_contra hlarge
    have hshift := hs.shift
    rw [rateExponent_overflows (Nat.le_of_not_lt hlarge)] at hshift
    exact absurd hshift (Nat.lt_irrefl 64)
  · obtain ⟨h', e, hs, -, -⟩ := stored_least h hb
    exact ⟨h', e, _, hs⟩

/-- A rate of 32 bits is read as the bits that its exponent leaves. -/
theorem rateRead_eq (h : RtcpHeader) (hb : b.toNat < 2 ^ 32) :
    ∃ h' e, Stored h b h' e (b.toNat / 2 ^ e) ∧ Least RATE_MAX b.toNat e ∧
      h'.getREMBBitRate.map BitVec.toNat = some (cut b.toNat e) := by
  have hmax : 2 ^ 32 ≤ RATE_MAX * 2 ^ 46 := by decide
  obtain ⟨h', e, hs, hleast, -⟩ := stored_least h (hb.trans_le hmax)
  have he := exponent_le hleast hb
  exact ⟨h', e, hs, hleast, hs.read_iff.mpr ⟨by omega, hb⟩⟩

theorem rateKept_iff (h : RtcpHeader) (b : BitVec 64) : RateKept h b ↔ b.toNat < 2 ^ 32 := by
  refine ⟨fun ⟨h', e, m, hs, hread⟩ => (hs.read_iff.mp hread).2, fun hb => ?_⟩
  obtain ⟨h', e, hs, -, hread⟩ := rateRead_eq h hb
  exact ⟨h', e, _, hs, hread⟩

theorem Stored.rateRead_eq (hs : Stored h b h' e m) :
    rateRead h b = h'.getREMBBitRate.map BitVec.toNat := by
  unfold rateRead
  rw [hs.returns, Option.bind_some]

/-- A rate below the bound of the loop needs no exponent. -/
theorem rateRead_small (h : RtcpHeader) (hb : b.toNat < RATE_MAX) :
    rateRead h b = some b.toNat := by
  have hmax : RATE_MAX ≤ 2 ^ 32 := by decide
  obtain ⟨h', e, hs, hleast, hread⟩ := rateRead_eq h (hb.trans_le hmax)
  obtain rfl := hleast.unique (least_zero hb)
  rw [hs.rateRead_eq, hread, cut_zero]

/-- A larger rate is never read as a smaller one. -/
theorem rateRead_mono (h₁ h₂ : RtcpHeader) {b₁ b₂ : BitVec 64} (hle : b₁ ≤ b₂)
    (hb : b₂.toNat < 2 ^ 32) :
    ∃ v₁ v₂, rateRead h₁ b₁ = some v₁ ∧ rateRead h₂ b₂ = some v₂ ∧ v₁ ≤ v₂ := by
  have hnat : b₁.toNat ≤ b₂.toNat := hle
  obtain ⟨_, e₁, hs₁, hleast₁, hread₁⟩ := rateRead_eq h₁ (hnat.trans_lt hb)
  obtain ⟨_, e₂, hs₂, hleast₂, hread₂⟩ := rateRead_eq h₂ hb
  exact ⟨_, _, hs₁.rateRead_eq.trans hread₁, hs₂.rateRead_eq.trans hread₂,
    hleast₁.cut_mono hleast₂ hnat⟩

/-- The rates that are stored are the ones below the last bound of the loop, and
the rates that are read back are the ones of 32 bits. Of these the small ones are
read as they are, and the order of the others stays. -/
theorem the_rate_is_kept_exactly_when_it_has_32_bits (h : RtcpHeader) (b : BitVec 64) :
    (RateStored h b ↔ b.toNat < 2 ^ 64 - 2 ^ 46) ∧ (RateKept h b ↔ b.toNat < 2 ^ 32) ∧
      (b.toNat < 2 ^ 18 - 1 → rateRead h b = some b.toNat) ∧
      ∀ (h₂ : RtcpHeader) (b₂ : BitVec 64), b ≤ b₂ → b₂.toNat < 2 ^ 32 →
        ∃ v v₂, rateRead h b = some v ∧ rateRead h₂ b₂ = some v₂ ∧ v ≤ v₂ :=
  ⟨rateStored_iff h b, rateKept_iff h b, fun hb => rateRead_small h hb,
    fun h₂ _ hle hb => rateRead_mono h h₂ hle hb⟩

/-- The first rate with 33 bits is not read back. -/
theorem a_rate_of_33_bits_is_lost :
    ¬ ∀ (h : RtcpHeader) (b : BitVec 64), RateKept h b := by
  intro hkept
  have hlt := (rateKept_iff (init { cell := fun _ => 0 }) (BitVec.ofNat 64 (2 ^ 32))).mp
    (hkept _ _)
  revert hlt
  decide

end payloader.remb_bit_rate
