-- What the phases of the parser share: cursors that are far from their bounds,
-- the loop that copies a part of the request, and the names of the methods.
import Payloader.RtspParser

set_option autoImplicit false

namespace payloader.rtsp_parser_laws

open payloader.memory payloader.machines payloader.c_strings payloader.rtsp_parser

/-! ## Cursors -/

theorem inc_eq {j : Nat} (h : j < 2 ^ 31) : inc j = j + 1 := by
  unfold inc
  omega

theorem dec_eq {j : Nat} (h1 : 0 < j) (h2 : j < 2 ^ 31) : dec j = j - 1 := by
  unfold dec
  omega

theorem minus_eq {a b : Nat} (h1 : b ≤ a) (h2 : a < 2 ^ 31) : minus a b = a - b := by
  unfold minus
  omega

/-- The casts make the bound of a scan a signed difference. -/
theorem toInt_minus {a b : Nat} (h1 : a < 2 ^ 31) (h2 : b < 2 ^ 31) :
    toInt (minus a b) = (a : Int) - b := by
  unfold toInt minus
  split <;> omega

theorem toInt_eq {j : Nat} (h : j < 2 ^ 31) : toInt j = j := if_pos h

/-! ## Copies -/

theorem load_ok {size i : Nat} (b : Block size UInt8) (h : i < size) :
    b.load i = .ok (b.cell i) := if_pos h

/-- A copy loop that copies one part of the request and then stops. -/
theorem copyBytes_part {size cap : Nat} {β : Type} {b : Block cap UInt8}
    {stop : Nat → Nat → Except Fault (Option β)} (dst : Block size UInt8) (n k : Nat)
    (part : List UInt8) (verdict : β)
    (hsrc : ∀ (i : Nat) (hi : i < part.length), b.cell (k + i) = part[i])
    (hgo : ∀ i < part.length, stop (n + i) (k + i) = .ok none)
    (hstop : stop (n + part.length) (k + part.length) = .ok (some verdict))
    (hdst : n + part.length ≤ size) (hk : k + part.length ≤ cap) (hsize : size ≤ 10000)
    (hcap : cap ≤ 10000) {fuel : Nat} (hf : part.length < fuel) :
    copyBytes fuel b stop dst n k = .ok { verdict, n := n + part.length, k := k + part.length,
                                          dst := dst.put n part } := by
  unfold copyBytes
  refine loop_result (fun s => ∃ i ≤ part.length, s = (n + i, k + i, dst.put n (part.take i)))
    (fun s => n + part.length - s.1) _ ?_ ⟨0, Nat.zero_le _, by simp⟩ (by simpa using hf)
  rintro s ⟨i, hi, rfl⟩
  simp only
  rcases Nat.lt_or_ge i part.length with hlt | hge
  · left
    have hload := load_ok b (show k + i < cap by omega)
    have hstore : (dst.put n (part.take i)).store (n + i) part[i] =
        .ok (dst.put n (part.take (i + 1))) := by
      have happ := put_append dst n (part.take i) [part[i]]
      rw [List.length_take, Nat.min_eq_left hi] at happ
      unfold Block.store
      rw [if_pos (by omega), happ, List.take_append_getElem hlt]
    rw [hgo i hlt, ok_bind]
    simp only [hload, hsrc i hlt, ok_bind, hstore]
    exact ⟨_, rfl, ⟨i + 1, hlt, by rw [inc_eq (by omega), inc_eq (by omega)]; rfl⟩,
      by rw [inc_eq (by omega)]; omega⟩
  · right
    obtain rfl : i = part.length := by omega
    rw [hstop, ok_bind, List.take_length]

/-- The NUL after a copied part is part of the write. -/
theorem store_nul {size : Nat} (dst : Block size UInt8) (part : List UInt8)
    (h : part.length < size) :
    (dst.put 0 part).store part.length 0 = .ok (dst.put 0 (part ++ [0])) := by
  have happ := put_append dst 0 part [0]
  rw [Nat.zero_add] at happ
  unfold Block.store
  rw [if_pos h, happ]

/-! ## The methods -/

/-- The method of a command. -/
def methodName : RTSP_CMD_TYPES → List UInt8
  | .RTSP_OPTIONS => bytes "OPTIONS"
  | .RTSP_DESCRIBE => bytes "DESCRIBE"
  | .RTSP_SETUP => bytes "SETUP"
  | .RTSP_PLAY => bytes "PLAY"
  | .RTSP_TEARDOWN => bytes "TEARDOWN"
  | .RTSP_PAUSE => bytes "PAUSE"
  | .RTSP_UNKNOWN => []

end payloader.rtsp_parser_laws
