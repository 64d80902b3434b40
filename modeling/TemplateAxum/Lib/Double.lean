import TemplateAxum.Lib.JsNumber

/-!
# Rounding to binary64 and the order

A multiple of the distance of the binary64s around `x` keeps its side of `x` when `x` is rounded. So the rounded
value has the ceiling of the exact one, where the exact one is not just above an integer.
-/

namespace Js

/-! ### The grid around a number -/

/-- `z` lies on the grid of the binary64s around `x`. -/
def OnGrid (x z : ℚ) : Prop := ∃ k : ℤ, z = k * ulp x

theorem ulp_pos (x : ℚ) : 0 < ulp x := by
  unfold ulp
  positivity

/-- Below `2 ^ n` the grid is at least as fine as `2 ^ (n - 53)`. -/
theorem onGrid_of_lt {x z : ℚ} {n : ℤ} (hn : 1 ≤ n) (hx : |x| < 2 ^ n) (hz : ∃ k : ℤ, z = k * 2 ^ (n - 53)) :
    OnGrid x z := by
  obtain ⟨k, rfl⟩ := hz
  have hlog : Int.log 2 |x| < n := by
    obtain rfl | hne := eq_or_ne x 0
    · rw [abs_zero, Int.log_zero_right]
      omega
    · exact (Int.lt_zpow_iff_log_lt (by norm_num) (abs_pos.2 hne)).1 (by exact_mod_cast hx)
  obtain ⟨j, hj⟩ : ∃ j : ℕ, n - 53 = max (Int.log 2 |x| - 52) (-1074) + (j : ℤ) :=
    ⟨(n - 53 - max (Int.log 2 |x| - 52) (-1074)).toNat, by omega⟩
  refine ⟨k * 2 ^ j, ?_⟩
  rw [ulp, hj, zpow_add₀ two_ne_zero, zpow_natCast]
  push_cast
  ring

/-! ### The nearest integer -/

theorem roundEven_le {x : ℚ} {m : ℤ} (h : x ≤ m) : roundEven x ≤ m := by
  have hround : round x ≤ m := by
    have hhalf := (abs_le.1 (abs_sub_round x)).1
    have hlt : (round x : ℚ) < m + 1 := by linarith
    exact Int.lt_add_one_iff.1 (by exact_mod_cast hlt)
  unfold roundEven
  split
  · omega
  · exact hround

theorem le_roundEven {x : ℚ} {m : ℤ} (h : (m : ℚ) ≤ x) : m ≤ roundEven x := by
  have hhalf := (abs_le.1 (abs_sub_round x)).2
  unfold roundEven
  split
  · rename_i htie
    have hlt : (m : ℚ) < round x := by linarith [htie.1]
    have := Int.cast_lt.1 hlt
    omega
  · have hlt : (m : ℚ) < round x + 1 := by linarith
    exact Int.lt_add_one_iff.1 (by exact_mod_cast hlt)

/-! ### Sides of a grid point -/

variable {x y z : ℚ}

theorem eq_of_roundDouble (h : roundDouble x = some y) : y = roundEven (x / ulp x) * ulp x := by
  unfold roundDouble at h
  dsimp only at h
  split at h
  · exact (Option.some.inj h).symm
  · cases h

theorem roundDouble_le (h : roundDouble x = some y) (hz : OnGrid x z) (hxz : x ≤ z) : y ≤ z := by
  obtain ⟨k, rfl⟩ := hz
  have hk : x / ulp x ≤ k := (div_le_iff₀ (ulp_pos x)).2 hxz
  rw [eq_of_roundDouble h]
  exact mul_le_mul_of_nonneg_right (by exact_mod_cast roundEven_le hk) (ulp_pos x).le

theorem le_roundDouble (h : roundDouble x = some y) (hz : OnGrid x z) (hzx : z ≤ x) : z ≤ y := by
  obtain ⟨k, rfl⟩ := hz
  have hk : (k : ℚ) ≤ x / ulp x := (le_div_iff₀ (ulp_pos x)).2 hzx
  rw [eq_of_roundDouble h]
  exact mul_le_mul_of_nonneg_right (by exact_mod_cast le_roundEven hk) (ulp_pos x).le

/-- Nothing below a grid point that is in range overflows. -/
theorem exists_roundDouble {b : ℚ} (hgrid : OnGrid x b) (hneg : OnGrid x (-b)) (hb : b < 2 ^ 1024) (hx : |x| ≤ b) :
    ∃ y, roundDouble x = some y := by
  obtain ⟨hlow, hhigh⟩ := abs_le.1 hx
  obtain ⟨k, hk⟩ := hgrid
  obtain ⟨l, hl⟩ := hneg
  have hbelow : x / ulp x ≤ k := (div_le_iff₀ (ulp_pos x)).2 (hk ▸ hhigh)
  have habove : (l : ℚ) ≤ x / ulp x := (le_div_iff₀ (ulp_pos x)).2 (hl ▸ hlow)
  have hle : (roundEven (x / ulp x) : ℚ) * ulp x ≤ b := by
    rw [hk]
    exact mul_le_mul_of_nonneg_right (by exact_mod_cast roundEven_le hbelow) (ulp_pos x).le
  have hge : -b ≤ (roundEven (x / ulp x) : ℚ) * ulp x := by
    rw [hl]
    exact mul_le_mul_of_nonneg_right (by exact_mod_cast le_roundEven habove) (ulp_pos x).le
  exact ⟨_, if_pos ((abs_le.2 ⟨hge, hle⟩).trans_lt hb)⟩

/-- The ceiling survives the rounding of a number below `2 ^ n` that is more than `2 ^ (n - 53)` above the integer
before it. -/
theorem ceil_roundDouble {n : ℤ} (hn : 1 ≤ n) (hn' : n ≤ 53) (hx : |x| < 2 ^ n) {r : ℤ}
    (hle : x ≤ r) (hgt : (r : ℚ) - 1 + 2 ^ (n - 53) ≤ x) : ∃ y, roundDouble x = some y ∧ ⌈y⌉ = r := by
  obtain ⟨j, hj⟩ : ∃ j : ℕ, n - 53 = -(j : ℤ) := ⟨(53 - n).toNat, by omega⟩
  have hone : (2 : ℚ) ^ (n - 53) * 2 ^ j = 1 := by
    rw [hj, zpow_neg, zpow_natCast]
    exact inv_mul_cancel₀ (by positivity)
  have hint : ∀ m : ℤ, ∃ k : ℤ, (m : ℚ) = k * 2 ^ (n - 53) := fun m => by
    refine ⟨m * 2 ^ j, ?_⟩
    push_cast
    rw [mul_assoc, mul_comm ((2 : ℚ) ^ j), hone, mul_one]
  obtain ⟨y, hy⟩ : ∃ y, roundDouble x = some y := by
    have hpow : ∃ k : ℤ, (2 : ℚ) ^ n = k * 2 ^ (n - 53) := by
      refine ⟨2 ^ 53, ?_⟩
      rw [zpow_sub₀ two_ne_zero]
      push_cast
      ring
    refine exists_roundDouble (onGrid_of_lt hn hx hpow) (onGrid_of_lt hn hx ?_) ?_ hx.le
    · obtain ⟨k, hk⟩ := hpow
      exact ⟨-k, by rw [hk]; push_cast; ring⟩
    · calc (2 : ℚ) ^ n ≤ 2 ^ (53 : ℤ) := zpow_le_zpow_right₀ (by norm_num) hn'
        _ = 2 ^ 53 := zpow_natCast ..
        _ < 2 ^ 1024 := pow_lt_pow_right₀ (by norm_num) (by norm_num)
  refine ⟨y, hy, Int.ceil_eq_iff.2 ⟨?_, ?_⟩⟩
  · have hgrid : OnGrid x ((r : ℚ) - 1 + 2 ^ (n - 53)) := by
      obtain ⟨k, hk⟩ := hint (r - 1)
      refine onGrid_of_lt hn hx ⟨k + 1, ?_⟩
      push_cast at hk ⊢
      rw [hk]
      ring
    have hlow := le_roundDouble hy hgrid hgt
    have hpos : (0 : ℚ) < 2 ^ (n - 53) := by positivity
    linarith
  · exact roundDouble_le hy (onGrid_of_lt hn hx (hint r)) hle

end Js
