import LuaAudit.Number.Binary64
import Mathlib.Algebra.Order.Field.Power
import Mathlib.Data.Rat.Cast.Order
import Mathlib.Tactic.FieldSimp
import Mathlib.Tactic.Linarith
import Mathlib.Tactic.Positivity
import Mathlib.Tactic.Ring

/-!
# Rounding to binary floating point

A fraction is rounded to the number in whose interval it lies.

* `Canonical`: the mantissas and exponents of the format, each number by one pair;
* `Near`: the fractions that round to a whole number, `near_roundDiv` and `roundDiv_eq`: to that
  one;
* `Scaled`: the exponent that a fraction is rounded at, `scaled_exponentFor`: the one that is taken;
* `Rounds`: the fractions that lie in the interval of a number;
* `exists_of_ofRatio`: what rounding gives, `canonical_of_ofRatio`: it is canonical;
* `ofRatio_of_rounds`: a fraction in the interval of a number is rounded to it.
-/

namespace LuaAudit.Number

/-- The finite numbers of the format: 53 bits, of which the first is set unless the exponent is the
    least. -/
structure Canonical (m : Nat) (e : Int) : Prop where
  pos : 0 < m
  lt : m < 2 ^ 53
  low : -1074 ≤ e
  high : e ≤ 971
  full : 2 ^ 52 ≤ m ∨ e = -1074

/-! ### Whole numbers -/

/-- A fraction at most one half away from a whole number, and less than that when it is odd. -/
def Near (x : ℚ) (r : Nat) : Prop :=
  (r - 1 / 2 ≤ x ∧ x ≤ r + 1 / 2) ∧ (r % 2 = 0 ∨ r - 1 / 2 < x ∧ x < r + 1 / 2)

theorem near_of_lt {x : ℚ} {r : Nat} (hlow : r - 1 / 2 < x) (hhigh : x < r + 1 / 2) : Near x r :=
  ⟨⟨hlow.le, hhigh.le⟩, .inr ⟨hlow, hhigh⟩⟩

/-- No fraction is near two whole numbers: half-way between them one is odd. -/
theorem Near.unique {x : ℚ} {r s : Nat} (hr : Near x r) (hs : Near x s) : r = s := by
  wlog hle : r ≤ s generalizing r s
  · exact (this hs hr (Nat.le_of_not_le hle)).symm
  by_contra hne
  obtain ⟨⟨-, hr⟩, hrodd⟩ := hr
  obtain ⟨⟨hs, -⟩, hsodd⟩ := hs
  have hnext : s = r + 1 := by
    have : (s : ℚ) ≤ r + 1 := by linarith
    have : s ≤ r + 1 := by exact_mod_cast this
    omega
  subst hnext
  push_cast at hs hsodd
  rcases hrodd with hrodd | ⟨-, hrodd⟩
  · rcases hsodd with hsodd | ⟨hsodd, -⟩
    · omega
    · linarith
  · linarith

theorem near_roundDiv (num : Nat) {den : Nat} (hden : 0 < den) :
    Near ((num : ℚ) / den) (roundDiv num den) := by
  have hd : (0 : ℚ) < den := by exact_mod_cast hden
  -- the quotient, and what is left of one
  have hx : (num : ℚ) / den = (num / den : Nat) + (num % den : Nat) / (den : ℚ) := by
    have hsplit : (num : ℚ) = den * (num / den : Nat) + (num % den : Nat) := by
      exact_mod_cast (Nat.div_add_mod num den).symm
    rw [hsplit]
    field_simp
  have hone : ((num % den : Nat) : ℚ) / den < 1 := by
    rw [div_lt_one hd]
    exact_mod_cast Nat.mod_lt num hden
  have hpos : (0 : ℚ) ≤ (num % den : Nat) / (den : ℚ) := by positivity
  unfold roundDiv
  dsimp only
  rw [hx]
  generalize num / den = q at *
  generalize num % den = t at *
  split
  next hsmall =>
    have hhalf : (t : ℚ) / den < 1 / 2 := by
      have : (2 * t : ℚ) < den := by exact_mod_cast hsmall
      rw [div_lt_iff₀ hd]
      linarith
    exact near_of_lt (by linarith) (by linarith)
  next hsmall =>
    split
    next hlarge =>
      have hhalf : 1 / 2 < (t : ℚ) / den := by
        have : (den : ℚ) < 2 * t := by exact_mod_cast hlarge
        rw [lt_div_iff₀ hd]
        linarith
      exact near_of_lt (by push_cast; linarith) (by push_cast; linarith)
    next hlarge =>
      have hhalf : (t : ℚ) / den = 1 / 2 := by
        have : (2 * t : ℚ) = den := by exact_mod_cast (show 2 * t = den by omega)
        rw [div_eq_iff hd.ne']
        linarith
      -- half-way the even one is taken
      rcases Nat.mod_two_eq_zero_or_one q with hq | hq
      · rw [hq, hhalf]
        exact ⟨⟨by push_cast; linarith, by push_cast; linarith⟩, .inl hq⟩
      · rw [hq, hhalf]
        exact ⟨⟨by push_cast; linarith, by push_cast; linarith⟩, .inl (by omega)⟩

theorem roundDiv_eq {num den r : Nat} (hden : 0 < den) (h : Near ((num : ℚ) / den) r) :
    roundDiv num den = r :=
  (near_roundDiv num hden).unique h

/-! ### Exponents -/

/-- Scaling by a power of two. -/
theorem scaleTwo_spec (num : Nat) {den : Nat} (hden : 0 < den) (e : Int) :
    0 < (scaleTwo num den e).2 ∧
      ((scaleTwo num den e).1 : ℚ) / (scaleTwo num den e).2 = (num : ℚ) / den / 2 ^ e := by
  unfold scaleTwo
  split
  next he =>
    obtain ⟨k, rfl⟩ := Int.eq_ofNat_of_zero_le he
    refine ⟨Nat.mul_pos hden (Nat.pow_pos (by decide)), ?_⟩
    simp [div_div]
  next he =>
    obtain ⟨k, hk⟩ := Int.eq_ofNat_of_zero_le (show 0 ≤ -e by omega)
    obtain rfl : e = -k := by omega
    refine ⟨hden, ?_⟩
    simp [mul_div_right_comm]

/-- The exponent that gives a fraction its full 53 bits, as far as the format goes. -/
structure Scaled (x : ℚ) (e : Int) : Prop where
  low : -1074 ≤ e
  lt : x < 2 ^ 53 * 2 ^ e
  full : e = -1074 ∨ 2 ^ 52 * 2 ^ e ≤ x

theorem two_zpow_pos (e : Int) : (0 : ℚ) < 2 ^ e := zpow_pos (by norm_num) e

/-- A power of two by another. -/
theorem two_pow_mul_zpow (k : Nat) (e : Int) : (2 : ℚ) ^ k * 2 ^ e = 2 ^ (k + e) := by
  rw [zpow_add₀ two_ne_zero, zpow_natCast]

/-- The length of a number gives its size up to a factor of two. -/
theorem two_zpow_log2 {n : Nat} (hn : n ≠ 0) :
    (2 : ℚ) ^ (n.log2 : Int) ≤ n ∧ (n : ℚ) < 2 ^ ((n.log2 : Int) + 1) := by
  have hlow : 2 ^ n.log2 ≤ n := Nat.log2_self_le hn
  have hhigh : n < 2 ^ (n.log2 + 1) := Nat.lt_log2_self
  exact ⟨by exact_mod_cast hlow, by exact_mod_cast hhigh⟩

/-- The lengths of numerator and denominator give the size of a fraction up to a factor of four. -/
theorem bounds_of_log2 {num den : Nat} (hnum : 0 < num) (hden : 0 < den) :
    (2 : ℚ) ^ ((num.log2 : Int) - den.log2 - 1) < (num : ℚ) / den ∧
      (num : ℚ) / den < 2 ^ ((num.log2 : Int) - den.log2 + 1) := by
  have hd : (0 : ℚ) < den := by exact_mod_cast hden
  obtain ⟨hnlow, hnhigh⟩ := two_zpow_log2 hnum.ne'
  obtain ⟨hdlow, hdhigh⟩ := two_zpow_log2 hden.ne'
  generalize (num.log2 : Int) = a at *
  generalize (den.log2 : Int) = b at *
  constructor
  · rw [lt_div_iff₀ hd]
    calc (2 : ℚ) ^ (a - b - 1) * den
        < 2 ^ (a - b - 1) * 2 ^ (b + 1) := mul_lt_mul_of_pos_left hdhigh (two_zpow_pos _)
      _ = 2 ^ a := by rw [← zpow_add₀ two_ne_zero]; congr 1; omega
      _ ≤ num := hnlow
  · rw [div_lt_iff₀ hd]
    calc (num : ℚ) < 2 ^ (a + 1) := hnhigh
      _ = 2 ^ (a - b + 1) * 2 ^ b := by rw [← zpow_add₀ two_ne_zero]; congr 1; omega
      _ ≤ 2 ^ (a - b + 1) * den := mul_le_mul_of_nonneg_left hdlow (two_zpow_pos _).le

/-- The exponent that is guessed is right, or one too small. -/
theorem exists_exponent {n d : Nat} {x : ℚ} {g : Int} (hd : 0 < d) (hx : (n : ℚ) / d = x / 2 ^ g)
    (hlow : 2 ^ 52 * 2 ^ g < x) (hhigh : x < 2 ^ 54 * 2 ^ g) :
    ∃ k, (if n / d < Nat.pow 2 53 then g else g + 1) = k ∧ x < 2 ^ 53 * 2 ^ k ∧
      2 ^ 52 * 2 ^ k ≤ x := by
  have hdiv : n / d < Nat.pow 2 53 ↔ x < 2 ^ 53 * 2 ^ g := by
    have hq : (0 : ℚ) < d := by exact_mod_cast hd
    rw [Nat.div_lt_iff_lt_mul hd, ← div_lt_iff₀ (two_zpow_pos g), ← hx, div_lt_iff₀ hq]
    norm_cast
  split
  next h => exact ⟨g, rfl, hdiv.1 h, hlow.le⟩
  next h =>
    have hge := le_of_not_gt (mt hdiv.2 h)
    refine ⟨g + 1, rfl, ?_, ?_⟩
    · rw [zpow_add_one₀ two_ne_zero]
      linarith
    · rw [zpow_add_one₀ two_ne_zero]
      linarith

theorem scaled_exponentFor {num den : Nat} (hnum : 0 < num) (hden : 0 < den) :
    Scaled ((num : ℚ) / den) (exponentFor num den) := by
  obtain ⟨hlow, hhigh⟩ := bounds_of_log2 hnum hden
  unfold exponentFor
  dsimp only
  generalize hg : (num.log2 : Int) - den.log2 - 53 = g
  obtain ⟨hd, hscaled⟩ := scaleTwo_spec num hden g
  have hlow : 2 ^ 52 * 2 ^ g < (num : ℚ) / den := by
    rw [two_pow_mul_zpow]
    convert hlow using 2
    push_cast
    omega
  have hhigh : (num : ℚ) / den < 2 ^ 54 * 2 ^ g := by
    rw [two_pow_mul_zpow]
    convert hhigh using 2
    push_cast
    omega
  obtain ⟨k, hk, hlt, hfull⟩ := exists_exponent hd hscaled hlow hhigh
  rw [hk]
  refine ⟨le_max_right k _, ?_, ?_⟩
  · refine hlt.trans_le (mul_le_mul_of_nonneg_left ?_ (by positivity))
    exact zpow_le_zpow_right₀ (by norm_num) (le_max_left k _)
  · rcases le_total k (-1074) with h | h
    · exact .inl (max_eq_right h)
    · exact .inr (by rwa [max_eq_left h])

/-! ### Rounding -/

/-- The fractions around `m * 2 ^ e` that lie nearer to it than to the numbers next to it, or
    half-way when the mantissa is even.  Below a power of two the next number is nearer. -/
structure Rounds (m : Nat) (e : Int) (x : ℚ) : Prop where
  low : (m - 1 / 2) * 2 ^ e ≤ x
  high : x ≤ (m + 1 / 2) * 2 ^ e
  odd : m % 2 = 1 → (m - 1 / 2) * 2 ^ e < x ∧ x < (m + 1 / 2) * 2 ^ e
  first : m = 2 ^ 52 → -1074 < e → (m - 1 / 4) * 2 ^ e ≤ x

/-- What a fraction is rounded to: the whole number at its exponent, unless that takes a bit
    more. -/
theorem exists_of_ofRatio {num den m : Nat} {e : Int} (hden : 0 < den)
    (h : Binary64.ofRatio num den = .finite m e) :
    ∃ r, Near ((num : ℚ) / den / 2 ^ exponentFor num den) r ∧ m ≠ 0 ∧ e ≤ 971 ∧
      (r = 2 ^ 53 ∧ m = 2 ^ 52 ∧ e = exponentFor num den + 1 ∨
        r ≠ 2 ^ 53 ∧ m = r ∧ e = exponentFor num den) := by
  unfold Binary64.ofRatio at h
  dsimp only at h
  obtain ⟨hd, hscaled⟩ := scaleTwo_spec num hden (exponentFor num den)
  have hnear := near_roundDiv (scaleTwo num den (exponentFor num den)).1 hd
  rw [hscaled] at hnear
  refine ⟨_, hnear, ?_⟩
  generalize roundDiv _ _ = r at *
  have hpow : Nat.pow 2 53 = 2 ^ 53 ∧ Nat.pow 2 52 = 2 ^ 52 := ⟨rfl, rfl⟩
  rw [hpow.1, hpow.2] at h
  by_cases hcarry : r = 2 ^ 53
  · rw [if_pos hcarry, if_neg (by norm_num)] at h
    split at h
    next => cases h
    next hrange =>
      obtain ⟨rfl, rfl⟩ := Binary64.finite.inj h
      exact ⟨by norm_num, not_lt.1 hrange, .inl ⟨hcarry, rfl, rfl⟩⟩
  · rw [if_neg hcarry] at h
    split at h
    next => cases h
    next hzero =>
      split at h
      next => cases h
      next hrange =>
        obtain ⟨rfl, rfl⟩ := Binary64.finite.inj h
        exact ⟨hzero, not_lt.1 hrange, .inr ⟨hcarry, rfl, rfl⟩⟩

/-- At its exponent, a fraction takes up to 53 bits, and all of them if the format goes on. -/
theorem Scaled.bounds {x : ℚ} {k : Int} {r : Nat} (hx : Scaled x k) (hr : Near (x / 2 ^ k) r) :
    r ≤ 2 ^ 53 ∧ (2 ^ 52 ≤ r ∨ k = -1074) := by
  obtain ⟨⟨hlow, hhigh⟩, -⟩ := hr
  constructor
  · have hlt := (div_lt_iff₀ (two_zpow_pos k)).2 hx.lt
    have : (r : ℚ) < 2 ^ 53 + 1 := by linarith
    have : r < 2 ^ 53 + 1 := by exact_mod_cast this
    omega
  · refine hx.full.symm.imp_left fun hfull => ?_
    have hge := (le_div_iff₀ (two_zpow_pos k)).2 hfull
    have : (2 ^ 52 : ℚ) < r + 1 := by linarith
    have : 2 ^ 52 < r + 1 := by exact_mod_cast this
    omega

/-- What a fraction is rounded to is a number of the format. -/
theorem canonical_of_ofRatio {num den m : Nat} {e : Int} (hnum : 0 < num) (hden : 0 < den)
    (h : Binary64.ofRatio num den = .finite m e) : Canonical m e := by
  have hscaled := scaled_exponentFor hnum hden
  have hlow := hscaled.low
  obtain ⟨r, hnear, hzero, hhigh, ⟨-, rfl, rfl⟩ | ⟨hne, rfl, rfl⟩⟩ := exists_of_ofRatio hden h
  · exact ⟨by norm_num, by norm_num, by omega, hhigh, .inl le_rfl⟩
  · obtain ⟨hle, hfull⟩ := hscaled.bounds hnear
    exact ⟨Nat.pos_of_ne_zero hzero, lt_of_le_of_ne hle hne, hlow, hhigh, hfull⟩

/-- A fraction that rounds to a number is rounded at its exponent, or, just below a power of two, at
    the exponent before. -/
theorem Rounds.exponent {m : Nat} {e k : Int} {x : ℚ} (hc : Canonical m e) (hx : Rounds m e x)
    (hk : Scaled x k) : k = e ∨ k + 1 = e ∧ m = 2 ^ 52 := by
  have hm : (m : ℚ) + 1 ≤ 2 ^ 53 := by exact_mod_cast hc.lt
  have hpos := two_zpow_pos e
  rcases lt_trichotomy k e with hlt | heq | hgt
  · -- below its exponent the number has all its bits, and only the first of them
    have hstep : (2 : ℚ) ^ (k + 1) ≤ 2 ^ e := zpow_le_zpow_right₀ (by norm_num) (by omega)
    rw [zpow_add_one₀ two_ne_zero] at hstep
    have hbelow : x < 2 ^ 52 * 2 ^ e := by linarith [hk.lt]
    have hfull : 2 ^ 52 ≤ m := hc.full.resolve_right (by have := hk.low; omega)
    have hfirst : m = 2 ^ 52 := by
      by_contra hne
      have hmore : (2 ^ 52 + 1 : ℚ) ≤ m := by exact_mod_cast (show 2 ^ 52 + 1 ≤ m by omega)
      have hhalf : (2 ^ 52 : ℚ) * 2 ^ e ≤ (m - 1 / 2) * 2 ^ e :=
        mul_le_mul_of_nonneg_right (by linarith) hpos.le
      linarith [hx.low]
    refine .inr ⟨?_, hfirst⟩
    by_contra hne
    have hstep : (2 : ℚ) ^ (k + 2) ≤ 2 ^ e := zpow_le_zpow_right₀ (by norm_num) (by omega)
    have hquarter := hx.low
    rw [hfirst] at hquarter
    rw [zpow_add₀ two_ne_zero] at hstep
    push_cast at hquarter
    norm_num at hstep
    linarith [hk.lt]
  · exact .inl heq
  · -- beyond its exponent the fraction would be too large
    have hstep : (2 : ℚ) ^ (e + 1) ≤ 2 ^ k := zpow_le_zpow_right₀ (by norm_num) (by omega)
    rw [zpow_add_one₀ two_ne_zero] at hstep
    have hfull := hk.full.resolve_left (by have := hc.low; omega)
    have hhalf : (m + 1 / 2 : ℚ) * 2 ^ e ≤ (2 ^ 53 - 1 / 2) * 2 ^ e :=
      mul_le_mul_of_nonneg_right (by linarith) hpos.le
    linarith [hx.high]

theorem Rounds.near {m : Nat} {e : Int} {x : ℚ} (hx : Rounds m e x) : Near (x / 2 ^ e) m := by
  have hpos := two_zpow_pos e
  refine ⟨⟨(le_div_iff₀ hpos).2 hx.low, (div_le_iff₀ hpos).2 hx.high⟩, ?_⟩
  rcases Nat.mod_two_eq_zero_or_one m with heven | hodd
  · exact .inl heven
  · exact .inr ⟨(lt_div_iff₀ hpos).2 (hx.odd hodd).1, (div_lt_iff₀ hpos).2 (hx.odd hodd).2⟩

/-- Just below a power of two, at the exponent before, the mantissa takes a bit more. -/
theorem Rounds.near_carry {k : Int} {x : ℚ} (hx : Rounds (2 ^ 52) (k + 1) x) (hk : Scaled x k) :
    Near (x / 2 ^ k) (2 ^ 53) := by
  have hpos := two_zpow_pos k
  have hklow := hk.low
  have hlow := hx.first rfl (by omega)
  rw [zpow_add_one₀ two_ne_zero] at hlow
  refine ⟨⟨(le_div_iff₀ hpos).2 ?_, (div_le_iff₀ hpos).2 ?_⟩, .inl rfl⟩
  · push_cast at hlow ⊢
    linarith
  · push_cast
    linarith [hk.lt]

/-- **A fraction is rounded to the number in whose interval it lies.** -/
theorem ofRatio_of_rounds {num den m : Nat} {e : Int} (hnum : 0 < num) (hden : 0 < den)
    (hc : Canonical m e) (hx : Rounds m e ((num : ℚ) / den)) :
    Binary64.ofRatio num den = .finite m e := by
  have hk := scaled_exponentFor hnum hden
  unfold Binary64.ofRatio
  dsimp only
  generalize exponentFor num den = k at *
  obtain ⟨hd, hscaled⟩ := scaleTwo_spec num hden k
  have hpow : Nat.pow 2 53 = 2 ^ 53 ∧ Nat.pow 2 52 = 2 ^ 52 := ⟨rfl, rfl⟩
  rw [hpow.1, hpow.2]
  rcases hx.exponent hc hk with rfl | ⟨rfl, rfl⟩
  · rw [roundDiv_eq hd (hscaled ▸ hx.near), if_neg hc.lt.ne, if_neg hc.pos.ne',
      if_neg (not_lt.2 hc.high)]
  · have hhigh := hc.high
    rw [roundDiv_eq hd (hscaled ▸ hx.near_carry hk), if_pos rfl]
    simp only [Nat.reducePow, OfNat.ofNat_ne_zero, if_false]
    rw [if_neg (by omega)]

end LuaAudit.Number
