import LuaAudit.Number.Real
import LuaAudit.Proofs.Number.Binary64

/-!
# Shortest decimals read back

The decimal that is found for a number lies in its interval, so every decimal of the same value is
rounded to that number again.

* `Span.contains_iff`, `rounds_of_contains`: the interval in fractions;
* `ten_zpow_leading_le`: the leading digit is not beyond the number, `contains_nearest`: so that
  seventeen digits suffice;
* `rounds_shortest`: the decimal that is found lies in the interval;
* `Real.ofDecimal_eq`: it reads back, however it is written.
-/

namespace LuaAudit.Number

/-- The value of a decimal. -/
def decimalValue (digits : Nat) (exponent : Int) : ℚ := digits * 10 ^ exponent

theorem ten_zpow_pos (e : Int) : (0 : ℚ) < 10 ^ e := zpow_pos (by norm_num) e

/-- A power as a fraction of which the numerator or the denominator is one. -/
theorem pow_div_pow (b : Nat) (e : Int) :
    ((Nat.pow b e.toNat : Nat) : ℚ) / (Nat.pow b (-e).toNat : Nat) = (b : ℚ) ^ e := by
  rcases le_total 0 e with he | he
  · obtain ⟨k, rfl⟩ := Int.eq_ofNat_of_zero_le he
    simp
  · obtain ⟨k, hk⟩ := Int.eq_ofNat_of_zero_le (show 0 ≤ -e by omega)
    obtain rfl : e = -k := by omega
    simp

theorem powTen_spec (e : Int) : 0 < (powTen e).1 ∧ 0 < (powTen e).2 ∧
    ((powTen e).1 : ℚ) / (powTen e).2 = 10 ^ e :=
  ⟨Nat.pow_pos (by decide), Nat.pow_pos (by decide), pow_div_pow 10 e⟩

namespace Span

section Of

variable (m : Nat) (e : Int)

theorem of_spec : 0 < (Span.of m e).unit ∧ 0 < (Span.of m e).scale ∧
    ((Span.of m e).unit : ℚ) / (Span.of m e).scale = 2 ^ (e - 2) := by
  refine ⟨Nat.pow_pos (by decide), Nat.pow_pos (by decide), ?_⟩
  have h := pow_div_pow 2 (e - 2)
  rwa [show -(e - 2) = 2 - e by omega] at h

/-- A decimal lies in an interval when it lies between its ends, or on one that belongs to it. -/
theorem contains_iff (digits : Nat) (ex : Int) : (Span.of m e).contains digits ex = true ↔
    ((Span.of m e).low * 2 ^ (e - 2) ≤ decimalValue digits ex ∧
      decimalValue digits ex ≤ (Span.of m e).high * 2 ^ (e - 2)) ∧
    (m % 2 = 0 ∨ (Span.of m e).low * 2 ^ (e - 2) < decimalValue digits ex ∧
      decimalValue digits ex < (Span.of m e).high * 2 ^ (e - 2)) := by
  obtain ⟨hu, hs, hunit⟩ := of_spec m e
  obtain ⟨hp, hq, hten⟩ := powTen_spec ex
  have hclosed : (Span.of m e).closed = decide (m % 2 = 0) := rfl
  unfold contains
  dsimp only
  rw [hclosed, decimalValue, ← hunit, ← hten]
  generalize (powTen ex).1 = p at *
  generalize (powTen ex).2 = q at *
  generalize (Span.of m e).low = low at *
  generalize (Span.of m e).high = high at *
  generalize (Span.of m e).unit = u at *
  generalize (Span.of m e).scale = s at *
  have hq' : (0 : ℚ) < q := by exact_mod_cast hq
  have hs' : (0 : ℚ) < s := by exact_mod_cast hs
  -- both sides multiplied by the denominators
  have hle (a b : Nat) : (a : ℚ) * (u / s) ≤ b * (p / q) ↔ a * u * q ≤ b * p * s := by
    rw [← mul_div_assoc, ← mul_div_assoc, div_le_div_iff₀ hs' hq']
    exact_mod_cast Iff.rfl
  have hle' (a b : Nat) : (b : ℚ) * (p / q) ≤ a * (u / s) ↔ b * p * s ≤ a * u * q := by
    rw [← mul_div_assoc, ← mul_div_assoc, div_le_div_iff₀ hq' hs']
    exact_mod_cast Iff.rfl
  rw [hle, hle', lt_iff_lt_of_le_iff_le (hle' low digits), lt_iff_lt_of_le_iff_le (hle high digits)]
  by_cases hm : m % 2 = 0
  · simp [hm]
  · simp only [hm, decide_false, Bool.false_eq_true, if_false, false_or, Bool.and_eq_true,
      decide_eq_true_eq]
    omega

end Of

variable {m : Nat} {e : Int}

theorem two_zpow_sub_two (e : Int) : (2 : ℚ) ^ (e - 2) = 2 ^ e / 4 := by
  rw [zpow_sub₀ two_ne_zero]
  norm_num

theorem high_of (m : Nat) (e : Int) : ((Span.of m e).high : ℚ) = 4 * m + 2 := by
  unfold Span.of
  push_cast
  rfl

/-- The lower end of an interval. -/
theorem low_of (hc : Canonical m e) : ((Span.of m e).low : ℚ) =
    if m = 2 ^ 52 ∧ -1074 < e then (4 * m - 1 : ℚ) else 4 * m - 2 := by
  have hpos := hc.pos
  have hpow : Nat.pow 2 52 = 2 ^ 52 := rfl
  unfold Span.of
  dsimp only
  rw [hpow]
  split
  · rw [Nat.cast_sub (by omega)]
    push_cast
    rfl
  · rw [Nat.cast_sub (by omega)]
    push_cast
    rfl

/-- A decimal in the interval of a number rounds to it. -/
theorem rounds_of_contains (hc : Canonical m e) {digits : Nat} {ex : Int}
    (h : (Span.of m e).contains digits ex = true) : Rounds m e (decimalValue digits ex) := by
  obtain ⟨⟨hlow, hhigh⟩, hodd⟩ := (contains_iff m e digits ex).1 h
  have hpos := two_zpow_pos e
  rw [low_of hc] at hlow hodd
  rw [high_of] at hhigh hodd
  simp only [two_zpow_sub_two] at hlow hhigh hodd
  generalize decimalValue digits ex = x at *
  by_cases hfirst : m = 2 ^ 52 ∧ -1074 < e
  · rw [if_pos hfirst] at hlow
    refine ⟨by linarith, by linarith, fun h => ?_, fun _ _ => by linarith⟩
    omega
  · rw [if_neg hfirst] at hlow hodd
    refine ⟨by linarith, by linarith, fun h => ?_, fun h h' => absurd ⟨h, h'⟩ hfirst⟩
    obtain ⟨hlow, hhigh⟩ := hodd.resolve_left (by omega)
    exact ⟨by linarith, by linarith⟩

/-! ### Seventeen digits -/

/-- The middle of an interval is the number. -/
theorem middle_of (m : Nat) (e : Int) :
    (((Span.of m e).value * (Span.of m e).unit : Nat) : ℚ) / (Span.of m e).scale = m * 2 ^ e := by
  obtain ⟨-, -, hunit⟩ := of_spec m e
  have hvalue : (Span.of m e).value = 4 * m := rfl
  rw [hvalue, Nat.cast_mul, mul_div_assoc, hunit, two_zpow_sub_two]
  push_cast
  ring

/-- The middle of an interval over a power of ten. -/
theorem middle_div (m : Nat) (e ex : Int) :
    0 < (powTen ex).1 * (Span.of m e).scale ∧
      (((Span.of m e).value * (Span.of m e).unit * (powTen ex).2 : Nat) : ℚ) /
        ((powTen ex).1 * (Span.of m e).scale : Nat) = m * 2 ^ e / 10 ^ ex := by
  obtain ⟨-, hs, -⟩ := of_spec m e
  obtain ⟨hp, hq, hten⟩ := powTen_spec ex
  refine ⟨Nat.mul_pos hp hs, ?_⟩
  rw [← middle_of, ← hten, div_div_div_eq, Nat.cast_mul _ (powTen ex).2, Nat.cast_mul (powTen ex).1,
    mul_comm (Nat.cast (powTen ex).1)]

/-- The guess for the leading digit is never beyond the number. -/
theorem ten_zpow_guess_le {g : Int} (hlow : -1100 < g) (hhigh : g < 1100) :
    (10 : ℚ) ^ (g * 30103 / 100000) ≤ 2 ^ g := by
  rcases le_total 0 g with hg | hg
  · obtain ⟨k, rfl⟩ := Int.eq_ofNat_of_zero_le hg
    have hall : ∀ k < 1100, 10 ^ (k * 30103 / 100000) ≤ 2 ^ k := by decide +kernel
    have hk := hall k (by omega)
    exact_mod_cast hk
  · obtain ⟨k, hk⟩ := Int.eq_ofNat_of_zero_le (show 0 ≤ -g by omega)
    obtain rfl : g = -k := by omega
    have hall : ∀ k < 1100, 2 ^ k ≤ 10 ^ ((k * 30103 + 99999) / 100000) := by decide +kernel
    have hk := hall k (by omega)
    have hexp : -(k : Int) * 30103 / 100000 = -((k * 30103 + 99999) / 100000 : Nat) := by omega
    rw [hexp, zpow_neg, zpow_neg, zpow_natCast, zpow_natCast]
    exact inv_anti₀ (by positivity) (by exact_mod_cast hk)

/-- The lengths of the middle of an interval give the exponent of two before it. -/
theorem two_zpow_log2_le (hc : Canonical m e) {g : Int}
    (hg : (((Span.of m e).value * (Span.of m e).unit).log2 : Int) - (Span.of m e).scale.log2 = g) :
    (2 : ℚ) ^ g ≤ m * 2 ^ e ∧ m * 2 ^ e < (2 : ℚ) ^ (g + 1) := by
  obtain ⟨hu, hs, -⟩ := of_spec m e
  have hvalue : (Span.of m e).value = 4 * m := rfl
  have hscale : ((Span.of m e).scale : ℚ) = 2 ^ ((Span.of m e).scale.log2 : Int) := by
    unfold Span.of
    dsimp only
    rw [Nat.pow_eq, Nat.log2_two_pow, zpow_natCast]
    push_cast
    rfl
  have hne : (Span.of m e).value * (Span.of m e).unit ≠ 0 := by
    rw [hvalue]
    have := hc.pos
    positivity
  rw [← middle_of]
  generalize (Span.of m e).value * (Span.of m e).unit = a at *
  obtain ⟨hlow, hhigh⟩ := two_zpow_log2 hne
  have hpos := two_zpow_pos ((Span.of m e).scale.log2 : Int)
  rw [hscale, le_div_iff₀ hpos, div_lt_iff₀ hpos, ← zpow_add₀ two_ne_zero, ← zpow_add₀ two_ne_zero]
  constructor
  · rwa [show g + ((Span.of m e).scale.log2 : Int) = a.log2 by omega]
  · rwa [show g + 1 + ((Span.of m e).scale.log2 : Int) = a.log2 + 1 by omega]

/-- The exponents of two before the numbers of the format. -/
theorem exponent_bounds (hc : Canonical m e) {g : Int} (hlow : (2 : ℚ) ^ g ≤ m * 2 ^ e)
    (hhigh : m * 2 ^ e < (2 : ℚ) ^ (g + 1)) : -1100 < g ∧ g < 1100 := by
  constructor
  · have hm : (1 : ℚ) ≤ m := by exact_mod_cast hc.pos
    have hleast : (2 : ℚ) ^ (-1074 : Int) ≤ 2 ^ e := zpow_le_zpow_right₀ (by norm_num) hc.low
    have hstep : (2 : ℚ) ^ (-1074 : Int) < 2 ^ (g + 1) :=
      calc (2 : ℚ) ^ (-1074 : Int) ≤ 2 ^ e := hleast
        _ ≤ m * 2 ^ e := le_mul_of_one_le_left (two_zpow_pos e).le hm
        _ < 2 ^ (g + 1) := hhigh
    have := (zpow_lt_zpow_iff_right₀ (by norm_num : (1 : ℚ) < 2)).1 hstep
    omega
  · have hm : (m : ℚ) < 2 ^ 53 := by exact_mod_cast hc.lt
    have hmost : (2 : ℚ) ^ e ≤ 2 ^ (971 : Int) := zpow_le_zpow_right₀ (by norm_num) hc.high
    have hstep : (2 : ℚ) ^ g < 2 ^ (1024 : Int) :=
      calc (2 : ℚ) ^ g ≤ m * 2 ^ e := hlow
        _ < 2 ^ 53 * 2 ^ (971 : Int) := mul_lt_mul hm hmost (two_zpow_pos e) (by positivity)
        _ = 2 ^ (1024 : Int) := two_pow_mul_zpow 53 971
    have := (zpow_lt_zpow_iff_right₀ (by norm_num : (1 : ℚ) < 2)).1 hstep
    omega

theorem ten_zpow_leading_le (hc : Canonical m e) :
    (10 : ℚ) ^ (Span.of m e).leading ≤ m * 2 ^ e := by
  unfold leading
  dsimp only
  generalize hg : (((Span.of m e).value * (Span.of m e).unit).log2 : Int) -
    (Span.of m e).scale.log2 = g
  obtain ⟨hlow, hhigh⟩ := two_zpow_log2_le hc hg
  generalize hfind : List.find? _ _ = found
  cases found with
  | some ex =>
    -- the exponent that was found is one whose power is not beyond the number
    have hcovers := List.find?_some hfind
    obtain ⟨hden, hmiddle⟩ := middle_div m e ex
    simp only [Bool.and_eq_true, decide_eq_true_eq] at hcovers
    rw [Option.getD_some, ← one_le_div (ten_zpow_pos ex), ← hmiddle,
      one_le_div (by exact_mod_cast hden)]
    exact_mod_cast hcovers.1
  | none =>
    obtain ⟨hleast, hmost⟩ := exponent_bounds hc hlow hhigh
    rw [Option.getD_none]
    exact (ten_zpow_guess_le hleast hmost).trans hlow

/-- With the place of the seventeenth digit, the nearest decimal lies in the interval. -/
theorem contains_nearest (hc : Canonical m e) {leading : Int} (h : (10 : ℚ) ^ leading ≤ m * 2 ^ e) :
    (Span.of m e).contains (roundDiv
      ((Span.of m e).value * (Span.of m e).unit * (powTen (leading - 16)).2)
      ((powTen (leading - 16)).1 * (Span.of m e).scale)) (leading - 16) = true := by
  obtain ⟨hden, hmiddle⟩ := middle_div m e (leading - 16)
  obtain ⟨⟨hlow, hhigh⟩, -⟩ := near_roundDiv
    ((Span.of m e).value * (Span.of m e).unit * (powTen (leading - 16)).2) hden
  generalize roundDiv _ _ = best at *
  rw [hmiddle] at hlow hhigh
  have hplace := ten_zpow_pos (leading - 16)
  have hstep : (10 : ℚ) ^ (leading - 16) * 10 ^ 16 ≤ m * 2 ^ e := by
    rw [zpow_sub₀ (by norm_num)]
    norm_num
    exact h
  have hhigh := (div_le_iff₀ hplace).1 hhigh
  have hlow := (le_div_iff₀ hplace).1 hlow
  have hpos := two_zpow_pos e
  have hm : (m : ℚ) * 2 ^ e < 2 ^ 53 * 2 ^ e :=
    mul_lt_mul_of_pos_right (by exact_mod_cast hc.lt) hpos
  have hstrict : (Span.of m e).low * 2 ^ (e - 2) < decimalValue best (leading - 16) ∧
      decimalValue best (leading - 16) < (Span.of m e).high * 2 ^ (e - 2) := by
    rw [high_of, low_of hc, two_zpow_sub_two, decimalValue]
    refine ⟨?_, by linarith⟩
    split
    next hfirst =>
      rw [hfirst.1] at hstep hlow hhigh ⊢
      push_cast at hstep hlow hhigh ⊢
      linarith
    next => linarith
  exact (contains_iff m e best _).2 ⟨⟨hstrict.1.le, hstrict.2.le⟩, .inr hstrict⟩

theorem contains_of_nearest? {s : Span} {ex : Int} {digits : Nat}
    (h : s.nearest? ex = some digits) : s.contains digits ex = true := by
  unfold nearest? at h
  dsimp only at h
  generalize roundDiv _ _ = best at h
  generalize (if best = _ then _ else _) = other at h
  split at h
  next hbest => exact Option.some.inj h ▸ hbest
  next =>
    split at h
    next hother => exact Option.some.inj h ▸ hother
    next => cases h

/-- Every precision from seventeen digits down keeps what the precision before it found. -/
theorem contains_search (hc : Canonical m e) {leading : Int}
    (h : (10 : ℚ) ^ leading ≤ m * 2 ^ e) (fuel : Nat) :
    (Span.of m e).contains ((Span.of m e).search leading fuel).1
      ((Span.of m e).search leading fuel).2 = true := by
  induction fuel with
  | zero =>
    have hbest := contains_nearest hc h
    unfold search nearest?
    dsimp only
    rw [if_pos hbest]
    exact hbest
  | succ fuel ih =>
    unfold search
    dsimp only
    split
    next digits hsome => exact contains_of_nearest? hsome
    next => exact ih

end Span

theorem decimalValue_dropZeros (fuel digits : Nat) (ex : Int) :
    decimalValue (dropZeros fuel digits ex).1 (dropZeros fuel digits ex).2 =
      decimalValue digits ex := by
  fun_induction dropZeros fuel digits ex with
  | case1 digits ex => rfl
  | case2 fuel digits ex h ih =>
    rw [ih]
    have hsplit : (digits : ℚ) = 10 * (digits / 10 : Nat) := by
      exact_mod_cast (show digits = 10 * (digits / 10) by omega)
    unfold decimalValue
    rw [zpow_add_one₀ (by norm_num)]
    calc ((digits / 10 : Nat) : ℚ) * (10 ^ ex * 10) = 10 * (digits / 10 : Nat) * 10 ^ ex := by ring
      _ = digits * 10 ^ ex := by rw [← hsplit]
  | case3 fuel digits ex h => rfl

/-- **The shortest decimal of a number lies in its interval.** -/
theorem rounds_shortest {m : Nat} {e : Int} (hc : Canonical m e) :
    Rounds m e (decimalValue (shortest m e).1 (shortest m e).2) := by
  unfold shortest
  dsimp only
  rw [decimalValue_dropZeros]
  exact Span.rounds_of_contains hc (Span.contains_search hc (Span.ten_zpow_leading_le hc) 16)

/-! ### Reading decimals -/

/-- The digits of a number bound it. -/
theorem bounds_of_digitCount {n : Nat} (hn : n ≠ 0) :
    (10 : ℚ) ^ ((digitCount n : Int) - 1) ≤ n ∧ (n : ℚ) < 10 ^ (digitCount n : Int) := by
  unfold digitCount
  have hpos : 0 < (Nat.toDigits 10 n).length := Nat.length_toDigits_pos
  constructor
  · obtain ⟨k, hk⟩ : ∃ k, (Nat.toDigits 10 n).length = k + 1 := ⟨_, (Nat.succ_pred hpos.ne').symm⟩
    rw [hk]
    have hle : 10 ^ k ≤ n := by
      rcases Nat.eq_zero_or_pos k with rfl | hk0
      · exact Nat.one_le_iff_ne_zero.2 hn
      by_contra hlt
      have := (Nat.length_toDigits_le_iff (by decide) hk0).2 (Nat.lt_of_not_le hlt)
      omega
    push_cast
    rw [add_sub_cancel_right, zpow_natCast]
    exact_mod_cast hle
  · rw [zpow_natCast]
    exact_mod_cast (Nat.length_toDigits_le_iff (by decide) hpos).1 le_rfl

/-- A decimal is rounded as a fraction, unless its size alone decides. -/
theorem ofDecimal_eq_ofRatio {digits : Nat} (ex : Int) (hd : digits ≠ 0) :
    ∃ num den : Nat, 0 < num ∧ 0 < den ∧ (num : ℚ) / den = decimalValue digits ex ∧
      Binary64.ofDecimal digits ex =
        if 310 < (digitCount digits : Int) + ex then .infinite
        else if (digitCount digits : Int) + ex < -330 then .zero else .ofRatio num den := by
  unfold Binary64.ofDecimal decimalValue
  rw [if_neg hd]
  dsimp only
  rcases le_or_gt 0 ex with hex | hex
  · obtain ⟨k, rfl⟩ := Int.eq_ofNat_of_zero_le hex
    refine ⟨digits * Nat.pow 10 k, 1, Nat.mul_pos (by omega) (Nat.pow_pos (by decide)),
      by decide, by simp, ?_⟩
    simp
  · obtain ⟨k, hk⟩ := Int.eq_ofNat_of_zero_le (show 0 ≤ -ex by omega)
    obtain rfl : ex = -k := by omega
    refine ⟨digits, Nat.pow 10 k, by omega, Nat.pow_pos (by decide), by simp [div_eq_mul_inv], ?_⟩
    rw [if_neg (not_le.2 hex)]
    simp

theorem canonical_of_ofDecimal {digits m : Nat} {ex e : Int}
    (h : Binary64.ofDecimal digits ex = .finite m e) : Canonical m e := by
  by_cases hd : digits = 0
  · rw [hd] at h
    cases h
  obtain ⟨num, den, hnum, hden, -, heq⟩ := ofDecimal_eq_ofRatio ex hd
  rw [heq] at h
  split at h
  next => cases h
  next =>
    split at h
    next => cases h
    next => exact canonical_of_ofRatio hnum hden h

/-- The least and the greatest fractions that round to a number of the format. -/
theorem Rounds.bounds {m : Nat} {e : Int} {x : ℚ} (hc : Canonical m e) (hx : Rounds m e x) :
    (2 : ℚ) ^ (-1075 : Int) ≤ x ∧ x < 2 ^ (1024 : Int) := by
  have hone : (1 : ℚ) ≤ m := by exact_mod_cast hc.pos
  have hm : (m : ℚ) + 1 ≤ 2 ^ 53 := by exact_mod_cast hc.lt
  constructor
  · calc (2 : ℚ) ^ (-1075 : Int) = 1 / 2 * 2 ^ (-1074 : Int) := by
          rw [show (-1075 : Int) = -1074 - 1 by rfl, zpow_sub_one₀ two_ne_zero]
          ring
      _ ≤ (m - 1 / 2) * 2 ^ e := mul_le_mul (by linarith)
          (zpow_le_zpow_right₀ (by norm_num) hc.low) (two_zpow_pos _).le (by linarith)
      _ ≤ x := hx.low
  · calc x ≤ (m + 1 / 2) * 2 ^ e := hx.high
      _ < 2 ^ 53 * 2 ^ (971 : Int) := mul_lt_mul (by linarith)
          (zpow_le_zpow_right₀ (by norm_num) hc.high) (two_zpow_pos _) (by positivity)
      _ = 2 ^ (1024 : Int) := two_pow_mul_zpow 53 971

/-- Within those bounds the size of a decimal does not decide. -/
theorem size_bounds {digits : Nat} {ex : Int} (hd : digits ≠ 0)
    (hlow : (2 : ℚ) ^ (-1075 : Int) ≤ decimalValue digits ex)
    (hhigh : decimalValue digits ex < 2 ^ (1024 : Int)) :
    -330 ≤ (digitCount digits : Int) + ex ∧ (digitCount digits : Int) + ex ≤ 310 := by
  obtain ⟨hcount, hcount'⟩ := bounds_of_digitCount hd
  have hten : (1 : ℚ) < 10 := by norm_num
  constructor
  · have hsmall : (10 : ℚ) ^ (-330 : Int) < 10 ^ ((digitCount digits : Int) + ex) := by
      calc (10 : ℚ) ^ (-330 : Int) < 2 ^ (-1075 : Int) := by
            have : 2 ^ 1075 < 10 ^ 330 := by decide +kernel
            rw [zpow_neg, zpow_neg]
            exact inv_strictAnti₀ (by positivity) (by exact_mod_cast this)
        _ ≤ decimalValue digits ex := hlow
        _ < 10 ^ (digitCount digits : Int) * 10 ^ ex :=
          mul_lt_mul_of_pos_right hcount' (ten_zpow_pos ex)
        _ = 10 ^ ((digitCount digits : Int) + ex) := (zpow_add₀ (by norm_num) _ _).symm
    exact ((zpow_lt_zpow_iff_right₀ hten).1 hsmall).le
  · have hlarge : (10 : ℚ) ^ ((digitCount digits : Int) - 1 + ex) < 10 ^ (309 : Int) := by
      calc (10 : ℚ) ^ ((digitCount digits : Int) - 1 + ex)
          = 10 ^ ((digitCount digits : Int) - 1) * 10 ^ ex := zpow_add₀ (by norm_num) _ _
        _ ≤ decimalValue digits ex := mul_le_mul_of_nonneg_right hcount (ten_zpow_pos ex).le
        _ < 2 ^ (1024 : Int) := hhigh
        _ < 10 ^ (309 : Int) := by
          have : 2 ^ 1024 < 10 ^ 309 := by decide +kernel
          exact_mod_cast this
    have := (zpow_lt_zpow_iff_right₀ hten).1 hlarge
    omega

/-- A decimal in the interval of a number is read as that number. -/
theorem ofDecimal_of_rounds {digits m : Nat} {ex e : Int} (hc : Canonical m e)
    (hx : Rounds m e (decimalValue digits ex)) : Binary64.ofDecimal digits ex = .finite m e := by
  obtain ⟨hlow, hhigh⟩ := hx.bounds hc
  have hd : digits ≠ 0 := by
    rintro rfl
    rw [decimalValue, Nat.cast_zero, zero_mul] at hlow
    linarith [two_zpow_pos (-1075)]
  obtain ⟨hleast, hmost⟩ := size_bounds hd hlow hhigh
  obtain ⟨num, den, hnum, hden, hval, heq⟩ := ofDecimal_eq_ofRatio ex hd
  rw [heq, if_neg (not_lt.2 hmost), if_neg (not_lt.2 hleast)]
  exact ofRatio_of_rounds hnum hden hc (hval ▸ hx)

/-- **A number reads back from its decimal, with whatever digits and exponent that is written.** -/
theorem Real.ofDecimal_eq {negative negative' : Bool} {d digits digits' : Nat}
    {ex exponent exponent' : Int}
    (h : Real.ofDecimal negative d ex = .finite negative' digits exponent)
    (hvalue : decimalValue digits' exponent' = decimalValue digits exponent) :
    Real.ofDecimal negative' digits' exponent' = .finite negative' digits exponent := by
  unfold Real.ofDecimal at h
  split at h
  next =>
    obtain ⟨rfl, rfl, rfl⟩ := Real.finite.inj h
    have hzero : digits' = 0 := by
      have := ten_zpow_pos exponent'
      simpa [decimalValue, this.ne'] using hvalue
    rw [hzero]
    rfl
  next => cases h
  next m e heq =>
    have hc := canonical_of_ofDecimal heq
    dsimp only at h
    obtain ⟨rfl, rfl, rfl⟩ := Real.finite.inj h
    unfold Real.ofDecimal
    rw [ofDecimal_of_rounds hc (hvalue ▸ rounds_shortest hc)]

end LuaAudit.Number
