import Mathlib.Algebra.Order.Field.Power
import Mathlib.Data.Rat.Cast.Order
import Mathlib.Tactic.FieldSimp
import Mathlib.Tactic.Linarith
import Mathlib.Tactic.NormNum
import Mathlib.Tactic.Positivity
import Mathlib.Tactic.Ring
import SlotStore.Binary

/-!
Rounding is monotone: a larger fraction is not rounded to a smaller number. So the quotient of two
counts in single precision is below one only where the first count is below the second.
-/

namespace SlotStore

theorem natPow_eq (base exponent : Nat) : Nat.pow base exponent = base ^ exponent := rfl

namespace Binary

/-- The number that a finite value stands for. -/
def number (negative : Bool) (significand : Nat) (exponent : Int) : ℚ :=
  (if negative then -1 else 1) * (significand * 2 ^ exponent)

theorem scaled_eq (negative : Bool) (significand : Nat) {exponent base : Int}
    (low : base ≤ exponent) :
    (scaled negative significand exponent base : ℚ) =
      number negative significand exponent / 2 ^ base := by
  have shift : ((2 : ℚ) ^ (exponent - base).toNat) = 2 ^ exponent / 2 ^ base := by
    rw [← zpow_natCast, Int.toNat_of_nonneg (by omega), zpow_sub₀ (by norm_num)]
  cases negative <;>
    simp only [scaled, number, natPow_eq, if_true, Bool.false_eq_true, if_false] <;>
    push_cast <;> rw [shift] <;> ring

theorem lt_finite_iff {leftSign rightSign : Bool} {left right : Nat} {leftExp rightExp : Int} :
    (finite leftSign left leftExp).lt (finite rightSign right rightExp) = true ↔
      number leftSign left leftExp < number rightSign right rightExp := by
  have positive : (0 : ℚ) < 2 ^ min leftExp rightExp := zpow_pos (by norm_num) _
  simp only [lt, decide_eq_true_eq]
  rw [← Int.cast_lt (R := ℚ), scaled_eq _ _ (Int.min_le_left _ _), scaled_eq _ _ (Int.min_le_right _ _),
    div_lt_div_iff_of_pos_right positive]

theorem lt_finite_eq_false_iff {leftSign rightSign : Bool} {left right : Nat}
    {leftExp rightExp : Int} :
    (finite leftSign left leftExp).lt (finite rightSign right rightExp) = false ↔
      number rightSign right rightExp ≤ number leftSign left leftExp := by
  rw [Bool.eq_false_iff, ne_eq, lt_finite_iff, not_lt]

theorem number_nonneg (significand : Nat) (exponent : Int) :
    0 ≤ number false significand exponent := by
  simp only [number, Bool.false_eq_true, if_false, one_mul]
  positivity

theorem not_lt_trans {left middle right : Binary} (actual : middle ≠ .nan)
    (first : left.lt middle = false) (second : middle.lt right = false) : left.lt right = false := by
  cases left with
  | nan => rfl
  | infinite leftSign =>
    cases right with
    | nan => rfl
    | infinite rightSign =>
      cases middle with
      | nan => exact absurd rfl actual
      | infinite middleSign =>
        cases leftSign <;> cases middleSign <;> cases rightSign <;> simp_all [lt]
      | finite middleSign middle middleExp =>
        cases leftSign <;> cases rightSign <;> simp_all [lt]
    | finite rightSign right rightExp =>
      cases middle with
      | nan => exact absurd rfl actual
      | infinite middleSign => cases leftSign <;> cases middleSign <;> simp_all [lt]
      | finite middleSign middle middleExp => exact first
  | finite leftSign left leftExp =>
    cases right with
    | nan => rfl
    | infinite rightSign =>
      cases middle with
      | nan => exact absurd rfl actual
      | infinite middleSign => cases middleSign <;> cases rightSign <;> simp_all [lt]
      | finite middleSign middle middleExp => exact second
    | finite rightSign right rightExp =>
      cases middle with
      | nan => exact absurd rfl actual
      | infinite middleSign => cases middleSign <;> simp_all [lt]
      | finite middleSign middle middleExp =>
        rw [lt_finite_eq_false_iff] at first second ⊢
        exact le_trans second first

end Binary

theorem le_nearestEven_div (num den : Nat) : num / den ≤ nearestEven num den := by
  simp only [nearestEven]
  split
  · exact Nat.le_refl _
  · split
    · exact Nat.le_succ _
    · exact Nat.le_add_right _ _

theorem nearestEven_le_div (num den : Nat) : nearestEven num den ≤ num / den + 1 := by
  have parity : num / den % 2 ≤ 1 := by omega
  simp only [nearestEven]
  split
  · exact Nat.le_succ _
  · split
    · exact Nat.le_refl _
    · exact Nat.add_le_add_left parity _

theorem remainders_le {num den num' den' : Nat} (same : num / den = num' / den')
    (ordered : num * den' ≤ num' * den) : num % den * den' ≤ num' % den' * den := by
  have left : num * den' = den * (num / den) * den' + num % den * den' := by
    rw [← Nat.add_mul, Nat.div_add_mod]
  have right : num' * den = den' * (num' / den') * den + num' % den' * den := by
    rw [← Nat.add_mul, Nat.div_add_mod]
  have common : den * (num / den) * den' = den' * (num' / den') * den := by
    rw [same]
    ring
  omega

/-- Where the whole parts agree, what remains decides which way to round, and decides it alike. -/
theorem nearestEven_mono_of_same {num den num' den' : Nat} (positive : 0 < den)
    (positive' : 0 < den') (same : num / den = num' / den')
    (rests : num % den * den' ≤ num' % den' * den) :
    nearestEven num den ≤ nearestEven num' den' := by
  have above (more : den < 2 * (num % den)) : den' < 2 * (num' % den') := by
    refine Nat.lt_of_mul_lt_mul_left (a := den) ?_
    calc den * den' < 2 * (num % den) * den' := Nat.mul_lt_mul_of_pos_right more positive'
      _ = 2 * (num % den * den') := Nat.mul_assoc ..
      _ ≤ 2 * (num' % den' * den) := Nat.mul_le_mul_left 2 rests
      _ = den * (2 * (num' % den')) := by ring
  have middle (tie : den = 2 * (num % den)) : den' ≤ 2 * (num' % den') := by
    refine Nat.le_of_mul_le_mul_left ?_ positive
    calc den * den' = 2 * (num % den * den') := by rw [← Nat.mul_assoc, ← tie]
      _ ≤ 2 * (num' % den' * den) := Nat.mul_le_mul_left 2 rests
      _ = den * (2 * (num' % den')) := by ring
  rcases Nat.lt_trichotomy (2 * (num % den)) den with less | tie | more
  · have down : nearestEven num den = num / den := by
      simp only [nearestEven]
      rw [if_pos less]
    rw [down, same]
    exact le_nearestEven_div num' den'
  · have even : nearestEven num den = num / den + num / den % 2 := by
      simp only [nearestEven]
      rw [if_neg (by omega), if_neg (by omega)]
    have tie' := middle tie.symm
    have parity : num' / den' % 2 ≤ 1 := by omega
    rw [even, same]
    simp only [nearestEven]
    rw [if_neg (by omega)]
    split
    · exact Nat.add_le_add_left parity _
    · exact Nat.le_refl _
  · have up : nearestEven num' den' = num' / den' + 1 := by
      have more' := above more
      simp only [nearestEven]
      rw [if_neg (by omega), if_pos more']
    rw [up, ← same]
    exact nearestEven_le_div num den

/-- Rounding to the nearest whole number is monotone. -/
theorem nearestEven_mono {num den num' den' : Nat} (positive : 0 < den) (positive' : 0 < den')
    (ordered : num * den' ≤ num' * den) : nearestEven num den ≤ nearestEven num' den' := by
  have quotients : num / den ≤ num' / den' := by
    rw [Nat.le_div_iff_mul_le positive']
    refine Nat.le_of_mul_le_mul_right ?_ positive
    calc num / den * den' * den = den * (num / den) * den' := by ring
      _ ≤ num * den' := Nat.mul_le_mul_right _ (Nat.mul_div_le num den)
      _ ≤ num' * den := ordered
  rcases Nat.lt_or_eq_of_le quotients with less | same
  · calc nearestEven num den ≤ num / den + 1 := nearestEven_le_div num den
      _ ≤ num' / den' := less
      _ ≤ nearestEven num' den' := le_nearestEven_div num' den'
  · exact nearestEven_mono_of_same positive positive' same (remainders_le same ordered)

theorem nearestEven_one (num : Nat) : nearestEven num 1 = num := by
  simp [nearestEven, Nat.mod_one]

theorem le_nearestEven {num den whole : Nat} (positive : 0 < den) (below : whole * den ≤ num) :
    whole ≤ nearestEven num den := by
  have ordered : whole * den ≤ num * 1 := by omega
  have mono := nearestEven_mono Nat.one_pos positive ordered
  rwa [nearestEven_one] at mono

theorem nearestEven_le {num den whole : Nat} (positive : 0 < den) (above : num ≤ whole * den) :
    nearestEven num den ≤ whole := by
  have ordered : num * 1 ≤ whole * den := by omega
  have mono := nearestEven_mono positive Nat.one_pos ordered
  rwa [nearestEven_one] at mono

theorem shiftFraction_spec (num : Nat) {den : Nat} (positive : 0 < den) (exponent : Int) :
    0 < (shiftFraction num den exponent).2 ∧
      ((shiftFraction num den exponent).1 : ℚ) / (shiftFraction num den exponent).2 =
        (num : ℚ) / den / 2 ^ exponent := by
  have nonzero : (den : ℚ) ≠ 0 := by exact_mod_cast positive.ne'
  unfold shiftFraction
  split
  · rename_i up
    have power : (2 : ℚ) ^ exponent = 2 ^ exponent.toNat := by
      rw [← zpow_natCast, Int.toNat_of_nonneg up]
    refine ⟨Nat.mul_pos positive (Nat.pow_pos (by decide)), ?_⟩
    simp only [natPow_eq]
    push_cast
    rw [power]
    field_simp
  · rename_i down
    have power : (2 : ℚ) ^ exponent = (2 ^ (-exponent).toNat)⁻¹ := by
      rw [← zpow_natCast, Int.toNat_of_nonneg (by omega), zpow_neg, inv_inv]
    refine ⟨positive, ?_⟩
    simp only [natPow_eq]
    push_cast
    rw [power]
    field_simp

theorem le_shiftFraction_iff (num : Nat) {den : Nat} (positive : 0 < den) (exponent : Int) (whole : Nat) :
    whole * (shiftFraction num den exponent).2 ≤ (shiftFraction num den exponent).1 ↔
      (whole : ℚ) * 2 ^ exponent ≤ (num : ℚ) / den := by
  obtain ⟨below, value⟩ := shiftFraction_spec num positive exponent
  have cast : (0 : ℚ) < (shiftFraction num den exponent).2 := by exact_mod_cast below
  rw [← le_div_iff₀ (zpow_pos (by norm_num : (0 : ℚ) < 2) exponent), ← value, le_div_iff₀ cast]
  exact_mod_cast Iff.rfl

theorem shiftFraction_le_iff {num den : Nat} (positive : 0 < den) (exponent : Int) (whole : Nat) :
    (shiftFraction num den exponent).1 ≤ whole * (shiftFraction num den exponent).2 ↔
      (num : ℚ) / den ≤ (whole : ℚ) * 2 ^ exponent := by
  obtain ⟨below, value⟩ := shiftFraction_spec num positive exponent
  have cast : (0 : ℚ) < (shiftFraction num den exponent).2 := by exact_mod_cast below
  rw [← div_le_iff₀ (zpow_pos (by norm_num : (0 : ℚ) < 2) exponent), ← value, div_le_iff₀ cast]
  exact_mod_cast Iff.rfl

theorem leadingExponent_spec {num den : Nat} (some : num ≠ 0) (positive : 0 < den) :
    (2 : ℚ) ^ leadingExponent num den ≤ (num : ℚ) / den ∧
      (num : ℚ) / den < 2 ^ (leadingExponent num den + 1) := by
  have denSome : den ≠ 0 := positive.ne'
  have cast : (0 : ℚ) < den := by exact_mod_cast positive
  have low : (2 : ℚ) ^ num.log2 ≤ num := by exact_mod_cast Nat.log2_self_le some
  have high : (num : ℚ) < 2 ^ (num.log2 + 1) := by exact_mod_cast Nat.lt_log2_self
  have denLow : (2 : ℚ) ^ den.log2 ≤ den := by exact_mod_cast Nat.log2_self_le denSome
  have denHigh : (den : ℚ) < 2 ^ (den.log2 + 1) := by exact_mod_cast Nat.lt_log2_self
  have two : (2 : ℚ) ≠ 0 := by norm_num
  have upper : (num : ℚ) / den < 2 ^ ((num.log2 : Int) - den.log2 + 1) := by
    rw [div_lt_iff₀ cast]
    calc (num : ℚ) < 2 ^ (num.log2 + 1) := high
      _ = 2 ^ ((num.log2 : Int) - den.log2 + 1) * 2 ^ den.log2 := by
        rw [← zpow_natCast, ← zpow_natCast, ← zpow_add₀ two]
        congr 1
        push_cast
        ring
      _ ≤ _ := mul_le_mul_of_nonneg_left denLow (zpow_pos (by norm_num) _).le
  have lower : (2 : ℚ) ^ ((num.log2 : Int) - den.log2 - 1) ≤ (num : ℚ) / den := by
    rw [le_div_iff₀ cast]
    calc (2 : ℚ) ^ ((num.log2 : Int) - den.log2 - 1) * den
        ≤ 2 ^ ((num.log2 : Int) - den.log2 - 1) * 2 ^ (den.log2 + 1) :=
          mul_le_mul_of_nonneg_left denHigh.le (zpow_pos (by norm_num) _).le
      _ = 2 ^ num.log2 := by
        rw [← zpow_natCast, ← zpow_natCast, ← zpow_add₀ two]
        congr 1
        push_cast
        ring
      _ ≤ _ := low
  have test := le_shiftFraction_iff num positive ((num.log2 : Int) - den.log2) 1
  rw [Nat.one_mul, Nat.cast_one, one_mul] at test
  unfold leadingExponent
  simp only
  split
  · rename_i reached
    exact ⟨test.mp reached, upper⟩
  · rename_i missed
    refine ⟨lower, ?_⟩
    rw [sub_add_cancel]
    exact not_le.mp fun reached => missed (test.mpr reached)

namespace BinaryFormat

/-- The exponent of the last digit that a fraction is rounded to. -/
def lastExponent (format : BinaryFormat) (num den : Nat) : Int :=
  max format.least (leadingExponent num den - (format.digits - 1 : Nat))

/-- A fraction rounded to a whole number of last digits. -/
def lastDigits (format : BinaryFormat) (num den : Nat) : Nat :=
  nearestEven (shiftFraction num den (format.lastExponent num den)).1
    (shiftFraction num den (format.lastExponent num den)).2

/-- The exponent of the result: one more where rounding ran into the next power of two. -/
def resultExponent (format : BinaryFormat) (num den : Nat) : Int :=
  if format.lastDigits num den = 2 ^ format.digits then format.lastExponent num den + 1
  else format.lastExponent num den

/-- Rounding what is not zero: an infinity past the largest exponent, else the rounded digits, where
digits that ran into the next power of two lose their last one. -/
theorem round_of_ne_zero (format : BinaryFormat) (negative : Bool) {num : Nat} (den : Nat)
    (some : num ≠ 0) : format.round negative num den =
      if format.greatest < format.resultExponent num den then .infinite negative
      else .finite negative (if format.lastDigits num den = 2 ^ format.digits
        then 2 ^ (format.digits - 1) else format.lastDigits num den)
          (format.resultExponent num den) := by
  unfold round
  rw [if_neg some]
  by_cases full : format.lastDigits num den = 2 ^ format.digits
  · have carried := full
    simp only [lastDigits, lastExponent] at carried
    simp only [resultExponent, natPow_eq, full, if_true, lastExponent, carried]
  · have kept := full
    simp only [lastDigits, lastExponent] at kept
    simp only [resultExponent, natPow_eq, if_false, lastExponent, kept, lastDigits]

/-- What rounding comes to: the rounded digits at their exponent, or an infinity past the largest
exponent. -/
theorem round_eq (format : BinaryFormat) (wide : 0 < format.digits) (negative : Bool)
    {num : Nat} (den : Nat) (some : num ≠ 0) :
    format.greatest < format.resultExponent num den ∧
        format.round negative num den = .infinite negative ∨
      format.resultExponent num den ≤ format.greatest ∧ ∃ significand,
        format.round negative num den =
          .finite negative significand (format.resultExponent num den) ∧
        (significand : ℚ) * 2 ^ format.resultExponent num den =
          format.lastDigits num den * 2 ^ format.lastExponent num den := by
  rw [format.round_of_ne_zero negative den some]
  by_cases past : format.greatest < format.resultExponent num den
  · exact Or.inl ⟨past, if_pos past⟩
  · refine Or.inr ⟨not_lt.mp past, _, if_neg past, ?_⟩
    simp only [resultExponent]
    split
    · rename_i full
      rw [full, zpow_add₀ (by norm_num)]
      have power : (2 : ℚ) ^ format.digits = 2 ^ (format.digits - 1) * 2 := by
        rw [← pow_succ]
        congr 1
        omega
      push_cast
      rw [power]
      ring
    · rfl

/-- The rounded digits fit one power of two more than the format has digits for. -/
theorem lastDigits_le (format : BinaryFormat) (wide : 0 < format.digits) {num den : Nat}
    (some : num ≠ 0) (positive : 0 < den) : format.lastDigits num den ≤ 2 ^ format.digits := by
  obtain ⟨below, _⟩ := shiftFraction_spec num positive (format.lastExponent num den)
  refine nearestEven_le below ((shiftFraction_le_iff positive _ _).mpr ?_)
  refine (leadingExponent_spec some positive).2.le.trans ?_
  push_cast
  rw [← zpow_natCast, ← zpow_add₀ (by norm_num)]
  refine zpow_le_zpow_right₀ (by norm_num) ?_
  have := le_max_right format.least (leadingExponent num den - (format.digits - 1 : Nat))
  simp only [lastExponent]
  omega

theorem le_lastDigits (format : BinaryFormat) (wide : 0 < format.digits) {num den : Nat}
    (some : num ≠ 0) (positive : 0 < den) (normal : format.least < format.lastExponent num den) :
    2 ^ (format.digits - 1) ≤ format.lastDigits num den := by
  obtain ⟨below, _⟩ := shiftFraction_spec num positive (format.lastExponent num den)
  refine le_nearestEven below ((le_shiftFraction_iff num positive _ _).mpr ?_)
  refine le_trans ?_ (leadingExponent_spec some positive).1
  push_cast
  rw [← zpow_natCast, ← zpow_add₀ (by norm_num)]
  refine zpow_le_zpow_right₀ (by norm_num) ?_
  simp only [lastExponent] at normal ⊢
  omega

theorem leadingExponent_mono {num den num' den' : Nat} (some : num ≠ 0) (some' : num' ≠ 0)
    (positive : 0 < den) (positive' : 0 < den')
    (ordered : (num : ℚ) / den ≤ (num' : ℚ) / den') :
    leadingExponent num den ≤ leadingExponent num' den' := by
  have between : (2 : ℚ) ^ leadingExponent num den < 2 ^ (leadingExponent num' den' + 1) :=
    ((leadingExponent_spec some positive).1.trans ordered).trans_lt
      (leadingExponent_spec some' positive').2
  have := (zpow_lt_zpow_iff_right₀ (by norm_num : (1 : ℚ) < 2)).mp between
  omega

theorem lastDigits_mono (format : BinaryFormat) {num den num' den' : Nat} (positive : 0 < den)
    (positive' : 0 < den') (same : format.lastExponent num den = format.lastExponent num' den')
    (ordered : (num : ℚ) / den ≤ (num' : ℚ) / den') :
    format.lastDigits num den ≤ format.lastDigits num' den' := by
  obtain ⟨below, value⟩ := shiftFraction_spec num positive (format.lastExponent num den)
  obtain ⟨below', value'⟩ := shiftFraction_spec num' positive' (format.lastExponent num' den')
  have cast : (0 : ℚ) < (shiftFraction num den (format.lastExponent num den)).2 := by
    exact_mod_cast below
  have cast' : (0 : ℚ) < (shiftFraction num' den' (format.lastExponent num' den')).2 := by
    exact_mod_cast below'
  have shifted : ((shiftFraction num den (format.lastExponent num den)).1 : ℚ) /
      (shiftFraction num den (format.lastExponent num den)).2 ≤
        (shiftFraction num' den' (format.lastExponent num' den')).1 /
          (shiftFraction num' den' (format.lastExponent num' den')).2 := by
    rw [value, value', same]
    exact div_le_div_of_nonneg_right ordered (zpow_pos (by norm_num) _).le
  rw [div_le_div_iff₀ cast cast'] at shifted
  exact nearestEven_mono below below' (by exact_mod_cast shifted)

/-- What is rounded stays in order, both as a number and in the exponent of the result. -/
theorem rounded_mono (format : BinaryFormat) (wide : 0 < format.digits) {num den num' den' : Nat}
    (some : num ≠ 0) (some' : num' ≠ 0) (positive : 0 < den) (positive' : 0 < den')
    (ordered : (num : ℚ) / den ≤ (num' : ℚ) / den') :
    (format.lastDigits num den : ℚ) * 2 ^ format.lastExponent num den ≤
        format.lastDigits num' den' * 2 ^ format.lastExponent num' den' ∧
      format.resultExponent num den ≤ format.resultExponent num' den' := by
  have leading := leadingExponent_mono some some' positive positive' ordered
  have exponents : format.lastExponent num den ≤ format.lastExponent num' den' := by
    simp only [lastExponent]
    omega
  have most := format.lastDigits_le wide some positive
  have most' := format.lastDigits_le wide some' positive'
  rcases eq_or_lt_of_le exponents with same | less
  · have digits := format.lastDigits_mono positive positive' same ordered
    refine ⟨?_, ?_⟩
    · rw [same]
      exact mul_le_mul_of_nonneg_right (by exact_mod_cast digits) (zpow_pos (by norm_num) _).le
    · simp only [resultExponent]
      split <;> split <;> omega
  · have least : format.least ≤ format.lastExponent num den := le_max_left _ _
    have full := format.le_lastDigits wide some' positive' (by omega)
    refine ⟨?_, ?_⟩
    · calc (format.lastDigits num den : ℚ) * 2 ^ format.lastExponent num den
          ≤ 2 ^ format.digits * 2 ^ format.lastExponent num den :=
            mul_le_mul_of_nonneg_right (by exact_mod_cast most) (zpow_pos (by norm_num) _).le
        _ ≤ 2 ^ (format.digits - 1) * 2 ^ format.lastExponent num' den' := by
          rw [← zpow_natCast, ← zpow_natCast, ← zpow_add₀ (by norm_num), ← zpow_add₀ (by norm_num)]
          exact zpow_le_zpow_right₀ (by norm_num) (by omega)
        _ ≤ _ := mul_le_mul_of_nonneg_right (by exact_mod_cast full) (zpow_pos (by norm_num) _).le
    · simp only [resultExponent]
      split <;> split <;> omega

theorem round_zero (format : BinaryFormat) (negative : Bool) (den : Nat) :
    format.round negative 0 den = .finite negative 0 format.least := if_pos rfl

theorem round_cases (format : BinaryFormat) (negative : Bool) (num den : Nat) :
    format.round negative num den = .infinite negative ∨
      ∃ significand exponent, format.round negative num den =
        .finite negative significand exponent := by
  unfold round
  split
  · exact Or.inr ⟨_, _, rfl⟩
  · simp only
    split <;> split
    · exact Or.inl rfl
    · exact Or.inr ⟨_, _, rfl⟩
    · exact Or.inl rfl
    · exact Or.inr ⟨_, _, rfl⟩

/-- Rounding is monotone: a larger fraction is not rounded to a smaller number. -/
theorem round_mono (format : BinaryFormat) (wide : 0 < format.digits) {num den num' den' : Nat}
    (positive : 0 < den) (positive' : 0 < den')
    (ordered : (num : ℚ) / den ≤ (num' : ℚ) / den') :
    (format.round false num' den').lt (format.round false num den) = false := by
  by_cases none : num = 0
  · subst none
    rw [round_zero]
    have zero : Binary.number false 0 format.least = 0 := by simp [Binary.number]
    by_cases none' : num' = 0
    · subst none'
      rw [round_zero]
      exact Binary.lt_finite_eq_false_iff.mpr le_rfl
    · rcases format.round_eq wide false den' none' with
        ⟨_, past⟩ | ⟨_, digits, here, _⟩
      · rw [past]
        rfl
      · rw [here]
        exact Binary.lt_finite_eq_false_iff.mpr (zero ▸ Binary.number_nonneg _ _)
  · have some' : num' ≠ 0 := by
      rintro rfl
      have above : (0 : ℚ) < (num : ℚ) / den :=
        div_pos (by exact_mod_cast Nat.pos_of_ne_zero none) (by exact_mod_cast positive)
      simp only [Nat.cast_zero, zero_div] at ordered
      exact absurd ordered (not_le.mpr above)
    obtain ⟨values, exponents⟩ := format.rounded_mono wide none some' positive positive' ordered
    rcases format.round_eq wide false den' some' with ⟨_, past'⟩ | ⟨held', _, here', value'⟩
    · rw [past']
      cases format.round false num den <;> rfl
    · rcases format.round_eq wide false den none with ⟨past, _⟩ | ⟨_, _, here, value⟩
      · omega
      · rw [here, here']
        refine Binary.lt_finite_eq_false_iff.mpr ?_
        simp only [Binary.number, Bool.false_eq_true, if_false, one_mul]
        rw [value, value']
        exact values

end BinaryFormat

namespace Binary

theorem one_le_ratio32 {part whole : Nat} (positive : 0 < whole) (ordered : whole ≤ part) :
    (ratio32 part whole).lt (.finite false 1 0) = false := by
  have unit : binary32.round false 1 1 = .finite false 8388608 (-23) := by decide +kernel
  have one : number false 8388608 (-23) = number false 1 0 := by
    norm_num [number]
  have wide : 0 < binary32.digits := by decide
  have counts : (binary32.ofNat part).lt (binary32.ofNat whole) = false :=
    binary32.round_mono wide Nat.one_pos Nat.one_pos (by simpa using ordered)
  have large : (binary32.ofNat whole).lt (binary32.round false 1 1) = false :=
    binary32.round_mono wide Nat.one_pos Nat.one_pos
      (by simpa using (Nat.one_le_cast (α := ℚ)).mpr positive)
  unfold ratio32
  rcases binary32.round_cases false part 1 with past | ⟨partSig, partExp, partRound⟩
  · rw [BinaryFormat.ofNat, past]
    rfl
  rcases binary32.round_cases false whole 1 with past | ⟨wholeSig, wholeExp, wholeRound⟩
  · rw [BinaryFormat.ofNat, BinaryFormat.ofNat, past, partRound]
    rfl
  rw [BinaryFormat.ofNat] at counts large
  rw [BinaryFormat.ofNat, partRound, wholeRound, lt_finite_eq_false_iff] at counts
  rw [wholeRound, unit, lt_finite_eq_false_iff, one] at large
  rw [BinaryFormat.ofNat, BinaryFormat.ofNat, partRound, wholeRound]
  simp only [number, Bool.false_eq_true, if_false, one_mul, Nat.cast_one, zpow_zero] at counts large
  have wholeSome : 0 < wholeSig := by
    rcases Nat.eq_zero_or_pos wholeSig with zero | some
    · rw [zero] at large
      norm_num at large
    · exact some
  obtain ⟨below, value⟩ :=
    shiftFraction_spec partSig wholeSome (wholeExp - partExp)
  have quotient : ((1 : Nat) : ℚ) / (1 : Nat) ≤
      (shiftFraction partSig wholeSig (wholeExp - partExp)).1 /
        (shiftFraction partSig wholeSig (wholeExp - partExp)).2 := by
    have cast : (0 : ℚ) < wholeSig := by exact_mod_cast wholeSome
    have power : (0 : ℚ) < 2 ^ partExp := zpow_pos (by norm_num) _
    rw [value, zpow_sub₀ (by norm_num), Nat.cast_one, div_one, div_div, le_div_iff₀ (by positivity),
      one_mul, ← mul_div_assoc, div_le_iff₀ power]
    exact counts
  have mono := binary32.round_mono wide Nat.one_pos below quotient
  rw [unit] at mono
  exact not_lt_trans (by simp) mono (by decide +kernel)

theorem lt_of_ratio32_lt {part whole : Nat} (positive : 0 < whole) {bound : Binary}
    (range : bound.within 0 1 = true) (below : (ratio32 part whole).lt bound = true) :
    part < whole := by
  rcases Nat.lt_or_ge part whole with less | ordered
  · exact less
  · have upper : (Binary.finite false 1 0).lt bound = false := by
      simp only [within, Bool.and_eq_true, Bool.not_eq_true'] at range
      exact range.2
    have reached := not_lt_trans (by simp) (one_le_ratio32 positive ordered) upper
    rw [reached] at below
    cases below

end Binary

end SlotStore
