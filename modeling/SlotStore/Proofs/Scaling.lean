import Mathlib.Data.Rat.Floor
import SlotStore.Proofs.Rounding
import SlotStore.Settings.Decoding

/-!
A count times a growth factor, rounded up. Rounding does not fall below a number of the format that
the exact value reaches, so a factor above one makes every count larger and a legal one makes none
smaller, unless it is a NaN. So a slot table gets room for one record more than it needs, and a
header table gets room for every entry.
-/

namespace SlotStore

namespace BinaryFormat

/-- The value is one of the format; infinities and a NaN belong to every format. -/
def Holds (format : BinaryFormat) : Binary → Prop
  | .finite _ significand exponent =>
    significand < 2 ^ format.digits ∧ format.least ≤ exponent ∧ exponent ≤ format.greatest
  | .infinite _ | .nan => True

instance (format : BinaryFormat) (value : Binary) : Decidable (format.Holds value) :=
  match value with
  | .finite _ significand exponent => inferInstanceAs (Decidable (significand < 2 ^ format.digits ∧
      format.least ≤ exponent ∧ exponent ≤ format.greatest))
  | .infinite _ | .nan => inferInstanceAs (Decidable True)

theorem holds_round (format : BinaryFormat) (wide : 0 < format.digits)
    (range : format.least ≤ format.greatest) (negative : Bool) (num : Nat) {den : Nat}
    (positive : 0 < den) : format.Holds (format.round negative num den) := by
  by_cases none : num = 0
  · rw [none, round_zero]
    exact ⟨Nat.pow_pos (by decide), le_rfl, range⟩
  · have most := format.lastDigits_le wide none positive
    have least : format.least ≤ format.lastExponent num den := le_max_left _ _
    rw [format.round_of_ne_zero negative den none]
    split
    · exact trivial
    · rename_i held
      refine ⟨?_, ?_, not_lt.mp held⟩
      · split
        · exact Nat.pow_lt_pow_right (by decide) (by omega)
        · omega
      · simp only [resultExponent]
        split <;> omega

theorem holds_ofBinary (format : BinaryFormat) (wide : 0 < format.digits)
    (range : format.least ≤ format.greatest) (value : Binary) :
    format.Holds (format.ofBinary value) := by
  cases value with
  | nan => exact trivial
  | infinite negative => exact trivial
  | finite negative significand exponent =>
    exact format.holds_round wide range negative _
      (shiftFraction_spec significand Nat.one_pos (-exponent)).1

theorem holds_decodeBinary {format : BinaryFormat} (wide : 0 < format.digits)
    (range : format.least ≤ format.greatest) {value : Toml.Value} {number : Binary}
    (decoded : decodeBinary format value = .ok number) : format.Holds number := by
  cases value <;> simp only [decodeBinary, Except.ok.injEq, reduceCtorEq] at decoded
  · exact decoded ▸ format.holds_round wide range _ _ Nat.one_pos
  · exact decoded ▸ format.holds_ofBinary wide range _

/-- Where a fraction reaches a number of the format, the digits it is rounded to reach it too. -/
theorem le_rounded (format : BinaryFormat) (wide : 0 < format.digits) {num den whole : Nat}
    {exponent : Int} (some : num ≠ 0) (positive : 0 < den) (short : whole ≤ 2 ^ format.digits)
    (low : format.least ≤ exponent) (reached : (whole : ℚ) * 2 ^ exponent ≤ (num : ℚ) / den) :
    (whole : ℚ) * 2 ^ exponent ≤
      format.lastDigits num den * 2 ^ format.lastExponent num den := by
  have two : (2 : ℚ) ≠ 0 := by norm_num
  rcases le_or_gt (format.lastExponent num den) exponent with fine | coarse
  · -- the number is a whole number of last digits
    obtain ⟨below, _⟩ := shiftFraction_spec num positive (format.lastExponent num den)
    have split : (2 : ℚ) ^ exponent =
        2 ^ (exponent - format.lastExponent num den).toNat * 2 ^ format.lastExponent num den := by
      rw [← zpow_natCast, Int.toNat_of_nonneg (by omega), ← zpow_add₀ two, sub_add_cancel]
    rw [split, ← mul_assoc] at reached ⊢
    refine mul_le_mul_of_nonneg_right ?_ (zpow_pos (by norm_num) _).le
    have digits : whole * 2 ^ (exponent - format.lastExponent num den).toNat ≤
        format.lastDigits num den := by
      refine le_nearestEven below ((le_shiftFraction_iff num positive _ _).mpr ?_)
      push_cast
      exact reached
    exact_mod_cast digits
  · -- all digits are used, and they stand for more than the number
    have full := format.le_lastDigits wide some positive (by omega)
    calc (whole : ℚ) * 2 ^ exponent
        ≤ 2 ^ format.digits * 2 ^ exponent :=
          mul_le_mul_of_nonneg_right (by exact_mod_cast short) (zpow_pos (by norm_num) _).le
      _ ≤ 2 ^ (format.digits - 1) * 2 ^ format.lastExponent num den := by
        rw [← zpow_natCast, ← zpow_natCast, ← zpow_add₀ two, ← zpow_add₀ two]
        exact zpow_le_zpow_right₀ (by norm_num) (by omega)
      _ ≤ _ := mul_le_mul_of_nonneg_right (by exact_mod_cast full) (zpow_pos (by norm_num) _).le

theorem le_round (format : BinaryFormat) (wide : 0 < format.digits) (negative : Bool)
    {num den whole : Nat} {exponent : Int} (positive : 0 < den)
    (short : whole ≤ 2 ^ format.digits) (low : format.least ≤ exponent)
    (reached : (whole : ℚ) * 2 ^ exponent ≤ (num : ℚ) / den) :
    format.round negative num den = .infinite negative ∨
      ∃ significand last, format.round negative num den = .finite negative significand last ∧
        (whole : ℚ) * 2 ^ exponent ≤ significand * 2 ^ last := by
  by_cases none : num = 0
  · subst none
    refine Or.inr ⟨0, format.least, round_zero format negative den, ?_⟩
    simpa using reached
  · rcases format.round_eq wide negative den none with ⟨_, past⟩ | ⟨_, significand, here, value⟩
    · exact Or.inl past
    · exact Or.inr ⟨significand, _, here,
        value ▸ format.le_rounded wide none positive short low reached⟩

end BinaryFormat

namespace Binary

theorem finite_of_one_lt {negative : Bool} {significand : Nat} {exponent : Int}
    (more : (finite false 1 0).lt (finite negative significand exponent) = true) :
    negative = false ∧ (1 : ℚ) < significand * 2 ^ exponent := by
  have above := lt_finite_iff.mp more
  have one : number false 1 0 = 1 := by simp [number]
  rw [one] at above
  cases negative with
  | false => exact ⟨rfl, by simpa [number] using above⟩
  | true =>
    have below := number_nonneg significand exponent
    simp only [number, if_true, Bool.false_eq_true, if_false, one_mul] at above below
    linarith

theorem finite_of_not_lt_one {negative : Bool} {significand : Nat} {exponent : Int}
    (most : (finite negative significand exponent).lt (finite false 1 0) = false) :
    negative = false ∧ (1 : ℚ) ≤ significand * 2 ^ exponent := by
  have above := lt_finite_eq_false_iff.mp most
  have one : number false 1 0 = 1 := by simp [number]
  rw [one] at above
  cases negative with
  | false => exact ⟨rfl, by simpa [number] using above⟩
  | true =>
    have below := number_nonneg significand exponent
    simp only [number, if_true, Bool.false_eq_true, if_false, one_mul] at above below
    linarith

theorem not_lt_one_of_one_lt {factor : Binary} (more : (finite false 1 0).lt factor = true) :
    factor ≠ .nan ∧ factor.lt (finite false 1 0) = false := by
  cases factor with
  | nan => cases more
  | infinite negative =>
    cases negative with
    | true => cases more
    | false => exact ⟨nofun, rfl⟩
  | finite negative significand exponent =>
    exact ⟨nofun, lt_finite_eq_false_iff.mpr (lt_finite_iff.mp more).le⟩

/-- The double-precision numbers above one begin one unit in the last place of one above it. -/
theorem unit_le_of_one_lt {significand : Nat} {exponent : Int}
    (held : binary64.Holds (finite false significand exponent))
    (more : (1 : ℚ) < significand * 2 ^ exponent) :
    1 + (2 : ℚ) ^ (-52 : Int) ≤ significand * 2 ^ exponent := by
  have short : significand < 2 ^ 53 := held.1
  rcases lt_or_ge exponent 0 with down | up
  · obtain ⟨places, rfl⟩ : ∃ places : Nat, exponent = -(places : Int) :=
      ⟨(-exponent).toNat, by omega⟩
    have power : (0 : ℚ) < 2 ^ places := by positivity
    have inverse : (2 : ℚ) ^ (-(places : Int)) = (2 ^ places)⁻¹ := by
      rw [zpow_neg, zpow_natCast]
    rw [inverse, ← div_eq_mul_inv] at more ⊢
    rw [lt_div_iff₀ power, one_mul] at more
    have next : 2 ^ places + 1 ≤ significand := by exact_mod_cast more
    have few : places ≤ 52 := by
      by_contra many
      have : 2 ^ 53 ≤ 2 ^ places := Nat.pow_le_pow_right (by decide) (by omega)
      omega
    rw [le_div_iff₀ power]
    calc (1 + (2 : ℚ) ^ (-52 : Int)) * 2 ^ places
        ≤ 2 ^ places + 2 ^ (-52 : Int) * 2 ^ 52 := by
          rw [add_mul, one_mul]
          gcongr
          · norm_num
      _ = ((2 ^ places + 1 : Nat) : ℚ) := by
        push_cast
        norm_num
      _ ≤ significand := by exact_mod_cast next
  · obtain ⟨places, rfl⟩ : ∃ places : Nat, exponent = places := ⟨exponent.toNat, by omega⟩
    rw [zpow_natCast] at more ⊢
    have two : 2 ≤ significand * 2 ^ places := by exact_mod_cast more
    calc 1 + (2 : ℚ) ^ (-52 : Int) ≤ 2 := by norm_num
      _ ≤ significand * 2 ^ places := by exact_mod_cast two

/-- Above a count there is a number of the format that a factor above one carries it to. -/
theorem exists_next {count : Nat} (some : 0 < count) (small : count < 2 ^ 52) :
    ∃ (whole : Nat) (exponent : Int), whole ≤ 2 ^ binary64.digits ∧ binary64.least ≤ exponent ∧
      (count : ℚ) < whole * 2 ^ exponent ∧
        (whole : ℚ) * 2 ^ exponent ≤ count * (1 + 2 ^ (-52 : Int)) := by
  have leading := Nat.log2_self_le (Nat.ne_of_gt some)
  have bounded : count.log2 < 52 := (Nat.log2_lt (Nat.ne_of_gt some)).mpr small
  have scale : (2 : ℚ) ^ (52 - count.log2) * 2 ^ ((count.log2 : Int) - 52) = 1 := by
    rw [← zpow_natCast, ← zpow_add₀ (by norm_num),
      show ((52 - count.log2 : Nat) : Int) + ((count.log2 : Int) - 52) = 0 by omega, zpow_zero]
  have value : ((count * 2 ^ (52 - count.log2) + 1 : Nat) : ℚ) * 2 ^ ((count.log2 : Int) - 52) =
      count + 2 ^ ((count.log2 : Int) - 52) := by
    push_cast
    rw [add_mul, one_mul, mul_assoc, scale, mul_one]
  refine ⟨count * 2 ^ (52 - count.log2) + 1, (count.log2 : Int) - 52, ?_, ?_, ?_, ?_⟩
  · have product : count * 2 ^ (52 - count.log2) < 2 ^ (count.log2 + 1) * 2 ^ (52 - count.log2) :=
      Nat.mul_lt_mul_of_pos_right Nat.lt_log2_self (Nat.pow_pos (by decide))
    rw [← Nat.pow_add, show count.log2 + 1 + (52 - count.log2) = 53 by omega] at product
    exact product
  · simp only [binary64]
    omega
  · rw [value]
    exact lt_add_of_pos_right _ (zpow_pos (by norm_num) _)
  · rw [value]
    have cast : (2 : ℚ) ^ count.log2 ≤ count := by exact_mod_cast leading
    calc (count : ℚ) + 2 ^ ((count.log2 : Int) - 52)
        = count + 2 ^ count.log2 * 2 ^ (-52 : Int) := by
          rw [← zpow_natCast, ← zpow_add₀ (by norm_num)]
          rfl
      _ ≤ count + count * 2 ^ (-52 : Int) := by gcongr
      _ = count * (1 + 2 ^ (-52 : Int)) := by ring

theorem ceilWord_finite (significand : Nat) (exponent : Int) :
    (finite false significand exponent).ceilWord =
      min ⌈(significand : ℚ) * 2 ^ exponent⌉₊ 0xffffffffffffffff := by
  obtain ⟨below, value⟩ := shiftFraction_spec significand Nat.one_pos (-exponent)
  have cast : (0 : ℚ) < (shiftFraction significand 1 (-exponent)).2 := by exact_mod_cast below
  rw [zpow_neg, Nat.cast_one, div_one, div_inv_eq_mul] at value
  simp only [ceilWord, Bool.false_eq_true, if_false]
  congr 1
  refine eq_of_forall_lt_iff fun whole => ?_
  rw [Nat.lt_ceil, ← value, lt_div_iff₀ cast, ← Nat.succ_le_iff, Nat.le_div_iff_mul_le below,
    Nat.succ_mul]
  have exact : (whole : ℚ) * (shiftFraction significand 1 (-exponent)).2 <
      (shiftFraction significand 1 (-exponent)).1 ↔
    whole * (shiftFraction significand 1 (-exponent)).2 <
      (shiftFraction significand 1 (-exponent)).1 := by exact_mod_cast Iff.rfl
  rw [exact]
  omega

theorem le_mul64 {left right whole : Nat} {leftExp rightExp exponent : Int}
    (short : whole ≤ 2 ^ binary64.digits) (low : binary64.least ≤ exponent)
    (reached : (whole : ℚ) * 2 ^ exponent ≤ left * 2 ^ leftExp * (right * 2 ^ rightExp)) :
    (finite false left leftExp).mul64 (finite false right rightExp) = .infinite false ∨
      ∃ significand last, (finite false left leftExp).mul64 (finite false right rightExp) =
          .finite false significand last ∧
        (whole : ℚ) * 2 ^ exponent ≤ significand * 2 ^ last := by
  obtain ⟨below, value⟩ := shiftFraction_spec (left * right) Nat.one_pos (-(leftExp + rightExp))
  have product : (whole : ℚ) * 2 ^ exponent ≤
      (shiftFraction (left * right) 1 (-(leftExp + rightExp))).1 /
        (shiftFraction (left * right) 1 (-(leftExp + rightExp))).2 := by
    rw [value, zpow_neg, zpow_add₀ (by norm_num), div_inv_eq_mul]
    push_cast
    rw [div_one]
    calc (whole : ℚ) * 2 ^ exponent ≤ _ := reached
      _ = _ := by ring
  exact binary64.le_round (by decide) (false != false) below short low product

/-- A count that is not too large is scaled exactly, before the product is rounded, by a factor that
is not below one. What is too large for the format is the largest word. -/
theorem scaleCeil_cases {count : Nat} {factor : Binary} (some : 0 < count)
    (small : count ≤ 2 ^ 53) (actual : factor ≠ .nan)
    (most : factor.lt (finite false 1 0) = false) :
    scaleCeil count factor = 0xffffffffffffffff ∨
      ∃ (counted : Nat) (countedExp : Int) (significand : Nat) (exponent : Int),
        factor = finite false significand exponent ∧ (1 : ℚ) ≤ significand * 2 ^ exponent ∧
          (count : ℚ) ≤ counted * 2 ^ countedExp ∧ scaleCeil count factor =
            ((finite false counted countedExp).mul64 (finite false significand exponent)).ceilWord := by
  have exact : (count : ℚ) * 2 ^ (0 : Int) ≤ (count : ℚ) / (1 : Nat) := by simp
  unfold scaleCeil BinaryFormat.ofNat
  cases factor with
  | nan => exact absurd rfl actual
  | infinite negative =>
    cases negative with
    | true => cases most
    | false =>
      refine Or.inl ?_
      rcases binary64.le_round (by decide) false Nat.one_pos small (by decide) exact with
        past | ⟨counted, countedExp, rounded, reached⟩
      · rw [past]
        rfl
      · have filled : counted ≠ 0 := by
          rintro rfl
          simp only [zpow_zero, mul_one, Nat.cast_zero, zero_mul, Nat.cast_nonpos] at reached
          omega
        rw [rounded]
        simp only [mul64, if_neg filled]
        rfl
  | finite negative significand exponent =>
    obtain ⟨rfl, above⟩ := finite_of_not_lt_one most
    have filled : significand ≠ 0 := by
      rintro rfl
      simp only [Nat.cast_zero, zero_mul] at above
      linarith
    rcases binary64.le_round (by decide) false Nat.one_pos small (by decide) exact with
      past | ⟨counted, countedExp, rounded, reached⟩
    · rw [past]
      exact Or.inl (by simp only [mul64, if_neg filled]; rfl)
    · rw [rounded]
      simp only [zpow_zero, mul_one] at reached
      exact Or.inr ⟨counted, countedExp, significand, exponent, rfl, above, reached, rfl⟩

/-- A count that is not too large, times a double-precision factor above one, is rounded up to a
larger count. -/
theorem lt_scaleCeil {count : Nat} {factor : Binary} (some : 0 < count) (small : count < 2 ^ 52)
    (held : binary64.Holds factor) (more : (finite false 1 0).lt factor = true) :
    count < scaleCeil count factor := by
  obtain ⟨actual, most⟩ := not_lt_one_of_one_lt more
  rcases scaleCeil_cases some (by omega) actual most with
    largest | ⟨counted, countedExp, significand, exponent, rfl, _, reached, scaled⟩
  · omega
  · obtain ⟨whole, last, short, low, above, next⟩ := exists_next some small
    have unit := unit_le_of_one_lt held (finite_of_one_lt more).2
    have product : (whole : ℚ) * 2 ^ last ≤
        counted * 2 ^ countedExp * (significand * 2 ^ exponent) :=
      next.trans (mul_le_mul reached unit (by positivity) (le_trans (Nat.cast_nonneg _) reached))
    rw [scaled]
    rcases le_mul64 short low product with past | ⟨digits, place, rounded, high⟩
    · rw [past]
      simp only [ceilWord, Bool.false_eq_true, if_false]
      omega
    · rw [rounded, ceilWord_finite]
      exact lt_min (Nat.lt_ceil.mpr (lt_of_lt_of_le above high)) (by omega)

/-- A count that is not too large, times a factor that is not below one, is rounded up to no smaller
count. -/
theorem le_scaleCeil {count : Nat} {factor : Binary} (small : count ≤ 2 ^ 53)
    (actual : factor ≠ .nan) (most : factor.lt (finite false 1 0) = false) :
    count ≤ scaleCeil count factor := by
  rcases Nat.eq_zero_or_pos count with rfl | some
  · exact Nat.zero_le _
  rcases scaleCeil_cases some small actual most with
    largest | ⟨counted, countedExp, significand, exponent, rfl, above, reached, scaled⟩
  · omega
  · have product : (count : ℚ) * 2 ^ (0 : Int) ≤
        counted * 2 ^ countedExp * (significand * 2 ^ exponent) := by
      rw [zpow_zero]
      exact mul_le_mul reached above zero_le_one (le_trans (Nat.cast_nonneg _) reached)
    rw [scaled]
    rcases le_mul64 small (by decide) product with past | ⟨digits, place, rounded, high⟩
    · rw [past]
      simp only [ceilWord, Bool.false_eq_true, if_false]
      omega
    · rw [zpow_zero, mul_one] at high
      have ceiling : count ≤ ⌈(digits : ℚ) * 2 ^ place⌉₊ := by
        exact_mod_cast high.trans (Nat.le_ceil _)
      rw [rounded, ceilWord_finite]
      exact le_min ceiling (by omega)

end Binary

/-- A growth factor above one, as double precision has it, or a least size above the number of slots
gives a table room for more records than there are slots. -/
theorem ContainerSettings.lt_tableRecords {settings : ContainerSettings} {slots : Nat}
    (some : 0 < slots) (small : slots < 2 ^ 52)
    (grows : binary64.Holds settings.tableGrowth ∧
        (Binary.finite false 1 0).lt settings.tableGrowth = true ∨
      slots < settings.tableMinimum) :
    slots < settings.tableRecords slots := by
  unfold tableRecords
  rcases grows with ⟨held, more⟩ | least
  · exact lt_max_of_lt_left (Binary.lt_scaleCeil some small held more)
  · exact lt_max_of_lt_right least

theorem ArchiveSettings.not_lt_one_of_check {settings : ArchiveSettings}
    (legal : settings.check = .ok ()) :
    settings.tableGrowth.lt (Binary.finite false 1 0) = false := by
  unfold ArchiveSettings.check Binary.within at legal
  split at legal
  · cases legal
  · rename_i inside
    simp only [Bool.not_eq_true', Bool.not_eq_false, Bool.and_eq_true] at inside
    exact inside.1

/-- Legal settings give a header table room for every entry, unless the growth factor is a NaN. -/
theorem ArchiveSettings.le_headerTableRecords {settings : ArchiveSettings}
    (legal : settings.check = .ok ()) (actual : settings.tableGrowth ≠ .nan) {entries : Nat}
    (small : entries ≤ 2 ^ 53) : entries ≤ settings.headerTableRecords entries :=
  le_max_of_le_left (Binary.le_scaleCeil small actual (not_lt_one_of_check legal))

theorem ContainerSettings.holds_of_decode {group : SettingsGroup} {settings : ContainerSettings}
    (decoded : ContainerSettings.decode group = .ok settings) :
    binary64.Holds settings.tableGrowth := by
  unfold ContainerSettings.decode at decoded
  simp only [bind, Except.bind] at decoded
  split at decoded
  · cases decoded
  split at decoded
  · cases decoded
  rename_i _ _ growth found
  have held : binary64.Holds growth := by
    unfold SettingsGroup.read at found
    split at found
    · exact BinaryFormat.holds_decodeBinary (by decide) (by decide) found
    · cases found
      decide
  repeat' split at decoded
  all_goals cases decoded
  exact held

end SlotStore
