import Mathlib.Algebra.Order.Field.Power
import Mathlib.Data.Rat.Cast.Order
import Mathlib.Tactic.FieldSimp
import Mathlib.Tactic.Linarith
import Mathlib.Tactic.NormNum
import Mathlib.Tactic.Positivity
import Mathlib.Tactic.Ring
import Publishing.Json.Numeral

/-
When rounding to a double overflows.

A fraction has a double next to it unless it lies half a unit in the last place beyond the
greatest one.  Scaling by a power of ten rounds twice, once for the power and once for the
product, so a bound on the decimal is not enough: for each power the greatest significand
that may come with it is looked at as well.
-/

namespace Publishing
namespace Binary64

def Ratio.value (r : Ratio) : ℚ := r.num / r.den

theorem Ratio.value_scaled (n : Nat) (e : Int) : (scaled n e).value = n * 2 ^ e := by
  unfold scaled
  split
  · next h =>
    obtain ⟨k, rfl⟩ := Int.eq_ofNat_of_zero_le h
    simp [value]
  · next h =>
    obtain ⟨k, rfl⟩ := Int.exists_eq_neg_ofNat (Int.le_of_lt (Int.not_le.mp h))
    simp [value, div_eq_mul_inv]

theorem Ratio.den_scaled_pos (n : Nat) (e : Int) : 0 < (scaled n e).den := by
  unfold scaled
  split
  · exact Nat.one_pos
  · exact Nat.pow_pos (by decide)

/-- A form that a finite double can have. -/
structure IsFinite (x : Binary64) : Prop where
  significand : x.significand < 2 ^ 53
  least : leastExponent ≤ x.exponent
  greatest : x.exponent ≤ greatestExponent

theorem isFinite_zero (negative : Bool) : (zero negative).IsFinite :=
  ⟨Nat.pow_pos (by decide), show leastExponent ≤ 0 by decide, show 0 ≤ greatestExponent by decide⟩

def value (x : Binary64) : ℚ := x.significand * 2 ^ x.exponent

theorem value_magnitude (x : Binary64) : x.magnitude.value = x.value := Ratio.value_scaled ..

/-- Half a unit in the last place beyond the greatest double. -/
def limit : Nat := (2 ^ 54 - 1) * 2 ^ 970

/-- Rounding adds half a unit at most. -/
theorem roundDiv_le (num : Nat) {den : Nat} (h : 0 < den) :
    2 * (roundDiv num den * den) ≤ 2 * num + den := by
  have hdiv := Nat.div_add_mod num den
  have hmod := Nat.mod_lt num h
  have hsucc : (num / den + 1) * den = num / den * den + den := Nat.succ_mul ..
  rw [Nat.mul_comm den] at hdiv
  unfold roundDiv
  dsimp only
  split
  · omega
  · split
    · omega
    · split <;> omega

/-- The greatest powers of two around a fraction. -/
theorem log2_bounds {r : Ratio} (hn : r.num ≠ 0) (hd : 0 < r.den) :
    (2 : ℚ) ^ ((Nat.log2 r.num : Int) - Nat.log2 r.den - 1) < r.value ∧
      r.value < 2 ^ ((Nat.log2 r.num : Int) - Nat.log2 r.den + 1) := by
  have hnum : (2 : ℚ) ^ (Nat.log2 r.num : Int) ≤ r.num := by
    exact_mod_cast Nat.log2_self_le hn
  have hnum' : (r.num : ℚ) < 2 ^ ((Nat.log2 r.num : Int) + 1) := by
    exact_mod_cast Nat.lt_log2_self (n := r.num)
  have hden : (2 : ℚ) ^ (Nat.log2 r.den : Int) ≤ r.den := by
    exact_mod_cast Nat.log2_self_le (Nat.pos_iff_ne_zero.mp hd)
  have hden' : (r.den : ℚ) < 2 ^ ((Nat.log2 r.den : Int) + 1) := by
    exact_mod_cast Nat.lt_log2_self (n := r.den)
  have hd' : (0 : ℚ) < r.den := by exact_mod_cast hd
  have two : (2 : ℚ) ≠ 0 := by norm_num
  constructor
  · rw [Ratio.value, lt_div_iff₀ hd']
    calc (2 : ℚ) ^ ((Nat.log2 r.num : Int) - Nat.log2 r.den - 1) * r.den
        < 2 ^ ((Nat.log2 r.num : Int) - Nat.log2 r.den - 1) * 2 ^ ((Nat.log2 r.den : Int) + 1) :=
          mul_lt_mul_of_pos_left hden' (by positivity)
      _ = 2 ^ (Nat.log2 r.num : Int) := by
          rw [← zpow_add₀ two]
          congr 1
          ring
      _ ≤ r.num := hnum
  · rw [Ratio.value, div_lt_iff₀ hd']
    calc (r.num : ℚ) < 2 ^ ((Nat.log2 r.num : Int) + 1) := hnum'
      _ = 2 ^ ((Nat.log2 r.num : Int) - Nat.log2 r.den + 1) * 2 ^ (Nat.log2 r.den : Int) := by
          rw [← zpow_add₀ two]
          congr 1
          ring
      _ ≤ 2 ^ ((Nat.log2 r.num : Int) - Nat.log2 r.den + 1) * r.den :=
          mul_le_mul_of_nonneg_left hden (by positivity)

/-- A fraction in units `2 ^ e`. -/
theorem value_units (r : Ratio) (e : Int) :
    ((Ratio.scaled r.num (-e)).num : ℚ) / ((Ratio.scaled r.num (-e)).den * r.den : Nat) =
      r.value / 2 ^ e := by
  have h := Ratio.value_scaled r.num (-e)
  rw [Ratio.value] at h
  rw [Nat.cast_mul, ← div_div, h, Ratio.value, zpow_neg]
  ring

theorem den_units_pos {r : Ratio} (hd : 0 < r.den) (e : Int) :
    0 < (Ratio.scaled r.num (-e)).den * r.den :=
  Nat.mul_pos (Ratio.den_scaled_pos _ _) hd

/-- A fraction has 53 bits before the last one, or less when that is the least there is. -/
theorem lastBit_spec {r : Ratio} (hn : r.num ≠ 0) (hd : 0 < r.den) :
    leastExponent ≤ lastBit r ∧ r.value < 2 ^ 53 * 2 ^ lastBit r ∧
      (lastBit r = leastExponent ∨ (2 : ℚ) ^ 52 * 2 ^ lastBit r ≤ r.value) := by
  obtain ⟨hlow, hhigh⟩ := log2_bounds hn hd
  unfold lastBit
  dsimp only
  generalize ((Nat.log2 r.num : Int) - Nat.log2 r.den) = k at hlow hhigh ⊢
  have two : (2 : ℚ) ≠ 0 := by norm_num
  have hpow : (0 : ℚ) < 2 ^ max (k - 53) leastExponent := by positivity
  have hsucc : (2 : ℚ) ^ (max (k - 53) leastExponent + 1) =
      2 ^ max (k - 53) leastExponent * 2 := by rw [zpow_add_one₀ two]
  have htest : Nat.pow 2 53 ≤ (Ratio.scaled r.num (-max (k - 53) leastExponent)).num /
        ((Ratio.scaled r.num (-max (k - 53) leastExponent)).den * r.den) ↔
      (2 : ℚ) ^ 53 * 2 ^ max (k - 53) leastExponent ≤ r.value := by
    have hden := den_units_pos (r := r) hd (max (k - 53) leastExponent)
    have hden' : (0 : ℚ) < ((Ratio.scaled r.num (-max (k - 53) leastExponent)).den * r.den : Nat) :=
      by exact_mod_cast hden
    rw [Nat.le_div_iff_mul_le hden, ← le_div_iff₀ hpow, ← value_units, le_div_iff₀ hden']
    constructor
    · intro h
      exact_mod_cast h
    · intro h
      exact_mod_cast h
  by_cases hbig : (2 : ℚ) ^ 53 * 2 ^ max (k - 53) leastExponent ≤ r.value
  · rw [if_pos (htest.mpr hbig)]
    refine ⟨by omega, ?_, Or.inr (by rw [hsucc]; linarith)⟩
    -- the fraction has at most one bit more than the exponent lets on
    have hle : (2 : ℚ) ^ (k + 1) ≤ 2 ^ 53 * 2 ^ (max (k - 53) leastExponent + 1) := by
      rw [show (2 : ℚ) ^ 53 = 2 ^ (53 : Int) by norm_cast, ← zpow_add₀ two]
      exact zpow_le_zpow_right₀ (by norm_num) (by omega)
    linarith
  · rw [if_neg (fun h => hbig (htest.mp h))]
    refine ⟨by omega, not_le.mp hbig, ?_⟩
    rcases le_or_gt (k - 53) leastExponent with hk | hk
    · exact Or.inl (max_eq_right hk)
    · refine Or.inr ?_
      rw [max_eq_left hk.le, show (2 : ℚ) ^ 52 = 2 ^ (52 : Int) by norm_cast, ← zpow_add₀ two]
      refine le_of_eq_of_le ?_ hlow.le
      congr 1
      ring

/-- A fraction in units of its last bit, to the nearest integer. -/
def roundedUnits (r : Ratio) : Nat :=
  roundDiv (Ratio.scaled r.num (-lastBit r)).num ((Ratio.scaled r.num (-lastBit r)).den * r.den)

theorem value_roundedUnits_le {r : Ratio} (hd : 0 < r.den) :
    2 * ((roundedUnits r : ℚ) * 2 ^ lastBit r) ≤ 2 * r.value + 2 ^ lastBit r := by
  have hden := den_units_pos hd (lastBit r)
  have hle := roundDiv_le (Ratio.scaled r.num (-lastBit r)).num hden
  have hunits := value_units r (lastBit r)
  have hden' : (0 : ℚ) < ((Ratio.scaled r.num (-lastBit r)).den * r.den : Nat) := by
    exact_mod_cast hden
  have hpow : (0 : ℚ) < 2 ^ lastBit r := by positivity
  rw [div_eq_div_iff hden'.ne' hpow.ne'] at hunits
  change 2 * (roundedUnits r * _) ≤ _ at hle
  generalize (Ratio.scaled r.num (-lastBit r)).num = a at hunits hle
  generalize (Ratio.scaled r.num (-lastBit r)).den * r.den = b at hunits hden' hle
  generalize (2 : ℚ) ^ lastBit r = u at hunits hpow ⊢
  have hle' : 2 * ((roundedUnits r : ℚ) * b) ≤ 2 * a + b := by exact_mod_cast hle
  refine le_of_mul_le_mul_right ?_ hden'
  calc 2 * ((roundedUnits r : ℚ) * u) * b = 2 * ((roundedUnits r : ℚ) * b) * u := by ring
    _ ≤ (2 * a + b) * u := mul_le_mul_of_nonneg_right hle' hpow.le
    _ = (2 * r.value + u) * b := by linarith

theorem roundedUnits_le {r : Ratio} (hn : r.num ≠ 0) (hd : 0 < r.den) :
    roundedUnits r ≤ 2 ^ 53 := by
  have hle := value_roundedUnits_le hd
  have hlt := (lastBit_spec hn hd).2.1
  have hpow : (0 : ℚ) < 2 ^ lastBit r := by positivity
  by_contra hcon
  have hge : (2 : ℚ) ^ 53 + 1 ≤ roundedUnits r := by exact_mod_cast Nat.not_le.mp hcon
  have := mul_le_mul_of_nonneg_right hge hpow.le
  linarith

/-- What rounding comes to, with the carry into one more bit undone. -/
theorem round?_eq (negative : Bool) {r : Ratio} (hn : r.num ≠ 0) :
    round? negative r =
      if roundedUnits r = 0 then some (zero negative)
      else if roundedUnits r = 2 ^ 53 then
        if greatestExponent < lastBit r + 1 then none else some ⟨negative, 2 ^ 52, lastBit r + 1⟩
      else if greatestExponent < lastBit r then none
      else some ⟨negative, roundedUnits r, lastBit r⟩ := by
  have hcarry : (2 : Nat) ^ 53 = Nat.pow 2 53 := rfl
  unfold round?
  rw [if_neg hn]
  dsimp only
  rw [← roundedUnits, ← hcarry]
  by_cases hz : roundedUnits r = 0
  · have hc : roundedUnits r ≠ 2 ^ 53 := by
      rw [hz]
      decide
    rw [if_neg hc, if_pos hz, if_pos hz]
  · rw [if_neg hz]
    by_cases hc : roundedUnits r = 2 ^ 53
    · rw [if_pos hc, if_pos hc]
      dsimp only
      rw [if_neg (by decide)]
      rfl
    · rw [if_neg hc, if_neg hc]
      dsimp only
      rw [if_neg hz]

/-- Rounding gives a finite double, and one whose last bit is that of the fraction. -/
theorem round?_eq_some {negative : Bool} {r : Ratio} {x : Binary64} (hd : 0 < r.den)
    (h : round? negative r = some x) :
    x.IsFinite ∧ (r.num ≠ 0 → x.value = roundedUnits r * 2 ^ lastBit r) := by
  by_cases hn : r.num = 0
  · rw [round?, if_pos hn] at h
    obtain rfl := Option.some.inj h
    exact ⟨isFinite_zero negative, fun h => absurd hn h⟩
  have hspec := lastBit_spec hn hd
  have hle := roundedUnits_le hn hd
  rw [round?_eq negative hn] at h
  split at h
  · next hz =>
    obtain rfl := Option.some.inj h
    refine ⟨isFinite_zero negative, fun _ => ?_⟩
    rw [hz]
    simp [value, zero]
  · split at h
    · next hc =>
      split at h
      · cases h
      · next hg =>
        obtain rfl := Option.some.inj h
        refine ⟨⟨show 2 ^ 52 < 2 ^ 53 by decide, ?_, not_lt.mp hg⟩, fun _ => ?_⟩
        · show leastExponent ≤ lastBit r + 1
          have := hspec.1
          omega
        · rw [hc, value, zpow_add_one₀ (by norm_num)]
          norm_num
          ring
    · next hc =>
      split at h
      · cases h
      · next hg =>
        obtain rfl := Option.some.inj h
        exact ⟨⟨lt_of_le_of_ne hle hc, hspec.1, not_lt.mp hg⟩, fun _ => rfl⟩

theorem limit_eq : (limit : ℚ) = (2 ^ 54 - 1) * 2 ^ (970 : Int) := by
  rw [limit, Nat.cast_mul, Nat.cast_pow]
  congr 1
  norm_num

/-- Below the limit nothing overflows. -/
theorem isSome_round? (negative : Bool) {r : Ratio} (hd : 0 < r.den) (h : r.value < limit) :
    (round? negative r).isSome := by
  by_cases hn : r.num = 0
  · rw [round?, if_pos hn]
    rfl
  have hbound := value_roundedUnits_le hd
  obtain ⟨-, -, hlast⟩ := lastBit_spec hn hd
  have hpow : ∀ {k : Nat}, 970 + k ≤ lastBit r → (2 : ℚ) ^ k * 2 ^ (970 : Int) ≤ 2 ^ lastBit r := by
    intro k he
    rw [← zpow_natCast, ← zpow_add₀ (by norm_num)]
    exact zpow_le_zpow_right₀ (by norm_num) (by omega)
  rw [limit_eq] at h
  rw [round?_eq negative hn]
  split
  · rfl
  · split
    · next hc =>
      split
      · next hg =>
        -- the carry alone would make up for half a unit
        exfalso
        have hpow := hpow (k := 1) (Int.lt_add_one_iff.mp hg)
        rw [hc] at hbound
        push_cast at hbound
        generalize (2 : ℚ) ^ (970 : Int) = u at h hpow
        linarith
      · rfl
    · split
      · next hg =>
        exfalso
        have hpow := hpow (k := 2) hg
        rcases hlast with hlast | hlast
        · rw [hlast] at hg
          exact absurd hg (by decide)
        · have hu : (0 : ℚ) < 2 ^ (970 : Int) := by positivity
          generalize (2 : ℚ) ^ (970 : Int) = u at h hpow hu
          linarith
      · rfl

/-- A finite double lies below the limit. -/
theorem IsFinite.value_lt {x : Binary64} (h : x.IsFinite) : x.value < limit := by
  have hsig : (x.significand : ℚ) ≤ 2 ^ 53 - 1 := by
    have : x.significand + 1 ≤ 2 ^ 53 := h.significand
    have : (x.significand : ℚ) + 1 ≤ 2 ^ 53 := by exact_mod_cast this
    linarith
  have hexp : (2 : ℚ) ^ x.exponent ≤ 2 * 2 ^ (970 : Int) := by
    rw [← zpow_one_add₀ (by norm_num)]
    exact zpow_le_zpow_right₀ (by norm_num) h.greatest
  have hpos : (0 : ℚ) < 2 ^ x.exponent := by positivity
  rw [value, limit_eq]
  have hu : (0 : ℚ) < 2 ^ (970 : Int) := by positivity
  generalize (2 : ℚ) ^ (970 : Int) = u at hexp hu ⊢
  calc (x.significand : ℚ) * 2 ^ x.exponent ≤ (2 ^ 53 - 1) * (2 * u) :=
        mul_le_mul hsig hexp hpos.le (by norm_num)
    _ < (2 ^ 54 - 1) * u := by linarith

theorem value_nonneg (x : Binary64) : 0 ≤ x.value := by
  unfold value
  positivity

/-! ## Naturals -/

/-- The greatest multiple of `2 ^ bits` that `n` may be rounded to. -/
def cap (bits n : Nat) : Nat := (2 * n + 2 ^ bits) / 2 ^ (bits + 1) * 2 ^ bits

theorem cap_mono (bits : Nat) {n m : Nat} (h : n ≤ m) : cap bits n ≤ cap bits m :=
  Nat.mul_le_mul_right _ (Nat.div_le_div_right (by omega))

theorem value_natural (n : Nat) : (⟨n, 1⟩ : Ratio).value = n := by
  simp [Ratio.value]

/-- A natural number loses its last bits only if it has more than 53. -/
theorem value_ofNat?_le {n : Nat} {x : Binary64} (h : ofNat? n = some x) :
    ∃ bits, (bits = 0 ∨ 2 ^ (52 + bits) ≤ n) ∧ x.value ≤ cap bits n := by
  obtain ⟨-, hvalue⟩ := round?_eq_some Nat.one_pos h
  by_cases hn : n = 0
  · subst hn
    obtain rfl : zero false = x := Option.some.inj h
    exact ⟨0, Or.inl rfl, by simp [value, zero]⟩
  have hle := value_roundedUnits_le (r := ⟨n, 1⟩) Nat.one_pos
  obtain ⟨-, -, hlast⟩ := lastBit_spec (r := ⟨n, 1⟩) hn Nat.one_pos
  rw [hvalue hn]
  rw [value_natural] at hle hlast
  generalize roundedUnits ⟨n, 1⟩ = m at hle ⊢
  generalize lastBit ⟨n, 1⟩ = e at hle hlast ⊢
  rcases le_or_gt e 0 with he | he
  · -- no bit is lost
    refine ⟨0, Or.inl rfl, ?_⟩
    obtain ⟨k, rfl⟩ := Int.exists_eq_neg_ofNat he
    rw [zpow_neg, zpow_natCast] at hle ⊢
    have hpow : (0 : ℚ) < 2 ^ k := by positivity
    have hm : m ≤ n * 2 ^ k := by
      have h2 : 2 * (m : ℚ) ≤ 2 * (n * 2 ^ k) + 1 := by
        have := mul_le_mul_of_nonneg_right hle hpow.le
        rw [add_mul, inv_mul_cancel₀ hpow.ne', mul_assoc, mul_assoc, inv_mul_cancel₀ hpow.ne',
          mul_one, mul_assoc] at this
        exact this
      have h2 : 2 * m ≤ 2 * (n * 2 ^ k) + 1 := by exact_mod_cast h2
      omega
    have hcap : cap 0 n = n := by
      unfold cap
      omega
    rw [hcap, ← div_eq_mul_inv, div_le_iff₀ hpow]
    exact_mod_cast hm
  · obtain ⟨bits, rfl⟩ := Int.eq_ofNat_of_zero_le he.le
    rw [zpow_natCast] at hle hlast ⊢
    refine ⟨bits, Or.inr ?_, ?_⟩
    · rcases hlast with hlast | hlast
      · rw [hlast] at he
        exact absurd he (by decide)
      · rw [Nat.pow_add]
        exact_mod_cast hlast
    · have hm : m ≤ (2 * n + 2 ^ bits) / 2 ^ (bits + 1) := by
        rw [Nat.le_div_iff_mul_le (Nat.pow_pos (by decide))]
        have h2 : 2 * (m * 2 ^ bits) ≤ 2 * n + 2 ^ bits := by exact_mod_cast hle
        calc m * 2 ^ (bits + 1) = 2 * (m * 2 ^ bits) := by ring
          _ ≤ 2 * n + 2 ^ bits := h2
      have := Nat.mul_le_mul_right (2 ^ bits) hm
      exact_mod_cast this

/-! ## Powers of ten -/

/-- Half a unit in the last place below the greatest double: no shorter decimal of another
double lies beyond it. -/
def reach : Nat := (2 ^ 54 - 3) * 2 ^ 970

/-- Whether the product with `10 ^ e` stays below the limit, for every significand with
which it is meant to stay within reach. -/
def powerFits (e : Nat) : Bool :=
  match ofNat? (Nat.pow 10 e) with
  | none => false
  | some power =>
    let most := min (reach / Nat.pow 10 e) Json.greatestNatural
    power.magnitude.den ≤ power.magnitude.num &&
      (List.range 12).all fun bits =>
        (bits ≠ 0 && most < Nat.pow 2 (52 + bits)) ||
          cap bits most * power.magnitude.num < limit * power.magnitude.den

theorem powerFits_of_le : ∀ e : Fin 309, powerFits e := by decide +kernel

theorem exists_power {e : Nat} (he : e ≤ 308) :
    ∃ power, ofNat? (Nat.pow 10 e) = some power ∧ 1 ≤ power.value ∧
      ∀ bits, bits < 12 →
        (bits = 0 ∨ 2 ^ (52 + bits) ≤ min (reach / 10 ^ e) Json.greatestNatural) →
        (cap bits (min (reach / 10 ^ e) Json.greatestNatural) : ℚ) * power.value < limit := by
  have h := powerFits_of_le ⟨e, Nat.lt_succ_of_le he⟩
  unfold powerFits at h
  dsimp only at h
  split at h
  · cases h
  · next power hpower =>
    rw [Bool.and_eq_true, decide_eq_true_eq, List.all_eq_true] at h
    obtain ⟨hone, hall⟩ := h
    have hden : (0 : ℚ) < power.magnitude.den := by exact_mod_cast Ratio.den_scaled_pos _ _
    refine ⟨power, hpower, ?_, fun bits hbits hmost => ?_⟩
    · rw [← value_magnitude, Ratio.value, le_div_iff₀ hden, one_mul]
      exact_mod_cast hone
    · have hcap := hall bits (List.mem_range.mpr hbits)
      rw [Bool.or_eq_true, Bool.and_eq_true, decide_eq_true_eq, decide_eq_true_eq,
        decide_eq_true_eq] at hcap
      rcases hcap with ⟨hne, hlt⟩ | hcap
      · exact absurd hlt (Nat.not_lt.mpr (hmost.resolve_left hne))
      · rw [← value_magnitude, Ratio.value, ← mul_div_assoc, div_lt_iff₀ hden]
        exact_mod_cast hcap

theorem one_le_power {e : Nat} {power : Binary64} (he : e ≤ 308)
    (h : ofNat? (Nat.pow 10 e) = some power) : 1 ≤ power.value := by
  obtain ⟨power', h', hone, -⟩ := exists_power he
  obtain rfl := Option.some.inj (h.symm.trans h')
  exact hone

theorem isSome_mul? {x y : Binary64} (h : x.value * y.value < limit) : (x.mul? y).isSome := by
  refine isSome_round? _ (Nat.mul_pos (Ratio.den_scaled_pos _ _) (Ratio.den_scaled_pos _ _)) ?_
  rw [← value_magnitude x, ← value_magnitude y, Ratio.value, Ratio.value,
    div_mul_div_comm] at h
  rw [Ratio.value, Nat.cast_mul, Nat.cast_mul]
  exact h

theorem isFinite_mul? {x y z : Binary64} (h : x.mul? y = some z) : z.IsFinite :=
  (round?_eq_some (Nat.mul_pos (Ratio.den_scaled_pos _ _) (Ratio.den_scaled_pos _ _)) h).1

theorem num_magnitude_pos {y : Binary64} (h : 1 ≤ y.value) : 0 < y.magnitude.num := by
  rw [← value_magnitude, Ratio.value] at h
  refine Nat.pos_of_ne_zero fun hz => ?_
  rw [hz, Nat.cast_zero, zero_div] at h
  linarith

theorem isSome_div? {x y : Binary64} (hx : x.IsFinite) (hy : 1 ≤ y.value) :
    (x.div? y).isSome := by
  refine isSome_round? _ (Nat.mul_pos (Ratio.den_scaled_pos _ _) (num_magnitude_pos hy)) ?_
  have hlt : x.value / y.value < limit :=
    lt_of_le_of_lt (div_le_self (value_nonneg x) hy) hx.value_lt
  rw [← value_magnitude x, ← value_magnitude y, Ratio.value, Ratio.value,
    div_div_div_eq] at hlt
  rw [Ratio.value, Nat.cast_mul, Nat.cast_mul]
  exact hlt

theorem isFinite_div? {x y z : Binary64} (hy : 1 ≤ y.value) (h : x.div? y = some z) :
    z.IsFinite :=
  (round?_eq_some (Nat.mul_pos (Ratio.den_scaled_pos _ _) (num_magnitude_pos hy)) h).1

end Binary64

namespace Json

open Binary64

theorem isFinite_scaleByTen {x y : Binary64} (hx : x.IsFinite) {e : Int} {fuel : Nat}
    (h : scaleByTen x e fuel = some y) : y.IsFinite := by
  induction fuel generalizing x e with
  | zero =>
    obtain rfl : Binary64.zero false = y := Option.some.inj h
    exact isFinite_zero false
  | succ fuel ih =>
    rw [scaleByTen] at h
    split at h
    · next he =>
      obtain ⟨power, hpower, hone, -⟩ := exists_power he
      rw [hpower] at h
      change (if 0 ≤ e then x.mul? power else x.div? power) = some y at h
      split at h
      · exact isFinite_mul? h
      · exact isFinite_div? hone h
    · split at h
      · exact Option.some.inj h ▸ hx
      · split at h
        · cases h
        · obtain ⟨power, hpower, h⟩ := Option.bind_eq_some_iff.mp h
          obtain ⟨q, hq, h⟩ := Option.bind_eq_some_iff.mp h
          exact ih (isFinite_div? (one_le_power (e := 308) (Nat.le_refl 308) hpower) hq) h

/-- Scaling down never overflows. -/
theorem isSome_scaleByTen_of_nonpos {x : Binary64} (hx : x.IsFinite) {e : Int} (he : e ≤ 0)
    (fuel : Nat) : (scaleByTen x e fuel).isSome := by
  induction fuel generalizing x e with
  | zero => rfl
  | succ fuel ih =>
    rw [scaleByTen]
    split
    · next habs =>
      obtain ⟨power, hpower, hone, -⟩ := exists_power habs
      rw [hpower]
      show (if 0 ≤ e then x.mul? power else x.div? power).isSome
      split
      · next h0 =>
        obtain rfl := Int.le_antisymm he h0
        obtain rfl : (⟨false, 2 ^ 52, -52⟩ : Binary64) = power := by
          have h1 : ofNat? (Nat.pow 10 (Int.natAbs 0)) = some ⟨false, 2 ^ 52, -52⟩ := by
            decide +kernel
          exact Option.some.inj (h1.symm.trans hpower)
        refine isSome_mul? ?_
        have : (⟨false, 2 ^ 52, -52⟩ : Binary64).value = 1 := by
          rw [value]
          norm_num
        rw [this, mul_one]
        exact hx.value_lt
      · exact isSome_div? hx hone
    · split
      · rfl
      · rw [if_neg (by omega), Option.isSome_iff_exists]
        obtain ⟨power, hpower, hone, -⟩ := exists_power (e := 308) (Nat.le_refl 308)
        obtain ⟨q, hq⟩ := Option.isSome_iff_exists.mp (isSome_div? hx hone)
        obtain ⟨y, hy⟩ := Option.isSome_iff_exists.mp
          (ih (e := e + 308) (isFinite_div? hone hq) (by omega))
        exact ⟨y, Option.bind_eq_some_iff.mpr ⟨power, hpower,
          Option.bind_eq_some_iff.mpr ⟨q, hq, hy⟩⟩⟩

theorem isSome_ofNat? {n : Nat} (h : n ≤ greatestNatural) : (ofNat? n).isSome := by
  refine isSome_round? false Nat.one_pos ?_
  rw [value_natural]
  have hlt : n < limit := Nat.lt_of_le_of_lt h (by decide +kernel)
  exact_mod_cast hlt

/-- Scaling up does not overflow within reach. -/
theorem isSome_scaleByTen {n : Nat} {x : Binary64} (hx : ofNat? n = some x)
    (hn : n ≤ greatestNatural) {e : Nat} (hreach : n * 10 ^ e ≤ reach) (fuel : Nat) :
    (scaleByTen x e (fuel + 1)).isSome := by
  rw [scaleByTen]
  split
  · next he =>
    rw [Int.natAbs_natCast] at he ⊢
    obtain ⟨power, hpower, hone, hfits⟩ := exists_power he
    rw [hpower]
    show (if 0 ≤ (e : Int) then x.mul? power else x.div? power).isSome
    rw [if_pos (Int.natCast_nonneg e)]
    refine isSome_mul? ?_
    have hmost : n ≤ min (reach / 10 ^ e) greatestNatural :=
      le_min ((Nat.le_div_iff_mul_le (Nat.pow_pos (by decide))).mpr hreach) hn
    obtain ⟨bits, hbits, hvalue⟩ := value_ofNat?_le hx
    have hlt : bits < 12 := by
      rcases hbits with rfl | hbits
      · decide
      · by_contra hge
        have hpow : 2 ^ 64 ≤ 2 ^ (52 + bits) := Nat.pow_le_pow_right (by decide) (by omega)
        have : 2 ^ (52 + bits) ≤ greatestNatural := le_trans hbits hn
        exact absurd (le_trans hpow this) (by decide)
    calc x.value * power.value
        ≤ cap bits (min (reach / 10 ^ e) greatestNatural) * power.value := by
          refine mul_le_mul_of_nonneg_right (le_trans hvalue ?_) (value_nonneg power)
          exact_mod_cast cap_mono bits hmost
      _ < limit := hfits bits hlt (hbits.imp id fun h => le_trans h hmost)
  · next he =>
    -- so great a power comes with nothing but zero
    rw [Int.natAbs_natCast] at he
    have hzero : n = 0 := by
      by_contra hne
      have hpow : 10 ^ 309 ≤ 10 ^ e := Nat.pow_le_pow_right (by decide) (by omega)
      have h1 : 10 ^ e ≤ n * 10 ^ e := Nat.le_mul_of_pos_left _ (Nat.pos_of_ne_zero hne)
      exact absurd (le_trans hpow (le_trans h1 hreach)) (by decide +kernel)
    subst hzero
    obtain rfl : Binary64.zero false = x := Option.some.inj hx
    rfl

/-- A number that is not out of reach is a double. -/
theorem isSome_float? (negative : Bool) {n : Nat} (hn : n ≤ greatestNatural) {e : Int}
    (h : e ≤ 0 ∨ n * 10 ^ e.toNat ≤ reach) : (Numeral.float? negative n e).isSome := by
  obtain ⟨x, hx⟩ := Option.isSome_iff_exists.mp (isSome_ofNat? hn)
  have hscale : (scaleByTen x e 4).isSome := by
    rcases le_or_gt e 0 with he | he
    · exact isSome_scaleByTen_of_nonpos (round?_eq_some Nat.one_pos hx).1 he 4
    · obtain ⟨k, rfl⟩ := Int.eq_ofNat_of_zero_le he.le
      exact isSome_scaleByTen hx hn (h.resolve_left (by omega)) 3
  obtain ⟨y, hy⟩ := Option.isSome_iff_exists.mp hscale
  rw [Option.isSome_iff_exists]
  exact ⟨_, Option.bind_eq_some_iff.mpr ⟨x, hx, Option.bind_eq_some_iff.mpr ⟨y, hy, rfl⟩⟩⟩

theorem isFinite_float? {negative : Bool} {n : Nat} {e : Int} {v : Number}
    (h : Numeral.float? negative n e = some v) : ∃ x, v = .float x ∧ x.IsFinite := by
  obtain ⟨x, hx, h⟩ := Option.bind_eq_some_iff.mp h
  obtain ⟨y, hy, h⟩ := Option.bind_eq_some_iff.mp h
  have hfinite := isFinite_scaleByTen (round?_eq_some Nat.one_pos hx).1 hy
  exact ⟨_, (Option.some.inj h).symm, hfinite.significand, hfinite.least, hfinite.greatest⟩

end Json
end Publishing
