import Publishing.Proofs.Numerals
import Publishing.Proofs.Rounding

/-
Every double that is written reads as a double again.

The shortest decimal of a double lies within half a unit of it.  Reading scales its digits
by rounded powers of ten, and may miss the double, but it does not leave the range of the
doubles: the greatest one reads as itself, and the decimals of all others stay within
`Binary64.reach`.
-/

namespace Publishing

open Text

namespace Decimal

theorem value_powerOfTen (p : Int) : (powerOfTen p).value = 10 ^ p := by
  unfold powerOfTen
  split
  · next h =>
    obtain ⟨k, rfl⟩ := Int.eq_ofNat_of_zero_le h
    simp [Binary64.Ratio.value]
  · next h =>
    obtain ⟨k, rfl⟩ := Int.exists_eq_neg_ofNat (Int.le_of_lt (Int.not_le.mp h))
    simp [Binary64.Ratio.value]

theorem Interval.le_of_compareTo {iv : Interval} {d n : Nat} {p : Int}
    (h : iv.compareTo d p n ≠ .gt) : (d : ℚ) * 10 ^ p ≤ n * 2 ^ iv.exponent := by
  have ht : (0 : ℚ) < (powerOfTen p).den := by exact_mod_cast den_powerOfTen_pos p
  have hu : (0 : ℚ) < (Binary64.Ratio.scaled n iv.exponent).den := by
    exact_mod_cast Binary64.Ratio.den_scaled_pos _ _
  rw [Interval.compareTo, Nat.compare_ne_gt] at h
  rw [← value_powerOfTen, ← Binary64.Ratio.value_scaled, Binary64.Ratio.value,
    Binary64.Ratio.value, ← mul_div_assoc, div_le_div_iff₀ ht hu]
  exact_mod_cast h

theorem Interval.le_of_contains {iv : Interval} {d : Nat} {p : Int} (h : iv.contains d p) :
    (d : ℚ) * 10 ^ p ≤ iv.high * 2 ^ iv.exponent := by
  refine Interval.le_of_compareTo fun hgt => ?_
  unfold Interval.contains at h
  rw [hgt] at h
  cases hlow : iv.compareTo d p iv.low <;>
  · rw [hlow] at h
    cases h

end Decimal

namespace Binary64

open Decimal

/-- The greatest double, but for the sign. -/
def IsGreatest (x : Binary64) : Prop :=
  x.significand = 2 ^ 53 - 1 ∧ x.exponent = greatestExponent

instance (x : Binary64) : Decidable x.IsGreatest := inferInstanceAs (Decidable (_ ∧ _))

theorem leadingPlace_bounds {x : Binary64} (h : x.IsFinite) :
    -324 ≤ leadingPlace x ∧ leadingPlace x ≤ 308 := by
  have hlog : Nat.log2 x.significand < 53 := by
    by_cases hz : x.significand = 0
    · rw [hz]
      decide
    · exact (Nat.log2_lt hz).mpr h.significand
  have hleast : -1074 ≤ x.exponent := h.least
  have hgreatest : x.exponent ≤ 971 := h.greatest
  unfold leadingPlace
  omega

theorem reach_eq : (reach : ℚ) = (2 ^ 54 - 3) * 2 ^ (970 : Int) := by
  rw [reach, Nat.cast_mul, Nat.cast_pow]
  congr 1
  norm_num

/-- The upper end of the interval of a double other than the greatest. -/
theorem high_le_reach {x : Binary64} (h : x.IsFinite) (hne : ¬ x.IsGreatest) :
    ((Interval.of x).high : ℚ) * 2 ^ (Interval.of x).exponent ≤ reach := by
  have hreach : (reach : ℚ) = (2 ^ 55 - 6) * 2 ^ (969 : Int) := by
    rw [reach_eq, show (970 : Int) = 1 + 969 from rfl, zpow_one_add₀ (by norm_num)]
    generalize (2 : ℚ) ^ (969 : Int) = u
    ring
  have hpos : (0 : ℚ) < 2 ^ (969 : Int) := by positivity
  have hsig : x.significand < 2 ^ 53 := h.significand
  have hexp : x.exponent ≤ 971 := h.greatest
  show ((4 * x.significand + 2 : Nat) : ℚ) * 2 ^ (x.exponent - 2) ≤ reach
  rw [hreach]
  rcases Nat.lt_or_ge x.significand (2 ^ 53 - 1) with hlt | hge
  · have hnum : ((4 * x.significand + 2 : Nat) : ℚ) ≤ 2 ^ 55 - 6 := by
      have : 4 * x.significand + 2 + 6 ≤ 2 ^ 55 := by omega
      have : ((4 * x.significand + 2 : Nat) : ℚ) + 6 ≤ 2 ^ 55 := by exact_mod_cast this
      linarith
    have hpow : (2 : ℚ) ^ (x.exponent - 2) ≤ 2 ^ (969 : Int) :=
      zpow_le_zpow_right₀ (by norm_num) (by omega)
    exact mul_le_mul hnum hpow (by positivity) (by norm_num)
  · have hlt : x.exponent ≤ 970 := by
      have : x.exponent ≠ 971 := fun heq => hne ⟨by omega, heq⟩
      omega
    have hnum : ((4 * x.significand + 2 : Nat) : ℚ) ≤ 2 ^ 55 := by
      have : 4 * x.significand + 2 ≤ 2 ^ 55 := by omega
      exact_mod_cast this
    have hpow : (2 : ℚ) * 2 ^ (x.exponent - 2) ≤ 2 ^ (969 : Int) := by
      rw [← zpow_one_add₀ (by norm_num)]
      exact zpow_le_zpow_right₀ (by norm_num) (by omega)
    generalize (2 : ℚ) ^ (969 : Int) = u at hpos hpow ⊢
    have hnn : (0 : ℚ) < 2 ^ (x.exponent - 2) := by positivity
    calc ((4 * x.significand + 2 : Nat) : ℚ) * 2 ^ (x.exponent - 2)
        ≤ 2 ^ 55 * 2 ^ (x.exponent - 2) := mul_le_mul_of_nonneg_right hnum hnn.le
      _ ≤ (2 ^ 55 - 6) * u := by linarith

/-- The decimal of a double other than the greatest stays within reach. -/
theorem shortest_le_reach {x : Binary64} (h : x.IsFinite) (hne : ¬ x.IsGreatest) :
    ((shortest x).digits : ℚ) * 10 ^ (shortest x).exponent ≤ reach := by
  rcases shortest_cases x with hz | ⟨-, -, hcontains⟩
  · rw [hz, Nat.cast_zero, zero_mul]
    exact Nat.cast_nonneg reach
  · exact le_trans (Interval.le_of_contains hcontains) (high_le_reach h hne)

theorem exponent_shortest_bounds {x : Binary64} (h : x.IsFinite) :
    -342 ≤ (shortest x).exponent ∧ (shortest x).exponent ≤ 309 := by
  rcases shortest_cases x with hz | ⟨hlow, hhigh, -⟩
  · rw [hz]
    decide
  · have := leadingPlace_bounds h
    omega

end Binary64

namespace Json

/-! ## Numerals -/

theorem digitValue_le {c : Char} (h : isDigit c) : digitValue c ≤ 9 := by
  rw [isDigit, Bool.and_eq_true, decide_eq_true_eq, decide_eq_true_eq, Char.le_def,
    Char.le_def, UInt32.le_iff_toNat_le, UInt32.le_iff_toNat_le] at h
  have h9 : c.toNat ≤ '9'.toNat := h.2
  exact Nat.sub_le_sub_right h9 _

theorem foldl_digits_lt {ds : List Char} (h : ∀ c ∈ ds, isDigit c) (n : Nat) :
    ds.foldl (fun n c => n * 10 + digitValue c) n < (n + 1) * 10 ^ ds.length := by
  induction ds generalizing n with
  | nil => simp
  | cons c rest ih =>
    have hc := digitValue_le (h c List.mem_cons_self)
    refine lt_of_lt_of_le (ih (fun c hc => h c (List.mem_cons_of_mem _ hc)) _) ?_
    rw [List.length_cons, pow_succ', ← mul_assoc]
    refine Nat.mul_le_mul_right _ ?_
    dsimp only
    omega

theorem pow_le_foldl_digits (ds : List Char) (n : Nat) :
    n * 10 ^ ds.length ≤ ds.foldl (fun n c => n * 10 + digitValue c) n := by
  induction ds generalizing n with
  | nil => simp
  | cons c rest ih =>
    refine le_trans ?_ (ih (n * 10 + digitValue c))
    rw [List.length_cons, pow_succ', ← mul_assoc]
    exact Nat.mul_le_mul_right _ (Nat.le_add_right _ _)

/-- Digits that do not fit are left over, and what is taken is no more than all. -/
theorem takeDigits_spec {ds : List Char} {n m : Nat} {rest : List Char}
    (h : takeDigits n ds = (m, rest)) :
    m * 10 ^ rest.length ≤ ds.foldl (fun n c => n * 10 + digitValue c) n ∧
      rest.length ≤ ds.length ∧ (n ≤ greatestNatural → m ≤ greatestNatural) := by
  induction ds generalizing n with
  | nil =>
    obtain ⟨rfl, rfl⟩ := Prod.mk.inj h
    simp
  | cons c cs ih =>
    rw [takeDigits] at h
    split at h
    · next hle =>
      obtain ⟨hval, hlen, hm⟩ := ih h
      exact ⟨hval, Nat.le_succ_of_le hlen, fun _ => hm hle⟩
    · obtain ⟨rfl, rfl⟩ := Prod.mk.inj h
      exact ⟨pow_le_foldl_digits (c :: cs) n, Nat.le_refl _, id⟩

theorem takeDigits_of_length_le {ds : List Char} (h : ∀ c ∈ ds, isDigit c)
    (hl : ds.length ≤ 19) : takeDigits 0 ds = (numberOf ds, []) := by
  refine Number.takeDigits_of_le (Nat.le_of_lt_succ ?_)
  have hlt := foldl_digits_lt h 0
  rw [zero_add, one_mul] at hlt
  have hpow : 10 ^ ds.length ≤ 10 ^ 19 := Nat.pow_le_pow_right (by decide) hl
  exact lt_of_lt_of_le hlt (le_trans hpow (by decide))

namespace Numeral

/-- A number with a point and not too many digits before it. -/
theorem isSome_value?_of_fraction (negative : Bool) {whole fraction : List Char}
    (h : ∀ c ∈ whole, isDigit c) (hl : whole.length ≤ 19) :
    (value? ⟨negative, whole, some fraction, none⟩).isSome := by
  rcases htake : takeDigits (numberOf whole) fraction with ⟨significand, ignored⟩
  obtain ⟨-, hlen, hle⟩ := takeDigits_spec htake
  have hwhole := takeDigits_of_length_le h hl
  have hnum : numberOf whole ≤ greatestNatural :=
    (takeDigits_spec hwhole).2.2 (Nat.zero_le _)
  unfold value?
  simp only [hwhole, Option.getD_some, htake]
  exact isSome_float? negative (hle hnum) (Or.inl (by simp))

theorem exponentValue?_decimal {n : Nat} (h : n ≤ 2147483647) :
    exponentValue? (decimal n) = some n := by
  have hfold : ∀ (ds : List Char) (k : Nat),
      ds.foldl (fun n c => n * 10 + digitValue c) k ≤ 2147483647 →
      ds.foldl (fun (n : Option Nat) c => do
        let m := (← n) * 10 + digitValue c
        if m ≤ 2147483647 then some m else none) (some k) =
        some (ds.foldl (fun n c => n * 10 + digitValue c) k) := by
    intro ds
    induction ds with
    | nil => exact fun _ _ => rfl
    | cons c rest ih =>
      intro k hk
      have hle : k * 10 + digitValue c ≤ 2147483647 :=
        le_trans (Number.le_foldl_digits rest _) hk
      rw [List.foldl_cons, List.foldl_cons]
      show List.foldl _ (if k * 10 + digitValue c ≤ 2147483647 then
        some (k * 10 + digitValue c) else none) rest = _
      rw [if_pos hle]
      exact ih _ hk
  have hnum : (decimal n).foldl (fun n c => n * 10 + digitValue c) 0 = n := numberOf_decimal n
  rw [exponentValue?, hfold _ _ (by rw [hnum]; exact h), hnum]

/-- A number with an exponent and one digit before the point: with the sign of the exponent the
shift is what is left of the place. -/
theorem value?_of_exponent (negative : Bool) {c : Char} {cs : List Char} (h : isDigit c)
    {place : Int} (hplace : place.natAbs ≤ 1000) (hlen : cs.length ≤ 1000) {significand : Nat}
    {ignored : List Char} (htake : takeDigits (digitValue c) cs = (significand, ignored)) :
    value? ⟨negative, [c], if cs = [] then none else some cs,
      some (decide (place < 0), decimal place.natAbs)⟩ =
        float? negative significand (place - cs.length + ignored.length) := by
  obtain ⟨-, hignored, -⟩ := takeDigits_spec htake
  have hwhole : takeDigits 0 [c] = (digitValue c, []) := by
    have hone : takeDigits 0 [c] = (numberOf [c], []) :=
      takeDigits_of_length_le (by simpa using h) (show 1 ≤ 19 by decide)
    simpa [numberOf] using hone
  have hfraction : (if cs = [] then none else some cs).getD [] = cs := by
    split
    · next hcs => rw [hcs]; rfl
    · rfl
  have hexp : clampExponent (if decide (place < 0) = true then
      ((0 : Nat) : Int) - (cs.length - ignored.length : Nat) - place.natAbs
      else ((0 : Nat) : Int) - (cs.length - ignored.length : Nat) + place.natAbs) =
      place - cs.length + ignored.length := by
    unfold clampExponent
    split
    · next hneg =>
      have := of_decide_eq_true hneg
      omega
    · next hpos =>
      have : ¬ place < 0 := fun hneg => hpos (decide_eq_true hneg)
      omega
  generalize (if cs = [] then none else some cs) = fraction at hfraction ⊢
  unfold value?
  cases fraction <;>
  · simp only [hwhole, hfraction, htake, exponentValue?_decimal (le_trans hplace (by decide)),
      List.length_nil]
    rw [hexp]

/-- Within reach such a number is a double. -/
theorem isSome_value?_of_exponent (negative : Bool) {c : Char} {cs : List Char}
    (h : isDigit c) {place : Int} (hplace : place.natAbs ≤ 1000) (hlen : cs.length ≤ 1000)
    (hreach : (numberOf (c :: cs) : ℚ) * 10 ^ (place - cs.length) ≤ Binary64.reach) :
    (value? ⟨negative, [c], if cs = [] then none else some cs,
      some (decide (place < 0), decimal place.natAbs)⟩).isSome := by
  rcases htake : takeDigits (digitValue c) cs with ⟨significand, ignored⟩
  obtain ⟨hval, -, hle⟩ := takeDigits_spec htake
  have hle := hle (le_trans (digitValue_le h) (by decide))
  rw [value?_of_exponent negative h hplace hlen htake]
  refine isSome_float? negative hle ?_
  rcases le_or_gt (place - cs.length + ignored.length) 0 with he | he
  · exact Or.inl he
  refine Or.inr ?_
  obtain ⟨k, hk⟩ := Int.eq_ofNat_of_zero_le he.le
  have hnum : significand * 10 ^ ignored.length ≤ numberOf (c :: cs) := by
    simpa [numberOf] using hval
  have hscaled : ((significand * 10 ^ k : Nat) : ℚ) ≤ Binary64.reach := by
    calc ((significand * 10 ^ k : Nat) : ℚ)
        = (significand : ℚ) * 10 ^ (place - cs.length + ignored.length) := by
          rw [hk]
          push_cast
          rw [zpow_natCast]
      _ = ((significand * 10 ^ ignored.length : Nat) : ℚ) * 10 ^ (place - cs.length) := by
          rw [zpow_add₀ (by norm_num), zpow_natCast]
          push_cast
          ring
      _ ≤ (numberOf (c :: cs) : ℚ) * 10 ^ (place - cs.length) :=
          mul_le_mul_of_nonneg_right (by exact_mod_cast hnum) (by positivity)
      _ ≤ Binary64.reach := hreach
  rw [hk, Int.toNat_natCast]
  exact_mod_cast hscaled

end Numeral
end Json

namespace Number

open Decimal Json

theorem length_digits_shortest_le {x : Binary64} (h : x.IsFinite) (hne : ¬ x.IsGreatest) :
    (decimal (shortest x).digits).length ≤ 651 := by
  obtain ⟨hlow, -⟩ := Binary64.exponent_shortest_bounds h
  have hreach := Binary64.shortest_le_reach h hne
  generalize shortest x = s at hlow hreach
  have hpos : (0 : ℚ) < 10 ^ s.exponent := by positivity
  have hdigits : (s.digits : ℚ) ≤ ((Binary64.reach * 10 ^ 342 : Nat) : ℚ) := by
    rw [← le_div_iff₀ hpos] at hreach
    refine le_trans hreach ?_
    rw [div_le_iff₀ hpos, Nat.cast_mul, Nat.cast_pow, Nat.cast_ofNat, mul_assoc]
    refine le_mul_of_one_le_right (by positivity) ?_
    rw [← zpow_natCast, ← zpow_add₀ (by norm_num)]
    exact one_le_zpow₀ (by norm_num) (by omega)
  have hlt : s.digits < 10 ^ 651 :=
    lt_of_le_of_lt (Nat.cast_le.mp hdigits) (by decide +kernel)
  exact (Nat.length_toDigits_le_iff (by decide) (by decide)).mpr hlt

theorem isSome_value?_ofScientific (negative : Bool) {s : Scientific}
    (hlow : -342 ≤ s.exponent) (hhigh : s.exponent ≤ 309)
    (hlen : (decimal s.digits).length ≤ 651)
    (hreach : (s.digits : ℚ) * 10 ^ s.exponent ≤ Binary64.reach) :
    (Numeral.ofScientific decimalLayout negative s).value?.isSome := by
  have hdigits : ∀ c ∈ decimal s.digits, isDigit c := fun c => isDigit_of_mem_decimal
  unfold Numeral.ofScientific
  dsimp only
  split
  · -- with a point there are no more than sixteen digits before it
    next hpoint =>
    change _ ∧ _ < (16 : Int) at hpoint
    split
    · refine Numeral.isSome_value?_of_fraction _ (isDigit_zeros hdigits).1 ?_
      rw [List.length_append, List.length_replicate]
      omega
    · split
      · refine Numeral.isSome_value?_of_fraction _
          (fun c hc => hdigits c (List.mem_of_mem_take hc)) ?_
        rw [List.length_take]
        omega
      · exact Numeral.isSome_value?_of_fraction _ (List.forall_mem_singleton.mpr rfl)
          (show 1 ≤ 19 by decide)
  · obtain ⟨c, cs, hcs⟩ := List.exists_cons_of_ne_nil (decimal_ne_nil s.digits)
    have hnum : numberOf (c :: cs) = s.digits := hcs ▸ numberOf_decimal s.digits
    rw [hcs] at hdigits hlen ⊢
    rw [List.length_cons] at hlen ⊢
    rw [List.take_succ_cons, List.take_zero, List.drop_succ_cons, List.drop_zero]
    have hplace : ((cs.length + 1 : Nat) : Int) - 1 + s.exponent - cs.length = s.exponent := by
      omega
    refine Numeral.isSome_value?_of_exponent _ (hdigits c List.mem_cons_self) ?_ ?_ ?_
    · omega
    · omega
    · rw [hnum, hplace]
      exact hreach

/-- A double is not too great for its own text. -/
theorem isSome_reread_float {x : Binary64} (h : x.IsFinite) : (float x).reread.isSome := by
  by_cases hgreatest : x.IsGreatest
  · obtain ⟨negative, significand, exponent⟩ := x
    obtain ⟨rfl, rfl⟩ : significand = 2 ^ 53 - 1 ∧ exponent = Binary64.greatestExponent :=
      hgreatest
    cases negative
    · decide +kernel
    · decide +kernel
  · obtain ⟨hlow, hhigh⟩ := Binary64.exponent_shortest_bounds h
    exact isSome_value?_ofScientific x.negative hlow hhigh (length_digits_shortest_le h hgreatest)
      (Binary64.shortest_le_reach h hgreatest)

/-- What a number can be that was read: an integer of 64 bits, or a finite double. -/
def IsRepresentable : Number → Prop
  | int i => -9223372036854775808 ≤ i ∧ i ≤ 18446744073709551615
  | float x => x.IsFinite

theorem isSome_reread {n : Number} (h : n.IsRepresentable) : n.reread.isSome := by
  cases n with
  | int i =>
    rw [reread_int_of_fits h.1 h.2]
    rfl
  | float x => exact isSome_reread_float h

theorem isRepresentable_float? {negative : Bool} {significand : Nat} {e : Int} {n : Number}
    (h : Numeral.float? negative significand e = some n) : n.IsRepresentable := by
  obtain ⟨x, rfl, hx⟩ := isFinite_float? h
  exact hx

theorem isRepresentable_value? {m : Numeral} {n : Number} (h : m.value? = some n) :
    n.IsRepresentable := by
  rcases htake : takeDigits 0 m.whole with ⟨significand, dropped⟩
  have hle : significand ≤ greatestNatural := (takeDigits_spec htake).2.2 (Nat.zero_le _)
  unfold greatestNatural at hle
  unfold Numeral.value? at h
  rw [htake] at h
  dsimp only at h
  split at h
  · split at h
    · split at h
      · exact isRepresentable_float? h
      · obtain rfl := Option.some.inj h
        constructor <;> omega
    · obtain rfl := Option.some.inj h
      constructor <;> omega
  · split at h
    · exact isRepresentable_float? h
    · split at h
      · exact isRepresentable_float? h
      · split at h
        · cases h
        · obtain rfl := Option.some.inj h
          exact Binary64.isFinite_zero _

end Number
end Publishing
