import Mathlib.Data.List.TakeDrop
import Publishing.Json.Numeral
import Publishing.Json.Printer
import Publishing.Proofs.Digits

/-
Numbers as they are written, and what their text reads as.

Every number is written as a numeral that a reader takes back part by part.  An integer
that fits 64 bits has its own value back.  A double need not have: its digits are scaled by
rounded powers of ten when they are read.
-/

namespace Publishing

open Text

namespace Decimal

theorem den_powerOfTen_pos (p : Int) : 0 < (powerOfTen p).den := by
  unfold powerOfTen
  split
  · exact Nat.one_pos
  · exact Nat.pow_pos (by decide)

theorem Interval.onGrid?_eq_some {iv : Interval} {p : Int} {s : Scientific}
    (h : iv.onGrid? p = some s) : s.exponent = p ∧ iv.contains s.digits p := by
  unfold Interval.onGrid? at h
  dsimp only at h
  split at h
  · next h₁ h₂ =>
    obtain rfl := Option.some.inj h
    refine ⟨rfl, ?_⟩
    dsimp only
    split
    · exact h₁
    · exact h₂
  · next h₁ _ =>
    obtain rfl := Option.some.inj h
    exact ⟨rfl, h₁⟩
  · next _ h₂ =>
    obtain rfl := Option.some.inj h
    exact ⟨rfl, h₂⟩
  · cases h

/-- The decimal of a double is zero, or it has one of the places that are tried and lies in the
interval of the double. -/
theorem shortest_cases (x : Binary64) : shortest x = ⟨0, 0⟩ ∨
    leadingPlace x - 18 ≤ (shortest x).exponent ∧ (shortest x).exponent ≤ leadingPlace x + 1 ∧
      (Interval.of x).contains (shortest x).digits (shortest x).exponent := by
  unfold shortest
  split
  · exact Or.inl rfl
  · dsimp only
    split
    · next s hs =>
      obtain ⟨i, hi, hgrid⟩ := List.exists_of_findSome?_eq_some hs
      obtain ⟨hexp, hcontains⟩ := Interval.onGrid?_eq_some hgrid
      have := List.mem_range.mp hi
      exact Or.inr ⟨by omega, by omega, hexp ▸ hcontains⟩
    · exact Or.inl rfl

/-- The interval of a double other than zero is above zero. -/
theorem Interval.not_contains_zero {x : Binary64} (hx : x.significand ≠ 0) (p : Int) :
    (Interval.of x).contains 0 p = false := by
  have hlow : 0 < (Interval.of x).low := by
    unfold Interval.of
    dsimp only
    split <;> omega
  have hnum : 0 < (Binary64.Ratio.scaled (Interval.of x).low (Interval.of x).exponent).num := by
    unfold Binary64.Ratio.scaled
    split
    · exact Nat.mul_pos hlow (Nat.pow_pos (by decide))
    · exact hlow
  have hlt : (Interval.of x).compareTo 0 p (Interval.of x).low = .lt := by
    unfold Interval.compareTo
    dsimp only
    rw [Nat.zero_mul, Nat.zero_mul, Nat.compare_eq_lt]
    exact Nat.mul_pos hnum (den_powerOfTen_pos p)
  rw [Interval.contains, hlt]

/-- The decimal of a double always starts with a digit other than zero, unless it is
zero. -/
theorem digits_shortest (x : Binary64) :
    (shortest x).digits ≠ 0 ∨ shortest x = ⟨0, 0⟩ := by
  by_cases hx : x.significand = 0
  · exact Or.inr (by rw [shortest, if_pos hx])
  rcases shortest_cases x with hzero | ⟨-, -, hcontains⟩
  · exact Or.inr hzero
  · refine Or.inl fun hd => ?_
    rw [hd, Interval.not_contains_zero hx] at hcontains
    cases hcontains

end Decimal

namespace Json

namespace Numeral

def fractionText : Option (List Char) → List Char
  | some ds => '.' :: ds
  | none => []

def exponentText : Option (Bool × List Char) → List Char
  | some (negative, ds) => 'e' :: (if negative then '-' else '+') :: ds
  | none => []

/-- The text after the sign. -/
def text (n : Numeral) : List Char :=
  n.whole ++ fractionText n.fraction ++ exponentText n.exponent

/-- Parts that a number in JSON can have. -/
structure WellFormed (n : Numeral) : Prop where
  whole_ne_nil : n.whole ≠ []
  whole : ∀ c ∈ n.whole, isDigit c
  /-- A zero in front stands alone. -/
  whole_zero : n.whole.head? = some '0' → n.whole.length = 1
  fraction : ∀ ds, n.fraction = some ds → ds ≠ [] ∧ ∀ c ∈ ds, isDigit c
  exponent : ∀ p, n.exponent = some p → p.2 ≠ [] ∧ ∀ c ∈ p.2, isDigit c

end Numeral

/-- Whether a text cannot continue a number. -/
def EndsNumber (rest : List Char) : Prop :=
  ∀ c, rest.head? = some c → isDigit c = false ∧ c ≠ '.' ∧ c ≠ 'e' ∧ c ≠ 'E'

theorem endsNumber_cons {c : Char} (rest : List Char)
    (h : isDigit c = false ∧ c ≠ '.' ∧ c ≠ 'e' ∧ c ≠ 'E') : EndsNumber (c :: rest) := by
  intro d hd
  obtain rfl := Option.some.inj hd
  exact h

theorem readDigits_append {ds rest : List Char} (hd : ∀ c ∈ ds, isDigit c)
    (hr : ∀ c, rest.head? = some c → isDigit c = false) :
    readDigits (ds ++ rest) = (ds, rest) := by
  obtain ⟨htake, hdrop⟩ := takeWhile_digits _ _ hd hr
  rw [readDigits, List.span_eq_takeWhile_dropWhile, htake, hdrop]

theorem readExponentDigits_append (negative : Bool) {ds rest : List Char} (hne : ds ≠ [])
    (hd : ∀ c ∈ ds, isDigit c) (hr : ∀ c, rest.head? = some c → isDigit c = false) :
    readExponentDigits negative (ds ++ rest) = some (some (negative, ds), rest) := by
  rw [readExponentDigits, readDigits_append hd hr]
  cases ds with
  | nil => exact absurd rfl hne
  | cons c cs => rfl

/-- Reading an exponent, or its absence, gives it back.  What was read also ends a
fraction. -/
theorem readExponent_text {exponent : Option (Bool × List Char)}
    (h : ∀ p, exponent = some p → p.2 ≠ [] ∧ ∀ c ∈ p.2, isDigit c) {rest : List Char}
    (hr : EndsNumber rest) :
    readExponent (Numeral.exponentText exponent ++ rest) = some (exponent, rest) ∧
      ∀ c, (Numeral.exponentText exponent ++ rest).head? = some c →
        isDigit c = false ∧ c ≠ '.' := by
  match exponent, h with
  | none, _ =>
    refine ⟨?_, fun c hc => ⟨(hr c hc).1, (hr c hc).2.1⟩⟩
    show readExponent rest = _
    unfold readExponent
    split
    · exact absurd rfl (hr _ rfl).2.2.1
    · exact absurd rfl (hr _ rfl).2.2.2
    · exact absurd rfl (hr _ rfl).2.2.1
    · exact absurd rfl (hr _ rfl).2.2.2
    · exact absurd rfl (hr _ rfl).2.2.1
    · exact absurd rfl (hr _ rfl).2.2.2
    · rfl
  | some (negative, ds), h =>
    obtain ⟨hne, hd⟩ := h (negative, ds) rfl
    have hread := readExponentDigits_append negative hne hd fun c hc => (hr c hc).1
    refine ⟨?_, fun c hc => ?_⟩
    · cases negative <;> exact hread
    · obtain rfl := Option.some.inj hc
      decide

theorem readFraction_text {fraction : Option (List Char)}
    (h : ∀ ds, fraction = some ds → ds ≠ [] ∧ ∀ c ∈ ds, isDigit c) {rest : List Char}
    (hr : ∀ c, rest.head? = some c → isDigit c = false ∧ c ≠ '.') :
    readFraction (Numeral.fractionText fraction ++ rest) = some (fraction, rest) ∧
      ∀ c, (Numeral.fractionText fraction ++ rest).head? = some c → isDigit c = false := by
  match fraction, h with
  | none, _ =>
    refine ⟨?_, fun c hc => (hr c hc).1⟩
    show readFraction rest = _
    unfold readFraction
    split
    · exact absurd rfl (hr _ rfl).2
    · rfl
  | some ds, h =>
    obtain ⟨hne, hd⟩ := h ds rfl
    refine ⟨?_, fun c hc => ?_⟩
    · show readFraction ('.' :: (ds ++ rest)) = _
      rw [readFraction, readDigits_append hd fun c hc => (hr c hc).1]
      cases ds with
      | nil => exact absurd rfl hne
      | cons c cs => rfl
    · obtain rfl := Option.some.inj hc
      decide

/-- A reader takes a numeral back. -/
theorem readNumeral_text {n : Numeral} (h : n.WellFormed) {rest : List Char}
    (hr : EndsNumber rest) : readNumeral n.negative (n.text ++ rest) = some (n, rest) := by
  obtain ⟨hexponent, htail⟩ := readExponent_text h.exponent hr
  obtain ⟨hfraction, htail'⟩ := readFraction_text h.fraction htail
  rw [Numeral.text, List.append_assoc, List.append_assoc, readNumeral,
    readDigits_append h.whole htail']
  obtain ⟨negative, whole, fraction, exponent⟩ := n
  have hzero := h.whole_zero
  dsimp only at hzero hfraction hexponent ⊢
  split
  · exact absurd rfl h.whole_ne_nil
  · exact absurd (hzero rfl) (by simp)
  · simp [hfraction, hexponent]

/-! ## The numerals of numbers -/

/-- A decimal as a numeral in a layout. -/
def Numeral.ofScientific (layout : DecimalLayout) (negative : Bool) (s : Decimal.Scientific) :
    Numeral :=
  let ds := decimal s.digits
  let place : Int := (ds.length : Int) - 1 + s.exponent
  if layout.leastPlace ≤ place ∧ place < layout.greatestPlace then
    if 0 ≤ s.exponent then ⟨negative, ds ++ List.replicate s.exponent.toNat '0', some ['0'], none⟩
    else if 0 ≤ place then
      ⟨negative, ds.take (place.toNat + 1), some (ds.drop (place.toNat + 1)), none⟩
    else ⟨negative, ['0'], some (List.replicate (-place - 1).toNat '0' ++ ds), none⟩
  else
    ⟨negative, ds.take 1, if ds.drop 1 = [] then none else some (ds.drop 1),
      some (decide (place < 0), decimal place.natAbs)⟩

theorem text_ofScientific (layout : DecimalLayout) (negative : Bool) (s : Decimal.Scientific) :
    (Numeral.ofScientific layout negative s).text = renderScientific layout s := by
  unfold Numeral.ofScientific renderScientific
  dsimp only
  split
  · split
    · simp [Numeral.text, Numeral.fractionText, Numeral.exponentText]
    · split
      · simp [Numeral.text, Numeral.fractionText, Numeral.exponentText]
      · simp [Numeral.text, Numeral.fractionText, Numeral.exponentText]
  · by_cases hd : (decimal s.digits).drop 1 = []
    · simp only [if_pos hd, Numeral.text, Numeral.fractionText, Numeral.exponentText,
        decide_eq_true_eq]
    · simp only [if_neg hd, Numeral.text, Numeral.fractionText, Numeral.exponentText,
        decide_eq_true_eq]

theorem isDigit_zeros {k : Nat} {ds : List Char} (h : ∀ c ∈ ds, isDigit c) :
    (∀ c ∈ ds ++ List.replicate k '0', isDigit c) ∧
      ∀ c ∈ List.replicate k '0' ++ ds, isDigit c := by
  have hz : ∀ c ∈ List.replicate k '0', isDigit c := by
    intro c hc
    rw [(List.mem_replicate.mp hc).2]
    decide
  exact ⟨fun c hc => (List.mem_append.mp hc).elim (h c) (hz c),
    fun c hc => (List.mem_append.mp hc).elim (hz c) (h c)⟩

theorem wellFormed_ofScientific (layout : DecimalLayout) (negative : Bool)
    {s : Decimal.Scientific} (hs : s.digits ≠ 0 ∨ s = ⟨0, 0⟩) :
    (Numeral.ofScientific layout negative s).WellFormed := by
  have hdigits : ∀ c ∈ decimal s.digits, isDigit c := fun c => isDigit_of_mem_decimal
  have hne : decimal s.digits ≠ [] := decimal_ne_nil s.digits
  have hlen : 0 < (decimal s.digits).length := List.length_pos_iff.mpr hne
  have hzero : s.exponent ≠ 0 ∨ 1 < (decimal s.digits).length →
      (decimal s.digits).head? ≠ some '0' := by
    intro h
    rcases hs with hs | rfl
    · exact head?_decimal hs
    · exact absurd h (by decide)
  have hhead : ∀ {k : Nat}, 0 < k → ((decimal s.digits).take k).head? =
      (decimal s.digits).head? := by
    intro k hk
    rw [List.head?_take, if_neg (Nat.pos_iff_ne_zero.mp hk)]
  unfold Numeral.ofScientific
  dsimp only
  split
  · split
    · refine ⟨by simp [hne], (isDigit_zeros hdigits).1, fun h => ?_, ?_, nofun⟩
      · by_cases hcond : s.exponent ≠ 0 ∨ 1 < (decimal s.digits).length
        · refine absurd ?_ (hzero hcond)
          dsimp only at h
          rw [List.head?_append] at h
          cases hd : decimal s.digits with
          | nil => exact absurd hd hne
          | cons c cs =>
            rw [hd] at h
            exact h
        · have h0 : s.exponent = 0 := by omega
          simp [h0]
          omega
      · rintro _ ⟨⟩
        exact ⟨by simp, List.forall_mem_singleton.mpr rfl⟩
    · split
      · refine ⟨?_, fun c hc => hdigits c (List.mem_of_mem_take hc), fun h => ?_, ?_, nofun⟩
        · simp [hne]
        · rw [hhead (Nat.succ_pos _)] at h
          exact absurd h (hzero (Or.inl (by omega)))
        · rintro _ ⟨⟩
          refine ⟨fun h => ?_, fun c hc => hdigits c (List.mem_of_mem_drop hc)⟩
          rw [List.drop_eq_nil_iff] at h
          omega
      · refine ⟨by simp, fun c hc => ?_, fun _ => rfl, ?_, nofun⟩
        · rw [List.mem_singleton.mp hc]
          decide
        · rintro _ ⟨⟩
          exact ⟨by simp [hne], (isDigit_zeros hdigits).2⟩
  · refine ⟨?_, fun c hc => hdigits c (List.mem_of_mem_take hc), fun _ => ?_, ?_, ?_⟩
    · simp [hne]
    · simp only [List.length_take]
      omega
    · intro ds hds
      dsimp only at hds
      split at hds
      · cases hds
      · next hd =>
        obtain rfl := Option.some.inj hds
        exact ⟨hd, fun c hc => hdigits c (List.mem_of_mem_drop hc)⟩
    · rintro _ ⟨⟩
      exact ⟨decimal_ne_nil _, fun c => isDigit_of_mem_decimal⟩

end Json

namespace Number

open Json

/-- The numeral that a number is written as. -/
def numeral : Number → Numeral
  | int i => ⟨i < 0, decimal i.natAbs, none, none⟩
  | float x => .ofScientific decimalLayout x.negative (Decimal.shortest x)

/-- What the text of a number reads as: nothing beyond the greatest double. -/
def reread (n : Number) : Option Number := n.numeral.value?

theorem renderNumber_eq (n : Number) : renderNumber n =
    (if n.numeral.negative then ['-'] else []) ++ n.numeral.text := by
  cases n with
  | int i =>
    cases i with
    | ofNat n =>
      have : ¬ (Int.ofNat n < 0) := by simp
      simp [renderNumber, renderInt, numeral, Numeral.text, Numeral.fractionText,
        Numeral.exponentText]
    | negSucc n =>
      simp [renderNumber, renderInt, numeral, Numeral.text, Numeral.fractionText,
        Numeral.exponentText, Int.negSucc_lt_zero]
  | float x =>
    have hneg : (Numeral.ofScientific decimalLayout x.negative (Decimal.shortest x)).negative =
        x.negative := by
      unfold Numeral.ofScientific
      dsimp only
      split <;> (try split) <;> (try split) <;> rfl
    rw [numeral, hneg, text_ofScientific]
    rfl

theorem wellFormed_numeral (n : Number) : n.numeral.WellFormed := by
  cases n with
  | int i =>
    refine ⟨decimal_ne_nil _, fun c => isDigit_of_mem_decimal, fun h => ?_, nofun, nofun⟩
    by_cases hi : i.natAbs = 0
    · show (decimal i.natAbs).length = 1
      rw [hi]
      rfl
    · exact absurd h (head?_decimal hi)
  | float x => exact wellFormed_ofScientific _ _ (Decimal.digits_shortest x)

/-! ## Integers keep their value -/

theorem takeDigits_eq {ds : List Char} {n m : Nat} (h : takeDigits n ds = (m, [])) :
    m = ds.foldl (fun n c => n * 10 + digitValue c) n := by
  induction ds generalizing n with
  | nil => exact (Prod.mk.inj h).1.symm
  | cons c rest ih =>
    rw [takeDigits] at h
    split at h
    · exact ih h
    · exact absurd (Prod.mk.inj h).2 nofun

theorem le_foldl_digits (ds : List Char) (n : Nat) :
    n ≤ ds.foldl (fun n c => n * 10 + digitValue c) n := by
  induction ds generalizing n with
  | nil => exact Nat.le_refl n
  | cons c rest ih => exact Nat.le_trans (by omega) (ih (n * 10 + digitValue c))

theorem takeDigits_of_le {ds : List Char} {n : Nat}
    (h : ds.foldl (fun n c => n * 10 + digitValue c) n ≤ greatestNatural) :
    takeDigits n ds = (ds.foldl (fun n c => n * 10 + digitValue c) n, []) := by
  induction ds generalizing n with
  | nil => rfl
  | cons c rest ih =>
    rw [takeDigits, if_pos (Nat.le_trans (le_foldl_digits rest _) h)]
    exact ih h

theorem float?_ne_int {negative : Bool} {significand : Nat} {exponent i : Int} :
    Numeral.float? negative significand exponent ≠ some (.int i) := by
  intro h
  unfold Numeral.float? at h
  simp [bind, Option.bind_eq_some_iff] at h

/-- An integer reads as itself if it reads as an integer at all. -/
theorem reread_int {i j : Int} (h : (int i).reread = some (.int j)) : j = i := by
  unfold reread numeral Numeral.value? at h
  rcases htake : takeDigits 0 (decimal i.natAbs) with ⟨significand, dropped⟩
  rw [htake] at h
  dsimp only at h
  cases dropped with
  | nil =>
    have hs : significand = i.natAbs := by
      rw [takeDigits_eq htake]
      exact numberOf_decimal _
    dsimp only at h
    split at h
    · next hneg =>
      split at h
      · exact absurd h float?_ne_int
      · simp only [Option.some.injEq, int.injEq] at h
        simp only [decide_eq_true_eq] at hneg
        omega
    · next hneg =>
      simp only [Option.some.injEq, int.injEq] at h
      simp only [decide_eq_true_eq] at hneg
      omega
  | cons c cs => exact absurd h float?_ne_int

/-- An integer that fits 64 bits reads as itself. -/
theorem reread_int_of_fits {i : Int} (h : -9223372036854775808 ≤ i)
    (h' : i ≤ 18446744073709551615) : (int i).reread = some (.int i) := by
  have hnum : (decimal i.natAbs).foldl (fun n c => n * 10 + digitValue c) 0 = i.natAbs :=
    numberOf_decimal _
  have htake : takeDigits 0 (decimal i.natAbs) = (i.natAbs, []) := by
    rw [takeDigits_of_le (by rw [hnum]; unfold greatestNatural; omega), hnum]
  unfold reread numeral Numeral.value?
  rw [htake]
  dsimp only
  by_cases hneg : i < 0
  · simp only [hneg, decide_true, if_true]
    rw [if_neg (by omega)]
    simp only [Option.some.injEq, int.injEq]
    omega
  · simp only [hneg, decide_false, if_false, Bool.false_eq_true]
    simp only [Option.some.injEq, int.injEq]
    omega

end Number
end Publishing
