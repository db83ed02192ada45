import Mathlib.Data.Option.Basic
import Publishing.Proofs.Digits
import Publishing.RunId
import Publishing.Time.Timestamp

/-
The texts of instants and of run ids read back.

An instant whose year is in range comes back from its text as it was, a leap second
included; any other is refused.  A run id always comes back.
-/

namespace Publishing

open Text

theorem Text.isBlank_of_isDigit {c : Char} (h : isDigit c) : isBlank c = false := by
  have hnat : 48 ≤ c.toNat ∧ c.toNat ≤ 57 := by
    simpa [isDigit, Char.le_def, UInt32.le_iff_toNat_le] using h
  simp only [isBlank, blankRanges, List.any_cons, List.any_nil, Bool.or_eq_false_iff,
    Bool.and_eq_false_iff, decide_eq_false_iff_not, and_true]
  omega

namespace Date

/-- A month of a date has two digits, and so has a day. -/
theorem ofDay_bounds (n : Int) : 1 ≤ (ofDay n).month ∧ (ofDay n).month ≤ 12 ∧
    1 ≤ (ofDay n).day ∧ (ofDay n).day ≤ 31 := by
  have hd : 0 ≤ (n + epochShift) % 146097 ∧ (n + epochShift) % 146097 < 146097 := by omega
  have hday := dayOfYear_bounds hd.1 hd.2
  have hm := monthOfYear_bounds hday.1 hday.2
  unfold ofDay
  dsimp only
  generalize (n + epochShift) % 146097 - daysBefore (yearOfCycle ((n + epochShift) % 146097)) =
    d at hday hm
  have hrest : 0 ≤ d - daysToMonth (monthOfYear d) ∧ d - daysToMonth (monthOfYear d) ≤ 30 := by
    unfold daysToMonth monthOfYear
    omega
  split
  · dsimp only
    omega
  · dsimp only
    omega

end Date

namespace Timestamp

theorem trimStartList_of_digit {c : Char} (cs : List Char) (h : isDigit c) :
    trimStartList (c :: cs) = c :: cs :=
  trimStartList_of_not_blank (isBlank_of_isDigit h)

/-- Digits in front stay when blanks are trimmed. -/
theorem trimStartList_padded (width n : Nat) (rest : List Char) :
    trimStartList (padded width n ++ rest) = padded width n ++ rest := by
  cases hp : padded width n with
  | nil => exact absurd hp (padded_ne_nil width n)
  | cons c cs =>
    exact trimStartList_of_digit _ (isDigit_of_mem_padded (hp ▸ List.mem_cons_self))

theorem readNumber_padded (width n : Nat) (hw : 0 < width) (h : n < 10 ^ width)
    (rest : List Char) : readNumber width (padded width n ++ rest) = some (n, rest) := by
  have hlen := length_padded hw h
  have htake : (padded width n ++ rest).take width = padded width n := by
    rw [List.take_append_of_le_length (Nat.le_of_eq hlen.symm), List.take_of_length_le
      (Nat.le_of_eq hlen)]
  have hall : (padded width n).takeWhile isDigit = padded width n := by
    have htake := (takeWhile_digits (padded width n) []
      (fun _ => isDigit_of_mem_padded) nofun).1
    rw [List.append_nil] at htake
    exact htake
  rw [readNumber, trimStartList_padded]
  simp only [htake, hall, if_neg (padded_ne_nil width n), numberOf_padded, List.drop_left]

theorem readMark_cons {c : Char} (h : isBlank c = false) (cs : List Char) :
    readMark c (c :: cs) = some cs := by
  rw [readMark, trimStartList_of_not_blank h]
  exact if_pos rfl

/-- Four digits and no sign. -/
theorem readYear_padded {n : Nat} (hn : n ≤ 9999) (rest : List Char) :
    readYear (padded 4 n ++ '-' :: rest) = some ((n : Int), '-' :: rest) := by
  have hread := readNumber_padded 4 n (by decide) (by omega) ('-' :: rest)
  cases hp : padded 4 n with
  | nil => exact absurd hp (padded_ne_nil _ _)
  | cons c cs =>
    have hc : isDigit c := isDigit_of_mem_padded (hp ▸ List.mem_cons_self)
    rw [hp, List.cons_append] at hread
    rw [List.cons_append]
    unfold readYear
    rw [trimStartList_of_digit _ hc]
    split
    · next heq =>
      rw [(List.cons.inj heq).1] at hc
      exact absurd hc (by decide)
    · next heq =>
      rw [(List.cons.inj heq).1] at hc
      exact absurd hc (by decide)
    · rw [hread]
      rfl

/-- Any number of digits after a sign. -/
theorem signed_padded (sign : Int) (n : Nat) (rest : List Char) :
    readYear.signed sign (padded 4 n ++ '-' :: rest) = some (sign * n, '-' :: rest) := by
  obtain ⟨htake, -⟩ := takeWhile_digits (padded 4 n) ('-' :: rest)
    (fun _ => isDigit_of_mem_padded) (fun c hc => by
      obtain rfl := Option.some.inj hc
      decide)
  unfold readYear.signed
  simp only [htake, if_neg (padded_ne_nil _ _), numberOf_padded, List.drop_left]

theorem readYear_yearText (year : Int) (rest : List Char) :
    readYear (yearText year ++ '-' :: rest) = some (year, '-' :: rest) := by
  unfold yearText
  split
  · next hy =>
    rw [readYear_padded (by omega), Int.toNat_of_nonneg hy.1]
  split
  · next hneg =>
    have hyear : -1 * (year.natAbs : Int) = year := by omega
    rw [List.cons_append, readYear, trimStartList_of_not_blank (by decide)]
    show readYear.signed (-1) _ = _
    rw [signed_padded, hyear]
  · next hneg =>
    have hyear : 1 * (year.natAbs : Int) = year := by omega
    rw [List.cons_append, readYear, trimStartList_of_not_blank (by decide)]
    show readYear.signed 1 _ = _
    rw [signed_padded, hyear]

theorem readDate_dateText (n : Int) (rest : List Char) :
    readDate (dateText (.ofDay n) ++ rest) = some (.ofDay n, rest) := by
  obtain ⟨hm₁, hm₂, hd₁, hd₂⟩ := Date.ofDay_bounds n
  have hmonth := readNumber_padded 2 (Date.ofDay n).month.toNat (by decide)
    (by omega) ('-' :: (padded 2 (Date.ofDay n).day.toNat ++ rest))
  have hday := readNumber_padded 2 (Date.ofDay n).day.toNat (by decide)
    (by omega) rest
  have htext : dateText (.ofDay n) ++ rest = yearText (Date.ofDay n).year ++
      '-' :: (padded 2 (Date.ofDay n).month.toNat ++
        '-' :: (padded 2 (Date.ofDay n).day.toNat ++ rest)) := by
    simp only [dateText, List.append_assoc, List.cons_append]
  rw [htext, readDate, readYear_yearText]
  simp only [bind, Option.bind, readMark_cons (show isBlank '-' = false by decide), hmonth, hday,
    pure, Option.some.injEq, Prod.mk.injEq, and_true]
  generalize Date.ofDay n = date at hm₁ hm₂ hd₁ hd₂
  cases date
  simp only [Date.mk.injEq, true_and] at hm₁ hm₂ hd₁ hd₂ ⊢
  omega

theorem readFraction_fractionText (nanos : Nat) (h : nanos < 1000000000) {rest : List Char}
    (hr : ∀ c, rest.head? = some c → isDigit c = false ∧ c ≠ '.') :
    readFraction (fractionText nanos ++ rest) = some (nanos, rest) := by
  have hdigits : ∀ {width n : Nat}, width ≤ 9 → 0 < width → n < 10 ^ width →
      readFraction ('.' :: padded width n ++ rest) = some (n * 10 ^ (9 - width), rest) := by
    intro width n hw hpos hn
    obtain ⟨htake, -⟩ := takeWhile_digits (padded width n) rest
      (fun _ => isDigit_of_mem_padded) (fun c hc => (hr c hc).1)
    have hlen := length_padded hpos hn
    have hused : (padded width n).take 9 = padded width n :=
      List.take_of_length_le (by omega)
    have hdrop : (padded width n ++ rest).drop (padded width n).length = rest := List.drop_left
    rw [hlen] at hdrop
    rw [List.cons_append, readFraction]
    simp only [htake, hused, if_neg (padded_ne_nil _ _), numberOf_padded, hlen, hdrop]
    rfl
  unfold fractionText
  split
  · next h0 =>
    rw [h0, List.nil_append]
    unfold readFraction
    split
    · exact absurd rfl (hr _ rfl).2
    · rfl
  · split
    · rw [hdigits (by decide) (by decide) (by omega)]
      simp only [Option.some.injEq, Prod.mk.injEq, and_true]
      omega
    · split
      · rw [hdigits (by decide) (by decide) (by omega)]
        simp only [Option.some.injEq, Prod.mk.injEq, and_true]
        omega
      · rw [hdigits (by decide) (by decide) (by omega)]
        simp

theorem secondOfDay_lt (t : Timestamp) : t.secondOfDay < 86400 := by
  unfold secondOfDay
  omega

/-- Only the last second of a minute holds more than a second. -/
theorem nanos_bound (t : Timestamp) :
    t.nanos < 1000000000 ∨ (t.nanos < 2000000000 ∧ t.secondOfDay % 60 = 59) := by
  rcases t.bounded with h | ⟨h, h'⟩
  · exact Or.inl h
  · refine Or.inr ⟨h, ?_⟩
    unfold secondOfDay
    omega

theorem readTime_timeText (t : Timestamp) (rest : List Char)
    (hr : ∀ c, rest.head? = some c → isDigit c = false ∧ c ≠ '.') :
    readTime (t.timeText ++ rest) = some (t.secondOfDay, t.nanos, rest) := by
  have hs := t.secondOfDay_lt
  have hn := t.nanos_bound
  generalize hsec : t.secondOfDay = s at hs hn
  have htext : t.timeText ++ rest = padded 2 (s / 3600) ++ ':' :: (padded 2 (s / 60 % 60) ++
      ':' :: (padded 2 (s % 60 + t.nanos / 1000000000) ++
        (fractionText (t.nanos % 1000000000) ++ rest))) := by
    simp only [timeText, hsec, List.append_assoc, List.cons_append]
  have hsecond : s % 60 + t.nanos / 1000000000 ≤ 60 := by omega
  have hguard : s / 3600 ≤ 23 ∧ s / 60 % 60 ≤ 59 ∧ s % 60 + t.nanos / 1000000000 ≤ 60 := by
    omega
  rw [htext, readTime]
  simp only [bind, Option.bind, readMark_cons (show isBlank ':' = false by decide),
    readNumber_padded 2 (s / 3600) (by decide) (by omega),
    readNumber_padded 2 (s / 60 % 60) (by decide) (by omega),
    readNumber_padded 2 (s % 60 + t.nanos / 1000000000) (by decide) (by omega),
    readFraction_fractionText (t.nanos % 1000000000) (by omega) hr, guard,
    if_pos hguard, pure, Option.some.injEq, Prod.mk.injEq, and_true]
  omega

/-- The text of an instant reads back as the instant, if its year is in range. -/
theorem ofText?_text (t : Timestamp) :
    ofText? t.text = if yearInRange t.date.year then some t else none := by
  have htext : t.text.toList = dateText t.date ++ 'T' :: (t.timeText ++ ['Z']) := by
    rw [text, String.toList_ofList, List.append_assoc, List.cons_append]
  have htime := t.readTime_timeText ['Z'] fun c hc => by
    obtain rfl := Option.some.inj hc
    decide
  have hparts : ofParts? (t.date.toDay * 86400 + t.secondOfDay - 0) t.nanos = some t := by
    have hseconds : t.date.toDay * 86400 + (t.secondOfDay : Int) - 0 = t.seconds := by
      rw [date, Date.toDay_ofDay]
      unfold secondOfDay
      omega
    rw [hseconds, ofParts?, dif_pos t.bounded]
  have hdate : t.date.inCalendar := Date.inCalendar_ofDay _
  rw [ofText?, htext]
  simp only [bind, Option.bind]
  rw [date, readDate_dateText, ← date]
  simp only [htime]
  have hoffset : readOffset (trimStartList ['Z']) = some (0, []) := by decide
  cases hyear : yearInRange t.date.year with
  | true =>
    simp only [hoffset, List.all_nil, hdate, hyear, and_self, guard, if_true, pure, hparts]
  | false =>
    simp only [hoffset, Bool.false_eq_true, false_and, and_false, guard, if_false]
    rfl

end Timestamp

namespace RunId

theorem length_hexDigits_bits (r : RunId) : (hexDigits 32 r.bits.toNat).length = 32 :=
  length_hexDigits 32 _

/-- The last hexadecimal digits of a number are worth its remainder. -/
theorem foldlM_hexDigits (count n m : Nat) :
    (hexDigits count n).foldlM (fun n c => (hexValue? c).map (n * 16 + ·)) m =
      some (m * 16 ^ count + n % 16 ^ count) := by
  induction count generalizing n with
  | zero => simp [hexDigits, Nat.mod_one]
  | succ count ih =>
    rw [hexDigits, List.foldlM_append, ih]
    have hd := hexValue?_hexDigit (n := n % 16) (Nat.mod_lt _ (by decide))
    simp only [bind, Option.bind, List.foldlM_cons, List.foldlM_nil, hd, Option.map_some, pure,
      Option.some.injEq]
    have hmod : n % 16 ^ (count + 1) = n / 16 % 16 ^ count * 16 + n % 16 := by
      rw [Nat.pow_succ, Nat.mul_comm (16 ^ count), Nat.mod_mul]
      omega
    rw [hmod, Nat.pow_succ, Nat.add_mul, Nat.mul_assoc]
    omega

theorem ofDigits?_hexDigits (r : RunId) : ofDigits? (hexDigits 32 r.bits.toNat) = some r := by
  have hmod : r.bits.toNat % 16 ^ 32 = r.bits.toNat := Nat.mod_eq_of_lt r.bits.isLt
  simp only [ofDigits?, length_hexDigits_bits, guard, if_true, bind, Option.bind, pure,
    foldlM_hexDigits, Nat.zero_mul, Nat.zero_add, hmod, BitVec.ofNat_toNat, BitVec.setWidth_eq]

/-- Five groups are found again between their hyphens. -/
theorem ungroup?_joined {a b c d e : List Char} (ha : a.length = 8) (hb : b.length = 4)
    (hc : c.length = 4) (hd : d.length = 4) (he : e.length = 12) :
    ungroup? (a ++ '-' :: (b ++ '-' :: (c ++ '-' :: (d ++ '-' :: e)))) =
      some (a ++ (b ++ (c ++ (d ++ e)))) := by
  have hmarks : [8, 13, 18, 23].all fun i =>
      (a ++ '-' :: (b ++ '-' :: (c ++ '-' :: (d ++ '-' :: e))))[i]? = some '-' := by
    simp [List.getElem?_append, ha, hb, hc, hd]
  have hlen : (a ++ '-' :: (b ++ '-' :: (c ++ '-' :: (d ++ '-' :: e)))).length = 36 := by
    simp [ha, hb, hc, hd, he]
  rw [ungroup?, hlen]
  simp only [hmarks, guard, if_true, bind, Option.bind, pure, Option.some.injEq]
  simp (disch := omega) [List.drop_append, List.drop_eq_nil_of_le, ha, hb, hc, hd]

theorem take_append_group (ds : List Char) (m n : Nat) (h : n = m + 4) :
    (ds.drop m).take 4 ++ ds.drop n = ds.drop m := by
  rw [h, ← List.drop_drop, List.take_append_drop]

theorem ofText?_text (r : RunId) : ofText? r.text = some r := by
  have hdigits := length_hexDigits_bits r
  have hread := ofDigits?_hexDigits r
  generalize hds : hexDigits 32 r.bits.toNat = ds at hdigits hread
  have htext : r.text.toList = ds.take 8 ++ '-' :: ((ds.drop 8).take 4 ++
      '-' :: ((ds.drop 12).take 4 ++ '-' :: ((ds.drop 16).take 4 ++ '-' :: ds.drop 20))) := by
    simp only [text, hds, String.toList_ofList, List.append_assoc, List.cons_append]
  have hgroups : ungroup? r.text.toList = some ds := by
    rw [htext, ungroup?_joined (by simp [hdigits]) (by simp [hdigits]) (by simp [hdigits])
      (by simp [hdigits]) (by simp [hdigits]), take_append_group ds 16 20 rfl,
      take_append_group ds 12 16 rfl, take_append_group ds 8 12 rfl, List.take_append_drop]
  have hlen : r.text.toList.length = 36 := by simp [htext, hdigits]
  have hurn : (r.text.toList.take 9).map Char.toLower ≠ "urn:uuid:".toList := by
    intro h
    have hmark : ((r.text.toList.take 9).map Char.toLower)[8]? = some '-' := by
      simp [htext, hdigits]
    rw [h] at hmark
    exact absurd hmark (by decide)
  rw [ofText?]
  simp only [hlen, if_neg hurn, hgroups]
  exact hread

end RunId
end Publishing
