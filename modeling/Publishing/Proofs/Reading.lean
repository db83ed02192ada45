import Publishing.Json.Reader
import Publishing.Proofs.Numerals

/-
What the text of a value reads as.

The text of a value is read to its end, in either layout, and the tree that comes of it has
the strings, the items and the members of the value in their order.  Only numbers may come
back as others.
-/

namespace Publishing
namespace Json

open Text

/-! ## Strings -/

theorem readHex4_control {n : Nat} (h : n < 0x20) (rest : List Char) :
    readHex4 ('0' :: '0' :: hexDigit (n / 16) :: hexDigit (n % 16) :: rest) = some (n, rest) := by
  have h₁ := hexValue?_hexDigit (n := n / 16) (by omega)
  have h₂ := hexValue?_hexDigit (n := n % 16) (by omega)
  have h₀ : hexValue? '0' = some 0 := by decide
  simp only [readHex4, h₀, h₁, h₂, bind, Option.bind, pure]
  congr 2
  omega

/-- An escaped character is read as the character. -/
theorem readChar_escapeChar (c : Char) (rest : List Char) :
    readChar (escapeChar c ++ rest) = some (some c, rest) := by
  have hof : ∀ {n : Nat}, c.toNat = n → c = Char.ofNat n := by
    rintro _ rfl
    exact (Char.ofNat_toNat c).symm
  unfold escapeChar
  split
  · next h => rw [h]; rfl
  split
  · next h => rw [h]; rfl
  split
  · next h => rw [hof h]; rfl
  split
  · next h => rw [hof h]; rfl
  split
  · next h => rw [hof h]; rfl
  split
  · next h => rw [hof h]; rfl
  split
  · next h => rw [hof h]; rfl
  split
  · next h =>
    have hhigh : isHighSurrogate c.toNat = false := by
      simp only [isHighSurrogate, Bool.and_eq_false_iff, decide_eq_false_iff_not]
      omega
    have hlow : isLowSurrogate c.toNat = false := by
      simp only [isLowSurrogate, Bool.and_eq_false_iff, decide_eq_false_iff_not]
      omega
    show (readHex4 ('0' :: '0' :: hexDigit (c.toNat / 16) :: hexDigit (c.toNat % 16) ::
      rest)).map _ = _
    rw [readHex4_control h]
    show some (readCode c.toNat rest) = _
    unfold readCode
    simp only [hhigh, hlow, Bool.false_eq_true, if_false, Char.ofNat_toNat]
  · next hslash _ _ _ _ _ hcontrol =>
    show readChar (c :: rest) = _
    unfold readChar
    split
    · next heq => exact absurd (List.cons.inj heq).1 hslash
    · next heq => exact absurd (List.cons.inj heq).1 hslash
    · next heq => exact absurd (List.cons.inj heq).1 hslash
    · next heq =>
      obtain ⟨rfl, rfl⟩ := List.cons.inj heq
      rw [if_neg hcontrol]
    · next heq => cases heq

/-- No quotation mark stands in front of an escaped character. -/
theorem head?_escapeChar (c : Char) : (escapeChar c).head? ≠ some '"' := by
  unfold escapeChar
  repeat' split
  all_goals first
    | exact fun h => absurd (Option.some.inj h) (by decide)
    | exact fun h => absurd (Option.some.inj h) (by assumption)

theorem escapeChar_ne_nil (c : Char) : escapeChar c ≠ [] := by
  unfold escapeChar
  repeat' split
  all_goals exact List.cons_ne_nil _ _

theorem readString_escaped (cs : List Char) (sofar rest : List Char) (fuel : Nat)
    (hf : cs.length < fuel) :
    readString fuel (some sofar) (cs.flatMap escapeChar ++ '"' :: rest) =
      some (some (String.ofList (sofar.reverse ++ cs)), rest) := by
  induction cs generalizing sofar fuel with
  | nil =>
    cases fuel with
    | zero => exact absurd hf (Nat.not_lt_zero _)
    | succ fuel => simp [readString]
  | cons c cs ih =>
    cases fuel with
    | zero => exact absurd hf (Nat.not_lt_zero _)
    | succ fuel =>
      rw [List.flatMap_cons, List.append_assoc, readString]
      · rw [readChar_escapeChar]
        show readString fuel (some (c :: sofar)) _ = _
        rw [ih (c :: sofar) fuel (Nat.lt_of_succ_lt_succ hf), List.reverse_cons,
          List.append_assoc]
        rfl
      · intro more h
        apply head?_escapeChar c
        cases he : escapeChar c with
        | nil => exact absurd he (escapeChar_ne_nil c)
        | cons d ds =>
          rw [he] at h
          exact congrArg some (List.cons.inj h).1

theorem length_le_length_escaped (cs : List Char) : cs.length ≤ (cs.flatMap escapeChar).length := by
  induction cs with
  | nil => exact Nat.le_refl _
  | cons c cs ih =>
    have hpos := List.length_pos_iff.mpr (escapeChar_ne_nil c)
    rw [List.flatMap_cons, List.length_append, List.length_cons]
    omega

/-- A string in quotes is read, from after its opening quote. -/
theorem readString_render (s : String) (rest : List Char) :
    let body := s.toList.flatMap escapeChar ++ '"' :: rest
    readString (body.length + 1) (some []) body = some (some s, rest) := by
  intro body
  have hlen : s.toList.length < body.length + 1 := by
    have := length_le_length_escaped s.toList
    simp only [body, List.length_append, List.length_cons]
    omega
  rw [readString_escaped s.toList [] rest _ hlen]
  simp

/-! ## Space -/

theorem skipSpace_of_head {c : Char} (cs : List Char) (h : isSpace c = false) :
    skipSpace (c :: cs) = c :: cs := by
  rw [skipSpace, List.dropWhile_cons_of_neg (by simp [h])]

theorem skipSpace_append {sp : List Char} (h : ∀ c ∈ sp, isSpace c) (cs : List Char) :
    skipSpace (sp ++ cs) = skipSpace cs :=
  List.dropWhile_append_of_pos h

theorem skipSpace_skipSpace (cs : List Char) : skipSpace (skipSpace cs) = skipSpace cs := by
  induction cs with
  | nil => rfl
  | cons c cs ih =>
    by_cases h : isSpace c
    · have hc : skipSpace (c :: cs) = skipSpace cs := List.dropWhile_cons_of_pos h
      rw [hc]
      exact ih
    · rw [Bool.not_eq_true] at h
      rw [skipSpace_of_head cs h, skipSpace_of_head cs h]

theorem isSpace_of_mem_line {layout : Layout} {level : Nat} {c : Char}
    (h : c ∈ layout.line level) : isSpace c := by
  cases layout with
  | compact => exact absurd h nofun
  | pretty =>
    rcases List.mem_cons.mp h with rfl | h
    · decide
    · rw [(List.mem_replicate.mp h).2]
      decide

theorem skipSpace_line (layout : Layout) (level : Nat) (cs : List Char) :
    skipSpace (layout.line level ++ cs) = skipSpace cs :=
  skipSpace_append (fun _ => isSpace_of_mem_line) cs

theorem readTree_congr {cs cs' : List Char} (h : skipSpace cs = skipSpace cs') (fuel : Nat) :
    readTree fuel cs = readTree fuel cs' := by
  cases fuel with
  | zero => rfl
  | succ fuel => rw [readTree, readTree, h]

theorem readItems_congr {cs cs' : List Char} (h : skipSpace cs = skipSpace cs') (fuel : Nat) :
    readItems fuel cs = readItems fuel cs' := by
  cases fuel with
  | zero => rfl
  | succ fuel => rw [readItems, readItems, readTree_congr h fuel]

theorem readMembers_congr {cs cs' : List Char} (h : skipSpace cs = skipSpace cs') (fuel : Nat) :
    readMembers fuel cs = readMembers fuel cs' := by
  cases fuel with
  | zero => rfl
  | succ fuel => rw [readMembers, readMembers, h]

/-! ## Trees -/

mutual

/-- The tree that the text of a value reads as. -/
def Tree.written : Json → Tree
  | .null => .null
  | .bool b => .bool b
  | .number n => .number n.reread
  | .string s => .string (some s)
  | .array items => .array (writtenItems items) true
  | .object members => .object (writtenMembers members) true

def Tree.writtenItems : List Json → List Tree
  | [] => []
  | x :: xs => written x :: writtenItems xs

def Tree.writtenMembers : List (String × Json) → List (Option String × Tree)
  | [] => []
  | (k, x) :: xs => (some k, written x) :: writtenMembers xs

end

/-- What the text of a value can begin with. -/
def beginsValue (c : Char) : Bool :=
  isDigit c || ['n', 't', 'f', '"', '[', '\x7b', '-'].contains c

theorem isSpace_of_beginsValue {c : Char} (h : beginsValue c) :
    isSpace c = false ∧ c ≠ ']' := by
  constructor
  · cases hs : isSpace c with
    | false => rfl
    | true =>
      simp only [isSpace, Bool.or_eq_true, decide_eq_true_eq] at hs
      rcases hs with ((rfl | rfl) | rfl) | rfl <;> exact absurd h (by decide)
  · rintro rfl
    exact absurd h (by decide)

theorem head_numeral (n : Number) :
    ∃ c cs, n.numeral.text = c :: cs ∧ isDigit c := by
  have hw := n.wellFormed_numeral
  unfold Numeral.text
  cases hd : n.numeral.whole with
  | nil => exact absurd hd hw.whole_ne_nil
  | cons c cs => exact ⟨c, _, rfl, hw.whole c (hd ▸ List.mem_cons_self)⟩

theorem head_render (layout : Layout) (level : Nat) (v : Json) :
    ∃ c cs, render layout level v = c :: cs ∧ beginsValue c := by
  match v with
  | .null => exact ⟨_, _, rfl, by decide⟩
  | .bool true => exact ⟨_, _, rfl, by decide⟩
  | .bool false => exact ⟨_, _, rfl, by decide⟩
  | .number n =>
    rw [render, Number.renderNumber_eq]
    obtain ⟨c, cs, htext, hc⟩ := head_numeral n
    rw [htext]
    split
    · exact ⟨_, _, rfl, by decide⟩
    · exact ⟨_, _, rfl, by simp [beginsValue, hc]⟩
  | .string s => exact ⟨_, _, rfl, by decide⟩
  | .array [] => exact ⟨_, _, rfl, by decide⟩
  | .array (x :: xs) => exact ⟨_, _, rfl, by decide⟩
  | .object [] => exact ⟨_, _, rfl, by decide⟩
  | .object ((k, x) :: xs) => exact ⟨_, _, rfl, by decide⟩

theorem skipSpace_render (layout : Layout) (level : Nat) (v : Json) (rest : List Char) :
    skipSpace (render layout level v ++ rest) = render layout level v ++ rest := by
  obtain ⟨c, cs, hr, hc⟩ := head_render layout level v
  rw [hr]
  exact skipSpace_of_head _ (isSpace_of_beginsValue hc).1

theorem readTree_digit {c : Char} (cs : List Char) (h : isDigit c) (fuel : Nat) :
    readTree (fuel + 1) (c :: cs) = readNumber false (c :: cs) := by
  have hne : ∀ d, isDigit d = false → c ≠ d := by
    rintro d hd rfl
    rw [h] at hd
    cases hd
  have hspace : isSpace c = false :=
    (isSpace_of_beginsValue (by simp [beginsValue, h])).1
  rw [readTree, skipSpace_of_head cs hspace]
  split
  · next heq => exact absurd (List.cons.inj heq).1 (hne _ (by decide))
  · next heq => exact absurd (List.cons.inj heq).1 (hne _ (by decide))
  · next heq => exact absurd (List.cons.inj heq).1 (hne _ (by decide))
  · next heq => exact absurd (List.cons.inj heq).1 (hne _ (by decide))
  · next heq => exact absurd (List.cons.inj heq).1 (hne _ (by decide))
  · next heq => exact absurd (List.cons.inj heq).1 (hne _ (by decide))
  · next heq => exact absurd (List.cons.inj heq).1 (hne _ (by decide))
  · next heq =>
    obtain ⟨rfl, rfl⟩ := List.cons.inj heq
    rw [if_pos h]
  · next heq => cases heq

theorem readTree_number (n : Number) {rest : List Char} (hr : EndsNumber rest) (fuel : Nat) :
    readTree (fuel + 1) (renderNumber n ++ rest) = (.number n.reread, rest) := by
  have hread : readNumber n.numeral.negative (n.numeral.text ++ rest) =
      (.number n.reread, rest) := by
    rw [readNumber, readNumeral_text n.wellFormed_numeral hr]
    rfl
  rw [Number.renderNumber_eq]
  cases hneg : n.numeral.negative with
  | true =>
    rw [hneg] at hread
    exact hread
  | false =>
    rw [hneg] at hread
    obtain ⟨c, cs, htext, hc⟩ := head_numeral n
    rw [if_neg (by simp), List.nil_append, htext, List.cons_append, readTree_digit _ hc,
      ← List.cons_append, ← htext]
    exact hread

theorem endsNumber_line (layout : Layout) (level : Nat) {c : Char} (cs : List Char)
    (h : isDigit c = false ∧ c ≠ '.' ∧ c ≠ 'e' ∧ c ≠ 'E') :
    EndsNumber (layout.line level ++ c :: cs) := by
  cases layout with
  | compact => exact endsNumber_cons cs h
  | pretty => exact endsNumber_cons _ (by decide)

theorem skipSpace_colon (layout : Layout) (cs : List Char) :
    ∃ sp, layout.colon ++ cs = ':' :: sp ∧ skipSpace sp = skipSpace cs := by
  cases layout with
  | compact => exact ⟨cs, rfl, rfl⟩
  | pretty => exact ⟨' ' :: cs, rfl, skipSpace_append (List.forall_mem_singleton.mpr rfl) cs⟩

/-- Items after the first, and the bracket that closes them, begin with a comma, a bracket or a
line. -/
theorem endsNumber_items (layout : Layout) (level above : Nat) (xs : List Json)
    (rest : List Char) :
    EndsNumber (renderItems layout level xs ++ (layout.line above ++ ']' :: rest)) := by
  cases xs with
  | nil => exact endsNumber_line layout above rest (by decide)
  | cons x xs =>
    rw [renderItems]
    exact endsNumber_cons _ (by decide)

theorem endsNumber_members (layout : Layout) (level above : Nat) (xs : List (String × Json))
    (rest : List Char) :
    EndsNumber (renderMembers layout level xs ++ (layout.line above ++ '\x7d' :: rest)) := by
  cases xs with
  | nil => exact endsNumber_line layout above rest (by decide)
  | cons x xs =>
    obtain ⟨k, x⟩ := x
    rw [renderMembers]
    exact endsNumber_cons _ (by decide)

theorem readTree_string (s : String) (fuel : Nat) (rest : List Char) :
    readTree (fuel + 1) (renderString s ++ rest) = (.string (some s), rest) := by
  have hread := readString_render s rest
  dsimp only at hread
  have htext : renderString s ++ rest =
      '"' :: (s.toList.flatMap escapeChar ++ '"' :: rest) := by
    simp only [renderString, List.cons_append, List.append_assoc, List.nil_append]
  rw [htext, readTree, skipSpace_of_head _ (by decide)]
  simp only [hread]

/-- After a bracket the items are read, unless it is closed at once. -/
theorem readTree_bracket {c : Char} {cs rest : List Char} (h : skipSpace rest = c :: cs)
    (hc : c ≠ ']') (fuel : Nat) : readTree (fuel + 1) ('[' :: rest) =
      (.array (readItems fuel rest).1 (readItems fuel rest).2.1, (readItems fuel rest).2.2) := by
  have hskip : skipSpace (c :: cs) = c :: cs := by
    rw [← h]
    exact skipSpace_skipSpace rest
  rw [readItems_congr (h.trans hskip.symm), readTree, skipSpace_of_head _ (by decide)]
  simp only [h]
  split
  · next heq => exact absurd (List.cons.inj heq).1 hc
  · rfl

theorem readTree_brace {cs rest : List Char} (h : skipSpace rest = '"' :: cs) (fuel : Nat) :
    readTree (fuel + 1) ('\x7b' :: rest) =
      (.object (readMembers fuel rest).1 (readMembers fuel rest).2.1,
        (readMembers fuel rest).2.2) := by
  have hskip : skipSpace ('"' :: cs) = '"' :: cs := skipSpace_of_head _ (by decide)
  rw [readMembers_congr (h.trans hskip.symm), readTree, skipSpace_of_head _ (by decide)]
  simp only [h]
  split
  · next heq => exact absurd (List.cons.inj heq).1 (by decide)
  · rfl

mutual

/-- The text of a value reads as its tree, in front of any text that does not continue a
number. -/
theorem readTree_render (layout : Layout) (level : Nat) (v : Json) (fuel : Nat)
    (rest : List Char) (hf : (render layout level v).length ≤ fuel) (hr : EndsNumber rest) :
    readTree fuel (render layout level v ++ rest) = (Tree.written v, rest) := by
  obtain ⟨fuel, rfl⟩ : ∃ k, fuel = k + 1 := by
    obtain ⟨c, cs, hcs, -⟩ := head_render layout level v
    rw [hcs, List.length_cons] at hf
    exact ⟨fuel - 1, by omega⟩
  match v with
  | .null => rfl
  | .bool true => rfl
  | .bool false => rfl
  | .number n => exact readTree_number n hr fuel
  | .string s => exact readTree_string s fuel rest
  | .array [] => rfl
  | .array (x :: xs) =>
    simp only [render, List.length_cons, List.length_append] at hf
    have hitems := readItems_render layout (level + 1) level x xs fuel rest (by omega)
    have htext : render layout level (.array (x :: xs)) ++ rest =
        '[' :: (layout.line (level + 1) ++ (render layout (level + 1) x ++
          (renderItems layout (level + 1) xs ++ (layout.line level ++ ']' :: rest)))) := by
      simp only [render, List.cons_append, List.append_assoc, List.nil_append]
    obtain ⟨c, cs, hcs, hc⟩ := head_render layout (level + 1) x
    have hskip := skipSpace_line layout (level + 1) (render layout (level + 1) x ++
      (renderItems layout (level + 1) xs ++ (layout.line level ++ ']' :: rest)))
    have hstart := hskip.trans (skipSpace_render ..)
    conv at hstart => rhs; rw [hcs, List.cons_append]
    rw [htext, readTree_bracket hstart (isSpace_of_beginsValue hc).2, readItems_congr hskip,
      hitems]
    rfl
  | .object [] => rfl
  | .object ((k, x) :: xs) =>
    simp only [render, List.length_cons, List.length_append] at hf
    have hmembers := readMembers_render layout (level + 1) level k x xs fuel rest (by omega)
    have htext : render layout level (.object ((k, x) :: xs)) ++ rest =
        '\x7b' :: (layout.line (level + 1) ++ (renderString k ++ (layout.colon ++
          (render layout (level + 1) x ++ (renderMembers layout (level + 1) xs ++
            (layout.line level ++ '\x7d' :: rest)))))) := by
      simp only [render, List.cons_append, List.append_assoc, List.nil_append]
    have hskip := skipSpace_line layout (level + 1) (renderString k ++ (layout.colon ++
          (render layout (level + 1) x ++ (renderMembers layout (level + 1) xs ++
            (layout.line level ++ '\x7d' :: rest)))))
    rw [htext, readTree_brace (hskip.trans (skipSpace_of_head _ (by decide))),
      readMembers_congr hskip, hmembers]
    rfl
termination_by fuel

theorem readItems_render (layout : Layout) (level above : Nat) (x : Json) (xs : List Json)
    (fuel : Nat) (rest : List Char)
    (hf : (render layout level x).length + (renderItems layout level xs).length + 1 ≤ fuel) :
    readItems fuel (render layout level x ++ (renderItems layout level xs ++
        (layout.line above ++ ']' :: rest))) =
      (Tree.written x :: Tree.writtenItems xs, true, rest) := by
  obtain ⟨fuel, rfl⟩ : ∃ k, fuel = k + 1 := ⟨fuel - 1, by omega⟩
  have hx := readTree_render layout level x fuel
    (renderItems layout level xs ++ (layout.line above ++ ']' :: rest)) (by omega)
    (endsNumber_items layout level above xs rest)
  rw [readItems, hx]
  match xs with
  | [] =>
    simp only [renderItems, List.nil_append, skipSpace_line]
    rw [skipSpace_of_head _ (by decide)]
    rfl
  | y :: ys =>
    simp only [renderItems, List.length_cons, List.length_append] at hf
    have hys := readItems_render layout level above y ys fuel rest (by omega)
    have htext : renderItems layout level (y :: ys) ++ (layout.line above ++ ']' :: rest) =
        ',' :: (layout.line level ++ (render layout level y ++ (renderItems layout level ys ++
          (layout.line above ++ ']' :: rest)))) := by
      simp only [renderItems, List.cons_append, List.append_assoc]
    simp only [htext, skipSpace_of_head _ (show isSpace ',' = false by decide),
      readItems_congr (skipSpace_line layout level _), hys]
    rfl
termination_by fuel

theorem readMembers_render (layout : Layout) (level above : Nat) (k : String) (x : Json)
    (xs : List (String × Json)) (fuel : Nat) (rest : List Char)
    (hf : (renderString k).length + (render layout level x).length +
      (renderMembers layout level xs).length + 1 ≤ fuel) :
    readMembers fuel (renderString k ++ (layout.colon ++ (render layout level x ++
        (renderMembers layout level xs ++ (layout.line above ++ '\x7d' :: rest))))) =
      ((some k, Tree.written x) :: Tree.writtenMembers xs, true, rest) := by
  obtain ⟨fuel, rfl⟩ : ∃ k, fuel = k + 1 := ⟨fuel - 1, by omega⟩
  obtain ⟨sp, hcolon, hsp⟩ := skipSpace_colon layout (render layout level x ++
    (renderMembers layout level xs ++ (layout.line above ++ '\x7d' :: rest)))
  have hkey := readString_render k (':' :: sp)
  dsimp only at hkey
  have hx := readTree_render layout level x fuel
    (renderMembers layout level xs ++ (layout.line above ++ '\x7d' :: rest)) (by omega)
    (endsNumber_members layout level above xs rest)
  have htext : renderString k ++ (':' :: sp) =
      '"' :: (k.toList.flatMap escapeChar ++ '"' :: ':' :: sp) := by
    simp only [renderString, List.cons_append, List.append_assoc, List.nil_append]
  rw [hcolon, htext, readMembers, skipSpace_of_head _ (by decide)]
  simp only [hkey, skipSpace_of_head _ (show isSpace ':' = false by decide),
    readTree_congr hsp, hx]
  match xs with
  | [] =>
    simp only [renderMembers, List.nil_append, skipSpace_line]
    rw [skipSpace_of_head _ (by decide)]
    rfl
  | (k', y) :: ys =>
    simp only [renderMembers, List.length_cons, List.length_append] at hf
    have hys := readMembers_render layout level above k' y ys fuel rest (by omega)
    have htext : renderMembers layout level ((k', y) :: ys) ++
          (layout.line above ++ '\x7d' :: rest) =
        ',' :: (layout.line level ++ (renderString k' ++ (layout.colon ++
          (render layout level y ++ (renderMembers layout level ys ++
            (layout.line above ++ '\x7d' :: rest)))))) := by
      simp only [renderMembers, List.cons_append, List.append_assoc]
    simp only [htext, skipSpace_of_head _ (show isSpace ',' = false by decide),
      readMembers_congr (skipSpace_line layout level _), hys]
    rfl
termination_by fuel

end

/-- A text is read to its end, and as the tree of the value. -/
theorem ofText_render (layout : Layout) (v : Json) {sp : List Char} (h : ∀ c ∈ sp, isSpace c) :
    Tree.ofText (String.ofList (render layout 0 v ++ sp)) = (Tree.written v, true) := by
  have hends : EndsNumber sp := by
    intro c hc
    have hmem := h c (List.mem_of_mem_head? hc)
    simp only [isSpace, Bool.or_eq_true, decide_eq_true_eq] at hmem
    rcases hmem with ((rfl | rfl) | rfl) | rfl <;> decide
  have hread := readTree_render layout 0 v
    (2 * (render layout 0 v ++ sp).length + 2) sp
    (by rw [List.length_append]; omega) hends
  have hspace : skipSpace sp = [] := by
    have := skipSpace_append h []
    rw [List.append_nil] at this
    exact this
  simp only [Tree.ofText, String.toList_ofList, hread, hspace, decide_true]

end Json
end Publishing
