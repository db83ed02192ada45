import Mathlib.Data.List.Infix
import Publishing.Proofs.Patterns

/-
What a pattern matches.

`Glob.accepts` reads a pattern and a text from the left, and `Glob.Describes` says what the text
has to be: one run of characters after the other, each of the kind that a part of the pattern
stands for.  An expression is matched with a flag for each end part of the text.  The flags before
a piece are read off the flags after it, and that they tell what the expression describes is an
induction over its pieces.  So the expression of a pattern matches what the pattern describes, and
nothing else.
-/

namespace Publishing

namespace RegexPiece

/-- Whether a piece stands for a text: for one character of its class, or for any number of them
if it is repeated. -/
def StandsFor (p : RegexPiece) (text : List Char) : Prop :=
  if p.starred then ∀ c ∈ text, p.chars.accepts c else ∃ c, text = [c] ∧ p.chars.accepts c

/-- Whether a text is what a piece stands for with something behind it that `Q` holds of. -/
def Before (p : RegexPiece) (Q : List Char → Prop) (text : List Char) : Prop :=
  ∃ run rest, text = run ++ rest ∧ p.StandsFor run ∧ Q rest

variable {p : RegexPiece} {Q : List Char → Prop} {c : Char} {text : List Char}

theorem before_nil : p.Before Q [] ↔ p.starred ∧ Q [] := by
  constructor
  · intro ⟨run, rest, htext, hrun, hrest⟩
    obtain ⟨rfl, rfl⟩ := List.append_eq_nil_iff.mp htext.symm
    refine ⟨?_, hrest⟩
    by_contra hs
    simp [StandsFor, hs] at hrun
  · intro ⟨hs, hrest⟩
    exact ⟨[], [], rfl, by simp [StandsFor, hs], hrest⟩

/-- A repeated piece may stand for nothing, and goes on after each character that it takes. -/
theorem before_cons_of_starred (hs : p.starred = true) :
    p.Before Q (c :: text) ↔ Q (c :: text) ∨ p.chars.accepts c ∧ p.Before Q text := by
  simp only [Before, StandsFor, hs, if_true]
  constructor
  · intro ⟨run, rest, htext, hrun, hrest⟩
    cases run with
    | nil => exact Or.inl (by simpa [htext] using hrest)
    | cons d run =>
      obtain ⟨rfl, rfl⟩ := List.cons.inj htext
      rw [List.forall_mem_cons] at hrun
      exact Or.inr ⟨hrun.1, run, rest, rfl, hrun.2, hrest⟩
  · intro h
    cases h with
    | inl h => exact ⟨[], c :: text, rfl, by simp, h⟩
    | inr h =>
      obtain ⟨hc, run, rest, rfl, hrun, hrest⟩ := h
      exact ⟨c :: run, rest, rfl, List.forall_mem_cons.mpr ⟨hc, hrun⟩, hrest⟩

theorem before_cons_of_single (hs : p.starred = false) :
    p.Before Q (c :: text) ↔ p.chars.accepts c ∧ Q text := by
  simp only [Before, StandsFor, hs, Bool.false_eq_true, if_false]
  constructor
  · intro ⟨run, rest, htext, ⟨d, hrun, hd⟩, hrest⟩
    subst hrun
    obtain ⟨rfl, rfl⟩ := List.cons.inj htext
    exact ⟨hd, hrest⟩
  · intro ⟨hc, hrest⟩
    exact ⟨[c], text, rfl, ⟨c, rfl, hc⟩, hrest⟩

end RegexPiece

namespace Regex

/-- Whether a text is what the pieces of an expression stand for, one after the other. -/
def Describes : Regex → List Char → Prop
  | [], text => text = []
  | p :: rest, text => p.Before (Describes rest) text

/-- Whether flags tell of each end part of a text, from the whole of it on, if `Q` holds of it. -/
def Tell (Q : List Char → Prop) (text : List Char) (flags : List Bool) : Prop :=
  List.Forall₂ (fun tail flag => flag = true ↔ Q tail) text.tails flags

variable {p : RegexPiece} {Q : List Char → Prop} {text : List Char} {flags : List Bool}

/-- The first flag is about the whole text. -/
theorem Tell.headD (h : Tell Q text flags) : flags.headD false = true ↔ Q text := by
  cases text with
  | nil =>
    cases h with
    | cons hflag _ => exact hflag
  | cons c text =>
    rw [Tell, List.tails_cons] at h
    cases h with
    | cons hflag _ => exact hflag

theorem tell_nil (text : List Char) :
    Tell (· = []) text (List.replicate text.length false ++ [true]) := by
  induction text with
  | nil => exact .cons (by simp) .nil
  | cons c text ih =>
    rw [Tell, List.tails_cons]
    exact .cons (by simp) ih

theorem Tell.precede (h : Tell Q text flags) (p : RegexPiece) :
    Tell (p.Before Q) text (precede p text flags) := by
  induction text generalizing flags with
  | nil =>
    cases h with
    | @cons _ flag _ _ hflag hrest =>
      cases hrest
      refine .cons ?_ .nil
      rw [RegexPiece.before_nil, Bool.and_eq_true, hflag]
  | cons c text ih =>
    rw [Tell, List.tails_cons] at h
    cases h with
    | @cons _ flag _ flags hflag hrest =>
      have htail := ih hrest
      rw [Tell, List.tails_cons]
      refine .cons ?_ htail
      cases hs : p.starred with
      | true =>
        rw [RegexPiece.before_cons_of_starred hs, ← htail.headD, ← hflag]
        simp
      | false =>
        rw [RegexPiece.before_cons_of_single hs, ← Tell.headD hrest]
        simp

/-- The flags of an expression tell what it describes. -/
theorem tell_matchedEnds (r : Regex) (text : List Char) :
    Tell r.Describes text (matchedEnds text r) := by
  induction r with
  | nil => exact tell_nil text
  | cons p rest ih => exact ih.precede p

theorem isMatch_iff (r : Regex) (text : String) : r.isMatch text ↔ r.Describes text.toList :=
  (tell_matchedEnds r text.toList).headD

end Regex

namespace Glob

/-! ## Reading a pattern from the left -/

/-- Whether some run of characters without `stop` can be left out at the start of a text, so that
the rest is accepted. -/
def acceptsRun (stop : Char) (rest : List Char → Bool) : List Char → Bool
  | [] => rest []
  | c :: text => rest (c :: text) || c ≠ stop && acceptsRun stop rest text

/-- Whether a pattern accepts the whole of a text. -/
def accepts : List Char → List Char → Bool
  | '*' :: '*' :: pattern, text => acceptsRun '\n' (accepts pattern) text
  | '*' :: pattern, text => acceptsRun '/' (accepts pattern) text
  | '?' :: pattern, c :: text => c ≠ '\n' && accepts pattern text
  | x :: pattern, c :: text => c = x && accepts pattern text
  | _ :: _, [] => false
  | [], text => text.isEmpty

/-- Whether a text is what a pattern stands for.  Two stars stand for a run without a line feed, a
star that is left of a run of stars for one without a slash, a question mark for a character but a
line feed, and everything else for itself. -/
def Describes : List Char → List Char → Prop
  | '*' :: '*' :: pattern, text =>
    ∃ run rest, text = run ++ rest ∧ '\n' ∉ run ∧ Describes pattern rest
  | '*' :: pattern, text => ∃ run rest, text = run ++ rest ∧ '/' ∉ run ∧ Describes pattern rest
  | '?' :: pattern, text => ∃ c rest, text = c :: rest ∧ c ≠ '\n' ∧ Describes pattern rest
  | x :: pattern, text => ∃ rest, text = x :: rest ∧ Describes pattern rest
  | [], text => text = []

theorem acceptsRun_iff {stop : Char} {f : List Char → Bool} {text : List Char} :
    acceptsRun stop f text ↔ ∃ run rest, text = run ++ rest ∧ stop ∉ run ∧ f rest := by
  induction text with
  | nil =>
    rw [acceptsRun]
    constructor
    · intro h
      exact ⟨[], [], rfl, by simp, h⟩
    · intro ⟨run, rest, htext, _, hrest⟩
      obtain ⟨rfl, rfl⟩ := List.append_eq_nil_iff.mp htext.symm
      exact hrest
  | cons c text ih =>
    rw [acceptsRun, Bool.or_eq_true, Bool.and_eq_true, ih, decide_eq_true_iff]
    constructor
    · intro h
      cases h with
      | inl h => exact ⟨[], c :: text, rfl, by simp, h⟩
      | inr h =>
        obtain ⟨hc, run, rest, rfl, hrun, hrest⟩ := h
        exact ⟨c :: run, rest, rfl, by simp [hrun, Ne.symm hc], hrest⟩
    · intro ⟨run, rest, htext, hrun, hrest⟩
      cases run with
      | nil => exact Or.inl (by simpa [htext] using hrest)
      | cons d run =>
        obtain ⟨rfl, rfl⟩ := List.cons.inj htext
        rw [List.mem_cons, not_or] at hrun
        exact Or.inr ⟨Ne.symm hrun.1, run, rest, rfl, hrun.2, hrest⟩

/-- The matcher accepts what the pattern stands for. -/
theorem accepts_iff (pattern text : List Char) : accepts pattern text ↔ Describes pattern text := by
  induction pattern, text using Describes.induct with
  | case1 pattern text ih =>
    rw [accepts, Describes, acceptsRun_iff]
    simp only [ih]
  | case2 pattern text hpair ih =>
    rw [accepts.eq_2 _ _ hpair, Describes.eq_2 _ _ hpair, acceptsRun_iff]
    simp only [ih]
  | case3 pattern text ih =>
    rw [Describes]
    cases text with
    | nil => simp [accepts]
    | cons c text => simp [accepts, ih]
  | case4 x pattern text hpair hstar hmark ih =>
    rw [Describes.eq_4 _ _ _ hpair hstar hmark]
    cases text with
    | nil => simp [accepts.eq_5 _ _ hpair hstar]
    | cons c text => simp [accepts.eq_4 _ _ _ _ hpair hstar hmark, ih]
  | case5 text => simp [accepts, Describes]

/-! ## The expression of a pattern -/

theorem parts_pair (pattern : List Char) : parts ('*' :: '*' :: pattern) = .text :: parts pattern :=
  rfl

theorem parts_star {pattern : List Char} (hpair : ∀ rest, pattern = '*' :: rest → False) :
    parts ('*' :: pattern) = .name :: parts pattern := by
  rw [parts, pairs.eq_2 _ _ fun rest _ hrest => hpair rest hrest]
  rfl

theorem parts_question (pattern : List Char) :
    parts ('?' :: pattern) = .character :: parts pattern := by
  rw [parts, pairs.eq_2 _ _ (by simp)]
  rfl

theorem parts_literal {c : Char} (hstar : c = '*' → False) (hmark : c = '?' → False)
    (pattern : List Char) : parts (c :: pattern) = .literal c :: parts pattern := by
  rw [parts, pairs.eq_2 _ _ fun _ hc _ => hstar hc]
  simp only [List.map_cons, standIn, Part.literal.injEq]
  rw [if_neg hstar, if_neg (by simpa using hmark)]
  rfl

variable {Q : List Char → Prop} {text : List Char}

/-- A repeated piece for all characters but one stands for a run without that one. -/
theorem before_run {k : CharClass} {stop : Char} (hk : ∀ c, k.accepts c = decide (c ≠ stop)) :
    RegexPiece.Before ⟨k, true⟩ Q text ↔
      ∃ run rest, text = run ++ rest ∧ stop ∉ run ∧ Q rest := by
  simp [RegexPiece.Before, RegexPiece.StandsFor, hk, List.forall_mem_ne']

theorem before_character : Part.character.piece.Before Q text ↔
    ∃ c rest, text = c :: rest ∧ c ≠ '\n' ∧ Q rest := by
  rw [exists_comm]
  simp [RegexPiece.Before, RegexPiece.StandsFor, Part.piece, CharClass.accepts]

theorem before_literal (c : Char) : (Part.literal c).piece.Before Q text ↔
    ∃ rest, text = c :: rest ∧ Q rest := by
  simp [RegexPiece.Before, RegexPiece.StandsFor, Part.piece, CharClass.accepts]

/-- The pieces of the parts of a pattern describe what the pattern does. -/
theorem describes_parts (pattern text : List Char) :
    Regex.Describes ((parts pattern).map Part.piece) text ↔ Describes pattern text := by
  induction pattern, text using Describes.induct with
  | case1 pattern text ih =>
    rw [parts_pair, List.map_cons, Regex.Describes, Part.piece, before_run fun _ => rfl, Describes]
    simp only [ih]
  | case2 pattern text hpair ih =>
    rw [parts_star hpair, List.map_cons, Regex.Describes, Part.piece, before_run fun _ => rfl,
      Describes.eq_2 _ _ hpair]
    simp only [ih]
  | case3 pattern text ih =>
    rw [parts_question, List.map_cons, Regex.Describes, before_character, Describes]
    simp only [ih]
  | case4 x pattern text hpair hstar hmark ih =>
    rw [parts_literal hstar hmark, List.map_cons, Regex.Describes, before_literal,
      Describes.eq_4 _ _ _ hpair hstar hmark]
    simp only [ih]
  | case5 text => exact Iff.rfl

theorem isMatch_iff_describes {pattern : String} {r : Regex} (h : compile? pattern = some r)
    (text : String) : r.isMatch text ↔ Describes pattern.toList text.toList := by
  rw [compile?_eq] at h
  rw [← Option.some.inj h, Regex.isMatch_iff, describes_parts]

/-- Every pattern has an expression, which matches a text just when the matcher that reads the
pattern and the text from the left accepts it: when the text is made of what the parts of the
pattern stand for. -/
theorem isMatch_eq_accepts (pattern : String) : ∃ r, compile? pattern = some r ∧
    ∀ text : String, r.isMatch text = accepts pattern.toList text.toList ∧
      (accepts pattern.toList text.toList ↔ Describes pattern.toList text.toList) := by
  refine ⟨_, compile?_eq pattern, fun text => ?_⟩
  have haccepts := accepts_iff pattern.toList text.toList
  refine ⟨?_, haccepts⟩
  rw [Bool.eq_iff_iff, haccepts]
  exact isMatch_iff_describes (compile?_eq pattern) text

example : accepts "a/***?".toList "a/b/c\nd".toList = true := by decide
example : accepts "a/**".toList "a/b\nc".toList = false := by decide

end Glob
end Publishing
