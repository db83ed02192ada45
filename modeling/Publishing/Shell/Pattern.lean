import Publishing.Shell.CharClass

/-
Patterns of the shell.  A star stands for any text, a question mark for any character,
and brackets for the characters in them or, after an exclamation mark, for those that
are not.  A backslash takes the meaning from what follows it.
-/

namespace Publishing
namespace Shell
namespace Pattern

/-- Whether a character is among those in brackets, and the length of the rest of the
brackets, if they are closed. -/
def bracketRest (fuel : Nat) (c : Char) (found : Bool) (size : Nat) (p : Bytes) :
    Option (Bool × Nat) :=
  match fuel, p with
  | 0, _ | _, [] => none
  | fuel + 1, a :: p =>
    let next (found : Bool) (size : Nat) (p : Bytes) : Option (Bool × Nat) :=
      match p with
      | ']' :: _ => some (found, size + 1)
      | p => bracketRest fuel c found size p
    match (if a = '[' then CharClass.front? p else none) with
    | some (isIn, n) => next (found || isIn c) (size + n + 1) (p.drop n)
    | none =>
      let (a, n, p) := match a, p with
        | '\\', b :: p => (b, 2, p)
        | a, p => (a, 1, p)
      match p with
      | '-' :: '\\' :: b :: p => next (found || (a ≤ c && c ≤ b)) (size + n + 3) p
      | '-' :: ']' :: p => next (found || a = c) (size + n) ('-' :: ']' :: p)
      | '-' :: b :: p => next (found || (a ≤ c && c ≤ b)) (size + n + 2) p
      | p => next (found || a = c) (size + n) p

/-- Whether a character is what brackets stand for, and the length of the brackets
after the first of them. -/
def bracket? (c : Char) : (p : Bytes) → Option (Bool × Nat)
  | '!' :: p => (bracketRest (p.length + 1) c false 1 p).map fun r => (!r.1, r.2)
  | p => bracketRest (p.length + 1) c false 0 p

/-- Whether a text has the form of a pattern. -/
def fits : (pattern text : Bytes) → Bool
  | [], text => text.isEmpty
  | '*' :: p, [] => fits p []
  | '*' :: p, c :: text => fits p (c :: text) || fits ('*' :: p) text
  | _ :: _, [] => false
  | '?' :: p, _ :: text => fits p text
  | '[' :: p, c :: text =>
    match bracket? c p with
    | some (found, n) => found && fits (p.drop n) text
    | none => c = '[' && fits p text
  | '\\' :: a :: p, c :: text => a = c && fits p text
  | a :: p, c :: text => a = c && fits p text
termination_by p text => p.length + text.length
decreasing_by
  all_goals simp only [List.length_cons, List.length_drop]; omega

/-- Whether anything in a pattern stands for more than itself. -/
def hasMeta : Bytes → Bool
  | [] => false
  | '\\' :: _ :: p => hasMeta p
  | c :: p => c = '*' || c = '?' || c = '[' || hasMeta p

/-- The text without the backslashes of a pattern. -/
def literal : Bytes → Bytes
  | [] => []
  | '\\' :: c :: p => c :: literal p
  | c :: p => c :: literal p

/-- A text up to its first zero byte. -/
def front (text : Bytes) : Bytes := text.takeWhile (· ≠ '\x00')

/-- What is left of a text when a pattern is taken away from its end or its
beginning, as little of it as can be, or as much.  A search from the left ends with the first
zero byte, and no part is compared beyond one. -/
def trim (atEnd longest : Bool) (pattern text : Bytes) : Bytes :=
  let fromLeft := List.range ((front text).length + 1)
  let fromRight := (List.range (text.length + 1)).reverse
  let places := if atEnd = longest then fromLeft else fromRight
  let part (n : Nat) : Bytes := front (if atEnd then text.drop n else text.take n)
  match places.find? fun n => fits pattern (part n) with
  | some n => if atEnd then text.take n else text.drop n
  | none => text

/-- What a search finds is taken away from one of the ends. -/
theorem trim_isSuffix_or_isPrefix (atEnd longest : Bool) (pattern text : Bytes) :
    trim atEnd longest pattern text <+: text ∨ trim atEnd longest pattern text <:+ text := by
  unfold trim
  simp only
  split
  · cases atEnd
    · exact .inr (List.drop_suffix _ _)
    · exact .inl (List.take_prefix _ _)
  · exact .inl (List.prefix_refl _)

example : fits "*.m[dx]".toList "a.md".toList = true := by decide +kernel
example : fits "[!0-9]*".toList "p1".toList = true := by decide +kernel
example : fits "[a".toList "[a".toList = true := by decide +kernel
example : trim true true ",*".toList "a,b,c".toList = ['a'] := by decide +kernel

end Pattern
end Shell
end Publishing
