import Publishing.Pattern.Regex

/-
Patterns over ids.

Two stars stand for any text without a line feed, one star for any text without a
slash, a question mark for any character but a line feed, and everything else for
itself.
-/

namespace Publishing
namespace Glob

/-- Whether `cs` begins with `pre`, and what follows it. -/
def dropStart? : (pre cs : List Char) → Option (List Char)
  | [], cs => some cs
  | p :: pre, c :: cs => if p = c then dropStart? pre cs else none
  | _ :: _, [] => none

theorem length_dropStart? {pre cs rest : List Char} (h : dropStart? pre cs = some rest) :
    cs.length = pre.length + rest.length := by
  induction pre generalizing cs with
  | nil => simp [dropStart?] at h; simp [h]
  | cons p pre ih =>
    cases cs with
    | nil => simp [dropStart?] at h
    | cons c cs =>
      unfold dropStart? at h
      split at h
      · have := ih h
        simp only [List.length_cons]
        omega
      · simp at h

/-- Replace what is found from the left, where two finds do not overlap. -/
def replaceAll (old new : List Char) (h : old ≠ []) (cs : List Char) : List Char :=
  match _hd : dropStart? old cs with
  | some rest => new ++ replaceAll old new h rest
  | none =>
    match cs with
    | [] => []
    | c :: cs => c :: replaceAll old new h cs
termination_by cs.length
decreasing_by
  · have := length_dropStart? _hd
    have : 0 < old.length := List.length_pos_iff.mpr h
    omega
  · simp

/-- The text of a regular expression that does what a pattern says. -/
def regexText (pattern : List Char) : List Char :=
  let cs := Regex.escape pattern
  let cs := replaceAll ['\\', '*', '\\', '*'] ['.', '*'] (by decide) cs
  let cs := replaceAll ['\\', '*'] ['[', '^', '/', ']', '*'] (by decide) cs
  let cs := replaceAll ['\\', '?'] ['.'] (by decide) cs
  '^' :: cs ++ ['$']

def compile? (pattern : String) : Option Regex := Regex.ofText? (regexText pattern.toList)

example : (compile? "guides/**").map (·.isMatch "guides/a/b") = some true := by decide +kernel
example : (compile? "guides/*").map (·.isMatch "guides/a/b") = some false := by decide +kernel
example : (compile? "a+?").map (·.isMatch "a+b") = some true := by decide +kernel

end Glob
end Publishing
