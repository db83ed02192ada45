/-
Blank characters and the trimming of text.

A character is blank when it has the Unicode property `White_Space`.  Core's
`Char.isWhitespace` knows only the blanks of ASCII, and lists fewer of those.
-/
namespace Publishing
namespace Text

/-- The property `White_Space`, as closed ranges of code points. -/
def blankRanges : List (Nat × Nat) :=
  [(0x09, 0x0d), (0x20, 0x20), (0x85, 0x85), (0xa0, 0xa0), (0x1680, 0x1680),
   (0x2000, 0x200a), (0x2028, 0x2029), (0x202f, 0x202f), (0x205f, 0x205f),
   (0x3000, 0x3000)]

def isBlank (c : Char) : Bool :=
  blankRanges.any fun r => r.1 ≤ c.toNat && c.toNat ≤ r.2

def trimStartList (cs : List Char) : List Char := cs.dropWhile isBlank

def trimEndList (cs : List Char) : List Char := (cs.reverse.dropWhile isBlank).reverse

def trimList (cs : List Char) : List Char := trimEndList (trimStartList cs)

/-- `s` without its leading and trailing blanks. -/
def trim (s : String) : String := String.ofList (trimList s.toList)

/-- Whether nothing is left of `s` once its blanks are trimmed. -/
def isBlankText (s : String) : Bool := s.toList.all isBlank

/-- Lower case for the letters of ASCII, every other character unchanged. -/
def lowerAscii (s : String) : String := s.map Char.toLower

theorem isBlank_of_isWhitespace {c : Char} (h : c.isWhitespace) : isBlank c := by
  simp only [Char.isWhitespace, Bool.or_eq_true, decide_eq_true_eq] at h
  rcases h with ((h | h) | h) | h <;> subst h <;> decide

theorem trimStartList_of_not_blank {c : Char} {cs : List Char} (h : isBlank c = false) :
    trimStartList (c :: cs) = c :: cs := by
  simp [trimStartList, h]

theorem trimList_of_all_blank {cs : List Char} (h : cs.all isBlank) : trimList cs = [] := by
  have hd : cs.dropWhile isBlank = [] := by
    induction cs with
    | nil => rfl
    | cons c rest ih =>
      rw [List.all_cons, Bool.and_eq_true] at h
      rw [List.dropWhile_cons_of_pos h.1]
      exact ih h.2
  simp [trimList, trimStartList, trimEndList, hd]

end Text
end Publishing
