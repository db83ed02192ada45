import Publishing.Pattern.Glob

/-
What a pattern is compiled to.

The text of the expression is made by three replacements in the escaped pattern.  Here the
pattern is a list of parts, each written by itself, and each replacement is a change of parts:
what is looked for begins with a backslash and a mark, which stand together in no other place
than the writing of that mark.  So every pattern has an expression, with one piece for each part.
-/

namespace Publishing
namespace Glob

open Regex

/-- What stands for something in a pattern. -/
inductive Part where
  | literal (c : Char)
  /-- Two stars. -/
  | text
  /-- One star. -/
  | name
  /-- A question mark. -/
  | character
  deriving DecidableEq

namespace Part

/-- How a part is written in the text of an expression. -/
def written : Part → List Char
  | literal c => if isMeta c then ['\\', c] else [c]
  | text => ['.', '*']
  | name => ['[', '^', '/', ']', '*']
  | character => ['.']

def piece : Part → RegexPiece
  | literal c => ⟨.exactly c, false⟩
  | text => ⟨.notLineFeed, true⟩
  | name => ⟨.not '/', true⟩
  | character => ⟨.notLineFeed, false⟩

end Part

def write (ps : List Part) : List Char := ps.flatMap Part.written

/-- The parts of a pattern in which only pairs of stars stand for something else. -/
def pairs : List Char → List Part
  | '*' :: '*' :: rest => .text :: pairs rest
  | c :: rest => .literal c :: pairs rest
  | [] => []

/-- Let `q` stand wherever the character does. -/
def standIn (c : Char) (q p : Part) : Part := if p = .literal c then q else p

def parts (pattern : List Char) : List Part :=
  ((pairs pattern).map (standIn '*' .name)).map (standIn '?' .character)

theorem write_cons (p : Part) (ps : List Part) : write (p :: ps) = p.written ++ write ps :=
  List.flatMap_cons

theorem escape_eq_write (cs : List Char) : escape cs = write (cs.map .literal) := by
  induction cs with
  | nil => rfl
  | cons c rest ih =>
    rw [List.map_cons, write_cons, ← ih, escape, Part.written]
    split <;> rfl

/-- A mark that begins no writing. -/
def IsInner (x : Char) : Prop := isMeta x ∧ x ≠ '\\' ∧ x ≠ '.' ∧ x ≠ '['

instance (x : Char) : Decidable (IsInner x) := inferInstanceAs (Decidable (_ ∧ _))

theorem head?_written {x : Char} (hx : IsInner x) (p : Part) : p.written.head? ≠ some x := by
  obtain ⟨hmeta, hbackslash, hpoint, hbracket⟩ := hx
  cases p with
  | literal c =>
    rw [Part.written]
    split
    · exact fun h => hbackslash (Option.some.inj h).symm
    · next hc =>
      intro h
      rw [Option.some.inj h] at hc
      exact hc hmeta
  | text | character => exact fun h => hpoint (Option.some.inj h).symm
  | name => exact fun h => hbracket (Option.some.inj h).symm

theorem written_ne_nil (p : Part) : p.written ≠ [] := by
  cases p with
  | literal c =>
    rw [Part.written]
    split <;> nofun
  | text | name | character => nofun

theorem head?_write_append {x : Char} (hx : IsInner x) (ps : List Part) {rest : List Char}
    (hrest : rest.head? ≠ some x) : (write ps ++ rest).head? ≠ some x := by
  cases ps with
  | nil => exact hrest
  | cons p ps =>
    obtain ⟨c, cs, hp⟩ := List.exists_cons_of_ne_nil (written_ne_nil p)
    have hhead := head?_written hx p
    rw [hp] at hhead
    rw [write_cons, hp]
    exact hhead

theorem head?_write {x : Char} (hx : IsInner x) (ps : List Part) : (write ps).head? ≠ some x := by
  have h : (write ps ++ []).head? ≠ some x := head?_write_append hx ps nofun
  rwa [List.append_nil] at h

/-! ## Replacements -/

variable {old new : List Char}

theorem replaceAll_found (h : old ≠ []) {cs rest : List Char}
    (hd : dropStart? old cs = some rest) :
    replaceAll old new h cs = new ++ replaceAll old new h rest := by
  rw [replaceAll]
  split
  · next hd' => rw [Option.some.inj (hd.symm.trans hd')]
  · next hd' =>
    rw [hd] at hd'
    cases hd'

theorem replaceAll_cons (h : old ≠ []) {c : Char} {cs : List Char}
    (hd : dropStart? old (c :: cs) = none) :
    replaceAll old new h (c :: cs) = c :: replaceAll old new h cs := by
  rw [replaceAll]
  split
  · next hd' =>
    rw [hd] at hd'
    cases hd'
  · rfl

theorem replaceAll_nil (h : old ≠ []) : replaceAll old new h [] = [] := by
  obtain ⟨c, cs, rfl⟩ := List.exists_cons_of_ne_nil h
  rw [replaceAll]
  rfl

theorem dropStart?_of_ne {p c : Char} (h : c ≠ p) (pre cs : List Char) :
    dropStart? (p :: pre) (c :: cs) = none := by
  rw [dropStart?, if_neg h.symm]

theorem dropStart?_cons (c : Char) (pre cs : List Char) :
    dropStart? (c :: pre) (c :: cs) = dropStart? pre cs := by
  rw [dropStart?, if_pos rfl]

theorem dropStart?_of_head? {p : Char} {cs : List Char} (h : cs.head? ≠ some p)
    (pre : List Char) : dropStart? (p :: pre) cs = none := by
  cases cs with
  | nil => rfl
  | cons c cs => exact dropStart?_of_ne (fun hc => h (congrArg some hc)) pre cs

/-- What begins with a backslash is not found where there is none. -/
theorem replaceAll_append (h : '\\' :: old ≠ []) {l : List Char} (hl : '\\' ∉ l)
    (rest : List Char) :
    replaceAll ('\\' :: old) new h (l ++ rest) = l ++ replaceAll ('\\' :: old) new h rest := by
  induction l with
  | nil => rfl
  | cons c l ih =>
    have hc : c ≠ '\\' := fun hc => hl (hc ▸ List.mem_cons_self)
    have hnot : '\\' ∉ l := fun hb => hl (List.mem_cons_of_mem c hb)
    rw [List.cons_append, replaceAll_cons h (dropStart?_of_ne hc old _), ih hnot,
      List.cons_append]

/-- Neither is it in the writing of a character that is not the mark looked for. -/
theorem replaceAll_literal {x c : Char} (h : '\\' :: x :: old ≠ []) (hc : c ≠ x)
    {rest : List Char} (hrest : rest.head? ≠ some x) :
    replaceAll ('\\' :: x :: old) new h ((Part.literal c).written ++ rest) =
      (Part.literal c).written ++ replaceAll ('\\' :: x :: old) new h rest := by
  have hlast : replaceAll ('\\' :: x :: old) new h (c :: rest) =
      c :: replaceAll ('\\' :: x :: old) new h rest := by
    refine replaceAll_cons h ?_
    by_cases hb : c = '\\'
    · rw [hb, dropStart?_cons]
      exact dropStart?_of_head? hrest old
    · exact dropStart?_of_ne hb _ _
  rw [Part.written]
  split
  · have hfirst : dropStart? ('\\' :: x :: old) ('\\' :: c :: rest) = none := by
      rw [dropStart?_cons]
      exact dropStart?_of_ne hc old rest
    show replaceAll _ new h ('\\' :: c :: rest) = _
    rw [replaceAll_cons h hfirst, hlast]
    rfl
  · exact hlast

theorem replaceAll_pairs (h : ['\\', '*', '\\', '*'] ≠ []) (cs : List Char) :
    replaceAll ['\\', '*', '\\', '*'] Part.text.written h (write (cs.map .literal)) =
      write (pairs cs) := by
  have hstar : IsInner '*' := by decide
  induction cs using pairs.induct with
  | case1 rest ih =>
    rw [pairs, write_cons, ← ih]
    exact replaceAll_found h rfl
  | case2 c rest hne ih =>
    have hhead := head?_write hstar (rest.map .literal)
    rw [pairs.eq_2 c rest hne, List.map_cons, write_cons, write_cons, ← ih]
    by_cases hc : c = '*'
    · -- a star by itself: another one would have made a pair
      subst hc
      have hsingle : dropStart? ['\\', '*'] (write (rest.map .literal)) = none := by
        cases rest with
        | nil => rfl
        | cons c rest =>
          have hc : c ≠ '*' := fun hc => hne rest rfl (hc ▸ rfl)
          rw [List.map_cons, write_cons, Part.written]
          split
          · show dropStart? _ ('\\' :: c :: write (rest.map .literal)) = none
            rw [dropStart?_cons]
            exact dropStart?_of_ne hc _ _
          · next hmeta =>
            refine dropStart?_of_ne (fun hb => hmeta ?_) _ _
            rw [hb]
            decide
      have hfirst : dropStart? ['\\', '*', '\\', '*']
          ('\\' :: '*' :: write (rest.map .literal)) = none := by
        rw [dropStart?_cons, dropStart?_cons]
        exact hsingle
      show replaceAll _ _ h ('\\' :: '*' :: write (rest.map .literal)) =
        '\\' :: '*' :: replaceAll _ _ h (write (rest.map .literal))
      rw [replaceAll_cons h hfirst, replaceAll_cons h (dropStart?_of_ne (by decide) _ _)]
    · exact replaceAll_literal h hc hhead
  | case3 => exact replaceAll_nil h

theorem replaceAll_standIn {x : Char} (hx : IsInner x) (h : ['\\', x] ≠ []) (q : Part)
    (ps : List Part) :
    replaceAll ['\\', x] q.written h (write ps) = write (ps.map (standIn x q)) := by
  induction ps with
  | nil => exact replaceAll_nil h
  | cons p ps ih =>
    rw [List.map_cons, write_cons, write_cons, ← ih]
    unfold standIn
    split
    · next hp =>
      rw [hp, Part.written, if_pos hx.1]
      refine replaceAll_found h ?_
      show dropStart? ['\\', x] ('\\' :: x :: write ps) = _
      rw [dropStart?_cons, dropStart?_cons]
      rfl
    · next hp =>
      cases p with
      | literal c => exact replaceAll_literal h (fun hc => hp (hc ▸ rfl)) (head?_write hx ps)
      | text | name | character => exact replaceAll_append h (by decide) _

theorem regexText_eq (pattern : List Char) :
    regexText pattern = '^' :: write (parts pattern) ++ ['$'] := by
  have hstar : IsInner '*' := by decide
  have hquestion : IsInner '?' := by decide
  rw [regexText, escape_eq_write, parts]
  rw [← replaceAll_standIn hquestion (by decide), ← replaceAll_standIn hstar (by decide),
    ← replaceAll_pairs (by decide)]
  rfl

/-! ## Reading the expression -/

theorem readClass_literal (c : Char) (rest : List Char) :
    readClass ((Part.literal c).written ++ rest) = some (.exactly c, rest) := by
  rw [Part.written]
  split
  · next hc =>
    show readClass ('\\' :: c :: rest) = _
    rw [readClass, if_pos hc]
  · next hc =>
    have hne : ∀ x, isMeta x → c ≠ x := fun x hx h => hc (h ▸ hx)
    show readClass (c :: rest) = _
    unfold readClass
    split
    · next heq => exact absurd (List.cons.inj heq).1 (hne '\\' (by decide))
    · next heq => exact absurd (List.cons.inj heq).1 (hne '.' (by decide))
    · next heq => exact absurd (List.cons.inj heq).1 (hne '[' (by decide))
    · next heq =>
      obtain ⟨rfl, rfl⟩ := List.cons.inj heq
      rw [if_neg hc]
    · next heq => cases heq

theorem readPieces_starred {cs rest : List Char} {k : CharClass} (hne : cs ≠ ['$'])
    (hk : readClass cs = some (k, '*' :: rest)) :
    readPieces cs = (readPieces rest).map (⟨k, true⟩ :: ·) := by
  rw [readPieces, if_neg hne]
  split
  · next h =>
    rw [hk] at h
    cases h
  · next h =>
    rw [hk] at h
    cases h
    rfl
  · next hstar h =>
    rw [hk] at h
    cases h
    exact (hstar rest rfl).elim

theorem readPieces_single {cs rest : List Char} {k : CharClass} (hne : cs ≠ ['$'])
    (hk : readClass cs = some (k, rest)) (hrest : rest.head? ≠ some '*') :
    readPieces cs = (readPieces rest).map (⟨k, false⟩ :: ·) := by
  rw [readPieces, if_neg hne]
  split
  · next h =>
    rw [hk] at h
    cases h
  · next h =>
    rw [hk] at h
    cases h
    exact absurd rfl hrest
  · next h =>
    rw [hk] at h
    cases h
    rfl

/-- The piece of a part is read off its writing, if no star follows. -/
theorem readPieces_part (p : Part) {rest : List Char} (hrest : rest.head? ≠ some '*') :
    readPieces (p.written ++ rest) = (readPieces rest).map (p.piece :: ·) := by
  have hmark : IsInner '$' := by decide
  have hne : p.written ++ rest ≠ ['$'] := by
    obtain ⟨c, cs, hp⟩ := List.exists_cons_of_ne_nil (written_ne_nil p)
    have hhead := head?_written hmark p
    rw [hp] at hhead ⊢
    exact fun h => hhead (congrArg some (List.cons.inj h).1)
  cases p with
  | literal c => exact readPieces_single hne (readClass_literal c rest) hrest
  | text | name => exact readPieces_starred hne rfl
  | character => exact readPieces_single hne rfl hrest

theorem readPieces_write (ps : List Part) :
    readPieces (write ps ++ ['$']) = some (ps.map Part.piece) := by
  induction ps with
  | nil =>
    rw [readPieces]
    rfl
  | cons p ps ih =>
    rw [write_cons, List.append_assoc, readPieces_part p, ih]
    · rfl
    · exact head?_write_append (by decide) ps (by decide)

/-- Every pattern has an expression. -/
theorem compile?_eq (pattern : String) :
    compile? pattern = some ((parts pattern.toList).map Part.piece) := by
  rw [compile?, regexText_eq]
  exact readPieces_write _

end Glob
end Publishing
