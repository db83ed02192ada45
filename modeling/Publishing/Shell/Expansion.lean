import Publishing.Shell.Arithmetic
import Publishing.Shell.Field
import Publishing.Shell.State

/-
How the words of a command expand.  What a command prints within a word is found by the
given function.
-/

namespace Publishing
namespace Shell

/-- Where a tilde stands for the home directory. -/
inductive TildeUse where
  | never
  | first
  /-- Also after a colon. -/
  | assignment
  deriving DecidableEq

/-- How a word expands. -/
structure Expansion where
  quoted : Bool
  /-- Whether it may become several fields. -/
  toFields : Bool
  /-- Whether plain text in it may be split. -/
  splitsText : Bool
  tilde : TildeUse

namespace Expansion

def fields : Expansion := ⟨false, true, false, .first⟩

def single : Expansion := ⟨false, false, false, .first⟩

def assigned : Expansion := ⟨false, false, false, .assignment⟩

def document : Expansion := ⟨true, false, false, .never⟩

/-- How the word beside a parameter expands. -/
def beside (m : Expansion) (quoted : Bool) : Expansion := ⟨quoted, m.toFields, true, .first⟩

end Expansion

namespace Act

def allOptions : List (Char × String) :=
  [('e', "errexit"), ('f', "noglob"), ('I', "ignoreeof"), ('i', "interactive"), ('m', "monitor"),
   ('n', "noexec"), ('s', "stdin"), ('x', "xtrace"), ('v', "verbose"), ('V', "vi"), ('E', "emacs"),
   ('C', "noclobber"), ('a', "allexport"), ('b', "notify"), ('u', "nounset")]

/-- The value of a parameter that is no list. -/
def parameter? (name : Bytes) : Act (Option Bytes) := do
  let c ← context
  match name with
  | ['?'] => return some (Bytes.decimal c.status)
  | ['$'] => return some (Bytes.decimal c.shell)
  | ['#'] => return some (Bytes.decimal c.arguments.length)
  | ['!'] => return c.lastJob.map Bytes.decimal
  | ['-'] => return some ((allOptions.map (·.1)).reverse.filter c.options.contains)
  | name =>
    match Bytes.natural? name with
    | some 0 => return some c.name
    | some n => return c.arguments[n - 1]?
    | none => value? name

/-- What the values of a list become, with something between them. -/
def joinGlyphs (between : List Glyph) (quoted splits : Bool) (values : List Bytes) : List Glyph :=
  between.intercalate (values.map (Glyph.ofText quoted splits))

/-- The value of a parameter as glyphs. -/
def parameterGlyphs? (name : Bytes) (quoted toFields : Bool) : Act (Option (List Glyph)) := do
  if name = ['@'] ∨ name = ['*'] then
    let args := (← context).arguments
    let separators? ← value? "IFS".toList
    let between : List Glyph := match separators? with
      | none => [.byte ' ' quoted (!quoted)]
      | some [] => []
      | some (c :: _) => [.byte c quoted (!quoted)]
    if quoted ∧ toFields ∧ name = ['@'] then
      let gs := joinGlyphs [.boundary true] true false args
      return some (if args.isEmpty then [] else .mark :: gs)
    else if !quoted ∧ toFields ∧ separators?.isSome then
      return some (joinGlyphs [.boundary false] false true args)
    else return some (joinGlyphs between quoted (!quoted) args)
  else return (← parameter? name).map (Glyph.ofText quoted (!quoted))

def unset {α : Type} (name : Bytes) : Act α := fault (name ++ ": parameter not set".toList)

/-- A name that a variable cannot have is a fault. -/
def checkName (name : Bytes) : Act Unit := do
  if !Bytes.isName name then fault (name ++ ": bad variable name".toList)

/-- The home directory that a tilde with a name after it stands for. -/
def homeOf (name : Bytes) : Act (Option Bytes) := do
  if name = [] then value? "HOME".toList
  else return if name = "root".toList then some "/root".toList else none

/-- The value of an arithmetic expression. -/
def calculate (expression : Bytes) : Act Int := do
  let c ← context
  match Arithmetic.evaluate (fun name => (c.bindings.lookup name).bind (·.value)) expression with
  | .ok (n, assigned) =>
    for (name, value) in assigned do setVariable name (Bytes.ofInt value)
    return n
  | .error (.number text) => fault ("Illegal number: ".toList ++ text)
  | .error (.expression reason) =>
    fault ("arithmetic expression: ".toList ++ reason.toList ++ ": \"".toList ++ expression ++ ['"'])

/-- Plain bytes in front of a word, up to where a tilde may follow. -/
def plainRun (m : Expansion) (w : Word) : List Glyph × Word :=
  let isEnd (p : WordPart) : Bool := match p with
    | .byte c false => m.tilde = .assignment && c = ':'
    | .byte .. => false
    | _ => true
  let run := w.takeWhile fun p => !isEnd p
  let (run, rest) : Word × Word := match w.drop run.length with
    | .byte c quoted :: rest => (run ++ [.byte c quoted], rest)
    | rest => (run, rest)
  let glyph? (p : WordPart) : Option Glyph := match p with
    | .byte c quoted => some (.byte c (quoted || m.quoted) (m.splitsText && !m.quoted && !quoted))
    | _ => none
  (run.filterMap glyph?, rest)

/-- The home directory for a tilde in front of a word, and the rest of the word. -/
def tilde? (m : Expansion) (w : Word) : Act (Option (Bytes × Word)) := do
  match m.tilde, w with
  | .never, _ => return none
  | _, .byte '~' false :: rest =>
    let name := rest.takeWhile fun p => match p with
      | WordPart.byte c false => c ≠ '/' && !(c = ':' && m.tilde = .assignment)
      | _ => false
    let after := rest.drop name.length
    match after with
    | [] | .byte _ false :: _ =>
      return (← homeOf (Word.plainStart name)).map fun home => (home, after)
    | _ => return none
  | _, _ => return none

/-- The glyphs of a word, where a tilde has its meaning if it comes now. -/
def expand (output : Command → Act Bytes) (fuel : Nat) (m : Expansion) (tildeNow : Bool) (w : Word) :
    Act (List Glyph) := do
  match fuel with
  | 0 => stop .endless
  | fuel + 1 =>
    match ← (if tildeNow then tilde? m w else pure none) with
    | some (home, rest) =>
      return Glyph.ofText true false home ++ (← expand output fuel m false rest)
    | none =>
      match w with
      | [] => return []
      | .byte .. :: _ =>
        let (gs, rest) := plainRun m w
        return gs ++ (← expand output fuel m true rest)
      | .mark :: rest => return .mark :: (← expand output fuel m false rest)
      | .output c quoted :: rest =>
        let quoted := m.quoted || quoted
        let gs := Glyph.ofText quoted (!quoted) (← output c)
        return gs ++ (← expand output fuel m false rest)
      | .arithmetic e quoted :: rest =>
        let quoted := m.quoted || quoted
        let text := Glyph.text (← expand output fuel { Expansion.single with tilde := .never } false e)
        let n ← calculate text
        return Glyph.ofText quoted (!quoted) (Bytes.ofInt n) ++ (← expand output fuel m false rest)
      | .parameter name use word quoted :: rest =>
        let quoted := m.quoted || quoted
        if use = .wrong then faultText "Bad substitution"
        let value ← parameterGlyphs? name quoted m.toFields
        let given (orEmpty : Bool) : Option (List Glyph) :=
          value.filter fun gs => !orEmpty || Glyph.whole gs ≠ []
        let needed : Act (List Glyph) := do
          match value with
          | some gs => return gs
          | none => if ← hasOption 'u' then unset name else return []
        let besides : Act (List Glyph) := expand output fuel (m.beside quoted) true word
        let gs ← match use with
          | .value | .wrong => needed
          | .length =>
            let gs ← needed
            pure (Glyph.ofText quoted (!quoted) (Bytes.decimal (Glyph.whole gs).length))
          | .otherwise orEmpty =>
            match given orEmpty with
            | some gs => pure gs
            | none => besides
          | .instead orEmpty => if (given orEmpty).isSome then besides else pure []
          | .assigned orEmpty =>
            match given orEmpty with
            | some gs => pure gs
            | none =>
              let text := Glyph.text (← expand output fuel .single true word)
              checkName name
              setVariable name text
              pure (Glyph.ofText quoted (!quoted) text)
          | .demanded orEmpty =>
            match given orEmpty with
            | some gs => pure gs
            | none =>
              let text := Glyph.text (← expand output fuel .single true word)
              let said := if word.isEmpty then
                  "parameter not set".toList ++ if orEmpty then " or null".toList else []
                else text
              fault (name ++ ": ".toList ++ said)
          | .trimmed atEnd longest =>
            let gs ← needed
            if value.isNone then pure []
            else
              let p ← expand output fuel .single true word
              let text := Pattern.trim atEnd longest (Glyph.pattern false p) (Glyph.spread gs)
              let marks := gs.filter fun g => match g with
                | .mark => true
                | _ => false
              pure (marks ++ Glyph.gathered quoted text)
        return gs ++ (← expand output fuel m false rest)

/-- The fields of a word. -/
def expandFields (output : Command → Act Bytes) (fuel : Nat) (w : Word) : Act (List Bytes) := do
  let gs ← expand output fuel .fields true w
  let separators ← separators
  let expands := !(← hasOption 'f')
  let fs := (← get).files
  return (fieldsOf separators gs).flatMap (textsOf fs expands)

/-- The word as one text. -/
def expandText (output : Command → Act Bytes) (fuel : Nat) (m : Expansion) (w : Word) : Act Bytes :=
  return Glyph.text (← expand output fuel m true w)

/-- The pattern that a word makes. -/
def expandPattern (output : Command → Act Bytes) (fuel : Nat) (w : Word) : Act Bytes :=
  return Glyph.pattern false (← expand output fuel .single true w)

end Act
end Shell
end Publishing
