import Publishing.Shell.Pattern
import Publishing.Shell.Utility.Entry
import Publishing.Shell.Utility.Search
import Publishing.Shell.Utility.SearchPattern.Ordered

/-
The program that prints the lines in which something is found.
-/

namespace Publishing
namespace Shell

namespace Program

/-! ## What is printed -/

/-- What to do with files that do not hold text. -/
inductive BinaryFiles where
  | mention
  | skip
  | treatAsText
  deriving DecidableEq

/-- How a search prints what it finds. -/
structure Findings where
  named : Bool
  numbered : Bool
  offsets : Bool
  onlyFound : Bool
  before : Nat
  after : Nat
  /-- What stands between lines that do not follow each other. -/
  separator : Option Bytes
  tabbed : Bool
  /-- Names end with a zero byte. -/
  zeroNames : Bool
  ending : Char
  binary : BinaryFiles

namespace Findings

def nameEnd (f : Findings) (mark : Char) : Char := if f.zeroNames then '\x00' else mark

/-- The numbers and the name in front of what is printed.  Numbers are as wide as the size of
the file can get. -/
def front (f : Findings) (name : Bytes) (width : Nat) (mark : Char) (number offset : Nat)
    (cs : Bytes) : Bytes :=
  let shown (n : Nat) : Bytes :=
    let digits := Bytes.decimal n
    List.replicate (if f.tabbed then width - digits.length else 0) ' ' ++ digits ++ [mark]
  (if f.named then name ++ [f.nameEnd mark] else []) ++
  (if f.numbered then shown number else []) ++
  (if f.offsets then shown offset else []) ++
  (if f.tabbed ∧ (f.named ∨ f.numbered ∨ f.offsets) ∧ cs ≠ [] then ['\t'] else [])

/-- Whether something is in a text that is no character. -/
def hasStrayBytes (cs : Bytes) : Bool := (Letter.ofBytes cs).any fun c => c.char?.isNone

/-- What is found in a line, or the line, with the bytes in front of it. -/
def parts (f : Findings) (q : Search) (l : PlacedLine) : List (Nat × Bytes) :=
  if !f.onlyFound then [(l.offset, l.line)]
  else if !l.selected then []
  else
    let letters := Letter.ofBytes l.line
    (q.all (letters.length + 2) l.offset (.start letters)).filter fun e => !e.2.isEmpty

/-- Print what was found in one text.  The first flag tells whether lines were printed before,
the result also whether some were held back. -/
def print (f : Findings) (q : Search) (name : Bytes) (width : Nat) (lines : List PlacedLine)
    (used : Bool) : Act (Bool × Bool) := do
  let mut used := used
  let mut hidden := false
  let mut next := 0
  for l in PlacedLine.withContext f.before f.after lines do
    if used ∧ next ≠ l.number then
      match f.separator with
      | some cs => Act.print (cs ++ ['\n'])
      | none => pure ()
    used := true
    next := l.number + 1
    let mark := if l.selected then ':' else '-'
    for (offset, cs) in f.parts q l do
      if f.binary ≠ .treatAsText ∧ hasStrayBytes cs then hidden := true
      else Act.print (f.front name width mark l.number offset cs ++ cs ++ [f.ending])
  return (used, hidden)

end Findings

/-! ## Which files are searched -/

/-- The patterns for the names of files and directories that count. -/
structure Selection where
  included : List Bytes
  excluded : List Bytes
  excludedDirectories : List Bytes

namespace Selection

/-- Whether a file counts that has these names. -/
def admits (s : Selection) (names : List Bytes) : Bool :=
  let fits (p : Bytes) : Bool := names.any (Pattern.fits p)
  (s.included.isEmpty || s.included.any fits) && !s.excluded.any fits

def enters (s : Selection) (name : Bytes) : Bool :=
  !s.excludedDirectories.any fun p => Pattern.fits p name

/-- A path and all that is left of it without its first parts. -/
def suffixes (path : Bytes) : List Bytes :=
  let parts := Bytes.splitOn '/' path
  (List.range parts.length).map fun n => Bytes.joined ['/'] (parts.drop n)

/-- The files in a directory. -/
def filesIn (s : Selection) (path : Bytes) : List (String × FileNode) → List Bytes
  | [] => []
  | (name, .file _) :: rest =>
    let name := Bytes.ofString name
    (if s.admits [name] then [path ++ '/' :: name] else []) ++ filesIn s path rest
  | (name, .directory es) :: rest =>
    let name := Bytes.ofString name
    (if s.enters name then filesIn s (path ++ '/' :: name) es else []) ++ filesIn s path rest

end Selection

/-- What to do with directories that are named. -/
inductive Directories where
  | read
  | recurse
  | skip
  deriving DecidableEq

/-! ## Patterns -/

/-- How patterns are written. -/
inductive Matcher where
  | basic
  | extended
  | fixed
  | ordered
  deriving DecidableEq

def Matcher.named? : String → Option Matcher
  | "grep" => some basic
  | "egrep" => some extended
  | "fgrep" => some fixed
  | "perl" => some ordered
  | _ => none

/-- The expression for patterns, and what has to be said about them. -/
def Matcher.read (k : Matcher) (byLine : Bool) (patterns : List Bytes) :
    Except String (Option SearchPattern × List String) := do
  let join (ps : List SearchPattern) : Option SearchPattern := match ps with
    | [] => none
    | p :: ps => some (ps.foldl .either p)
  let dialect (extended : Bool) : Except String (Option SearchPattern × List String) := do
    let read ← patterns.mapM (SearchPattern.ofText ⟨extended, false⟩)
    if read.any (·.confusing) then throw SearchPattern.confusion
    return (join (read.map (·.pattern)), read.flatMap (·.warnings))
  match k with
  | basic => dialect false
  | extended => dialect true
  | fixed => return (join (patterns.map .literal), [])
  | ordered =>
    match patterns with
    | [p] => return (some (← SearchPattern.ofOrderedText byLine p), [])
    | _ => throw "the -P option only supports a single pattern"

/-! ## The program -/

/-- A whole number, after blanks and a sign. -/
def signedNumber? (cs : Bytes) : Option Int :=
  match cs.dropWhile Bytes.isSpace with
  | '-' :: ds => (Bytes.natural? ds).map fun n => -(n : Int)
  | '+' :: ds => (Bytes.natural? ds).map fun n => (n : Int)
  | ds => (Bytes.natural? ds).map fun n => (n : Int)

def grepOptions : Options :=
  ⟨"0123456789EFGHILPTUVZabchiLlnoqRrsuvwxyzγικμ", "ABCDXdefmαβγεζηθλ",
   [("basic-regexp", 'G'), ("extended-regexp", 'E'), ("fixed-regexp", 'F'),
    ("fixed-strings", 'F'), ("perl-regexp", 'P'), ("after-context", 'A'),
    ("before-context", 'B'), ("binary-files", 'β'), ("binary", 'U'), ("byte-offset", 'b'),
    ("context", 'C'), ("color", 'γ'), ("colour", 'γ'), ("count", 'c'), ("devices", 'D'),
    ("directories", 'd'), ("exclude", 'ε'), ("exclude-from", 'ζ'), ("exclude-dir", 'η'),
    ("file", 'f'), ("files-with-matches", 'l'), ("files-without-match", 'L'),
    ("group-separator", 'λ'), ("include", 'θ'), ("ignore-case", 'i'),
    ("no-ignore-case", 'ι'), ("initial-tab", 'T'), ("label", 'α'), ("line-buffered", 'κ'),
    ("line-number", 'n'), ("line-regexp", 'x'), ("max-count", 'm'), ("no-filename", 'h'),
    ("no-group-separator", 'μ'), ("no-messages", 's'), ("null", 'Z'), ("null-data", 'z'),
    ("only-matching", 'o'), ("quiet", 'q'), ("recursive", 'r'), ("dereference-recursive", 'R'),
    ("regexp", 'e'), ("invert-match", 'v'), ("silent", 'q'), ("text", 'a'),
    ("unix-byte-offsets", 'u'), ("with-filename", 'H'), ("word-regexp", 'w')]⟩

/-- What the options ask for, apart from how lines look. -/
structure GrepTask where
  directories : Directories
  selection : Selection
  most : Option Nat
  label : Bytes

/-- What the options say about context, in their order. -/
structure ContextWanted where
  before : Option Nat
  after : Option Nat
  around : Option Nat
  /-- The digits that were read last, if nothing came after them. -/
  digits : Option Nat

def ContextWanted.read (options : List (Char × Bytes)) : Except Bytes ContextWanted :=
  options.foldlM (fun (w : ContextWanted) (c, value) => do
    let amount : Except Bytes Nat := match signedNumber? value with
      | some (.ofNat n) => .ok n
      | _ => .error value
    if Text.isDigit c then
      let n := w.digits.getD 0 * 10 + Text.digitValue c
      return { w with around := some n, digits := some n }
    else
      let w := { w with digits := none }
      match c with
      | 'A' => return { w with after := some (← amount) }
      | 'B' => return { w with before := some (← amount) }
      | 'C' => return { w with around := some (← amount) }
      | _ => return w) ⟨none, none, none, none⟩

/-- What the values of options ask for.  If something is wrong with them, that is reported and
the result is the status for it. -/
def grepTask (g : Given) : Act (Except Nat (GrepTask × Findings)) := do
  let failed (cs : Bytes) : Act (Except Nat (GrepTask × Findings)) := do
    report "grep" cs
    return .error 2
  let actions := [["read"], ["recurse"], ["skip"]]
  let action? : Option (Option Nat) := match g.last? "drR" with
    | some 'd' => (wordGroup? actions ((g.value? 'd').getD [])).map some
    | some _ => some (some 1)
    | none => some none
  let most? : Option (Option Nat) := match g.value? 'm' with
    | none => some none
    | some value => (signedNumber? value).map fun n =>
      match n with
      | .ofNat n => some n
      | _ => none
  let devices := (g.value? 'D').getD "read".toList
  let binary? : Option BinaryFiles := match g.last? "aIβ", (g.value? 'β').map String.ofList with
    | some 'a', _ | some 'β', some "text" => some .treatAsText
    | some 'I', _ | some 'β', some "without-match" => some .skip
    | none, _ | some 'β', some "binary" => some .mention
    | _, _ => none
  match ContextWanted.read g.options, most?, action?, binary? with
  | .error value, _, _, _ => failed (value ++ ": invalid context length argument".toList)
  | _, none, _, _ => failed "invalid max count".toList
  | _, _, none, _ =>
    return .error (← refuseWord "grep" "--directories" 1 actions ((g.value? 'd').getD []))
  | _, _, _, none => failed "unknown binary-files type".toList
  | .ok w, some most, some action, some binary =>
    if devices ≠ "read".toList ∧ devices ≠ "skip".toList then
      return ← failed "unknown devices method".toList
    let mut excluded := g.values 'ε'
    for path in g.values 'ζ' do
      match ← readFile path with
      | .ok bytes => excluded := excluded ++ bodiesOf '\n' (Bytes.ofByteArray bytes)
      | .error cause => return ← failed (path ++ ": ".toList ++ cause.reason.toList)
    let directories : Directories := match action with
      | some 1 => .recurse
      | some 2 => .skip
      | _ => .read
    let withoutSlashes (p : Bytes) : Bytes :=
      let short := (p.reverse.dropWhile (· = '/')).reverse
      if short = [] then p else short
    let task : GrepTask :=
      { directories := directories
        selection := ⟨g.values 'θ', excluded, (g.values 'η').map withoutSlashes⟩
        most := most
        label := (g.value? 'α').getD "(standard input)".toList }
    let grouped := (w.before.or (w.after.or w.around)).isSome
    let separator := if g.last? "λμ" = some 'μ' then none
      else some ((g.value? 'λ').getD ['-', '-'])
    let single := g.operands.length ≤ 1
    let f : Findings :=
      { named := match g.last? "hH" with
          | some 'H' => true
          | some _ => false
          | none => !single
        numbered := g.has 'n'
        offsets := g.has 'b'
        onlyFound := g.has 'o'
        before := (w.before.or w.around).getD 0
        after := (w.after.or w.around).getD 0
        separator := if grouped then separator else none
        tabbed := g.has 'T'
        zeroNames := g.has 'Z'
        ending := lineEnd g
        binary := binary }
    return .ok (task, f)

/-- The paths to search for a word of the command line, and whether names come with what is
found in them. -/
def GrepTask.inputs (task : GrepTask) (g : Given) (f : Findings) (path : Bytes) :
    Act (List Bytes × Bool) := do
  match (← get).files.stat (Bytes.toText path), task.directories with
  | .ok (.directory es), .recurse =>
    let whole := task.selection.enters (lastName path) && task.selection.enters path
    let base := if path.getLast? = some '/' then path.dropLast else path
    let found := if whole then task.selection.filesIn base es else []
    return (found, f.named || g.last? "hH" = none)
  | .ok (.directory _), .skip => return ([], f.named)
  | _, _ =>
    let counts := path = ['-'] || task.selection.admits (Selection.suffixes path)
    return (if counts then [path] else [], f.named)

/-- What one file adds to the result: whether it could be read, whether it counts as found, and
whether lines were printed. -/
structure Searched where
  all : Bool
  any : Bool
  used : Bool

/-- Search in one file. -/
def searchFile (task : GrepTask) (g : Given) (f : Findings) (q : Search)
    (selects : Bytes → Bool) (path title : Bytes) (s : Searched) : Act Searched := do
  let silent := g.has 'q'
  let listed := g.last? "lL"
  let complain (cs : Bytes) : Act Searched := do
    if !g.has 's' then report "grep" (title ++ ':' :: ' ' :: cs)
    return { s with all := false }
  let own : Bool := match ← inputPlace? path, ← filePlace? 1 with
    | some (a, _), some (b, _) => a = b
    | _, _ => false
  if own ∧ !silent ∧ !g.has 'c' ∧ listed = none ∧ task.most ≠ some 1 then
    return ← complain "input file is also the output".toList
  match ← readInput path with
  | .error fault => complain fault.reason.toList
  | .ok cs =>
    let lines := PlacedLine.ofBytes selects f.ending cs
    let lines := match task.most with
      | some n => PlacedLine.upTo n lines
      | none => lines
    let zeros := f.ending = '\n' && f.binary ≠ .treatAsText && cs.contains '\x00'
    let count := if zeros ∧ f.binary = .skip then 0 else (lines.filter (·.selected)).length
    if task.most.any (· ≤ count) ∨ (0 < count ∧ (silent ∨ listed = some 'l')) then leaveInput
    if g.has 'c' then awaitEnd
    let width := if path = ['-'] then 19
      else (Bytes.decimal (cs.length + if f.numbered then 1 else 0)).length
    let nameLine : Bytes := title ++ [f.nameEnd '\n']
    if silent then return { s with any := s.any || 0 < count }
    match listed with
    | some 'l' =>
      if 0 < count then Act.print nameLine
      return { s with any := s.any || 0 < count }
    | some _ =>
      if count = 0 then Act.print nameLine
      return { s with any := s.any || 0 < count }
    | none =>
      let s := { s with any := s.any || 0 < count }
      if g.has 'c' then
        let name := if f.named then title ++ [f.nameEnd ':'] else []
        Act.printLine (name ++ Bytes.decimal count)
        return s
      else if count = 0 then return s
      else
        let (used, hidden) ← if zeros then pure (s.used, true)
          else f.print q title width lines s.used
        if hidden ∧ f.binary = .mention then
          report "grep" (title ++ ": binary file matches".toList)
        return { s with used := used }

def grepWith (first : Option Matcher) : Utility := fun args =>
  withOptions "grep" 2 grepOptions args fun g => do
    for _ in g.values 'u' do
      report "grep" "warning: --unix-byte-offsets (-u) is obsolete".toList
    let mut listed := (g.values 'e').flatMap (Bytes.splitOn '\n')
    for path in g.values 'f' do
      match ← readInput path with
      | .ok cs => listed := listed ++ bodiesOf '\n' cs
      | .error fault =>
        report "grep" (path ++ ": ".toList ++ fault.reason.toList)
        return 2
    let mut chosen := first
    for (c, value) in g.options do
      let next : Option (Option Matcher) := match c with
        | 'G' => some (some .basic)
        | 'E' => some (some .extended)
        | 'F' => some (some .fixed)
        | 'P' => some (some .ordered)
        | 'X' => some (Matcher.named? (String.ofList value))
        | _ => none
      match next with
      | none => pure ()
      | some none =>
        report "grep" ("invalid matcher ".toList ++ value)
        return 2
      | some (some k) =>
        if chosen.any (· ≠ k) then
          report "grep" "conflicting matchers specified".toList
          return 2
        chosen := some k
    let byOption := g.options.any fun o => o.1 = 'e' || o.1 = 'f'
    if !byOption ∧ g.operands = [] then
      hint "grep"
      return 2
    let patterns := if byOption then listed else Bytes.splitOn '\n' (g.operands.headD [])
    let g := if byOption then g else { g with operands := g.operands.tail }
    match ← grepTask g with
    | .error status => return status
    | .ok (task, f) =>
      if task.most = some 0 then return 1
      match (chosen.getD .basic).read (f.ending ≠ '\n') patterns with
      | .error what =>
        report "grep" what.toList
        return 2
      | .ok (pattern?, warnings) =>
        for text in warnings do report "grep" ("warning: " ++ text).toList
        let folds := (g.last? "iyι").any (· ≠ 'ι')
        let choice : SearchPattern.Choice := if chosen = some .ordered then .earliest else .longest
        let q : Search := ⟨pattern?.getD .nothing, folds, choice, g.has 'w', g.has 'x'⟩
        run task g f q fun line => (pattern?.isSome && q.finds line) != g.has 'v'
where
  run (task : GrepTask) (g : Given) (f : Findings) (q : Search) (selects : Bytes → Bool) :
      Act Nat := do
    let here := g.operands.isEmpty && task.directories = .recurse
    let paths := if !g.operands.isEmpty then g.operands else if here then [['.']] else [['-']]
    let mut s : Searched := ⟨true, false, false⟩
    for path in paths do
      let (inputs, named) ← task.inputs g f path
      for input in inputs do
        let title := if input = ['-'] then task.label else if here then input.drop 2 else input
        s ← searchFile task g { f with named := named } q selects input title s
        if s.any ∧ g.has 'q' then return 0
    return if !s.all then 2 else if s.any then 0 else 1

def grep : Utility := grepWith none

end Program
end Shell
end Publishing
