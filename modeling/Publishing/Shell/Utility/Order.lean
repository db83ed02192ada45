import Publishing.Shell.Utility.Comparison
import Publishing.Shell.Utility.Filter

/-
The programs that order lines and find equal ones.
-/

namespace Publishing
namespace Shell

namespace Program

/-- A place in a line: a field and a byte in it. -/
structure KeyPlace where
  field : Nat
  byte : Nat
  blanks : Bool

/-- What of a line is compared. -/
structure SortKey where
  start : KeyPlace
  stop : Option KeyPlace
  /-- The letters that say how, if there are any. -/
  letters : List Char

/-- Why a text is no key. -/
structure KeyFault where
  reason : String
  text : Bytes

def KeyFault.message (f : KeyFault) : Bytes := f.reason.toList ++ quotedWord f.text

/-- A number at the front of a text and the rest, unless there is none. -/
def keyNumber (reason : String) (cs : Bytes) : Except KeyFault (Nat × Bytes) :=
  let ds := cs.takeWhile Text.isDigit
  if ds = [] then .error ⟨reason ++ ": invalid count at start of ", cs⟩
  else .ok (Text.numberOf ds, cs.drop ds.length)

/-- The place of a byte after a field, if there is one. -/
def keyByte? (cs : Bytes) : Except KeyFault (Option Nat × Bytes) :=
  match cs with
  | '.' :: rest => (keyNumber "invalid number after '.'" rest).map fun r => (some r.1, r.2)
  | rest => .ok (none, rest)

def sortKey (text : Bytes) : Except KeyFault SortKey := do
  let invalid (reason : String) : KeyFault := ⟨reason ++ "invalid field specification ", text⟩
  let (field, rest) ← keyNumber "invalid number at field start" text
  if field = 0 then throw (invalid "field number is zero: ")
  let (byte, rest) ← keyByte? rest
  if byte = some 0 then throw (invalid "character offset is zero: ")
  let letters := rest.takeWhile isLetter
  let start : KeyPlace := ⟨field, byte.getD 1, letters.contains 'b'⟩
  match rest.drop letters.length with
  | [] => return ⟨start, none, how letters⟩
  | ',' :: rest =>
    let (field, rest) ← keyNumber "invalid number after ','" rest
    if field = 0 then throw (invalid "field number is zero: ")
    let (byte, rest) ← keyByte? rest
    let more := rest.takeWhile isLetter
    if rest.length ≠ more.length then throw (invalid "stray character in field spec: ")
    return ⟨start, some ⟨field, byte.getD 0, more.contains 'b'⟩, how (letters ++ more)⟩
  | _ => throw (invalid "stray character in field spec: ")
where
  isLetter (c : Char) : Bool := "bdfghiMnRrV".toList.contains c
  how (letters : List Char) : List Char := letters.filter (· ≠ 'b')

/-- The fields of a line with their separators: blanks in front, or the given one
behind. -/
def sortFields (separator : Option Char) (line : Bytes) : List Bytes :=
  match separator with
  | some d =>
    let parts := Bytes.splitOn d line
    parts.zipIdx.map fun p => if p.2 + 1 = parts.length then p.1 else p.1 ++ [d]
  | none => go (line.length + 1) line
where
  go (fuel : Nat) (cs : Bytes) : List Bytes :=
    match fuel, cs with
    | 0, _ | _, [] => []
    | fuel + 1, cs =>
      let blanks := cs.takeWhile Bytes.isBlank
      let body := (cs.drop blanks.length).takeWhile (!Bytes.isBlank ·)
      (blanks ++ body) :: go fuel (cs.drop (blanks.length + body.length))

def SortKey.ofLine (k : SortKey) (separator : Option Char) (line : Bytes) : Bytes :=
  let fields := sortFields separator line
  let before (n : Nat) : Nat := ((fields.take n).map (·.length)).foldl (· + ·) 0
  let place (p : KeyPlace) (skips : Bool) : Nat :=
    let field := fields.getD (p.field - 1) []
    let blanks := if skips then (field.takeWhile Bytes.isBlank).length else 0
    before (p.field - 1) + blanks
  let first := place k.start k.start.blanks + (k.start.byte - 1)
  let last := match k.stop with
    | none => line.length
    | some p =>
      if p.byte = 0 then
        let size := before p.field
        if separator.isSome ∧ p.field < fields.length then size - 1 else size
      else place p p.blanks + p.byte
  (line.take last).drop first

/-- What `sort` was asked for. -/
structure Sorting where
  whole : List Char
  separator : Option Char
  keys : List SortKey
  /-- Lines that are equal in what is compared stay as they are. -/
  stable : Bool

namespace Sorting

/-- A key without letters of its own is compared like whole lines. -/
def lettersOf (s : Sorting) (k : SortKey) : List Char :=
  if k.letters.isEmpty ∧ !k.start.blanks then s.whole else k.letters

def keyed (s : Sorting) (a b : Bytes) : Ordering :=
  if s.keys.isEmpty then (Comparison.ofLetters s.whole).compare a b
  else s.keys.foldl (fun r k =>
    let letters := s.lettersOf k
    let blanks := letters.contains 'b'
    let skipping (p : KeyPlace) : KeyPlace := { p with blanks := p.blanks || blanks }
    let k := { k with start := skipping k.start, stop := k.stop.map skipping }
    r.then ((Comparison.ofLetters letters).compare (k.ofLine s.separator a)
      (k.ofLine s.separator b))) .eq

/-- The order of two lines.  In the end all of their bytes decide. -/
def order (s : Sorting) (a b : Bytes) : Ordering :=
  let last := if s.stable then .eq
    else if s.whole.contains 'r' then (Comparison.compareBytes a b).swap
    else Comparison.compareBytes a b
  (s.keyed a b).then last

/-- The first line that is out of order, with its number. -/
def disorder? (s : Sorting) (unique : Bool) (lines : List Bytes) : Option (Bytes × Nat) :=
  let isWrong (a b : Bytes) : Bool :=
    if unique then s.keyed a b ≠ .lt else s.order a b = .gt
  (((lines.zip lines.tail).zipIdx.find? fun p => isWrong p.1.1 p.1.2).map
    fun p => (p.1.2, p.2 + 2))

end Sorting

/-- The separator of fields that a text asks for, or why it is none. -/
def sortSeparator (text : Option Bytes) : Except Bytes (Option Char) :=
  match text with
  | none => .ok none
  | some [] => .error "empty tab".toList
  | some [c] => .ok (some c)
  | some ['\\', '0'] => .ok (some '\x00')
  | some cs => .error ("multi-character tab ".toList ++ quotedWord cs)

def sort : Utility := fun args =>
  withOptions "sort" 2 ⟨"bdfgirnMhRVcCsumz", "ktoST", [("reverse", 'r'), ("numeric-sort", 'n'),
    ("unique", 'u'), ("key", 'k'), ("field-separator", 't'), ("output", 'o'), ("stable", 's'),
    ("ignore-case", 'f'), ("ignore-leading-blanks", 'b'), ("check", 'c'), ("merge", 'm'),
    ("dictionary-order", 'd'), ("general-numeric-sort", 'g'), ("human-numeric-sort", 'h'),
    ("month-sort", 'M'), ("version-sort", 'V'), ("random-sort", 'R'), ("zero-terminated", 'z')]⟩
    args fun g => do
    let whole := (g.options.map (·.1)).filter fun c => "bdfgirnMhRV".toList.contains c
    match (g.values 'k').mapM sortKey, sortSeparator (g.value? 't') with
    | .error f, _ =>
      report "sort" f.message
      return 2
    | _, .error cs =>
      report "sort" cs
      return 2
    | .ok keys, .ok separator =>
      let s : Sorting := ⟨whole, separator, keys, g.has 's' || g.has 'u'⟩
      let ways := if keys.isEmpty then [whole] else keys.map s.lettersOf
      match ways.findSome? Comparison.clash? with
      | some letters =>
        report "sort" ("options '-".toList ++ letters ++ "' are incompatible".toList)
        return 2
      | none =>
        match ← readAll (orInput g.operands) with
        | none => return 2
        | some texts => sortTexts g s texts
where
  sortTexts (g : Given) (s : Sorting) (texts : List Bytes) : Act Nat := do
    let ending := if g.has 'z' then '\x00' else '\n'
    let lines := texts.flatMap fun cs =>
      let parts := Bytes.splitOn ending cs
      if parts.getLast? = some [] then parts.dropLast else parts
    if g.has 'c' ∨ g.has 'C' then
      match s.disorder? (g.has 'u') lines with
      | some (line, n) =>
        if g.has 'c' then
          let path := g.operands.headD ['-']
          report "sort" (path ++ ':' :: Bytes.decimal n ++ ": disorder: ".toList ++ line)
        return 1
      | none => return 0
    let sorted := lines.mergeSort fun a b => s.order a b ≠ .gt
    let sorted := if g.has 'u' then distinct s.keyed sorted else sorted
    let text := sorted.flatMap (· ++ [ending])
    match g.value? 'o' with
    | none => Act.print text
    | some path =>
      match (← get).files.write (Bytes.toText path) (Bytes.toByteArray text) with
      | .ok files => modify fun s => { s with files := files }
      | .error cause =>
        report "sort" ("open failed: ".toList ++ path ++ ": ".toList ++ cause.reason.toList)
        return 2
    return 0
  /-- Of equal lines after each other only the first. -/
  distinct (order : Bytes → Bytes → Ordering) : List Bytes → List Bytes
    | a :: b :: rest =>
      if order a b = .eq then distinct order (a :: rest) else a :: distinct order (b :: rest)
    | lines => lines
  /-- All of the inputs, unless one of them cannot be read. -/
  readAll : List Bytes → Act (Option (List Bytes))
    | [] => return some []
    | path :: paths => do
      match ← readInput path with
      | .ok cs =>
        awaitEnd
        return (← readAll paths).map (cs :: ·)
      | .error f =>
        let what := if f.reason = "Bad file descriptor" then "stat failed: "
          else if f.opened then "read failed: " else "cannot read: "
        report "sort" (what.toList ++ quotedIfNeeded f.path ++ ": ".toList ++ f.reason.toList)
        return none

/-- Groups of lines that are equal in what is compared. -/
def groups (key : Bytes → Bytes) (lines : List Bytes) : List (List Bytes) :=
  lines.foldr (fun line acc =>
    match acc with
    | (next :: more) :: rest =>
      if key next = key line then (line :: next :: more) :: rest else [line] :: acc
    | acc => [line] :: acc) []

def uniq : Utility := fun args =>
  withOptions "uniq" 1 ⟨"cdiuDz", "fsw", [("count", 'c'), ("repeated", 'd'), ("unique", 'u'),
    ("ignore-case", 'i'), ("skip-fields", 'f'), ("skip-chars", 's'), ("check-chars", 'w')]⟩
    args fun g => do
    let number (c : Char) : Option Nat := (g.value? c).bind Bytes.natural?
    let key (line : Bytes) : Bytes :=
      let fields := afterFields ((number 'f').getD 0) line
      let cs := fields.drop ((number 's').getD 0)
      let cs := match number 'w' with
        | some n => cs.take n
        | none => cs
      if g.has 'i' then cs.map Char.toLower else cs
    let counts := [('f', "fields to skip"), ('s', "bytes to skip"), ('w', "bytes to compare")]
    let wrong := counts.filterMap fun (c, what) =>
      (g.value? c).bind fun text => if (Bytes.natural? text).isSome then none else some (text, what)
    match wrong, g.operands with
    | (text, what) :: _, _ =>
      report "uniq" (text ++ (": invalid number of " ++ what).toList)
      return 1
    | [], _ :: _ :: extra :: _ => misuse "uniq" 1 ("extra operand ".toList ++ quotedWord extra)
    | [], paths =>
    match ← readInput (paths.headD ['-']) with
    | .error f =>
      if f.opened then
        report "uniq" ("error reading ".toList ++ quotedAlways f.path ++ ": ".toList ++ f.reason.toList)
      else refuseInput "uniq" f
      return 1
    | .ok cs =>
      let every := g.has 'D'
      let found := groups key ((linesOf cs).map bare)
      let found := if (← get).unending then found.dropLast else found
      let texts := found.flatMap fun lines =>
        let n := lines.length
        if ((g.has 'd' || every) && n = 1) || (g.has 'u' && 1 < n) then []
        else if every then lines
        else (lines.take 1).map ((if g.has 'c' then rightAligned 7 n ++ [' '] else []) ++ ·)
      let text := texts.flatMap (· ++ ['\n'])
      match paths.tail with
      | path :: _ =>
        match (← get).files.write (Bytes.toText path) (Bytes.toByteArray text) with
        | .ok files => modify fun s => { s with files := files }
        | .error cause =>
          refuseInput "uniq" ⟨path, false, cause.reason⟩
          return 1
      | [] => Act.print text
      return 0
where
  afterFields (n : Nat) (line : Bytes) : Bytes :=
    ((sortFields none line).drop n).flatten

end Program
end Shell
end Publishing
