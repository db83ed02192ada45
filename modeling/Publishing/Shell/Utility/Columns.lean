import Publishing.Shell.Utility.Filter

/-
The programs that take lines apart and put them together.
-/

namespace Publishing
namespace Shell

namespace Program

/-- A closed range of places.  Without an end it goes on to the last. -/
structure Places where
  first : Nat
  last : Option Nat

/-- The places that a list names. -/
def places? (cs : Bytes) : Option (List Places) :=
  (parts cs).mapM fun part =>
    let a := part.takeWhile Text.isDigit
    match part.drop a.length with
    | [] => if a = [] ∨ Text.numberOf a = 0 ∨ 18446744073709551614 < Text.numberOf a then none
        else some ⟨Text.numberOf a, some (Text.numberOf a)⟩
    | '-' :: b =>
      let first := if a = [] then 1 else Text.numberOf a
      if !(b.all Text.isDigit) ∨ (a = [] ∧ b = []) ∨ first = 0 then none
      else if b = [] then some ⟨first, none⟩
      else if Text.numberOf b < first then none
      else some ⟨first, some (Text.numberOf b)⟩
    | _ => none
where
  parts (cs : Bytes) : List Bytes :=
    Bytes.splitOn ',' (cs.map fun c => if Bytes.isBlank c then ',' else c)

/-- What is wrong with a list of places. -/
def placesFault (field : Bool) (cs : Bytes) : Bytes :=
  let part := ((places?.parts cs).find? fun part => (places? part).isNone).getD []
  let a := part.takeWhile Text.isDigit
  let b := (part.drop (a.length + 1)).takeWhile Text.isDigit
  let tail := part.dropWhile fun c => Text.isDigit c || c = '-'
  let tooLarge (ds : Bytes) : Bool := 18446744073709551614 < Text.numberOf ds
  if (part.filter (· = '-')).length = 2 ∧ tail = [] then
    (if field then "invalid field range" else "invalid byte or character range").toList
  else if tail ≠ [] then
    ("invalid " ++ (if field then "field" else "byte/character") ++ " value ").toList ++
      quotedWord (if part.contains '-' then part else tail)
  else if tooLarge a ∨ tooLarge b then
    ((if field then "field number " else "byte/character offset ")).toList ++
      quotedWord (if tooLarge a then a else b) ++ " is too large".toList
  else if part = ['-'] then "invalid range with no endpoint: -".toList
  else if a = [] ∧ b = [] ∨ a ≠ [] ∧ Text.numberOf a = 0 then
    (if field then "fields are numbered from 1"
      else "byte/character positions are numbered from 1").toList
  else "invalid decreasing range".toList

def Places.holds (r : Places) (n : Nat) : Bool :=
  r.first ≤ n && match r.last with
    | some last => n ≤ last
    | none => true

/-- The elements at the places, counted from one. -/
def atPlaces {α : Type} (wanted : Nat → Bool) (l : List α) : List α :=
  (l.zipIdx.filter fun p => wanted (p.2 + 1)).map (·.1)

/-- Ranges in order, those that overlap as one. -/
def merged (ranges : List Places) : List Places :=
  (ranges.mergeSort fun a b => a.first ≤ b.first).foldl (fun (done : List Places) r =>
    match done with
    | [] => [r]
    | ⟨first, none⟩ :: done => ⟨first, none⟩ :: done
    | ⟨first, some last⟩ :: done =>
      if r.first ≤ last then ⟨first, r.last.map (max last)⟩ :: done
      else r :: ⟨first, some last⟩ :: done) [] |>.reverse

/-- The ranges between those that are given in order. -/
def gaps : (first : Nat) → List Places → List Places
  | first, [] => [⟨first, none⟩]
  | first, r :: ranges =>
    (if first < r.first then [⟨first, some (r.first - 1)⟩] else []) ++
      match r.last with
      | none => []
      | some last => gaps (last + 1) ranges

def cut : Utility := fun args =>
  withOptions "cut" 1 ⟨"nszκ", "bcdfω", [("bytes", 'b'), ("characters", 'c'), ("delimiter", 'd'),
    ("fields", 'f'), ("only-delimited", 's'), ("output-delimiter", 'ω'), ("complement", 'κ'),
    ("zero-terminated", 'z')]⟩ args fun g => do
    let lists := g.options.filter fun o => ['b', 'c', 'f'].contains o.1
    match lists with
    | [] => misuse "cut" 1 "you must specify a list of bytes, characters, or fields".toList
    | [(letter, text)] =>
      let delimiter := match g.value? 'd' with
        | none => ['\t']
        | some [] => ['\x00']
        | some cs => cs
      if delimiter.length ≠ 1 then
        misuse "cut" 1 "the delimiter must be a single character".toList
      else if letter ≠ 'f' ∧ g.has 'd' then
        misuse "cut" 1
          "an input delimiter may be specified only when operating on fields".toList
      else if letter ≠ 'f' ∧ g.has 's' then
        misuse "cut" 1
          "suppressing non-delimited lines makes sense\n\tonly when operating on fields".toList
      else
        match places? text with
        | none =>
          misuse "cut" 1 (placesFault (letter = 'f') text)
        | some ranges =>
          let ranges := if g.has 'κ' then gaps 1 (merged ranges) else merged ranges
          let wanted (n : Nat) : Bool := ranges.any fun r => r.holds n
          let d := delimiter.headD '\t'
          let ending := lineEnd g
          let all ← g.operands |> eachInput (refuseInput "cut") fun _ cs => do
            for body in bodiesOf ending cs do
              if letter ≠ 'f' then
                Act.print (match g.value? 'ω' with
                  | none => atPlaces wanted body ++ [ending]
                  | some between =>
                    let runs := ranges.map fun r => atPlaces r.holds body
                    Bytes.joined between (runs.filter (· ≠ [])) ++ [ending])
              else if !body.contains d then
                if !g.has 's' then Act.print (body ++ [ending])
              else
                let between := (g.value? 'ω').getD [d]
                Act.print (Bytes.joined between (atPlaces wanted (Bytes.splitOn d body)) ++ [ending])
          closeInput "cut" "-" g.operands
          return statusOf all
    | _ => misuse "cut" 1 "only one list may be specified".toList

/-- What stands between columns, in turn.  A backslash may stand for a control, or with a
zero for nothing at all. -/
def columnMarks : Bytes → List Bytes
  | '\\' :: '0' :: cs => [] :: columnMarks cs
  | '\\' :: c :: cs =>
    (if ['b', 'f', 'n', 'r', 't', 'v'].contains c then [(controlOf? c).getD c] else [c]) ::
      columnMarks cs
  | c :: cs => [c] :: columnMarks cs
  | [] => []

/-- Lists side by side, as long as the longest of them. -/
def sideBySide (marks : List Bytes) (columns : List (List Bytes)) : List Bytes :=
  let columns := columns.map (·.toArray)
  let height := (columns.map (·.size)).foldl max 0
  (List.range height).map fun i =>
    let cells := columns.map fun column => column.getD i []
    (cells.zipIdx.map fun p =>
      if p.2 = 0 then p.1 else marks.getD ((p.2 - 1) % marks.length) [] ++ p.1).flatten

/-- Every so many of the lines, from a given one on. -/
def everyOther (count first : Nat) (lines : List Bytes) : List Bytes :=
  (lines.zipIdx.filter fun p => p.2 % count = first).map (·.1)

/-- The columns that inputs make, and whether all of them could be read.  Those that are
the standard input take its lines in turn. -/
def columnsOf (ending : Char) (paths : List Bytes) : Act (List (List Bytes) × Bool) := do
  let count := paths.count ['-']
  let (shared, _) ← foldInputs (fun _ => pure ()) (fun _ _ cs => return bodiesOf ending cs)
    (if 1 < count then [['-']] else []) []
  go shared count 0 paths
where
  go (shared : List Bytes) (count next : Nat) : List Bytes → Act (List (List Bytes) × Bool)
    | [] => return ([], true)
    | path :: paths => do
      if path = ['-'] ∧ 1 < count ∧ (← inputFault?).isNone then
        let (columns, all) ← go shared count (next + 1) paths
        return (everyOther count next shared :: columns, all)
      else
        match ← readInput path with
        | .ok cs =>
          let (columns, all) ← go shared count next paths
          return (bodiesOf ending cs :: columns, all)
        | .error f =>
          refuseInput "paste" f
          let (columns, _) ← go shared count next paths
          return ([] :: columns, false)

def paste : Utility := fun args =>
  withOptions "paste" 1 ⟨"sz", "d", [("delimiters", 'd'), ("serial", 's'),
    ("zero-terminated", 'z')]⟩ args fun g => do
    let ending := lineEnd g
    let given := (g.value? 'd').getD ['\t']
    let marks := if given = [] then [[]] else columnMarks given
    if (given.reverse.takeWhile (· = '\\')).length % 2 = 1 then
      report "paste" ("delimiter list ends with an unescaped backslash: ".toList ++ given)
      return 1
    let paths := orInput g.operands
    if g.has 's' then
      let all ← paths |> eachInput (refuseInput "paste") fun _ cs =>
        let cells := (bodiesOf ending cs).map fun line => [line]
        Act.print ((sideBySide marks cells).flatten ++ [ending])
      closeInput "paste" "-" paths
      return statusOf all
    else
      let absent := paths.filter (· ≠ ['-'])
      for path in absent do
        match ← readFile path with
        | .error .isDirectory | .ok _ => pure ()
        | .error cause =>
          refuseInput "paste" ⟨path, false, cause.reason⟩
          return 1
      let (columns, all) ← columnsOf ending paths
      for row in sideBySide marks columns do Act.print (row ++ [ending])
      closeInput "paste" "-" paths
      return statusOf all

/-! ## Widths -/

/-- The column after a byte.  Controls move it, unless bytes are counted. -/
def columnAfter (inBytes : Bool) (column : Nat) (c : Char) : Nat :=
  if inBytes then column + 1
  else if c = '\x08' then column - 1
  else if c = '\x0d' then 0
  else if c = '\t' then column + 8 - column % 8
  else column + 1

/-- How lines are folded. -/
structure Folding where
  width : Nat
  inBytes : Bool
  /-- Lines end behind a blank, if there is one. -/
  atBlanks : Bool

/-- What was folded: the finished lines, and the bytes of the next one with its columns, all in
reverse order. -/
structure Folded where
  lines : List Bytes
  current : Bytes
  column : Nat

/-- Go on by one byte. -/
def Folding.step (k : Folding) (s : Folded) (c : Char) : Folded :=
  let column := columnAfter k.inBytes s.column c
  if column ≤ k.width ∨ s.current = [] then ⟨s.lines, c :: s.current, column⟩
  else
    let tail := if k.atBlanks then s.current.takeWhile (!Bytes.isBlank ·) else s.current
    if k.atBlanks ∧ tail.length < s.current.length then
      let column := tail.reverse.foldl (columnAfter k.inBytes) 0
      let next := columnAfter k.inBytes column c
      let lines := (s.current.drop tail.length).reverse :: s.lines
      if next ≤ k.width ∨ tail = [] then ⟨lines, c :: tail, next⟩
      else ⟨tail.reverse :: lines, [c], columnAfter k.inBytes 0 c⟩
    else ⟨s.current.reverse :: s.lines, [c], columnAfter k.inBytes 0 c⟩

/-- The lines that a line is folded into. -/
def Folding.lines (k : Folding) (cs : Bytes) : List Bytes :=
  let s := cs.foldl k.step ⟨[], [], 0⟩
  (s.current.reverse :: s.lines).reverse

def fold : Utility := fun args =>
  let modern := args.map fun arg => match arg with
    | '-' :: c :: cs => if Text.isDigit c then '-' :: 'w' :: c :: cs else arg
    | arg => arg
  withOptions "fold" 1 ⟨"bs", "w", [("width", 'w'), ("bytes", 'b'), ("spaces", 's')]⟩ modern fun g => do
    let text := (g.value? 'w').getD "80".toList
    match Bytes.natural? text with
    | none | some 0 =>
      report "fold" ("invalid number of columns: ".toList ++ quotedWord text ++
        (if text = ['0'] then ": Numerical result out of range" else "").toList)
      return 1
    | some width =>
      let k : Folding := ⟨width, g.has 'b', g.has 's'⟩
      let all ← g.operands |> eachInput (refuseInput "fold") fun _ cs => do
        for line in linesOf cs do
          let body := bare line
          Act.print (Bytes.joined ['\n'] (k.lines body) ++ line.drop body.length)
      closeInput "fold" "-" g.operands
      return statusOf all

example : (Folding.lines ⟨4, false, true⟩ "ab cd".toList).map String.ofList = ["ab ", "cd"] := by
  decide +kernel

/-! ## Numbers -/

/-- A number with the places that it is written with, unless it is written in another way than
by decimal digits. -/
structure Step where
  value : Binary64.Ratio
  negative : Bool
  places : Option Nat

namespace Step

/-- The value in units of so many places. -/
def scaled (s : Step) (places : Nat) : Int :=
  let n : Int := s.value.num * Nat.pow 10 places / s.value.den
  if s.negative then -n else n

def isZero (s : Step) : Bool := s.value.num = 0

def one : Step := ⟨⟨1, 1⟩, false, some 0⟩

/-- The places that are shown of a number with an exponent. -/
def placesOf (cs : Bytes) : Option Nat :=
  let body := cs.dropWhile fun c => c = '-' || c = '+' || Bytes.isSpace c
  if (body.take 2).map Char.toLower = ['0', 'x'] then
    if body.any fun c => c = '.' || c = 'p' then none else some 0
  else
    let (_, places, size) := Numeral.digits Text.isDigit body
    let p := (Numeral.exponent 'e' (body.drop size)).1
    some ((places : Int) - p).toNat

/-- The number that a text is.  Nothing for one without an end. -/
def ofText? (cs : Bytes) : Except Bytes (Option Step) :=
  match Numeral.front? cs with
  | none => .error ("invalid floating point argument: ".toList ++ quotedWord cs)
  | some x =>
    if x.size ≠ cs.length then
      .error ("invalid floating point argument: ".toList ++ quotedWord cs)
    else match x.magnitude with
      | .notANumber =>
        .error ("invalid ".toList ++ quotedWord "not-a-number".toList ++ " argument: ".toList ++
          quotedWord cs)
      | .infinite => .ok none
      | .finite r => .ok (some ⟨r, x.negative, placesOf cs⟩)

end Step

/-- A format with one number in it: what stands around it, and how it is printed. -/
structure NumberFormat where
  front : Bytes
  conversion : Conversion
  behind : Bytes

namespace NumberFormat

/-- The text up to a directive, and what follows its percent sign. -/
def plainFront (fuel : Nat) (cs acc : Bytes) : Bytes × Option Bytes :=
  match fuel, cs with
  | 0, _ | _, [] => (acc.reverse, none)
  | fuel + 1, '%' :: '%' :: rest => plainFront fuel rest ('%' :: acc)
  | _ + 1, '%' :: rest => (acc.reverse, some rest)
  | fuel + 1, c :: rest => plainFront fuel rest (c :: acc)

/-- Read a format, or say what is wrong with it. -/
def ofText (cs : Bytes) : Except Bytes NumberFormat :=
  let wrong (why : String) : Except Bytes NumberFormat :=
    .error ("format ".toList ++ quotedWord cs ++ (' ' :: why.toList))
  match plainFront (cs.length + 1) cs [] with
  | (_, none) => wrong "has no % directive"
  | (front, some rest) =>
    let flags := rest.takeWhile fun c => ['-', '+', '#', '0', ' ', '\''].contains c
    let rest := rest.drop flags.length
    let width := rest.takeWhile Text.isDigit
    let rest := rest.drop width.length
    let (precision, rest) : Option Nat × Bytes := match rest with
      | '.' :: rest =>
        let ds := rest.takeWhile Text.isDigit
        (some (Text.numberOf ds), rest.drop ds.length)
      | rest => (none, rest)
    match rest.dropWhile (· = 'L') with
    | [] => wrong "ends in %"
    | c :: rest =>
      if !("aefgAEFG".toList.contains c) then wrong ("has unknown %" ++ c.toString ++ " directive")
      else match plainFront (rest.length + 1) rest [] with
        | (_, some _) => wrong "has too many % directives"
        | (behind, none) => .ok ⟨front, ⟨flags, Text.numberOf width, precision, c⟩, behind⟩

/-- A number in units of so many places, as the format shows it. -/
def text (f : NumberFormat) (places : Nat) (n : Int) : Bytes :=
  let x : Numeral := ⟨n < 0, .finite ⟨n.natAbs, Nat.pow 10 places⟩, 0⟩
  f.front ++ f.conversion.floating x ++ f.behind

end NumberFormat

/-- Put a mark in front of the first argument that is a negative number. -/
def markNegative : List Bytes → List Bytes
  | ['-', '-'] :: rest => ['-', '-'] :: rest
  | ('-' :: c :: cs) :: rest =>
    if Text.isDigit c ∨ c = '.' then ['-', '-'] :: ('-' :: c :: cs) :: rest
    else match c, cs, rest with
      | 's', [], value :: rest | 'f', [], value :: rest =>
        ['-', c] :: value :: markNegative rest
      | _, _, rest => ('-' :: c :: cs) :: markNegative rest
  | args => args

/-- The numbers of a sequence in units of so many places. -/
def sequenceOf (first step last : Int) : List Int :=
  let n := if (0 < step ∧ last < first) ∨ (step < 0 ∧ first < last) then 0
    else ((last - first).tdiv step).toNat + 1
  (List.range n).map fun (i : Nat) => first + step * i

/-- How many numbers a sequence may have.  More than that take too long. -/
def longestSequence : Nat := 3000000

/-- How many numbers are printed of a sequence that takes too long. -/
def startOfSequence : Nat := 100000

def seq : Utility := fun args =>
  match readArguments ⟨"w", "fs", [("equal-width", 'w'), ("format", 'f'), ("separator", 's')]⟩ false
    (args.length + 2) (markNegative args) ⟨[], []⟩ with
  | .error cs => misuse "seq" 1 cs
  | .ok g =>
    let format? := (g.value? 'f').map NumberFormat.ofText
    match g.operands, format? with
    | [], _ => misuse "seq" 1 "missing operand".toList
    | _ :: _ :: _ :: extra :: _, _ => misuse "seq" 1 ("extra operand ".toList ++ quotedWord extra)
    | _, some (.error why) => do
      report "seq" why
      return 1
    | operands, format? =>
      if g.has 'w' ∧ g.has 'f' then misuse "seq" 1
        "format string may not be specified when printing equal width strings".toList
      else match operands.mapM Step.ofText? with
        | .error cs => misuse "seq" 1 cs
        | .ok steps =>
          match steps with
          | [last] => count g format? (some .one) (some .one) last
          | [first, last] => count g format? first (some .one) last
          | [first, some step, last] =>
            if step.isZero then misuse "seq" 1
              ("invalid Zero increment value: ".toList ++ quotedWord (operands.getD 1 []))
            else count g format? first (some step) last
          | _ => return 0
where
  count (g : Given) (format? : Option (Except Bytes NumberFormat)) (first step last : Option Step) :
      Act Nat := do
    match first, step with
    | some first, some step =>
      let shown := max (first.places.getD 6) (step.places.getD 6)
      let places := max shown ((last.bind (·.places)).getD (if last.isSome then 20 else 0))
      let (a, d) := (first.scaled places, step.scaled places)
      let b := match last with
        | some last => last.scaled places
        | none => a + d.natAbs * (longestSequence + 1)
      let isLong := (longestSequence : Int) < (b - a).tdiv d
      let b := if isLong then a + d * startOfSequence else b
      let unit : Int := (Nat.pow 10 (places - shown) : Nat)
      let plain (n : Int) : Bytes :=
        (if n < 0 then ['-'] else []) ++ Decimal.pointed shown (n / unit).natAbs
      let numbers := sequenceOf a d b
      let texts := match format? with
        | some (.ok f) => numbers.map (f.text places)
        | _ => numbers.map plain
      let width := max ((texts.map (·.length)).foldl max 0) (plain (b / unit * unit)).length
      let texts := if g.has 'w' then texts.map (padded width) else texts
      if !texts.isEmpty then
        Act.printLine (Bytes.joined ((g.value? 's').getD ['\n']) texts)
      if isLong then Act.stop .endless
      return 0
    | _, _ => return 0
  padded (width : Nat) : Bytes → Bytes
    | '-' :: cs => '-' :: List.replicate (width - 1 - cs.length) '0' ++ cs
    | cs => List.replicate (width - cs.length) '0' ++ cs

end Program
end Shell
end Publishing
