import Publishing.Shell.Utility.Basic
import Publishing.Shell.Utility.SearchPattern.Reader

/-
The programs that copy what they read, all of it or some of it, or count it.
-/

namespace Publishing
namespace Shell

namespace Program

/-! ## Copies -/

/-- A byte so that it can be seen: controls after a circumflex, and the upper half after
`M-`. -/
def visible (keepsTab : Bool) (c : Char) : Bytes :=
  let n := c.toNat
  let low (n : Nat) : Bytes :=
    if n = 127 then ['^', '?']
    else if n < 32 then ['^', Char.ofNat (n + 64)]
    else [Char.ofNat n]
  if c = '\n' ∨ (c = '\t' ∧ keepsTab) then [c]
  else if n < 128 then low n
  else 'M' :: '-' :: low (n - 128)

/-- How a copy shows lines. -/
structure CopyStyle where
  numbers : Bool
  /-- Only lines with something in them are numbered. -/
  full : Bool
  /-- Of empty lines after each other only the first is copied. -/
  squeezes : Bool
  shows : Bool
  tabs : Bool
  ends : Bool

/-- What was copied so far: the number of the next line, whether one begins, and whether
the last one was empty. -/
structure Copied where
  number : Nat
  begins : Bool
  afterEmpty : Bool

/-- What is in a line, as it is shown. -/
def CopyStyle.body (k : CopyStyle) (cs : Bytes) : Bytes :=
  if k.shows then cs.flatMap (visible (!k.tabs))
  else if k.tabs then cs.flatMap fun c => if c = '\t' then ['^', 'I'] else [c]
  else cs

/-- A line with its end, as it is shown, after what was copied so far. -/
def CopyStyle.line (k : CopyStyle) (s : Copied) (line : Bytes) : Bytes × Copied :=
  let cs := bare line
  let empty := s.begins ∧ line = ['\n']
  if empty ∧ k.squeezes ∧ s.afterEmpty then ([], s)
  else
    let numbers := k.numbers && s.begins && !(k.full && empty)
    let n := Bytes.decimal s.number
    let front := if numbers then List.replicate (6 - n.length) ' ' ++ n ++ ['\t'] else []
    let closed := line.length ≠ cs.length
    let returns := k.ends && !k.shows && closed && cs.getLast? = some '\x0d'
    let body := if returns then k.body cs.dropLast ++ ['^', 'M'] else k.body cs
    (front ++ body ++ (if k.ends ∧ closed then ['$'] else []) ++ line.drop cs.length,
      ⟨if numbers then s.number + 1 else s.number, closed, empty⟩)

/-- Whether what is read is also what is written, so that a copy would never end. -/
def isOwnOutput (path : Bytes) : Act Bool := do
  match ← inputPlace? path, ← filePlace? 1 with
  | some (a, start), some (b, stop) => return a = b && start < stop
  | _, _ => return false

/-- Copy what inputs hold. -/
def copyInputs (k : CopyStyle) (plain : Bool) : List Bytes → Copied → Act Nat
  | [], _ => return 0
  | path :: paths, s => do
    if ← isOwnOutput path then
      report "cat" (quotedIfNeeded path ++ ": input file is output file".toList)
      let _ ← copyInputs k plain paths s
      return 1
    else
      match ← readInput path with
      | .error f =>
        refuseInput "cat" f
        let _ ← copyInputs k plain paths s
        return 1
      | .ok cs =>
        let (shown, s) := if plain then ([cs], s)
          else (linesOf cs).foldl (fun (shown, s) line =>
            let (text, s) := k.line s line
            (text :: shown, s)) ([], s)
        Act.print shown.reverse.flatten
        if (← get).broken then return 1
        else if (← get).unending then return 0
        else copyInputs k plain paths s

def cat : Utility := fun args =>
  withOptions "cat" 1 ⟨"AbeEnstTuv", "",
    [("show-all", 'A'), ("number-nonblank", 'b'), ("show-ends", 'E'), ("number", 'n'),
     ("squeeze-blank", 's'), ("show-tabs", 'T'), ("show-nonprinting", 'v')]⟩ args fun g => do
    let k : CopyStyle :=
      { numbers := g.has 'n' || g.has 'b'
        full := g.has 'b'
        squeezes := g.has 's'
        shows := g.has 'v' || g.has 'e' || g.has 't' || g.has 'A'
        tabs := g.has 'T' || g.has 't' || g.has 'A'
        ends := g.has 'E' || g.has 'e' || g.has 'A' }
    if (← Act.streamOf? 1).isNone then
      report "cat" "standard output: Bad file descriptor".toList
      return 1
    else
      let plain := g.options.all fun o => o.1 = 'u'
      let n ← copyInputs k plain (orInput g.operands) ⟨1, true, false⟩
      closeInput "cat" "closing standard input" g.operands
      return n

/-- Open the files that are copied to.  The flag says whether all of them could be. -/
def openCopies (appends : Bool) : List Bytes → Act (List String × Bool)
  | [] => return ([], true)
  | path :: paths => do
    let s ← get
    let text := Bytes.toText path
    if text.startsWith "/dev/" then
      let (opened, all) ← openCopies appends paths
      return (text :: opened, all)
    else
      match s.files.writable text with
      | .ok (place, content) =>
        let old := if appends then content.getD .empty else .empty
        set { s with files := s.files.putAt place (.file old) }
        let (opened, all) ← openCopies appends paths
        return (text :: opened, all)
      | .error cause =>
        report "tee" (quotedIfNeeded path ++ ": ".toList ++ cause.reason.toList)
        let (opened, _) ← openCopies appends paths
        return (opened, false)

def tee : Utility := fun args =>
  withOptions "tee" 1 ⟨"aip", "", [("append", 'a')]⟩ args fun g => do
    let (opened, all) ← openCopies (g.has 'a') g.operands
    let read ← readInput ['-']
    let bytes := match read with
      | .ok cs => Bytes.toByteArray cs
      | .error _ => .empty
    let written ← Act.writeBytes 1 bytes
    if !written then
      report "tee" ("'standard output': " ++ (← Act.outputFault? 1).getD "Broken pipe").toList
    for path in opened do
      match Act.descriptorOf? path, (← get).files.append path bytes with
      | some fd, _ =>
        let _ ← Act.writeBytes fd bytes
      | none, .ok files => modify fun s => { s with files := files }
      | none, .error _ => pure ()
    match read with
    | .ok _ => return statusOf (all && written)
    | .error f =>
      report "tee" ("read error: " ++ f.reason).toList
      closeInput "tee" "standard input" []
      return 1

/-! ## Parts -/

/-- The old way to give a count: as an option of digits. -/
def modernCount (name : String) (args : List Bytes) : List Bytes :=
  match args with
  | ('+' :: c :: cs) :: rest =>
    if name = "tail" ∧ Text.isDigit c ∧ rest.length ≤ 1 then
      let ds := (c :: cs).takeWhile Text.isDigit
      let letter := if (c :: cs).contains 'c' then 'c' else 'n'
      ('-' :: letter :: '+' :: ds) :: rest
    else args
  | ('-' :: c :: cs) :: rest =>
    if Text.isDigit c then
      let ds := (c :: cs).takeWhile Text.isDigit
      let letter := if (c :: cs).contains 'c' then 'c' else 'n'
      ('-' :: letter :: ds) :: rest
    else args
  | args => args

/-- Whether a text is a number, but one that is too large. -/
def isTooLarge (cs : Bytes) : Bool :=
  let body := cs.dropWhile fun c => c = '-' || c = '+'
  let ds := body.takeWhile Text.isDigit
  ds ≠ [] && (18446744073709551615 < Text.numberOf ds ||
    ["Z", "Y", "R", "Q"].contains (String.ofList (body.drop ds.length)))

/-- A count with a sign in front and a unit behind. -/
structure PartCount where
  sign : Option Char
  count : Nat

def partCount? (cs : Bytes) : Option PartCount :=
  let (sign, cs) : Option Char × Bytes := match cs with
    | '-' :: cs => (some '-', cs)
    | '+' :: cs => (some '+', cs)
    | cs => (none, cs)
  let ds := cs.takeWhile Text.isDigit
  let unit? := match cs.drop ds.length with
    | [] => some 1
    | ['b'] => some 512
    | ['k'] | ['K'] => some 1024
    | ['M'] => some 1048576
    | ['G'] => some 1073741824
    | ['k', 'B'] => some 1000
    | ['M', 'B'] => some 1000000
    | _ => none
  if ds = [] ∨ isTooLarge ds then none else unit?.map fun u => ⟨sign, Text.numberOf ds * u⟩

/-- How much of each input a program prints. -/
structure PartWanted where
  inBytes : Bool
  count : PartCount

/-- Print a part of each input, with headings if there are several. -/
def printParts (name : String) (part : PartWanted → Bytes → Bytes) : Utility := fun args =>
  withOptions name 1 ⟨if name = "tail" then "qvzfF" else "qvz", "nc", [("lines", 'n'), ("bytes", 'c'), ("quiet", 'q'), ("silent", 'q'),
    ("verbose", 'v')]⟩ (modernCount name args) fun g => do
    let last? := (g.options.filter fun o => o.1 = 'n' || o.1 = 'c').getLast?
    let (letter, text) := last?.getD ('n', ['1', '0'])
    match partCount? text with
    | none =>
      let what := if letter = 'c' then "invalid number of bytes: " else "invalid number of lines: "
      report name (what.toList ++ quotedWord text ++ (if isTooLarge text then
        ": Value too large for defined data type" else "").toList)
      return 1
    | some count =>
      let wanted : PartWanted := ⟨letter = 'c', count⟩
      let limit := if name = "head" ∧ count.sign ≠ some '-' ∧ wanted.inBytes then some count.count
        else none
      let headings := (1 < g.operands.length && !g.has 'q') || g.has 'v'
      let heading (first : Bool) (path : Bytes) : Act Unit := do
        let title := if path = ['-'] then "standard input".toList else path
        if headings then
          Act.print ((if first then [] else ['\n']) ++ "==> ".toList ++ title ++ " <==\n".toList)
      let mut all := true
      let mut first := true
      for path in orInput g.operands do
        match ← read limit path with
        | .ok cs =>
          heading first path
          first := false
          if name = "head" ∧ count.sign ≠ some '-' then leaveInput else awaitEnd
          let shown := part wanted cs
          Act.print shown
          if path = ['-'] ∧ name = "head" then returnRest (cs.length - shown.length)
        | .error f =>
          let title := if path = ['-'] then "'standard input'".toList else quotedAlways path
          if f.opened then
            heading first path
            first := false
            let closed := name = "tail" ∧ f.reason = "Bad file descriptor"
            report name ((if closed then "cannot fstat " else "error reading ").toList ++ title ++
              ": ".toList ++ f.reason.toList)
          else
            report name ("cannot open ".toList ++ title ++ " for reading: ".toList ++
              f.reason.toList)
          all := false
      closeInput name "-" g.operands
      return statusOf all
where
  /-- What is in an input, up to a limit if there is one. -/
  read (limit : Option Nat) (path : Bytes) : Act (Except InputFault Bytes) := do
    if path = ['-'] then
      match ← inputFault?, limit with
      | some reason, _ => return .error ⟨path, true, reason⟩
      | none, none => return .ok (Bytes.ofByteArray (← Act.takeStart 0))
      | none, limit => return .ok (Bytes.ofByteArray ((← Act.take? 0 limit).getD .empty))
    else
      match ← readPart limit path with
      | .ok bytes => return .ok (Bytes.ofByteArray bytes)
      | .error cause => return .error ⟨path, cause = .isDirectory, cause.reason⟩
  /-- Give back what was not used of a file, which is left at that place. -/
  returnRest (count : Nat) : Act Unit := do
    match ← Act.streamOf? 0 with
    | none => return
    | some i =>
      match ← Act.stream i with
      | .file .. => Act.giveBack 0 count
      | _ => return

def headPart (w : PartWanted) (cs : Bytes) : Bytes :=
  let n := w.count.count
  let keep {α : Type} (l : List α) : List α :=
    if w.count.sign = some '-' then l.take (l.length - n) else l.take n
  if w.inBytes then keep cs else (keep (linesOf cs)).flatten

def tailPart (w : PartWanted) (cs : Bytes) : Bytes :=
  let n := w.count.count
  let keep {α : Type} (l : List α) : List α :=
    if w.count.sign = some '+' then l.drop (n - 1) else l.drop (l.length - n)
  if w.inBytes then keep cs else (keep (linesOf cs)).flatten

def head : Utility := printParts "head" headPart

def tail : Utility := printParts "tail" tailPart

/-! ## Counts -/

def countWords : (inside : Bool) → Bytes → Nat → Nat
  | _, [], n => n
  | inside, c :: rest, n =>
    if Bytes.isSpace c then countWords false rest n
    else countWords true rest (if inside then n else n + 1)

/-- The counts of lines, words, characters, bytes, and of the columns of the longest
line. -/
def countsOf (cs : Bytes) : List Nat :=
  let characters := (Letter.ofBytes cs).filter fun l => l.char?.isSome
  [cs.count '\n', countWords false cs 0, characters.length, cs.length,
   ((linesOf cs).map fun line => columns 0 (Letter.ofBytes (bare line))).foldl max 0]
where
  /-- The column after a text, where a tab goes on to the next multiple of eight. -/
  columns (n : Nat) : List Letter → Nat
    | [] => n
    | l :: ls =>
      match l.char? with
      | some '\t' => columns (n + 8 - n % 8) ls
      | some c => columns (if c < ' ' || c = '\x7f' then n else n + 1) ls
      | none => columns n ls

def rightAligned (width : Nat) (n : Nat) : Bytes :=
  let ds := Bytes.decimal n
  List.replicate (width - ds.length) ' ' ++ ds

/-- What is known of the size of an input before it is read. -/
inductive InputSize where
  | known (n : Nat)
  /-- It is no file. -/
  | unbounded
  /-- It is not there. -/
  | unknown
  deriving DecidableEq

def sizeOf (path : Bytes) : Act InputSize := do
  if path = ['-'] then
    match ← Act.streamOf? 0 with
    | none => return .unknown
    | some i =>
      match ← Act.stream i with
      | .file place .. => return ofNode ((← get).files.nodeAt? place)
      | _ => return .unbounded
  else
    let text := Bytes.toText path
    if text.startsWith "/dev/" then return .unbounded
    else return ofNode ((← get).files.stat text).toOption
where
  ofNode : Option FileNode → InputSize
    | some (.file content) => .known content.size
    | some (.directory _) => .unbounded
    | none => .unknown

def wc : Utility := fun args =>
  withOptions "wc" 1 ⟨"clmwL", "", [("bytes", 'c'), ("chars", 'm'), ("lines", 'l'), ("words", 'w'),
    ("max-line-length", 'L')]⟩ args fun g => do
    let letters := ['l', 'w', 'm', 'c', 'L']
    let wanted := if g.options.isEmpty then ['l', 'w', 'c'] else letters.filter g.has
    let paths := orInput g.operands
    let sizes ← paths.mapM sizeOf
    let width := if paths.length = 1 ∧ wanted.length = 1 ∨ sizes.head? = some .unknown then 1
      else
        let total := (sizes.map fun
          | .known n => n
          | _ => 0).foldl (· + ·) 0
        max (if sizes.contains .unbounded then 7 else 1) (Bytes.decimal total).length
    let line (counts : List Nat) (title : Bytes) : Bytes :=
      let shown := (letters.zip counts).filter fun l => wanted.contains l.1
      Bytes.joined [' '] (shown.map fun l => rightAligned width l.2) ++
        (if title = [] then [] else ' ' :: title) ++ ['\n']
    let printCounts (sums : List Nat) (path : Bytes) (cs : Bytes) : Act (List Nat) := do
      awaitEnd
      let counts := countsOf cs
      Act.print (line counts (if g.operands.isEmpty then [] else path))
      return (sums.zip counts).zipIdx.map fun p =>
        if p.2 = 4 then max p.1.1 p.1.2 else p.1.1 + p.1.2
    let refusal (f : InputFault) : Act Unit := do
      if f.path = ['-'] then report "wc" ("'standard input': " ++ f.reason).toList
      else refuseInput "wc" f
      if f.opened then
        Act.print (line [0, 0, 0, 0, 0] (if g.operands.isEmpty then [] else f.path))
    let (sums, all) ← foldInputs refusal printCounts paths [0, 0, 0, 0, 0]
    if 1 < paths.length then Act.print (line sums "total".toList)
    closeInput "wc" "-" paths
    return statusOf all

/-! ## Orders -/

/-- The parts of a text that end in a separator, in order. -/
def endedParts (fuel : Nat) (separator cs current : Bytes) : List Bytes :=
  match fuel, cs with
  | 0, _ | _, [] => if current = [] then [] else [current.reverse]
  | fuel + 1, c :: rest =>
    if separator.isPrefixOf cs then
      (current.reverse ++ separator) :: endedParts fuel separator (cs.drop separator.length) []
    else endedParts fuel separator rest (c :: current)

/-- The parts of a text that begin with a separator, in order. -/
def begunParts (fuel : Nat) (separator cs current : Bytes) : List Bytes :=
  match fuel, cs with
  | 0, _ | _, [] => if current = [] then [] else [current.reverse]
  | fuel + 1, c :: rest =>
    if separator.isPrefixOf cs then
      let more := begunParts fuel separator (cs.drop separator.length) separator.reverse
      if current = [] then more else current.reverse :: more
    else begunParts fuel separator rest (c :: current)

def tac : Utility := fun args =>
  withOptions "tac" 1 ⟨"br", "s", [("before", 'b'), ("separator", 's'), ("regex", 'r')]⟩ args
    fun g => do
    let separator := (g.value? 's').getD ['\n']
    let separator := if separator = [] then ['\x00'] else separator
    let parts (cs : Bytes) : List Bytes :=
      if g.has 'b' then begunParts (cs.length + 1) separator cs []
      else endedParts (cs.length + 1) separator cs []
    let refusal (f : InputFault) : Act Unit := do
      let title := if f.path = ['-'] then "'standard input'".toList else quotedIfNeeded f.path
      let reason := if f.reason = "Is a directory" then "Invalid argument" else f.reason
      if f.opened then report "tac" (title ++ ": read error: ".toList ++ reason.toList)
      else report "tac" ("failed to open ".toList ++ quotedAlways f.path ++ " for reading: ".toList ++
        reason.toList)
    let (texts, all) ← foldInputs refusal (fun texts _ cs => do
      awaitEnd
      return (parts cs).reverse.flatten :: texts) (orInput g.operands) []
    Act.print texts.reverse.flatten
    closeInput "tac" "-" g.operands
    return statusOf all

def rev : Utility := fun args =>
  withOptions "rev" 1 ⟨"", "", []⟩ args fun g => do
    let refusal (f : InputFault) : Act Unit := do
      if f.opened then Act.stop .endless
      else report "rev" ("cannot open ".toList ++ f.path ++ ": ".toList ++ f.reason.toList)
    let (texts, all) ← foldInputs refusal (fun texts _ cs =>
      return (linesOf cs).flatMap reversed :: texts) (orInput g.operands) []
    Act.print texts.reverse.flatten
    return statusOf all
where
  reversed (line : Bytes) : Bytes :=
    let text := (Bytes.toText (bare line)).toList.reverse
    Bytes.ofString (String.ofList text) ++ line.drop (bare line).length

/-! ## Numbers in front of lines -/

/-- Which lines of a part of a page get numbers. -/
inductive Numbered where
  | all
  | full
  | none
  | fitting (p : SearchPattern)

def Numbered.ofText? (cs : Bytes) : Option Numbered :=
  match cs with
  | ['a'] => some .all
  | ['t'] => some .full
  | ['n'] => some .none
  | 'p' :: text => (SearchPattern.ofText ⟨false, false⟩ text).toOption.map fun p => .fitting p.pattern
  | _ => Option.none

def Numbered.holds (k : Numbered) (line : Bytes) : Bool :=
  match k with
  | .all => true
  | .full => line ≠ []
  | .none => false
  | .fitting p =>
    let start := SearchPattern.Spot.start (Letter.ofBytes line)
    (p.find? false .longest (fun _ _ => true) (start.rest.length + 1) start).isSome

/-- The parts of a page. -/
inductive PagePart where
  | header
  | body
  | footer

/-- The part that a line begins. -/
def pagePart? (line : Bytes) : Option PagePart :=
  if line = "\\:\\:\\:".toList then some .header
  else if line = "\\:\\:".toList then some .body
  else if line = "\\:".toList then some .footer
  else none

/-- How numbers are put in front of lines. -/
structure LineNumbers where
  header : Numbered
  body : Numbered
  footer : Numbered
  first : Int
  step : Int
  width : Nat
  /-- Whether numbers stand at the left, and whether zeros fill them up. -/
  left : Bool
  zeros : Bool
  between : Bytes

namespace LineNumbers

def wanted (k : LineNumbers) : PagePart → Numbered
  | .header => k.header
  | .body => k.body
  | .footer => k.footer

def shown (k : LineNumbers) (n : Int) : Bytes :=
  let ds := Bytes.ofInt n
  let gap := k.width - ds.length
  if k.left then ds ++ List.replicate gap ' '
  else if k.zeros then
    (if n < 0 then ['-'] else []) ++ List.replicate gap '0' ++ Bytes.decimal n.natAbs
  else List.replicate gap ' ' ++ ds

/-- One line, after which the part of the page and the next number are known. -/
def line (k : LineNumbers) (s : PagePart × Int) (cs : Bytes) : Bytes × PagePart × Int :=
  match pagePart? cs with
  | some part => (['\n'], part, k.first)
  | none =>
    if (k.wanted s.1).holds cs then
      (k.shown s.2 ++ k.between ++ cs ++ ['\n'], s.1, s.2 + k.step)
    else (List.replicate (k.width + k.between.length) ' ' ++ cs ++ ['\n'], s)

def options : Options :=
  ⟨"p", "bhfwsnvidl", [("body-numbering", 'b'), ("header-numbering", 'h'),
    ("footer-numbering", 'f'), ("number-width", 'w'), ("number-separator", 's'),
    ("number-format", 'n'), ("starting-line-number", 'v'), ("line-increment", 'i'),
    ("no-renumber", 'p')]⟩

/-- What options ask for, or what is wrong with them. -/
def ofGiven (g : Given) : Except Bytes LineNumbers := do
  let style (c : Char) (usual : Numbered) (what : String) : Except Bytes Numbered :=
    match g.value? c with
    | none => .ok usual
    | some cs => match Numbered.ofText? cs with
      | some k => .ok k
      | none => .error (("invalid " ++ what ++ " numbering style: ").toList ++ quotedWord cs)
  let number (c : Char) (usual : Int) (what : String) : Except Bytes Int :=
    match g.value? c with
    | none => .ok usual
    | some cs => match Arithmetic.integer? cs with
      | some n => .ok n
      | none => .error (("invalid " ++ what ++ ": ").toList ++ quotedWord cs)
  let width ← number 'w' 6 "line number field width"
  if width < 1 then
    throw ("invalid line number field width: ".toList ++ quotedWord ((g.value? 'w').getD []) ++
      ": Numerical result out of range".toList)
  let form := (g.value? 'n').getD ['r', 'n']
  if !([['l', 'n'], ['r', 'n'], ['r', 'z']].contains form) then
    throw ("invalid line numbering format: ".toList ++ quotedWord form)
  return {
    header := ← style 'h' .none "header"
    body := ← style 'b' .full "body"
    footer := ← style 'f' .none "footer"
    first := ← number 'v' 1 "starting line number"
    step := ← number 'i' 1 "line number increment"
    width := width.toNat
    left := form = ['l', 'n']
    zeros := form = ['r', 'z']
    between := (g.value? 's').getD ['\t'] }

end LineNumbers

def nl : Utility := fun args =>
  withOptions "nl" 1 LineNumbers.options args fun g => do
    match LineNumbers.ofGiven g with
    | .error cs =>
      report "nl" cs
      if ["line numbering format", "numbering style"].any fun what =>
          ((Bytes.toText cs).splitOn what).length ≠ 1 then
        hint "nl"
      return 1
    | .ok k =>
      let numbered (s : PagePart × Int) (_ cs : Bytes) : Act (PagePart × Int) := do
        let mut s := s
        for line in linesOf cs do
          let (text, next) := k.line s (bare line)
          Act.print text
          s := next
        return s
      let (_, all) ← foldInputs (refuseInput "nl") numbered (orInput g.operands) (.body, k.first)
      closeInput "nl" "-" g.operands
      return statusOf all

end Program
end Shell
end Publishing
