import Publishing.Shell.Pattern
import Publishing.Shell.Utility.Comparison
import Publishing.Shell.Utility.Entry
import Publishing.Shell.Utility.SearchPattern

/-
The program that lists files and directories.
-/

namespace Publishing
namespace Shell

namespace Program

inductive Arrangement where
  /-- One name in each line. -/
  | lines
  /-- Columns that are filled one after the other. -/
  | columns
  /-- Columns that are filled line by line. -/
  | rows
  | commas
  /-- A line with all about each file. -/
  | long
  deriving DecidableEq

/-- How names are quoted. -/
inductive NameStyle where
  | plain
  | escaped
  | quoted
  | shell
  | shellAlways
  deriving DecidableEq

/-- What names are sorted by. -/
inductive ListOrder where
  | name
  | size
  | ending
  | version
  | nothing
  deriving DecidableEq

structure ListStyle where
  arrangement : Arrangement := .lines
  names : NameStyle := .plain
  sorting : ListOrder := .name
  backwards : Bool := false
  /-- Directories stand before files. -/
  directoriesFirst : Bool := false
  /-- Names that begin with a dot are listed, and the two that every directory has. -/
  hidden : Bool := false
  dots : Bool := false
  backups : Bool := true
  /-- Patterns of names that are passed over, and of those that are passed over unless hidden names
  are listed. -/
  ignored : List Bytes := []
  concealed : List Bytes := []
  /-- Directories are listed themselves and not what they hold. -/
  itself : Bool := false
  recursive : Bool := false
  slashes : Bool := false
  stars : Bool := false
  controls : Bool := true
  sizes : Bool := false
  owner : Bool := true
  group : Bool := true
  numeric : Bool := false
  readable : Bool := false
  width : Nat := 80
  tab : Nat := 8
  ending : Char := '\n'
  colored : Bool := false

namespace ListStyle

def options : Options :=
  ⟨"1aAbBCdfFgGhHiklLmnNopqQrRsStuUvxXcDαβγδεζηθι", "ITwFβκλμνξστυ",
    [("all", 'a'), ("almost-all", 'A'), ("author", 'α'), ("escape", 'b'), ("block-size", 'κ'),
     ("ignore-backups", 'B'), ("color", 'β'), ("colour", 'β'), ("directory", 'd'),
     ("dired", 'D'), ("classify", 'F'), ("file-type", 'γ'), ("format", 'λ'),
     ("full-time", 'δ'), ("group-directories-first", 'ε'), ("no-group", 'G'),
     ("human-readable", 'h'), ("si", 'ζ'), ("dereference-command-line", 'H'),
     ("dereference-command-line-symlink-to-dir", 'η'), ("hide", 'μ'),
     ("indicator-style", 'ν'), ("inode", 'i'), ("ignore", 'I'), ("kibibytes", 'k'),
     ("dereference", 'L'), ("numeric-uid-gid", 'n'), ("literal", 'N'),
     ("hide-control-chars", 'q'), ("show-control-chars", 'θ'), ("quote-name", 'Q'),
     ("quoting-style", 'ξ'), ("reverse", 'r'), ("recursive", 'R'), ("size", 's'),
     ("sort", 'σ'), ("time", 'τ'), ("time-style", 'υ'), ("tabsize", 'T'), ("width", 'w'),
     ("zero", 'ι')]⟩

/-- Words that an option knows, with the option. -/
def formats : List (List String) :=
  [["verbose", "long"], ["commas"], ["horizontal", "across"], ["vertical"], ["single-column"]]

def sortings : List (List String) :=
  [["none"], ["time"], ["size"], ["extension"], ["version"], ["width"]]

def indicators : List (List String) := [["none"], ["slash"], ["file-type"], ["classify"]]

def quotings : List (List String) :=
  [["literal"], ["shell"], ["shell-always"], ["shell-escape"], ["shell-escape-always"], ["c"],
   ["c-maybe"], ["escape"], ["locale"], ["clocale"]]

def occasions : List (List String) :=
  [["always", "yes", "force"], ["never", "no", "none"], ["auto", "tty", "if-tty"]]

/-- What is wrong with an option. -/
inductive Fault where
  | word (option : String) (groups : List (List String)) (value : Bytes)
  | text (cs : Bytes)

/-- The style with one more option. -/
def with? (k : ListStyle) (option : Char) (value : Bytes) : Except Fault ListStyle :=
  let word (name : String) (groups : List (List String)) (f : Nat → ListStyle) :
      Except Fault ListStyle :=
    match wordGroup? groups value with
    | some n => .ok (f n)
    | none => .error (.word name groups value)
  let occasion (name : String) (f : Bool → ListStyle) : Except Fault ListStyle :=
    if value = [] then .ok (f true) else word name occasions fun n => f (n = 0)
  let long : ListStyle := { k with arrangement := .long }
  let number (what : String) (f : Nat → ListStyle) : Except Fault ListStyle :=
    match Bytes.natural? value with
    | some n => .ok (f n)
    | none => .error (.text (what.toList ++ quotedWord value))
  match option with
  | '1' => .ok (if k.arrangement = .long then k else { k with arrangement := .lines })
  | 'a' => .ok { k with hidden := true, dots := true }
  | 'A' => .ok { k with hidden := true, dots := false }
  | 'b' => .ok { k with names := .escaped }
  | 'B' => .ok { k with backups := false }
  | 'C' => .ok { k with arrangement := .columns }
  | 'd' => .ok { k with itself := true }
  | 'f' => .ok { k with hidden := true, dots := true, sorting := .nothing, colored := false }
  | 'F' => occasion "--classify" fun b => { k with slashes := b, stars := b }
  | 'g' => .ok { long with owner := false }
  | 'G' => .ok { k with group := false }
  | 'h' | 'ζ' => .ok { k with readable := true }
  | 'I' => .ok { k with ignored := value :: k.ignored }
  | 'l' | 'δ' => .ok long
  | 'm' => .ok { k with arrangement := .commas }
  | 'n' => .ok { long with numeric := true }
  | 'N' => .ok { k with names := .plain }
  | 'o' => .ok { long with group := false }
  | 'p' | 'γ' => .ok { k with slashes := true, stars := false }
  | 'q' => .ok { k with controls := false }
  | 'Q' => .ok { k with names := .quoted }
  | 'r' => .ok { k with backwards := true }
  | 'R' => .ok { k with recursive := true }
  | 's' => .ok { k with sizes := true }
  | 'S' => .ok { k with sorting := .size }
  | 'T' => number "invalid tab size: " fun n => { k with tab := n }
  | 'U' => .ok { k with sorting := .nothing }
  | 'v' => .ok { k with sorting := .version }
  | 'w' => number "invalid line width: " fun n => { k with width := n }
  | 'x' => .ok { k with arrangement := .rows }
  | 'X' => .ok { k with sorting := .ending }
  | 'β' => occasion "--color" fun b => { k with colored := b }
  | 'ε' => .ok { k with directoriesFirst := true }
  | 'θ' => .ok { k with controls := true }
  | 'ι' =>
    let arrangement := if k.arrangement = .long then .long else .lines
    .ok { k with
      ending := '\x00'
      colored := false
      controls := true
      names := .plain
      arrangement := arrangement }
  | 'λ' => word "--format" formats fun n =>
      { k with arrangement := [.long, .commas, .rows, .columns].getD n .lines }
  | 'μ' => .ok { k with concealed := value :: k.concealed }
  | 'ν' => word "--indicator-style" indicators fun n =>
      { k with slashes := 1 ≤ n, stars := n = 3 }
  | 'ξ' => word "--quoting-style" quotings fun n =>
      let names : List NameStyle :=
        [.plain, .shell, .shellAlways, .shell, .shellAlways, .quoted, .plain]
      { k with names := names.getD n .escaped }
  | 'σ' => word "--sort" sortings fun n =>
      { k with sorting := [.nothing, .name, .size, .ending, .version].getD n .name }
  | _ => .ok k

def ofGiven (g : Given) : Except Fault ListStyle :=
  g.options.foldlM (fun k o => k.with? o.1 o.2) {}

/-! ## Names -/

/-- The escape for a control character. -/
def escapedControl (c : Char) : Bytes :=
  match "\x07\x08\x0c\n\r\t\x0b".toList.idxOf? c with
  | some i => ['\\', "abfnrtv".toList.getD i 'n']
  | none => '\\' :: (Nat.toDigits 8 (512 + c.toNat)).tail

def shownName (k : ListStyle) (name : Bytes) : Bytes :=
  let isControl (c : Char) : Bool := c < ' ' || c.toNat = 127
  let escape (special : List Char) : Bytes := name.flatMap fun c =>
    if isControl c then escapedControl c
    else if c = '\\' ∨ special.contains c then ['\\', c] else [c]
  match k.names with
  | .plain => if k.controls then name else name.map fun c => if isControl c then '?' else c
  | .escaped => escape [' ']
  | .quoted => '"' :: escape ['"'] ++ ['"']
  | .shell => quotedIfNeeded name
  | .shellAlways => quotedAlways name

/-! ## Sorting -/

end ListStyle

/-- A file under the name that it is listed by. -/
structure Listed where
  name : Bytes
  place : List String
  node : FileNode

def Listed.size (f : Listed) : Nat :=
  match f.node with
  | .file content => content.size
  | .directory _ => 4096

/-- The disk space in units of 1024 bytes. -/
def Listed.blocks (f : Listed) : Nat := (f.size + 4095) / 4096 * 4

namespace ListStyle

def compare (k : ListStyle) (a b : Listed) : Ordering :=
  let ending (cs : Bytes) : Bytes :=
    if cs.contains '.' then '.' :: (cs.reverse.takeWhile (· ≠ '.')).reverse else []
  let byName := Comparison.compareBytes a.name b.name
  let r := match k.sorting with
    | .name | .nothing => byName
    | .size => (compareOfLessAndEq b.size a.size).then byName
    | .ending => (Comparison.compareBytes (ending a.name) (ending b.name)).then byName
    | .version => (Comparison.compareNames a.name b.name).then byName
  let r := if k.backwards then r.swap else r
  if k.directoriesFirst then
    (Ord.compare b.node.isDirectory a.node.isDirectory).then r
  else r

def inOrder (k : ListStyle) (l : List Listed) : List Listed :=
  if k.sorting = .nothing ∧ !k.directoriesFirst then (if k.backwards then l.reverse else l)
  else l.mergeSort fun a b => (k.compare a b).isLE

/-! ## Arrangement -/

/-- How many columns a text takes. -/
def widthOf (cs : Bytes) : Nat := (Letter.ofBytes cs).length

/-- The widths of the columns that names are arranged in, as many as fit. -/
def columnWidths (k : ListStyle) (byColumns : Bool) (widths : List Nat) : List Nat :=
  let n := widths.length
  let fitting (count : Nat) : Option (List Nat) :=
    let rows := (n + count - 1) / count
    let column (i : Nat) : Nat := if byColumns then i / rows else i % count
    let sizes := (List.range count).map fun c =>
      ((widths.zipIdx.filter fun w => column w.2 = c).map fun w =>
        w.1 + if c + 1 = count then 0 else 2).foldl max 3
    if count = 1 ∨ k.width = 0 ∨ sizes.foldl (· + ·) 0 < k.width then some sizes else none
  let most := min n (if k.width = 0 then n else max 1 (k.width / 3))
  ((List.range most).reverse.findSome? fun i => fitting (i + 1)).getD [0]

/-- Blanks and tabs from one column of the line to another. -/
def indent (k : ListStyle) (fuel start stop : Nat) : Bytes :=
  match fuel with
  | 0 => []
  | fuel + 1 =>
    if stop ≤ start then []
    else if k.tab ≠ 0 ∧ (start + 1) / k.tab < stop / k.tab then
      '\t' :: indent k fuel (start + k.tab - start % k.tab) stop
    else ' ' :: indent k fuel (start + 1) stop

/-- One line of names in columns. -/
def tabulated (k : ListStyle) (widths : List Nat) (names : List Bytes) : Bytes :=
  go 0 widths names
where
  go (start : Nat) : List Nat → List Bytes → Bytes
    | _, [] => []
    | _, [name] => name
    | [], name :: _ => name
    | w :: widths, name :: names =>
      name ++ k.indent (w + 1) (start + widthOf name) (start + w) ++ go (start + w) widths names

/-- Names with commas between them, in lines that are not too long. -/
def separated (k : ListStyle) (names : List Bytes) : Bytes :=
  (names.foldl (fun (acc : Bytes × Nat) name =>
    let (cs, start) := acc
    let size := widthOf name
    if cs = [] then (name, size)
    else if k.width = 0 ∨ start + size + 2 < k.width then
      (cs ++ [',', ' '] ++ name, start + size + 2)
    else (cs ++ [',', '\n'] ++ name, size)) ([], 0)).1

/-- A size with a unit, rounded up. -/
def readableSize (n : Nat) : Bytes :=
  if n < 1024 then Bytes.decimal n
  else if n ≤ 10137 then
    let tenths := (n * 10 + 1023) / 1024
    Bytes.decimal (tenths / 10) ++ '.' :: Bytes.decimal (tenths % 10) ++ ['K']
  else if n ≤ 1047552 then Bytes.decimal ((n + 1023) / 1024) ++ ['K']
  else
    let tenths := (n * 10 + 1048575) / 1048576
    if tenths < 100 then Bytes.decimal (tenths / 10) ++ '.' :: Bytes.decimal (tenths % 10) ++ ['M']
    else Bytes.decimal ((n + 1048575) / 1048576) ++ ['M']

def leftPadded (width : Nat) (cs : Bytes) : Bytes :=
  List.replicate (width - widthOf cs) ' ' ++ cs

end ListStyle

open ListStyle in
/-- Print files in the style that is wanted. -/
def printListed (k : ListStyle) (files : List Listed) : Act Unit := do
  let mut entries : List (Bytes × Nat × Nat × Nat × Listed) := []
  for f in files do
    let isDirectory := f.node.isDirectory
    let mode ← Act.modeOf f.place isDirectory
    let runs := !isDirectory && mode &&& 0o111 ≠ 0
    let mark : Bytes :=
      if isDirectory ∧ k.slashes then ['/'] else if runs ∧ k.stars then ['*'] else []
    let color : String := if isDirectory then "01;34" else if runs then "01;32" else ""
    let name := k.shownName f.name
    let name := if k.colored ∧ color ≠ "" then
      "\x1b[0m\x1b[".toList ++ color.toList ++ 'm' :: name ++ "\x1b[0m".toList else name
    let links := if isDirectory then 2 + (f.node.entries.filter (·.2.isDirectory)).length else 1
    entries := entries ++ [(name ++ mark, mode, links, f.blocks, f)]
  let blockWidth := (entries.map fun e => (Bytes.decimal e.2.2.2.1).length).foldl max 0
  let front (blocks : Nat) : Bytes :=
    if k.sizes then leftPadded blockWidth (Bytes.decimal blocks) ++ [' '] else []
  let size (f : Listed) : Bytes :=
    if k.readable then readableSize f.size else Bytes.decimal f.size
  let names := entries.map fun e => front e.2.2.2.1 ++ e.1
  match k.arrangement with
  | .lines => for name in names do Act.print (name ++ [k.ending])
  | .commas => if !names.isEmpty then Act.printLine (k.separated names)
  | .long =>
    let linkWidth := (entries.map fun e => (Bytes.decimal e.2.2.1).length).foldl max 0
    let sizeWidth := (entries.map fun e => (size e.2.2.2.2).length).foldl max 0
    let who : Bytes := if k.numeric then ['0'] else "root".toList
    for (name, mode, links, blocks, f) in entries do
      let words := [(if f.node.isDirectory then 'd' else '-') :: Mode.letters mode,
        leftPadded linkWidth (Bytes.decimal links)] ++ (if k.owner then [who] else []) ++
        (if k.group then [who] else []) ++
        [leftPadded sizeWidth (size f), "Jan  1 00:00".toList, name]
      Act.print (front blocks ++ Bytes.joined [' '] words ++ [k.ending])
  | arrangement =>
    if !names.isEmpty then
      let byColumns := arrangement = .columns
      let widths := k.columnWidths byColumns (names.map widthOf)
      let rows := (names.length + widths.length - 1) / widths.length
      for row in List.range rows do
        let chosen := (names.zipIdx.filter fun n =>
          if byColumns then n.2 % rows = row else n.2 / widths.length = row).map (·.1)
        Act.printLine (k.tabulated widths chosen)

/-- What is listed of a directory, in order. -/
def listedIn (k : ListStyle) (place : List String) (n : FileNode) : List Listed :=
  let dots : List Listed :=
    if k.dots then [⟨['.'], place, n⟩, ⟨['.', '.'], place.dropLast, .emptyDirectory⟩] else []
  let isShown (name : Bytes) : Bool :=
    (k.hidden || name.head? ≠ some '.') && (k.backups || name.getLast? ≠ some '~') &&
      !(k.ignored.any fun p => Pattern.fits p name) &&
      (k.hidden || !(k.concealed.any fun p => Pattern.fits p name))
  let entries := n.entries.map fun e =>
    Listed.mk (Bytes.ofString e.1) (place ++ [e.1]) e.2
  k.inOrder (dots ++ entries.filter fun f => isShown f.name)

/-- Print directories with what they hold, and with all below if that is wanted. -/
def printDirectories (k : ListStyle) (titled : Bool) (fuel : Nat) (first : Bool)
    (directories : List Listed) : Act Bool := do
  match fuel, directories with
  | 0, _ => return first
  | _, [] => return first
  | fuel + 1, d :: directories =>
    if titled then
      if !first then Act.print ['\n']
      Act.print (k.shownName d.name ++ [':', k.ending])
    let files := listedIn k d.place d.node
    if k.arrangement = .long ∨ k.sizes then
      let total := (files.map (·.blocks)).foldl (· + ·) 0
      Act.print ("total ".toList ++ (if k.readable then ListStyle.readableSize (1024 * total)
        else Bytes.decimal total) ++ [k.ending])
    printListed k files
    let below := (files.filter fun f =>
      k.recursive && f.node.isDirectory && !([['.'], ['.', '.']].contains f.name)).map
        fun f => { f with name := under d.name f.name }
    printDirectories k titled fuel false (below ++ directories)

def ls : Utility := fun args =>
  withOptions "ls" 2 ListStyle.options args fun g => do
    match ListStyle.ofGiven g with
    | .error (.word option groups value) => refuseWord "ls" option 1 groups value
    | .error (.text cs) =>
      report "ls" cs
      return 2
    | .ok k =>
      let mut found : List Listed := []
      let mut all := true
      for path in (if g.operands.isEmpty then [['.']] else g.operands) do
        match ← stat path with
        | .error cause => all := ← refuse "ls" "cannot access " path cause.reason
        | .ok (place, n) => found := found ++ [⟨path, place, n⟩]
      let (directories, files) := found.partition fun f => f.node.isDirectory && !k.itself
      printListed k (k.inOrder files)
      let titled := 1 < g.operands.length || k.recursive
      let _ ← printDirectories k titled 100000 files.isEmpty (k.inOrder directories)
      return if all then 0 else 2

end Program
end Shell
end Publishing
