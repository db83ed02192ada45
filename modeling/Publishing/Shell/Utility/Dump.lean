import Publishing.Shell.Utility.Filter

/-
The program that shows the bytes of a text.
-/

namespace Publishing
namespace Shell

namespace Program

/-- How bytes are shown: as characters, by their names, or as numbers of some bytes each. -/
inductive DumpShape where
  | characters
  | names
  | octal (size : Nat)
  | hexadecimal (size : Nat)
  | unsigned (size : Nat)
  | signed (size : Nat)

structure DumpForm where
  shape : DumpShape
  /-- Whether a line ends with the text that its bytes are. -/
  trailed : Bool

namespace DumpShape

def digits (base width n : Nat) : Bytes :=
  let ds := Nat.toDigits base n
  List.replicate (width - ds.length) '0' ++ ds

def padded (width : Nat) (cs : Bytes) : Bytes := List.replicate (width - cs.length) ' ' ++ cs

def size : DumpShape → Nat
  | characters | names => 1
  | octal n | hexadecimal n | unsigned n | signed n => n

/-- How many columns the greatest number takes. -/
def width : DumpShape → Nat
  | characters | names => 3
  | octal n => [3, 6, 8, 11, 14, 16, 19, 22].getD (n - 1) 22
  | hexadecimal n => 2 * n
  | unsigned n => [3, 5, 8, 10, 13, 15, 17, 20].getD (n - 1) 20
  | signed n => [4, 6, 8, 11, 13, 16, 18, 20].getD (n - 1) 20

def controlNames : List String :=
  ["nul", "soh", "stx", "etx", "eot", "enq", "ack", "bel", "bs", "ht", "nl", "vt", "ff", "cr", "so",
   "si", "dle", "dc1", "dc2", "dc3", "dc4", "nak", "syn", "etb", "can", "em", "sub", "esc", "fs",
   "gs", "rs", "us", "sp"]

def shown (f : DumpShape) (cs : Bytes) : Bytes :=
  let n := cs.foldr (fun c n => n * 256 + c.toNat) 0
  match f with
  | characters =>
    match cs.headD ' ' with
    | '\x00' => "\\0".toList
    | '\x07' => "\\a".toList
    | '\x08' => "\\b".toList
    | '\x0c' => "\\f".toList
    | '\n' => "\\n".toList
    | '\r' => "\\r".toList
    | '\t' => "\\t".toList
    | '\x0b' => "\\v".toList
    | c => if c < ' ' ∨ 127 ≤ c.toNat then digits 8 3 c.toNat else [c]
  | names =>
    if n % 128 = 127 then "del".toList
    else ((controlNames[n % 128]?).map String.toList).getD [Char.ofNat (n % 128)]
  | octal _ => digits 8 f.width n
  | hexadecimal _ => digits 16 f.width n
  | unsigned _ => Bytes.decimal n
  | signed size =>
    let range := Nat.pow 256 size
    if range ≤ 2 * n then Bytes.ofInt ((n : Int) - range) else Bytes.decimal n

end DumpShape

namespace DumpForm

/-- What is wrong with the letters for a form. -/
inductive Fault where
  | letter (c : Char)
  | size (digits : Bytes)

/-- The forms that letters with sizes ask for. -/
def ofText (fuel : Nat) (cs : Bytes) : Except Fault (List DumpForm) :=
  match fuel, cs with
  | 0, _ | _, [] => .ok []
  | fuel + 1, c :: cs =>
    let (trailed, rest) : Bool × Bytes := match cs with
      | 'z' :: rest => (true, rest)
      | rest => (false, rest)
    match c with
    | 'a' => (ofText fuel rest).map (⟨.names, trailed⟩ :: ·)
    | 'c' => (ofText fuel rest).map (⟨.characters, trailed⟩ :: ·)
    | c =>
      let ds := cs.takeWhile Text.isDigit
      let (size, rest) : Nat × Bytes := match ds, cs with
        | [], 'C' :: rest => (1, rest)
        | [], 'S' :: rest => (2, rest)
        | [], 'I' :: rest => (4, rest)
        | [], 'L' :: rest => (8, rest)
        | [], rest => (4, rest)
        | ds, cs => (Text.numberOf ds, cs.drop ds.length)
      let (trailed, rest) : Bool × Bytes := match rest with
        | 'z' :: rest => (true, rest)
        | rest => (false, rest)
      let shape? : Option (Nat → DumpShape) := match c with
        | 'd' => some .signed
        | 'o' => some .octal
        | 'u' => some .unsigned
        | 'x' => some .hexadecimal
        | _ => none
      match shape? with
      | none => .error (.letter c)
      | some shape =>
        if [1, 2, 4, 8].contains size then
          (ofText fuel rest).map (⟨shape size, trailed⟩ :: ·)
        else .error (.size ds)

/-- The forms that a letter of its own asks for. -/
def ofLetter : Char → List DumpForm
  | 'a' => [⟨.names, false⟩]
  | 'b' => [⟨.octal 1, false⟩]
  | 'c' => [⟨.characters, false⟩]
  | 'd' => [⟨.unsigned 2, false⟩]
  | 'D' => [⟨.unsigned 4, false⟩]
  | 'h' | 'x' => [⟨.hexadecimal 2, false⟩]
  | 'H' | 'X' => [⟨.hexadecimal 4, false⟩]
  | 'i' => [⟨.signed 4, false⟩]
  | 'I' | 'l' | 'L' => [⟨.signed 8, false⟩]
  | 'o' | 'B' => [⟨.octal 2, false⟩]
  | 'O' => [⟨.octal 4, false⟩]
  | 's' => [⟨.signed 2, false⟩]
  | _ => []

end DumpForm

/-- How a text is dumped. -/
structure Dump where
  forms : List DumpForm
  /-- How many bytes there are in a line. -/
  row : Nat
  /-- The base and the width of the numbers in front of the lines. -/
  address : Option (Nat × Nat)
  repeats : Bool
  /-- Whether the first byte of a number counts most. -/
  bigEnd : Bool

namespace Dump

def addressOf (d : Dump) (n : Nat) : Bytes :=
  match d.address with
  | none => []
  | some (base, width) => DumpShape.digits base width n

/-- How many columns the lines of all forms have. -/
def width (d : Dump) : Nat :=
  (d.forms.map fun f => (f.shape.width + 1) * (d.row / f.shape.size)).foldl max 0

/-- The bytes of one line in a form. -/
def line (d : Dump) (f : DumpForm) (cs : Bytes) : Bytes :=
  let size := f.shape.size
  let fields := d.row / size
  let blank := (d.row - cs.length) / size
  let pad := d.width - f.shape.width * fields
  let cells := (List.range (fields - blank)).map fun i =>
    let bytes := (cs.drop (i * size)).take size
    let whole := bytes ++ List.replicate (size - bytes.length) '\x00'
    let left := fields - i
    DumpShape.padded (f.shape.width + pad * left / fields - pad * (left - 1) / fields)
      (f.shape.shown (if d.bigEnd then whole.reverse else whole))
  let trailer : Bytes :=
    if f.trailed then
      List.replicate (blank * f.shape.width + pad * blank / fields) ' ' ++ "  >".toList ++
        cs.map (fun c => if c < ' ' ∨ 127 ≤ c.toNat then '.' else c) ++ ['<']
    else []
  cells.flatten ++ trailer

/-- The lines of bytes, each with the number of bytes in front of it. -/
def rows (d : Dump) (fuel offset : Nat) (cs : Bytes) : List (Nat × Bytes) :=
  match fuel, cs with
  | 0, _ | _, [] => []
  | fuel + 1, cs => (offset, cs.take d.row) :: rows d fuel (offset + d.row) (cs.drop d.row)

/-- Print bytes that begin at an offset.  A star stands for lines that are the same as the one
before. -/
def print (d : Dump) (offset : Nat) (cs : Bytes) : Act Unit := do
  let mut before : Option Bytes := none
  let mut starred := false
  for (offset, row) in d.rows (cs.length + 1) offset cs do
    if before = some row ∧ row.length = d.row ∧ !d.repeats then
      if !starred then Act.printLine ['*']
      starred := true
    else
      starred := false
      let mut front := d.addressOf offset
      for f in d.forms do
        Act.printLine (front ++ d.line f row)
        front := List.replicate front.length ' '
    before := some row
  if d.address.isSome then Act.printLine (d.addressOf (offset + cs.length))

/-- The number of bytes that a text names, perhaps in units. -/
def byteCount? (cs : Bytes) : Option Nat :=
  let (base, body) : Nat × Bytes := match cs with
    | '0' :: 'x' :: rest | '0' :: 'X' :: rest => (16, rest)
    | '0' :: _ => (8, cs)
    | cs => (10, cs)
  let ds := body.takeWhile fun c => (Text.hexValue? c).any (· < base)
  let n := ds.foldl (fun n c => n * base + (Text.hexValue? c).getD 0) 0
  let unit? : Option Nat := match String.ofList (body.drop ds.length) with
    | "" => some 1
    | "b" => some 512
    | "k" | "K" | "KiB" => some 1024
    | "kB" | "KB" => some 1000
    | "m" | "M" | "MiB" => some 1048576
    | "MB" => some 1000000
    | _ => none
  if ds = [] then none else unit?.map (n * ·)

/-- The texts of at least so many characters in front of zero bytes, with their offsets. -/
def strings (least : Nat) (fuel offset : Nat) (cs : Bytes) : List (Nat × Bytes) :=
  match fuel, cs with
  | 0, _ | _, [] => []
  | fuel + 1, cs =>
    let text := cs.takeWhile fun c => ' ' ≤ c && c ≤ '~'
    let rest := cs.drop (text.length + 1)
    let onward := strings least fuel (offset + text.length + 1) rest
    if least ≤ text.length ∧ (cs.drop text.length).head? = some '\x00' then
      (offset, text) :: onward
    else onward

end Dump

def od : Utility := fun args =>
  withOptions "od" 1 ⟨"abcdDeEfFhHiIlLoOBsvwxXτ", "AjNStwε", [("skip-bytes", 'j'),
    ("address-radix", 'A'), ("read-bytes", 'N'), ("format", 't'), ("output-duplicates", 'v'),
    ("strings", 'S'), ("traditional", 'τ'), ("width", 'w'), ("endian", 'ε')]⟩ (args.map widthOption)
    fun g => do
    let mut forms : List DumpForm := []
    for (c, value) in g.options do
      if c ≠ 't' then forms := forms ++ DumpForm.ofLetter c
      else
        match DumpForm.ofText (value.length + 1) value with
        | .ok more => forms := forms ++ more
        | .error (.letter c) =>
          report "od" ("invalid character '".toList ++ c :: "' in type string ".toList ++
            quotedWord value)
          return 1
        | .error (.size ds) =>
          report "od" ("invalid type string ".toList ++ quotedWord value ++ ";".toList)
          Act.note ("this system doesn't provide a ".toList ++ ds ++
            "-byte integral type".toList)
          return 1
    if forms.isEmpty then forms := [⟨.octal 2, false⟩]
    for (c, value) in g.options do
      if (c = 'j' ∨ c = 'N' ∨ c = 'S' ∧ value ≠ [] ∨ c = 'w' ∧ value ≠ []) ∧
          (Dump.byteCount? value).isNone then
        report "od" ("invalid -".toList ++ c :: " argument '".toList ++ value ++ ['\''])
        return 1
    let unit := (forms.map fun f => f.shape.size).foldl max 1
    let asked := match g.value? 'w' with
      | none => 16
      | some [] => 32
      | some text => (Dump.byteCount? text).getD 16
    let row := if asked = 0 ∨ asked % unit ≠ 0 then unit else asked
    if row ≠ asked then
      report "od" ("warning: invalid width ".toList ++ Bytes.decimal asked ++ "; using ".toList ++
        Bytes.decimal row ++ " instead".toList)
    let address? : Option (Option (Nat × Nat)) := match g.value? 'A' with
      | none | some ['o'] => some (some (8, 7))
      | some ['d'] => some (some (10, 7))
      | some ['x'] => some (some (16, 6))
      | some ['n'] => some none
      | some _ => none
    match address? with
    | none =>
      report "od" ("invalid output address radix '".toList ++ (g.value? 'A').getD [] ++
        "'; it must be one character from [doxn]".toList)
      return 1
    | some address =>
      let d : Dump := ⟨forms, row, address, g.has 'v', g.value? 'ε' = some "big".toList⟩
      let modern := g.options.any fun o => "AjNtvSw".toList.contains o.1
      let (paths, start?) := if modern then (g.operands, none) else offsetOperand g.operands
      let skipped := (start?.or ((g.value? 'j').bind Dump.byteCount?)).getD 0
      let limit := ((g.value? 'N').bind Dump.byteCount?).map (· + skipped)
      dump g d paths skipped limit
where
  /-- An option for the width of lines may have its value right behind it. -/
  widthOption (arg : Bytes) : Bytes := match arg with
    | '-' :: 'w' :: c :: cs => "--width=".toList ++ c :: cs
    | '-' :: 'S' :: c :: cs => "--strings=".toList ++ c :: cs
    | arg => arg
  /-- The last operand is an offset if it has the form of one. -/
  offsetOperand (paths : List Bytes) : List Bytes × Option Nat :=
    let offset? (cs : Bytes) : Option Nat :=
      let body := if cs.head? = some '+' then cs.tail else cs
      let ds := body.takeWhile Text.isDigit
      let base : Nat := if (body.drop ds.length).head? = some '.' then 10 else 8
      let n := ds.foldl (fun n c => n * base + Text.digitValue c) 0
      match (body.drop ds.length).dropWhile (· = '.') with
      | [] => if ds = [] then none else some n
      | ['b'] => if ds = [] then none else some (512 * n)
      | _ => none
    match paths with
    | [a] => if a.head? = some '+' then
        (match offset? a with
          | some n => ([], some n)
          | none => (paths, none))
      else (paths, none)
    | [path, a] => match offset? a with
      | some n => ([path], some n)
      | none => (paths, none)
    | _ => (paths, none)
  dump (g : Given) (d : Dump) (paths : List Bytes) (skipped : Nat) (limit : Option Nat) :
      Act Nat := do
    let mut found : Bytes := []
    let mut all := true
    let mut any := false
    for path in orInput paths do
      let left := limit.map (· - found.length)
      match path, ← inputFault? with
      | ['-'], some why =>
        report "od" ("'standard input': " ++ why).toList
        all := false
        any := true
      | path, _ =>
        match ← readPart left (if path = ['-'] then "/dev/stdin".toList else path) with
        | .ok bytes =>
          found := found ++ Bytes.ofByteArray bytes
          any := true
        | .error cause =>
          report "od" (path ++ ": ".toList ++ cause.reason.toList)
          any := any || cause = .isDirectory
          all := false
    if any then
      if found.length < skipped then
        report "od" "cannot skip past end of combined input".toList
        return 1
      let cs := found.drop skipped
      match (g.options.filter fun o => o.1 = 'S').getLast? with
      | some (_, value) =>
        for (offset, text) in Dump.strings ((Dump.byteCount? value).getD 3) (cs.length + 1) skipped
            cs do
          Act.printLine (d.addressOf offset ++ (if d.address.isSome then [' '] else []) ++ text)
      | none => d.print skipped cs
    closeInput "od" "standard input" paths
    return statusOf all

end Program
end Shell
end Publishing
