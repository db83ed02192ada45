import Publishing.Digest.Sha256
import Publishing.Shell.Utility.Order

/-
The programs that take paths apart, encode bytes, or tell where they run.
-/

namespace Publishing
namespace Shell

namespace Program

/-! ## Paths -/

def withoutSlashes (path : Bytes) : Bytes := (path.reverse.dropWhile (· = '/')).reverse

/-- The last name in a path, or a slash. -/
def baseName (path : Bytes) : Bytes :=
  let trimmed := withoutSlashes path
  if trimmed = [] then path.take 1
  else (trimmed.reverse.takeWhile (· ≠ '/')).reverse

/-- A path without its last name. -/
def directoryName (path : Bytes) : Bytes :=
  let trimmed := withoutSlashes path
  if trimmed = [] then (if path = [] then ['.'] else ['/'])
  else if !trimmed.contains '/' then ['.']
  else
    let above := withoutSlashes (trimmed.reverse.dropWhile (· ≠ '/')).reverse
    if above = [] then ['/'] else above

/-- A name without a suffix, unless that is all of it. -/
def withoutSuffix (suffix name : Bytes) : Bytes :=
  if suffix ≠ [] ∧ suffix.length < name.length ∧ suffix.isSuffixOf name then
    name.take (name.length - suffix.length)
  else name

def basename : Utility := fun args =>
  withOptions "basename" 1 ⟨"az", "s", [("multiple", 'a'), ("suffix", 's'), ("zero", 'z')]⟩ args
    fun g => do
    let ending := if g.has 'z' then '\x00' else '\n'
    let print (suffix path : Bytes) : Act Unit :=
      Act.print (withoutSuffix suffix (baseName path) ++ [ending])
    if g.operands.isEmpty then misuse "basename" 1 "missing operand".toList
    else if g.has 'a' ∨ g.has 's' then
      for path in g.operands do print ((g.value? 's').getD []) path
      return 0
    else
      match g.operands with
      | _ :: _ :: extra :: _ =>
        misuse "basename" 1 ("extra operand ".toList ++ quotedWord extra)
      | path :: rest =>
        print (rest.headD []) path
        return 0
      | [] => return 0

def dirname : Utility := fun args =>
  withOptions "dirname" 1 ⟨"z", "", [("zero", 'z')]⟩ args fun g => do
    if g.operands.isEmpty then misuse "dirname" 1 "missing operand".toList
    else
      for path in g.operands do
        Act.print (directoryName path ++ [if g.has 'z' then '\x00' else '\n'])
      return 0

/-! ## The environment -/

def printenv : Utility := fun args =>
  withOptions "printenv" 2 ⟨"0", "", [("null", '0')]⟩ args fun g => do
    let known := environment (← Act.context)
    let ending := if g.has '0' then '\x00' else '\n'
    if g.operands.isEmpty then
      for (name, value) in known do Act.print (name ++ '=' :: value ++ [ending])
      return 0
    else
      let mut all := true
      for name in g.operands do
        match known.lookup name with
        | some value => Act.print (value ++ [ending])
        | none => all := false
      return statusOf all

/-- The machine that programs believe to run on. -/
def uname : Utility := fun args =>
  withOptions "uname" 1 ⟨"snrvmpioa", "", []⟩ args fun g => do
    let shown := if g.has 'm' ∧ !g.has 's' then "x86_64" else "Linux"
    Act.printLine shown.toList
    return 0

def whoami : Utility := fun _ => do
  Act.printLine "root".toList
  return 0

def id : Utility := fun args =>
  withOptions "id" 1 ⟨"ugGnr", "", [("user", 'u'), ("group", 'g'), ("name", 'n')]⟩ args fun g => do
    let shown := if g.options.isEmpty then "uid=0(root) gid=0(root) groups=0(root)"
      else if g.has 'n' then "root" else "0"
    Act.printLine shown.toList
    return 0

/-! ## Plain text -/

/-- The byte that digits write, of which some are read. -/
def escapedByte (base most : Nat) (value? : Char → Option Nat) (cs : Bytes) : Option (Char × Bytes) :=
  let ds := (cs.take most).takeWhile fun c => (value? c).any (· < base)
  if ds = [] then none
  else some (Char.ofNat (ds.foldl (fun n c => n * base + (value? c).getD 0) 0 % 256),
    cs.drop ds.length)

/-- The bytes of a text with escapes, and whether one of them ended it. -/
def echoed (fuel : Nat) (cs : Bytes) (acc : Bytes) : Bytes × Bool :=
  match fuel, cs with
  | 0, _ | _, [] => (acc.reverse, false)
  | fuel + 1, '\\' :: c :: rest =>
    let octal (cs : Bytes) : Option (Char × Bytes) := escapedByte 8 3 Text.hexValue? cs
    match c with
    | 'c' => (acc.reverse, true)
    | '0' =>
      match octal rest with
      | some (d, rest) => echoed fuel rest (d :: acc)
      | none => echoed fuel rest ('\x00' :: acc)
    | 'x' =>
      match escapedByte 16 2 Text.hexValue? rest with
      | some (d, rest) => echoed fuel rest (d :: acc)
      | none => echoed fuel rest ('x' :: '\\' :: acc)
    | c =>
      match controlOf? c, octal (c :: rest) with
      | some d, _ => echoed fuel rest (d :: acc)
      | none, some (d, rest) => echoed fuel rest (d :: acc)
      | none, none => echoed fuel rest (c :: '\\' :: acc)
  | fuel + 1, c :: rest => echoed fuel rest (c :: acc)

/-- The program that prints its arguments, which has options. -/
def echoProgram : Utility := fun args => do
  let isOption (arg : Bytes) : Bool := match arg with
    | '-' :: c :: cs => (c :: cs).all fun d => ['n', 'e', 'E'].contains d
    | _ => false
  let options := (args.takeWhile isOption).flatMap (·.drop 1)
  let words := args.dropWhile isOption
  let text := Bytes.joined [' '] words
  let escapes := (options.reverse.find? fun c => c ≠ 'n') = some 'e'
  let (text, ended) := if escapes then echoed (text.length + 1) text [] else (text, false)
  Act.print (text ++ if options.contains 'n' ∨ ended then [] else ['\n'])
  return 0

/-! ## Encodings -/

def sixBits : List Char :=
  "ABCDEFGHIJKLMNOPQRSTUVWXYZabcdefghijklmnopqrstuvwxyz0123456789+/".toList

/-- Three bytes as four letters. -/
def encodeSixBits (cs : Bytes) : Bytes :=
  match cs with
  | [] => []
  | [a] =>
    let n := a.toNat * 65536
    [letter (n / 262144), letter (n / 4096), '=', '=']
  | [a, b] =>
    let n := a.toNat * 65536 + b.toNat * 256
    [letter (n / 262144), letter (n / 4096), letter (n / 64), '=']
  | a :: b :: c :: rest =>
    let n := a.toNat * 65536 + b.toNat * 256 + c.toNat
    letter (n / 262144) :: letter (n / 4096) :: letter (n / 64) :: letter n :: encodeSixBits rest
where
  letter (n : Nat) : Char := sixBits.getD (n % 64) 'A'

/-- The bytes that letters encode, and whether all of them could be read. -/
def decodeSixBits (cs : Bytes) : Bytes × Bool :=
  let value? (c : Char) : Option Nat := sixBits.findIdx? (· = c)
  match cs with
  | [] => ([], true)
  | a :: b :: rest =>
    match value? a, value? b with
    | some a, some b =>
      let first := Char.ofNat (a * 4 + b / 16)
      match rest with
      | '=' :: '=' :: rest => let (more, ok) := decodeSixBits rest; (first :: more, ok)
      | c :: rest =>
        match value? c with
        | none => ([first], false)
        | some c =>
          let second := Char.ofNat (b % 16 * 16 + c / 4)
          match rest with
          | '=' :: rest => let (more, ok) := decodeSixBits rest; (first :: second :: more, ok)
          | d :: rest =>
            match value? d with
            | none => ([first, second], false)
            | some d =>
              let (more, ok) := decodeSixBits rest
              (first :: second :: Char.ofNat (c % 4 * 64 + d) :: more, ok)
          | [] => ([first, second], false)
      | [] => ([first], false)
    | _, _ => ([], false)
  | [_] => ([], false)

def base64 : Utility := fun args =>
  withOptions "base64" 1 ⟨"di", "w", [("decode", 'd'), ("wrap", 'w'), ("ignore-garbage", 'i')]⟩ args
    fun g => do
    match ← readInput (g.operands.headD ['-']) with
    | .error f =>
      if f.opened then report "base64" ("read error: " ++ f.reason).toList
      else refuseInput "base64" f
      return 1
    | .ok cs =>
      if g.has 'd' then
        let letters := cs.filter fun c => c ≠ '\n' && (!g.has 'i' || sixBits.contains c || c = '=')
        let (decoded, ok) := decodeSixBits letters
        Act.print decoded
        if ok then return 0
        else
          report "base64" "invalid input".toList
          return 1
      else
        let encoded := encodeSixBits cs
        let width := ((g.value? 'w').bind Bytes.natural?).getD 76
        if width = 0 then Act.print encoded
        else for line in chunks (encoded.length + 1) width encoded do Act.printLine line
        return 0
where
  chunks (fuel width : Nat) (cs : Bytes) : List Bytes :=
    match fuel, cs with
    | 0, _ | _, [] => []
    | fuel + 1, cs => cs.take width :: chunks fuel width (cs.drop width)

def sha256sum : Utility := fun args =>
  withOptions "sha256sum" 1 ⟨"bt", "", []⟩ args fun g => do
    let all ← g.operands |> eachInput (refuseInput "sha256sum") fun path cs => do
      awaitEnd
      let bytes := cs.map Bytes.toByte
      Act.printLine ((Sha256.hex bytes).toList ++ ' ' :: ' ' :: path)
    closeInput "sha256sum" "standard input" g.operands
    return statusOf all

/-! ## Two texts -/

/-- The lines of two texts in order, in a column for each and one for both. -/
def columned (fuel : Nat) (a b : List Bytes) : List (Nat × Bytes) :=
  match fuel, a, b with
  | 0, _, _ | _, [], [] => []
  | fuel + 1, x :: a, [] => (1, x) :: columned fuel a []
  | fuel + 1, [], y :: b => (2, y) :: columned fuel [] b
  | fuel + 1, x :: a, y :: b =>
    match Comparison.compareBytes x y with
    | .lt => (1, x) :: columned fuel a (y :: b)
    | .gt => (2, y) :: columned fuel (x :: a) b
    | .eq => (3, x) :: columned fuel a b

def comm : Utility := fun args =>
  withOptions "comm" 1 ⟨"123", "", []⟩ args fun g => do
    match g.operands with
    | [] => misuse "comm" 1 "missing operand".toList
    | [path] => misuse "comm" 1 ("missing operand after ".toList ++ quotedWord path)
    | [left, right] =>
      let (a, all) ← linesAt left
      if !all then return 1
      let (b, all) ← linesAt right
      if !all then return 1
      let shown (n : Nat) : Bool := !g.has (Char.ofNat (48 + n))
      for (column, line) in columned (a.length + b.length + 1) a b do
        if shown column then
          let before := ((List.range column).filter fun n => 0 < n && shown n).length
          Act.printLine (List.replicate before '\t' ++ line)
      return 0
    | _ :: _ :: extra :: _ => misuse "comm" 1 ("extra operand ".toList ++ quotedWord extra)
where
  linesAt (path : Bytes) : Act (List Bytes × Bool) :=
    foldInputs (refuseInput "comm") (fun _ _ cs => do
      awaitEnd
      return (linesOf cs).map bare) [path] []

end Program
end Shell
end Publishing
