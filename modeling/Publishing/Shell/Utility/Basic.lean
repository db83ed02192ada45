import Publishing.Shell.Redirect

/-
What the programs beside the shell have in common: their options, their reports, and how
they read files.
-/

namespace Publishing
namespace Shell

namespace Program

/-- Characters that a name may hold without quotes in a report. -/
def isPlainInName (c : Char) : Bool :=
  c.isAlphanum || 128 ≤ c.toNat || "%+,-./:=@_^~#".toList.contains c

/-- A name as a report quotes it if it has to. -/
def quotedIfNeeded (cs : Bytes) : Bytes :=
  let plain := cs ≠ [] && cs.all isPlainInName && !(['~', '#'].contains (cs.headD ' '))
  if plain then cs
  else if cs.contains '\'' ∧ !(cs.any fun c => ['"', '$', '\x60', '\\'].contains c) then
    '"' :: cs ++ ['"']
  else quoteShell cs
where
  quoteShell (cs : Bytes) : Bytes :=
    '\'' :: cs.flatMap (fun c => if c = '\'' then "'\\''".toList else [c]) ++ ['\'']

/-- A name as a report always quotes it. -/
def quotedAlways (cs : Bytes) : Bytes :=
  let q := quotedIfNeeded cs
  if q = cs then '\'' :: cs ++ ['\''] else q

/-- A word of the command line as a report quotes it. -/
def quotedWord (cs : Bytes) : Bytes := Bytes.ofString "‘" ++ cs ++ Bytes.ofString "’"

def report (name : String) (cs : Bytes) : Act Unit := Act.note (name.toList ++ ':' :: ' ' :: cs)

def hint (name : String) : Act Unit := do
  if name = "grep" then Act.note "Usage: grep [OPTION]... PATTERNS [FILE]...".toList
  Act.note ("Try '" ++ name ++ " --help' for more information.").toList

/-- Report a wrong use: the status for it. -/
def misuse (name : String) (status : Nat) (cs : Bytes) : Act Nat := do
  report name cs
  hint name
  return status

/-! ## Options -/

/-- The options of a program: letters without and with a value, and longer names for
them.  A letter that is among both has a value only if that is joined to its long name by an
equals sign.  A letter that is no byte stands for an option that only has a long name. -/
structure Options where
  plain : String
  valued : String
  long : List (String × Char)

/-- What options and operands were given. -/
structure Given where
  options : List (Char × Bytes)
  operands : List Bytes

namespace Given

def has (g : Given) (c : Char) : Bool := g.options.any fun o => o.1 = c

/-- The value that was given last. -/
def value? (g : Given) (c : Char) : Option Bytes :=
  (g.options.reverse.find? fun o => o.1 = c).map (·.2)

/-- Which of some options was given last. -/
def last? (g : Given) (letters : String) : Option Char :=
  (g.options.reverse.find? fun o => letters.toList.contains o.1).map (·.1)

def values (g : Given) (c : Char) : List Bytes :=
  (g.options.filter fun o => o.1 = c).map (·.2)

end Given

/-- The options in one argument of letters, with what follows it.  On failure, what is
wrong. -/
def readLetters (o : Options) : (letters : Bytes) → (rest : List Bytes) →
    Except Bytes (List (Char × Bytes) × List Bytes)
  | [], rest => .ok ([], rest)
  | c :: cs, rest =>
    if o.plain.toList.contains c then
      (readLetters o cs rest).map fun r => ((c, []) :: r.1, r.2)
    else if o.valued.toList.contains c then
      match cs, rest with
      | [], [] => .error ("option requires an argument -- '".toList ++ [c, '\''])
      | [], value :: rest => .ok ([(c, value)], rest)
      | cs, rest => .ok ([(c, cs)], rest)
    else .error ("invalid option -- '".toList ++ [c, '\''])

/-- An option with a long name, or with a part of it that no other option begins with. -/
def readLong (o : Options) (text : Bytes) (rest : List Bytes) :
    Except Bytes (List (Char × Bytes) × List Bytes) :=
  let name := String.ofList (text.takeWhile (· ≠ '='))
  let value? := if text.contains '=' then some (text.drop (name.length + 1)) else none
  let exact := o.long.filter fun l => l.1 = name
  let meant := if exact.isEmpty then o.long.filter fun l => l.1.startsWith name else exact
  match meant with
  | [] => .error ("unrecognized option '--".toList ++ text ++ ['\''])
  | (full, c) :: others =>
    if others.any fun l => l.2 ≠ c then
      .error ("option '--".toList ++ text ++ "' is ambiguous; possibilities:".toList ++
        meant.flatMap fun l => (" '--" ++ l.1 ++ "'").toList)
    else
      match o.valued.toList.contains c, value?, rest with
      | true, some value, rest => .ok ([(c, value)], rest)
      | false, some _, _ => .error ("option '--" ++ full ++ "' doesn't allow an argument").toList
      | true, none, rest =>
        if o.plain.toList.contains c then .ok ([(c, [])], rest)
        else
          match rest with
          | value :: rest => .ok ([(c, value)], rest)
          | [] => .error ("option '--" ++ full ++ "' requires an argument").toList
      | false, none, rest => .ok ([(c, [])], rest)

/-- Read arguments.  Options and operands may be mixed, or the first operand ends the
options. -/
def readArguments (o : Options) (mixed : Bool) (fuel : Nat) (args : List Bytes) (g : Given) :
    Except Bytes Given :=
  match fuel, args with
  | 0, _ | _, [] => .ok { g with operands := g.operands.reverse }
  | fuel + 1, arg :: rest =>
    match arg with
    | ['-', '-'] => .ok { g with operands := g.operands.reverse ++ rest }
    | '-' :: '-' :: text =>
      (readLong o text rest).bind fun r =>
        readArguments o mixed fuel r.2 { g with options := g.options ++ r.1 }
    | '-' :: c :: cs =>
      (readLetters o (c :: cs) rest).bind fun r =>
        readArguments o mixed fuel r.2 { g with options := g.options ++ r.1 }
    | arg =>
      if mixed then readArguments o mixed fuel rest { g with operands := arg :: g.operands }
      else .ok { g with operands := arg :: rest }

/-- Go on with the options and operands, or report what is wrong with them. -/
def withOptions (name : String) (failure : Nat) (o : Options) (args : List Bytes)
    (f : Given → Act Nat) : Act Nat := do
  match readArguments o true (args.length + 1) args ⟨[], []⟩ with
  | .ok g => f g
  | .error cs => misuse name failure cs

/-- The group of words that a value names, by one of them or by a part of it that only words of
one group begin with. -/
def wordGroup? (groups : List (List String)) (value : Bytes) : Option Nat :=
  let text := String.ofList value
  let meant (f : String → Bool) : List Nat :=
    (groups.zipIdx.filter fun g => g.1.any f).map (·.2)
  match meant (· = text), meant (·.startsWith text) with
  | n :: _, _ | [], [n] => some n
  | _, _ => none

/-- Report that an option got none of the words that it knows. -/
def refuseWord (name option : String) (status : Nat) (groups : List (List String))
    (value : Bytes) : Act Nat := do
  let text := String.ofList value
  let unclear := 1 < (groups.filter fun g => g.any (·.startsWith text)).length
  report name ((if unclear then "ambiguous" else "invalid").toList ++ " argument ".toList ++
    quotedWord value ++ " for ".toList ++ quotedWord option.toList)
  Act.note "Valid arguments are:".toList
  for group in groups do
    Act.note ("  - ".toList ++ Bytes.joined ", ".toList (group.map fun w => quotedWord w.toList))
  hint name
  return status

/-! ## Files -/

/-- What is in a file, as much of it as is wanted. -/
def readPart (limit : Option Nat) (path : Bytes) : Act (Except FileFault ByteArray) := do
  let text := Bytes.toText path
  match ← Act.device? text, limit with
  | some .null, _ => return .ok .empty
  | some _, some n => return .ok ⟨Array.replicate n 0⟩
  | some _, none =>
    modify fun s => { s with unending := true }
    return .ok ⟨Array.replicate Act.unendingSize 0⟩
  | none, _ =>
    match Act.descriptorOf? text, limit with
    | some fd, none => return .ok (← Act.takeStart fd)
    | some fd, limit => return .ok ((← Act.take? fd limit).getD .empty)
    | none, limit =>
      return ((← get).files.read text).map fun bytes => match limit with
        | some n => bytes.extract 0 n
        | none => bytes

/-- What is in a file. -/
def readFile (path : Bytes) : Act (Except FileFault ByteArray) := readPart none path

/-- Why the standard input cannot be read, if it cannot. -/
def inputFault? : Act (Option String) := do
  match ← Act.streamOf? 0 with
  | none => return some "Bad file descriptor"
  | some i =>
    match ← Act.stream i with
    | .file place _ _ readable _ =>
      match (← get).files.nodeAt? place with
      | some (.directory _) => return some "Is a directory"
      | _ => return if readable then none else some "Bad file descriptor"
    | _ => return none

/-- Something that cannot be read. -/
structure InputFault where
  path : Bytes
  /-- Whether it could be opened at least. -/
  opened : Bool
  reason : String

/-- What is in an input, or a start of it if it never ends.  A minus sign stands for the
standard input. -/
def readInput (path : Bytes) : Act (Except InputFault Bytes) := do
  if path = ['-'] then
    match ← inputFault? with
    | some reason => return .error ⟨path, true, reason⟩
    | none => return .ok (Bytes.ofByteArray (← Act.takeStart 0))
  else
    match ← readFile path with
    | .ok bytes => return .ok (Bytes.ofByteArray bytes)
    | .error cause => return .error ⟨path, cause = .isDirectory, cause.reason⟩

/-- The file to which a descriptor leads, and where in it the next byte is read or written. -/
def filePlace? (fd : Nat) : Act (Option (List String × Nat)) := do
  match ← Act.streamOf? fd with
  | none => return none
  | some i =>
    match ← Act.stream i with
    | .file place offset appends _ _ =>
      let size := (Act.contentAt (← get).files place).size
      return some (place, if fd = 1 ∧ appends then size else offset)
    | _ => return none

/-- The file that is an input, and where in it reading begins. -/
def inputPlace? (path : Bytes) : Act (Option (List String × Nat)) := do
  if path = ['-'] then filePlace? 0
  else
    let found := ((← get).files.find (Bytes.toText path)).toOption
    return found.map fun f => (f.1, 0)

/-- A program that needs the end of its input waits for it forever. -/
def awaitEnd : Act Unit := do
  if (← get).unending then Act.stop .endless

/-- A program that has found what it wanted does not care for the end of its input. -/
def leaveInput : Act Unit := modify fun s => { s with unending := false }

/-- The operands, or the standard input if there are none. -/
def orInput (paths : List Bytes) : List Bytes := if paths.isEmpty then [['-']] else paths

/-- Report that something cannot be read, as most programs do. -/
def refuseInput (name : String) (f : InputFault) : Act Unit :=
  report name (quotedIfNeeded f.path ++ ": ".toList ++ f.reason.toList)

/-- Go through inputs in order.  The flag says whether all of them could be read. -/
def foldInputs {α : Type} (refusal : InputFault → Act Unit) (handle : α → Bytes → Bytes → Act α) :
    (paths : List Bytes) → α → Act (α × Bool)
  | [], a => return (a, true)
  | path :: paths, a => do
    match ← readInput path with
    | .ok cs =>
      let a ← handle a path cs
      if (← get).unending then return (a, true) else foldInputs refusal handle paths a
    | .error fault =>
      refusal fault
      let (a, _) ← foldInputs refusal handle paths a
      return (a, false)

/-- Do something with each input. -/
def eachInput (refusal : InputFault → Act Unit) (handle : Bytes → Bytes → Act Unit)
    (paths : List Bytes) : Act Bool := do
  let (_, all) ← foldInputs refusal (fun () path cs => handle path cs) (orInput paths) ()
  return all

/-- At its end a program closes its standard input if it has used that.  It fails if the input
was closed before. -/
def closeInput (name title : String) (paths : List Bytes) : Act Unit := do
  if (orInput paths).contains ['-'] ∧ (← Act.streamOf? 0).isNone then
    report name (title ++ ": Bad file descriptor").toList

/-! ## Outputs -/

/-- Run a program and have it report at its end, if it could not write, why. -/
def writing (failed : (status : Nat) → (why : String) → Act Nat) (u : Utility) : Utility :=
  fun args => do
    modify fun s => { s with broken := false, unending := false }
    let n ← u args
    let s ← get
    set { s with broken := false, unending := false }
    if s.unending ∧ !s.broken then Act.stop .endless
    if s.broken then
      failed n ((← Act.outputFault? 1).getD "Broken pipe")
    else return n

/-- What most programs report if they cannot write, and their status then. -/
def writeFailure (name : String) (status : Nat) (_ : Nat) (why : String) : Act Nat := do
  report name ("write error: " ++ why).toList
  return status

def statusOf (all : Bool) : Nat := if all then 0 else 1

/-! ## Lines -/

/-- The lines of a text with their ends, in order. -/
def linesOf (cs : Bytes) : List Bytes :=
  (cs.foldr (fun c lines =>
    match c, lines with
    | '\n', lines => ['\n'] :: lines
    | c, [] => [[c]]
    | c, line :: lines => (c :: line) :: lines) [])

/-- The bodies of lines that end with a character. -/
def bodiesOf (ending : Char) (cs : Bytes) : List Bytes :=
  let parts := Bytes.splitOn ending cs
  if parts.getLast? = some [] then parts.dropLast else parts

/-- The end of lines: a zero byte if that is asked for. -/
def lineEnd (g : Given) : Char := if g.has 'z' then '\x00' else '\n'

/-- A line without its end. -/
def bare (line : Bytes) : Bytes := line.takeWhile (· ≠ '\n')

end Program
end Shell
end Publishing
