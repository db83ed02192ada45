import Publishing.Shell.Signals
import Publishing.Shell.Utility.Basic

/-
What the programs that run others are asked for: `xargs`, which makes commands of what it
reads, `timeout`, which ends a command that runs too long, and `env`, which changes what a
command finds.
-/

namespace Publishing
namespace Shell

namespace Program

/-! ## Commands made of what is read -/

/-- How a text is cut into the arguments of commands. -/
inductive Gathered where
  /-- At blanks that are not in quotes. -/
  | words
  /-- At the ends of lines, in front of which blanks do not count. -/
  | lines
  | cutAt (c : Char)
  deriving DecidableEq

structure Gathering where
  how : Gathered
  /-- The text for which each argument is put. -/
  replaced : Option Bytes
  /-- How many arguments, or how many lines of them, a command gets. -/
  perCommand : Option Nat
  linesPerCommand : Option Nat
  /-- Nothing is run if nothing was read. -/
  skipsNothing : Bool
  shows : Bool
  stopsAt : Option Bytes
  command : List Bytes

namespace Gathering

def options : Options :=
  ⟨"0rtxpoi", "nILdPEsa",
    [("null", '0'), ("no-run-if-empty", 'r'), ("verbose", 't'), ("max-args", 'n'),
     ("max-procs", 'P'), ("delimiter", 'd'), ("max-chars", 's'), ("arg-file", 'a')]⟩

/-- The number that an option is given. -/
def number (g : Given) (c : Char) : Except Bytes (Option Nat) :=
  match g.value? c with
  | none => .ok none
  | some text =>
    match Bytes.natural? text with
    | none => .error ("invalid number \"".toList ++ text ++ "\" for -".toList ++
        c :: " option".toList)
    | some 0 => .error ("value 0 for -".toList ++ c :: " option should be >= 1".toList)
    | some n => .ok (some n)

/-- The character that a text means as a separator. -/
def separatorOf (text : Bytes) : Char :=
  match text with
  | '\\' :: c :: _ => if c = '0' then '\x00' else (controlOf? c).getD c
  | c :: _ => c
  | [] => '\n'

def ofGiven (g : Given) : Except Bytes Gathering := do
  let perCommand ← number g 'n'
  let lines ← number g 'L'
  let replaced := (g.value? 'I').or (if g.has 'i' then some ['\x7b', '\x7d'] else none)
  return {
    how :=
      if g.has '0' then .cutAt '\x00'
      else match g.value? 'd' with
        | some text => .cutAt (separatorOf text)
        | none => if replaced.isSome then .lines else .words
    replaced := replaced
    perCommand := if replaced.isSome then some 1 else perCommand
    linesPerCommand := lines
    skipsNothing := g.has 'r' || replaced.isSome
    shows := g.has 't'
    stopsAt := g.value? 'E'
    command := if g.operands.isEmpty then ["echo".toList] else g.operands }

/-- The words of a text, with the number of the line of each.  Quotes and backslashes hide
blanks.  The flag says whether a quote was left open, and which. -/
def wordsOf (cs : Bytes) : List (Bytes × Nat) × Option Char :=
  go cs none [] false 0 false []
where
  go (cs : Bytes) (quote : Option Char) (current : Bytes) (begun : Bool) (line : Nat)
      (blankBefore : Bool) (acc : List (Bytes × Nat)) : List (Bytes × Nat) × Option Char :=
    let closed := if begun then (current.reverse, line) :: acc else acc
    match cs, quote with
    | [], none => (closed.reverse, none)
    | [], some q => (acc.reverse, some q)
    | c :: rest, some q =>
      if c = q then go rest none current true line false acc
      else if c = '\n' then (acc.reverse, some q)
      else go rest (some q) (c :: current) true line false acc
    | '\\' :: c :: rest, none => go rest none (c :: current) true line false acc
    | c :: rest, none =>
      if c = '\'' ∨ c = '"' then go rest (some c) current true line false acc
      else if c = '\n' then
        let ends := !blankBefore && closed.head?.any (·.2 = line)
        go rest none [] false (if ends then line + 1 else line) false closed
      else if Bytes.isBlank c then go rest none [] false line true closed
      else go rest none (c :: current) true line false acc

/-- The arguments that a text holds, and the quote that was left open in it. -/
def argumentsOf (k : Gathering) (cs : Bytes) : List (Bytes × Nat) × Option Char :=
  match k.how with
  | .words =>
    let (words, left) := wordsOf cs
    (words.takeWhile fun w => some w.1 ≠ k.stopsAt, left)
  | .lines =>
    let lines := (Bytes.splitOn '\n' cs).map fun l => l.dropWhile Bytes.isBlank
    ((lines.filter (· ≠ [])).zipIdx, none)
  | .cutAt c =>
    let parts := Bytes.splitOn c cs
    ((if parts.getLast? = some [] then parts.dropLast else parts).zipIdx, none)

/-- What is said of a quote that was left open. -/
def openQuote (q : Char) : String :=
  "unmatched " ++ (if q = '"' then "double" else "single") ++
    " quote; by default quotes are special to xargs unless you use the -0 option"

/-- Arguments in groups, one for each command. -/
def groupsOf (k : Gathering) (args : List (Bytes × Nat)) : List (List Bytes) :=
  match k.linesPerCommand, k.perCommand with
  | some n, _ =>
    (List.range ((args.getLast?.map (·.2)).getD 0 / n + 1)).map fun (i : Nat) =>
      (args.filter fun a => a.2 / n = i).map (·.1)
  | none, some n => pieces (args.length + 1) n (args.map (·.1))
  | none, none => [args.map (·.1)]
where
  pieces (fuel n : Nat) (args : List Bytes) : List (List Bytes) :=
    match fuel, args with
    | 0, _ | _, [] => []
    | fuel + 1, args => args.take n :: pieces fuel n (args.drop n)

/-- A text in which each place of another one holds a third. -/
def substituted (fuel : Nat) (old new cs : Bytes) : Bytes :=
  match fuel, cs with
  | 0, _ | _, [] => []
  | fuel + 1, c :: rest =>
    if old ≠ [] ∧ old.isPrefixOf cs then
      new ++ substituted fuel old new (cs.drop old.length)
    else c :: substituted fuel old new rest

/-- The commands to run. -/
def commandsOf (k : Gathering) (args : List (Bytes × Nat)) : List (List Bytes) :=
  if args.isEmpty then (if k.skipsNothing then [] else [k.command])
  else (k.groupsOf args).map fun group =>
    match k.replaced, group with
    | some old, [new] => k.command.map fun cs => substituted (cs.length + 1) old new cs
    | _, group => k.command ++ group

end Gathering

/-- What is left of a run of commands after one of them, if there is something. -/
inductive Aftermath where
  | goOn (status : Nat)
  | giveUp (status : Nat) (why : Option Bytes)

/-- What `xargs` does after a command has ended: with a status, or by a signal. -/
def aftermath (name : Bytes) (status : Nat) : (ended : Except Nat Nat) → Aftermath
  | .ok 0 => .goOn status
  | .ok 255 => .giveUp 124 (some (name ++ ": exited with status 255; aborting".toList))
  | .ok 126 => .giveUp 126 none
  | .ok 127 => .giveUp 127 none
  | .ok _ => .goOn 123
  | .error signal =>
    .giveUp 125 (some (name ++ ": terminated by signal ".toList ++ Bytes.decimal signal))

/-! ## Commands with a limit -/

/-- Microseconds of a text in seconds, with a unit if it has one.  Nothing ends an
infinite time. -/
def duration? (text : Bytes) : Option (Option Nat) :=
  match Numeral.front? text with
  | none => none
  | some x =>
    let factor? := match text.drop x.size with
      | [] | ['s'] => some 1
      | ['m'] => some 60
      | ['h'] => some 3600
      | ['d'] => some 86400
      | _ => none
    let negative (r : Binary64.Ratio) : Bool := x.negative && r.num ≠ 0
    factor?.bind fun factor => match x.magnitude with
      | .finite r =>
        if negative r then none else some (some ((r.num * factor * 1000000 + r.den - 1) / r.den))
      | .infinite => if x.negative then none else some none
      | .notANumber => none

structure TimeLimit where
  limit : Option Nat
  signal : Nat
  killAfter : Option Nat
  preserves : Bool
  shows : Bool
  command : List Bytes

def TimeLimit.options : Options :=
  ⟨"vfp", "sk", [("signal", 's'), ("kill-after", 'k'), ("foreground", 'f'),
    ("preserve-status", 'p'), ("verbose", 'v')]⟩

/-- The limit that `timeout` is asked for, or what is wrong with it. -/
def TimeLimit.ofGiven (g : Given) : Except (Option Bytes) TimeLimit := do
  let time (text : Bytes) : Except (Option Bytes) (Option Nat) :=
    match duration? text with
    | some (some 0) => .ok none
    | some limit => .ok limit
    | none => .error (some ("invalid time interval ".toList ++ quotedWord text))
  let signal ← match g.value? 's' with
    | none => pure Signal.terminate
    | some text =>
      let name := if "SIG".toList.isPrefixOf text then text.drop 3 else text
      match Signal.ofText? 0 name with
      | some n => pure n
      | none => throw (some (quotedWord text ++ ": invalid signal".toList))
  let killAfter ← match g.value? 'k' with
    | none => pure none
    | some text => time text
  match g.operands with
  | text :: name :: args =>
    return ⟨← time text, signal, killAfter, g.has 'p', g.has 'v', name :: args⟩
  | _ => throw none

/-! ## Commands in another environment -/

structure Surroundings where
  /-- No variable is kept. -/
  empty : Bool
  unset : List Bytes
  directory : Option Bytes
  ending : Char
  assigned : List (Bytes × Bytes)
  command : List Bytes

def Surroundings.options : Options :=
  ⟨"i0v", "uCS", [("ignore-environment", 'i'), ("null", '0'), ("unset", 'u'), ("chdir", 'C'),
    ("split-string", 'S'), ("debug", 'v')]⟩

def Surroundings.ofGiven (g : Given) : Surroundings :=
  let args := (g.values 'S').flatMap (fun text => (Gathering.wordsOf text).1.map (·.1)) ++ g.operands
  let (empty, args) := match args with
    | ['-'] :: args => (true, args)
    | args => (g.has 'i', args)
  let assignments := args.takeWhile (·.contains '=')
  { empty := empty
    unset := g.values 'u'
    directory := g.value? 'C'
    ending := if g.has '0' then '\x00' else '\n'
    assigned := assignments.map fun a =>
      let name := a.takeWhile (· ≠ '=')
      (name, a.drop (name.length + 1))
    command := args.drop assignments.length }

end Program
end Shell
end Publishing
