import Publishing.Shell.Printing

/-
Signals, and the utilities that send and catch them.
-/

namespace Publishing
namespace Shell

namespace Signal

/-- The names of the signals in order.  The first stands for the end of the shell. -/
def names : List String :=
  ["EXIT", "HUP", "INT", "QUIT", "ILL", "TRAP", "ABRT", "BUS", "FPE", "KILL", "USR1", "SEGV",
   "USR2", "PIPE", "ALRM", "TERM", "STKFLT", "CHLD", "CONT", "STOP", "TSTP", "TTIN", "TTOU",
   "URG", "XCPU", "XFSZ", "VTALRM", "PROF", "WINCH", "IO", "PWR", "SYS"]

def count : Nat := 65

def kill : Nat := 9

def brokenPipe : Nat := 13

def terminate : Nat := 15

def name (n : Nat) : String := names.getD n (toString n)

/-- The signal that a text names or numbers, from the given one on. -/
def ofText? (least : Nat) (cs : Bytes) : Option Nat :=
  match Bytes.natural? cs with
  | some n => if least ≤ n ∧ n < count then some n else none
  | none =>
    let text := String.ofList (cs.map Char.toUpper)
    let i := names.idxOf text
    if least ≤ i ∧ i < names.length then some i else none

/-- The signals that do nothing unless they are caught. -/
def ignored : List Nat := [0, 17, 18, 23, 28]

/-- The signals that hold a program up. -/
def holding : List Nat := [19, 20, 21, 22]

/-- What is said of a program that a signal ended, if anything is. -/
def epitaph? (n : Nat) : Option String :=
  match n with
  | 1 => some "Hangup"
  | 3 => some "Quit"
  | 4 => some "Illegal instruction"
  | 5 => some "Trace/breakpoint trap"
  | 6 => some "Aborted"
  | 7 => some "Bus error"
  | 8 => some "Floating point exception"
  | 9 => some "Killed"
  | 10 => some "User defined signal 1"
  | 11 => some "Segmentation fault"
  | 12 => some "User defined signal 2"
  | 14 => some "Alarm clock"
  | 15 => some "Terminated"
  | 16 => some "Stack fault"
  | 24 => some "CPU time limit exceeded"
  | 25 => some "File size limit exceeded"
  | 26 => some "Virtual timer expired"
  | 27 => some "Profiling timer expired"
  | 29 => some "I/O possible"
  | 30 => some "Power failure"
  | 31 => some "Bad system call"
  | _ => none

end Signal

namespace Act

/-- Send a signal on its way. -/
def dispatch (target signal : Nat) : Act Unit :=
  modify fun s => { s with signals := s.signals ++ [⟨target, signal, s.clock⟩] }

/-- Receive a signal: it is kept if the shell catches it. -/
def receive (signal : Nat) : Act Unit := do
  let c ← context
  match c.traps.lookup signal with
  | some [] => if signal = Signal.kill then stop (.killed signal)
  | some _ => dispatch c.process signal
  | none =>
    if Signal.holding.contains signal then stop .endless
    else if !Signal.ignored.contains signal then stop (.killed signal)

/-- Send a signal to a job. -/
def signalJob (process signal : Nat) : Act Unit := do
  let now := (← get).clock
  let deadly := signal ≠ 0 ∧ !(Signal.ignored ++ Signal.holding).contains signal
  if deadly then
    modify fun s => { s with
      streams := s.streams.map (Stream.cut process now)
      holds := s.holds.map fun h => if h.1 = process then (process, min h.2 now) else h
      context := { s.context with
        jobs := s.context.jobs.map fun j =>
          if j.process = process ∧ now < j.endsAt then
            { j with status := 128 + signal, signal := some signal, endsAt := now }
          else j } }

/-- Send a signal to a program, and tell whether there is one of this number. -/
def send (target : Nat) (signal : Nat) : Act Bool := do
  let c ← context
  if target = c.process then
    receive signal
    return true
  else if c.above.contains target then
    dispatch target signal
    return true
  else if target = parentProcess ∨ target = 1 then return true
  else
    let now := (← get).clock
    if c.jobs.any fun j => j.process = target ∧ now < j.endsAt then
      signalJob target signal
      return true
    else return false

end Act

def killUsage : String :=
  "Usage: kill [-s sigspec | -signum | -sigspec] [pid | job]... or\nkill -l [exitstatus]"

/-- Send a signal to each of the programs. -/
def killEach (signal : Nat) (targets : List Bytes) : Act Nat := do
  let mut status := 0
  for target in targets do
    let reached ←
      if target.head? = some '%' then jobGroup target
      else
        let digits := if target.head? = some '-' then target.tail else target
        match Bytes.natural? digits with
        | none => Act.fault ("Illegal number: ".toList ++ digits)
        | some n => if target.head? = some '-' then pure false else Act.send n signal
    if !reached then
      Act.report "No such process\n".toList
      status := 1
  return status
where
  /-- Jobs are no groups of their own. -/
  jobGroup (name : Bytes) : Act Bool := do
    let number? := Bytes.natural? (name.drop 1)
    if name.length ≤ 2 ∧ number?.isNone then return false
    else if (← Act.context).jobs.any fun j => some j.number = number? then return false
    else Act.fault ("No such job: ".toList ++ name)

def listSignals (args : List Bytes) : Act Nat := do
  match args with
  | [] =>
    Act.printLine ['0']
    for name in Signal.names.tail do Act.printLine name.toList
    return 0
  | arg :: _ =>
    match Bytes.natural? arg with
    | none => Act.fault ("Illegal number: ".toList ++ arg)
    | some n =>
      let signal := if 128 < n then n - 128 else n
      if 0 < signal ∧ signal < Signal.count then
        Act.printLine (Signal.name signal).toList
        return 0
      else Act.fault ("invalid signal number or exit status: ".toList ++ arg)

def killUtility : Utility := fun args => do
  match args with
  | [] => Act.faultText killUsage
  | ('-' :: spec) :: rest =>
    match Signal.ofText? 0 spec, spec, rest with
    | some n, _, _ => if rest.isEmpty then Act.faultText killUsage else killEach n rest
    | none, ['l'], rest => listSignals rest
    | none, ['s'], name :: targets =>
      match Signal.ofText? 0 name with
      | some n => if targets.isEmpty then Act.faultText killUsage else killEach n targets
      | none => Act.fault ("invalid signal number or name: ".toList ++ name)
    | none, ['s'], [] => Act.faultText "No arg for -s option"
    | none, ['-'], rest =>
      if rest.isEmpty then Act.faultText killUsage else killEach Signal.terminate rest
    | none, spec, _ => Act.fault ("Illegal option -".toList ++ spec.take 1)
  | targets => killEach Signal.terminate targets

/-- A text in quotes, for a shell to read again. -/
def quotedForShell (fuel : Nat) (cs : Bytes) : Bytes :=
  match fuel with
  | 0 => []
  | fuel + 1 =>
    let plain := cs.takeWhile (· ≠ '\'')
    let rest := cs.drop plain.length
    let marks := rest.takeWhile (· = '\'')
    let rest := rest.drop marks.length
    '\'' :: plain ++ '\'' :: if marks = [] then []
      else '"' :: marks ++ '"' :: if rest = [] then [] else quotedForShell fuel rest

def singleQuoted (cs : Bytes) : Bytes := quotedForShell (cs.length + 1) cs

def trap : Utility := fun args => do
  match ← withoutOptions args with
  | [] =>
    let traps := (← Act.context).traps
    for n in List.range Signal.count do
      match traps.lookup n with
      | some action =>
        Act.printLine ("trap -- ".toList ++ singleQuoted action ++ ' ' :: (Signal.name n).toList)
      | none => pure ()
    return 0
  | first :: rest =>
    let numbered := (Bytes.natural? first).any (· < Signal.count)
    let (action, targets) : Option Bytes × List Bytes :=
      if rest.isEmpty ∨ numbered then (none, first :: rest)
      else (if first = ['-'] then none else some first, rest)
    for target in targets do
      match Signal.ofText? 0 target with
      | none =>
        Act.note ("trap: ".toList ++ target ++ ": bad trap".toList)
        return 1
      | some n =>
        Act.modifyContext fun c =>
          let others := c.traps.filter fun t => t.1 ≠ n
          { c with traps := match action with
              | some action => (n, action) :: others
              | none => others }
    return 0

end Shell
end Publishing
