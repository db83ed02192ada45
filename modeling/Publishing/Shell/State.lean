import Publishing.Shell.Stream
import Publishing.Shell.Syntax

/-
What a running shell works with.
-/

namespace Publishing
namespace Shell

structure Variable where
  value : Option Bytes
  exported : Bool
  readOnly : Bool

/-- What a shell is about to leave. -/
inductive Skip where
  | nothing
  | leaveLoops (levels : Nat)
  | nextTurn (levels : Nat)
  | leaveFunction
  deriving DecidableEq

/-- A program that runs beside the shell. -/
structure Job where
  /-- Its place among the jobs. -/
  number : Nat
  process : Nat
  /-- How many pipes there are between its commands. -/
  pipes : Nat
  status : Nat
  /-- The signal that ends it, if one does. -/
  signal : Option Nat
  endsAt : Nat
  /-- Whether its end was noticed, and whether it was waited for. -/
  noticed : Bool
  waited : Bool

/-- A signal on its way to a process. -/
structure Sent where
  target : Nat
  signal : Nat
  time : Nat

/-- What belongs to one shell.  A shell that is started within it gets a copy. -/
structure Context where
  process : Nat
  /-- The process of the shell that this one is a part of. -/
  shell : Nat
  /-- The processes within which this one was started. -/
  above : List Nat
  /-- The job that it belongs to, if it runs beside the first shell. -/
  job : Option Nat
  bindings : List (Bytes × Variable)
  functions : List (Bytes × Nat × Command)
  /-- The texts that stand for words in front of commands. -/
  aliases : List (Bytes × Bytes)
  /-- The programs that were looked for and found. -/
  located : List Bytes
  name : Bytes
  arguments : List Bytes
  /-- The letters of the options that are on. -/
  options : List Char
  /-- The streams of the file descriptors. -/
  descriptors : List (Nat × Nat)
  /-- What is run for a signal, or at the end, which counts as signal zero. -/
  traps : List (Nat × Bytes)
  /-- The line up to which the script was read. -/
  readTo : Nat
  status : Nat
  /-- The status of the last command whose output was used. -/
  outputStatus : Nat
  line : Nat
  /-- The utility of the shell that is running. -/
  running : Option Bytes
  loops : Nat
  skip : Skip
  calls : Nat
  /-- The variables as they were before each call. -/
  hidden : List (List (Bytes × Option Variable))
  /-- The jobs, of which the last comes first. -/
  jobs : List Job
  /-- The permissions that new files do not get. -/
  mask : Nat
  /-- The process of the last job. -/
  lastJob : Option Nat
  /-- The argument after those that `getopts` has read, and where it goes on in the last of
  them. -/
  optionIndex : Nat
  optionOffset : Option Nat
  /-- When the process will be sent a signal, and which. -/
  deadlines : List (Nat × Nat)

structure State where
  context : Context
  files : FileSystem
  streams : Array Stream
  documents : Array Word
  /-- Microseconds since the start. -/
  clock : Nat
  /-- When all input had been sent.  The time that is left starts to count then. -/
  fedAt : Option Nat
  limit : Nat
  /-- How many more commands may run before they count as endless. -/
  budget : Nat
  /-- How many processes there have been. -/
  processes : Nat
  /-- When the last of what runs now let go of the output of the first shell, and when
  each of the jobs did. -/
  heldUntil : Nat
  holds : List (Nat × Nat)
  /-- The modes of files that have others than new ones get. -/
  modes : List (List String × Nat)
  /-- The signals that were sent and not yet received. -/
  signals : List Sent
  /-- Whether a write has failed. -/
  broken : Bool
  /-- Whether the program has read the start of an input that never ends. -/
  unending : Bool

/-- Why a shell does not go on. -/
inductive Stop where
  /-- A fault that was reported. -/
  | fault
  | exit
  | killed (signal : Nat)
  | timedOut
  /-- It would go on forever. -/
  | endless
  deriving DecidableEq

abbrev Act := ExceptT Stop (StateM State)

instance {α : Type} : Inhabited (Act α) := ⟨throw .endless⟩

namespace Act

def stop {α : Type} (s : Stop) : Act α := throw s

def context : Act Context := return (← get).context

def modifyContext (f : Context → Context) : Act Unit :=
  modify fun s => { s with context := f s.context }

def setStatus (n : Nat) : Act Unit := modifyContext fun c => { c with status := n }

/-- Run `f`, then `after`, also if `f` stops. -/
def ensure {α : Type} (f : Act α) (after : Act Unit) : Act α := do
  let r ← try
      Except.ok <$> f
    catch stop => pure (Except.error stop)
  after
  match r with
  | .ok a => return a
  | .error stop => throw stop

/-! ## Time -/

/-- The standard streams of the first shell. -/
def outputStreams : List Nat := [1, 2]

def Context.holdsOutput (c : Context) : Bool :=
  c.descriptors.any fun d => outputStreams.contains d.2

/-- The number of the first shell. -/
def firstProcess : Nat := 4242

/-- The number of the program that has started the first shell. -/
def parentProcess : Nat := 4241

/-- How many bytes of the input wait to be read without holding up who sends them. -/
def pipeCapacity : Nat := 65536

/-- Notice when all input has been sent. -/
def noticeFed : Act Unit := do
  let s ← get
  if s.fedAt.isNone then
    match s.streams.getD 0 .null with
    | .pipe content taken _ _ =>
      if content.size ≤ taken + pipeCapacity then set { s with fedAt := some s.clock }
    | _ => pure ()

/-- Let time pass.  When the time of the first shell is over, it stops, and jobs go on.  A
deadline ends a process that has no action for its signal. -/
def pass (microseconds : Nat) : Act Unit := do
  let s ← get
  let ending := s.context.deadlines.find? fun d => (s.context.traps.lookup d.2).isNone
  let ending := ending.filter fun d => d.1 < s.clock + microseconds
  let clock := match ending with
    | some (time, _) => max time s.clock
    | none => s.clock + microseconds
  let held := if Context.holdsOutput s.context then max s.heldUntil clock else s.heldUntil
  set { s with clock := clock, heldUntil := held }
  match s.fedAt with
  | some start => if s.context.job.isNone ∧ start + s.limit ≤ clock then stop .timedOut
  | none => pure ()
  match ending with
  | some (_, signal) => stop (.killed signal)
  | none => pure ()

/-- Count a command. -/
def spend : Act Unit := do
  let s ← get
  match s.budget with
  | 0 => stop .endless
  | n + 1 => set { s with budget := n }

/-! ## Variables and options -/

def hasOption (c : Char) : Act Bool := return (← context).options.contains c

def binding? (name : Bytes) : Act (Option Variable) := return (← context).bindings.lookup name

def value? (name : Bytes) : Act (Option Bytes) := return (← binding? name).bind (·.value)

def putVariable (name : Bytes) (v : Option Variable) : Act Unit :=
  modifyContext fun c =>
    let others := c.bindings.filter fun e => e.1 ≠ name
    { c with bindings := match v with
        | some v => (name, v) :: others
        | none => others }

/-- The bytes between the values of a list. -/
def separators : Act Bytes := return (← value? "IFS".toList).getD " \t\n".toList

/-! ## Streams -/

def streamOf? (fd : Nat) : Act (Option Nat) := return (← context).descriptors.lookup fd

def stream (index : Nat) : Act Stream := return (← get).streams.getD index .null

def setStream (index : Nat) (t : Stream) : Act Unit :=
  modify fun s => { s with streams := s.streams.setIfInBounds index t }

/-- A new stream: its index. -/
def addStream (t : Stream) : Act Nat := do
  let s ← get
  set { s with streams := s.streams.push t }
  return s.streams.size

/-- Lead a descriptor to a stream, or close it. -/
def lead (fd : Nat) (index : Option Nat) : Act Unit :=
  modifyContext fun c =>
    let others := c.descriptors.filter fun d => d.1 ≠ fd
    { c with descriptors := match index with
        | some i => (fd, i) :: others
        | none => others }

/-- What an open file holds now. -/
def contentAt (fs : FileSystem) (place : List String) : ByteArray :=
  match fs.nodeAt? place with
  | some (.file content) => content
  | _ => .empty

/-- The content with bytes put at an offset. -/
def overwrite (content : ByteArray) (offset : Nat) (bytes : ByteArray) : ByteArray :=
  if offset = content.size then content ++ bytes
  else
    let gap : ByteArray := ⟨Array.replicate (offset - content.size) 0⟩
    (content ++ gap).extract 0 offset ++ bytes ++
      content.extract (offset + bytes.size) content.size

/-- Write bytes, and tell whether they could be written. -/
def writeBytes (fd : Nat) (bytes : ByteArray) : Act Bool := do
  match ← streamOf? fd with
  | none => return bytes.isEmpty
  | some i =>
    let s ← get
    match s.streams.getD i .null with
    | .pipe .. =>
      let late := LateWrite.mk s.clock (s.context.job.getD firstProcess) bytes
      let isJob := s.context.job.isSome
      set { s with streams := s.streams.modify i fun
        | .pipe content taken [] endless =>
          if isJob then .pipe content taken [late] endless
          else .pipe (content ++ bytes) taken [] endless
        | .pipe content taken others endless => .pipe content taken (late :: others) endless
        | t => t }
      return true
    | .file place offset appends readable writable =>
      if !writable then return bytes.isEmpty
      let content := contentAt s.files place
      let offset := if appends then content.size else offset
      let files :=
        if (s.files.nodeAt? place).isSome then
          s.files.putAt place (.file (overwrite content offset bytes))
        else s.files
      set { s with files := files }
      setStream i (.file place (offset + bytes.size) appends readable writable)
      return true
    | .null | .zero => return true
    | .full => return bytes.isEmpty

/-- Why nothing can be written to a descriptor, if nothing can. -/
def outputFault? (fd : Nat) : Act (Option String) := do
  match ← streamOf? fd with
  | none => return some "Bad file descriptor"
  | some i =>
    match ← stream i with
    | .file _ _ _ _ writable => return if writable then none else some "Bad file descriptor"
    | .full => return some "No space left on device"
    | _ => return none

/-- Write, and remember if it fails. -/
def put (fd : Nat) (cs : Bytes) : Act Unit := do
  if !(← writeBytes fd (Bytes.toByteArray cs)) then modify fun s => { s with broken := true }

def print (cs : Bytes) : Act Unit := put 1 cs

def printLine (cs : Bytes) : Act Unit := put 1 (cs ++ ['\n'])

/-- Write to the error output, where failures do not matter. -/
def note (cs : Bytes) : Act Unit := do
  let _ ← writeBytes 2 (Bytes.toByteArray (cs ++ ['\n']))

/-- The bytes that wait on a descriptor, up to a limit, which are taken.  There is none
if the descriptor cannot be read. -/
def take? (fd : Nat) (limit : Option Nat) : Act (Option ByteArray) := do
  match ← streamOf? fd with
  | none => return none
  | some i =>
    modify fun s => { s with streams := s.streams.modify i Stream.settled }
    let s ← get
    let size (n : Nat) : Nat := match limit with
      | some m => min n m
      | none => n
    match s.streams.getD i .null with
    | .pipe content taken late endless =>
      let n := size (content.size - taken)
      let whole := taken + n = content.size ∧ limit ≠ some n
      if whole ∧ endless then stop .endless
      setStream i (.pipe content (taken + n) late endless)
      noticeFed
      return some (content.extract taken (taken + n))
    | .file place offset appends readable writable =>
      if !readable then return none
      let content := contentAt s.files place
      let n := size (content.size - offset)
      setStream i (.file place (offset + n) appends readable writable)
      return some (content.extract offset (offset + n))
    | .null => return some .empty
    | .zero | .full =>
      match limit with
      | some n => return some ⟨Array.replicate n 0⟩
      | none => stop .endless

/-- How much is read of what never ends. -/
def unendingSize : Nat := 200000

/-- All bytes that wait on a descriptor.  Of an input that never ends they are a start. -/
def takeStart (fd : Nat) : Act ByteArray := do
  match ← streamOf? fd with
  | none => return .empty
  | some i =>
    match (← stream i).settled with
    | .pipe content taken late true =>
      setStream i (.pipe content content.size late true)
      modify fun s => { s with unending := true }
      return content.extract taken content.size
    | .zero | .full =>
      modify fun s => { s with unending := true }
      return ⟨Array.replicate unendingSize 0⟩
    | _ => return (← take? fd none).getD .empty

/-- Give back bytes that were taken but not used. -/
def giveBack (fd count : Nat) : Act Unit := do
  match ← streamOf? fd with
  | none => return
  | some i =>
    modify fun s => { s with streams := s.streams.modify i fun
      | .pipe content taken late endless => .pipe content (taken - count) late endless
      | .file place offset appends readable writable =>
        .file place (offset - count) appends readable writable
      | t => t }

/-- All bytes that wait on a descriptor. -/
def takeAll (fd : Nat) : Act ByteArray := return (← take? fd none).getD .empty

/-! ## Reports -/

/-- What stands in front of a report: the shell, the line and what is running. -/
def reportStart : Act Bytes := do
  let c ← context
  let what := match c.running with
    | some name => name ++ ": ".toList
    | none => []
  return c.name ++ ": ".toList ++ Bytes.decimal c.line ++ ": ".toList ++ what

def report (cs : Bytes) : Act Unit := do note ((← reportStart) ++ cs)

/-- Report a fault and stop. -/
def fault {α : Type} (cs : Bytes) : Act α := do
  report cs
  setStatus 2
  stop .fault

def faultText {α : Type} (s : String) : Act α := fault s.toList

/-- Set a variable, unless it must not change. -/
def setVariable (name value : Bytes) : Act Unit := do
  let old ← binding? name
  if (old.map (·.readOnly)).getD false then fault (name ++ ": is read only".toList)
  let exported := (old.map (·.exported)).getD false || (← hasOption 'a')
  if name = "PATH".toList then modifyContext fun c => { c with located := [] }
  if name = "OPTIND".toList then
    modifyContext fun c => { c with
      optionIndex := max ((Bytes.natural? value).getD 1) 1
      optionOffset := none }
  putVariable name (some ⟨some value, exported, false⟩)

end Act
end Shell
end Publishing
