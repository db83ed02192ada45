import Publishing.Shell.Parser
import Publishing.Shell.Utility.Gathering

/-
How commands run.

Each function has fuel, which bounds how deep commands lie within each other and how
often they are repeated.
-/

namespace Publishing
namespace Shell

/-- The programs that can be run beside the shell. -/
abbrev Programs := List (String × Utility)

/-- Where a command stands. -/
structure Position where
  /-- Its failure does not end the shell, since it is asked for. -/
  tested : Bool
  /-- The shell has nothing to do after it. -/
  last : Bool

namespace Position

def asked : Position := ⟨true, false⟩

/-- A command within this one after which others come. -/
def inner (p : Position) : Position := ⟨p.tested, false⟩

end Position

/-- The variables that every shell sets anew. -/
def ownVariables : List (String × String) :=
  [("IFS", " \t\n"), ("OPTIND", "1"), ("PS1", "# "), ("PS2", "> "), ("PS4", "+ ")]

/-- Where a shell looks for programs that nobody tells it where. -/
def usualPath : String := "/usr/local/sbin:/usr/local/bin:/usr/sbin:/usr/bin:/sbin:/bin"

/-- How many calls of functions can be open. -/
def deepestCall : Nat := 1000

/-- The utilities of the shell that take assignments as arguments. -/
def assigningNames : List String := ["alias", "command", "export", "local", "readonly"]

namespace Act

def setLine (line : Nat) : Act Unit := modifyContext fun c => { c with line := line }

def skipping : Act Bool := return (← context).skip ≠ .nothing

/-- What a loop does after a part of its turn. -/
inductive LoopStep where
  | go
  | nextTurn
  | leave

/-- Take notice of what is to be left. -/
def loopStep : Act LoopStep := do
  let c ← context
  match c.skip with
  | .nothing => return .go
  | .leaveFunction => return .leave
  | .leaveLoops n =>
    set { (← get) with
      context := { c with skip := if n ≤ 1 then .nothing else .leaveLoops (n - 1) } }
    return .leave
  | .nextTurn n =>
    set { (← get) with
      context := { c with skip := if n ≤ 1 then .nothing else .nextTurn (n - 1) } }
    return if n ≤ 1 then .nextTurn else .leave

/-- Run something within a loop. -/
def inLoop (f : Act Nat) : Act Nat := do
  modifyContext fun c => { c with loops := c.loops + 1 }
  ensure f (modifyContext fun c => { c with loops := c.loops - 1 })

/-- The status with which a process ends. -/
def endStatus (f : Act Nat) : Act (Except Nat Nat) := do
  try
    return .ok ((← f) % 256)
  catch
    | .fault | .exit => return .ok ((← context).status % 256)
    | .killed signal => return .error signal
    | s => stop s

/-- What a process leaves behind in the one that waits for it. -/
def leaveProcess (outer : Context) (directory : List String) : Act Unit :=
  modify fun s => { s with
    context := outer
    files := { s.files with workingDirectory := directory } }

/-- Receive the signals that have come and are not caught. -/
def receiveSignals : Act Unit := do
  let s ← get
  let isHere (m : Sent) : Bool := m.target = s.context.process && m.time ≤ s.clock &&
    (s.context.traps.lookup m.signal).isNone
  set { s with signals := s.signals.filter fun m => !isHere m }
  for m in s.signals.filter isHere do receive m.signal

/-- Receive the signals of the deadlines that are over. -/
def heedDeadlines : Act Unit := do
  let s ← get
  let passed := s.context.deadlines.filter fun d => d.1 ≤ s.clock
  modifyContext fun c => { c with deadlines := c.deadlines.filter fun d => s.clock < d.1 }
  for (_, signal) in passed do receive signal

/-- The status of a program that has ended, and what is said of it. -/
def mourn (r : Except Nat Nat) : Act Nat := do
  match r with
  | .ok n => return n
  | .error signal =>
    match Signal.epitaph? signal with
    | some text => note text.toList
    | none => pure ()
    return 128 + signal

/-- The context of a process that a shell has started. -/
def childContext (c : Context) (process : Nat) (job : Option Nat) : Context :=
  { c with
    process := process
    above := c.process :: c.above
    job := job
    traps := c.traps.filter fun t => t.2 = []
    jobs := []
    loops := 0 }

/-- Run something in a process of its own: the status with which it ends, or the signal. -/
def inProcess? (f : Act Nat) : Act (Except Nat Nat) := do
  let _ ← makePlace
  let s ← get
  let outer := s.context
  set { s with
    processes := s.processes + 1
    context := childContext outer (firstProcess + s.processes + 1) outer.job }
  let r ← ensure (endStatus f) (leaveProcess outer s.files.workingDirectory)
  noticeJobs
  receiveSignals
  heedDeadlines
  return r

/-- Run something in a process of its own: the status with which it ends. -/
def inProcess (f : Act Nat) : Act Nat := do mourn (← inProcess? f)

/-- Run something beside the shell, with some pipes in it. -/
def inJob (pipes : Nat) (f : Act Nat) : Act Unit := do
  let place ← makePlace
  let s ← get
  let outer := s.context
  let process := firstProcess + s.processes + 1
  set { s with
    clock := s.clock + 1
    budget := s.budget / 2
    heldUntil := 0
    processes := s.processes + 1
    context := childContext outer process (some process) }
  let forever := Nat.pow 2 62
  let (status, signal, endless) : Nat × Option Nat × Bool ← try
      match ← endStatus f with
      | .ok n => pure (n, none, false)
      | .error signal => pure (128 + signal, some signal, false)
    catch _ => pure (0, none, true)
  let t ← get
  let held := if endless ∧ Context.holdsOutput outer then forever else t.heldUntil
  set { t with
    clock := s.clock
    budget := t.budget + (s.budget - s.budget / 2)
    heldUntil := s.heldUntil
    holds := (process, held) :: t.holds
    files := { t.files with workingDirectory := s.files.workingDirectory }
    context := { outer with
      lastJob := some process
      jobs := ⟨place, process, pipes, status, signal, if endless then forever else t.clock, false,
        false⟩ :: outer.jobs } }

/-- Run a utility that the shell has: faults end it, and the shell if it is special. -/
def runBuiltin (name : Bytes) (special : Bool) (f : Act Nat) : Act Nat := do
  let outer := (← context).running
  modifyContext fun c => { c with running := some name }
  modify fun s => { s with broken := false }
  let r ← try
      let n ← f
      if (← get).broken then
        report (name ++ ": I/O error".toList)
        pure (.ok (if n % 2 = 0 then n + 1 else n))
      else pure (.ok n)
    catch s => pure (Except.error s)
  modifyContext fun c => { c with running := outer }
  match r with
  | .ok n => return n
  | .error .fault => if special then stop .fault else return (← context).status
  | .error s => stop s

/-- Give hidden variables back. -/
def popFrame : Act Unit := do
  match (← context).hidden with
  | [] => return
  | frame :: frames =>
    modifyContext fun c => { c with hidden := frames }
    for (name, old) in frame do
      if name = ['-'] then
        modifyContext fun c => { c with options := (old.bind (·.value)).getD c.options }
      else putVariable name old

/-- The words of a command as they are shown before it runs. -/
def trace (fd : Option Nat) (assigned : List (Bytes × Bytes)) (args : List Bytes) : Act Unit := do
  let front := (← value? "PS4".toList).getD "+ ".toList
  let words := (assigned.map fun a => a.1 ++ '=' :: a.2) ++ args
  let saved ← streamOf? 2
  lead 2 fd
  note (front ++ Bytes.joined [' '] words)
  lead 2 saved

end Act

/-- What a name in front of a command means. -/
inductive Meaning where
  | builtin (u : Utility)
  | call (line : Nat) (body : Command)
  | program (u : Utility)
  /-- A utility that runs commands. -/
  | runner (name : String)
  /-- A file that holds a script. -/
  | script (content : ByteArray)
  | denied
  | unknown

/-- The utilities of the shell that run commands themselves. -/
def runnerBuiltins : List String := [".", "command", "eval", "exec", "hash", "type"]

/-- The programs that run others. -/
def runnerPrograms : List String := ["env", "nice", "nohup", "sh", "dash", "timeout", "xargs"]

namespace Act

/-- The program at a path. -/
def programAt (programs : Programs) (path : Bytes) : Act Meaning := do
  let text := Bytes.toText path
  let known (name : String) : Meaning :=
    if runnerPrograms.contains name then .runner name
    else match programs.lookup name with
      | some u => .program u
      | none => .unknown
  match (programName? text).map known with
  | some (.program u) => return .program u
  | some (.runner name) => return .runner name
  | _ =>
    let s ← get
    match s.files.find text with
    | .ok (place, .file content) =>
      return if ← canRun place then .script content else .denied
    | .ok (_, .directory _) => return .denied
    | .error _ =>
      let isDirectory := commonDirectories.contains text || commonDirectories.any (· ++ "/" = text)
      return if isDirectory then .denied else .unknown

/-- The paths at which a program is looked for. -/
def searchedPaths (name : Bytes) : Act (List Bytes) := do
  if name.contains '/' then return [name]
  else
    match ← value? "PATH".toList with
    | none => return []
    | some path =>
      return (Bytes.splitOn ':' path).map fun d => if d = [] then name else d ++ '/' :: name

/-- The program of a name, or of a path, and where it is. -/
def locate (programs : Programs) (name : Bytes) : Act (Meaning × Bytes) := do
  let mut denied := false
  for path in ← searchedPaths name do
    match ← programAt programs path with
    | .unknown => pure ()
    | .denied => denied := true
    | m => return (m, path)
  return (if denied then .denied else .unknown, name)

def programMeaning (programs : Programs) (name : Bytes) : Act Meaning :=
  return (← locate programs name).1

/-- Remember a program that was found by its name. -/
def remember (name : Bytes) : Act Unit :=
  modifyContext fun c => { c with
    located := if name.contains '/' ∨ c.located.contains name then c.located
      else c.located ++ [name] }

/-- The meaning of a name in front of a command. -/
def meaning (programs : Programs) (functions : Bool) (name : Bytes) : Act Meaning := do
  let text := String.ofList name
  let own? : Option Meaning :=
    if runnerBuiltins.contains text then some (.runner text)
    else ((builtins (runnerPrograms ++ programs.map (·.1))).lookup text).map .builtin
  let known := (← context).functions
  let call? := if functions then known.lookup name else none
  match own?, call? with
  | some own, none => return own
  | some own, some (line, body) =>
    return if specialNames.contains text then own else .call line body
  | none, some (line, body) => return .call line body
  | none, none => programMeaning programs name

/-- How a name is described: briefly, or in words. -/
def describe (programs : Programs) (brief : Bool) (name : Bytes) : Act Nat := do
  let text := String.ofList name
  let say (short long : Bytes) : Act Nat := do
    printLine (if brief then short else name ++ ' ' :: long)
    return 0
  if reservedWords.contains text then say name "is a shell keyword".toList
  else if let some value := (← context).aliases.lookup name then
    say ("alias ".toList ++ name ++ '=' :: singleQuoted value) ("is an alias for ".toList ++ value)
  else
    match ← meaning programs true name with
    | .builtin _ => say name (if specialNames.contains text ∧ text ≠ "local" then
        "is a special shell builtin" else "is a shell builtin").toList
    | .call _ _ => say name "is a shell function".toList
    | .runner _ | .program _ | .script _ =>
      if runnerBuiltins.contains text then
        say name (if specialNames.contains text then "is a special shell builtin"
          else "is a shell builtin").toList
      else
        let known := (← context).located.contains name
        let path := (← locate programs name).2
        remember name
        say path ((if known then "is a tracked alias for " else "is ").toList ++ path)
    | .denied =>
      if name.contains '/' ∨ !brief then
        say name ("is ".toList ++ name)
      else return 127
    | .unknown =>
      if !brief then printLine (name ++ ": not found".toList)
      return 127

/-- The command in the arguments of `command`, unless they ask what names mean. -/
def commandArguments : (args : List Bytes) → Option (List Bytes)
  | ['-', '-'] :: args => some args
  | ('-' :: c :: cs) :: args => if (c :: cs).all (· = 'p') then commandArguments args else none
  | args => some args

/-- The text of a document. -/
def documentText (output : Command → Act Bytes) (fuel n : Nat) : Act Bytes := do
  expandText output fuel .document ((← get).documents.getD n [])

mutual

/-- What a command prints, without the line ends after it. -/
def output (programs : Programs) (fuel : Nat) (c : Command) : Act Bytes := do
  match fuel with
  | 0 => stop .endless
  | fuel + 1 =>
    let i ← addStream Stream.empty
    let status ← inProcess do
      lead 1 (some i)
      runTail programs fuel c ⟨false, true⟩
    modifyContext fun k => { k with outputStatus := status }
    let written := (← stream i).written
    setStream i .null
    let cs := (Bytes.ofByteArray written).filter (·.toNat ≠ 0)
    return (cs.reverse.dropWhile (· = '\n')).reverse

/-- Run the actions for the signals that were caught. -/
def runTraps (programs : Programs) (fuel : Nat) : Act Unit := do
  match fuel with
  | 0 => stop .endless
  | fuel + 1 =>
    heedDeadlines
    let s ← get
    let isHere (m : Sent) : Bool := m.target = s.context.process && m.time ≤ s.clock
    match s.signals.find? isHere with
    | none => return
    | some m =>
      let waiting := (s.signals.takeWhile (!isHere ·)) ++ (s.signals.dropWhile (!isHere ·)).drop 1
      set { s with signals := waiting }
      match s.context.traps.lookup m.signal with
      | none | some [] =>
        receive m.signal
        runTraps programs fuel
      | some action =>
        let status := s.context.status
        let _ ← runText programs fuel action ⟨false, false⟩
        setStatus status
        runTraps programs fuel

/-- Run a command as the end of a process, with the action for its end. -/
def runTail (programs : Programs) (fuel : Nat) (c : Command) (p : Position) : Act Nat := do
  match fuel with
  | 0 => stop .endless
  | fuel + 1 => atEnd programs fuel (run programs fuel c p)

/-- The status of a process after the action for its end. -/
def atEnd (programs : Programs) (fuel : Nat) (f : Act Nat) : Act Nat := do
  match fuel with
  | 0 => stop .endless
  | fuel + 1 =>
    match ← endStatus f with
    | .error signal => stop (.killed signal)
    | .ok status =>
      match (← context).traps.lookup 0 with
      | none | some [] => return status
      | some action =>
        modifyContext fun c => { c with
          traps := c.traps.filter fun t => t.1 ≠ 0
          skip := .nothing
          status := status }
        try
          let _ ← runText programs fuel action ⟨false, false⟩
          return status
        catch
          | .exit => return (← context).status % 256
          | .fault => return status
          | s => stop s

/-- Run a command: its status. -/
def run (programs : Programs) (fuel : Nat) (c : Command) (p : Position) : Act Nat := do
  match fuel with
  | 0 => stop .endless
  | fuel + 1 =>
    runTraps programs fuel
    if ← hasOption 'n' then return 0
    let (status, checked) ← match c with
      | .simple line assignments words redirections => do
        pure (← runSimple programs fuel line assignments words redirections p, true)
      | .pipeline cs => do
        let saved := (← get).clock
        pure (← runPipeline programs fuel (← streamOf? 0) saved saved cs p, true)
      | .background line c => do
        setLine line
        let pipes := match c with
          | .pipeline cs => cs.length - 1
          | _ => 0
        inJob pipes do
          lead 0 (some (← addStream .null))
          runTail programs fuel c ⟨false, true⟩
        pure (0, true)
      | .subshell line c redirections => do
        setLine line
        let targets ← expandTargets programs fuel redirections
        let status ← inProcess do
          if ← redirectAll (documentText (output programs fuel) fuel) targets then runTail programs fuel c ⟨p.tested, true⟩
          else return 2
        pure (status, true)
      | .redirected line c redirections => do
        setLine line
        let targets ← expandTargets programs fuel redirections
        let saved ← savedDescriptors targets
        let status ← ensure (do
            if ← redirectAll (documentText (output programs fuel) fuel) targets then run programs fuel c p.inner else return 2)
          (restoreDescriptors saved)
        pure (status, false)
      | .sequence cs => do pure (← runSequence programs fuel cs p, false)
      | .both l r => do
        let n ← run programs fuel l .asked
        if n ≠ 0 ∨ (← skipping) then pure (n, false) else pure (← run programs fuel r p, false)
      | .either l r => do
        let n ← run programs fuel l .asked
        if n = 0 ∨ (← skipping) then pure (n, false) else pure (← run programs fuel r p, false)
      | .negation c => do
        let n ← run programs fuel c .asked
        pure (if n = 0 then 1 else 0, false)
      | .branch condition yes no => do
        let n ← run programs fuel condition .asked
        if ← skipping then pure (n, false)
        else if n = 0 then pure (← run programs fuel yes p, false)
        else pure (← run programs fuel no p, false)
      | .loop wanted condition body => do
        pure (← inLoop (runLoop programs fuel wanted condition body p.inner 0), false)
      | .forEach line name words body => do
        setLine line
        let fields ← expandAll programs fuel words
        pure (← inLoop (runForEach programs fuel name fields body p.inner 0), false)
      | .select line word branches => do
        setLine line
        let text ← expandText (output programs fuel) fuel .single word
        pure (← runSelect programs fuel text branches p, false)
      | .define line name body => do
        modifyContext fun c => { c with
          functions := (name, line, body) :: c.functions.filter fun f => f.1 ≠ name
          located := c.located.filter (· ≠ name) }
        pure (0, false)
    setStatus status
    runTraps programs fuel
    if checked ∧ !p.tested ∧ status ≠ 0 ∧ (← hasOption 'e') then stop .exit
    return status

/-- Commands one after the other. -/
def runSequence (programs : Programs) (fuel : Nat) (cs : List Command) (p : Position) : Act Nat := do
  match fuel, cs with
  | 0, _ => stop .endless
  | _, [] => return 0
  | fuel + 1, [c] => run programs fuel c p
  | fuel + 1, c :: cs =>
    let n ← run programs fuel c p.inner
    if ← skipping then return n
    else runSequence programs fuel cs p

/-- A loop, after its body has ended with the status `last`. -/
def runLoop (programs : Programs) (fuel : Nat) (wanted : Bool) (condition body : Command)
    (p : Position) (last : Nat) : Act Nat := do
  match fuel with
  | 0 => stop .endless
  | fuel + 1 =>
    spend
    let n ← run programs fuel condition .asked
    match ← loopStep with
    | .leave => return if (← skipping) then n else last
    | .nextTurn => runLoop programs fuel wanted condition body p last
    | .go =>
      if decide (n = 0) ≠ wanted then return last
      else
        let n ← run programs fuel body p
        match ← loopStep with
        | .leave => return n
        | _ => runLoop programs fuel wanted condition body p n

def runForEach (programs : Programs) (fuel : Nat) (name : Bytes) (fields : List Bytes)
    (body : Command) (p : Position) (last : Nat) : Act Nat := do
  match fuel, fields with
  | 0, _ => stop .endless
  | _, [] => return last
  | fuel + 1, field :: fields =>
    setVariable name field
    let n ← run programs fuel body p
    match ← loopStep with
    | .leave => return n
    | _ => runForEach programs fuel name fields body p n

/-- The first branch with a pattern that the text fits. -/
def runSelect (programs : Programs) (fuel : Nat) (text : Bytes)
    (branches : List (List Word × Command)) (p : Position) : Act Nat := do
  match fuel, branches with
  | 0, _ => stop .endless
  | _, [] => return 0
  | fuel + 1, ([], _) :: branches => runSelect programs fuel text branches p
  | fuel + 1, (w :: ws, c) :: branches =>
    let pattern ← expandPattern (output programs fuel) fuel w
    if Pattern.fits pattern text then run programs fuel c p
    else runSelect programs fuel text ((ws, c) :: branches) p

/-- Commands side by side, each of which reads what the one before it writes.  They all
start at the time `start`, and the last of them so far has ended at the time `ended`. -/
def runPipeline (programs : Programs) (fuel : Nat) (input : Option Nat) (start ended : Nat)
    (cs : List Command) (p : Position) : Act Nat := do
  match fuel, cs with
  | 0, _ => stop .endless
  | _, [] => return 0
  | fuel + 1, c :: cs =>
    modify fun s => { s with clock := start }
    if cs.isEmpty then
      let n ← inProcess do
        lead 0 input
        runTail programs fuel c ⟨p.tested, true⟩
      modify fun s => { s with clock := max ended s.clock }
      pass 0
      return n
    else
      let i ← addStream Stream.empty
      let budget := (← get).budget
      modify fun s => { s with budget := budget / 2 }
      try
        let _ ← inProcess do
          lead 0 input
          lead 1 (some i)
          runTail programs fuel c ⟨p.tested, true⟩
      catch
        | .endless =>
          match (← stream i).settled with
          | .pipe content taken late _ =>
            if content.isEmpty then stop .endless
            setStream i (.pipe content taken late true)
          | _ => stop .endless
        | s => stop s
      modify fun s => { s with budget := s.budget + (budget - budget / 2) }
      runPipeline programs fuel (some i) start (max ended (← get).clock) cs p

/-- The targets of redirections. -/
def expandTargets (programs : Programs) (fuel : Nat) (rs : List (Redirection Word)) :
    Act (List Redirected) := do
  match fuel, rs with
  | 0, _ => stop .endless
  | _, [] => return []
  | fuel + 1, r :: rs =>
    let target ← match r.kind with
      | .document _ => pure []
      | _ => expandText (output programs fuel) fuel .single r.target
    if r.kind = .duplicate ∧ target ≠ ['-'] ∧ !(target.length = 1 ∧ target.all Text.isDigit) then
      setLine (← context).readTo
      faultText "Syntax error: Bad fd number"
    return (r.descriptor, r.kind, target) :: (← expandTargets programs fuel rs)

/-- The fields of words. -/
def expandAll (programs : Programs) (fuel : Nat) (ws : List Word) : Act (List Bytes) := do
  match fuel, ws with
  | 0, _ => stop .endless
  | _, [] => return []
  | fuel + 1, w :: ws =>
    let fields ← expandFields (output programs fuel) fuel w
    return fields ++ (← expandAll programs fuel ws)

/-- The fields of the words of a command.  Some commands take assignments, which are not
split. -/
def expandCommand (programs : Programs) (fuel : Nat) (assigns : Bool) (ws : List Word)
    (fields : List Bytes) : Act (List Bytes) := do
  match fuel, ws with
  | 0, _ => stop .endless
  | _, [] => return fields
  | fuel + 1, w :: ws =>
    let assigns := assigns ||
      (fields.head?.map fun name => assigningNames.contains (String.ofList name)).getD false
    if assigns ∧ w.isAssignment then
      let (name, value) ← expandAssignment programs fuel w
      expandCommand programs fuel assigns ws (fields ++ [name ++ '=' :: value])
    else
      let more ← expandFields (output programs fuel) fuel w
      expandCommand programs fuel assigns ws (fields ++ more)

def expandAssignment (programs : Programs) (fuel : Nat) (w : Word) : Act (Bytes × Bytes) := do
  match fuel with
  | 0 => stop .endless
  | fuel + 1 =>
    let name := (Word.plainStart w).takeWhile (· ≠ '=')
    let value ← expandText (output programs fuel) fuel .assigned (w.drop (name.length + 1))
    return (name, value)

/-- Set the variables of assignments, for the command that follows or for good. -/
def assign (programs : Programs) (fuel : Nat) (passing exported : Bool) (ws : List Word)
    (acc : List (Bytes × Bytes)) : Act (List (Bytes × Bytes)) := do
  match fuel, ws with
  | 0, _ => stop .endless
  | _, [] => return acc.reverse
  | fuel + 1, w :: ws =>
    let (name, value) ← expandAssignment programs fuel w
    if passing then hideVariable name
    setVariable name value
    if passing ∨ exported then
      let v := (← binding? name).getD ⟨some value, true, false⟩
      putVariable name (some { v with exported := true })
    assign programs fuel passing exported ws ((name, value) :: acc)

/-- Run a command of words. -/
def runSimple (programs : Programs) (fuel : Nat) (line : Nat) (assignments words : List Word)
    (redirections : List (Redirection Word)) (p : Position) : Act Nat := do
  match fuel with
  | 0 => stop .endless
  | fuel + 1 =>
    spend
    setLine line
    modifyContext fun c => { c with outputStatus := 0 }
    let fields ← expandCommand programs fuel false words []
    let viaCommand := fields.head? = some "command".toList
    let wanted? := if viaCommand then commandArguments fields.tail else some fields
    let args := wanted?.getD []
    let name := args.headD []
    let special := !viaCommand && !args.isEmpty && specialNames.contains (String.ofList name)
    let executes := name = "exec".toList
    let targets ← expandTargets programs fuel redirections
    let saved ← savedDescriptors targets
    let errors ← streamOf? 2
    let redirected ← redirectAll (documentText (output programs fuel) fuel) targets
    if !redirected then
      restoreDescriptors saved
      setStatus 2
      if special then stop .fault else return 2
    else
      let passing := !fields.isEmpty && !special
      if passing then modifyContext fun c => { c with hidden := [] :: c.hidden }
      ensure (do
          let assigned ← assign programs fuel passing (executes && 1 < args.length) assignments []
          if ← hasOption 'x' then trace errors assigned fields
          if wanted?.isNone then
            runBuiltin "command".toList false do
              let (letters, names) ← optionLetters ['p', 'v', 'V'] fields.tail
              match names with
              | [] => return 0
              | name :: _ => describe programs (letters.getLast? ≠ some 'V') name
          else if fields.isEmpty then return (← context).outputStatus
          else if args.isEmpty then return 0
          else runNamed programs fuel name args.tail viaCommand special p)
        (do
          if !executes then restoreDescriptors saved
          if passing then popFrame)

/-- Run a command by its name. -/
def runNamed (programs : Programs) (fuel : Nat) (name : Bytes) (args : List Bytes)
    (viaCommand special : Bool) (p : Position) : Act Nat := do
  match fuel with
  | 0 => stop .endless
  | fuel + 1 =>
    match ← meaning programs (!viaCommand) name with
    | .builtin u => runBuiltin name special (u args)
    | .call line body => runCall programs fuel line body args p
    | .runner text =>
      if runnerBuiltins.contains text then
        runBuiltin name special (runOwn programs fuel text args p)
      else
        remember name
        runProgram programs fuel name args p
    | .program _ | .script _ =>
      remember name
      runProgram programs fuel name args p
    | .denied =>
      report (name ++ ": Permission denied".toList)
      return if name.contains '/' then 126 else 127
    | .unknown =>
      report (name ++ ": not found".toList)
      return 127

def runCall (programs : Programs) (fuel : Nat) (line : Nat) (body : Command) (args : List Bytes)
    (p : Position) : Act Nat := do
  match fuel with
  | 0 => stop .endless
  | fuel + 1 =>
    let outer ← context
    if deepestCall ≤ outer.calls then
      faultText "Maximum function recursion depth (1000) reached"
    modifyContext fun c => { c with
      arguments := args
      calls := c.calls + 1
      loops := 0
      optionIndex := 1
      optionOffset := none
      line := line }
    let n ← ensure (run programs fuel body p.inner)
      (modifyContext fun c => { c with
        arguments := outer.arguments
        calls := outer.calls
        loops := outer.loops
        optionIndex := outer.optionIndex
        optionOffset := outer.optionOffset })
    modifyContext fun c => { c with
      skip := if c.skip = .leaveFunction then .nothing else c.skip }
    return n

/-- Run one of the utilities of the shell that run commands. -/
def runOwn (programs : Programs) (fuel : Nat) (name : String) (args : List Bytes) (p : Position) :
    Act Nat := do
  match fuel with
  | 0 => stop .endless
  | fuel + 1 =>
    match name with
    | "eval" =>
      if args.isEmpty then return 0 else runText programs fuel (Bytes.joined [' '] args) p.inner
    | "." =>
      match args with
      | [] => return 0
      | path :: _ =>
        if !path.contains '/' then fault (path ++ ": not found".toList)
        let stream ← openFile .read path
        let files := (← get).files
        let content := match stream with
          | .file place .. => contentAt files place
          | _ => .empty
        modifyContext fun c => { c with running := some path }
        let n ← runText programs fuel (Bytes.ofByteArray content) ⟨false, false⟩
        modifyContext fun c => { c with
          skip := if c.skip = .leaveFunction then .nothing else c.skip }
        return n
    | "exec" =>
      match ← withoutOptions args with
      | [] => return 0
      | name :: args =>
        match ← programMeaning programs name with
        | .unknown | .denied =>
          let denied := match ← programMeaning programs name with
            | .denied => true
            | _ => false
          report (name ++ (if denied then ": Permission denied" else ": not found").toList)
          setStatus (if denied then 126 else 127)
          stop .exit
        | _ =>
          let n ← runProgram programs fuel name args ⟨true, true⟩
          setStatus n
          modifyContext fun c => { c with traps := [] }
          stop .exit
    | "hash" =>
      let (letters, names) ← optionLetters ['r'] args
      if letters.contains 'r' then
        modifyContext fun c => { c with located := [] }
        return 0
      else if names.isEmpty then
        for name in listed 31 (← context).located do
          printLine (← locate programs name).2
        return 0
      else
        let mut status := 0
        for name in names do
          match ← meaning programs true name with
          | .unknown | .denied =>
            report (name ++ ": not found".toList)
            status := 1
          | .program _ | .script _ => remember name
          | .runner text => if !runnerBuiltins.contains text then remember name
          | _ => pure ()
        return status
    | "type" =>
      let mut status := 0
      for name in args do
        let n ← describe programs false name
        if n ≠ 0 then status := n
      return status
    | _ => return 0

/-- Run a program in a process of its own.  If the shell has nothing to do after it, it
takes the place of the shell. -/
def runProgram (programs : Programs) (fuel : Nat) (name : Bytes) (args : List Bytes) (p : Position) :
    Act Nat := do
  match fuel with
  | 0 => stop .endless
  | fuel + 1 =>
    pass 2
    let replaces := p.last && (← context).traps.isEmpty
    let process := (← context).process
    let act : Act Nat := do
      if replaces then modifyContext fun c => { c with process := process }
      execute programs fuel (← programMeaning programs name) name args
    if replaces then
      let s ← get
      let r ← ensure (endStatus act) (leaveProcess s.context s.files.workingDirectory)
      match r with
      | .ok n => return n
      | .error signal => stop (.killed signal)
    else inProcess act

/-- Run a program in this process. -/
def execute (programs : Programs) (fuel : Nat) (m : Meaning) (name : Bytes) (args : List Bytes) :
    Act Nat := do
  match fuel with
  | 0 => stop .endless
  | fuel + 1 =>
    match m with
    | .program u => u args
    | .runner text => runRunner programs fuel text name args
    | .script content => runShell programs fuel name (name :: args) (some content)
    | _ => return 127

/-- Run one of the programs that run others. -/
def runRunner (programs : Programs) (fuel : Nat) (text : String) (name : Bytes)
    (args : List Bytes) : Act Nat := do
  match fuel with
  | 0 => stop .endless
  | fuel + 1 =>
    let given (failure : Nat) (o : Program.Options) (f : Program.Given → Act Nat) : Act Nat :=
      match Program.readArguments o false (args.length + 1) args ⟨[], []⟩ with
      | .ok g => f g
      | .error cs => Program.misuse text failure cs
    match text with
    | "sh" | "dash" => runShell programs fuel name args none
    | "env" => given 125 Program.Surroundings.options fun g =>
        runSurrounded programs fuel (.ofGiven g)
    | "nohup" => given 125 ⟨"", "", []⟩ fun g => runLast programs fuel text g.operands
    | "nice" => given 125 ⟨"0123456789", "n", [("adjustment", 'n')]⟩ fun g => do
        if g.operands.isEmpty then
          printLine ['0']
          return 0
        else runLast programs fuel text g.operands
    | "timeout" => given 125 Program.TimeLimit.options fun g =>
        match Program.TimeLimit.ofGiven g with
        | .ok t => runLimited programs fuel t
        | .error why => do
          match why with
          | some cs => Program.report text cs
          | none => pure ()
          Program.hint text
          return 125
    | "xargs" => given 1 Program.Gathering.options fun g =>
        match Program.Gathering.ofGiven g with
        | .error cs => Program.misuse text 1 cs
        | .ok k => do
          match ← Program.readInput ((g.value? 'a').getD ['-']) with
          | .error f =>
            Program.report text (if f.path = ['-'] then "error closing file: ".toList ++ f.reason.toList
              else "Cannot open input file ".toList ++ Program.quotedAlways f.path ++ ": ".toList ++
                f.reason.toList)
            return 1
          | .ok cs =>
            Program.awaitEnd
            let (arguments, left) := k.argumentsOf cs
            match left with
            | some q => Program.report text (Program.Gathering.openQuote q).toList
            | none => pure ()
            if left.isSome ∧ arguments.isEmpty then return 1
            let status ← runGathered programs fuel k (k.commandsOf arguments) 0
            return if left.isSome then 1 else status
    | _ => return 0

/-- Report that a program cannot be run for another one. -/
def refuseProgram (runner : String) (name : Bytes) (denied : Bool) : Act Nat := do
  let shown := match runner with
    | "nohup" => "failed to run command ".toList ++ Program.quotedAlways name
    | "timeout" => "failed to run command ".toList ++ Program.quotedWord name
    | "env" | "nice" => Program.quotedWord name
    | _ => name
  Program.report runner (shown ++ (if denied then ": Permission denied"
    else ": No such file or directory").toList)
  return if denied then 126 else 127

/-- Run a program in the place of the one that was asked to. -/
def runLast (programs : Programs) (fuel : Nat) (runner : String) (command : List Bytes) :
    Act Nat := do
  match fuel with
  | 0 => stop .endless
  | fuel + 1 =>
    match command with
    | [] => Program.misuse runner 125 "missing operand".toList
    | name :: args =>
      let known := (← value? "PATH".toList).isSome || name.contains '/'
      if name = ['.'] ∨ name = ['.', '.'] then refuseProgram runner name true
      else match ← programMeaning programs (if known then name else "/usr/bin/".toList ++ name) with
      | .unknown => refuseProgram runner name false
      | .denied => refuseProgram runner name true
      | m => execute programs fuel m name args

/-- Run a program for another one, which waits for it. -/
def runWithin (programs : Programs) (fuel : Nat) (runner : String)
    (deadlines : List (Nat × Nat)) (command : List Bytes) : Act (Except Nat Nat) := do
  match fuel with
  | 0 => stop .endless
  | fuel + 1 =>
    pass 2
    inProcess? do
      modifyContext fun c => { c with deadlines := deadlines ++ c.deadlines }
      runLast programs fuel runner command

/-- Run commands one after the other. -/
def runGathered (programs : Programs) (fuel : Nat) (k : Program.Gathering)
    (commands : List (List Bytes)) (status : Nat) : Act Nat := do
  match fuel, commands with
  | 0, _ => stop .endless
  | _, [] => return status
  | fuel + 1, command :: commands =>
    if k.shows then note (Bytes.joined [' '] command)
    let ended ← runWithin programs fuel "xargs" [] command
    match Program.aftermath (command.headD []) status ended with
    | .goOn status => runGathered programs fuel k commands status
    | .giveUp status why =>
      match why with
      | some cs => Program.report "xargs" cs
      | none => pure ()
      return status

/-- Run a command that is sent a signal when its time is over. -/
def runLimited (programs : Programs) (fuel : Nat) (t : Program.TimeLimit) : Act Nat := do
  match fuel with
  | 0 => stop .endless
  | fuel + 1 =>
    let s ← get
    let first := t.limit.map (s.clock + ·)
    let deadlines := first.toList.flatMap fun time =>
      (time, t.signal) :: t.killAfter.toList.map fun more => (time + more, Signal.kill)
    set { s with budget := s.budget / 2 }
    let ended ← try
        pure (some (← runWithin programs fuel "timeout" deadlines t.command))
      catch
        | .endless => if first.isSome then pure none else stop .endless
        | stopped => stop stopped
    modify fun u => { u with budget := u.budget + (s.budget - s.budget / 2) }
    let limit := first.getD 0
    if ended.isNone then pass (limit - (← get).clock)
    let ended := ended.getD (.error t.signal)
    if first.isNone ∨ (← get).clock < limit then
      match ended with
      | .ok n => return n
      | .error signal => stop (.killed signal)
    else
      if t.shows then
        Program.report "timeout" ("sending signal ".toList ++ (Signal.name t.signal).toList ++
          " to command ".toList ++ Program.quotedWord (t.command.headD []))
      match ended with
      | .error 9 => stop (.killed Signal.kill)
      | .error signal => return if t.preserves then 128 + signal else 124
      | .ok n => return if t.preserves then n else 124

/-- Run a program in a changed environment, or print that. -/
def runSurrounded (programs : Programs) (fuel : Nat) (k : Program.Surroundings) : Act Nat := do
  match fuel with
  | 0 => stop .endless
  | fuel + 1 =>
    if k.empty then modifyContext fun c => { c with bindings := [] }
    for name in k.unset do putVariable name none
    for (name, value) in k.assigned do putVariable name (some ⟨some value, true, false⟩)
    match k.directory, k.command with
    | some _, [] =>
      Program.misuse "env" 125 "must specify command with --chdir (-C)".toList
    | none, [] =>
      for (name, value) in environment (← context) do
        print (name ++ '=' :: value ++ [k.ending])
      match ← outputFault? 1 with
      | none => return 0
      | some why =>
        Program.report "env" ("write error: " ++ why).toList
        return 125
    | directory, command =>
      match directory.map fun path => (path, Bytes.toText path) with
      | none => runLast programs fuel "env" command
      | some (path, text) =>
        match (← get).files.find text with
        | .ok (place, .directory _) =>
          modify fun s => { s with files := { s.files with workingDirectory := place } }
          runLast programs fuel "env" command
        | found =>
          let why := match found with
            | .error cause => cause.reason
            | .ok _ => "Not a directory"
          Program.report "env" ("cannot change directory to ".toList ++ Program.quotedAlways path ++
            ": ".toList ++ why.toList)
          return 125

/-- Run a text as a script. -/
def runText (programs : Programs) (fuel : Nat) (text : Bytes) (p : Position) : Act Nat := do
  match fuel with
  | 0 => stop .endless
  | fuel + 1 =>
    let outer := (← context).readTo
    ensure (runSource programs fuel ⟨text, [], [], 1, none, [], #[]⟩ p 0)
      (modifyContext fun c => { c with readTo := outer })

/-- Run what is left of a script. -/
def runSource (programs : Programs) (fuel : Nat) (source : Source) (p : Position) (status : Nat) :
    Act Nat := do
  match fuel with
  | 0 => stop .endless
  | fuel + 1 =>
    let s ← get
    let source := { source with documents := s.documents, aliases := s.context.aliases }
    let read : Read Portion := readPortion
    match read.run source with
    | .error wrong =>
      setLine wrong.line
      faultText ("Syntax error: " ++ wrong.message)
    | .ok (.finished, _) => return status
    | .ok (.command c last, source) =>
      modify fun s => { s with
        documents := source.documents
        context := { s.context with readTo := source.line } }
      let n ← run programs fuel c ⟨p.tested, p.last && last⟩
      let status : Nat := match c with
        | .sequence [] => status
        | _ => n
      if ← skipping then return status
      else runSource programs fuel source p status

/-- A shell with these arguments, or with the script in a file. -/
def runShell (programs : Programs) (fuel : Nat) (name : Bytes) (args : List Bytes)
    (content : Option ByteArray) : Act Nat := do
  match fuel with
  | 0 => stop .endless
  | fuel + 1 =>
    modifyContext fun c => { c with
      bindings := c.bindings.filter fun v => v.2.exported
      functions := []
      aliases := []
      located := []
      name := name
      arguments := []
      options := []
      line := 0
      running := none
      loops := 0
      calls := 0
      skip := .nothing
      hidden := []
      shell := c.process
      lastJob := none
      optionIndex := 1
      optionOffset := none }
    for (name, value) in ownVariables do
      let exported := ((← binding? name.toList).map (·.exported)).getD false
      putVariable name.toList (some ⟨some value.toList, exported, false⟩)
    let parent := (← context).above.headD parentProcess
    putVariable "PWD".toList (some ⟨some (← workingPath), true, false⟩)
    if (← binding? "PATH".toList).isNone then
      putVariable "PATH".toList (some ⟨some usualPath.toList, false, false⟩)
    putVariable "PPID".toList (some ⟨some (Bytes.decimal parent), false, false⟩)
    atEnd programs fuel do
      let script (text : Bytes) (last : Bool) : Act Nat := runText programs fuel text ⟨false, last⟩
      let start (name : Bytes) (arguments : List Bytes) : Act Unit :=
        modifyContext fun c => { c with name := name, arguments := arguments }
      match content with
      | some content =>
        start name args.tail
        script (Bytes.ofByteArray content) false
      | none =>
        let r ← readOptions true (args.length + 1) false args
        if r.command then
          match r.rest with
          | [] => faultText "-c requires an argument"
          | text :: rest =>
            start (rest.headD name) rest.tail
            script text true
        else if r.rest.isEmpty ∨ (← hasOption 's') then
          start name r.rest
          script (Bytes.ofByteArray (← takeAll 0)) false
        else
          let path := r.rest.headD []
          let stream ← openFile .read path
          start path r.rest.tail
          match stream with
          | .file place .. => script (Bytes.ofByteArray (contentAt (← get).files place)) false
          | _ => return 0

end

end Act
end Shell
end Publishing
