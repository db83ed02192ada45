import Publishing.Shell.Signals

/-
The programs that run beside the shell.
-/

namespace Publishing
namespace Shell

namespace Job

def isOver (j : Job) (now : Nat) : Bool := j.endsAt ≤ now

/-- The state of a job in words. -/
def state (j : Job) (now : Nat) : Bytes :=
  if !j.isOver now then "Running".toList
  else
    match j.signal.bind Signal.epitaph? with
    | some text => text.toList
    | none =>
      if j.status = 0 then "Done".toList else "Done(".toList ++ Bytes.decimal j.status ++ [')']

end Job

namespace Act

/-- The place for a new process among the jobs.  A job that was waited for gives way. -/
def placeFor (fuel : Nat) (jobs : List Job) (now n : Nat) : Nat × List Job :=
  match fuel with
  | 0 => (n, jobs)
  | fuel + 1 =>
    match jobs.find? (·.number = n) with
    | none => (n, jobs)
    | some j =>
      if j.isOver now ∧ j.waited then (n, jobs.filter (·.number ≠ n))
      else placeFor fuel jobs now (n + 1)

/-- Make room for a new process: its place. -/
def makePlace : Act Nat := do
  let s ← get
  let jobs := s.context.jobs
  let (n, jobs) := placeFor (jobs.length + 1) jobs s.clock 1
  set { s with context := { s.context with jobs := jobs } }
  return n

/-- Change the jobs that are over. -/
def modifyOver (f : Job → Job) : Act Unit :=
  modify fun s => { s with context := { s.context with
    jobs := s.context.jobs.map fun j => if j.isOver s.clock then f j else j } }

/-- Take notice of the jobs that are over. -/
def noticeJobs : Act Unit := modifyOver fun j => { j with noticed := true }

/-- The first signal that reaches this process until a time and is not ignored. -/
def interruption? (deadline : Nat) : Act (Option Sent) := do
  let s ← get
  let reaches (m : Sent) : Bool := m.target = s.context.process && m.time ≤ deadline &&
    match s.context.traps.lookup m.signal with
    | some action => !action.isEmpty
    | none => !Signal.ignored.contains m.signal
  return (s.signals.filter reaches).head?

/-- Wait until a time, or until a signal comes: the status if one does. -/
def waitUntil (time : Nat) : Act (Option Nat) := do
  let now := (← get).clock
  match ← interruption? (max time now) with
  | some m =>
    pass (m.time - now)
    return some (128 + m.signal)
  | none =>
    pass (time - now)
    return none

/-- The job that a text with a percent sign means. -/
def jobOf (name : Bytes) : Act Job := do
  let jobs := (← context).jobs
  let found := match name.drop 1 with
    | [] | ['%'] | ['+'] => jobs.head?
    | ['-'] => jobs[1]?
    | cs => (Bytes.natural? cs).bind fun n => jobs.find? (·.number = n)
  match found, name.drop 1 with
  | some j, _ => return j
  | none, [] | none, ['%'] | none, ['+'] => faultText "No current job"
  | none, ['-'] => faultText "No previous job"
  | none, _ => fault ("No such job: ".toList ++ name)

/-- Wait for a job to end: the status, and whether a signal came before. -/
def waitForJob (j : Job) : Act (Nat × Bool) := do
  match ← waitUntil j.endsAt with
  | some status => return (status, true)
  | none =>
    match j.noticed, j.signal.bind Signal.epitaph? with
    | false, some text => note text.toList
    | _, _ => pure ()
    noticeJobs
    modifyContext fun c => { c with
      jobs := c.jobs.map fun k => if k.number = j.number then { k with waited := true } else k }
    return (j.status, false)

end Act

def wait : Utility := fun args => do
  let args ← withoutOptions args
  let c ← Act.context
  if args.isEmpty then
    match ← Act.waitUntil ((c.jobs.map (·.endsAt)).foldl max 0) with
    | some status => return status
    | none =>
      Act.modifyOver fun j => { j with noticed := true, waited := true }
      return 0
  else
    let mut status := 0
    for arg in args do
      let job? ←
        if arg.head? = some '%' then do pure (some (← Act.jobOf arg))
        else match Bytes.natural? arg with
          | none => Act.fault ("Illegal number: ".toList ++ arg)
          | some n => do pure ((← Act.context).jobs.find? (·.process = n))
      match job? with
      | none => status := 127
      | some j =>
        let (n, interrupted) ← Act.waitForJob j
        status := n
        if interrupted then return n
    return status

/-- List the jobs.  Those that are over are forgotten then. -/
def jobsUtility : Utility := fun args => do
  let letters := (args.takeWhile fun a => a.head? = some '-').flatMap (·.drop 1)
  match letters.find? fun c => !(['l', 'p'].contains c) with
  | some c => Act.fault ("Illegal option -".toList ++ [c])
  | none =>
    Act.noticeJobs
    let s ← get
    let mut kept := 0
    for j in s.context.jobs do
      if letters.contains 'p' then Act.printLine (Bytes.decimal j.process)
      else
        let mark := if kept = 0 then '+' else if kept = 1 then '-' else ' '
        let front := '[' :: Bytes.decimal j.number ++ [']', ' ', mark, ' '] ++
          (if letters.contains 'l' then Bytes.decimal j.process ++ [' '] else []) ++
          j.state s.clock
        Act.printLine (front ++ List.replicate (max 1 (33 - front.length)) ' ' ++
          (List.replicate j.pipes " | ".toList).flatten)
        if !j.isOver s.clock then kept := kept + 1
    if !letters.contains 'p' then
      Act.modifyContext fun c => { c with jobs := c.jobs.filter (!·.isOver s.clock) }
    return 0

/-- Jobs cannot be brought to the front. -/
def resume : Utility := fun args => do
  let _ ← Act.jobOf (args.headD ['%'])
  Act.fault ("job ".toList ++ args.headD "(null)".toList ++ " not created under job control".toList)

end Shell
end Publishing
