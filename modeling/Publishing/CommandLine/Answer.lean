import Publishing.CommandLine.Display
import Publishing.CommandLine.Request
import Publishing.Content
import Publishing.Run.Configured
import Publishing.Shell.Launch

/-
How requests are carried out.
-/

namespace Publishing
namespace CommandLine

/-- Why a request fails. -/
inductive Failure where
  | error (e : Error)
  | badMetadata
  | noDirectory (path : String)
  /-- A run that ended, but not with all entities well. -/
  | unclean (failures stuck : Nat)
  deriving DecidableEq

def Failure.message : Failure → String
  | .error e => e.message
  | .badMetadata => "--metadata is not valid JSON: " ++ Json.Fault.malformed.message
  | .noDirectory path => "'" ++ path ++ "' is not a directory"
  | .unclean failures stuck =>
    toString failures ++ " entities failed and " ++ toString stuck ++ " are stuck"

/-- How a request ends. -/
inductive Ending where
  | done
  | failed (f : Failure)
  /-- The program breaks off. -/
  | broken
  | stopped (s : Stop)
  deriving DecidableEq

def Ending.exitCode : Ending → Nat
  | done => 0
  | failed _ => 1
  | broken => 101
  | stopped .usage => 2
  | stopped _ => 0

structure Answer where
  output : String
  ending : Ending
  deriving DecidableEq

namespace Answer

def printed (text : String) : Answer := ⟨text, .done⟩

def failed (e : Error) : Answer := ⟨"", .failed (.error e)⟩

def ofExcept {α : Type} (f : α → String) : Except Error α → Answer
  | .ok a => printed (f a)
  | .error e => failed e

end Answer

/-- What requests are carried out with. -/
structure Surroundings (σ : Type) where
  clock : σ → Timestamp
  runId : RunId
  /-- Takes the audit records that are to be traced. -/
  trace : Sink σ

section

variable {σ : Type} [HasFiles σ]

/-- The configuration that a request is carried out under. -/
def Request.config? (r : Request) (fs : FileSystem) : Except Error Config :=
  match r.config with
  | some path => Config.loadFrom fs path
  | none => Config.load fs

def applyOperation (c : RunConfig) (x : Surroundings σ) (op : Operation) (w : σ) : Answer × σ :=
  let (result, _, w) := op.perform c.store.store (x.clock w) (c.emitter x.trace) w
  (.ofExcept report result, w)

def startRun (c : RunConfig) (x : Surroundings σ) (w : σ) : Answer × σ :=
  let r := (c.setup Shell.launch x.clock x.runId).run (c.emitter x.trace) w
  match r.result with
  | .ok s =>
    (⟨run s, if s.isClean then .done
      else .failed (.unclean s.failures.length s.stuck.length)⟩, r.world)
  | .error (.error e) => (.failed e, r.world)
  | .error (.tooManyPermits _) => (⟨"", .broken⟩, r.world)

/-- Carry out a task under a configuration. -/
def Task.perform (c : RunConfig) (x : Surroundings σ) (w : σ) : Task → Answer × σ
  | .run concurrency =>
    startRun { c with concurrency := concurrency.getD c.concurrency } x w
  | .status id =>
    let d := c.store.load (x.clock w) (files w)
    (match id with
      | some id => .ofExcept (fun e => e.toJson.pretty ++ "\n") (d >>= fun d => d.get id)
      | none => .ofExcept (fun d => summary d.summary) d, w)
  | .resume =>
    (.ofExcept (fun d => outlook d.outlook) (c.store.load (x.clock w) (files w)), w)
  | .change op => applyOperation c x op w
  | .add id none => applyOperation c x (.register id (.object [])) w
  | .add id (some text) =>
    match Json.parse? text with
    | some metadata => applyOperation c x (.register id metadata) w
    | none => (⟨"", .failed .badMetadata⟩, w)
  | .migrate directory extensions =>
    if !(files w).isDirectory directory then (⟨"", .failed (.noDirectory directory)⟩, w)
    else
      match Content.discover (files w) directory extensions with
      | .ok items => applyOperation c x (.migrate items) w
      | .error e => (.failed e, w)

/-- Carry out a request. -/
def Request.perform (r : Request) (x : Surroundings σ) (w : σ) : Answer × σ :=
  match r.aim with
  | .writeConfig =>
    let (result, fs) := Config.writeStandard (files w)
    (.ofExcept (fun path => "Config initialized at: " ++ path ++ "\n") result, setFiles fs w)
  | .showConfig => (.ofExcept (fun c => c.toml?.getD "" ++ "\n") (r.config? (files w)), w)
  | .work task =>
    match r.config? (files w) >>= RunConfig.ofConfig with
    | .error e => (.failed e, w)
    | .ok c => task.perform { c with statePath := r.state.getD c.statePath } x w

end

def versionText : String := "pubflow 0.1.0\n"

def usageText : String :=
  "Usage: pubflow [--state PATH] [--config PATH] COMMAND\n\n" ++
  "Commands:\n" ++
  "  run [--concurrency N]\n" ++
  "  status [ID]\n" ++
  "  retry STEP (--entity ID | --all)\n" ++
  "  resume\n" ++
  "  skip-to STEP (--entity ID | --all)\n" ++
  "  reset STEP [--filter GLOB] [--only-failed]\n" ++
  "  complete ID\n" ++
  "  fail ID --reason TEXT\n" ++
  "  add ID [--metadata JSON]\n" ++
  "  migrate DIR [--ext EXT]...\n" ++
  "  config (init | show)\n"

/-- Answer a command line. -/
def answer {σ : Type} [HasFiles σ] (environment : List (String × String)) (args : List String)
    (x : Surroundings σ) (w : σ) : Answer × σ :=
  match Request.ofArguments environment args with
  | .ok r => r.perform x w
  | .error .version => (⟨versionText, .stopped .version⟩, w)
  | .error .help => (⟨usageText, .stopped .help⟩, w)
  | .error .usage => (⟨"", .stopped .usage⟩, w)

end CommandLine
end Publishing
