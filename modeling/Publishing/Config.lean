import Publishing.Document.Format
import Publishing.Error
import Publishing.Files.System
import Publishing.Toml.Reader
import Publishing.Toml.Writer

/-
The configuration: where the state is kept, where the audit records go, and which
commands do the work of the steps.
-/

namespace Publishing

/-- A command that does the work of a step. -/
structure CommandSpec where
  command : String
  args : List String
  timeoutSecs : Nat
  workingDir : Option String
  deriving DecidableEq

namespace CommandSpec

def toJson (c : CommandSpec) : Json :=
  .object ([("command", .string c.command), ("args", .array (c.args.map .string)),
    ("timeout_secs", .nat c.timeoutSecs)] ++ Json.whenSome "working_dir" .string c.workingDir)

def decoder : Json.Decoder CommandSpec :=
  .record "CommandSpec" ["command", "args", "timeout_secs", "working_dir"] fun f =>
    CommandSpec.mk <$> f.required "command" .string
      <*> f.default "args" [] (Json.Decoder.list .string)
      <*> f.default "timeout_secs" 600 .u64
      <*> f.default "working_dir" none (Json.Decoder.nullable .string)

def isBlank (c : CommandSpec) : Bool := Text.isBlankText c.command

end CommandSpec

structure DefaultsConfig where
  statePath : String
  concurrency : Nat
  deriving DecidableEq

structure AuditConfig where
  jsonlPath : Option String
  tracing : Bool
  deriving DecidableEq

/-- The configuration as it is written down. -/
structure Config where
  defaults : DefaultsConfig
  audit : AuditConfig
  /-- By the names of the steps, which need not name any. -/
  executors : Keyed CommandSpec
  deriving DecidableEq

namespace DefaultsConfig

def standard : DefaultsConfig := ⟨".pubflow/state.json", 10⟩

def toJson (c : DefaultsConfig) : Json :=
  .object [("state_path", .string c.statePath), ("concurrency", .nat c.concurrency)]

def decoder : Json.Decoder DefaultsConfig :=
  .record "DefaultsConfig" ["state_path", "concurrency"] fun f =>
    DefaultsConfig.mk <$> f.default "state_path" standard.statePath .string
      <*> f.default "concurrency" standard.concurrency .usize

end DefaultsConfig

namespace AuditConfig

def standard : AuditConfig := ⟨none, true⟩

def toJson (c : AuditConfig) : Json :=
  .object (Json.whenSome "jsonl_path" .string c.jsonlPath ++ [("tracing", .bool c.tracing)])

def decoder : Json.Decoder AuditConfig :=
  .record "AuditConfig" ["jsonl_path", "tracing"] fun f =>
    AuditConfig.mk <$> f.default "jsonl_path" none (Json.Decoder.nullable .string)
      <*> f.default "tracing" true .bool

end AuditConfig

namespace Config

def standard : Config := ⟨.standard, .standard, .empty⟩

def toJson (c : Config) : Json :=
  .object [("defaults", c.defaults.toJson), ("audit", c.audit.toJson),
    ("executors", .ofKeyed (c.executors.map fun _ s => s.toJson))]

def decoder : Json.Decoder Config :=
  .record "AppConfig" ["defaults", "audit", "executors"] fun f =>
    Config.mk <$> f.default "defaults" .standard DefaultsConfig.decoder
      <*> f.default "audit" .standard AuditConfig.decoder
      <*> f.default "executors" .empty CommandSpec.decoder.keyed

/-! ## TOML -/

def ofToml? (text : String) : Option Config := do
  let t ← Toml.parse? text
  match decoder ⟨.table, text.length + 1⟩ t with
  | .ok c => return c
  | .error _ => none

def defaultsTable (c : DefaultsConfig) : List Char :=
  Toml.table ["defaults"]
    [Toml.pair "state_path" (Toml.string c.statePath),
      Toml.pair "concurrency" (Text.decimal c.concurrency)]

def auditTable (c : AuditConfig) : List Char :=
  Toml.table ["audit"]
    ((c.jsonlPath.map fun p => Toml.pair "jsonl_path" (Toml.string p)).toList ++
      [Toml.pair "tracing" (if c.tracing then "true" else "false").toList])

def executorTable (name : String) (c : CommandSpec) : List Char :=
  Toml.table ["executors", name]
    ([Toml.pair "command" (Toml.string c.command),
      Toml.pair "args" (Toml.array (c.args.map Toml.string)),
      Toml.pair "timeout_secs" (Text.decimal c.timeoutSecs)] ++
      (c.workingDir.map fun d => Toml.pair "working_dir" (Toml.string d)).toList)

/-- The text of a configuration, unless it holds an integer that is too great. -/
def toml? (c : Config) : Option String :=
  if Toml.greatestInteger < c.defaults.concurrency ∨
      c.executors.values.any (fun s => Toml.greatestInteger < s.timeoutSecs) then none
  else
    let executors :=
      if c.executors.isEmpty then [Toml.table ["executors"] []]
      else c.executors.entries.map fun e => executorTable e.1 e.2
    some (Toml.document (defaultsTable c.defaults :: auditTable c.audit :: executors))

/-! ## Files -/

/-- The directory of the configuration file below the home directory. -/
def directory (fs : FileSystem) : String := Path.join fs.home ".pubflow"

def path (fs : FileSystem) : String := Path.join (directory fs) "pubflow.toml"

def loadFrom (fs : FileSystem) (path : String) : Except Error Config :=
  match fs.readText path with
  | .error fault => .error (.file path fault)
  | .ok text =>
    match ofToml? text with
    | some c => .ok c
    | none => .error (.config (.unreadable path))

/-- The configuration in the home directory, or the standard one if there is none. -/
def load (fs : FileSystem) : Except Error Config :=
  if fs.contains (path fs) then loadFrom fs (path fs) else .ok .standard

/-- Write the standard configuration into the home directory. -/
def writeStandard (fs : FileSystem) : Except Error String × FileSystem :=
  match fs.createDirectories (directory fs) with
  | (some fault, fs) => (.error (.file (directory fs) fault), fs)
  | (none, fs) =>
    match fs.write (path fs) ((standard.toml?).getD "").toUTF8 with
    | .ok fs => (.ok (path fs), fs)
    | .error fault => (.error (.file (path fs) fault), fs)

end Config

/-! ## Settings of a run -/

/-- The configuration as a run uses it. -/
structure RunConfig where
  statePath : String
  concurrency : Nat
  auditJsonl : Option String
  auditTracing : Bool
  /-- The commands of the steps that have one. -/
  executors : Step → Option CommandSpec

namespace RunConfig

/-- Add the commands to those of the steps. -/
def addExecutors (routes : Step → Option CommandSpec) :
    List (String × CommandSpec) → Except Error (Step → Option CommandSpec)
  | [] => .ok routes
  | (name, spec) :: rest =>
    match Step.ofName? name with
    | none => .error (.config (.unknownStep name))
    | some s =>
      if spec.isBlank then .error (.config (.blankCommand name))
      else addExecutors (fun s' => if s' = s then some spec else routes s') rest

def ofConfig (c : Config) : Except Error RunConfig := do
  if c.defaults.concurrency = 0 then throw (.config .zeroConcurrency)
  let executors ← addExecutors (fun _ => none) c.executors.entries
  return {
    statePath := c.defaults.statePath
    concurrency := c.defaults.concurrency
    auditJsonl := c.audit.jsonlPath
    auditTracing := c.audit.tracing
    executors := executors }

/-- The steps that have a command. -/
def routedSteps (c : RunConfig) : List Step := Step.all.filter fun s => (c.executors s).isSome

end RunConfig
end Publishing
