import Publishing.CommandLine.Form
import Publishing.Operation
import Publishing.Text.Digit

/-
The commands, and what a command line asks for.
-/

namespace Publishing
namespace CommandLine

/-- What is to be done with the state. -/
inductive Task where
  | run (concurrency : Option Nat)
  | status (id : Option String)
  | resume
  | change (op : Operation)
  /-- Without metadata the entity gets an empty object. -/
  | add (id : String) (metadata : Option String)
  | migrate (directory : String) (extensions : List String)

inductive Aim where
  | work (t : Task)
  | writeConfig
  | showConfig

structure Request where
  /-- The path of the state file, if it is not that of the configuration. -/
  state : Option String
  /-- The path of the configuration file, if it is not the one in the home directory. -/
  config : Option String
  aim : Aim

/-! ## Forms -/

def isAny (_ : String) : Bool := true

def isPath (text : String) : Bool := text ≠ ""

/-- A number of 64 bits, with a plus sign if it likes. -/
def readCount? (text : String) : Option Nat :=
  let ds := match text.toList with
    | '+' :: ds => ds
    | ds => ds
  if ds ≠ [] ∧ ds.all Text.isDigit ∧ Text.numberOf ds < Nat.pow 2 64 then some (Text.numberOf ds)
  else none

def isCount (text : String) : Bool := (readCount? text).isSome

def valued (long : String) (accepts : String → Bool) : OptionForm :=
  ⟨long, none, .value accepts false, none⟩

def flag (long : String) : OptionForm := ⟨long, none, .flag, none⟩

/-- The options that every command takes. -/
def commonOptions : List OptionForm :=
  [⟨"state", none, .value isPath false, some "PUBFLOW_STATE"⟩,
   ⟨"config", none, .value isPath false, some "PUBFLOW_CONFIG"⟩,
   valued "log-format" fun v => v = "text" || v = "json",
   ⟨"verbose", some 'v', .count, none⟩]

def command (options : List OptionForm) (values : List (String → Bool)) (required : Nat) : Form :=
  ⟨commonOptions ++ options, values, required, false, none⟩

/-- A command that others follow. -/
def family (names : List String) (hasVersion : Bool) : Form :=
  ⟨commonOptions, [], 0, hasVersion, some (names ++ ["help"])⟩

/-- The form of the command that a path of names leads to. -/
def formOf : List String → Form
  | [] =>
    family ["run", "status", "retry", "resume", "skip-to", "reset", "complete", "fail", "add",
      "migrate", "config"] true
  | ["run"] =>
    command [⟨"concurrency", some 'c', .value isCount false, none⟩] [] 0
  | ["status"] => command [] [isAny] 0
  | ["retry"] | ["skip-to"] => command [valued "entity" isAny, flag "all"] [isAny] 1
  | ["reset"] => command [valued "filter" isAny, flag "only-failed"] [isAny] 1
  | ["complete"] => command [] [isAny] 1
  | ["fail"] => command [valued "reason" isAny] [isAny] 1
  | ["add"] => command [valued "metadata" isAny] [isAny] 1
  | ["migrate"] => command [⟨"ext", none, .value isAny true, none⟩] [isPath] 1
  | ["config"] => family ["init", "show"] false
  | _ => command [] [] 0

/-! ## Requests -/

/-- Exactly one of an entity and all of them. -/
def targetOf (g : Given) : Option Target :=
  match g.get? "entity", g.has "all" with
  | some id, false => some (.one id)
  | none, true => some .all
  | _, _ => none

/-- The task that a command and what it is given stand for, if they fit. -/
def taskOf (name : String) (g : Given) : Option Task :=
  let value := g.values.headD ""
  match name with
  | "run" => some (.run ((g.get? "concurrency").bind readCount?))
  | "status" => some (.status g.values.head?)
  | "retry" =>
    (targetOf g).map fun
      | .one id => .change (.retry value (some id) false)
      | .all => .change (.retry value none true)
  | "resume" => some .resume
  | "skip-to" => (targetOf g).map fun t => .change (.skipTo value t)
  | "reset" => some (.change (.reset value ⟨g.get? "filter", g.has "only-failed"⟩))
  | "complete" => some (.change (.complete value))
  | "fail" => (g.get? "reason").map fun reason => .change (.fail value reason)
  | "add" => some (.add value (g.get? "metadata"))
  | "migrate" => some (.migrate value (if g.has "ext" then g.all "ext" else ["md"]))
  | _ => none

def aimOf : List String → Given → Option Aim
  | ["config", "init"], _ => some .writeConfig
  | ["config", "show"], _ => some .showConfig
  | [name], g => (taskOf name g).map .work
  | _, _ => none

/-- The value of a common option.  The command line wins over the environment, and
there the last level that has it. -/
def commonValue? (levels : List (String × Given)) (environment : List (String × String))
    (long name : String) : Option String :=
  (levels.reverse.findSome? fun l => l.2.get? long).or (environment.lookup name)

/-- What a command line asks for. -/
def Request.ofArguments (environment : List (String × String)) (args : List String) :
    Except Stop Request :=
  match readLevels formOf environment 4 [] args with
  | .error stop => .error stop
  | .ok levels =>
    match levels.getLast? with
    | none => .error .usage
    | some (_, g) =>
      match aimOf ((levels.map (·.1)).drop 1) g with
      | none => .error .usage
      | some aim =>
        .ok {
          state := commonValue? levels environment "state" "PUBFLOW_STATE"
          config := commonValue? levels environment "config" "PUBFLOW_CONFIG"
          aim := aim }

end CommandLine
end Publishing
