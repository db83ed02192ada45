import Publishing.Text.Digit

/-
Command lines and how they are read.

A form says which options and values a command takes, and which commands can follow
it.  Each command has a level of its own on the command line, from its name up to the
name of the next.
-/

namespace Publishing
namespace CommandLine

/-- Why a command line is not carried out. -/
inductive Stop where
  | usage
  | help
  | version
  deriving DecidableEq, Repr

inductive OptionKind where
  /-- Stands at most once. -/
  | flag
  /-- Stands any number of times. -/
  | count
  /-- Takes a value, and stands at most once unless it repeats. -/
  | value (accepts : String → Bool) (repeats : Bool)

structure OptionForm where
  long : String
  short : Option Char
  kind : OptionKind
  /-- The variable that gives the value if the command line does not. -/
  setBy : Option String

structure Form where
  options : List OptionForm
  /-- What the values have to be like. -/
  values : List (String → Bool)
  /-- How many of the values have to be there. -/
  required : Nat
  hasVersion : Bool
  /-- Whether other commands follow, and which. -/
  commands : Option (List String)

/-- What a command is given. -/
structure Given where
  /-- In the order of the command line, with nothing as the value of a flag. -/
  options : List (String × String)
  values : List String
  deriving DecidableEq

namespace Given

def none : Given := ⟨[], []⟩

def has (g : Given) (long : String) : Bool := g.options.any fun o => o.1 = long

def all (g : Given) (long : String) : List String :=
  (g.options.filter fun o => o.1 = long).map (·.2)

def get? (g : Given) (long : String) : Option String := (g.all long).head?

end Given

namespace OptionForm

def takesValue (o : OptionForm) : Bool :=
  match o.kind with
  | .value .. => true
  | _ => false

/-- Whether the option may stand again. -/
def repeats (o : OptionForm) : Bool :=
  match o.kind with
  | .flag => false
  | .count => true
  | .value _ again => again

def accepts (o : OptionForm) (value : String) : Bool :=
  match o.kind with
  | .value accepts _ => accepts value
  | _ => true

/-- Note an option with its value. -/
def give (o : OptionForm) (value : String) (g : Given) : Except Stop Given :=
  if !o.accepts value || (g.has o.long && !o.repeats) then .error .usage
  else .ok { g with options := g.options ++ [(o.long, value)] }

end OptionForm

namespace Form

/-- Note a value. -/
def giveValue (f : Form) (value : String) (g : Given) : Except Stop Given :=
  match f.values.drop g.values.length with
  | accepts :: _ =>
    if accepts value then .ok { g with values := g.values ++ [value] } else .error .usage
  | [] => .error .usage

/-- A long option, without its dashes.  What comes back besides is the option that
waits for its value. -/
def readLong (f : Form) (g : Given) (text : List Char) :
    Except Stop (Given × Option OptionForm) :=
  let name := String.ofList (text.takeWhile (· ≠ '='))
  let value := (text.drop name.length).tail?.map String.ofList
  match f.options.find? (·.long = name), value with
  | some o, some v => if o.takesValue then (o.give v g).map (·, none) else .error .usage
  | some o, none => if o.takesValue then .ok (g, some o) else (o.give "" g).map (·, none)
  | none, some _ => .error .usage
  | none, none =>
    if name = "help" then .error .help
    else if name = "version" ∧ f.hasVersion then .error .version
    else .error .usage

/-- Short options in one argument, without the dash. -/
def readShort (f : Form) (g : Given) : List Char → Except Stop (Given × Option OptionForm)
  | [] => .ok (g, none)
  | c :: rest =>
    match f.options.find? (·.short = some c) with
    | some o =>
      if o.takesValue then
        match rest with
        | [] => .ok (g, some o)
        | '=' :: value => (o.give (String.ofList value) g).map (·, none)
        | value => (o.give (String.ofList value) g).map (·, none)
      else
        match o.give "" g with
        | .ok g => readShort f g rest
        | .error stop => .error stop
    | none =>
      if c = 'h' then .error .help
      else if c = 'V' ∧ f.hasVersion then .error .version
      else .error .usage

/-- Whether an argument begins like an option. -/
def looksLikeOption (a : String) : Bool := a.startsWith "-" && a ≠ "-"

/-- Read one level.  What comes back besides is the command that follows, with its
arguments. -/
def readLevel (f : Form) (g : Given) (waiting : Option OptionForm) :
    List String → Except Stop (Given × Option (String × List String))
  | [] => if waiting.isSome then .error .usage else .ok (g, none)
  | a :: rest =>
    match waiting with
    | some o =>
      if looksLikeOption a then .error .usage
      else
        match o.give a g with
        | .ok g => readLevel f g none rest
        | .error stop => .error stop
    | none =>
      if a = "--" then (rest.foldlM (fun g v => f.giveValue v g) g).map (·, none)
      else if looksLikeOption a then
        let read := match a.toList with
          | '-' :: '-' :: text => f.readLong g text
          | text => f.readShort g text.tail
        match read with
        | .ok (g, waiting) => readLevel f g waiting rest
        | .error stop => .error stop
      else
        match f.commands with
        | some names => if names.contains a then .ok (g, some (a, rest)) else .error .usage
        | none =>
          match f.giveValue a g with
          | .ok g => readLevel f g none rest
          | .error stop => .error stop

/-- Whether the level has all that it needs, from the command line or the environment. -/
def isComplete (f : Form) (environment : List (String × String)) (followed : Bool) (g : Given) :
    Bool :=
  f.required ≤ g.values.length && followed == f.commands.isSome &&
    f.options.all fun o =>
      g.has o.long ||
        match o.setBy.bind fun name => environment.lookup name with
        | some v => o.accepts v
        | none => true

end Form

/-- Help on the command that names lead to, if they lead to one. -/
def helpOn (form : List String → Form) (path : List String) : List String → Stop
  | [] => .help
  | name :: rest =>
    if ((form path).commands.getD []).contains name then helpOn form (path ++ [name]) rest
    else .usage

/-- Read the levels of a command line.  `form` gives the form of the command that a
path of names leads to. -/
def readLevels (form : List String → Form) (environment : List (String × String)) :
    (fuel : Nat) → (path : List String) → List String → Except Stop (List (String × Given))
  | 0, _, _ => .error .usage
  | fuel + 1, path, args =>
    let f := form path
    match f.readLevel .none none args with
    | .error stop => .error stop
    | .ok (g, next) =>
      let inner : Except Stop (List (String × Given)) := match next with
        | none => .ok []
        | some ("help", rest) => .error (helpOn form path rest)
        | some (name, rest) => readLevels form environment fuel (path ++ [name]) rest
      match inner with
      | .error stop => .error stop
      | .ok levels =>
        if f.isComplete environment next.isSome g then
          .ok ((path.getLastD "", g) :: levels)
        else .error .usage

end CommandLine
end Publishing
