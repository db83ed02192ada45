import Publishing.Json.Printer
import Publishing.Json.Reader
import Publishing.Text.Quoted

/-
Typed values from JSON, with the first fault that a reader meets.

A reader goes through a text from its start.  A fault of the text itself is
`malformed`; every other fault is one of the data.  A missing field is noticed
when its object ends, a repeated one when its key comes again.  So each fault in
a record has a place, the number of members read before it, and the fault with
the least place is the one reported.
-/

namespace Publishing
namespace Json

/-- A value as a fault describes it. -/
inductive Found where
  | null
  | bool (value : Bool)
  | number (value : Number)
  | string (value : String)
  | sequence
  | map
  deriving DecidableEq

def Found.describe : Found → String
  | .null => "null"
  | .bool b => "boolean `" ++ (if b then "true" else "false") ++ "`"
  | .number (.int i) => "integer `" ++ String.ofList (renderInt i) ++ "`"
  | .number (.float x) => "floating point `" ++ String.ofList (renderFloat x) ++ "`"
  | .string s => "string " ++ Text.quote s
  | .sequence => "sequence"
  | .map => "map"

inductive Fault where
  /-- The text is not JSON, or nests too deep. -/
  | malformed
  | missingField (name : String)
  | duplicateField (name : String)
  | unknownVariant (name : String) (expected : List String)
  | invalidType (found : Found) (expected : String)
  | invalidValue (found : Found) (expected : String)
  | invalidLength (length : Nat) (expected : String)
  /-- A text that does not have the form of an instant or of a run id. -/
  | invalidText
  deriving DecidableEq

def Fault.message : Fault → String
  | .malformed => "<syntax>"
  | .missingField name => "missing field `" ++ name ++ "`"
  | .duplicateField name => "duplicate field `" ++ name ++ "`"
  | .unknownVariant name expected =>
    "unknown variant `" ++ name ++ "`, expected one of " ++
      ", ".intercalate (expected.map fun e => "`" ++ e ++ "`")
  | .invalidType found expected => "invalid type: " ++ found.describe ++ ", expected " ++ expected
  | .invalidValue found expected =>
    "invalid value: " ++ found.describe ++ ", expected " ++ expected
  | .invalidLength length expected =>
    "invalid length " ++ toString length ++ ", expected " ++ expected
  | .invalidText => "<custom>"

/-- Where a tree comes from. -/
inductive Source where
  /-- A text in JSON. -/
  | text
  /-- A value in memory. -/
  | value
  /-- A table of a configuration file, whose sequences may be longer than a
  record read from them. -/
  | table
  deriving DecidableEq

structure Setting where
  source : Source
  /-- The levels of arrays and objects that may still be entered. -/
  depth : Nat

abbrev Decoder (α : Type) := Setting → Tree → Except Fault α

/-- The fault of a tree that stands where something else was expected. -/
def Tree.misfit (expected : String) : Tree → Fault
  | .null => .invalidType .null expected
  | .bool b => .invalidType (.bool b) expected
  | .number (some n) => .invalidType (.number n) expected
  | .string (some s) => .invalidType (.string s) expected
  | .array _ _ => .invalidType .sequence expected
  | .object _ _ => .invalidType .map expected
  | .number none | .string none | .cut => .malformed

/-- Go one level down. -/
def Setting.enter (s : Setting) (k : Setting → Except Fault α) : Except Fault α :=
  match s.depth with
  | 0 => .error .malformed
  | depth + 1 => k { s with depth := depth }

namespace Decoder

variable {α β : Type}

def string : Decoder String
  | _, .string (some s) => .ok s
  | _, t => .error (t.misfit "a string")

def bool : Decoder Bool
  | _, .bool b => .ok b
  | _, t => .error (t.misfit "a boolean")

/-- A natural number below `bound`, of the kind that messages call `name`. -/
def natural (name : String) (bound : Nat) : Decoder Nat
  | _, .number (some (.int i)) =>
    if 0 ≤ i ∧ i < bound then .ok i.toNat else .error (.invalidValue (.number (.int i)) name)
  | _, t => .error (t.misfit name)

def u32 : Decoder Nat := natural "u32" (Nat.pow 2 32)

def u64 : Decoder Nat := natural "u64" (Nat.pow 2 64)

def usize : Decoder Nat := natural "usize" (Nat.pow 2 64)

/-- A text with a form of its own. -/
def parsed (expected : String) (parse : String → Option α) : Decoder α
  | _, .string (some s) =>
    match parse s with
    | some a => .ok a
    | none => .error .invalidText
  | _, t => .error (t.misfit expected)

def json : Decoder Json
  | s, t =>
    match t.toJson? s.depth with
    | some v => .ok v
    | none => .error .malformed

/-- `null` for nothing. -/
def nullable (d : Decoder α) : Decoder (Option α)
  | _, .null => .ok none
  | s, t => (d s t).map some

def listItems (d : Decoder α) (s : Setting) (closed : Bool) : List Tree → Except Fault (List α)
  | [] => if closed then .ok [] else .error .malformed
  | t :: ts => do
    let a ← d s t
    let rest ← listItems d s closed ts
    return a :: rest

def list (d : Decoder α) : Decoder (List α)
  | s, .array items closed => s.enter fun s => listItems d s closed items
  | _, t => .error (t.misfit "a sequence")

def keyedMembers (d : Decoder α) (s : Setting) (closed : Bool) (sofar : Keyed α) :
    List (Option String × Tree) → Except Fault (Keyed α)
  | [] => if closed then .ok sofar else .error .malformed
  | (none, _) :: _ => .error .malformed
  | (some k, t) :: ts => do
    let a ← d s t
    keyedMembers d s closed (sofar.insert k a) ts

/-- An object used as a map. -/
def keyed (d : Decoder α) : Decoder (Keyed α)
  | s, .object members closed => s.enter fun s => keyedMembers d s closed .empty members
  | _, t => .error (t.misfit "a map")

/-! ## Choices -/

def choose (choices : List (String × α)) (name : String) : Except Fault α :=
  match choices.lookup name with
  | some a => .ok a
  | none => .error (.unknownVariant name (choices.map (·.1)))

/-- One of several names, written as a text or as an object with the name as its
only key and `null` as its value.  Of a value in memory the number of keys is looked at
first. -/
def variant (choices : List (String × α)) : Decoder α
  | _, .string (some s) => choose choices s
  | s, .object ((some k, t) :: more) closed => s.enter fun s => do
    if s.source ≠ .text ∧ more ≠ [] then throw (.invalidValue .map "map with a single key")
    let a ← choose choices k
    match t, more, closed with
    | .null, [], true => return a
    | .null, _, _ => throw .malformed
    | t, _, _ => throw (t.misfit "unit")
  | s, t =>
    match s.source, t with
    | .text, _ => .error .malformed
    | _, .object _ _ => .error (.invalidValue .map "map with a single key")
    | _, t => .error (t.misfit "string or map")

/-! ## Records -/

/-- A result, or the least place of a fault and that fault. -/
inductive Gather (α : Type) where
  | got (value : α)
  | fault (place : Nat) (fault : Fault)

namespace Gather

/-- Of two faults the one with the lesser place remains, of two at one place the
first. -/
def seq (f : Gather (α → β)) (x : Unit → Gather α) : Gather β :=
  match f, x () with
  | .got f, .got a => .got (f a)
  | .got _, .fault p e => .fault p e
  | .fault p e, .got _ => .fault p e
  | .fault p e, .fault q e' => if q < p then .fault q e' else .fault p e

instance : Applicative Gather where
  pure := .got
  seq := seq

def ofExcept (place : Nat) : Except Fault α → Gather α
  | .ok a => .got a
  | .error e => .fault place e

def toExcept : Gather α → Except Fault α
  | .got a => .ok a
  | .fault _ e => .error e

end Gather

/-- The fields of a record, by name, as they are found in an object or in an
array that lists them in order. -/
structure Fields where
  setting : Setting
  find? : String → Option (Nat × Tree)
  /-- What is reported of a field that is not there. -/
  lacking : String → Nat × Fault
  /-- Whether a field with a default may be left out. -/
  optional : Bool
  /-- Whether a field that may be null may be left out. -/
  named : Bool

def Fields.required (fs : Fields) (name : String) (d : Decoder α) : Gather α :=
  match fs.find? name with
  | some (place, t) => Gather.ofExcept place (d fs.setting t)
  | none => let (place, e) := fs.lacking name; .fault place e

/-- A field with a default. -/
def Fields.default (fs : Fields) (name : String) (value : α) (d : Decoder α) : Gather α :=
  if (fs.find? name).isNone && fs.optional then .got value else fs.required name d

/-- A field that may be null. -/
def Fields.nullable (fs : Fields) (name : String) (d : Decoder α) : Gather (Option α) :=
  if (fs.find? name).isNone && fs.named then .got none else fs.required name d.nullable

/-- The place of the first member with this key. -/
def findMember? (name : String) (place : Nat) :
    List (Option String × Tree) → Option (Nat × Tree)
  | [] => none
  | (k, t) :: rest => if k = some name then some (place, t) else findMember? name (place + 1) rest

/-- The first fault that lies in no known field: a key without a text, a known
key that came before, an unknown member that is not whole, or an open end. -/
def scanMembers (names seen : List String) (place : Nat) (closed : Bool) :
    List (Option String × Tree) → Gather Unit
  | [] => if closed then .got () else .fault place .malformed
  | (none, _) :: _ => .fault place .malformed
  | (some k, t) :: rest =>
    if k ∈ names then
      if k ∈ seen then .fault place (.duplicateField k)
      else scanMembers names (k :: seen) (place + 1) closed rest
    else if t.whole then scanMembers names seen (place + 1) closed rest
    else .fault place .malformed

def ofMembers (setting : Setting) (members : List (Option String × Tree)) : Fields where
  setting := setting
  find? name := findMember? name 0 members
  lacking name := (members.length + 1, .missingField name)
  optional := true
  named := true

def expectedFields (name : String) (count : Nat) : String :=
  "struct " ++ name ++ " with " ++ toString count ++ " elements"

def ofItems (name : String) (names : List String) (setting : Setting) (items : List Tree)
    (closed : Bool) : Fields where
  setting := setting
  find? field := let i := names.idxOf field; items[i]?.map fun t => (i, t)
  lacking _ :=
    (items.length,
      if closed then .invalidLength items.length (expectedFields name names.length)
      else .malformed)
  optional := closed
  named := false

/-- What is wrong after the last field of a record that was read from a
sequence. -/
def scanItems (names : List String) (source : Source) (items : List Tree) (closed : Bool) :
    Gather Unit :=
  if items.length ≤ names.length then
    if closed then .got () else .fault items.length .malformed
  else
    match source with
    | .text => .fault names.length .malformed
    | .value =>
      .fault names.length (.invalidLength items.length "fewer elements in array")
    | .table => .got ()

/-- A record with these fields, from an object, or from an array of its fields
in order. -/
def record (name : String) (names : List String) (build : Fields → Gather α) : Decoder α
  | s, .object members closed => s.enter fun s =>
    Gather.toExcept ((fun _ a => a) <$> scanMembers names [] 0 closed members <*>
      build (ofMembers s members))
  | s, .array items closed => s.enter fun s =>
    Gather.toExcept ((fun _ a => a) <$> scanItems names s.source items closed <*>
      build (ofItems name names s items closed))
  | _, t => .error (t.misfit ("struct " ++ name))

/-! ## Whole texts and values -/

/-- Read a whole text. -/
def fromText (d : Decoder α) (text : String) : Except Fault α := do
  let (t, ended) := Tree.ofText text
  let a ← d ⟨.text, greatestDepth⟩ t
  if ended then return a else throw .malformed

/-- Read a value in memory, where nothing limits the depth. -/
def fromValue (d : Decoder α) (v : Json) : Except Fault α := d ⟨.value, v.depth⟩ (.ofJson v)

end Decoder
end Json
end Publishing
