import Publishing.Json.Tree

/-
Tables as a TOML document builds them up.

A table can be opened once by a header, and can grow through dotted keys only while
it was made by them.  A table that stands on the way to another one is implicit, and
a header may still open it.
-/

namespace Publishing
namespace Toml

inductive Node where
  | value (v : Json.Tree)
  | table (implicit dotted : Bool) (entries : List (String × Node))
  /-- An array of tables, the last one first. -/
  | tables (items : List (List (String × Node)))
  deriving Inhabited

abbrev Entries := List (String × Node)

/-- Put a node under a key, in the stead of the one that had it. -/
def setEntry (key : String) (n : Node) : Entries → Entries
  | [] => [(key, n)]
  | e :: rest => if e.1 = key then (key, n) :: rest else e :: setEntry key n rest

/-- Change the table that a path leads to.  Tables that are not there are made,
implicit and, if `dotted` says so, by dotted keys.  `f` also learns whether the
table was made by dotted keys. -/
def changeAt (dotted : Bool) (f : Bool → Entries → Option Entries) :
    (path : List String) → (isDotted : Bool) → Entries → Option Entries
  | [], isDotted, es => f isDotted es
  | key :: path, _, es =>
    match es.lookup key with
    | none => do
      let inner ← changeAt dotted f path dotted []
      return setEntry key (.table true dotted inner) es
    | some (.value _) => none
    | some (.tables []) => none
    | some (.tables (last :: before)) => do
      let inner ← changeAt dotted f path false last
      return setEntry key (.tables (inner :: before)) es
    | some (.table implicit wasDotted inner) => do
      if dotted && !implicit then none
      else
        let inner ← changeAt dotted f path wasDotted inner
        return setEntry key (.table implicit wasDotted inner) es

/-- Add a value under a dotted key, given as the path and the last part. -/
def addValue (path : List String) (key : String) (v : Json.Tree) (es : Entries) : Option Entries :=
  changeAt true
    (fun isDotted es =>
      if isDotted = path.isEmpty then none
      else if (es.lookup key).isSome then none
      else some (es ++ [(key, .value v)]))
    path false es

mutual

def Node.toTree : Node → Json.Tree
  | .value v => v
  | .table _ _ es => .object (entriesToMembers es) true
  | .tables items => .array (tablesToItems items []) true

def entriesToMembers : Entries → List (Option String × Json.Tree)
  | [] => []
  | (key, n) :: rest => (some key, n.toTree) :: entriesToMembers rest

def tablesToItems : List Entries → List Json.Tree → List Json.Tree
  | [], sofar => sofar
  | es :: rest, sofar => tablesToItems rest (.object (entriesToMembers es) true :: sofar)

end

/-- A document on its way: the tables that are finished, and the one that the last
header opened. -/
structure Draft where
  root : Entries
  /-- Where the open table belongs, and whether it is one of an array. -/
  path : List String
  isArray : Bool
  current : Entries

def Draft.empty : Draft := ⟨[], [], false, []⟩

def splitLast (path : List String) : List String × String :=
  (path.dropLast, path.getLast?.getD "")

/-- Put the open table where it belongs. -/
def Draft.finish (d : Draft) : Option Entries :=
  if d.path = [] then some d.current
  else
    let (above, key) := splitLast d.path
    changeAt false
      (fun _ es =>
        match d.isArray, es.lookup key with
        | true, none => some (es ++ [(key, .tables [d.current])])
        | true, some (.tables items) => some (setEntry key (.tables (d.current :: items)) es)
        | true, some _ => none
        | false, none => some (es ++ [(key, .table false false d.current)])
        | false, some _ => none)
      above false d.root

/-- Open a table by its header.  What an implicit table holds is taken over. -/
def Draft.openTable (path : List String) (d : Draft) : Option Draft := do
  let root ← d.finish
  let (above, key) := splitLast path
  let kept ← findIn above key root
  let root ← changeAt false (fun _ es => some (es.filter fun e => e.1 ≠ key)) above false root
  return ⟨root, path, false, kept⟩
where
  /-- What the table to be opened holds already. -/
  findIn : List String → String → Entries → Option Entries
    | [], key, es =>
      match es.lookup key with
      | none => some []
      | some (.table true false inner) => some inner
      | some _ => none
    | k :: above, key, es =>
      match es.lookup k with
      | none => some []
      | some (.value _) => none
      | some (.tables []) => none
      | some (.tables (last :: _)) => findIn above key last
      | some (.table _ _ inner) => findIn above key inner

/-- Open a table of an array by its header. -/
def Draft.openArray (path : List String) (d : Draft) : Option Draft := do
  let root ← d.finish
  let (above, key) := splitLast path
  let root ← changeAt false
    (fun _ es =>
      match es.lookup key with
      | none | some (.tables _) => some es
      | some _ => none)
    above false root
  return ⟨root, path, true, []⟩

end Toml
end Publishing
