import Publishing.Json.Basic

/-
JSON text as a tree.

A tree keeps what a value loses: the order of members and their repetition, and
the place at which the text stops being JSON.  From that place on nothing is
read: the containers around it stay open, and the tree holds a `cut` where a
value should have begun.  A number or a string can be well formed and still have
no value, a number beyond the doubles and a string with half of a surrogate pair;
such a tree is whole, but has no value.
-/

namespace Publishing
namespace Json

inductive Tree where
  | null
  | bool (value : Bool)
  | number (value : Option Number)
  | string (value : Option String)
  | array (items : List Tree) (closed : Bool)
  | object (members : List (Option String × Tree)) (closed : Bool)
  | cut
  deriving Inhabited

namespace Tree

mutual

/-- Whether the text of this tree was read to its end. -/
def whole : Tree → Bool
  | .array items closed => closed && wholeItems items
  | .object members closed => closed && wholeMembers members
  | .cut => false
  | _ => true

def wholeItems : List Tree → Bool
  | [] => true
  | t :: ts => whole t && wholeItems ts

def wholeMembers : List (Option String × Tree) → Bool
  | [] => true
  | (_, t) :: ts => whole t && wholeMembers ts

end

mutual

/-- The value of a tree that nests at most `depth` levels. -/
def toJson? (depth : Nat) : Tree → Option Json
  | .null => some .null
  | .bool b => some (.bool b)
  | .number n => n.map .number
  | .string s => s.map .string
  | .array items closed =>
    match depth with
    | 0 => none
    | depth + 1 => if closed then (itemsToJson? depth items).map .array else none
  | .object members closed =>
    match depth with
    | 0 => none
    | depth + 1 => if closed then (membersToJson? depth members).map ofMembers else none
  | .cut => none

def itemsToJson? (depth : Nat) : List Tree → Option (List Json)
  | [] => some []
  | t :: ts => do return (← toJson? depth t) :: (← itemsToJson? depth ts)

def membersToJson? (depth : Nat) : List (Option String × Tree) → Option (List (String × Json))
  | [] => some []
  | (k, t) :: ts => do return (← k, ← toJson? depth t) :: (← membersToJson? depth ts)

end

theorem toJson?_array_eq_some {items : List Tree} {closed : Bool} {depth : Nat} {v : Json} :
    (array items closed).toJson? (depth + 1) = some v ↔
      closed ∧ ∃ l, itemsToJson? depth items = some l ∧ .array l = v := by
  rw [toJson?, Option.ite_none_right_eq_some, Option.map_eq_some_iff]

theorem toJson?_object_eq_some {members : List (Option String × Tree)} {closed : Bool}
    {depth : Nat} {v : Json} : (object members closed).toJson? (depth + 1) = some v ↔
      closed ∧ ∃ l, membersToJson? depth members = some l ∧ Json.ofMembers l = v := by
  rw [toJson?, Option.ite_none_right_eq_some, Option.map_eq_some_iff]

theorem itemsToJson?_cons_eq_some {t : Tree} {ts : List Tree} {depth : Nat} {l : List Json} :
    itemsToJson? depth (t :: ts) = some l ↔
      ∃ v, t.toJson? depth = some v ∧ ∃ vs, itemsToJson? depth ts = some vs ∧ v :: vs = l := by
  simp only [itemsToJson?, bind, pure, Option.bind_eq_some_iff, Option.some.injEq]

theorem membersToJson?_cons_eq_some {k : Option String} {t : Tree}
    {ts : List (Option String × Tree)} {depth : Nat} {l : List (String × Json)} :
    membersToJson? depth ((k, t) :: ts) = some l ↔
      ∃ key, k = some key ∧ ∃ v, t.toJson? depth = some v ∧
        ∃ vs, membersToJson? depth ts = some vs ∧ (key, v) :: vs = l := by
  simp only [membersToJson?, bind, pure, Option.bind_eq_some_iff, Option.some.injEq]

mutual

def ofJson : Json → Tree
  | .null => .null
  | .bool b => .bool b
  | .number n => .number (some n)
  | .string s => .string (some s)
  | .array items => .array (ofItems items) true
  | .object members => .object (ofMembers members) true

def ofItems : List Json → List Tree
  | [] => []
  | x :: xs => ofJson x :: ofItems xs

def ofMembers : List (String × Json) → List (Option String × Tree)
  | [] => []
  | (k, x) :: xs => (some k, ofJson x) :: ofMembers xs

end

end Tree

end Json
end Publishing
