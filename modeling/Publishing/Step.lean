import Publishing.Text.Blank

/-
The five stages of the publishing sequence, in the order in which a tracked item
passes them.
-/

namespace Publishing

inductive Step where
  | ingested
  | tested
  | validated
  | published
  | finalized
  deriving DecidableEq, Repr, Inhabited

namespace Step

def all : List Step := [ingested, tested, validated, published, finalized]

def name : Step → String
  | ingested => "ingested"
  | tested => "tested"
  | validated => "validated"
  | published => "published"
  | finalized => "finalized"

/-- Place in the sequence, counted from 0. -/
def index : Step → Nat
  | ingested => 0
  | tested => 1
  | validated => 2
  | published => 3
  | finalized => 4

instance : LT Step := ⟨fun a b => a.index < b.index⟩
instance : LE Step := ⟨fun a b => a.index ≤ b.index⟩
instance (a b : Step) : Decidable (a < b) := inferInstanceAs (Decidable (a.index < b.index))
instance (a b : Step) : Decidable (a ≤ b) := inferInstanceAs (Decidable (a.index ≤ b.index))

def next? : Step → Option Step
  | ingested => some tested
  | tested => some validated
  | validated => some published
  | published => some finalized
  | finalized => none

/-- The steps strictly before `s`. -/
def predecessors (s : Step) : List Step := all.filter (· < s)

/-- `s` and every step after it. -/
def onward (s : Step) : List Step := all.filter (s ≤ ·)

/-- The step that `text` names.  Blanks around the name and the case of ASCII
letters do not matter. -/
def ofName? (text : String) : Option Step :=
  let wanted := Text.lowerAscii (Text.trim text)
  all.find? fun s => s.name == wanted

/-- What is said of a text that names no step. -/
def unknownMessage (text : String) : String :=
  "unknown workflow step '" ++ text ++
    "' (expected one of: ingested, tested, validated, published, finalized)"

theorem mem_all (s : Step) : s ∈ all := by cases s <;> decide

theorem index_inj {a b : Step} (h : a.index = b.index) : a = b := by
  cases a <;> cases b <;> first | rfl | exact absurd h (by decide)

theorem name_inj {a b : Step} (h : a.name = b.name) : a = b := by
  cases a <;> cases b <;> first | rfl | exact absurd h (by decide)

theorem predecessors_append_onward (s : Step) : s.predecessors ++ s.onward = all := by
  cases s <;> decide

theorem mem_predecessors {a s : Step} : a ∈ s.predecessors ↔ a < s := by
  simp [predecessors, mem_all]

theorem mem_onward {a s : Step} : a ∈ s.onward ↔ s ≤ a := by
  simp [onward, mem_all]

end Step
end Publishing
