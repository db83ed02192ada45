/-
Maps whose keys are names.  The entries are a list in strictly ascending order
of the names, so a map has one representation and two maps are equal when they
answer alike.  Names compare by code point, which is also the order of their
UTF-8 bytes.
-/

namespace Publishing

structure Keyed (α : Type u) where
  entries : List (String × α)
  ascending : entries.Pairwise fun a b => a.1 < b.1
  deriving DecidableEq

namespace Keyed

variable {α : Type u} {β : Type v}

/-- Place `value` under `key` in a list of entries in ascending order, in the
stead of the value that `key` had. -/
def insertEntry (key : String) (value : α) : List (String × α) → List (String × α)
  | [] => [(key, value)]
  | e :: rest =>
    if key < e.1 then (key, value) :: e :: rest
    else if key = e.1 then (key, value) :: rest
    else e :: insertEntry key value rest

theorem mem_insertEntry {key : String} {value : α} {e : String × α} {l : List (String × α)}
    (h : e ∈ insertEntry key value l) : e = (key, value) ∨ e ∈ l := by
  induction l with
  | nil => simpa [insertEntry] using h
  | cons a rest ih =>
    unfold insertEntry at h
    split at h
    · simpa using h
    · split at h
      · rcases List.mem_cons.mp h with h | h
        · exact .inl h
        · exact .inr (List.mem_cons_of_mem _ h)
      · rcases List.mem_cons.mp h with h | h
        · exact .inr (h ▸ List.mem_cons_self)
        · exact (ih h).imp id (List.mem_cons_of_mem _)

theorem pairwise_insertEntry {key : String} {value : α} {l : List (String × α)}
    (h : l.Pairwise fun a b => a.1 < b.1) :
    (insertEntry key value l).Pairwise fun a b => a.1 < b.1 := by
  induction l with
  | nil => simp [insertEntry]
  | cons a rest ih =>
    have hr := List.pairwise_cons.mp h
    unfold insertEntry
    split
    · rename_i hlt
      refine List.pairwise_cons.mpr ⟨fun b hb => ?_, h⟩
      rcases List.mem_cons.mp hb with rfl | hb
      · exact hlt
      · exact String.lt_trans hlt (hr.1 b hb)
    · split
      · rename_i heq
        exact List.pairwise_cons.mpr ⟨fun b hb => heq ▸ hr.1 b hb, hr.2⟩
      · rename_i hlt hne
        refine List.pairwise_cons.mpr ⟨fun b hb => ?_, ih hr.2⟩
        rcases mem_insertEntry hb with rfl | hb
        · exact Std.lt_of_le_of_ne (Std.not_lt.mp hlt) (Ne.symm hne)
        · exact hr.1 b hb

def empty : Keyed α := ⟨[], .nil⟩

instance : Inhabited (Keyed α) := ⟨empty⟩

def insert (m : Keyed α) (key : String) (value : α) : Keyed α :=
  ⟨insertEntry key value m.entries, pairwise_insertEntry m.ascending⟩

/-- Of several entries with one key the last wins. -/
def ofList (l : List (String × α)) : Keyed α :=
  l.foldl (fun m e => m.insert e.1 e.2) empty

def find? (m : Keyed α) (key : String) : Option α := m.entries.lookup key

def contains (m : Keyed α) (key : String) : Bool := (m.find? key).isSome

def keys (m : Keyed α) : List String := m.entries.map (·.1)

def values (m : Keyed α) : List α := m.entries.map (·.2)

def size (m : Keyed α) : Nat := m.entries.length

def isEmpty (m : Keyed α) : Bool := m.entries.isEmpty

/-- Change every value, keeping its key. -/
def map (f : String → α → β) (m : Keyed α) : Keyed β where
  entries := m.entries.map fun e => (e.1, f e.1 e.2)
  ascending := by
    rw [List.pairwise_map]
    exact m.ascending

/-- Change the value under `key`, if there is one. -/
def modify (m : Keyed α) (key : String) (f : α → α) : Keyed α :=
  m.map fun k v => if k = key then f v else v

theorem ext {m n : Keyed α} (h : m.entries = n.entries) : m = n := by
  cases m; cases n; simpa using h

@[simp] theorem entries_map (f : String → α → β) (m : Keyed α) :
    (m.map f).entries = m.entries.map fun e => (e.1, f e.1 e.2) := rfl

@[simp] theorem keys_map (f : String → α → β) (m : Keyed α) : (m.map f).keys = m.keys := by
  simp [keys, List.map_map, Function.comp_def]

theorem keys_modify (m : Keyed α) (key : String) (f : α → α) :
    (m.modify key f).keys = m.keys := keys_map _ m

theorem lookup_insertEntry_self (key : String) (value : α) (l : List (String × α)) :
    (insertEntry key value l).lookup key = some value := by
  induction l with
  | nil => simp [insertEntry]
  | cons a rest ih =>
    unfold insertEntry
    split
    · simp
    · split
      · simp
      · rename_i hne
        have : (key == a.1) = false := by simpa using hne
        rw [List.lookup_cons, this]
        exact ih

theorem lookup_insertEntry_of_ne {key other : String} (h : other ≠ key) (value : α)
    (l : List (String × α)) : (insertEntry key value l).lookup other = l.lookup other := by
  have hb : (other == key) = false := by simpa using h
  induction l with
  | nil => simp [insertEntry, h]
  | cons a rest ih =>
    unfold insertEntry
    split
    · rw [List.lookup_cons, hb]
    · split
      · rename_i heq
        rw [List.lookup_cons, List.lookup_cons, hb, ← heq, hb]
      · rw [List.lookup_cons, List.lookup_cons, ih]

@[simp] theorem find?_insert_self (m : Keyed α) (key : String) (value : α) :
    (m.insert key value).find? key = some value := lookup_insertEntry_self _ _ _

theorem find?_insert_of_ne {key other : String} (h : other ≠ key) (m : Keyed α) (value : α) :
    (m.insert key value).find? other = m.find? other := lookup_insertEntry_of_ne h _ _

theorem find?_map (f : String → α → β) (m : Keyed α) (key : String) :
    (m.map f).find? key = (m.find? key).map (f key) := by
  show (m.entries.map fun e => (e.1, f e.1 e.2)).lookup key = (m.entries.lookup key).map (f key)
  induction m.entries with
  | nil => rfl
  | cons a rest ih =>
    rw [List.map_cons, List.lookup_cons, List.lookup_cons, ih]
    cases h : key == a.1 with
    | false => rfl
    | true => rw [beq_iff_eq.mp h]; rfl

end Keyed
end Publishing
