import Mathlib.Data.List.Forall2
import Publishing.Document.Format
import Publishing.Proofs.Instants
import Publishing.Proofs.Reading

/-
What a document reads as after it was written.

A value that is written and read is the same up to its doubles.  So a document comes back
with all that it is made of, except that the metadata of its entities and the data of its
checkpoints may hold other doubles.
-/

namespace Publishing

namespace Keyed

variable {α : Type u}

/-- An entry under a key beyond all others goes to the end. -/
theorem insertEntry_of_forall_lt {key : String} {l : List (String × α)}
    (h : ∀ e ∈ l, e.1 < key) (value : α) : insertEntry key value l = l ++ [(key, value)] := by
  induction l with
  | nil => rfl
  | cons a rest ih =>
    have ha := h a List.mem_cons_self
    have hne : key ≠ a.1 := by
      rintro rfl
      exact String.lt_irrefl _ ha
    rw [insertEntry, if_neg (String.lt_asymm ha), if_neg hne,
      ih fun e he => h e (List.mem_cons_of_mem _ he)]
    rfl

/-- Ascending entries stay as they are when they are inserted one by one. -/
theorem foldl_insertEntry {l sofar : List (String × α)}
    (h : (sofar ++ l).Pairwise fun a b => a.1 < b.1) :
    l.foldl (fun m e => insertEntry e.1 e.2 m) sofar = sofar ++ l := by
  induction l generalizing sofar with
  | nil => exact (List.append_nil _).symm
  | cons a rest ih =>
    have hlt : ∀ e ∈ sofar, e.1 < a.1 := fun e he =>
      (List.pairwise_append.mp h).2.2 e he a List.mem_cons_self
    rw [List.append_cons] at h ⊢
    rw [List.foldl_cons, insertEntry_of_forall_lt hlt]
    exact ih h

end Keyed

namespace Json

/-- `v'` is what the text of `v` reads as. -/
def ReadsBack (v v' : Json) : Prop := ∃ depth, (Tree.written v).toJson? depth = some v'

mutual

theorem Tree.toJson?_mono {t : Tree} {n m : Nat} {v : Json} (h : t.toJson? n = some v)
    (hnm : n ≤ m) : t.toJson? m = some v := by
  match t, n, m with
  | .null, _, _ | .bool _, _, _ | .number _, _, _ | .string _, _, _ | .cut, _, _ =>
    rw [toJson?] at h ⊢
    exact h
  | .array items closed, 0, _ => cases h
  | .array items closed, n + 1, 0 => exact absurd hnm (Nat.not_succ_le_zero n)
  | .array items closed, n + 1, m + 1 =>
    obtain ⟨hc, l, hl, rfl⟩ := toJson?_array_eq_some.mp h
    exact toJson?_array_eq_some.mpr
      ⟨hc, l, itemsToJson?_mono hl (Nat.le_of_succ_le_succ hnm), rfl⟩
  | .object members closed, 0, _ => cases h
  | .object members closed, n + 1, 0 => exact absurd hnm (Nat.not_succ_le_zero n)
  | .object members closed, n + 1, m + 1 =>
    obtain ⟨hc, l, hl, rfl⟩ := toJson?_object_eq_some.mp h
    exact toJson?_object_eq_some.mpr
      ⟨hc, l, membersToJson?_mono hl (Nat.le_of_succ_le_succ hnm), rfl⟩

theorem Tree.itemsToJson?_mono {ts : List Tree} {n m : Nat} {l : List Json}
    (h : itemsToJson? n ts = some l) (hnm : n ≤ m) : itemsToJson? m ts = some l := by
  match ts with
  | [] => exact h
  | t :: ts =>
    obtain ⟨v, hv, vs, hvs, rfl⟩ := itemsToJson?_cons_eq_some.mp h
    exact itemsToJson?_cons_eq_some.mpr
      ⟨v, toJson?_mono hv hnm, vs, itemsToJson?_mono hvs hnm, rfl⟩

theorem Tree.membersToJson?_mono {ts : List (Option String × Tree)} {n m : Nat}
    {l : List (String × Json)} (h : membersToJson? n ts = some l) (hnm : n ≤ m) :
    membersToJson? m ts = some l := by
  match ts with
  | [] => exact h
  | (k, t) :: ts =>
    obtain ⟨key, hkey, v, hv, vs, hvs, rfl⟩ := membersToJson?_cons_eq_some.mp h
    exact membersToJson?_cons_eq_some.mpr
      ⟨key, hkey, v, toJson?_mono hv hnm, vs, membersToJson?_mono hvs hnm, rfl⟩

end

/-- A text reads as one value at most. -/
theorem ReadsBack.unique {v a b : Json} (ha : v.ReadsBack a) (hb : v.ReadsBack b) : a = b := by
  obtain ⟨n, ha⟩ := ha
  obtain ⟨m, hb⟩ := hb
  have ha' := Tree.toJson?_mono ha (Nat.le_max_left n m)
  have hb' := Tree.toJson?_mono hb (Nat.le_max_right n m)
  exact Option.some.inj (ha'.symm.trans hb')

mutual

/-- Whether a value holds integers of 64 bits as its only numbers, and the members of every
object in ascending order. -/
def isExact : Json → Bool
  | .number (.int i) => -9223372036854775808 ≤ i && i ≤ 18446744073709551615
  | .number (.float _) => false
  | .array items => isExactItems items
  | .object members => decide (members.Pairwise fun a b => a.1 < b.1) && isExactMembers members
  | _ => true

def isExactItems : List Json → Bool
  | [] => true
  | x :: xs => isExact x && isExactItems xs

def isExactMembers : List (String × Json) → Bool
  | [] => true
  | (_, x) :: xs => isExact x && isExactMembers xs

end

theorem isExactItems_iff {items : List Json} : isExactItems items ↔ ∀ x ∈ items, x.isExact := by
  induction items with
  | nil => simp [isExactItems]
  | cons x xs ih => simp [isExactItems, ih]

theorem isExactMembers_iff {members : List (String × Json)} :
    isExactMembers members ↔ ∀ p ∈ members, p.2.isExact := by
  induction members with
  | nil => simp [isExactMembers]
  | cons p rest ih =>
    obtain ⟨k, v⟩ := p
    simp [isExactMembers, ih]

mutual

theorem toJson?_written_of_isExact {v : Json} (hv : v.isExact) {depth : Nat} {v' : Json}
    (h : (Tree.written v).toJson? depth = some v') : v' = v := by
  match v with
  | .null => exact (Option.some.inj h).symm
  | .bool _ => exact (Option.some.inj h).symm
  | .string _ => exact (Option.some.inj h).symm
  | .number (.float _) => cases hv
  | .number (.int i) =>
    simp only [isExact, Bool.and_eq_true, decide_eq_true_eq] at hv
    rw [Tree.written, Tree.toJson?, Number.reread_int_of_fits hv.1 hv.2] at h
    exact (Option.some.inj h).symm
  | .array items =>
    match depth with
    | 0 => cases h
    | depth + 1 =>
      obtain ⟨l, hl, rfl⟩ := Option.map_eq_some_iff.mp h
      rw [itemsToJson?_written_of_isExact hv hl]
  | .object members =>
    match depth with
    | 0 => cases h
    | depth + 1 =>
      simp only [isExact, Bool.and_eq_true, decide_eq_true_eq] at hv
      obtain ⟨l, hl, rfl⟩ := Option.map_eq_some_iff.mp h
      rw [membersToJson?_written_of_isExact hv.2 hl, ofMembers,
        Keyed.foldl_insertEntry (by rw [List.nil_append]; exact hv.1), List.nil_append]

theorem itemsToJson?_written_of_isExact {items : List Json} (hv : isExactItems items)
    {depth : Nat} {l : List Json}
    (h : Tree.itemsToJson? depth (Tree.writtenItems items) = some l) : l = items := by
  match items with
  | [] => exact (Option.some.inj h).symm
  | x :: xs =>
    rw [isExactItems, Bool.and_eq_true] at hv
    rw [Tree.writtenItems] at h
    obtain ⟨v, hx, vs, hxs, rfl⟩ := Tree.itemsToJson?_cons_eq_some.mp h
    rw [toJson?_written_of_isExact hv.1 hx, itemsToJson?_written_of_isExact hv.2 hxs]

theorem membersToJson?_written_of_isExact {members : List (String × Json)}
    (hv : isExactMembers members) {depth : Nat} {l : List (String × Json)}
    (h : Tree.membersToJson? depth (Tree.writtenMembers members) = some l) : l = members := by
  match members with
  | [] => exact (Option.some.inj h).symm
  | (k, x) :: xs =>
    rw [isExactMembers, Bool.and_eq_true] at hv
    rw [Tree.writtenMembers] at h
    obtain ⟨key, hkey, v, hx, vs, hxs, rfl⟩ := Tree.membersToJson?_cons_eq_some.mp h
    obtain rfl := Option.some.inj hkey
    rw [toJson?_written_of_isExact hv.1 hx, membersToJson?_written_of_isExact hv.2 hxs]

end

/-- Without doubles a value reads as itself. -/
theorem ReadsBack.eq_of_isExact {v v' : Json} (h : v.ReadsBack v') (hv : v.isExact) : v' = v := by
  obtain ⟨depth, h⟩ := h
  exact toJson?_written_of_isExact hv h

/-- Whether a value reads as nothing but itself. -/
def IsStable (v : Json) : Prop := ∀ v', v.ReadsBack v' → v' = v

theorem isStable_of_isExact {v : Json} (hv : v.isExact) : v.IsStable :=
  fun _ h => h.eq_of_isExact hv

end Json
end Publishing
