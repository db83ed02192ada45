import Publishing.Proofs.Records

/-
Documents as maps from ids to entities.

Whatever happens to a document happens to its entities one by one, so each change of
a document is given here as a change of the entity under each id.
-/

namespace Publishing

theorem bind_eq_ok {ε α β : Type} {x : Except ε α} {f : α → Except ε β} {b : β} :
    x >>= f = .ok b ↔ ∃ a, x = .ok a ∧ f a = .ok b := by
  cases x with
  | error e => exact ⟨nofun, nofun⟩
  | ok a => exact ⟨fun h => ⟨a, rfl, h⟩, fun ⟨_, ha, h⟩ => Except.ok.inj ha ▸ h⟩

theorem throwIf_eq_ok {ε α β : Type} {c : Prop} [Decidable c] {v : ε} {f : α → Except ε β}
    {x : Except ε β} {b : β} :
    (if c then (throw v >>= f) else x) = .ok b ↔ ¬ c ∧ x = .ok b := by
  by_cases hc : c
  · rw [if_pos hc]
    exact ⟨nofun, fun h => absurd hc h.1⟩
  · rw [if_neg hc]
    exact ⟨fun h => ⟨hc, h⟩, fun h => h.2⟩

namespace Keyed

variable {α : Type u} {β : Type v}

theorem lookup_eq_some_iff {l : List (String × α)} (h : l.Pairwise fun a b => a.1 < b.1)
    {key : String} {value : α} : l.lookup key = some value ↔ (key, value) ∈ l := by
  induction l with
  | nil => simp
  | cons a rest ih =>
    have hp := List.pairwise_cons.mp h
    rw [List.lookup_cons, List.mem_cons]
    by_cases hk : key = a.1
    · subst hk
      simp only [beq_self_eq_true, Option.some.injEq]
      constructor
      · rintro rfl
        exact Or.inl rfl
      · rintro (heq | hmem)
        · rw [← heq]
        · exact absurd (hp.1 _ hmem) (String.lt_irrefl _)
    · have hne : (key == a.1) = false := by simpa using hk
      rw [hne, ih hp.2]
      exact ⟨Or.inr, fun h => h.resolve_left fun heq => hk (congrArg Prod.fst heq)⟩

theorem find?_eq_some_iff {m : Keyed α} {key : String} {value : α} :
    m.find? key = some value ↔ (key, value) ∈ m.entries :=
  lookup_eq_some_iff m.ascending

theorem mem_values {m : Keyed α} {value : α} :
    value ∈ m.values ↔ ∃ key, m.find? key = some value := by
  simp only [values, List.mem_map, find?_eq_some_iff]
  exact ⟨fun ⟨e, he, hv⟩ => ⟨e.1, by rw [← hv]; exact he⟩, fun ⟨key, h⟩ => ⟨_, h, rfl⟩⟩

theorem map_congr {m : Keyed α} {f g : String → α → β}
    (h : ∀ key value, m.find? key = some value → f key value = g key value) :
    m.map f = m.map g := by
  apply ext
  rw [entries_map, entries_map]
  refine List.map_congr_left fun e he => ?_
  rw [h e.1 e.2 (find?_eq_some_iff.mpr he)]

theorem map_map {γ : Type w} (f : String → α → β) (g : String → β → γ) (m : Keyed α) :
    (m.map f).map g = m.map fun k v => g k (f k v) := by
  apply ext
  simp [List.map_map, Function.comp_def]

theorem map_id (m : Keyed α) : (m.map fun _ v => v) = m := by
  apply ext
  simp

theorem nodup_keys (m : Keyed α) : m.keys.Nodup := by
  rw [keys, List.nodup_iff_pairwise_ne, List.pairwise_map]
  refine m.ascending.imp fun {a b} hab heq => ?_
  rw [heq] at hab
  exact String.lt_irrefl _ hab

end Keyed

namespace Document

/-- Change every entity, keeping its key. -/
def mapEntities (f : String → Entity → Entity) (d : Document) : Document :=
  { d with entities := d.entities.map f }

theorem find?_mapEntities (f : String → Entity → Entity) (d : Document) (id : String) :
    (d.mapEntities f).find? id = (d.find? id).map (f id) :=
  Keyed.find?_map f d.entities id

theorem mapEntities_congr {d : Document} {f g : String → Entity → Entity}
    (h : ∀ id e, d.find? id = some e → f id e = g id e) :
    d.mapEntities f = d.mapEntities g := by
  rw [mapEntities, mapEntities, Keyed.map_congr h]

theorem mapEntities_mapEntities (f g : String → Entity → Entity) (d : Document) :
    (d.mapEntities f).mapEntities g = d.mapEntities fun id e => g id (f id e) := by
  simp only [mapEntities, Keyed.map_map]

theorem mapEntities_id (d : Document) : (d.mapEntities fun _ e => e) = d := by
  rw [mapEntities, Keyed.map_id]

theorem replace_eq (d : Document) (id : String) (e : Entity) :
    d.replace id e = d.mapEntities fun k v => if k = id then e else v := rfl

theorem find?_replace (d : Document) (id : String) (e : Entity) (id' : String) :
    (d.replace id e).find? id' =
      if id' = id then (d.find? id').map fun _ => e else d.find? id' := by
  rw [replace_eq, find?_mapEntities]
  split
  · rfl
  · exact Option.map_id' ..

theorem find?_insert (d : Document) (id : String) (e : Entity) (id' : String) :
    (d.insert id e).find? id' = if id' = id then some e else d.find? id' := by
  split
  · next h => rw [h]; exact Keyed.find?_insert_self ..
  · next h => exact Keyed.find?_insert_of_ne h ..

@[simp] theorem find?_empty (now : Timestamp) (id : String) : (empty now).find? id = none := rfl

theorem contains_iff {d : Document} {id : String} : d.contains id ↔ ∃ e, d.find? id = some e :=
  Option.isSome_iff_exists

theorem get_eq_ok {d : Document} {id : String} {e : Entity} :
    d.get id = .ok e ↔ d.find? id = some e := by
  unfold get
  split
  · next h => rw [h]; simp
  · next h => rw [h]; simp

theorem mem_all {d : Document} {e : Entity} : e ∈ d.all ↔ ∃ id, d.find? id = some e :=
  Keyed.mem_values

/-- What holds of every entity. -/
def Every (P : Entity → Prop) (d : Document) : Prop := ∀ id e, d.find? id = some e → P e

instance (P : Entity → Prop) [DecidablePred P] (d : Document) : Decidable (d.Every P) :=
  decidable_of_iff (∀ p ∈ d.entities.entries, P p.2)
    ⟨fun h id e he => h (id, e) (Keyed.find?_eq_some_iff.mp he),
      fun h p hp => h p.1 p.2 (Keyed.find?_eq_some_iff.mpr hp)⟩

theorem Every.mapEntities {P Q : Entity → Prop} {d : Document} (h : d.Every P)
    {f : String → Entity → Entity} (hf : ∀ id e, d.find? id = some e → P e → Q (f id e)) :
    (d.mapEntities f).Every Q := by
  intro id e he
  rw [find?_mapEntities] at he
  obtain ⟨e₀, he₀, rfl⟩ := Option.map_eq_some_iff.mp he
  exact hf id e₀ he₀ (h id e₀ he₀)

/-- Both documents keep entities under the same ids, and those under one id are
related. -/
def Related (R : Entity → Entity → Prop) (d d' : Document) : Prop :=
  ∀ id, Option.Rel R (d.find? id) (d'.find? id)

theorem related_mapEntities {R : Entity → Entity → Prop} {d : Document}
    {f : String → Entity → Entity} (h : ∀ id e, d.find? id = some e → R e (f id e)) :
    d.Related R (d.mapEntities f) := by
  intro id
  rw [find?_mapEntities]
  cases he : d.find? id with
  | none => exact .none
  | some e => exact .some (h id e he)

theorem Related.refl {R : Entity → Entity → Prop} (hR : ∀ e, R e e) (d : Document) :
    d.Related R d := by
  intro id
  cases d.find? id with
  | none => exact .none
  | some e => exact .some (hR e)

/-- At one id both documents are without an entity, or they have two that are related. -/
theorem Related.cases {R : Entity → Entity → Prop} {d d' : Document} (h : d.Related R d')
    (id : String) : (d.find? id = none ∧ d'.find? id = none) ∨
      ∃ e e', d.find? id = some e ∧ d'.find? id = some e' ∧ R e e' := by
  have hid := h id
  revert hid
  generalize d.find? id = a
  generalize d'.find? id = b
  rintro (hR | _)
  · exact Or.inr ⟨_, _, rfl, rfl, hR⟩
  · exact Or.inl ⟨rfl, rfl⟩

theorem Related.mono_of_find? {R S : Entity → Entity → Prop} {d d' : Document}
    (h : d.Related R d')
    (hRS : ∀ id a b, d.find? id = some a → d'.find? id = some b → R a b → S a b) :
    d.Related S d' := by
  intro id
  obtain ⟨hn, hn'⟩ | ⟨e, e', he, he', hR⟩ := h.cases id
  · rw [hn, hn']
    exact .none
  · rw [he, he']
    exact .some (hRS id e e' he he' hR)

theorem Related.mono {R S : Entity → Entity → Prop} {d d' : Document} (h : d.Related R d')
    (hRS : ∀ {a b}, R a b → S a b) : d.Related S d' :=
  h.mono_of_find? fun _ _ _ _ _ => hRS

theorem Related.symm {R : Entity → Entity → Prop} (hR : ∀ {a b}, R a b → R b a)
    {d d' : Document} (h : d.Related R d') : d'.Related R d := by
  intro id
  obtain ⟨hn, hn'⟩ | ⟨e, e', he, he', hrel⟩ := h.cases id
  · rw [hn, hn']
    exact .none
  · rw [he, he']
    exact .some (hR hrel)

/-- The partner on the left of an entity on the right. -/
theorem Related.left {R : Entity → Entity → Prop} {d d' : Document} (h : d.Related R d')
    {id : String} {e' : Entity} (he : d'.find? id = some e') :
    ∃ e, d.find? id = some e ∧ R e e' := by
  obtain ⟨-, hn⟩ | ⟨e, e₁, hfind, hfind', hR⟩ := h.cases id
  · cases hn.symm.trans he
  · cases hfind'.symm.trans he
    exact ⟨e, hfind, hR⟩

theorem Related.right {R : Entity → Entity → Prop} {d d' : Document} (h : d.Related R d')
    {id : String} {e : Entity} (he : d.find? id = some e) :
    ∃ e', d'.find? id = some e' ∧ R e e' := by
  obtain ⟨hn, -⟩ | ⟨e₁, e', hfind, hfind', hR⟩ := h.cases id
  · cases hn.symm.trans he
  · cases hfind.symm.trans he
    exact ⟨e', hfind', hR⟩

theorem Related.trans {R S T : Entity → Entity → Prop} {d d' d'' : Document}
    (h : d.Related R d') (h' : d'.Related S d'') (hRS : ∀ {a b c}, R a b → S b c → T a c) :
    d.Related T d'' := by
  intro id
  obtain ⟨hn, hn'⟩ | ⟨e', e'', he', he'', hS⟩ := h'.cases id
  · obtain ⟨hn₀, -⟩ | ⟨e, e', -, he', -⟩ := h.cases id
    · rw [hn₀, hn']
      exact .none
    · cases hn.symm.trans he'
  · obtain ⟨e, he, hR⟩ := h.left he'
    rw [he, he'']
    exact .some (hRS hR hS)

/-- Every entity is kept under its own id. -/
def IsFiled (d : Document) : Prop := ∀ id e, d.find? id = some e → e.id = id

theorem IsFiled.mapEntities {d : Document} (h : d.IsFiled) {f : String → Entity → Entity}
    (hf : ∀ id e, d.find? id = some e → (f id e).id = e.id) : (d.mapEntities f).IsFiled := by
  intro id e he
  rw [find?_mapEntities] at he
  obtain ⟨e₀, he₀, rfl⟩ := Option.map_eq_some_iff.mp he
  rw [hf id e₀ he₀]
  exact h id e₀ he₀

theorem ids_eq_keys {d : Document} (h : d.IsFiled) : d.all.map (·.id) = d.entities.keys := by
  rw [all, Keyed.values, Keyed.keys, List.map_map]
  refine List.map_congr_left fun e he => ?_
  exact h e.1 e.2 (Keyed.find?_eq_some_iff.mpr he)

/-- Ids that a test picks out come once each. -/
theorem nodup_filter_ids {d : Document} (h : d.IsFiled) (p : Entity → Bool) :
    ((d.all.filter p).map (·.id)).Nodup := by
  have hall : (d.all.map (·.id)).Nodup := by
    rw [ids_eq_keys h]
    exact Keyed.nodup_keys _
  exact hall.sublist (List.filter_sublist.map _)

theorem mem_filter_ids {d : Document} (h : d.IsFiled) {p : Entity → Bool} {id : String} :
    id ∈ (d.all.filter p).map (·.id) ↔ ∃ e, d.find? id = some e ∧ p e := by
  simp only [List.mem_map, List.mem_filter, mem_all]
  constructor
  · rintro ⟨e, ⟨⟨id', he⟩, hp⟩, rfl⟩
    obtain rfl := h id' e he
    exact ⟨e, he, hp⟩
  · rintro ⟨e, he, hp⟩
    exact ⟨e, ⟨⟨id, he⟩, hp⟩, h id e he⟩

/-! ## What a check says -/

theorem isFiled_of_checkEntries {l : List (String × Entity)} (h : checkEntries l = .ok ()) :
    ∀ p ∈ l, p.1 = p.2.id ∧ p.2.check = .ok () := by
  induction l with
  | nil => simp
  | cons a rest ih =>
    obtain ⟨key, e⟩ := a
    unfold checkEntries at h
    by_cases hk : key = e.id
    · rw [if_neg (by simpa using hk)] at h
      cases hc : e.check with
      | error v => rw [hc] at h; cases h
      | ok u =>
        rw [hc] at h
        intro p hp
        rcases List.mem_cons.mp hp with rfl | hp
        · exact ⟨hk, hc⟩
        · exact ih h p hp
    · rw [if_pos hk] at h
      cases h

theorem checkEntries_of_check {d : Document} (h : d.check = .ok ()) :
    checkEntries d.entities.entries = .ok () := by
  unfold check at h
  split at h
  · cases h
  · exact h

/-- A document that passes the check keeps every entity under its own id. -/
theorem isFiled_of_check {d : Document} (h : d.check = .ok ()) : d.IsFiled := by
  intro id e he
  exact (isFiled_of_checkEntries (checkEntries_of_check h) (id, e)
    (Keyed.find?_eq_some_iff.mp he)).1.symm

end Document
end Publishing
