import Publishing.Proofs.Nesting
import Publishing.Proofs.Preservation
import Publishing.Proofs.Readiness
import Publishing.Proofs.Rejections

/-
A document is saved and loaded again.

What a file store has saved it loads, and it loads nothing but the document that was saved,
stamped with the time.  For this the document must be one that a check passes, with integers
for numbers, and its text must not nest deeper than the reader goes: a member of an object
nests less deep than the object, so the metadata of an entity are three levels up from the
document, and the data of a checkpoint seven.
-/

namespace Publishing

namespace Json

theorem depth_lt_of_mem_object {members : List (String × Json)} {key : String} {v : Json}
    (h : (key, v) ∈ members) : v.depth < (object members).depth := by
  have hle := depthMembers_le_iff.mp (Nat.le_refl (depthMembers members)) _ h
  rw [depth, Nat.add_comm]
  exact Nat.lt_succ_of_le hle

theorem depth_lt_of_mem_array {items : List Json} {v : Json} (h : v ∈ items) :
    v.depth < (array items).depth := by
  have hle : v.depth ≤ depthItems items := by
    induction items with
    | nil => cases h
    | cons x rest ih =>
      rw [depthItems]
      rcases List.mem_cons.mp h with rfl | h
      · exact Nat.le_max_left _ _
      · exact Nat.le_trans (ih h) (Nat.le_max_right _ _)
  rw [depth, Nat.add_comm]
  exact Nat.lt_succ_of_le hle

end Json

theorem Checkpoint.depth_data_lt (c : Checkpoint) : c.data.depth < c.toJson.depth := by
  refine Json.depth_lt_of_mem_object (?_ : ("data", c.data) ∈ _)
  simp

theorem StepRecord.depth_checkpoint_lt {r : StepRecord} {c : Checkpoint} (h : c ∈ r.checkpoints) :
    c.toJson.depth + 1 < r.toJson.depth := by
  have hitem := Json.depth_lt_of_mem_array (List.mem_map_of_mem (f := Checkpoint.toJson) h)
  refine Nat.lt_of_le_of_lt hitem ?_
  refine Json.depth_lt_of_mem_object
    (?_ : ("checkpoints", Json.array (r.checkpoints.map Checkpoint.toJson)) ∈ _)
  exact List.mem_append_right _ List.mem_cons_self

theorem StepTable.depth_get_lt (t : StepTable) (s : Step) :
    (t.get s).toJson.depth < t.toJson.depth := by
  refine Json.depth_lt_of_mem_object (?_ : (s.name, (t.get s).toJson) ∈ _)
  exact List.mem_map_of_mem (f := fun s => (s.name, (t.get s).toJson)) (Step.mem_all s)

namespace Entity

theorem depth_metadata_lt (e : Entity) : e.metadata.depth < e.toJson.depth := by
  refine Json.depth_lt_of_mem_object (?_ : ("metadata", e.metadata) ∈ _)
  simp

theorem depth_steps_lt (e : Entity) : e.steps.toJson.depth < e.toJson.depth := by
  refine Json.depth_lt_of_mem_object (?_ : ("steps", e.steps.toJson) ∈ _)
  simp

theorem depth_data_lt {e : Entity} {s : Step} {c : Checkpoint}
    (h : c ∈ (e.step s).checkpoints) : c.data.depth + 4 < e.toJson.depth := by
  have hdata := c.depth_data_lt
  have hcheckpoint := StepRecord.depth_checkpoint_lt h
  have hrecord : (e.step s).toJson.depth < _ := e.steps.depth_get_lt s
  have hsteps := e.depth_steps_lt
  omega

end Entity

namespace Document

variable {d : Document}

theorem depth_entity_lt {id : String} {e : Entity} (h : d.find? id = some e) :
    e.toJson.depth + 1 < d.toJson.depth := by
  have hmem : (id, e.toJson) ∈ (d.entities.map fun _ e => e.toJson).entries := by
    rw [Keyed.entries_map]
    exact List.mem_map_of_mem (f := fun p => (p.1, p.2.toJson)) (Keyed.find?_eq_some_iff.mp h)
  refine Nat.lt_of_le_of_lt (Json.depth_lt_of_mem_object hmem) ?_
  refine Json.depth_lt_of_mem_object
    (?_ : ("entities", Json.ofKeyed (d.entities.map fun _ e => e.toJson)) ∈ _)
  simp

/-- A text that nests as deep as a reader goes has no value that is too deep. -/
theorem isShallow_of_depth (h : d.toJson.depth ≤ 127) : d.IsShallow := by
  intro id e he
  have hentity := depth_entity_lt he
  refine ⟨?_, fun s c hc => ?_⟩
  · have hmetadata := e.depth_metadata_lt
    omega
  · have hdata := Entity.depth_data_lt hc
    omega

end Document

namespace FileStore

variable {s : FileStore} {now : Timestamp} {d : Document} {fs fs' : FileSystem}

/-- A valid document that fits is loaded as it was saved. -/
theorem load_of_save (hd : d.Fits (·.isExact) (·.isExact)) (hdepth : d.toJson.depth ≤ 127)
    (hnow : now.InRange) (hs : s.save now d fs = (.ok (), fs')) (later : Timestamp) :
    s.load later fs' = .ok (d.stamp now) := by
  have hc := (save_eq_ok.mp hs).2.1
  have hexact := hd.stamp hnow
  have hshallow : (d.stamp now).IsShallow := Document.isShallow_of_depth (d := d) hdepth
  exact load_of_read (read_save hs) (Document.ofText_text_of_isShallow hexact hshallow) hc

/-- A valid document without doubles, whose instants lie in range (all years of four digits
do) and whose text nests no deeper than a reader goes, is kept from being saved by the files
alone.  Once it is saved it is loaded with nothing but the stamp changed, and what was loaded
is saved as the same bytes at the same time. -/
theorem roundTrip_of_check (s : FileStore) (hc : d.check = .ok ())
    (hd : d.Fits (·.isExact) (·.isExact)) (hdepth : d.toJson.depth ≤ 127) (hnow : now.InRange)
    (fs : FileSystem) :
    (∀ e, (s.save now d fs).1 = .error e → ∃ path fault, e = .file path fault) ∧
    (s.readOnly = false → s.IsReady fs → ∃ fs', s.save now d fs = (.ok (), fs')) ∧
    ∀ fs', s.save now d fs = (.ok (), fs') →
      (∀ later, s.load later fs' = .ok (d.stamp now)) ∧
      ∃ fs'', s.save now (d.stamp now) fs' = (.ok (), fs'') ∧
        fs''.read s.path = fs'.read s.path := by
  refine ⟨fun e he => save_error hc he, fun hw hr => save_of_isReady hr hw hc,
    fun fs' hs => ⟨load_of_save hd hdepth hnow hs, ?_⟩⟩
  have hstamped : (d.stamp now).check = .ok () := hc
  obtain ⟨fs'', hs'⟩ : ∃ fs'', s.save now (d.stamp now) fs' = (.ok (), fs'') :=
    save_of_save hs hstamped
  refine ⟨fs'', hs', ?_⟩
  rw [read_save hs', read_save hs]
  rfl

/-- A document with much that has to be escaped, with integers at both ends of what numbers
hold, and with a batch of which the run is not known. -/
def ornate : Document :=
  ((Document.empty (.ofSeconds 0)).insert "a \"b\" \\ \u00e9\n\u0001"
    (Entity.registered (.ofSeconds 0) "a \"b\" \\ \u00e9\n\u0001"
      (.object [("", .array [.number (.int (-9223372036854775808)), .null, .array []]),
        ("\u2028", .object [("k", .number (.int 18446744073709551615))])])).1).addBatch
      ⟨.finalized, .ofSeconds 0, 1, 0, 1, 7, none⟩

theorem fits_ornate : ornate.Fits (·.isExact) (·.isExact) := by
  have hnow : (Timestamp.ofSeconds 0).InRange := by decide +kernel
  refine ((Document.fits_empty hnow).insert _ ?_).addBatch
    ⟨hnow, by decide, by decide, by decide, by decide⟩
  exact (Entity.fits_draft hnow _ (by decide +kernel)).emit hnow _ _ rfl

theorem roundTrip_of_check_ornate : ∃ fs' fs'' : FileSystem,
    atRoot.save (.ofSeconds 0) ornate ⟨.emptyDirectory, [], "/"⟩ = (.ok (), fs') ∧
      (∀ later, atRoot.load later fs' = .ok (ornate.stamp (.ofSeconds 0))) ∧
      atRoot.save (.ofSeconds 0) (ornate.stamp (.ofSeconds 0)) fs' = (.ok (), fs'') ∧
      fs''.read atRoot.path = fs'.read atRoot.path := by
  have hnow : (Timestamp.ofSeconds 0).InRange := by decide +kernel
  obtain ⟨-, hready, hsaved⟩ := roundTrip_of_check atRoot (by decide +kernel) fits_ornate
    (by decide +kernel) hnow ⟨.emptyDirectory, [], "/"⟩
  obtain ⟨fs', hs⟩ := hready rfl ⟨by decide +kernel, ⟨_, rfl⟩, ⟨_, rfl⟩⟩
  obtain ⟨hload, fs'', hs', hsame⟩ := hsaved fs' hs
  exact ⟨fs', fs'', hs, hload, hs', hsame⟩

end FileStore
end Publishing
