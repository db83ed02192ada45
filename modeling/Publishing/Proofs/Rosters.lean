import Publishing.Proofs.Attempts
import Publishing.Proofs.Isolation

/-
Which entities a batch is made of.

The batch at a step is made of all entities that wait there with attempts left.  Its events
name no entity before the first call begins, but what was saved before the batch says who they
are: a run changes no other entities in between than those that have a running step or no
attempts left, and these wait neither before nor after.
-/

namespace Publishing

namespace Document

variable {d d' d'' : Document} {s : Step} {id : String}

/-- Whether the entity under `id` waits at `s` with attempts left. -/
def IsDue (d : Document) (s : Step) (id : String) : Prop :=
  ∃ e, d.find? id = some e ∧ e.isPendingAt s ∧ (e.step s).hasAttemptsLeft

/-- Whether `ids` are those that wait at `s` with attempts left. -/
structure Roster (d : Document) (s : Step) (ids : List String) : Prop where
  nodup : ids.Nodup
  mem : ∀ id, id ∈ ids ↔ d.IsDue s id

/-- Whether the same entities wait with attempts left, at each step. -/
def SameDue (d d' : Document) : Prop := ∀ s id, d'.IsDue s id ↔ d.IsDue s id

theorem SameDue.refl (d : Document) : d.SameDue d := fun _ _ => Iff.rfl

theorem SameDue.trans (h : d.SameDue d') (h' : d'.SameDue d'') : d.SameDue d'' :=
  fun s id => (h' s id).trans (h s id)

theorem Roster.congr {ids : List String} (h : d.SameDue d') (hr : d'.Roster s ids) :
    d.Roster s ids :=
  ⟨hr.nodup, fun id => (hr.mem id).trans (h s id)⟩

/-- Entities that change, and wait nowhere with attempts left, before or after. -/
theorem sameDue_mapEntities {f : String → Entity → Entity}
    (hf : ∀ id e, d.find? id = some e → f id e = e ∨
      ∀ s, ¬ (e.isPendingAt s ∧ (e.step s).hasAttemptsLeft) ∧ ¬ (f id e).isPendingAt s) :
    d.SameDue (d.mapEntities f) := by
  intro s id
  unfold IsDue
  rw [find?_mapEntities]
  cases he : d.find? id with
  | none => simp
  | some e =>
    simp only [Option.map_some, Option.some.injEq, exists_eq_left']
    rcases hf id e he with hsame | hnone
    · rw [hsame]
    · exact iff_of_false (fun h => (hnone s).2 h.1) (hnone s).1

/-- An entity without attempts left waits at the step for nothing. -/
theorem sameDue_select (now : Timestamp) (s : Step) (hf : d.IsFiled) :
    d.SameDue (d.select now s).document := by
  rw [document_select now s hf]
  refine sameDue_mapEntities fun id e he => ?_
  rw [selected]
  split
  · next h =>
    obtain ⟨e', he', hp⟩ := (mem_pendingAt hf).mp h.1
    obtain rfl := Option.some.inj (he.symm.trans he')
    refine Or.inr fun s' => ⟨?_, Entity.not_pending_of_not_schedulable rfl s'⟩
    rintro ⟨hp', hl⟩
    obtain rfl := (Entity.isPendingAt_iff.mp hp).1.symm.trans (Entity.isPendingAt_iff.mp hp').1
    rw [h.2] at hl
    cases hl
  · exact Or.inl rfl

theorem roster_select (now : Timestamp) (s : Step) (hf : d.IsFiled) :
    d.Roster s (d.select now s).eligible :=
  ⟨(awaits_select now s hf).nodup, fun _ => mem_eligible_select now s hf⟩

end Document

namespace RunEvent

/-- Whether these events end in something else than the beginning of a batch. -/
def IsIdle (l : List RunEvent) : Prop := ∀ s n, l.getLast? ≠ some (.batchStarted s n)

theorem IsIdle.append {l k : List RunEvent} (hl : IsIdle l)
    (hk : ∀ s n, .batchStarted s n ∉ k) : IsIdle (l ++ k) := by
  intro s n h
  rw [List.getLast?_append] at h
  cases hlast : k.getLast? with
  | none =>
    rw [hlast] at h
    exact hl s n h
  | some e =>
    rw [hlast] at h
    obtain rfl := Option.some.inj h
    exact hk s n (List.mem_of_getLast? hlast)

/-- Whether a document that is saved right at the beginning of a batch shows all of its roster at
work, the roster being that of the document saved before, or of `d`. -/
def Starts (d : Document) (before : List RunEvent) : RunEvent → Prop
  | .saving marked => ∀ l s n, before = l ++ [.batchStarted s n] →
      ∃ ids, ((lastSaved l).getD d).Roster s ids ∧ ids.length = n ∧
        ∀ id ∈ ids, marked.statusAt? id s = some .running
  | _ => True

theorem starts_of_isIdle (d : Document) {before : List RunEvent} (h : IsIdle before)
    (e : RunEvent) : Starts d before e := by
  cases e with
  | saving marked =>
    rintro l s n rfl
    exact absurd (List.getLast?_concat ..) (h s n)
  | _ => trivial

end RunEvent

namespace RunState

variable {σ : Type} {r : RunSetup σ} {d : Document} {s : Step} {ids : List String}
  {st st' : RunState σ}

/-- What a run that loaded `d` keeps about its rosters. -/
structure IsRostered (d : Document) (st : RunState σ) : Prop where
  due : ((RunEvent.lastSaved st.trace).getD d).SameDue st.document
  starts : RunEvent.AtEach (RunEvent.Starts d) st.trace
  idle : RunEvent.IsIdle st.trace

theorem IsRostered.choose (h : st.IsRostered d) (hf : st.document.IsFiled) (s : Step) :
    (st.choose r s).IsRostered d :=
  ⟨h.due.trans (Document.sameDue_select _ s hf), h.starts, h.idle⟩

theorem statusAt?_marked (hw : st.document.Awaits s ids) {id : String} (hid : id ∈ ids) :
    (st.marked r s ids).statusAt? id s = some .running := by
  obtain ⟨e, he, -⟩ := hw.waiting id hid
  have hfind : (st.marked r s ids).find? id =
      some (Document.marked (r.clock st.world) r.runId s ids id e) := by
    rw [marked, Document.find?_withMarks, he]
    rfl
  rw [Document.statusAt?, hfind, Option.map_some,
    Document.running_withMarks _ _ hw id hid _ hfind]

/-- A batch of all that are due saves its marks on them before anything else. -/
theorem IsRostered.batch (h : st.IsRostered d) (hids : st.document.Roster s ids)
    (hw : st.document.Awaits s ids) (ho : Outline r s ids st st') : st'.IsRostered d := by
  have hmark : RunEvent.Starts d (st.trace ++ [.batchStarted s ids.length])
      (.saving (st.marked r s ids)) := by
    intro l s' n heq
    obtain ⟨rfl, hn⟩ := List.append_inj' heq rfl
    obtain ⟨rfl, rfl⟩ := RunEvent.batchStarted.inj (List.cons.inj hn).1
    exact ⟨ids, hids.congr h.due, rfl, fun id hid => statusAt?_marked hw hid⟩
  have hstart : RunEvent.AtEach (RunEvent.Starts d)
      (st.trace ++ [.batchStarted s ids.length, .saving (st.marked r s ids)]) := by
    rw [List.append_cons]
    exact RunEvent.atEach_concat (RunEvent.atEach_concat h.starts trivial) hmark
  have hidle : ∀ (l : List RunEvent) d', RunEvent.IsIdle (l ++ [.saving d']) := by
    intro l d' s n hlast
    rw [List.getLast?_concat] at hlast
    cases hlast
  have hdue : ((RunEvent.lastSaved st'.trace).getD d).SameDue st'.document := by
    rw [ho.lastSaved_eq]
    exact .refl _
  cases ho with
  | marked _ htrace =>
    refine ⟨hdue, htrace ▸ hstart, ?_⟩
    rw [htrace, List.append_cons]
    exact hidle _ _
  | folded calls events _ _ _ results _ _ _ _ _ _ htrace =>
    have hquiet : ∀ e ∈ events.map RunEvent.pool ++ progress s ids.length 0 results,
        (∀ s n, e ≠ .batchStarted s n) ∧ ∀ before, RunEvent.Starts d before e := by
      intro e he
      rcases List.mem_append.mp he with he | he
      · obtain ⟨_, -, rfl⟩ := List.mem_map.mp he
        exact ⟨nofun, fun _ => trivial⟩
      · obtain ⟨_, _, _, rfl⟩ := mem_progress he
        exact ⟨nofun, fun _ => trivial⟩
    rw [List.append_assoc _ (events.map _)] at htrace
    have hidle' : RunEvent.IsIdle (st.trace ++ [.batchStarted s ids.length,
        .saving (st.marked r s ids)] ++ (events.map .pool ++ progress s ids.length 0 results)) := by
      refine RunEvent.IsIdle.append ?_ fun s' n hmem => (hquiet _ hmem).1 s' n rfl
      rw [List.append_cons]
      exact hidle _ _
    refine ⟨hdue, ?_, htrace ▸ hidle _ _⟩
    rw [htrace]
    exact RunEvent.atEach_concat
      (RunEvent.atEach_append_of_forall hstart fun before e he => (hquiet e he).2 before)
      (RunEvent.starts_of_isIdle d hidle' _)

theorem IsRostered.runStep (h : st.IsRostered d) (hf : st.document.IsFiled)
    {res : Except Halt Unit} (hs : st.runStep r s = (res, st')) : st'.IsRostered d := by
  rcases runStep_cases_eligible hf hs with ⟨-, -, rfl⟩ | ⟨-, hw, hb⟩
  · exact h.choose hf s
  · have hroster : (st.choose r s).document.Roster s
        (st.document.select (r.clock st.world) s).eligible :=
      ⟨hw.nodup, fun id => ((Document.roster_select _ s hf).mem id).trans
        (Document.sameDue_select _ s hf s id).symm⟩
    exact (h.choose hf s).batch hroster hw (hb.outline hw)

end RunState

end Publishing
