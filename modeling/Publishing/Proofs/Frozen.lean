import Publishing.Proofs.Attempts
import Publishing.Proofs.Courses
import Publishing.Proofs.Isolation

/-
What becomes of a step that is left running.

A step that is running on disk when nothing runs was interrupted, and nobody knows its outcome.
Retries ask for a failed step, skips refuse an entity with a running one, a reset from a later
step does, too, and a run blocks the entity before it selects any.  So until the outcome is
entered by force, or a reset goes back to the step or before it, no operation touches the
entity, a run does no more than block it, and nobody calls for it.
-/

namespace Publishing

namespace Entity

variable {e e' e'' : Entity} {k s : Step}

/-! ## Entities with a running step -/

/-- What can become of an entity with a running step: nothing, or it is blocked. -/
structure Stays (e e' : Entity) : Prop extends SameWork e e' where
  status : e'.status = e.status ∨ e'.status = .blocked

theorem SameProgress.stays (h : SameProgress e e') : e.Stays e' :=
  ⟨h.toSameWork, Or.inl h.status⟩

theorem SameWork.stays (h : SameWork e e') (hb : e'.status = .blocked) : e.Stays e' :=
  ⟨h, Or.inr hb⟩

theorem Stays.trans (h : e.Stays e') (h' : e'.Stays e'') : e.Stays e'' := by
  refine ⟨h.toSameWork.trans h'.toSameWork, ?_⟩
  rcases h'.status with hs | hs
  · rw [hs]
    exact h.status
  · exact Or.inr hs

theorem StandsAt.unique (hk : e.StandsAt k) (hs : e.StandsAt s) : s = k :=
  hs.current.symm.trans hk.current

/-- An entity with a running step goes on to be sound. -/
theorem IsSound.stays (hs : e.IsSound) (hr : (e.step k).status = .running) (h : e.Stays e') :
    e'.IsSound := by
  have hk := hs.standsAt_of_running hr
  refine ⟨fun s => h.attempts s ▸ hs.attempts_le s, fun s hst => ?_,
    Or.inr ⟨k, fun s hlt => ?_, fun s hgt => ?_, h.currentStep.trans hk.current, ?_⟩⟩
  · rw [h.stepStatus] at hst
    rw [h.attempts]
    exact hs.attempts_pos s hst
  · rw [h.stepStatus]
    exact hk.before s hlt
  · rw [h.stepStatus]
    exact hk.after s hgt
  · have hcoarse := hk.coarse
    unfold StatusFits at hcoarse ⊢
    rw [h.stepStatus, hr]
    rw [hr] at hcoarse
    dsimp only at hcoarse ⊢
    rcases h.status with hst | hst
    · rw [hst]
      exact hcoarse
    · exact Or.inr hst

theorem entity_skipVerdict (h : e.runningStep? = some k) (now : Timestamp) (s : Step) :
    (e.skipVerdict now s).entity e = e := by
  unfold skipVerdict
  split
  · rfl
  · rw [h]
    rfl

/-- A reset that changes it is from its running step or from an earlier one. -/
theorem IsSound.resetVerdict_cases (hs : e.IsSound) (hr : (e.step k).status = .running)
    (now : Timestamp) (s : Step) :
    (e.resetVerdict now s).entity e = e ∨ (e.resetVerdict now s).isChanged ∧ s ≤ k := by
  rcases e.resetVerdict_cases now s with ⟨-, he, -⟩ | ⟨hv, hfailed, hrunning⟩
  · exact Or.inl he
  · refine Or.inr ⟨by rw [hv]; rfl, Step.not_lt_iff.mp fun hlt => ?_⟩
    have hp := pending_of_reset hs hfailed hrunning (hs.standsAt_of_running hr) hlt
    rw [hr] at hp
    cases hp

end Entity

/-! ## Operations -/

namespace Document

variable {d : Document} {id : String} {e : Entity} {k : Step} {now : Timestamp}

end Document

/-- Whether the entity under `id` is what `e` can have become. -/
def Document.HasStayed (d : Document) (id : String) (e : Entity) : Prop :=
  ∃ e', d.find? id = some e' ∧ e.Stays e'

theorem Document.HasStayed.related {d d' : Document} {id : String} {e : Entity}
    (h : d.HasStayed id e) (hd : d.Related Entity.SameProgress d') : d'.HasStayed id e := by
  obtain ⟨e', he', hst⟩ := h
  obtain ⟨e'', he'', hs⟩ := hd.right he'
  exact ⟨e'', he'', hst.trans hs.stays⟩

namespace RunState

variable {σ : Type} {r : RunSetup σ} {id : String} {e : Entity} {st st' : RunState σ}

/-- What a run keeps of an entity with a running step, once it is blocked. -/
structure IsFrozen (id : String) (e : Entity) (st : RunState σ) : Prop where
  document : ∃ e', st.document.find? id = some e' ∧ e.Stays e' ∧ e'.status = .blocked
  saved : ∀ d ∈ RunEvent.savings st.trace, d.HasStayed id e
  calls : ∀ c ∈ RunEvent.calls st.trace, c.entity ≠ id

theorem IsFrozen.not_pending (h : st.IsFrozen id e) {e' : Entity} {s : Step}
    (he : st.document.find? id = some e') : ¬ e'.isPendingAt s := by
  obtain ⟨e₀, he₀, -, hb⟩ := h.document
  obtain rfl := Option.some.inj (he₀.symm.trans he)
  exact Entity.not_pending_of_not_schedulable (by rw [hb]; rfl) s

theorem IsFrozen.choose (h : st.IsFrozen id e) (hf : st.document.IsFiled) (s : Step) :
    (st.choose r s).IsFrozen id e := by
  refine ⟨?_, h.saved, h.calls⟩
  obtain ⟨e', he', hst, hb⟩ := h.document
  refine ⟨e', ?_, hst, hb⟩
  show (st.document.select (r.clock st.world) s).document.find? id = some e'
  rw [Document.find?_select _ s hf, he', Option.map_some, Document.selected, if_neg]
  rintro ⟨hp, -⟩
  obtain ⟨e₀, he₀, hp⟩ := (Document.mem_pendingAt hf).mp hp
  exact h.not_pending he₀ hp

theorem IsFrozen.batch {s : Step} {ids : List String} (h : st.IsFrozen id e)
    (hw : st.document.Awaits s ids) (ho : Outline r s ids st st') : st'.IsFrozen id e := by
  obtain ⟨e', he', hst, hb⟩ := h.document
  have hid : id ∉ ids := by
    intro hmem
    obtain ⟨e₀, he₀, hp, -⟩ := hw.waiting id hmem
    exact h.not_pending he₀ hp
  have hmarked : (st.marked r s ids).find? id = some e' := by
    rw [marked, Document.find?_withMarks, he', Option.map_some, Document.marked, if_neg hid]
  have hdoc : st'.document.find? id = some e' := by
    cases ho with
    | marked hdoc _ => rwa [hdoc]
    | folded _ _ _ _ _ _ _ _ _ _ _ hdoc _ =>
      rw [hdoc, Document.find?_withOutcomes, hmarked, Option.map_some, Document.folded, if_neg hid]
  refine ⟨⟨e', hdoc, hst, hb⟩, fun d hd => ?_, fun c hc => ?_⟩
  · rcases ho.mem_savings hd with hd | rfl | rfl
    · exact h.saved d hd
    · exact ⟨e', hmarked, hst⟩
    · exact ⟨e', hdoc, hst⟩
  · rcases ho.mem_calls hc with hc | ⟨hc, -⟩
    · exact h.calls c hc
    · rintro rfl
      exact hid hc

end RunState

namespace Episode

/-- The calls of an episode. -/
def calls : Episode → List Call
  | operation _ _ => []
  | run calls => calls

end Episode

namespace Site

variable {σ : Type} {S : Site σ} {M P : Json → Prop} {id : String} {e : Entity} {k : Step}

end Site
end Publishing
