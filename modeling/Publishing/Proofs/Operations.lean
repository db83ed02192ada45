import Publishing.Proofs.Changes

/-
Operations as sequences of changes.

What is prepared has one of the forms that `Operation.Prepared` lists.  An operation that is not
refused makes one of the changes that `Operation.Makes` lists, and
whichever it is, the document is left by changes of single entities.  Of these only a reset
touches attempts.
-/

namespace Publishing

/-- What an operation that passes its own checks does to a document. -/
inductive Operation.Prepared :
    Operation → (Timestamp → Document → Except Error Change) → Prop
  | retryOne {step : String} {s : Step} (hs : Step.ofName? step = some s) (id : String) :
      Prepared (.retry step (some id) false) fun now d => do
        let (e, record) ← (← d.get id).retry now s
        return d.changeOne id (e, record) (id ++ " queued for retry at " ++ s.name)
  | retryAll {step : String} {s : Step} (hs : Step.ofName? step = some s) :
      Prepared (.retry step none true) fun now d => .ok (d.retryReport now s)
  | skipTo {step : String} {s : Step} (hs : Step.ofName? step = some s) (target : Target) :
      Prepared (.skipTo step target) fun now d => d.skipTo now s target
  | reset {step : String} {s : Step} (hs : Step.ofName? step = some s) (filter : ResetFilter)
      (regex : Option Regex) :
      Prepared (.reset step filter) fun now d => .ok (d.reset now s regex filter.onlyFailed)
  | complete (id : String) : Prepared (.complete id) fun now d => d.forceComplete now id
  | fail (id reason : String) :
      Prepared (.fail id reason) fun now d => d.forceFail now id reason
  | register (id : String) (metadata : Json) :
      Prepared (.register id metadata) fun now d => d.register now id metadata
  | migrate (items : List ContentItem) :
      Prepared (.migrate items) fun now d => .ok (d.migrate now items)

/-- What an operation that is not refused comes to. -/
inductive Operation.Makes (now : Timestamp) (d : Document) : Operation → Change → Prop
  | retryOne {step id : String} {s : Step} {e e' : Entity} {record : AuditRecord}
      (hs : Step.ofName? step = some s) (he : d.find? id = some e)
      (hr : e.retry now s = .ok (e', record)) :
      Makes now d (.retry step (some id) false)
        (d.changeOne id (e', record) (id ++ " queued for retry at " ++ s.name))
  | retryAll {step : String} {s : Step} (hs : Step.ofName? step = some s) :
      Makes now d (.retry step none true) (d.retryReport now s)
  | skipOne {step id : String} {s : Step} {e : Entity} (hs : Step.ofName? step = some s)
      (he : d.find? id = some e) (hc : e.checkSkip s = .ok ()) :
      Makes now d (.skipTo step (.one id))
        ⟨d.replace id (e.skipTo now s), e.skipRecords now s,
          ⟨id ++ " moved to " ++ s.name, [id], []⟩⟩
  | skipAll {step : String} {s : Step} {c : Change} (hs : Step.ofName? step = some s)
      (hc : d.skipTo now s .all = .ok c) : Makes now d (.skipTo step .all) c
  | reset {step : String} {s : Step} {filter : ResetFilter} (hs : Step.ofName? step = some s)
      (regex : Option Regex) :
      Makes now d (.reset step filter) (d.reset now s regex filter.onlyFailed)
  | complete {id : String} {e : Entity} {s : Step} (he : d.find? id = some e)
      (hs : e.runningStep? = some s) (data : Json) :
      Makes now d (.complete id) (d.changeOne id
        ((e.completeStep now s (e.elapsed now s)).emit now s OperationName.forceCompleted data)
        (id ++ " completed " ++ s.name))
  | fail {id reason : String} {e : Entity} {s : Step} (he : d.find? id = some e)
      (hs : e.runningStep? = some s) (data : Json) :
      Makes now d (.fail id reason) (d.changeOne id
        ((e.failStep now s reason (e.elapsed now s)).emit now s OperationName.forceFailed data)
        (id ++ " failed " ++ s.name ++ " (attempt " ++ toString (e.step s).attempts ++ "): " ++
          reason))
  | register {id : String} {metadata : Json} {added : Entity × AuditRecord}
      (hnew : d.find? id = none) (ha : (Entity.draft now id metadata).emit now .ingested
        OperationName.registered .null = added) :
      Makes now d (.register id metadata)
        ⟨d.insert id added.1, [added.2], ⟨id ++ " registered", [id], []⟩⟩
  | migrate (items : List ContentItem) :
      Makes now d (.migrate items) (d.migrate now items)

namespace Operation

theorem readStep_eq_ok {subject text : String} {s : Step} (h : readStep subject text = .ok s) :
    Step.ofName? text = some s := by
  unfold readStep at h
  split at h
  · next hs => rw [hs, Except.ok.inj h]
  · cases h

theorem requireRunning_eq_ok {action : String} {e : Entity} {s : Step}
    (h : e.requireRunning action = .ok s) : e.runningStep? = some s := by
  unfold Entity.requireRunning at h
  split at h
  · next hs => rw [hs, Except.ok.inj h]
  · cases h

theorem prepared {op : Operation} {f : Timestamp → Document → Except Error Change}
    (h : op.prepare = .ok f) : op.Prepared f := by
  cases op with
  | retry step entity all =>
    match entity, all with
    | some id, false =>
      obtain ⟨_, ht, h⟩ := bind_eq_ok.mp h
      obtain rfl := Except.ok.inj ht
      obtain ⟨s, hs, h⟩ := bind_eq_ok.mp h
      obtain rfl := Except.ok.inj h
      exact .retryOne (readStep_eq_ok hs) id
    | none, true =>
      obtain ⟨_, ht, h⟩ := bind_eq_ok.mp h
      obtain rfl := Except.ok.inj ht
      obtain ⟨s, hs, h⟩ := bind_eq_ok.mp h
      obtain rfl := Except.ok.inj h
      exact .retryAll (readStep_eq_ok hs)
    | some _, true => cases h
    | none, false => cases h
  | skipTo step target =>
    obtain ⟨s, hs, h⟩ := bind_eq_ok.mp h
    obtain rfl := Except.ok.inj h
    exact .skipTo (readStep_eq_ok hs) target
  | reset step filter =>
    obtain ⟨s, hs, h⟩ := bind_eq_ok.mp h
    have hs := readStep_eq_ok hs
    split at h
    · obtain rfl := Except.ok.inj h
      exact .reset hs filter none
    · split at h
      · next regex _ =>
        obtain rfl := Except.ok.inj h
        exact .reset hs filter (some regex)
      · cases h
  | complete id =>
    obtain rfl := Except.ok.inj h
    exact .complete id
  | fail id reason =>
    obtain rfl := Except.ok.inj h
    exact .fail id reason
  | register id metadata =>
    simp only [prepare] at h
    split at h
    · cases h
    obtain rfl := Except.ok.inj h
    exact .register id metadata
  | migrate items =>
    obtain rfl := Except.ok.inj h
    exact .migrate items

/-- An operation that is prepared and not refused makes one of these changes. -/
theorem makes {op : Operation} {f : Timestamp → Document → Except Error Change}
    (hp : op.prepare = .ok f) {now : Timestamp} {d : Document} {c : Change}
    (hc : f now d = .ok c) : op.Makes now d c := by
  cases prepared hp with
  | retryOne hs id =>
    obtain ⟨e, he, hc⟩ := bind_eq_ok.mp hc
    obtain ⟨⟨e', record⟩, hr, hc⟩ := bind_eq_ok.mp hc
    obtain rfl := Except.ok.inj hc
    exact .retryOne hs (Document.get_eq_ok.mp he) hr
  | retryAll hs =>
    obtain rfl := Except.ok.inj hc
    exact .retryAll hs
  | skipTo hs target =>
    cases target with
    | one id =>
      obtain ⟨e, he, hc⟩ := bind_eq_ok.mp hc
      obtain ⟨_, hcheck, hc⟩ := bind_eq_ok.mp hc
      obtain rfl := Except.ok.inj hc
      exact .skipOne hs (Document.get_eq_ok.mp he) hcheck
    | all => exact .skipAll hs hc
  | reset hs filter regex =>
    obtain rfl := Except.ok.inj hc
    exact .reset hs regex
  | complete id =>
    obtain ⟨e, he, hc⟩ := bind_eq_ok.mp hc
    obtain ⟨s, hs, hc⟩ := bind_eq_ok.mp hc
    obtain rfl := Except.ok.inj hc
    exact .complete (Document.get_eq_ok.mp he) (requireRunning_eq_ok hs) _
  | fail id reason =>
    obtain ⟨e, he, hc⟩ := bind_eq_ok.mp hc
    obtain ⟨s, hs, hc⟩ := bind_eq_ok.mp hc
    obtain rfl := Except.ok.inj hc
    exact .fail (Document.get_eq_ok.mp he) (requireRunning_eq_ok hs) _
  | register id metadata =>
    simp only [Document.register] at hc
    split at hc
    · cases hc
    next hn =>
    obtain rfl := Except.ok.inj hc
    exact .register (Option.not_isSome_iff_eq_none.mp hn) rfl
  | migrate items =>
    obtain rfl := Except.ok.inj hc
    exact .migrate items

end Operation

/-- Whether an entity is left alone, with nothing to record, or changed. -/
def Entity.Becomes (now : Timestamp) (L : AttemptChange → Prop) (e e' : Entity)
    (records : List AuditRecord) : Prop :=
  (e' = e ∧ records = []) ∨ ∃ c, L c ∧ e.Changed now c e' records

namespace Document

variable {now : Timestamp} {L : AttemptChange → Prop}

/-- Changes of entities with different keys, made one after another. -/
theorem changes_entries {f : Entity → Entity} {records : Entity → List AuditRecord}
    {l : List (String × Entity)} (hn : (l.map (·.1)).Nodup) {d : Document}
    (hd : ∀ p ∈ l, d.find? p.1 = some p.2) (h : ∀ p ∈ l, p.2.Becomes now L (f p.2) (records p.2)) :
    Changes now L d (l.flatMap fun p => records p.2)
      (d.mapEntities fun id e => if id ∈ l.map (·.1) then f e else e) := by
  induction l generalizing d with
  | nil =>
    have hdoc : (d.mapEntities fun _ e => e) = d := mapEntities_id d
    simp only [List.map_nil, List.not_mem_nil, if_false, hdoc]
    exact .done d
  | cons p rest ih =>
    obtain ⟨id, e⟩ := p
    obtain ⟨hid, hrest⟩ := List.nodup_cons.mp hn
    have he : d.find? id = some e := hd _ List.mem_cons_self
    have hdoc : (d.replace id (f e)).mapEntities
          (fun id' v => if id' ∈ rest.map (·.1) then f v else v) =
        d.mapEntities fun id' v => if id' ∈ ((id, e) :: rest).map (·.1) then f v else v := by
      refine replace_mapEntities he ?_ fun id' v hne => ?_
      · rw [if_pos (by simp), if_neg hid]
      · simp only [List.map_cons, List.mem_cons, hne, false_or]
    rw [List.flatMap_cons, ← hdoc]
    have hrec : Changes now L (d.replace id (f e)) (rest.flatMap fun p => records p.2)
        ((d.replace id (f e)).mapEntities fun id' v =>
          if id' ∈ rest.map (·.1) then f v else v) := by
      refine ih hrest (fun p hp => ?_) fun p hp => h p (List.mem_cons_of_mem _ hp)
      rw [find?_replace_of_not_mem hid (List.mem_map_of_mem hp)]
      exact hd p (List.mem_cons_of_mem _ hp)
    rcases h _ List.mem_cons_self with ⟨hf, hr⟩ | ⟨c, hc, hch⟩
    · -- an entity that is put in its own place
      have hself : d.replace id (f e) = d := by
        rw [replace_eq]
        refine (mapEntities_congr fun id' v hv => ?_).trans (mapEntities_id d)
        split
        · next heq =>
          rw [heq, he] at hv
          exact hf.trans (Option.some.inj hv)
        · rfl
      rw [hr, List.nil_append]
      rwa [hself] at hrec ⊢
    · exact .change he hc hch hrec

/-- Changes of all entities, made one after another. -/
theorem changes_all (f : Entity → Entity) (records : Entity → List AuditRecord) (d : Document)
    (h : ∀ id e, d.find? id = some e → e.Becomes now L (f e) (records e)) :
    Changes now L d (d.all.flatMap records) (d.mapEntities fun _ e => f e) := by
  have hl : ∀ p ∈ d.entities.entries, d.find? p.1 = some p.2 :=
    fun p hp => Keyed.find?_eq_some_iff.mpr hp
  have hall : d.all.flatMap records = d.entities.entries.flatMap fun p => records p.2 := by
    rw [all, Keyed.values, List.flatMap_map]
  have hdoc : (d.mapEntities fun _ e => f e) =
      d.mapEntities fun id e => if id ∈ d.entities.entries.map (·.1) then f e else e := by
    refine mapEntities_congr fun id e he => (if_pos ?_).symm
    exact List.mem_map_of_mem (f := Prod.fst) (Keyed.find?_eq_some_iff.mp he)
  rw [hall, hdoc]
  exact changes_entries (Keyed.nodup_keys _) hl fun p hp => h p.1 p.2 (hl p hp)

/-- A sweep makes the changes that its verdicts ask for. -/
theorem changes_sweep {f : Entity → Verdict} (message : Nat → String) (d : Document)
    (h : ∀ id e, d.find? id = some e →
      e.Becomes now L ((f e).entity e) (f e).records) :
    Changes now L d (d.sweep f message).records (d.sweep f message).document :=
  changes_all _ _ d h

theorem retry_eq_ok {now : Timestamp} {id : String} {s : Step} {d d' : Document}
    {record : AuditRecord} (h : d.retry now id s = .ok (d', record)) :
    ∃ e e', d.find? id = some e ∧ e.retry now s = .ok (e', record) ∧ d' = d.replace id e' := by
  obtain ⟨e, he, h⟩ := bind_eq_ok.mp h
  obtain ⟨⟨e', record'⟩, hr, h⟩ := bind_eq_ok.mp h
  obtain ⟨rfl, rfl⟩ := Prod.mk.inj (Except.ok.inj h)
  exact ⟨e, e', get_eq_ok.mp he, hr, rfl⟩

theorem changes_retryEach (now : Timestamp) (hL : L .kept) (s : Step) (ids : List String)
    (d : Document) :
    Changes now L d (retryEach now s ids d).2.1 (retryEach now s ids d).1 := by
  induction ids generalizing d with
  | nil => exact .done d
  | cons id rest ih =>
    rw [retryEach]
    cases hr : d.retry now id s with
    | error e => exact ih d
    | ok p =>
      have hp : d.retry now id s = .ok (p.1, p.2) := hr
      obtain ⟨e, e', he, hret, hd⟩ := retry_eq_ok hp
      have hrest := ih p.1
      rw [hd] at hrest
      dsimp only
      rw [hd]
      exact .change he hL (.retried hret) hrest

theorem changes_insertFinalized (now : Timestamp) (items : List ContentItem) (d : Document) :
    Changes now L d (d.insertFinalized now items).records
      (d.insertFinalized now items).document := by
  induction items generalizing d with
  | nil => exact .done d
  | cons item rest ih =>
    rw [insertFinalized]
    split
    · exact ih d
    · next hn =>
      exact .track (Option.not_isSome_iff_eq_none.mp hn) (.imported item.metadata) (ih _)

end Document

namespace Entity

theorem becomes_skipVerdict {now : Timestamp} {L : AttemptChange → Prop} (hL : L .kept) (s : Step)
    (e : Entity) :
    e.Becomes now L ((e.skipVerdict now s).entity e) (e.skipVerdict now s).records := by
  unfold skipVerdict
  split
  · exact Or.inl ⟨rfl, rfl⟩
  · split
    · exact Or.inl ⟨rfl, rfl⟩
    · exact Or.inr ⟨.kept, hL, .skipped e s⟩

/-- A reset leaves an entity alone, or nothing before the step has failed or is running. -/
theorem resetVerdict_cases (now : Timestamp) (s : Step) (e : Entity) :
    ((e.resetVerdict now s).isChanged = false ∧ (e.resetVerdict now s).entity e = e ∧
      (e.resetVerdict now s).records = []) ∨
    (e.resetVerdict now s = .changed (e.reset now s).1 [(e.reset now s).2] ∧
      e.failedBefore? s = none ∧ e.runningStep?.filter (· < s) = none) := by
  unfold resetVerdict
  split
  · exact Or.inl ⟨rfl, rfl, rfl⟩
  · next hfailed =>
    split
    · exact Or.inl ⟨rfl, rfl, rfl⟩
    · split
      · exact Or.inl ⟨rfl, rfl, rfl⟩
      · next hrunning => exact Or.inr ⟨rfl, hfailed, hrunning⟩

theorem becomes_resetVerdict {now : Timestamp} {L : AttemptChange → Prop} {s : Step}
    (hL : L (.forgotten s)) (e : Entity) :
    e.Becomes now L ((e.resetVerdict now s).entity e) (e.resetVerdict now s).records := by
  rcases e.resetVerdict_cases now s with ⟨-, he, hr⟩ | ⟨hv, hfailed, hrunning⟩
  · exact Or.inl ⟨he, hr⟩
  · rw [hv]
    exact Or.inr ⟨_, hL, .reset s hfailed hrunning⟩

end Entity

namespace Operation

/-- What an operation may do to the attempts of an entity. -/
def Allows : Operation → AttemptChange → Prop
  | _, .kept => True
  | reset step _, .forgotten s => Step.ofName? step = some s
  | _, _ => False

/-- Whatever an operation does, it does by changes of single entities. -/
theorem Makes.changes {op : Operation} {now : Timestamp} {d : Document} {c : Change}
    (h : op.Makes now d c) : d.Changes now op.Allows c.records c.document := by
  cases h with
  | retryOne hs he hr => exact .one (c := .kept) he trivial (.retried hr)
  | retryAll hs => exact Document.changes_retryEach now trivial _ _ d
  | skipOne hs he hc => exact .one (c := .kept) he trivial (.skipped _ _)
  | skipAll hs hc =>
    obtain rfl := Except.ok.inj hc
    exact Document.changes_sweep _ d fun id e _ => e.becomes_skipVerdict trivial _
  | reset hs regex =>
    refine Document.changes_sweep _ d fun id e _ => ?_
    split
    · exact e.becomes_resetVerdict hs
    · exact Or.inl ⟨rfl, rfl⟩
  | complete he hs data =>
    exact .one (c := .kept) he trivial (.completed (Entity.runningStep?_spec hs) ..)
  | fail he hs data =>
    exact .one (c := .kept) he trivial (.failed (Entity.runningStep?_spec hs) ..)
  | register hn ha =>
    obtain rfl := ha
    exact Document.Changes.track hn (.registered _) (.done _)
  | migrate items => exact Document.changes_insertFinalized now items d

end Operation
end Publishing
