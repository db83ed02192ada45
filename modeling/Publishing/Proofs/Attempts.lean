import Mathlib.Data.List.Chain
import Publishing.Proofs.Soundness

/-
Attempts bound the calls.

The attempts of a step are counted in memory before the calls of a batch begin, and the
count is saved before them.  So at every event of a run the document that was saved last has
counted all calls so far, and only a reset makes it forget them.
-/

namespace Publishing

/-! ## What happens to the attempts in a document -/

namespace Document

/-- The attempts at a step of the entity under `id`; none if there is no such entity. -/
def attempts (d : Document) (id : String) (s : Step) : Nat :=
  ((d.find? id).map fun e => (e.step s).attempts).getD 0

def statusAt? (d : Document) (id : String) (s : Step) : Option StepStatus :=
  (d.find? id).map fun e => (e.step s).status

variable {d d' : Document} {id : String} {s : Step}

theorem attempts_of_find? {e : Entity} (h : d.find? id = some e) (s : Step) :
    d.attempts id s = (e.step s).attempts := by
  rw [attempts, h]
  rfl

theorem attempts_of_related (h : d.Related Entity.SameWork d') (id : String) (s : Step) :
    d'.attempts id s = d.attempts id s ∧ d'.statusAt? id s = d.statusAt? id s := by
  unfold attempts statusAt?
  obtain ⟨hn, hn'⟩ | ⟨e, e', he, he', hwork⟩ := h.cases id
  · rw [hn, hn']
    exact ⟨rfl, rfl⟩
  · rw [he, he']
    simp only [Option.map_some, hwork.attempts s, hwork.stepStatus s, and_self]

theorem attempts_replace {e e' : Entity} (he : d.find? id = some e)
    (h : ∀ s, (e'.step s).attempts = (e.step s).attempts) (id' : String) (s : Step) :
    (d.replace id e').attempts id' s = d.attempts id' s := by
  unfold attempts
  rw [find?_replace]
  split
  · next heq =>
    rw [heq, he]
    exact h s
  · rfl

theorem attempts_insert {e : Entity} (hn : d.find? id = none)
    (h : ∀ s, (e.step s).attempts = 0) (id' : String) (s : Step) :
    (d.insert id e).attempts id' s = d.attempts id' s := by
  unfold attempts
  rw [find?_insert]
  split
  · next heq =>
    rw [heq, hn]
    exact h s
  · rfl

/-- Changes that are none of attempts leave all of them. -/
theorem Changes.attempts {now : Timestamp} {records : List AuditRecord}
    (h : Changes now (· = .kept) d records d') (id : String) (s : Step) :
    d'.attempts id s = d.attempts id s := by
  induction h with
  | done d => rfl
  | change he hc h _ ih =>
    obtain rfl := hc
    rw [ih, attempts_replace he h.attempts]
  | track hn h _ ih => rw [ih, attempts_insert hn h.attempts]

theorem Changes.mono {now : Timestamp} {L L' : AttemptChange → Prop} {records : List AuditRecord}
    (h : Changes now L d records d') (hL : ∀ c, L c → L' c) : Changes now L' d records d' := by
  induction h with
  | done d => exact .done d
  | change he hc h _ ih => exact .change he (hL _ hc) h ih
  | track hn h _ ih => exact .track hn h ih

/-- A reset forgets the attempts of the entities that it reports, from its step on. -/
theorem attempts_reset (now : Timestamp) (k : Step) (regex : Option Regex) (onlyFailed : Bool)
    (hf : d.IsFiled) (id : String) (s : Step) :
    (d.reset now k regex onlyFailed).document.attempts id s =
      if k ≤ s ∧ id ∈ (d.reset now k regex onlyFailed).report.entities then 0
      else d.attempts id s := by
  let f : Entity → Verdict := fun e =>
    if ResetFilter.selects regex onlyFailed e then e.resetVerdict now k else .untouched
  have hfind : (d.reset now k regex onlyFailed).document.find? id =
      (d.find? id).map fun e => (f e).entity e := find?_mapEntities ..
  have hmem : id ∈ (d.reset now k regex onlyFailed).report.entities ↔
      ∃ e, d.find? id = some e ∧ (f e).isChanged := mem_filter_ids hf
  unfold attempts
  simp only [hfind, hmem]
  cases he : d.find? id with
  | none => simp
  | some e =>
    simp only [Option.map_some, Option.getD_some, Option.some.injEq, exists_eq_left']
    by_cases hsel : ResetFilter.selects regex onlyFailed e
    · simp only [f, if_pos hsel]
      rcases e.resetVerdict_cases now k with ⟨hc, hent, -⟩ | ⟨hv, hfailed, hrunning⟩
      · simp only [hc, hent, Bool.false_eq_true, and_false, if_false]
      · rw [hv]
        have hchanged : Entity.Changed now _ e _ _ := .reset k hfailed hrunning
        have hreset := hchanged.attempts s
        simp only [Verdict.entity, Verdict.isChanged, and_true]
        exact hreset
    · simp only [f, if_neg hsel, Verdict.entity, Verdict.isChanged, Bool.false_eq_true, and_false,
        if_false]

end Document

/-- Whether an operation is a reset from `s` or from an earlier step. -/
def Operation.resets (s : Step) : Operation → Bool
  | reset step _ => (Step.ofName? step).any (· ≤ s)
  | _ => false

/-- Only a reset changes attempts, and it changes them to none. -/
theorem Operation.Makes.attempts {op : Operation} {now : Timestamp} {d : Document} {c : Change}
    (h : op.Makes now d c) (hf : d.IsFiled) (id : String) (s : Step) :
    c.document.attempts id s =
      if op.resets s ∧ id ∈ c.report.entities then 0 else d.attempts id s := by
  by_cases hr : ∃ step filter, op = .reset step filter
  · obtain ⟨step, filter, rfl⟩ := hr
    cases h with
    | reset hs regex =>
      rw [Document.attempts_reset now _ regex _ hf id s]
      simp [resets, hs]
  · have hL : ∀ c, op.Allows c → c = .kept := by
      intro c hc
      cases op with
      | reset step filter => exact absurd ⟨step, filter, rfl⟩ hr
      | _ => cases c <;> first | rfl | cases hc
    have hno : op.resets s = false := by
      cases op with
      | reset step filter => exact absurd ⟨step, filter, rfl⟩ hr
      | _ => rfl
    rw [(h.changes.mono hL).attempts id s, hno, if_neg (by simp)]

/-! ## What a run does to the attempts -/

namespace Document

variable {d : Document} {s : Step} {ids : List String}

theorem attempts_withMarks (now : Timestamp) (runId : RunId) (hw : d.Awaits s ids) (id : String)
    (k : Step) : (d.withMarks now runId s ids).attempts id k =
      d.attempts id k + if id ∈ ids ∧ k = s then 1 else 0 := by
  unfold attempts
  rw [find?_withMarks]
  by_cases hid : id ∈ ids
  · obtain ⟨e, he, -, hl⟩ := hw.waiting id hid
    have hm : marked now runId s ids id e = (e.mark now runId s).1 := if_pos hid
    simp only [he, Option.map_some, Option.getD_some, hm, (Entity.step_mark now runId hl k).2,
      hid, true_and]
    split <;> rfl
  · cases d.find? id with
    | none => simp [hid]
    | some e => simp [marked, hid]

/-- What a mark finds is pending, and what it leaves is running. -/
theorem statusAt?_withMarks (now : Timestamp) (runId : RunId) (hw : d.Awaits s ids) (id : String)
    (k : Step) : (d.statusAt? id k = some .pending ∧
      (d.withMarks now runId s ids).statusAt? id k = some .running) ↔ id ∈ ids ∧ k = s := by
  unfold statusAt?
  rw [find?_withMarks]
  by_cases hid : id ∈ ids
  · obtain ⟨e, he, hp, hl⟩ := hw.waiting id hid
    have hm : marked now runId s ids id e = (e.mark now runId s).1 := if_pos hid
    simp only [he, Option.map_some, Option.some.injEq, hm, (Entity.step_mark now runId hl k).1,
      hid, true_and]
    by_cases hk : k = s
    · subst hk
      simp [(Entity.isPendingAt_iff.mp hp).2.1]
    · simp only [hk, if_false, iff_false]
      rintro ⟨h, h'⟩
      rw [h] at h'
      cases h'
  · cases he : d.find? id with
    | none => simp [hid]
    | some e =>
      have hm : marked now runId s ids id e = e := if_neg hid
      simp only [Option.map_some, Option.some.injEq, hm, hid, false_and, iff_false]
      rintro ⟨h, h'⟩
      rw [h] at h'
      cases h'

/-- Entering outcomes changes no attempts and starts nothing. -/
theorem attempts_withOutcomes (now : Timestamp) (s : Step) (ending : String → Ending)
    (ids : List String) (batch : Batch) (d : Document) (id : String) (k : Step) :
    (d.withOutcomes now s ending ids batch).attempts id k = d.attempts id k ∧
      ¬(d.statusAt? id k = some .pending ∧
        (d.withOutcomes now s ending ids batch).statusAt? id k = some .running) := by
  have hfold : ∀ e : Entity, ((folded now s ending ids id e).step k).attempts =
      (e.step k).attempts ∧ (((folded now s ending ids id e).step k).status = .running →
        (e.step k).status = .running) := by
    intro e
    unfold folded Entity.fold
    split
    · cases (ending id).outcome with
      | succeeded metrics =>
        dsimp only
        rw [(Entity.sameProgress_emit ..).attempts, (Entity.sameProgress_emit ..).stepStatus,
          Entity.step_completeStep]
        split
        · exact ⟨rfl, nofun⟩
        · exact ⟨rfl, fun h => h⟩
      | failed message =>
        dsimp only
        rw [(Entity.sameProgress_emit ..).attempts, (Entity.sameProgress_emit ..).stepStatus,
          Entity.step_failStep]
        split
        · exact ⟨rfl, nofun⟩
        · exact ⟨rfl, fun h => h⟩
    · exact ⟨rfl, fun h => h⟩
  unfold attempts statusAt?
  rw [find?_withOutcomes]
  cases he : d.find? id with
  | none => exact ⟨rfl, nofun⟩
  | some e =>
    simp only [Option.map_some, Option.getD_some, Option.some.injEq]
    refine ⟨(hfold e).1, fun ⟨hp, hr⟩ => ?_⟩
    rw [(hfold e).2 hr] at hp
    cases hp

/-- From one save of a run to the next, a step has one more attempt if it has been marked
running, and else as many as before. -/
def Advances (d d' : Document) : Prop :=
  ∀ id s, d'.attempts id s = d.attempts id s +
    if d.statusAt? id s = some .pending ∧ d'.statusAt? id s = some .running then 1 else 0

theorem Advances.of_related {d' : Document} (h : d.Related Entity.SameWork d') :
    d.Advances d' := by
  intro id s
  obtain ⟨ha, hs⟩ := attempts_of_related h id s
  rw [ha, hs, if_neg]
  · rfl
  · rintro ⟨hp, hr⟩
    rw [hp] at hr
    cases hr

theorem Advances.congr {d₀ d' : Document} (h : d₀.Related Entity.SameWork d)
    (ha : d.Advances d') : d₀.Advances d' := by
  intro id s
  obtain ⟨hd, hs⟩ := attempts_of_related h id s
  rw [ha id s, hd, hs]

end Document

variable {σ : Type}

/-- Whether the document that these events of a run over `d` leave has counted their calls. -/
def RunEvent.Counted (d : Document) (l : List RunEvent) : Prop :=
  ∀ id s, d.attempts id s + (calls l).countP (fun c => c.entity = id ∧ c.step = s) ≤
    ((lastSaved l).getD d).attempts id s

namespace RunEvent

/-- What holds after each of the events. -/
def Throughout (P : List RunEvent → Prop) (l : List RunEvent) : Prop :=
  ∀ seen rest, l = seen ++ rest → P seen

theorem throughout_append {P : List RunEvent → Prop} {l k : List RunEvent}
    (hl : Throughout P l) (hk : ∀ seen rest, k = seen ++ rest → P (l ++ seen)) :
    Throughout P (l ++ k) := by
  intro seen rest h
  rcases List.append_eq_append_iff.mp h with ⟨as, rfl, hk'⟩ | ⟨bs, rfl, -⟩
  · exact hk as rest hk'
  · exact hl seen bs rfl

theorem Throughout.self {P : List RunEvent → Prop} {l : List RunEvent} (h : Throughout P l) :
    P l :=
  h l [] (List.append_nil l).symm

theorem throughout_concat {P : List RunEvent → Prop} {l : List RunEvent} {e : RunEvent}
    (hl : Throughout P l) (he : P (l ++ [e])) : Throughout P (l ++ [e]) := by
  refine throughout_append hl fun seen rest h => ?_
  rcases List.append_eq_singleton_iff.mp h.symm with ⟨rfl, -⟩ | ⟨rfl, -⟩
  · rw [List.append_nil]
    exact hl.self
  · exact he

/-- What the events of a run over `d` say of the attempts. -/
structure Accounts (d : Document) (l : List RunEvent) : Prop where
  counted : Throughout (Counted d) l
  chain : List.IsChain Document.Advances (d :: savings l)

variable {d : Document} {l : List RunEvent}

theorem accounts_nil (d : Document) : Accounts d [] where
  counted := by
    intro seen rest h id s
    obtain ⟨rfl, -⟩ := List.append_eq_nil_iff.mp h.symm
    exact Nat.le_refl _
  chain := .singleton d

/-- A document that the last one advances to can be saved. -/
theorem Accounts.saving (h : Accounts d l) {d' : Document}
    (ha : ((lastSaved l).getD d).Advances d') : Accounts d (l ++ [.saving d']) where
  counted := by
    refine throughout_concat h.counted fun id s => ?_
    have hlast : lastSaved (l ++ [.saving d']) = some d' := by
      rw [lastSaved_append]
      rfl
    have hcalls : calls (l ++ [.saving d']) = calls l := by
      rw [calls_append]
      exact List.append_nil _
    rw [hlast, hcalls, Option.getD_some, ha id s]
    exact Nat.le_trans (h.counted.self id s) (Nat.le_add_right _ _)
  chain := by
    rw [savings_append, ← List.cons_append]
    refine List.isChain_append.mpr ⟨h.chain, .singleton d', fun x hx y hy => ?_⟩
    obtain rfl := Option.some.inj hy
    rw [List.getLast?_cons] at hx
    obtain rfl := Option.some.inj hx
    exact ha

/-- Events that save nothing go on from the last document. -/
theorem Accounts.append (h : Accounts d l) {k : List RunEvent} (hs : savings k = [])
    (hc : ∀ seen rest, k = seen ++ rest → Counted d (l ++ seen)) : Accounts d (l ++ k) where
  counted := throughout_append h.counted hc
  chain := by
    rw [savings_append, hs, List.append_nil]
    exact h.chain

theorem Accounts.event (h : Accounts d l) {e : RunEvent} (hs : e.saved? = none)
    (hc : e.begun? = none) : Accounts d (l ++ [e]) := by
  have hsavings : savings [e] = [] := by simp [savings, hs]
  have hcalls : calls [e] = [] := by simp [calls, hc]
  refine h.append hsavings fun seen rest heq id s => ?_
  rcases List.append_eq_singleton_iff.mp heq.symm with ⟨rfl, -⟩ | ⟨rfl, -⟩
  · rw [List.append_nil]
    exact h.counted.self id s
  · rw [calls_append, hcalls, List.append_nil, lastSaved_append_of_savings_eq_nil hsavings]
    exact h.counted.self id s

end RunEvent

namespace RunState

/-- What a run over `d` keeps of the attempts. -/
structure IsCounted (d : Document) (st : RunState σ) : Prop where
  follows : st.Follows d
  events : RunEvent.Accounts d st.trace

/-- The calls of a batch are at most one for each of its marks. -/
theorem countP_begun_le {s : Step} {ids : List String} (hn : ids.Nodup) {calls begun : List Call}
    (hids : calls.map (·.entity) = ids) (hs : ∀ c ∈ calls, c.step = s)
    (hb : begun.Subperm calls) (id : String) (k : Step) :
    begun.countP (fun c => c.entity = id ∧ c.step = k) ≤ if id ∈ ids ∧ k = s then 1 else 0 := by
  refine Nat.le_trans (hb.countP_le _) ?_
  by_cases hk : id ∈ ids ∧ k = s
  · rw [if_pos hk]
    have hle : calls.countP (fun c => c.entity = id ∧ c.step = k) ≤
        calls.countP fun c => c.entity = id :=
      List.countP_mono_left fun c _ hc => by simpa using (of_decide_eq_true hc).1
    have hcount : calls.countP (fun c => c.entity = id) = ids.count id := by
      rw [← hids, List.count, List.countP_map]
      rfl
    rw [hcount] at hle
    exact Nat.le_trans hle (List.nodup_iff_count.mp hn id)
  · rw [if_neg hk, Nat.le_zero, List.countP_eq_zero]
    intro c hc hck
    obtain ⟨hid, hstep⟩ := of_decide_eq_true hck
    exact hk ⟨hid ▸ hids ▸ List.mem_map_of_mem hc, hstep ▸ hs c hc⟩

theorem isCounted_opening (r : RunSetup σ) (d : Document) (m : Emitter σ) (w : σ) :
    (opening r d m w).IsCounted d :=
  ⟨follows_opening r d m w, RunEvent.accounts_nil d⟩

theorem IsCounted.choose {d : Document} {st : RunState σ} (h : st.IsCounted d)
    (hf : st.document.IsFiled) (r : RunSetup σ) (s : Step) : (st.choose r s).IsCounted d :=
  ⟨h.follows.choose hf r s, h.events⟩

theorem IsCounted.marked {d : Document} {r : RunSetup σ} {s : Step} {ids : List String}
    {st : RunState σ} (h : st.IsCounted d) (hw : st.document.Awaits s ids) :
    RunEvent.Accounts d
      (st.trace ++ [.batchStarted s ids.length, .saving (st.marked r s ids)]) := by
  have hstart : RunEvent.Accounts d (st.trace ++ [.batchStarted s ids.length]) :=
    h.events.event rfl rfl
  rw [List.append_cons]
  refine hstart.saving (Document.Advances.congr (d := st.document) ?_ fun id k => ?_)
  · rw [RunEvent.lastSaved_append_of_savings_eq_nil rfl]
    exact h.follows
  · rw [RunState.marked, Document.attempts_withMarks _ _ hw]
    simp only [Document.statusAt?_withMarks _ _ hw]

/-- Once the marks are saved, the calls of the batch are counted. -/
theorem IsCounted.counted_marked {d : Document} {r : RunSetup σ} {s : Step} {ids : List String}
    {st : RunState σ} (h : st.IsCounted d) (hw : st.document.Awaits s ids) {k : List RunEvent}
    (hs : RunEvent.savings k = [])
    (hc : ∀ id s', (RunEvent.calls k).countP (fun c => c.entity = id ∧ c.step = s') ≤
      if id ∈ ids ∧ s' = s then 1 else 0) :
    RunEvent.Counted d
      (st.trace ++ [.batchStarted s ids.length, .saving (st.marked r s ids)] ++ k) := by
  intro id s'
  have hlast : RunEvent.lastSaved
      (st.trace ++ [.batchStarted s ids.length, .saving (st.marked r s ids)]) =
        some (st.marked r s ids) := by
    rw [List.append_cons, RunEvent.lastSaved_append]
    rfl
  have hcalls : RunEvent.calls
      (st.trace ++ [.batchStarted s ids.length, .saving (st.marked r s ids)]) =
        RunEvent.calls st.trace := by
    rw [RunEvent.calls_append]
    exact List.append_nil _
  have hbefore : d.attempts id s' +
      (RunEvent.calls st.trace).countP (fun c => c.entity = id ∧ c.step = s') ≤
        st.document.attempts id s' := by
    rw [(Document.attempts_of_related h.follows id s').1]
    exact h.events.counted.self id s'
  rw [RunEvent.lastSaved_append_of_savings_eq_nil hs, hlast, RunEvent.calls_append, hcalls,
    List.countP_append, Option.getD_some, RunState.marked,
    Document.attempts_withMarks _ _ hw, ← Nat.add_assoc]
  exact Nat.add_le_add hbefore (hc id s')

theorem IsCounted.batch {d : Document} {r : RunSetup σ} {s : Step} {ids : List String}
    {st st' : RunState σ} (h : st.IsCounted d) (hw : st.document.Awaits s ids)
    (ho : Outline r s ids st st') : st'.IsCounted d := by
  refine ⟨ho.follows d, ?_⟩
  have hmarked := h.marked (r := r) hw
  cases ho with
  | marked hdoc htrace => exact htrace ▸ hmarked
  | folded calls events now ending batch results _ hids hsteps _ hbegun hdoc htrace =>
    have hsavings : RunEvent.savings
        (events.map RunEvent.pool ++ progress s ids.length 0 results) = [] := by
      rw [RunEvent.savings_append, RunEvent.savings_pool, savings_progress]
      rfl
    have hcalls : RunEvent.calls (events.map RunEvent.pool ++ progress s ids.length 0 results) =
        events.filterMap PoolEvent.begun? := by
      rw [RunEvent.calls_append, RunEvent.calls_pool, calls_progress, List.append_nil]
    have hpool := hmarked.append hsavings fun seen rest heq => by
      rw [heq, RunEvent.savings_append] at hsavings
      rw [heq, RunEvent.calls_append] at hcalls
      refine h.counted_marked hw (List.append_eq_nil_iff.mp hsavings).1 fun id k => ?_
      refine Nat.le_trans ?_ (countP_begun_le hw.nodup hids hsteps hbegun id k)
      rw [← hcalls, List.countP_append]
      exact Nat.le_add_right _ _
    have hlast : RunEvent.lastSaved
        (st.trace ++ [.batchStarted s ids.length, .saving (st.marked r s ids)] ++
          (events.map RunEvent.pool ++ progress s ids.length 0 results)) =
            some (st.marked r s ids) := by
      rw [RunEvent.lastSaved_append_of_savings_eq_nil hsavings, List.append_cons,
        RunEvent.lastSaved_append]
      rfl
    rw [htrace, List.append_assoc _ (events.map RunEvent.pool), hdoc]
    refine hpool.saving fun id k => ?_
    obtain ⟨ha, hn⟩ := Document.attempts_withOutcomes now s ending ids batch
      (st.marked r s ids) id k
    rw [hlast, Option.getD_some, ha, if_neg hn]
    rfl

end RunState

/-- The saves and the calls of a run are in step with the attempts. -/
theorem RunSetup.accounts_run (r : RunSetup σ) (m : Emitter σ) (w : σ) {d : Document}
    (hl : r.store.load (r.clock w) w = .ok d) (hf : d.IsFiled) :
    RunEvent.Accounts d (r.run m w).trace := by
  obtain ⟨st, h, hends⟩ := r.trace_run m w hl hf (RunState.isCounted_opening r d m w)
    (fun s st hf h => h.choose hf r s) fun s ids st st' h hw ho => h.batch hw ho
  have hclosing : RunEvent.Accounts d
      (st.trace ++ [.saving (st.document.setCurrentStep none)]) :=
    h.events.saving (Document.Advances.of_related h.follows)
  generalize (r.run m w).trace = events at hends ⊢
  cases hends with
  | halted => exact h.events
  | closing => exact hclosing
  | done summary => exact h.events.event rfl rfl
  | closed summary => exact hclosing.event rfl rfl

/-! ## What a history does to the attempts -/

namespace Episode

/-- The calls for a step since it was last reset, if there were `n` before this episode. -/
def callsAfter (id : String) (s : Step) (n : Nat) : Episode → Nat
  | operation op (.ok report) => if op.resets s ∧ id ∈ report.entities then 0 else n
  | operation _ (.error _) => n
  | run calls => n + calls.countP fun c => c.entity = id ∧ c.step = s

/-- The calls made for a step of an entity since a reset that covers it was last saved. -/
def callsSince (id : String) (s : Step) (h : List Episode) : Nat := h.foldl (callsAfter id s) 0

theorem callsSince_append (id : String) (s : Step) (h : List Episode) (e : Episode) :
    callsSince id s (h ++ [e]) = e.callsAfter id s (callsSince id s h) :=
  List.foldl_concat ..

end Episode

namespace Site

theorem isKept_calls (S : Site σ) :
    S.IsKept fun h d => ∀ id s, Episode.callsSince id s h ≤ d.attempts id s where
  empty now id s := Nat.le_refl 0
  same := by
    intro h d d' hs hp id s
    have hw : d.Related Entity.SameWork d' := hs.mono fun h => h.toSameWork
    rw [(Document.attempts_of_related hw id s).1]
    exact hp id s
  unchanged := by
    intro h d op result hr hp id s
    rw [Episode.callsSince_append]
    cases result with
    | error e => exact hp id s
    | ok report =>
      simp only [Episode.callsAfter, hr report rfl, List.not_mem_nil, and_false, if_false]
      exact hp id s
  changed := by
    intro h d op now c hf hm hp id s
    rw [Episode.callsSince_append, hm.attempts hf id s, Episode.callsAfter]
    split
    · exact Nat.le_refl 0
    · exact hp id s
  unloaded := by
    intro h d hp id s
    rw [Episode.callsSince_append]
    exact hp id s
  run := by
    intro h d r m w seen rest hl hf ht hp id s
    have hc := (r.accounts_run m w hl hf).counted seen rest ht id s
    rw [Episode.callsSince_append, Episode.callsAfter]
    exact Nat.le_trans (Nat.add_le_add_right (hp id s) _) hc

theorem attempts_le {d : Document} (hd : d.Every Entity.IsSound) (id : String) (s : Step) :
    d.attempts id s ≤ maxAttempts := by
  cases he : d.find? id with
  | none =>
    rw [Document.attempts, he]
    exact Nat.zero_le _
  | some e =>
    rw [Document.attempts_of_find? he]
    exact (hd id e he).attempts_le s

/-- An operation that saves anything leaves all attempts, except those that it resets. -/
theorem attempts_perform (S : Site σ) (op : Operation) (now : Timestamp) {m : Emitter σ}
    (hm : S.SparedBySinks m.sinks) (w : σ) :
    S.text? (op.perform S.store now m w).2.2 = S.text? w ∨
      ∃ (d d' : Document) (report : Report), S.store.load now w = .ok d ∧
        (op.perform S.store now m w).1 = .ok report ∧
        S.text? (op.perform S.store now m w).2.2 = some d'.text ∧
        ∀ id s, d'.attempts id s =
          if op.resets s ∧ id ∈ report.entities then 0 else d.attempts id s := by
  have ho := op.outcome_perform S.store now m w
  generalize op.perform S.store now m w = res at ho ⊢
  cases ho with
  | refused e => exact Or.inl rfl
  | idle => exact Or.inl rfl
  | unsaved _ _ hs => exact Or.inl (S.save_error hs)
  | saved hl hmk _ hs =>
    exact Or.inr ⟨_, _, _, hl, rfl, text?_flush_save hm hs _, hmk.attempts (isFiled_of_load hl)⟩

/-- At most three calls are made for a step before it is reset.  After any history the calls
since its last reset are among the attempts on disk.  Operations other than resets leave all
attempts, and from save to save a run adds one wherever it marks a step running. -/
theorem calls_le_attempts (S : Site σ) :
    (∀ h t, S.History h t →
      (∃ d : Document, d.IsOn t ∧ ∀ id s, Episode.callsSince id s h ≤ d.attempts id s ∧
        d.attempts id s ≤ maxAttempts) ∧
      ∀ text d, t = some text → Document.ofText text = .ok d →
        ∀ id s, Episode.callsSince id s h ≤ d.attempts id s ∧ d.attempts id s ≤ maxAttempts) ∧
    (∀ (op : Operation) now (m : Emitter σ) w, S.SparedBySinks m.sinks →
      S.text? (op.perform S.store now m w).2.2 = S.text? w ∨
        ∃ (d d' : Document) (report : Report), S.store.load now w = .ok d ∧
          (op.perform S.store now m w).1 = .ok report ∧
          S.text? (op.perform S.store now m w).2.2 = some d'.text ∧
          ∀ id s, d'.attempts id s =
            if op.resets s ∧ id ∈ report.entities then 0 else d.attempts id s) ∧
    ∀ (r : RunSetup σ) m w d, r.store = S.store → r.store.load (r.clock w) w = .ok d →
      List.IsChain Document.Advances (d :: RunEvent.savings (r.run m w).trace) := by
  refine ⟨fun h t hh => ?_, fun op now m w hm => S.attempts_perform op now hm w,
    fun r m w d hr hl => (r.accounts_run m w hl (isFiled_of_load (hr ▸ hl))).chain⟩
  have hkept := S.isKept_calls.and S.isKept_isSound
  obtain ⟨d, hd, hcalls, hsound⟩ := hkept.history hh
  refine ⟨⟨d, hd, fun id s => ⟨hcalls id s, attempts_le hsound id s⟩⟩, ?_⟩
  rintro text d' rfl hread
  obtain rfl := hd
  have hsame := (Document.readsBack_of_ofText hread).sameProgress
  exact fun id s => ⟨hkept.same hsame ⟨hcalls, hsound⟩ |>.1 id s,
    attempts_le (hkept.same hsame ⟨hcalls, hsound⟩).2 id s⟩

theorem calls_le_attempts_memory : ∃ t, Memory.site.History
      [.operation (.register "post" .null) (.ok ⟨"post registered", ["post"], []⟩),
        .run (Step.all.map fun s => ⟨"post", .null, s⟩)] (some t) ∧
    ∃ d : Document, d.IsOn (some t) ∧ 1 ≤ d.attempts "post" .published ∧
      d.attempts "post" .published ≤ maxAttempts := by
  obtain ⟨t, ht⟩ := Memory.history_run
  obtain ⟨⟨d, hd, hcalls⟩, -⟩ := (calls_le_attempts Memory.site).1 _ _ ht
  obtain ⟨hle, hmax⟩ := hcalls "post" .published
  -- the one run has called the executor once
  have hone : 1 ≤ d.attempts "post" .published := hle
  exact ⟨t, ht, d, hd, hone, hmax⟩

end Site

end Publishing
