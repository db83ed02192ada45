import Publishing.Proofs.Draining
import Publishing.Proofs.Timeliness

/-
Two worlds with sinks of their own, side by side.

Worlds that neither the store nor the executors can tell apart are alike, and the sinks leave
them so, whatever else they do.  As long as the same is done in both worlds, they stay alike,
the state files differ in moments, durations and run ids only, and records of one gist are sent
to the sinks of either world.
-/

namespace Publishing

variable {σ β : Type} {alike : σ → σ → Prop}

/-! ## What cannot be told apart -/

namespace Site

/-- Whether a store cannot tell such worlds apart: if it can load and save in one of them depends
on what is wrong with the text, and on the check of the document to be saved. -/
structure IsBlind (S : Site σ) (alike : σ → σ → Prop) : Prop where
  symm {w w' : σ} (h : alike w w') : alike w' w
  load (now now' : Timestamp) {w w' : σ} (h : alike w w')
    (hfault : (S.text? w').map Document.fault? = (S.text? w).map Document.fault?) :
    Agree (fun _ _ => True) (S.store.load now w) (S.store.load now' w')
  save (now now' : Timestamp) {d d' : Document} {w w' : σ} (h : alike w w')
    (hcheck : d'.check = d.check) :
    (S.store.save now' d' w').1 = (S.store.save now d w).1 ∧
      alike (S.store.save now d w).2 (S.store.save now' d' w').2

/-- Whether nothing comes of it, for the text and for what is alike, when a record is sent to a
sink. -/
structure Hides (S : Site σ) (alike : σ → σ → Prop) (sink : Sink σ) : Prop where
  text (r : AuditRecord) {w w' : σ} (h : alike w w') : S.text? (sink r w).2 = S.text? w
  stays (r : AuditRecord) {w w' : σ} (h : alike w w') : alike (sink r w).2 w'

/-- Worlds that are alike, with texts that differ in nothing that matters. -/
structure Resembles (S : Site σ) (g : String → String) (alike : σ → σ → Prop) (w w' : σ) :
    Prop where
  alike : alike w w'
  text : Document.SameText g (S.text? w) (S.text? w')

variable {S : Site σ} {sinks : List (Sink σ)} {w w' : σ}

theorem alike_deliver (hm : ∀ sink ∈ sinks, S.Hides alike sink) (h : alike w w')
    (r : AuditRecord) :
    alike (Emitter.deliver sinks r w) w' ∧ S.text? (Emitter.deliver sinks r w) = S.text? w := by
  induction sinks generalizing w with
  | nil => exact ⟨h, rfl⟩
  | cons sink rest ih =>
    obtain ⟨hsink, hrest⟩ := List.forall_mem_cons.mp hm
    obtain ⟨hafter, htext⟩ := ih hrest (hsink.stays r h)
    exact ⟨hafter, htext.trans (hsink.text r h)⟩

theorem alike_flush {m : Emitter σ} (hm : ∀ sink ∈ m.sinks, S.Hides alike sink)
    (h : alike w w') : alike (m.flush w).2 w' ∧ S.text? (m.flush w).2 = S.text? w := by
  show alike (m.queue.foldl (fun w r => Emitter.deliver m.sinks r w) w) w' ∧
    S.text? (m.queue.foldl (fun w r => Emitter.deliver m.sinks r w) w) = S.text? w
  induction m.queue generalizing w with
  | nil => exact ⟨h, rfl⟩
  | cons r rest ih =>
    obtain ⟨hfirst, htext⟩ := alike_deliver hm h r
    obtain ⟨hafter, htexts⟩ := ih hfirst
    exact ⟨hafter, htexts.trans htext⟩

end Site

/-! ## Logs -/

/-- How many of these sinks put each record into a log.  The others leave the log alone. -/
inductive Sink.Heard (alike : σ → σ → Prop) (log : σ → β) (put : β → AuditRecord → β) :
    List (Sink σ) → Nat → Prop
  | nil : Heard alike log put [] 0
  | taken {sink : Sink σ} {sinks : List (Sink σ)} {n : Nat}
      (takes : ∀ r {w w'}, alike w w' → log (sink r w).2 = put (log w) r)
      (rest : Heard alike log put sinks n) : Heard alike log put (sink :: sinks) (n + 1)
  | other {sink : Sink σ} {sinks : List (Sink σ)} {n : Nat}
      (spares : ∀ r {w w'}, alike w w' → log (sink r w).2 = log w)
      (rest : Heard alike log put sinks n) : Heard alike log put (sink :: sinks) n

namespace Site

variable {S : Site σ} {X : Executor σ → Prop} {sinks : List (Sink σ)} {start w w' v : σ}
  {sent queue : List AuditRecord} {m : Emitter σ} {log : σ → β} {put : β → AuditRecord → β}
  {n : Nat}

theorem log_deliver (h : Sink.Heard alike log put sinks n)
    (hm : ∀ sink ∈ sinks, S.Hides alike sink) (hw : alike w w') (r : AuditRecord) :
    log (Emitter.deliver sinks r w) = (List.replicate n r).foldl put (log w) := by
  induction h generalizing w with
  | nil => rfl
  | @taken sink sinks n takes _ ih =>
    obtain ⟨hsink, hrest⟩ := List.forall_mem_cons.mp hm
    show log (Emitter.deliver sinks r (sink r w).2) = _
    rw [ih hrest (hsink.stays r hw), takes r hw]
    rfl
  | @other sink sinks n spares _ ih =>
    obtain ⟨hsink, hrest⟩ := List.forall_mem_cons.mp hm
    show log (Emitter.deliver sinks r (sink r w).2) = _
    rw [ih hrest (hsink.stays r hw), spares r hw]

theorem log_flush (h : Sink.Heard alike log put m.sinks n)
    (hm : ∀ sink ∈ m.sinks, S.Hides alike sink) (hw : alike w w') :
    log (m.flush w).2 = (m.queue.flatMap (List.replicate n)).foldl put (log w) := by
  show log (m.queue.foldl (fun w r => Emitter.deliver m.sinks r w) w) = _
  induction m.queue generalizing w with
  | nil => rfl
  | cons r rest ih =>
    rw [List.foldl_cons, ih (alike_deliver hm hw r).1, log_deliver h hm hw, List.flatMap_cons,
      List.foldl_append]

/-- Whether a log is kept by these sinks alone, `n` of which put each record into it. -/
structure IsLog (S : Site σ) (alike : σ → σ → Prop) (X : Executor σ → Prop)
    (sinks : List (Sink σ)) (log : σ → β) (put : β → AuditRecord → β) (n : Nat) : Prop where
  heard : Sink.Heard alike log put sinks n
  save (now : Timestamp) (d : Document) {w w' : σ} (h : alike w w') :
    log (S.store.save now d w).2 = log w
  call {x : Executor σ} (hx : X x) (c : Call) {w w' : σ} (h : alike w w') :
    log (x c w).2 = log w

/-- Since `start` these records have been sent to the sinks, and these wait to be sent.  If there
is no sink, none of them is in the queue. -/
structure Sends (S : Site σ) (alike : σ → σ → Prop) (X : Executor σ → Prop)
    (sinks : List (Sink σ)) (start : σ) (sent queue : List AuditRecord) (m : Emitter σ) (w : σ) :
    Prop where
  emitter : m.sinks = sinks
  waiting : m.queue = if sinks.isEmpty then [] else queue
  logs {β : Type} {log : σ → β} {put : β → AuditRecord → β} {n : Nat}
    (h : S.IsLog alike X sinks log put n) :
    log w = (sent.flatMap (List.replicate n)).foldl put (log start)

namespace Sends

theorem nothing (S : Site σ) (alike : σ → σ → Prop) (X : Executor σ → Prop)
    (sinks : List (Sink σ)) (w : σ) : S.Sends alike X sinks w [] [] (.ofSinks sinks) w :=
  ⟨rfl, (ite_self _).symm, fun _ => rfl⟩

theorem enqueue (h : S.Sends alike X sinks start sent queue m w) (records : List AuditRecord) :
    S.Sends alike X sinks start sent (queue ++ records) (m.enqueue records) w := by
  refine ⟨(Emitter.sinks_enqueue records m).trans h.emitter, ?_, h.logs⟩
  have hqueue := h.waiting
  rw [Emitter.enqueue, h.emitter]
  split
  · rwa [if_pos ‹_›] at hqueue
  · rw [if_neg ‹_›] at hqueue
    rw [hqueue]

theorem discard (h : S.Sends alike X sinks start sent queue m w) :
    S.Sends alike X sinks start sent [] m.discard w :=
  ⟨h.emitter, (ite_self _).symm, h.logs⟩

theorem flush (h : S.Sends alike X sinks start sent queue m w)
    (hm : ∀ sink ∈ sinks, S.Hides alike sink) (hw : alike w w') :
    S.Sends alike X sinks start (sent ++ queue) [] (m.flush w).1 (m.flush w).2 := by
  refine ⟨h.emitter, (ite_self _).symm, fun {β log put n} hlog => ?_⟩
  -- a log that no sink writes to has none of the records, so it does not matter that none waits
  have hqueue : m.queue.flatMap (List.replicate n) = queue.flatMap (List.replicate n) := by
    rw [h.waiting]
    split
    · next hnil =>
      have hheard := hlog.heard
      rw [List.isEmpty_iff.mp hnil] at hheard
      cases hheard
      simp
    · rfl
  obtain rfl := h.emitter
  rw [log_flush hlog.heard hm hw, h.logs hlog, hqueue, List.flatMap_append, List.foldl_append]

theorem elsewhere (h : S.Sends alike X sinks start sent queue m w)
    (hv : ∀ {β : Type} {log : σ → β} {put : β → AuditRecord → β} {n : Nat},
      S.IsLog alike X sinks log put n → log v = log w) :
    S.Sends alike X sinks start sent queue m v :=
  ⟨h.emitter, h.waiting, fun hlog => (hv hlog).trans (h.logs hlog)⟩

end Sends
end Site

/-! ## Calls -/

/-- Whether an executor does the same in worlds that are related, but for the texts of errors and
durations, and leaves them related.  The durations can be written. -/
structure Executor.Respects (g : String → String) (rel : σ → σ → Prop) (x : Executor σ) :
    Prop where
  outcome {c : Call} {w w' : σ} (h : rel w w') :
    (x c w').1.outcome.mask g = (x c w).1.outcome.mask g
  stays {c : Call} {w w' : σ} (h : rel w w') : rel (x c w).2 (x c w').2
  durationMs : x.Gives fun _ ending => ending.durationMs < 2 ^ 64

namespace Pool

variable {g : String → String} {rel : σ → σ → Prop} {x : Executor σ} {p p' : Pool σ}

/-- Two pools have come equally far in worlds that are related. -/
structure Alike (g : String → String) (rel : σ → σ → Prop) (p p' : Pool σ) : Prop where
  waiting : p'.waiting = p.waiting
  active : p'.active = p.active
  ended : p'.ended.map (fun e => (e.1, e.2.outcome.mask g)) =
    p.ended.map fun e => (e.1, e.2.outcome.mask g)
  worlds : rel p.world p'.world

theorem alike_apply (hx : x.Respects g rel) (h : Alike g rel p p') (m : PoolMove) :
    Alike g rel (p.apply x m).1 (p'.apply x m).1 ∧ (p'.apply x m).2 = (p.apply x m).2 := by
  cases m with
  | start i =>
    simp only [apply, h.waiting]
    split
    · exact ⟨⟨rfl, by rw [h.active], h.ended, h.worlds⟩, by rw [h.active]⟩
    · exact ⟨h, rfl⟩
  | finish i =>
    simp only [apply, h.active]
    split
    · refine ⟨⟨h.waiting, rfl, ?_, hx.stays h.worlds⟩, rfl⟩
      rw [List.map_append, List.map_append, h.ended]
      exact congrArg (fun o => _ ++ [(_, o)]) (hx.outcome h.worlds)
    · exact ⟨h, rfl⟩

theorem alike_runFor (hx : x.Respects g rel) (permits : Nat) (schedule : Schedule) (turns : Nat)
    (h : Alike g rel p p') :
    Alike g rel (p.runFor permits x schedule turns).1 (p'.runFor permits x schedule turns).1 ∧
      (p'.runFor permits x schedule turns).2 = (p.runFor permits x schedule turns).2 := by
  induction turns generalizing p p' with
  | zero => exact ⟨h, rfl⟩
  | succ turns ih =>
    have hmoves : p'.moves permits = p.moves permits := by
      rw [moves, moves, h.waiting, h.active]
    rw [runFor, runFor, hmoves]
    cases p.moves permits with
    | nil => exact ⟨h, rfl⟩
    | cons m ms =>
      obtain ⟨happly, hevents⟩ := alike_apply hx h
        (((m :: ms)[schedule turns % (ms.length + 1)]?).getD m)
      obtain ⟨hrest, hmore⟩ := ih happly
      exact ⟨hrest, congrArg₂ (· ++ ·) hevents hmore⟩

theorem alike_drain (hx : x.Respects g rel) (permits : Nat) (schedule : Schedule)
    (calls : List Call) {w w' : σ} (hw : rel w w') :
    Alike g rel ((ofCalls calls w).drain permits x schedule).1
        ((ofCalls calls w').drain permits x schedule).1 ∧
      ((ofCalls calls w').drain permits x schedule).2 =
        ((ofCalls calls w).drain permits x schedule).2 :=
  alike_runFor hx permits schedule _ ⟨rfl, rfl, rfl, hw⟩

/-- What no call touches, a pool leaves alone. -/
theorem eq_drain {f : σ → σ → β} (hx : x.Respects g rel)
    (hf : ∀ {c w w'}, rel w w' → f (x c w).2 (x c w').2 = f w w') (permits : Nat)
    (schedule : Schedule) (calls : List Call) {w w' : σ} (hw : rel w w') :
    f ((ofCalls calls w).drain permits x schedule).1.world
      ((ofCalls calls w').drain permits x schedule).1.world = f w w' := by
  have hkeeps : x.Respects g fun v v' => rel v v' ∧ f v v' = f w w' :=
    { outcome := fun h => hx.outcome h.1
      stays := fun ⟨h, he⟩ => ⟨hx.stays h, (hf h).trans he⟩
      durationMs := hx.durationMs }
  exact (alike_drain hkeeps permits schedule calls ⟨hw, rfl⟩).1.worlds.2

/-- The outcomes of the same call are the same, as `g` shows them. -/
theorem Alike.outcome_endingOf (h : Alike g rel p p') (id : String) :
    (p'.endingOf id).outcome.mask g = (p.endingOf id).outcome.mask g := by
  have hfind : ∀ p : Pool σ, (p.endingOf id).outcome.mask g =
      (((p.ended.map fun e => (e.1, e.2.outcome.mask g)).find? fun e => e.1.entity = id).map
        (·.2)).getD ((Ending.aborted "the call did not end").outcome.mask g) := by
    intro p
    rw [List.find?_map, endingOf]
    simp only [Function.comp_def]
    cases p.ended.find? fun e => e.1.entity = id <;> rfl
  rw [hfind, hfind, h.ended]

theorem durationMs_endingOf (hx : x.Respects g rel) (permits : Nat) (schedule : Schedule)
    (calls : List Call) (w : σ) (id : String) :
    (((ofCalls calls w).drain permits x schedule).1.endingOf id).durationMs < 2 ^ 64 := by
  have hended : ∀ e ∈ ((ofCalls calls w).drain permits x schedule).1.ended,
      e.2.durationMs < 2 ^ 64 := ended_runFor permits hx.durationMs schedule _ nofun
  unfold endingOf
  split
  · next e he => exact hended e (List.mem_of_find?_eq_some he)
  · exact Nat.two_pow_pos 64

end Pool

/-! ## Pairs of worlds -/

/-- Two worlds in which the same is done, with sinks of their own.  Neither the store nor the
executors can tell the worlds apart, and the sinks do not change that. -/
structure Pairing (σ : Type) where
  site : Site σ
  alike : σ → σ → Prop
  mask : String → String
  executors : Executor σ → Prop
  sinks : List (Sink σ)
  sinks' : List (Sink σ)
  start : σ
  start' : σ
  blind : site.IsBlind alike
  respects : ∀ x, executors x → x.Respects mask (site.Resembles mask alike)
  hides : ∀ sink ∈ sinks, site.Hides alike sink
  hides' : ∀ sink ∈ sinks', site.Hides alike sink

namespace Pairing

variable {p : Pairing σ} {m m' : Emitter σ} {w w' : σ}

/-- What the two worlds and their emitters have in common while the same is done in both. -/
structure Abreast (p : Pairing σ) (m : Emitter σ) (w : σ) (m' : Emitter σ) (w' : σ) : Prop where
  worlds : p.site.Resembles p.mask p.alike w w'
  sends : ∃ sent sent' queue queue',
    sent'.map (AuditRecord.gist p.mask) = sent.map (AuditRecord.gist p.mask) ∧
    queue'.map (AuditRecord.gist p.mask) = queue.map (AuditRecord.gist p.mask) ∧
    p.site.Sends p.alike p.executors p.sinks p.start sent queue m w ∧
    p.site.Sends p.alike p.executors p.sinks' p.start' sent' queue' m' w'

/-- Two saves with the same result, after which the records have gone out or were dropped. -/
inductive Saves (p : Pairing σ) (m m' : Emitter σ) :
    Except Error Unit × σ → Except Error Unit × σ → Prop
  | saved {v v' : σ}
      (h : p.Abreast (m.flush v).1 (m.flush v).2 (m'.flush v').1 (m'.flush v').2) :
      Saves p m m' (.ok (), v) (.ok (), v')
  | failed (e : Error) {v v' : σ} (h : p.Abreast m.discard v m'.discard v') :
      Saves p m m' (.error e, v) (.error e, v')

namespace Abreast

theorem enqueue (h : p.Abreast m w m' w') {records records' : List AuditRecord}
    (hr : records'.map (AuditRecord.gist p.mask) = records.map (AuditRecord.gist p.mask)) :
    p.Abreast (m.enqueue records) w (m'.enqueue records') w' := by
  obtain ⟨sent, sent', queue, queue', hsent, hqueue, hs, hs'⟩ := h.sends
  refine ⟨h.worlds, sent, sent', _, _, hsent, ?_, hs.enqueue records, hs'.enqueue records'⟩
  rw [List.map_append, List.map_append, hqueue, hr]

theorem discard (h : p.Abreast m w m' w') : p.Abreast m.discard w m'.discard w' := by
  obtain ⟨sent, sent', queue, queue', hsent, -, hs, hs'⟩ := h.sends
  exact ⟨h.worlds, sent, sent', [], [], hsent, rfl, hs.discard, hs'.discard⟩

/-- The worlds change, but no log does. -/
theorem elsewhere (h : p.Abreast m w m' w') {v v' : σ}
    (hworlds : p.site.Resembles p.mask p.alike v v')
    (hlogs : ∀ {β : Type} {log : σ → β} {put : β → AuditRecord → β} {n : Nat},
      p.site.IsLog p.alike p.executors p.sinks log put n → log v = log w)
    (hlogs' : ∀ {β : Type} {log : σ → β} {put : β → AuditRecord → β} {n : Nat},
      p.site.IsLog p.alike p.executors p.sinks' log put n → log v' = log w') :
    p.Abreast m v m' v' := by
  obtain ⟨sent, sent', queue, queue', hsent, hqueue, hs, hs'⟩ := h.sends
  exact ⟨hworlds, sent, sent', queue, queue', hsent, hqueue, hs.elsewhere hlogs,
    hs'.elsewhere hlogs'⟩

/-- The calls of a batch, made in both worlds. -/
theorem drain (h : p.Abreast m w m' w') {x : Executor σ} (hx : p.executors x) (permits : Nat)
    (schedule : Schedule) (calls : List Call) :
    p.Abreast m ((Pool.ofCalls calls w).drain permits x schedule).1.world
      m' ((Pool.ofCalls calls w').drain permits x schedule).1.world := by
  have hrespects := p.respects x hx
  refine h.elsewhere (Pool.alike_drain hrespects permits schedule calls h.worlds).1.worlds
    (fun {β log put n} hlog => ?_) (fun {β log put n} hlog => ?_)
  · exact Pool.eq_drain (f := fun v _ => log v) hrespects (fun h => hlog.call hx _ h.alike)
      permits schedule calls h.worlds
  · exact Pool.eq_drain (f := fun _ v => log v) hrespects
      (fun h => hlog.call hx _ (p.blind.symm h.alike)) permits schedule calls h.worlds

theorem flush (h : p.Abreast m w m' w') :
    p.Abreast (m.flush w).1 (m.flush w).2 (m'.flush w').1 (m'.flush w').2 := by
  obtain ⟨sent, sent', queue, queue', hsent, hqueue, hs, hs'⟩ := h.sends
  have hw := h.worlds.alike
  obtain ⟨hleft, htext⟩ := Site.alike_flush (hs.emitter ▸ p.hides) hw
  obtain ⟨hright, htext'⟩ := Site.alike_flush (hs'.emitter ▸ p.hides') (p.blind.symm hleft)
  refine ⟨⟨p.blind.symm hright, ?_⟩, _, _, [], [], ?_, rfl, hs.flush p.hides hw,
    hs'.flush p.hides' (p.blind.symm hw)⟩
  · rw [htext, htext']
    exact h.worlds.text
  · rw [List.map_append, List.map_append, hsent, hqueue]

/-- The stores load documents of one gist, or fail with the same error. -/
theorem load (h : p.Abreast m w m' w') {now now' : Timestamp} (hnow : now.InRange)
    (hnow' : now'.InRange) :
    Agree (fun d d' => d'.gist p.mask = d.gist p.mask ∧ d.IsTimely ∧ d'.IsTimely)
      (p.site.store.load now w) (p.site.store.load now' w') := by
  have htext := h.worlds.text
  have hload := p.blind.load now now' h.worlds.alike htext.fault?_eq
  rcases hd : p.site.store.load now w with e | d
  all_goals rcases hd' : p.site.store.load now' w' with e' | d'
  all_goals rw [hd, hd'] at hload
  all_goals cases hload
  · exact .error e
  refine .ok ?_
  rcases p.site.load_ok hd with ⟨ht, rfl⟩ | ⟨t, ht, hread, -⟩
  · rcases p.site.load_ok hd' with ⟨-, rfl⟩ | ⟨t', ht', -, -⟩
    · exact ⟨rfl, Document.isTimely_empty hnow, Document.isTimely_empty hnow'⟩
    · rw [ht, ht'] at htext
      cases htext.isSome_eq
  · rcases p.site.load_ok hd' with ⟨ht', -⟩ | ⟨t', ht', hread', -⟩
    · rw [ht, ht'] at htext
      cases htext.isSome_eq
    · rw [ht, ht'] at htext
      exact ⟨htext.gist_of_ofText hread hread', Document.isTimely_of_ofText hread,
        Document.isTimely_of_ofText hread'⟩

/-- Documents of one gist are saved alike. -/
theorem save (h : p.Abreast m w m' w') {now now' : Timestamp} (hnow : now.InRange)
    (hnow' : now'.InRange) {d d' : Document} (hg : d'.gist p.mask = d.gist p.mask)
    (hd : d.IsTimely) (hd' : d'.IsTimely) :
    p.Saves m m' (p.site.store.save now d w) (p.site.store.save now' d' w') := by
  have hw := h.worlds.alike
  obtain ⟨hresult, halike⟩ := p.blind.save now now' hw (Document.check_of_gist hg)
  have hlogs : ∀ {β : Type} {log : σ → β} {put : β → AuditRecord → β} {n : Nat},
      p.site.IsLog p.alike p.executors p.sinks log put n →
        log (p.site.store.save now d w).2 = log w := fun hlog => hlog.save now d hw
  have hlogs' : ∀ {β : Type} {log : σ → β} {put : β → AuditRecord → β} {n : Nat},
      p.site.IsLog p.alike p.executors p.sinks' log put n →
        log (p.site.store.save now' d' w').2 = log w' :=
    fun hlog => hlog.save now' d' (p.blind.symm hw)
  rcases hs : p.site.store.save now d w with ⟨res, v⟩
  rcases hs' : p.site.store.save now' d' w' with ⟨res', v'⟩
  rw [hs, hs'] at hresult halike
  rw [hs] at hlogs
  rw [hs'] at hlogs'
  obtain rfl : res' = res := hresult
  cases res' with
  | error e =>
    refine .failed e (h.discard.elsewhere ⟨halike, ?_⟩ hlogs hlogs')
    rw [p.site.save_error hs, p.site.save_error hs']
    exact h.worlds.text
  | ok =>
    refine .saved (h.elsewhere ⟨halike, ?_⟩ hlogs hlogs').flush
    rw [p.site.save_ok hs, p.site.save_ok hs']
    exact .texts hg (hd.stamp hnow) (hd'.stamp hnow')

end Abreast
end Pairing
end Publishing
