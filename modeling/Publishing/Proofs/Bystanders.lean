import Publishing.Proofs.Ledger
import Publishing.Proofs.Lockstep
import Publishing.Proofs.LogFiles

/-
Sinks stand by.

The same operations and runs are gone through twice, at different times and with different
sinks.  Sinks that keep away from the state file and from what the store and the executors look
at make no difference: whatever they do otherwise and whether they succeed or fail, the answers
are the same, the state files hold documents of one gist, and to each sink the same is sent in
the same order.  Logs in files of their own are such sinks; one in the state file is not.
-/

namespace Publishing

variable {σ : Type}

/-- What can be asked for. -/
inductive Deed (σ : Type) where
  | operation (op : Operation)
  | run (x : Executor σ) (concurrency : Nat) (schedule : Schedule)

/-- What is different each time that something is asked for. -/
structure Occasion (σ : Type) where
  clock : σ → Timestamp
  runId : RunId

def Occasion.setup (S : Site σ) (x : Executor σ) (concurrency : Nat) (schedule : Schedule)
    (o : Occasion σ) : RunSetup σ where
  store := S.store
  executor := x
  clock := o.clock
  runId := o.runId
  concurrency := concurrency
  schedule := schedule

/-- What comes back, and what is told on the way. -/
inductive Reply where
  | operation (result : Except Error Report)
  | run (result : Except Halt RunSummary) (trace : List RunEvent)

def Reply.gist (g : String → String) : Reply → Reply
  | operation result => operation result
  | run result trace => run (result.map (RunSummary.gist g)) (trace.map (RunEvent.gist g))

namespace Deed

def executor? : Deed σ → Option (Executor σ)
  | operation _ => none
  | run x _ _ => some x

def perform (S : Site σ) (o : Occasion σ) (m : Emitter σ) (w : σ) :
    Deed σ → Reply × Emitter σ × σ
  | operation op =>
    let (result, m, w) := op.perform S.store (o.clock w) m w
    (.operation result, m, w)
  | run x concurrency schedule =>
    let result := (o.setup S x concurrency schedule).run m w
    (.run result.result result.trace, result.emitter, result.world)

end Deed

/-- What comes of deeds on their occasions, one after the other with one emitter. -/
def Site.play (S : Site σ) : List (Deed σ × Occasion σ) → Emitter σ → σ →
    List Reply × Emitter σ × σ
  | [], m, w => ([], m, w)
  | (deed, o) :: rest, m, w =>
    let (reply, m, w) := deed.perform S o m w
    let (replies, m, w) := S.play rest m w
    (reply :: replies, m, w)

namespace Pairing

variable {p : Pairing σ} {m m' : Emitter σ} {w w' : σ}

/-! ## Operations -/

/-- Changes of one gist are committed alike. -/
theorem Abreast.commit (h : p.Abreast m w m' w') {now now' : Timestamp} (hnow : now.InRange)
    (hnow' : now'.InRange) {c c' : Change} (hg : c'.gist p.mask = c.gist p.mask)
    (hc : c.document.IsTimely) (hc' : c'.document.IsTimely) :
    (c'.commit p.site.store now' m' w').1 = (c.commit p.site.store now m w).1 ∧
      p.Abreast (c.commit p.site.store now m w).2.1 (c.commit p.site.store now m w).2.2
        (c'.commit p.site.store now' m' w').2.1 (c'.commit p.site.store now' m' w').2.2 := by
  obtain ⟨hdocument, hrecords, hreport⟩ := Change.mk.inj hg
  have hreport : c'.report = c.report := hreport
  have hqueued := h.enqueue hrecords
  have hsave := hqueued.save hnow hnow' hdocument hc hc'
  unfold Change.commit
  rw [hreport]
  dsimp only
  split
  · exact ⟨rfl, hqueued.discard⟩
  · generalize p.site.store.save now c.document w = x,
      p.site.store.save now' c'.document w' = x' at hsave ⊢
    cases hsave with
    | saved hst => exact ⟨rfl, hst⟩
    | failed e hst => exact ⟨rfl, hst⟩

theorem Abreast.perform_operation (h : p.Abreast m w m' w') {now now' : Timestamp}
    (hnow : now.InRange) (hnow' : now'.InRange) (op : Operation) :
    (op.perform p.site.store now' m' w').1 = (op.perform p.site.store now m w).1 ∧
      p.Abreast (op.perform p.site.store now m w).2.1 (op.perform p.site.store now m w).2.2
        (op.perform p.site.store now' m' w').2.1 (op.perform p.site.store now' m' w').2.2 := by
  have hchange : Agree (fun c c' => c'.gist p.mask = c.gist p.mask ∧ c.document.IsTimely ∧
      c'.document.IsTimely)
      (do let change ← op.prepare; change now (← p.site.store.load now w) : Except Error Change)
      (do let change ← op.prepare; change now' (← p.site.store.load now' w')) := by
    cases hp : op.prepare with
    | error e => exact .error e
    | ok f =>
      refine (h.load hnow hnow').bind fun d d' hd => ?_
      have hagree := op.agree_change hp hd.1 now now'
      rcases hc : f now d with e | c
      all_goals rcases hc' : f now' d' with e' | c'
      all_goals rw [hc, hc'] at hagree
      all_goals cases hagree
      · exact .error e
      · exact .ok ⟨‹_›, hd.2.1.change hnow hp hc, hd.2.2.change hnow' hp hc'⟩
  unfold Operation.perform
  dsimp only
  generalize (do let change ← op.prepare; change now (← p.site.store.load now w) :
      Except Error Change) = x,
    (do let change ← op.prepare; change now' (← p.site.store.load now' w') :
      Except Error Change) = x' at hchange ⊢
  cases hchange with
  | error e => exact ⟨rfl, h⟩
  | ok hc => exact h.commit hnow hnow' hc.1 hc.2.1 hc.2.2

/-! ## Histories -/

theorem Abreast.perform (h : p.Abreast m w m' w') {deed : Deed σ}
    (hx : ∀ x ∈ deed.executor?, p.executors x) {o o' : Occasion σ}
    (ho : ∀ w, (o.clock w).InRange) (ho' : ∀ w, (o'.clock w).InRange) :
    (deed.perform p.site o' m' w').1.gist p.mask = (deed.perform p.site o m w).1.gist p.mask ∧
      p.Abreast (deed.perform p.site o m w).2.1 (deed.perform p.site o m w).2.2
        (deed.perform p.site o' m' w').2.1 (deed.perform p.site o' m' w').2.2 := by
  cases deed with
  | operation op =>
    obtain ⟨hresult, hst⟩ := h.perform_operation (ho w) (ho' w') op
    exact ⟨congrArg Reply.operation hresult, hst⟩
  | run x concurrency schedule =>
    have hmatches : p.Matches (o.setup p.site x concurrency schedule)
        (o'.setup p.site x concurrency schedule) := ⟨rfl, rfl, rfl, hx x rfl, rfl, rfl, ho, ho'⟩
    have hagrees := h.run hmatches
    exact ⟨congrArg₂ Reply.run hagrees.result hagrees.trace, hagrees.abreast⟩

/-- What has happened in turn on occasions that differ. -/
theorem Abreast.play {h h' : List (Deed σ × Occasion σ)} (hsame : h'.map (·.1) = h.map (·.1))
    (hx : ∀ q ∈ h, ∀ x ∈ q.1.executor?, p.executors x)
    (ho : ∀ q ∈ h, ∀ w, (q.2.clock w).InRange) (ho' : ∀ q ∈ h', ∀ w, (q.2.clock w).InRange)
    (hp : p.Abreast m w m' w') :
    (p.site.play h' m' w').1.map (Reply.gist p.mask) =
        (p.site.play h m w).1.map (Reply.gist p.mask) ∧
      p.Abreast (p.site.play h m w).2.1 (p.site.play h m w).2.2 (p.site.play h' m' w').2.1
        (p.site.play h' m' w').2.2 := by
  induction h generalizing h' m w m' w' with
  | nil =>
    obtain rfl := List.map_eq_nil_iff.mp hsame
    exact ⟨rfl, hp⟩
  | cons q rest ih =>
    obtain ⟨⟨deed, o'⟩, rest', rfl, hdeed, hrest⟩ := List.map_eq_cons_iff.mp hsame
    obtain ⟨deed, o⟩ := q
    obtain rfl := hdeed
    obtain ⟨hx, hxs⟩ := List.forall_mem_cons.mp hx
    obtain ⟨ho, hos⟩ := List.forall_mem_cons.mp ho
    obtain ⟨ho', hos'⟩ := List.forall_mem_cons.mp ho'
    obtain ⟨hreply, hst⟩ := hp.perform hx ho ho'
    obtain ⟨hreplies, hend⟩ := ih hrest hxs hos hos' hst
    exact ⟨List.cons_eq_cons.mpr ⟨hreply, hreplies⟩, hend⟩

end Pairing

namespace Site

variable {S : Site σ}

/-- Whether an executor is asked in a history. -/
def Asks (h : List (Deed σ × Occasion σ)) (x : Executor σ) : Prop :=
  ∃ q ∈ h, x ∈ q.1.executor?

end Site

namespace FileStore

/-- A file system in which nothing has been written yet. -/
def bare : FileSystem := ⟨.directory [], [], "/"⟩

end FileStore

namespace Site

open FileStore

end Site

namespace FileStore

end FileStore
end Publishing
