import Publishing.Proofs.Fidelity

/-
What can happen to a store from some point on, with bounds on what comes in from outside.

A history starts with nothing on disk, and takes in anything.  A course starts with any text on
disk, and takes in only instants that can be written, metadata in `M` and metrics in `P`.  What
is known of the text at its start, if it is kept by whatever is saved, is then known at its
end.
-/

namespace Publishing

theorem Operation.Admits.mono {M M' : Json → Prop} (hM : ∀ v, M v → M' v) {op : Operation}
    (h : op.Admits M) : op.Admits M' := by
  cases op with
  | register id metadata => exact hM _ h
  | migrate items => exact fun item hitem => hM _ (h item hitem)
  | _ => trivial

namespace Site

variable {σ : Type} {S : Site σ} {M M' D P : Json → Prop} {Q : Option String → Prop}

/-- An episode with what is on disk before and after it: an operation, or a run as far as it
got.  That a run may have come to its end is `happens_run`. -/
inductive Happens (S : Site σ) (M P : Json → Prop) : Option String → Episode → Option String → Prop
  | operation (op : Operation) (now : Timestamp) (m : Emitter σ) (w : σ) (inRange : now.InRange)
      (admits : op.Admits M) (sinks : S.SparedBySinks m.sinks) :
      Happens S M P (S.text? w) (.operation op (op.perform S.store now m w).1)
        (S.text? (op.perform S.store now m w).2.2)
  | run {seen : List RunEvent} {w' : σ} (r : RunSetup σ) (m : Emitter σ) (w : σ)
      (hosts : S.Hosts P r m w) (moment : r.Moment m w seen w') :
      Happens S M P (S.text? w) (.run (RunEvent.calls seen)) (S.text? w')

/-- Episodes one after the other, from this text on. -/
inductive Course (S : Site σ) (M P : Json → Prop) (start : Option String) :
    List Episode → Option String → Prop
  | nil : Course S M P start [] start
  | concat {h : List Episode} {t t' : Option String} {ep : Episode}
      (before : Course S M P start h t) (happens : S.Happens M P t ep t') :
      Course S M P start (h ++ [ep]) t'

/-- What episodes keep is so of what is on disk after a course, if there was nothing at first. -/
theorem IsKept.course {K : List Episode → Document → Prop} (hk : S.IsKept K) {h : List Episode}
    {t : Option String} (hh : S.Course M P none h t) : ∃ d, d.IsOn t ∧ K h d := by
  induction hh with
  | nil => exact ⟨.empty default, ⟨_, rfl⟩, hk.empty _⟩
  | concat _ he ih =>
    obtain ⟨d, hd, hp⟩ := ih
    cases he with
    | operation op now m w _ _ sinks => exact hk.perform op now sinks hd hp
    | run r m w hosts moment =>
      obtain ⟨rest, ht⟩ := moment.isPrefix
      exact hk.run_leaves hosts.store ht.symm (hosts.keeps moment).leaves.leaves hd hp

theorem Course.append {start t t' : Option String} {h h' : List Episode}
    (hh : S.Course M P start h t) (hh' : S.Course M P t h' t') :
    S.Course M P start (h ++ h') t' := by
  induction hh' with
  | nil => rwa [List.append_nil]
  | concat _ he ih =>
    rw [← List.append_assoc]
    exact ih.concat he

/-! ## What is on disk after an operation -/

/-- An operation leaves the text as it was and reports no change, or it has saved one. -/
theorem text?_perform (op : Operation) (now : Timestamp) {m : Emitter σ}
    (hm : S.SparedBySinks m.sinks) (w : σ) :
    (S.text? (op.perform S.store now m w).2.2 = S.text? w ∧
      ∀ report, (op.perform S.store now m w).1 = .ok report → report.entities = []) ∨
    ∃ d f c w', S.store.load now w = .ok d ∧ op.prepare = .ok f ∧ f now d = .ok c ∧
      S.store.save now c.document w = (.ok (), w') ∧
      (op.perform S.store now m w).1 = .ok c.report ∧
      S.text? (op.perform S.store now m w).2.2 = some (c.document.stamp now).text := by
  rcases op.perform_cases S.store now m w with ⟨e, hp⟩ | ⟨d, f, c, hl, hf, hc, hp⟩
  · rw [hp]
    exact Or.inl ⟨rfl, fun _ hr => by cases hr⟩
  rw [hp, Change.commit]
  dsimp only
  split
  · next hn =>
    refine Or.inl ⟨rfl, fun report hr => ?_⟩
    rw [← Except.ok.inj hr]
    exact List.isEmpty_iff.mp hn
  · split
    · next e w' hs => exact Or.inl ⟨S.save_error hs, fun _ hr => by cases hr⟩
    · next w' hs =>
      exact Or.inr ⟨d, f, c, w', hl, hf, hc, hs, rfl, text?_flush_save hm hs c.records⟩

/-! ## What is kept of the text -/

theorem text_perform (hQ : Document.Covers M D Q) (hS : S.IsFaithful)
    (hD : ∀ v, v.IsNote P → D v) {op : Operation} (hop : op.Admits M) {now : Timestamp}
    (hnow : now.InRange) {m : Emitter σ} (hm : S.SparedBySinks m.sinks) {w : σ}
    (hw : Q (S.text? w)) : Q (S.text? (op.perform S.store now m w).2.2) := by
  rcases text?_perform op now hm w with ⟨ht, -⟩ | ⟨d, f, c, w', hl, hf, hc, hs, -, ht⟩
  · rwa [ht]
  · rw [ht]
    have hfits := (fits_of_load hQ hw hnow hl).change hD hnow hop hf hc
    exact hQ.text (hfits.stamp hnow) ((Document.check_stamp _ _).trans (hS.check_of_save hs))

theorem Happens.text (hQ : Document.Covers M' D Q) (hS : S.IsFaithful) (hM : ∀ v, M v → M' v)
    (hD : ∀ v, v.IsNote P → D v) {t t' : Option String} {ep : Episode}
    (h : S.Happens M P t ep t') (ht : Q t) : Q t' := by
  cases h with
  | operation op now m w inRange admits sinks =>
    exact text_perform hQ hS hD (admits.mono hM) inRange sinks ht
  | run r m w hosts moment => exact text_moment hQ hS hD hosts moment ht

/-- What holds of all that is written, holds of what is on disk at the end of a course. -/
theorem Course.text (hQ : Document.Covers M' D Q) (hS : S.IsFaithful) (hM : ∀ v, M v → M' v)
    (hD : ∀ v, v.IsNote P → D v) {start t : Option String} {h : List Episode}
    (hh : S.Course M P start h t) (hstart : Q start) : Q t := by
  induction hh with
  | nil => exact hstart
  | concat _ he ih => exact he.text hQ hS hM hD ih

end Site

namespace Memory

theorem history_registered : checkedSite.History
    [.operation (.register "post" .null) (.ok ⟨"post registered", ["post"], []⟩)]
    (checkedSite.text? registered) := by
  have hsinks : checkedSite.SparedBySinks (Emitter.ofSinks []).sinks := fun _ _ => rfl
  have hstore : checkedSite.store = checkedStore := rfl
  have hhistory : checkedSite.History _ _ :=
    .operation (.register "post" .null) (.ofSeconds 0) (.ofSinks []) blank hsinks .absent
  rw [hstore, perform_register_blank (d := tracked) (by decide) rfl (by decide +kernel)]
    at hhistory
  exact hhistory

end Memory
end Publishing
