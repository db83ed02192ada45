import Publishing.Proofs.FreshStarts
import Publishing.Proofs.Resets

/-
Whom a reset leaves alone, and whom of those it reports.

An entity that failed or is running before the step is never changed.  If it failed it is
reported, but if it is running the reset first asks whether there is anything to clear.  In a
state that an entity can get into, all that there can be to clear behind a running step are the
attempts and errors of earlier tries, so it depends on these whether the entity is reported.
-/

namespace Publishing

namespace Entity

variable {e : Entity} {s k : Step}

/-- Whether attempts or errors of earlier tries are left at a step from `s` on. -/
def RemembersFrom (s : Step) (e : Entity) : Prop :=
  ∃ a, s ≤ a ∧ (0 < (e.step a).attempts ∨ (e.step a).error ≠ none)

/-- Behind a running step everything is pending. -/
theorem IsSound.holdsFrom_iff (h : e.IsSound) (hk : e.RunsBefore s k) :
    e.HoldsFrom s ↔ e.RemembersFrom s := by
  have hpending : ∀ a, s ≤ a → (e.step a).status = .pending := fun a ha =>
    (h.standsAt_of_running hk.2).after a (Nat.lt_of_lt_of_le hk.1 ha)
  constructor
  · rintro ⟨a, ha, hstatus | hheld⟩
    · exact absurd (hpending a ha) hstatus
    · exact ⟨a, ha, hheld⟩
  · rintro ⟨a, ha, hheld⟩
    exact ⟨a, ha, Or.inr hheld⟩

theorem IsSound.not_failedBefore (h : e.IsSound) (hk : e.RunsBefore s k) (k' : Step) :
    ¬ e.FailedBefore s k' := by
  rintro ⟨-, hfailed, -⟩
  have hsame : k' = k := (h.standsAt_of_running hk.2).unique (h.standsAt_of_failed hfailed)
  rw [hsame, hk.2] at hfailed
  cases hfailed

theorem IsSound.evadesReset_iff (h : e.IsSound) {reason : SkipReason} :
    e.EvadesReset s reason ↔ (∃ k, e.FailedBefore s k ∧ reason = .failedBefore k s) ∨
      ∃ k, e.RunsBefore s k ∧ e.RemembersFrom s ∧ reason = .running k := by
  refine or_congr_right ⟨?_, ?_⟩
  · rintro ⟨-, hheld, k, hk, hreason⟩
    exact ⟨k, hk, (h.holdsFrom_iff hk).mp hheld, hreason⟩
  · rintro ⟨k, hk, hleft, hreason⟩
    exact ⟨h.not_failedBefore hk, (h.holdsFrom_iff hk).mpr hleft, k, hk, hreason⟩

end Entity

/-- Whoever a change has no reason to change is as before. -/
theorem Change.Alters.find?_eq {c : Change} {d : Document} {P : Entity → Prop}
    {R : Entity → Entity → Prop} (h : c.Alters d P R) {id : String} {e : Entity}
    (he : d.find? id = some e) (hp : ¬ P e) : c.document.find? id = some e := by
  rw [h.others id fun hid => ?_, he]
  obtain ⟨e', he', hp'⟩ := (h.named id).mp hid
  obtain rfl := Option.some.inj (he.symm.trans he')
  exact hp hp'

theorem Change.PassesOver.congr {c : Change} {d : Document} {Q Q' : Entity → SkipReason → Prop}
    (h : c.PassesOver d Q) (hQ : ∀ id e, d.find? id = some e → ∀ reason, Q e reason ↔ Q' e reason) :
    c.PassesOver d Q' where
  reported x := (h.reported x).trans <|
    exists_congr fun e => and_congr_right fun he => hQ x.id e he x.reason
  ordered := h.ordered

namespace Site

variable {σ : Type} {S : Site σ} {now : Timestamp} {m : Emitter σ} {w : σ} {d : Document}

/-- After any history a reset changes nobody who failed or is running before the step.  Of those
that its filter selects it reports, once and with the reason, everybody who failed there, everybody
who is running there and has attempts or errors left behind, and nobody else. -/
theorem passesOver_of_history {h : List Episode} (hh : S.History h (S.text? w))
    (hl : S.store.load now w = .ok d) {name : String} {step : Step}
    (hstep : Step.ofName? name = some step) (filter : ResetFilter) :
    ∃ c : Change,
      (Operation.reset name filter).perform S.store now m w = c.commit S.store now m w ∧
      (∀ id e, d.find? id = some e → (∃ k, e.FailedBefore step k ∨ e.RunsBefore step k) →
        c.document.find? id = some e) ∧
      c.PassesOver d fun e reason => filter.Matches e ∧
        ((∃ k, e.FailedBefore step k ∧ reason = .failedBefore k step) ∨
          ∃ k, e.RunsBefore step k ∧ e.RemembersFrom step ∧ reason = .running k) := by
  obtain ⟨d₀, hon, hkept⟩ := S.isKept_isSound.history hh
  have hsound := Document.every_isSound_of_related (related_of_load hon hl) hkept
  have hd := check_of_load hl
  have hp := Operation.prepare_reset hstep filter
  refine ⟨_, Operation.perform_eq_commit hp hl rfl m, fun id e he hk => ?_, ?_⟩
  · refine (Document.alters_reset hd rfl).find?_eq he fun ht => ?_
    obtain ⟨k, hfailed | hrunning⟩ := hk
    · exact ht.2.unfailed k hfailed
    · exact ht.2.idle k hrunning
  · exact (Document.passesOver_reset hd rfl).congr fun id e he reason =>
      and_congr_right fun _ => (hsound id e he).evadesReset_iff

/-- Who failed at the second step is reported by a reset of the fourth. -/
theorem passesOver_of_history_untested : ∃ (w : Memory) (c : Change),
    (Operation.reset "published" ⟨none, false⟩).perform Memory.checkedSite.store (.ofSeconds 0)
      (.ofSinks []) w = c.commit Memory.checkedSite.store (.ofSeconds 0) (.ofSinks []) w ∧
    ⟨"post", .failedBefore .tested .published⟩ ∈ c.report.skipped := by
  have habsent : Memory.checkedSite.History [] (Memory.checkedSite.text? Memory.blank) := .absent
  obtain ⟨h, hh⟩ :=
    Memory.history_acts [.inl (.register "post" .null), .inr Memory.untested] habsent
  let w := Memory.acts Memory.checkedStore [.inl (.register "post" .null), .inr Memory.untested]
    Memory.blank
  have hend : ((Memory.checkedStore.load (.ofSeconds 0) w).map fun d =>
      (d.find? "post").bind (·.failedBefore? .published)).toOption = some (some .tested) := by
    simp only [w, Memory.checkedStore_eq]
    decide +kernel
  cases hl : Memory.checkedStore.load (.ofSeconds 0) w with
  | error e =>
    rw [hl] at hend
    cases hend
  | ok d =>
    rw [hl] at hend
    obtain ⟨e, he, hk⟩ := Option.bind_eq_some_iff.mp (Option.some.inj hend)
    have hload : Memory.checkedSite.store.load (.ofSeconds 0) w = .ok d := by
      rw [show Memory.checkedSite.store = Memory.checkedStore from rfl, hl]
    have hstep : Step.ofName? "published" = some .published := by decide +kernel
    obtain ⟨c, hc, -, hskipped⟩ := passesOver_of_history (m := .ofSinks []) (w := w) hh hload
      hstep ⟨none, false⟩
    have hfailed := Entity.failedBefore?_eq_some.mp hk
    exact ⟨w, c, hc, (hskipped.reported _).mpr
      ⟨e, he, ResetFilter.matches_any e, Or.inl ⟨.tested, hfailed, rfl⟩⟩⟩

end Site

namespace Memory

/-- A run that breaks off for want of permits leaves the entity at work at the first step, with
nothing behind it, and so a reset from the second step passes over it without a word. -/
theorem exists_running_not_reported : ∃ (h : List Episode) (w : Memory) (d : Document)
    (e : Entity), checkedSite.History h (checkedSite.text? w) ∧
    checkedStore.load (.ofSeconds 0) w = .ok d ∧ d.find? "post" = some e ∧
    (ResetFilter.mk none false).Matches e ∧ e.RunsBefore .tested .ingested ∧
    ((Operation.reset "tested" ⟨none, false⟩).perform checkedStore (.ofSeconds 0) (.ofSinks [])
      w).1 = .ok ⟨"0 entities reset from tested", [], []⟩ := by
  let r := permitted (Pool.greatestPermits + 1)
  let w := (r.run (.ofSinks []) registered).world
  have hsinks : checkedSite.SparedBySinks (Emitter.ofSinks []).sinks := fun _ _ => rfl
  have hh : checkedSite.History _ (checkedSite.text? w) :=
    .run r (.ofSinks []) registered rfl hsinks (fun _ _ => rfl) history_registered
  have hend : ((checkedStore.load (.ofSeconds 0) w).map fun d =>
        (d.find? "post").map fun e => (e.step .ingested).status).toOption =
          some (some .running) ∧
      ((Operation.reset "tested" ⟨none, false⟩).perform checkedStore (.ofSeconds 0) (.ofSinks [])
        w).1 = .ok ⟨"0 entities reset from tested", [], []⟩ := by
    simp only [w, r, permitted, checkedSetup, checkedStore_eq]
    decide +kernel
  obtain ⟨hstatus, hreport⟩ := hend
  cases hl : checkedStore.load (.ofSeconds 0) w with
  | error e =>
    rw [hl] at hstatus
    cases hstatus
  | ok d =>
    rw [hl] at hstatus
    obtain ⟨e, he, hrunning⟩ := Option.map_eq_some_iff.mp (Option.some.inj hstatus)
    exact ⟨_, w, d, e, hh, hl, he, ResetFilter.matches_any e, ⟨by decide, hrunning⟩, hreport⟩

end Memory
end Publishing
