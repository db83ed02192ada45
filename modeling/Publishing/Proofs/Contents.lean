import Publishing.Proofs.Accepted
import Publishing.Proofs.Passes

/-
What changes keep of what is in a document.

A document whose counts, instants and values fit goes on to fit: a change writes counts that
are bounded, the moment at which it is made, and as data of checkpoints nothing but notes, flat
objects beside the metrics that an executor gave.  `M` and `D` are whatever is to be known of
metadata and of data, as long as `D` holds of all notes.
-/

namespace Publishing

/-! ## Notes -/

namespace Json

/-- A value without parts, with any number in it a natural one of 64 bits. -/
def IsScalar : Json → Prop
  | .null | .bool _ | .string _ => True
  | .number (.int n) => 0 ≤ n ∧ n < 2 ^ 64
  | _ => False

/-- The data that a change leaves with a checkpoint: nothing, or an object of scalars and of
values that `P` holds of. -/
def IsNote (P : Json → Prop) (v : Json) : Prop :=
  v = .null ∨ ∃ l : List (String × Json), v = .object l ∧ (l.Pairwise fun a b => a.1 < b.1) ∧
    ∀ p ∈ l, p.2.IsScalar ∨ P p.2

variable {P : Json → Prop}

theorem isScalar_nat {n : Nat} (h : n < 2 ^ 64) : (nat n).IsScalar :=
  ⟨Int.natCast_nonneg n, by exact_mod_cast h⟩

theorem isNote_ofMembers {l : List (String × Json)} (h : ∀ p ∈ l, p.2.IsScalar ∨ P p.2) :
    (ofMembers l).IsNote P := by
  obtain ⟨m, hm, hasc, hmem⟩ := exists_ofMembers l
  exact Or.inr ⟨m, hm, hasc, fun p hp => h p (hmem p hp)⟩

theorem isNote_singleton (key : String) {v : Json} (h : v.IsScalar) :
    (object [(key, v)]).IsNote P :=
  Or.inr ⟨_, rfl, List.pairwise_singleton _ _, List.forall_mem_singleton.mpr (Or.inl h)⟩

theorem fits_of_isScalar {v : Json} (h : v.IsScalar) (depth : Nat) : v.Fits depth := by
  refine fits_of_representable ?_ ?_
  · cases v <;> first | exact Nat.zero_le _ | exact h.elim
  · cases v with
    | number n =>
      cases n with
      | int i =>
        have := h.2
        exact ⟨by linarith [h.1], by omega⟩
      | float x => exact h.elim
    | array => exact h.elim
    | object => exact h.elim
    | _ => trivial

/-- A note takes one level more than what it holds. -/
theorem fits_of_isNote {v : Json} {depth : Nat} (h : v.IsNote (Fits depth)) :
    v.Fits (depth + 1) := by
  rcases h with rfl | ⟨l, rfl, -, hl⟩
  · exact fits_null _
  · have hall : ∀ p ∈ l, p.2.Fits depth := fun p hp =>
      (hl p hp).elim (fun hs => fits_of_isScalar hs depth) id
    have hle : depthMembers l ≤ depth :=
      depthMembers_le_iff.mpr fun p hp => (fits_iff.mp (hall p hp)).1
    refine fits_iff.mpr ⟨?_, everyNumberOfMembers_iff.mpr fun p hp => (fits_iff.mp (hall p hp)).2⟩
    rw [Json.depth]
    omega

theorem Fits.mono {v : Json} {n m : Nat} (h : v.Fits n) (hnm : n ≤ m) : v.Fits m :=
  fits_iff.mpr ⟨(fits_iff.mp h).1.trans hnm, (fits_iff.mp h).2⟩

/-- A value that goes anywhere in a document: its numbers can be kept, and it has no more than
100 levels. -/
structure IsModest (v : Json) : Prop where
  depth : v.depth ≤ 100
  numbers : v.EveryNumber Number.IsRepresentable

theorem IsModest.fits {v : Json} (h : v.IsModest) {depth : Nat} (hd : 100 ≤ depth) :
    v.Fits depth :=
  fits_of_representable (h.depth.trans hd) h.numbers

theorem fits_of_isNote_isModest {v : Json} (h : v.IsNote IsModest) : v.Fits 120 := by
  have hnote : v.IsNote (Fits 100) := by
    rcases h with rfl | ⟨l, rfl, hasc, hl⟩
    · exact Or.inl rfl
    · exact Or.inr ⟨l, rfl, hasc, fun p hp => (hl p hp).imp id fun hm => hm.fits (Nat.le_refl _)⟩
  exact (fits_of_isNote hnote).mono (by decide)

end Json

/-! ## Durations -/

namespace Timestamp

theorem seconds_bounds {t : Timestamp} (h : t.InRange) :
    -10000000000000 < t.seconds ∧ t.seconds < 10000000000000 := by
  rw [InRange, yearInRange, Bool.and_eq_true, decide_eq_true_eq, decide_eq_true_eq] at h
  have hz : 0 ≤ (t.seconds / 86400 + Date.epochShift) % 146097 ∧
      (t.seconds / 86400 + Date.epochShift) % 146097 < 146097 := by omega
  have hy := Date.yearOfCycle_bounds hz.1 hz.2
  have hyear : t.date.year =
      400 * ((t.seconds / 86400 + Date.epochShift) / 146097) +
        Date.yearOfCycle ((t.seconds / 86400 + Date.epochShift) % 146097) ∨
      t.date.year = 400 * ((t.seconds / 86400 + Date.epochShift) / 146097) +
        Date.yearOfCycle ((t.seconds / 86400 + Date.epochShift) % 146097) + 1 := by
    unfold date Date.ofDay
    dsimp only
    split
    · exact Or.inl rfl
    · exact Or.inr rfl
  unfold Date.epochShift at hy hyear
  omega

/-- No two instants are so far apart that their distance does not fit 64 bits. -/
theorem millisSince_lt {t start : Timestamp} (ht : t.InRange) (hs : start.InRange) :
    t.millisSince start < 2 ^ 64 := by
  have ht := seconds_bounds ht
  have hs := seconds_bounds hs
  have hnanos : t.nanos < 2000000000 := by
    rcases t.bounded with h | h <;> omega
  unfold millisSince
  omega

end Timestamp

/-! ## Entities -/

namespace StepRecord

variable {D : Json → Prop} {r : StepRecord} {now : Timestamp}

theorem fits_fresh : fresh.Fits D :=
  ⟨Nat.two_pow_pos 32, nofun, nofun, nofun, nofun⟩

theorem Fits.note (h : r.Fits D) {c : Checkpoint} (hc : c.Fits D) : (r.note c).Fits D :=
  ⟨h.attempts, h.startedAt, h.completedAt, h.durationMs, fun c' hc' =>
    (List.mem_append.mp hc').elim (h.checkpoints c') fun hm => (List.mem_singleton.mp hm) ▸ hc⟩

theorem Fits.reopen (h : r.Fits D) : r.reopen.Fits D :=
  ⟨h.attempts, nofun, nofun, nofun, h.checkpoints⟩

theorem Fits.clear (h : r.Fits D) : r.clear.Fits D :=
  ⟨Nat.two_pow_pos 32, nofun, nofun, nofun, h.checkpoints⟩

theorem Fits.start (h : r.Fits D) (hnow : now.InRange) : (r.start now).Fits D := by
  refine ⟨?_, ?_, nofun, nofun, h.checkpoints⟩
  · exact Nat.lt_of_le_of_lt (Nat.min_le_right _ _) (by decide)
  · rintro _ ⟨⟩
    exact hnow

theorem Fits.succeed (h : r.Fits D) (hnow : now.InRange) {ms : Nat} (hms : ms < 2 ^ 64) :
    (r.succeed now ms).Fits D := by
  refine ⟨h.attempts, h.startedAt, ?_, ?_, h.checkpoints⟩
  · rintro _ ⟨⟩
    exact hnow
  · rintro _ ⟨⟩
    exact hms

theorem Fits.fail (h : r.Fits D) (hnow : now.InRange) (message : String) {ms : Nat}
    (hms : ms < 2 ^ 64) : (r.fail now message ms).Fits D :=
  ⟨h.attempts, h.startedAt, (h.succeed hnow hms).completedAt, (h.succeed hnow hms).durationMs,
    h.checkpoints⟩

end StepRecord

namespace Entity

variable {M D P : Json → Prop} {e : Entity} {now : Timestamp} {s : Step}

/-- What an entity holds beside its steps does not depend on them. -/
theorem Fits.withSteps (h : e.Fits M D) {e' : Entity} (hs : ∀ s, (e'.step s).Fits D)
    (hm : e'.metadata = e.metadata) (he : e'.errors = e.errors)
    (hc : e'.createdAt = e.createdAt) (hu : e'.updatedAt.InRange) : e'.Fits M D :=
  ⟨hs, hm ▸ h.metadata, he ▸ h.errors, hc ▸ h.createdAt, hu⟩

theorem Fits.modifyStep (h : e.Fits M D) (s : Step) {f : StepRecord → StepRecord}
    (hf : (e.step s).Fits D → (f (e.step s)).Fits D) : (e.modifyStep s f).Fits M D := by
  refine h.withSteps (fun s' => ?_) rfl rfl rfl h.updatedAt
  rw [step_modifyStep]
  split
  · next heq => exact heq ▸ hf (h.step s)
  · exact h.step s'

theorem Fits.emit (h : e.Fits M D) (hnow : now.InRange) (s : Step) (operation : String)
    {data : Json} (hdata : D data) : (e.emit now s operation data).1.Fits M D :=
  h.modifyStep s fun hr => hr.note ⟨hnow, hdata⟩

theorem Fits.attempts_lt (h : e.Fits M D) (s : Step) : (e.step s).attempts < 2 ^ 64 :=
  Nat.lt_trans (h.step s).attempts (by decide)

theorem Fits.isScalar_attempts (h : e.Fits M D) (s : Step) :
    (Json.nat (e.step s).attempts).IsScalar :=
  Json.isScalar_nat (h.attempts_lt s)

theorem isScalar_maxAttempts : (Json.nat maxAttempts).IsScalar :=
  Json.isScalar_nat (show 3 < 2 ^ 64 by decide)

theorem Fits.elapsed_lt (h : e.Fits M D) (hnow : now.InRange) (s : Step) :
    e.elapsed now s < 2 ^ 64 := by
  unfold elapsed
  split
  · next start hs => exact Timestamp.millisSince_lt hnow ((h.step s).startedAt _ hs)
  · decide

theorem fits_draft (hnow : now.InRange) (id : String) {metadata : Json} (hm : M metadata) :
    (draft now id metadata).Fits M D := by
  refine ⟨fun s => ?_, hm, nofun, hnow, hnow⟩
  rw [draft, step, StepTable.get_replicate]
  exact StepRecord.fits_fresh

theorem fits_finalized (hnow : now.InRange) (id : String) {metadata : Json} (hm : M metadata) :
    (finalized now id metadata).Fits M D := by
  refine ⟨fun s => ?_, hm, nofun, hnow, hnow⟩
  rw [finalized, step, StepTable.get_replicate]
  refine ⟨Nat.two_pow_pos 32, nofun, ?_, nofun, nofun⟩
  rintro _ ⟨⟩
  exact hnow

theorem Fits.beginStep (h : e.Fits M D) (hnow : now.InRange) (s : Step) :
    (e.beginStep now s).Fits M D :=
  (h.modifyStep s fun hr => hr.start hnow).withSteps
    (h.modifyStep s fun hr => hr.start hnow).step rfl rfl rfl hnow

theorem Fits.completeStep (h : e.Fits M D) (hnow : now.InRange) (s : Step) {ms : Nat}
    (hms : ms < 2 ^ 64) : (e.completeStep now s ms).Fits M D :=
  h.withSteps (h.modifyStep s fun hr => hr.succeed hnow hms).step rfl rfl rfl hnow

theorem Fits.failStep (h : e.Fits M D) (hnow : now.InRange) (s : Step) (message : String)
    {ms : Nat} (hms : ms < 2 ^ 64) : (e.failStep now s message ms).Fits M D where
  step := (h.modifyStep s fun hr => hr.fail hnow message hms).step
  metadata := h.metadata
  errors f hf := (List.mem_append.mp hf).elim (h.errors f) fun hm =>
    (List.mem_singleton.mp hm) ▸ ⟨(h.step s).attempts, hnow⟩
  createdAt := h.createdAt
  updatedAt := hnow

theorem Fits.block (h : e.Fits M D) (hnow : now.InRange) : (e.block now).Fits M D :=
  h.withSteps h.step rfl rfl rfl hnow

theorem Fits.requeue (h : e.Fits M D) (hnow : now.InRange) (s : Step) :
    (e.requeue now s).Fits M D :=
  h.withSteps (h.modifyStep s fun hr =>
    ⟨hr.attempts, hr.startedAt, hr.completedAt, hr.durationMs, hr.checkpoints⟩).step rfl rfl rfl hnow

theorem Fits.skipTo (hD : ∀ v, v.IsNote P → D v) (h : e.Fits M D) (hnow : now.InRange)
    (s : Step) : (e.skipTo now s).Fits M D := by
  refine h.withSteps (fun s' => ?_) rfl rfl rfl hnow
  rw [step_skipTo]
  split
  · split
    · exact h.step s'
    · have hr := h.step s'
      have hskipped : StepRecord.Fits D { e.step s' with status := .skipped, error := none } :=
        ⟨hr.attempts, hr.startedAt, hr.completedAt, hr.durationMs, hr.checkpoints⟩
      exact hskipped.note ⟨hnow, hD _ (Json.isNote_singleton _ trivial)⟩
  · exact (h.step s').reopen

theorem Fits.reset (hD : ∀ v, v.IsNote P → D v) (h : e.Fits M D) (hnow : now.InRange)
    (s : Step) : (e.reset now s).1.Fits M D := by
  have hcleared : ∀ s', ((e.clearFrom s).step s').Fits D := by
    intro s'
    rw [step_clearFrom]
    split
    · exact (h.step s').clear
    · exact h.step s'
  have hsettled : ((e.clearFrom s).settle.touch now).Fits M D := by
    unfold settle
    split
    · exact h.withSteps hcleared rfl rfl rfl hnow
    · exact h.withSteps hcleared rfl rfl rfl hnow
  refine hsettled.emit hnow s _ (hD _ (Json.isNote_ofMembers ?_))
  simp only [List.forall_mem_cons]
  exact ⟨Or.inl trivial, Or.inl (h.isScalar_attempts s), List.forall_mem_nil _⟩

theorem Fits.retry (hD : ∀ v, v.IsNote P → D v) (h : e.Fits M D) (hnow : now.InRange) {e' : Entity}
    {record : AuditRecord} (hr : e.retry now s = .ok (e', record)) : e'.Fits M D := by
  obtain ⟨_, -, hr⟩ := bind_eq_ok.mp hr
  obtain ⟨rfl, -⟩ := Prod.mk.inj (Except.ok.inj hr)
  refine (h.requeue hnow s).emit hnow s _ (hD _ (Json.isNote_ofMembers ?_))
  simp only [List.forall_mem_cons]
  exact ⟨Or.inl (h.isScalar_attempts s), Or.inl isScalar_maxAttempts, List.forall_mem_nil _⟩

theorem Fits.blockStuck (hD : ∀ v, v.IsNote P → D v) (h : e.Fits M D) (hnow : now.InRange) :
    (e.blockStuck now).1.Fits M D := by
  rcases blockStuck_cases now e with hsame | ⟨s, data, -, rfl, hblock⟩
  · rw [hsame]
    exact h
  · rw [hblock]
    exact (h.block hnow).emit hnow s _ (hD _ (Json.isNote_singleton _ (h.isScalar_attempts s)))

theorem Fits.exhaust (hD : ∀ v, v.IsNote P → D v) (h : e.Fits M D) (hnow : now.InRange)
    (s : Step) : (e.exhaust now s).1.Fits M D := by
  refine (h.block hnow).emit hnow s _ (hD _ (Json.isNote_ofMembers ?_))
  simp only [List.forall_mem_cons]
  exact ⟨Or.inl (h.isScalar_attempts s), Or.inl isScalar_maxAttempts, List.forall_mem_nil _⟩

theorem Fits.mark (hD : ∀ v, v.IsNote P → D v) (h : e.Fits M D) (hnow : now.InRange)
    (runId : RunId) (s : Step) : (e.mark now runId s).1.Fits M D := by
  have hb := h.beginStep hnow s
  refine hb.emit hnow s _ (hD _ (Json.isNote_ofMembers ?_))
  simp only [List.forall_mem_cons]
  exact ⟨Or.inl (hb.isScalar_attempts s), Or.inl trivial, List.forall_mem_nil _⟩

end Entity

/-- Whether an ending can be entered: its duration fits 64 bits, and `P` holds of its metrics. -/
structure Ending.Fits (P : Json → Prop) (x : Ending) : Prop where
  durationMs : x.durationMs < 2 ^ 64
  metrics : ∀ v, x.outcome = .succeeded (some v) → P v

theorem Entity.Fits.fold {M D P : Json → Prop} (hD : ∀ v, v.IsNote P → D v) {e : Entity}
    (h : e.Fits M D) {now : Timestamp} (hnow : now.InRange) (s : Step) {x : Ending}
    (hx : x.Fits P) : (e.fold now s x.outcome x.durationMs).1.Fits M D := by
  have hms := Json.isScalar_nat hx.durationMs
  cases ho : x.outcome with
  | succeeded metrics =>
    refine (h.completeStep hnow s hx.durationMs).emit hnow s _ (hD _ (Json.isNote_ofMembers ?_))
    simp only [List.forall_mem_cons]
    refine ⟨Or.inl (h.isScalar_attempts s), Or.inl hms, ?_, List.forall_mem_nil _⟩
    cases metrics with
    | none => exact Or.inl trivial
    | some v => exact Or.inr (hx.metrics v ho)
  | failed message =>
    refine (h.failStep hnow s message hx.durationMs).emit hnow s _
      (hD _ (Json.isNote_ofMembers ?_))
    simp only [List.forall_mem_cons]
    exact ⟨Or.inl (h.isScalar_attempts s), Or.inl hms, Or.inl trivial, Or.inl trivial,
      List.forall_mem_nil _⟩

end Publishing
