import Publishing.Execution.Command
import Mathlib.Data.List.Perm.Subperm

/-
Which commands the steps get.

A configuration keeps its commands by names, and several names may name one step: neither the
blanks around a name nor the case of its letters matter.  The entries are taken in the order of
their names, and each takes the place of the command that its step had before.  So a step runs
the command of the last entry that names it, and the entries before that one are left out
without a word.  No command is left out if and only if no two entries name one step.
-/

namespace Publishing

namespace Config

/-- What is wrong with an entry by itself. -/
def entryFault? (e : String × CommandSpec) : Option ConfigFault :=
  if Step.ofName? e.1 = none then some (.unknownStep e.1)
  else if e.2.isBlank then some (.blankCommand e.1)
  else none

/-- The last of the entries that name `s`. -/
def lastFor? (s : Step) (entries : List (String × CommandSpec)) : Option (String × CommandSpec) :=
  (entries.filter fun e => Step.ofName? e.1 = some s).getLast?

/-- Whether no two entries name one step. -/
def NamesApart (c : Config) : Prop :=
  c.executors.entries.Pairwise fun a b => Step.ofName? a.1 ≠ Step.ofName? b.1

variable {e : String × CommandSpec} {entries : List (String × CommandSpec)} {s : Step}

theorem entryFault?_eq_none :
    entryFault? e = none ↔ Step.ofName? e.1 ≠ none ∧ e.2.isBlank = false := by
  unfold entryFault?
  split
  · next hname => simp [hname]
  · next hname => simp [hname]

theorem isSome_entryFault? :
    (entryFault? e).isSome ↔ Step.ofName? e.1 = none ∨ e.2.isBlank := by
  rw [← Option.ne_none_iff_isSome, ne_eq, entryFault?_eq_none]
  cases e.2.isBlank <;> simp

theorem lastFor?_cons :
    lastFor? s (e :: entries) =
      (lastFor? s entries).or (if Step.ofName? e.1 = some s then some e else none) := by
  unfold lastFor?
  by_cases hs : Step.ofName? e.1 = some s
  · rw [List.filter_cons_of_pos (by simpa using hs), List.getLast?_cons, if_pos hs]
    cases (entries.filter fun e => Step.ofName? e.1 = some s).getLast? <;> rfl
  · rw [List.filter_cons_of_neg (by simpa using hs), if_neg hs, Option.or_none]

theorem lastFor?_append (front behind : List (String × CommandSpec)) :
    lastFor? s (front ++ behind) = (lastFor? s behind).or (lastFor? s front) := by
  rw [lastFor?, List.filter_append, List.getLast?_append]
  rfl

theorem lastFor?_eq_none :
    lastFor? s entries = none ↔ ∀ e ∈ entries, Step.ofName? e.1 ≠ some s := by
  simp [lastFor?]

/-- What the last entry is: one that names the step, with none behind it that does. -/
theorem lastFor?_eq_some :
    lastFor? s entries = some e ↔ Step.ofName? e.1 = some s ∧
      ∃ front behind, entries = front ++ e :: behind ∧
        ∀ e' ∈ behind, Step.ofName? e'.1 ≠ some s := by
  constructor
  · intro h
    induction entries with
    | nil => cases h
    | cons a rest ih =>
      rw [lastFor?_cons] at h
      cases hrest : lastFor? s rest with
      | some e' =>
        rw [hrest, Option.some_or, Option.some.injEq] at h
        obtain ⟨hname, front, behind, rfl, hlast⟩ := ih (hrest.trans (congrArg some h))
        exact ⟨hname, a :: front, behind, rfl, hlast⟩
      | none =>
        rw [hrest, Option.none_or] at h
        split at h
        · next hname =>
          cases h
          exact ⟨hname, [], rest, rfl, lastFor?_eq_none.mp hrest⟩
        · cases h
  · rintro ⟨hname, front, behind, rfl, hlast⟩
    rw [lastFor?_append, lastFor?_cons, lastFor?_eq_none.mpr hlast, if_pos hname]
    rfl

/-- No two entries name one step if and only if each entry is the last for its step. -/
theorem namesApart_iff {c : Config}
    (hnames : ∀ e ∈ c.executors.entries, ∃ s, Step.ofName? e.1 = some s) :
    (∀ e ∈ c.executors.entries, ∀ s, Step.ofName? e.1 = some s →
      lastFor? s c.executors.entries = some e) ↔ c.NamesApart := by
  constructor
  · intro h
    refine c.executors.ascending.imp_of_mem fun {a b} ha hb hlt heq => ?_
    obtain ⟨s, hs⟩ := hnames a ha
    have hab := (h a ha s hs).symm.trans (h b hb s (heq.symm.trans hs))
    rw [Option.some.inj hab] at hlt
    exact String.lt_irrefl _ hlt
  · intro h e he s hs
    obtain ⟨front, behind, heq⟩ := List.append_of_mem he
    refine lastFor?_eq_some.mpr ⟨hs, front, behind, heq, fun e' he' => ?_⟩
    rw [NamesApart, heq, List.pairwise_append] at h
    exact hs ▸ ((List.pairwise_cons.mp h.2.1).1 e' he').symm

end Config

namespace RunConfig

open Config

variable {c : Config} {r : RunConfig} {entries : List (String × CommandSpec)}
  {routes : Step → Option CommandSpec} {s : Step}

/-- Adding entries fails at the first that is at fault, and otherwise leaves each step with its
last command. -/
theorem addExecutors_eq (routes : Step → Option CommandSpec)
    (entries : List (String × CommandSpec)) :
    addExecutors routes entries = match entries.findSome? entryFault? with
      | some fault => .error (.config fault)
      | none => .ok fun s => ((lastFor? s entries).map (·.2)).or (routes s) := by
  induction entries generalizing routes with
  | nil => rfl
  | cons e rest ih =>
    obtain ⟨name, spec⟩ := e
    unfold addExecutors
    cases hname : Step.ofName? name with
    | none => simp [entryFault?, hname]
    | some t =>
      cases hblank : spec.isBlank with
      | true => simp [entryFault?, hname, hblank]
      | false =>
        have hfault : entryFault? (name, spec) = none :=
          entryFault?_eq_none.mpr ⟨by simp [hname], hblank⟩
        simp only [Bool.false_eq_true, if_false, List.findSome?_cons, hfault]
        rw [ih]
        cases rest.findSome? entryFault? with
        | some fault => rfl
        | none =>
          refine congrArg Except.ok (funext fun s => ?_)
          rw [lastFor?_cons, hname]
          by_cases hs : s = t
          · subst hs
            cases lastFor? s rest <;> simp
          · cases lastFor? s rest <;> simp [hs, Ne.symm hs]

/-- A configuration is refused for the first thing that is wrong with it, and otherwise each step
gets its last command. -/
theorem ofConfig_eq (c : Config) :
    ofConfig c =
      if c.defaults.concurrency = 0 then .error (.config .zeroConcurrency)
      else match c.executors.entries.findSome? entryFault? with
        | some fault => .error (.config fault)
        | none => .ok {
            statePath := c.defaults.statePath
            concurrency := c.defaults.concurrency
            auditJsonl := c.audit.jsonlPath
            auditTracing := c.audit.tracing
            executors := fun s => (lastFor? s c.executors.entries).map (·.2) } := by
  unfold ofConfig
  split
  · rfl
  · rw [addExecutors_eq]
    cases c.executors.entries.findSome? entryFault? with
    | some fault => rfl
    | none => simp only [Option.or_none]; rfl

theorem ofConfig_eq_error :
    (∃ err, ofConfig c = .error err) ↔ c.defaults.concurrency = 0 ∨
      ∃ e ∈ c.executors.entries, Step.ofName? e.1 = none ∨ e.2.isBlank := by
  rw [ofConfig_eq]
  by_cases hzero : c.defaults.concurrency = 0
  · simp [hzero]
  · simp only [hzero, false_or, ← isSome_entryFault?]
    rw [← List.findSome?_isSome_iff]
    cases c.executors.entries.findSome? entryFault? <;> simp

theorem exists_config_of_error {err : Error} (h : ofConfig c = .error err) :
    ∃ fault, err = .config fault := by
  rw [ofConfig_eq] at h
  split at h
  · exact ⟨_, (Except.error.inj h).symm⟩
  · split at h
    · exact ⟨_, (Except.error.inj h).symm⟩
    · cases h

/-- In an accepted configuration every entry names a step, and each step has the command of its
last entry. -/
theorem executors_of_ok (h : ofConfig c = .ok r) :
    (∀ e ∈ c.executors.entries, ∃ s, Step.ofName? e.1 = some s) ∧
      ∀ s, r.executors s = (lastFor? s c.executors.entries).map (·.2) := by
  rw [ofConfig_eq] at h
  split at h
  · cases h
  · split at h
    · cases h
    · next hnone =>
      cases h
      refine ⟨fun e he => ?_, fun s => rfl⟩
      have hfault := List.findSome?_eq_none_iff.mp hnone e he
      exact Option.ne_none_iff_exists'.mp (entryFault?_eq_none.mp hfault).1

theorem mem_routedSteps : s ∈ r.routedSteps ↔ (r.executors s).isSome := by
  simp [routedSteps, Step.mem_all]

theorem nodup_routedSteps (r : RunConfig) : r.routedSteps.Nodup :=
  List.filter_sublist.nodup (by decide)

/-- The steps that have a command are those that some entry names. -/
theorem mem_routedSteps_iff (h : ofConfig c = .ok r) :
    s ∈ r.routedSteps ↔ ∃ e ∈ c.executors.entries, Step.ofName? e.1 = some s := by
  rw [mem_routedSteps, (executors_of_ok h).2, Option.isSome_map, ← Option.ne_none_iff_isSome, ne_eq,
    lastFor?_eq_none]
  simp

/-- There are at most as many steps with a command as there are entries, and as many only if no
two entries name one step. -/
theorem length_routedSteps (h : ofConfig c = .ok r) :
    r.routedSteps.length ≤ c.executors.size ∧
      (r.routedSteps.length = c.executors.size ↔ c.NamesApart) := by
  let named := c.executors.entries.map fun e => Step.ofName? e.1
  let routed := r.routedSteps.map some
  have hnodup : routed.Nodup := List.pairwise_map.mpr
    (r.nodup_routedSteps.imp fun hne heq => hne (Option.some.inj heq))
  have hmem : ∀ o, o ∈ routed ↔ o ∈ named := by
    intro o
    rw [List.mem_map, List.mem_map]
    constructor
    · rintro ⟨s, hs, rfl⟩
      exact (mem_routedSteps_iff h).mp hs
    · rintro ⟨e, he, rfl⟩
      obtain ⟨s, hs⟩ := (executors_of_ok h).1 e he
      exact ⟨s, (mem_routedSteps_iff h).mpr ⟨e, he, hs⟩, hs.symm⟩
  have hrouted : routed.length = r.routedSteps.length := List.length_map _
  have hnamed : named.length = c.executors.size := List.length_map _
  have hsub := hnodup.subperm fun o ho => (hmem o).mp ho
  rw [← hrouted, ← hnamed]
  refine ⟨hsub.length_le, fun heq => ?_, fun hapart => ?_⟩
  · have hperm := hsub.perm_of_length_le (Nat.le_of_eq heq.symm)
    exact List.pairwise_map.mp (hperm.nodup_iff.mp hnodup)
  · have hapart' : named.Nodup := List.pairwise_map.mpr hapart
    have hsub' := hapart'.subperm fun o ho => (hmem o).mpr ho
    exact Nat.le_antisymm hsub.length_le hsub'.length_le

/-- What a run does at a step: the last command for it, or nothing. -/
theorem executor_of_ok (h : ofConfig c = .ok r) {σ : Type} (launcher : Launcher σ) (call : Call)
    (w : σ) :
    r.executor launcher call w = match lastFor? call.step c.executors.entries with
      | some e => e.2.executor launcher call w
      | none => Executor.passThrough call w := by
  unfold executor
  rw [(executors_of_ok h).2]
  cases lastFor? call.step c.executors.entries <;> rfl

/-- A configuration is refused, and always as a fault of the configuration, if and only if no call
may run at a time, or a name names no step, or a command is blank.  If it is accepted, each step
runs the command of the last entry that names it and passes through if there is none, and every
command is the one that its step runs if and only if no two entries name one step.  Then as many
steps have a command as there are entries, and otherwise fewer. -/
theorem ofConfig_routes (c : Config) :
    ((∃ err, ofConfig c = .error err) ↔ c.defaults.concurrency = 0 ∨
      ∃ e ∈ c.executors.entries, Step.ofName? e.1 = none ∨ e.2.isBlank) ∧
    (∀ err, ofConfig c = .error err → ∃ fault, err = .config fault) ∧
    ∀ r, ofConfig c = .ok r →
      (∀ e ∈ c.executors.entries, ∃ s, Step.ofName? e.1 = some s) ∧
      (∀ {σ : Type} (launcher : Launcher σ) (call : Call) (w : σ),
        r.executor launcher call w = match lastFor? call.step c.executors.entries with
          | some e => e.2.executor launcher call w
          | none => Executor.passThrough call w) ∧
      ((∀ e ∈ c.executors.entries, ∀ s, Step.ofName? e.1 = some s →
        lastFor? s c.executors.entries = some e) ↔ c.NamesApart) ∧
      r.routedSteps.length ≤ c.executors.size ∧
      (r.routedSteps.length = c.executors.size ↔ c.NamesApart) :=
  ⟨ofConfig_eq_error, fun _ => exists_config_of_error, fun _ h =>
    ⟨(executors_of_ok h).1, executor_of_ok h,
      namesApart_iff (executors_of_ok h).1, length_routedSteps h⟩⟩

/-! ## Two names for one step -/

/-- Ends with the status that the name of the command tells. -/
def statusOnly : Launcher Unit := fun l w =>
  (.exited (some (if l.command = "true" then 0 else 1)) .empty .empty, 0, w)

def plain (command : String) : CommandSpec := ⟨command, [], 600, none⟩

/-- The standard configuration with commands. -/
def naming (entries : List (String × CommandSpec)) : Config :=
  { Config.standard with executors := .ofList entries }

def twoSteps : Config := naming [("tested", plain "true"), (" Validated", plain "false")]

def oneStep : Config := naming [("Tested", plain "false"), ("tested", plain "true")]

theorem ofConfig_routes_twoSteps :
    ∃ r, ofConfig twoSteps = .ok r ∧ r.routedSteps.length = 2 ∧
      ∀ call, call.step = .validated →
        r.executor statusOnly call () = (plain "false").executor statusOnly call () := by
  obtain ⟨hrefused, -, haccepted⟩ := ofConfig_routes twoSteps
  have hentries : twoSteps.executors.entries =
      [(" Validated", plain "false"), ("tested", plain "true")] := by decide +kernel
  have hvalidated : Step.ofName? " Validated" = some .validated := by decide +kernel
  have htested : Step.ofName? "tested" = some .tested := by decide +kernel
  have hfine : ¬ ∃ err, ofConfig twoSteps = .error err := by
    rw [hrefused, hentries]
    decide +kernel
  have hapart : twoSteps.NamesApart := by
    rw [Config.NamesApart, hentries]
    simp [hvalidated, htested]
  cases hok : ofConfig twoSteps with
  | error err => exact absurd ⟨err, hok⟩ hfine
  | ok r =>
    obtain ⟨-, hrun, hlast, -, hlength⟩ := haccepted r hok
    refine ⟨r, rfl, ?_, fun call hcall => ?_⟩
    · rw [hlength.mpr hapart, Keyed.size, hentries]
      rfl
    · have he : (" Validated", plain "false") ∈ twoSteps.executors.entries := by simp [hentries]
      rw [hrun, hcall, hlast.mpr hapart _ he .validated hvalidated]

/-- Of the entries `Tested` and `tested` the first is left out: the step has the other's command,
and of two entries only one is run. -/
theorem exists_superseded :
    ∃ (c : Config) (r : RunConfig) (e : String × CommandSpec) (call : Call),
      ofConfig c = .ok r ∧ e ∈ c.executors.entries ∧ Step.ofName? e.1 = some call.step ∧
      r.executor statusOnly call () ≠ e.2.executor statusOnly call () ∧
      r.routedSteps.length = 1 ∧ c.executors.size = 2 := by
  have hentries : oneStep.executors.entries =
      [("Tested", plain "false"), ("tested", plain "true")] := by decide +kernel
  have hupper : Step.ofName? "Tested" = some .tested := by decide +kernel
  have hlower : Step.ofName? "tested" = some .tested := by decide +kernel
  have hrouted : (ofConfig oneStep).map routedSteps = .ok [.tested] := by decide +kernel
  cases hok : ofConfig oneStep with
  | error err => rw [hok] at hrouted; cases hrouted
  | ok r =>
    have hlast : lastFor? .tested oneStep.executors.entries = some ("tested", plain "true") := by
      rw [hentries]
      exact lastFor?_eq_some.mpr ⟨hlower, [_], [], rfl, nofun⟩
    rw [hok] at hrouted
    refine ⟨oneStep, r, ("Tested", plain "false"), ⟨"a", .null, .tested⟩, hok, ?_, hupper, ?_,
      congrArg List.length (Except.ok.inj hrouted), congrArg List.length hentries⟩
    · simp [hentries]
    · rw [executor_of_ok hok, hlast]
      decide +kernel

end RunConfig
end Publishing
