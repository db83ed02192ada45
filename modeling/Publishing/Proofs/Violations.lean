import Publishing.Proofs.Validity

/-
What a document has to be to pass the check, and what is said of one that does not pass.

The check is a splitter for the version, a scan of the entries and, for each entity, a scan of
the steps that carries one flag.  Read as lists, these scans go through every violation that there
is, each in its place, and stop at the first one: `check_eq_firstOf`.  So a violation is told just
when it holds and no other comes before it.
-/

namespace Publishing

/-! ## Versions -/

namespace Document

/-- One part of a version. -/
def IsNumberGroup (cs : List Char) : Prop := cs ≠ [] ∧ ∀ c ∈ cs, '0' ≤ c ∧ c ≤ '9'

/-- Three groups of digits with points between them; what stands behind them, if anything does,
starts with a hyphen or a plus sign. -/
def IsVersionText (text : String) : Prop :=
  ∃ major minor patch behind : List Char,
    text.toList = major ++ '.' :: minor ++ '.' :: patch ++ behind ∧
    IsNumberGroup major ∧ IsNumberGroup minor ∧ IsNumberGroup patch ∧
    ∀ c ∈ behind.head?, c = '-' ∨ c = '+'

theorem isNumberGroup_iff {cs : List Char} :
    IsNumberGroup cs ↔ (!cs.isEmpty && cs.all Text.isDigit) = true := by
  simp [IsNumberGroup, Text.isDigit]

theorem not_mem_of_isNumberGroup {cs : List Char} (h : IsNumberGroup cs) {c : Char}
    (hc : Text.isDigit c = false) : c ∉ cs := by
  intro hmem
  have hdigit : Text.isDigit c := by simpa [Text.isDigit] using h.2 c hmem
  rw [hc] at hdigit
  cases hdigit

theorem splitAt_eq_splitOnP (p : Char → Bool) (cs : List Char) : splitAt p cs = cs.splitOnP p := by
  induction cs with
  | nil => rfl
  | cons c rest ih =>
    rw [List.splitOnP_cons_eq_if_modifyHead]
    unfold splitAt
    rw [ih]
    cases hparts : rest.splitOnP p with
    | nil => exact absurd hparts (List.splitOnP_ne_nil p rest)
    | cons part parts => cases p c <;> rfl

theorem intercalate_three (a b c : List Char) :
    ['.'].intercalate [a, b, c] = a ++ '.' :: b ++ '.' :: c := by
  simp [List.intercalate]

theorem splitAt_eq_splitOn (cs : List Char) : splitAt (· = '.') cs = cs.splitOn '.' :=
  splitAt_eq_splitOnP ..

theorem eq_of_splitAt_eq {cs a b c : List Char} (h : splitAt (· = '.') cs = [a, b, c]) :
    cs = a ++ '.' :: b ++ '.' :: c := by
  rw [← intercalate_three, ← h, splitAt_eq_splitOn, List.intercalate_splitOn]

theorem splitAt_points {a b c : List Char} (ha : '.' ∉ a) (hb : '.' ∉ b) (hc : '.' ∉ c) :
    splitAt (· = '.') (a ++ '.' :: b ++ '.' :: c) = [a, b, c] := by
  rw [← intercalate_three, splitAt_eq_splitOn]
  exact List.splitOn_intercalate '.' (by simp [ha, hb, hc]) nofun

/-- Whether a character belongs to the part of a version that is tested. -/
def isCoreChar (c : Char) : Bool := c ≠ '-' && c ≠ '+'

theorem isCoreChar_eq_false {c : Char} : isCoreChar c = false ↔ c = '-' ∨ c = '+' := by
  simp [isCoreChar, or_iff_not_imp_left]

theorem isVersion_iff_groups {text : String} : isVersion text ↔ ∃ a b c,
    splitAt (· = '.') (text.toList.takeWhile isCoreChar) = [a, b, c] ∧
    IsNumberGroup a ∧ IsNumberGroup b ∧ IsNumberGroup c := by
  have hdef : isVersion text =
      (decide ((splitAt (· = '.') (text.toList.takeWhile isCoreChar)).length = 3) &&
        (splitAt (· = '.') (text.toList.takeWhile isCoreChar)).all
          fun cs => !cs.isEmpty && cs.all Text.isDigit) := rfl
  rw [hdef, Bool.and_eq_true, decide_eq_true_eq, List.length_eq_three]
  constructor
  · rintro ⟨⟨a, b, c, h⟩, hall⟩
    rw [h] at hall
    exact ⟨a, b, c, h, by simpa [isNumberGroup_iff] using hall⟩
  · rintro ⟨a, b, c, h, hgroups⟩
    rw [h]
    exact ⟨⟨a, b, c, rfl⟩, by simpa [isNumberGroup_iff] using hgroups⟩

/-- The core of a text that starts with groups and points ends where something else begins. -/
theorem takeWhile_isCoreChar {a b c behind : List Char} (ha : IsNumberGroup a)
    (hb : IsNumberGroup b) (hc : IsNumberGroup c)
    (hbehind : ∀ c ∈ behind.head?, c = '-' ∨ c = '+') :
    (a ++ '.' :: b ++ '.' :: c ++ behind).takeWhile isCoreChar = a ++ '.' :: b ++ '.' :: c := by
  have hgroup : ∀ {cs : List Char}, IsNumberGroup cs → ∀ d ∈ cs, isCoreChar d := by
    intro cs hcs d hd
    by_contra hcore
    rcases isCoreChar_eq_false.mp (Bool.eq_false_iff.mpr hcore) with rfl | rfl
    · exact not_mem_of_isNumberGroup hcs (by decide) hd
    · exact not_mem_of_isNumberGroup hcs (by decide) hd
  have hpoint : isCoreChar '.' := by decide
  have hrest : behind.takeWhile isCoreChar = [] := by
    cases behind with
    | nil => rfl
    | cons d rest =>
      have hd := isCoreChar_eq_false.mpr (hbehind d rfl)
      rw [List.takeWhile_cons, hd]
      rfl
  rw [List.takeWhile_append_of_pos, hrest, List.append_nil]
  intro d hd
  simp only [List.mem_append, List.mem_cons] at hd
  rcases hd with (hd | rfl | hd) | rfl | hd
  · exact hgroup ha d hd
  · exact hpoint
  · exact hgroup hb d hd
  · exact hpoint
  · exact hgroup hc d hd

/-- The test of a version tells the texts of that form. -/
theorem isVersion_iff {text : String} : isVersion text ↔ IsVersionText text := by
  rw [isVersion_iff_groups]
  constructor
  · rintro ⟨a, b, c, hsplit, ha, hb, hc⟩
    refine ⟨a, b, c, text.toList.dropWhile isCoreChar, ?_, ha, hb, hc, fun d hd => ?_⟩
    · rw [← eq_of_splitAt_eq hsplit, List.takeWhile_append_dropWhile]
    · have hstop := List.head?_dropWhile_not isCoreChar text.toList
      rw [hd] at hstop
      exact isCoreChar_eq_false.mp hstop
  · rintro ⟨a, b, c, behind, htext, ha, hb, hc, hbehind⟩
    refine ⟨a, b, c, ?_, ha, hb, hc⟩
    rw [htext, takeWhile_isCoreChar ha hb hc hbehind]
    have hpoint : Text.isDigit '.' = false := by decide
    exact splitAt_points (not_mem_of_isNumberGroup ha hpoint) (not_mem_of_isNumberGroup hb hpoint)
      (not_mem_of_isNumberGroup hc hpoint)

end Document

/-! ## Scans -/

namespace Step

/-- What stands before a step in the sequence are the steps before it. -/
theorem eq_predecessors {front rest : List Step} {s : Step} (h : all = front ++ s :: rest) :
    front = s.predecessors := by
  have horder : all.Pairwise (· < ·) := pairwise_all.mpr fun _ _ hab => hab
  rw [h] at horder
  obtain ⟨-, hrest, hacross⟩ := List.pairwise_append.mp horder
  have hbefore : front.filter (· < s) = front :=
    List.filter_eq_self.mpr fun a ha =>
      decide_eq_true (hacross a ha s List.mem_cons_self)
  have hbehind : (s :: rest).filter (· < s) = [] := by
    refine List.filter_eq_nil_iff.mpr fun a ha hlt => ?_
    rcases List.mem_cons.mp ha with rfl | ha
    · exact Step.lt_irrefl _ (of_decide_eq_true hlt)
    · exact Step.lt_irrefl _ (lt_trans (of_decide_eq_true hlt) (List.rel_of_pairwise_cons hrest ha))
  rw [predecessors, h, List.filter_append, hbefore, hbehind, List.append_nil]

end Step

namespace Violation

/-- The answer of a scan that comes upon these violations in turn. -/
def firstOf : List Violation → Except Violation Unit
  | [] => .ok ()
  | v :: _ => .error v

theorem firstOf_eq_error {l : List Violation} {v : Violation} :
    firstOf l = .error v ↔ l.head? = some v := by
  cases l <;> simp [firstOf]

theorem throwIf_eq_firstOf {c : Prop} [Decidable c] {v : Violation}
    {f : PUnit → Except Violation Unit} {x : Except Violation Unit} {l : List Violation}
    (h : x = firstOf l) :
    (if c then (throw v >>= f) else x) = firstOf ((if c then [v] else []) ++ l) := by
  split
  · rfl
  · exact h

theorem firstOf_bind {l l' : List Violation} :
    (firstOf l >>= fun _ => firstOf l') = firstOf (l ++ l') := by
  cases l <;> rfl

end Violation

namespace Entity

open Violation

variable {e : Entity}

/-- What there is to say of `s`, in the order of the scan. -/
def violationsAt (e : Entity) (s : Step) : List Violation :=
  (if (e.step s).status.isDone && s.predecessors.any fun a => !(e.step a).status.isDone then
    [.outOfOrder e.id s (e.step s).status] else []) ++
  if maxAttempts < (e.step s).attempts then
    [.tooManyAttempts e.id s (e.step s).attempts] else []

theorem scanSteps_eq_firstOf {front l : List Step} (h : Step.all = front ++ l) :
    e.scanSteps (front.any fun a => !(e.step a).status.isDone) l =
      firstOf (l.flatMap e.violationsAt) := by
  induction l generalizing front with
  | nil => rfl
  | cons s rest ih =>
    -- the flag is what the steps in front come to, and those are the ones before `s`
    obtain rfl := Step.eq_predecessors h
    have hnext : e.scanSteps (s.predecessors.any (fun a => !(e.step a).status.isDone) ||
        !(e.step s).status.isDone) rest = firstOf (rest.flatMap e.violationsAt) := by
      have hall : Step.all = (s.predecessors ++ [s]) ++ rest := by rw [h, ← List.append_cons]
      rw [← ih hall]
      simp
    unfold scanSteps
    rw [List.flatMap_cons, violationsAt, List.append_assoc]
    exact throwIf_eq_firstOf (throwIf_eq_firstOf hnext)

/-- What there is to say of the steps together. -/
def overallViolations (e : Entity) : List Violation :=
  (if 1 < e.runningCount then [.severalRunning e.id e.runningCount] else []) ++
  if e.currentStep ≠ e.frontier then [.currentStep e.id e.currentStep e.frontier] else []

/-- What there is to say of an entity, in the order of the scan. -/
def violations (e : Entity) : List Violation :=
  Step.all.flatMap e.violationsAt ++ e.overallViolations

theorem check_eq_firstOf : e.check = firstOf e.violations := by
  have hcurrent : (if e.currentStep ≠ e.frontier then
      throw (.currentStep e.id e.currentStep e.frontier) else pure () : Except Violation Unit) =
      firstOf (if e.currentStep ≠ e.frontier then
        [.currentStep e.id e.currentStep e.frontier] else []) := by
    split <;> rfl
  have hall : Step.all = [] ++ Step.all := rfl
  have hscan : e.scanSteps false Step.all = firstOf (Step.all.flatMap e.violationsAt) :=
    scanSteps_eq_firstOf hall
  unfold check
  rw [violations, overallViolations, hscan, ← firstOf_bind, ← throwIf_eq_firstOf hcurrent]

/-- The same for an entity kept under `key`. -/
def violationsUnder (e : Entity) (key : String) : List Violation :=
  (if key ≠ e.id then [.misfiled key e.id] else []) ++ e.violations

end Entity

namespace Document

open Violation

theorem checkEntries_eq_firstOf {l : List (String × Entity)} :
    checkEntries l = firstOf (l.flatMap fun p => p.2.violationsUnder p.1) := by
  induction l with
  | nil => rfl
  | cons p rest ih =>
    obtain ⟨key, e⟩ := p
    have hentry : (e.check >>= fun _ => checkEntries rest) =
        firstOf (e.violations ++ rest.flatMap fun p => p.2.violationsUnder p.1) := by
      rw [Entity.check_eq_firstOf, ih, firstOf_bind]
    unfold checkEntries
    rw [List.flatMap_cons, Entity.violationsUnder, List.append_assoc]
    exact throwIf_eq_firstOf hentry

/-- What there is to say of a document, in the order of the scan. -/
def violations (d : Document) : List Violation :=
  (if !isVersion d.version then [.version d.version] else []) ++
    d.entities.entries.flatMap fun p => p.2.violationsUnder p.1

theorem check_eq_firstOf {d : Document} : d.check = firstOf d.violations :=
  throwIf_eq_firstOf checkEntries_eq_firstOf

end Document

/-! ## The invariants -/

namespace Entity

variable {e : Entity} {k s : Step} {key : String} {v : Violation}

/-- `k` is the first step that is not done, or the last one when all are done. -/
inductive FirstOpen (e : Entity) : Step → Prop
  | opened {k : Step} (isOpen : (e.step k).status.isDone = false)
      (before : ∀ a, a < k → (e.step a).status.isDone) : FirstOpen e k
  | done (all : ∀ a, (e.step a).status.isDone) : FirstOpen e .finalized

theorem firstOpen_iff : e.FirstOpen k ↔ e.frontier = k := by
  rw [frontier_eq_iff]
  constructor
  · rintro (⟨isOpen, before⟩ | all)
    · exact ⟨before, fun hd => absurd hd (Bool.eq_false_iff.mp isOpen)⟩
    · exact ⟨fun a _ => all a, fun _ => rfl⟩
  · rintro ⟨hb, hk⟩
    cases hd : (e.step k).status.isDone with
    | false => exact .opened hd hb
    | true =>
      obtain rfl := hk hd
      refine .done fun a => ?_
      rcases Step.le_iff_eq_or_lt.mp (Step.le_finalized a) with rfl | ha
      · exact hd
      · exact hb a ha

/-- The invariants of an entity. -/
structure IsRegular (e : Entity) : Prop where
  /-- The steps that are done come before those that are not. -/
  ordered : ∀ a b, a < b → (e.step b).status.isDone → (e.step a).status.isDone
  running_unique : ∀ a b, (e.step a).status = .running → (e.step b).status = .running → a = b
  attempts_le : ∀ a, (e.step a).attempts ≤ 3
  current : e.FirstOpen e.currentStep

theorem isRegular_iff : e.IsRegular ↔ e.IsValid := by
  constructor
  · rintro ⟨ordered, running_unique, attempts_le, current⟩
    obtain ⟨hb, hc, ha⟩ := ordered_frontier_iff.mp ⟨ordered, firstOpen_iff.mp current⟩
    exact ⟨hb, hc, ha, attempts_le, running_unique⟩
  · rintro ⟨hb, hc, ha, attempts_le, running_unique⟩
    obtain ⟨ordered, hf⟩ := ordered_frontier_iff.mpr ⟨hb, hc, ha⟩
    exact ⟨ordered, running_unique, attempts_le, firstOpen_iff.mpr hf⟩

/-- What can be wrong with an entity kept under `key`, each with what is said of it. -/
inductive Breaks (e : Entity) (key : String) : Violation → Prop
  | misfiled (other : key ≠ e.id) : Breaks e key (.misfiled key e.id)
  | outOfOrder {a s : Step} (before : a < s) (isOpen : (e.step a).status.isDone = false)
      (done : (e.step s).status.isDone) :
      Breaks e key (.outOfOrder e.id s (e.step s).status)
  | tooManyAttempts {s : Step} (exceeds : 3 < (e.step s).attempts) :
      Breaks e key (.tooManyAttempts e.id s (e.step s).attempts)
  | severalRunning {a b : Step} (distinct : a ≠ b) (running : (e.step a).status = .running)
      (running' : (e.step b).status = .running) :
      Breaks e key (.severalRunning e.id e.runningCount)
  | currentStep {k : Step} (first : e.FirstOpen k) (other : e.currentStep ≠ k) :
      Breaks e key (.currentStep e.id e.currentStep k)

/-! ## The scan comes upon what is wrong -/

theorem mem_violationsAt : v ∈ e.violationsAt s ↔
    (((e.step s).status.isDone ∧ ∃ a, a < s ∧ (e.step a).status.isDone = false) ∧
      v = .outOfOrder e.id s (e.step s).status) ∨
    (3 < (e.step s).attempts ∧ v = .tooManyAttempts e.id s (e.step s).attempts) := by
  rw [violationsAt, List.mem_append, List.mem_ite_nil_right, List.mem_ite_nil_right]
  simp [Step.mem_predecessors, maxAttempts]

theorem severalRunning_iff : 1 < e.runningCount ↔
    ∃ a b, a ≠ b ∧ (e.step a).status = .running ∧ (e.step b).status = .running := by
  rw [← Nat.not_le, runningCount_le_one]
  push Not
  exact exists_congr fun a => exists_congr fun b => by tauto

theorem mem_violationsUnder : v ∈ e.violationsUnder key ↔ e.Breaks key v := by
  simp only [violationsUnder, violations, overallViolations, List.mem_append, List.mem_flatMap,
    List.mem_ite_nil_right, List.mem_singleton, mem_violationsAt, severalRunning_iff]
  constructor
  · rintro (⟨hkey, rfl⟩ | ⟨s, -, ⟨⟨hd, a, ha, ho⟩, rfl⟩ | ⟨hlt, rfl⟩⟩ |
      ⟨⟨a, b, hab, ha, hb⟩, rfl⟩ | ⟨hc, rfl⟩)
    · exact .misfiled hkey
    · exact .outOfOrder ha ho hd
    · exact .tooManyAttempts hlt
    · exact .severalRunning hab ha hb
    · exact .currentStep (firstOpen_iff.mpr rfl) hc
  · rintro (hkey | ⟨ha, ho, hd⟩ | hlt | ⟨hab, ha, hb⟩ | ⟨hk, hc⟩)
    · exact .inl ⟨hkey, rfl⟩
    · exact .inr (.inl ⟨_, Step.mem_all _, .inl ⟨⟨hd, _, ha, ho⟩, rfl⟩⟩)
    · exact .inr (.inl ⟨_, Step.mem_all _, .inr ⟨hlt, rfl⟩⟩)
    · exact .inr (.inr (.inl ⟨⟨_, _, hab, ha, hb⟩, rfl⟩))
    · obtain rfl := firstOpen_iff.mp hk
      exact .inr (.inr (.inr ⟨hc, rfl⟩))

end Entity

/-! ## The order of the scan -/

/-- The place of a violation in the scan of an entity. -/
def Violation.place : Violation → Nat
  | .version _ | .misfiled .. => 0
  | .outOfOrder _ s _ => 2 * s.index + 1
  | .tooManyAttempts _ s _ => 2 * s.index + 2
  | .severalRunning .. => 2 * Step.all.length + 1
  | .currentStep .. => 2 * Step.all.length + 2

namespace Entity

variable {e : Entity} {s : Step} {key : String} {v : Violation}

theorem place_of_mem_violationsAt (h : v ∈ e.violationsAt s) :
    2 * s.index < v.place ∧ v.place ≤ 2 * s.index + 2 := by
  rcases mem_violationsAt.mp h with ⟨-, rfl⟩ | ⟨-, rfl⟩ <;> simp [Violation.place]

theorem pairwise_violationsAt (e : Entity) (s : Step) :
    (e.violationsAt s).Pairwise fun u v => u.place < v.place := by
  unfold violationsAt
  split <;> split <;> simp [Violation.place]

theorem place_of_mem_overallViolations (h : v ∈ e.overallViolations) :
    2 * Step.all.length < v.place := by
  rw [overallViolations, List.mem_append, List.mem_ite_nil_right, List.mem_ite_nil_right,
    List.mem_singleton, List.mem_singleton] at h
  rcases h with ⟨-, rfl⟩ | ⟨-, rfl⟩ <;> simp [Violation.place]

theorem place_pos_of_mem_violations (h : v ∈ e.violations) : 0 < v.place := by
  rcases List.mem_append.mp h with h | h
  · obtain ⟨s, -, h⟩ := List.mem_flatMap.mp h
    exact Nat.zero_lt_of_lt (place_of_mem_violationsAt h).1
  · exact Nat.zero_lt_of_lt (place_of_mem_overallViolations h)

theorem pairwise_violations (e : Entity) :
    e.violations.Pairwise fun u v => u.place < v.place := by
  have hsteps : (Step.all.flatMap e.violationsAt).Pairwise fun u v => u.place < v.place := by
    refine List.pairwise_flatMap.mpr ⟨fun s _ => pairwise_violationsAt e s, ?_⟩
    refine Step.pairwise_all.mpr fun a b hab u hu v hv => ?_
    have hab : a.index < b.index := hab
    have hu := place_of_mem_violationsAt hu
    have hv := place_of_mem_violationsAt hv
    omega
  have hoverall : e.overallViolations.Pairwise fun u v => u.place < v.place := by
    unfold overallViolations
    split <;> split <;> simp [Violation.place]
  refine List.pairwise_append.mpr ⟨hsteps, hoverall, fun u hu v hv => ?_⟩
  obtain ⟨s, -, hu⟩ := List.mem_flatMap.mp hu
  have hs : s.index < Step.all.length := by cases s <;> decide
  have hu := place_of_mem_violationsAt hu
  have hv := place_of_mem_overallViolations hv
  omega

/-- The scan goes up from place to place. -/
theorem pairwise_violationsUnder (e : Entity) (key : String) :
    (e.violationsUnder key).Pairwise fun u v => u.place < v.place := by
  unfold violationsUnder
  split
  · exact List.pairwise_cons.mpr
      ⟨fun _ hv => place_pos_of_mem_violations hv, pairwise_violations e⟩
  · exact pairwise_violations e

end Entity

/-- Of a list that goes up, the first member is the least. -/
theorem head?_eq_some_iff_least {α : Type} {f : α → Nat} {l : List α}
    (h : l.Pairwise fun a b => f a < f b) {a : α} :
    l.head? = some a ↔ a ∈ l ∧ ∀ b ∈ l, f a ≤ f b := by
  cases l with
  | nil => simp
  | cons c rest =>
    have hrest : ∀ b ∈ rest, f c < f b := (List.pairwise_cons.mp h).1
    rw [List.head?_cons, Option.some_inj]
    constructor
    · rintro rfl
      exact ⟨List.mem_cons_self,
        List.forall_mem_cons.mpr ⟨Nat.le_refl _, fun b hb => Nat.le_of_lt (hrest b hb)⟩⟩
    · rintro ⟨ha, hle⟩
      rcases List.mem_cons.mp ha with rfl | ha
      · rfl
      · exact absurd (hle c List.mem_cons_self) (Nat.not_le.mpr (hrest a ha))

theorem Keyed.mem_before_iff {α : Type u} {m : Keyed α} {before behind : List (String × α)}
    {key : String} {value : α} (h : m.entries = before ++ (key, value) :: behind)
    {p : String × α} : p ∈ before ↔ p.1 < key ∧ m.find? p.1 = some p.2 := by
  obtain ⟨-, hbehind, hacross⟩ := List.pairwise_append.mp (h ▸ m.ascending)
  rw [find?_eq_some_iff, h, List.mem_append, List.mem_cons]
  constructor
  · exact fun hp => ⟨hacross _ hp _ List.mem_cons_self, .inl hp⟩
  · rintro ⟨hlt, hp | hp | hp⟩
    · exact hp
    · rw [congrArg Prod.fst hp] at hlt
      exact absurd hlt (String.lt_irrefl _)
    · exact absurd (String.lt_trans hlt (List.rel_of_pairwise_cons hbehind hp))
        (String.lt_irrefl _)

namespace Document

variable {d : Document} {v : Violation}

/-- The violation that stands first in the order of the keys, and within an entity in the order of
the scan. -/
inductive FirstViolation (d : Document) : Violation → Prop
  | version (malformed : ¬ IsVersionText d.version) : FirstViolation d (.version d.version)
  | entity {key : String} {e : Entity} {v : Violation} (version : IsVersionText d.version)
      (found : d.find? key = some e)
      (before : ∀ key' e' u, key' < key → d.find? key' = some e' → ¬ e'.Breaks key' u)
      (breaks : e.Breaks key v) (first : ∀ u, e.Breaks key u → v.place ≤ u.place) :
      FirstViolation d v

theorem head?_violationsUnder {e : Entity} {key : String} :
    (e.violationsUnder key).head? = some v ↔
      e.Breaks key v ∧ ∀ u, e.Breaks key u → v.place ≤ u.place := by
  rw [head?_eq_some_iff_least (e.pairwise_violationsUnder key)]
  simp only [Entity.mem_violationsUnder]

theorem head?_violationsUnder_eq_none {e : Entity} {key : String} :
    (e.violationsUnder key).head? = none ↔ ∀ u, ¬ e.Breaks key u := by
  rw [List.head?_eq_none_iff, List.eq_nil_iff_forall_not_mem]
  simp only [Entity.mem_violationsUnder]

theorem head?_violations : d.violations.head? = some v ↔ d.FirstViolation v := by
  unfold violations
  by_cases hversion : isVersion d.version
  · have htext := isVersion_iff.mp hversion
    rw [if_neg (by simp [hversion]), List.nil_append, List.head?_flatMap,
      List.findSome?_eq_some_iff]
    constructor
    · rintro ⟨before, ⟨key, e⟩, behind, hentries, hhead, hbefore⟩
      obtain ⟨hbreaks, hfirst⟩ := head?_violationsUnder.mp hhead
      have hfound : d.find? key = some e :=
        Keyed.find?_eq_some_iff.mpr (by rw [hentries]; simp)
      refine .entity htext hfound (fun key' e' u hlt he' => ?_) hbreaks hfirst
      exact head?_violationsUnder_eq_none.mp
        (hbefore (key', e') ((Keyed.mem_before_iff hentries).mpr ⟨hlt, he'⟩)) u
    · rintro (hno | ⟨-, hfound, hbefore, hbreaks, hfirst⟩)
      · exact absurd htext hno
      · obtain ⟨before, behind, hentries⟩ :=
          List.append_of_mem (Keyed.find?_eq_some_iff.mp hfound)
        refine ⟨before, _, behind, hentries, head?_violationsUnder.mpr ⟨hbreaks, hfirst⟩, ?_⟩
        intro p hp
        obtain ⟨hlt, hp⟩ := (Keyed.mem_before_iff hentries).mp hp
        exact head?_violationsUnder_eq_none.mpr fun u => hbefore p.1 p.2 u hlt hp
  · have hno : ¬ IsVersionText d.version := fun h => hversion (isVersion_iff.mpr h)
    rw [if_pos (by simp [hversion]), List.singleton_append, List.head?_cons, Option.some_inj]
    constructor
    · rintro rfl
      exact .version hno
    · rintro (- | ⟨htext, -⟩)
      · rfl
      · exact absurd htext hno

/-- A document passes the check just when its version has its form, every entity is kept under its
id and all entities have their invariants.  What is said of another one is what there is to say of
its first violation. -/
theorem check_tells (d : Document) :
    (d.check = .ok () ↔ IsVersionText d.version ∧
      ∀ key e, d.find? key = some e → e.id = key ∧ e.IsRegular) ∧
    (∀ v, d.check = .error v ↔ d.FirstViolation v) ∧
    ∀ text, d.check.mapError Violation.message = .error text ↔
      ∃ v, d.FirstViolation v ∧ v.message = text := by
  have herror : ∀ v, d.check = .error v ↔ d.FirstViolation v := fun v => by
    rw [check_eq_firstOf, Violation.firstOf_eq_error, head?_violations]
  refine ⟨?_, herror, fun text => ?_⟩
  · rw [check_eq_ok_iff, isVersion_iff]
    refine and_congr_right fun _ => ⟨fun ⟨hf, hv⟩ key e he => ?_, fun h => ⟨?_, ?_⟩⟩
    · exact ⟨hf key e he, Entity.isRegular_iff.mpr (hv key e he)⟩
    · exact fun key e he => (h key e he).1
    · exact fun key e he => Entity.isRegular_iff.mp (h key e he).2
  · simp only [← herror]
    cases d.check with
    | ok u => simp [Except.mapError]
    | error v => simp [Except.mapError]

/-- Too many attempts at a step are told before what is wrong with a later one. -/
example :
    ((empty (.ofSeconds 0)).insert "post" <|
      ((Entity.draft (.ofSeconds 0) "post" .null).modifyStep .ingested fun r =>
        { r with attempts := 4 }).modifyStep .tested fun r =>
          { r with status := .completed }).check =
    .error (.tooManyAttempts "post" .ingested 4) := by decide +kernel

end Document
end Publishing
