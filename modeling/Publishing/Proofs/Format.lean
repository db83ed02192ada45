import Publishing.Proofs.Entries
import Publishing.Proofs.ReadBack

/-
Reading a document back, record by record.

What a decoder makes of the text of a record is decided field by field: a field that was
written is the one that is found, and one that was left out gets its default.
-/

namespace Publishing

open Json
open Json.Decoder (Fields Gather)

namespace Json.Decoder

variable {α β γ : Type}

/-- Whatever `d` reads from the text of `f x` is related to `x`. -/
def Reads (d : Decoder β) (f : α → Json) (R : α → β → Prop) : Prop :=
  ∀ s x y, d s (.written (f x)) = .ok y → R x y

theorem enter_eq_ok {s : Setting} {k : Setting → Except Fault α} {a : α}
    (h : s.enter k = .ok a) : ∃ s', k s' = .ok a := by
  unfold Setting.enter at h
  split at h
  · cases h
  · exact ⟨_, h⟩

/-! ## Values -/

theorem reads_string : string.Reads .string (· = ·) :=
  fun _ _ _ h => Except.ok.inj h

theorem reads_json : json.Reads id ReadsBack := by
  intro s v v' h
  dsimp only [json] at h
  split at h
  · next hv => exact ⟨_, (Except.ok.inj h) ▸ hv⟩
  · cases h

theorem reads_natural (name : String) (bound : Nat) :
    (natural name bound).Reads .nat (· = ·) := by
  intro s n m h
  unfold natural at h
  split at h
  · next heq =>
    split at h
    · next hi =>
      have hn := Number.reread_int (Tree.number.inj heq)
      have hm := Except.ok.inj h
      omega
    · cases h
  · cases h

theorem reads_parsed {expected : String} {parse : String → Option β} {text : α → String}
    {R : α → β → Prop} (hparse : ∀ x y, parse (text x) = some y → R x y) :
    (parsed expected parse).Reads (fun x => .string (text x)) R := by
  intro s x y h
  dsimp only [Tree.written, parsed] at h
  split at h
  · next hx => exact hparse x y ((Except.ok.inj h) ▸ hx)
  · cases h

theorem reads_variant {choices : List (String × β)} {name : β → String}
    (hname : ∀ b, choices.lookup (name b) = some b) :
    (variant choices).Reads (fun b => .string (name b)) (· = ·) := by
  intro s b c h
  have h : choose choices (name b) = .ok c := h
  rw [choose, hname] at h
  exact Except.ok.inj h

/-- A value that is not written as `null` may stand where `null` may. -/
theorem reads_nullable {d : Decoder β} {f : α → Json} {R : α → β → Prop} (hd : d.Reads f R)
    (hnull : ∀ x, Tree.written (f x) ≠ .null) :
    d.nullable.Reads f fun x o => ∃ y, o = some y ∧ R x y := by
  intro s x o h
  have h : (d s (.written (f x))).map some = .ok o := by
    unfold nullable at h
    split at h
    · next heq => exact absurd heq (hnull x)
    · exact h
  cases hx : d s (.written (f x)) with
  | error e => rw [hx] at h; cases h
  | ok y =>
    rw [hx] at h
    exact ⟨y, (Except.ok.inj h).symm, hd s x y hx⟩

theorem reads_list {d : Decoder β} {f : α → Json} {R : α → β → Prop} (hd : d.Reads f R) :
    d.list.Reads (fun l => .array (l.map f)) (List.Forall₂ R) := by
  have hitems : ∀ s l m, listItems d s true (Tree.writtenItems (List.map f l)) = .ok m →
      List.Forall₂ R l m := by
    intro s l
    induction l with
    | nil =>
      intro m h
      obtain rfl := Except.ok.inj h
      exact .nil
    | cons x xs ih =>
      intro m h
      rw [List.map_cons, Tree.writtenItems, listItems] at h
      cases hx : d s (.written (f x)) with
      | error e => rw [hx] at h; cases h
      | ok y =>
        cases hxs : listItems d s true (Tree.writtenItems (xs.map f)) with
        | error e => rw [hx, hxs] at h; cases h
        | ok ys =>
          rw [hx, hxs] at h
          obtain rfl := Except.ok.inj h
          exact .cons (hd s x y hx) (ih ys hxs)
  intro s l m h
  change s.enter (fun s => listItems d s true (Tree.writtenItems (l.map f))) = .ok m at h
  obtain ⟨s', h⟩ := enter_eq_ok h
  exact hitems s' l m h

/-- The entries of a map come back under their keys. -/
theorem reads_keyed {d : Decoder β} {f : α → Json} {R : α → β → Prop} (hd : d.Reads f R) :
    d.keyed.Reads (fun m : Keyed α => .ofKeyed (m.map fun _ x => f x)) fun m n =>
      List.Forall₂ (fun a b => a.1 = b.1 ∧ R a.2 b.2) m.entries n.entries := by
  have hmembers : ∀ s l (sofar : Keyed β) n,
      (sofar.entries.map (·.1) ++ l.map (·.1)).Pairwise (· < ·) →
      keyedMembers d s true sofar
        (Tree.writtenMembers (l.map fun e : String × α => (e.1, f e.2))) = .ok n →
      ∃ m, n.entries = sofar.entries ++ m ∧
        List.Forall₂ (fun a b => a.1 = b.1 ∧ R a.2 b.2) l m := by
    intro s l
    induction l with
    | nil =>
      intro sofar n _ h
      obtain rfl := Except.ok.inj h
      exact ⟨[], (List.append_nil _).symm, .nil⟩
    | cons e rest ih =>
      intro sofar n hasc h
      rw [List.map_cons, Tree.writtenMembers, keyedMembers] at h
      cases hx : d s (.written (f e.2)) with
      | error err => rw [hx] at h; cases h
      | ok y =>
        rw [hx] at h
        have hlt : ∀ p ∈ sofar.entries, p.1 < e.1 := fun p hp =>
          (List.pairwise_append.mp hasc).2.2 _ (List.mem_map_of_mem hp) _ List.mem_cons_self
        have hins : (sofar.insert e.1 y).entries = sofar.entries ++ [(e.1, y)] :=
          Keyed.insertEntry_of_forall_lt hlt y
        obtain ⟨m, hm, hrel⟩ := ih (sofar.insert e.1 y) n (by
          rw [hins, List.map_append, List.append_assoc]
          exact hasc) h
        refine ⟨(e.1, y) :: m, ?_, .cons ⟨rfl, hd s e.2 y hx⟩ hrel⟩
        rw [hm, hins, List.append_assoc]
        rfl
  intro s m n h
  change s.enter (fun s => keyedMembers d s true .empty
    (Tree.writtenMembers (m.map fun _ x => f x).entries)) = .ok n at h
  obtain ⟨s', h⟩ := enter_eq_ok h
  obtain ⟨l, hl, hrel⟩ := hmembers s' m.entries .empty n (by
    rw [List.pairwise_append]
    exact ⟨List.Pairwise.nil, List.pairwise_map.mpr m.ascending, nofun⟩) h
  rw [hl]
  exact hrel

/-! ## Records -/

theorem Gather.map_eq_got {f : α → β} {x : Gather α} {b : β} :
    f <$> x = .got b ↔ ∃ a, x = .got a ∧ f a = b := by
  show Gather.seq (.got f) (fun _ => x) = .got b ↔ _
  cases x with
  | got a => simp [Gather.seq]
  | fault p e => simp [Gather.seq]

theorem Gather.seq_eq_got {f : Gather (α → β)} {x : Gather α} {b : β} :
    f <*> x = .got b ↔ ∃ g a, f = .got g ∧ x = .got a ∧ g a = b := by
  show Gather.seq f (fun _ => x) = .got b ↔ _
  cases f with
  | got g =>
    cases x with
    | got a => simp [Gather.seq]
    | fault p e => simp [Gather.seq]
  | fault p e =>
    cases x with
    | got a => simp [Gather.seq]
    | fault q e' =>
      simp only [Gather.seq]
      split <;> simp

theorem Gather.toExcept_eq_ok {x : Gather α} {a : α} : x.toExcept = .ok a ↔ x = .got a := by
  cases x with
  | got b => simp [Gather.toExcept]
  | fault p e => simp [Gather.toExcept]

theorem Gather.ofExcept_eq_got {place : Nat} {x : Except Fault α} {a : α} :
    Gather.ofExcept place x = .got a ↔ x = .ok a := by
  cases x with
  | ok b => simp [Gather.ofExcept]
  | error e => simp [Gather.ofExcept]

/-- The fields of a record as they were written. -/
def writtenFields (s : Setting) (members : List (String × Json)) : Fields :=
  ofMembers s (Tree.writtenMembers members)

theorem record_eq_ok {name : String} {names : List String} {build : Fields → Gather α}
    {s : Setting} {members : List (String × Json)} {a : α}
    (h : record name names build s (.written (.object members)) = .ok a) :
    ∃ s', build (writtenFields s' members) = .got a := by
  change s.enter (fun s => Gather.toExcept ((fun _ a => a) <$>
    scanMembers names [] 0 true (Tree.writtenMembers members) <*>
      build (writtenFields s members))) = .ok a at h
  obtain ⟨s', h⟩ := enter_eq_ok h
  rw [Gather.toExcept_eq_ok, Gather.seq_eq_got] at h
  obtain ⟨g, a', hg, hbuild, rfl⟩ := h
  obtain ⟨_, -, rfl⟩ := Gather.map_eq_got.mp hg
  exact ⟨s', hbuild⟩

theorem findMember?_written (name : String) (place : Nat) (members : List (String × Json)) :
    (findMember? name place (Tree.writtenMembers members)).map (·.2) =
      (members.lookup name).map Tree.written := by
  induction members generalizing place with
  | nil => rfl
  | cons p rest ih =>
    obtain ⟨k, v⟩ := p
    rw [Tree.writtenMembers, findMember?, List.lookup_cons]
    by_cases hk : k = name
    · rw [if_pos (congrArg some hk), hk, beq_self_eq_true]
      rfl
    · have hne : (name == k) = false := by
        rw [beq_eq_false_iff_ne]
        exact Ne.symm hk
      rw [if_neg (by simpa using hk), hne]
      exact ih (place + 1)

theorem required_eq_got {s : Setting} {members : List (String × Json)} {name : String}
    {d : Decoder β} {b : β} (h : (writtenFields s members).required name d = .got b) :
    ∃ v, members.lookup name = some v ∧ d s (.written v) = .ok b := by
  have hfind := findMember?_written name 0 members
  unfold Fields.required at h
  split at h
  · next place t hf =>
    change findMember? name 0 (Tree.writtenMembers members) = _ at hf
    rw [hf] at hfind
    obtain ⟨v, hv, hvt⟩ := Option.map_eq_some_iff.mp hfind.symm
    exact ⟨v, hv, by rw [hvt]; exact Gather.ofExcept_eq_got.mp h⟩
  · cases h

/-- A field that was written is read. -/
theorem Reads.required {d : Decoder β} {f : α → Json} {R : α → β → Prop} (hd : d.Reads f R)
    {s : Setting} {members : List (String × Json)} {name : String} {b : β}
    (h : (writtenFields s members).required name d = .got b) {x : α}
    (hx : members.lookup name = some (f x)) : R x b := by
  obtain ⟨v, hv, hb⟩ := required_eq_got h
  obtain rfl := Option.some.inj (hx.symm.trans hv)
  exact hd s x b hb

theorem lookup_of_isNone {s : Setting} {members : List (String × Json)} {name : String}
    (h : ((writtenFields s members).find? name).isNone) : members.lookup name = none := by
  have hfind := findMember?_written name 0 members
  rw [Option.isNone_iff_eq_none] at h
  change findMember? name 0 (Tree.writtenMembers members) = none at h
  rw [h] at hfind
  exact Option.map_eq_none_iff.mp hfind.symm

theorem Reads.default {d : Decoder β} {f : α → Json} {R : α → β → Prop} (hd : d.Reads f R)
    {s : Setting} {members : List (String × Json)} {name : String} {value b : β}
    (h : (writtenFields s members).default name value d = .got b) {x : α}
    (hx : members.lookup name = some (f x)) : R x b := by
  unfold Fields.default at h
  split at h
  · next hn =>
    rw [Bool.and_eq_true] at hn
    rw [lookup_of_isNone hn.1] at hx
    cases hx
  · exact hd.required h hx

/-- A field that is left out without a value is read as nothing. -/
theorem Reads.optional {d : Decoder α} {f : α → Json} (hd : d.Reads f (· = ·))
    (hnull : ∀ x, Tree.written (f x) ≠ .null) {s : Setting} {members : List (String × Json)}
    {name : String} {b : Option α}
    (h : (writtenFields s members).default name none d.nullable = .got b) {o : Option α}
    (ho : members.lookup name = o.map f) : o = b := by
  cases o with
  | none =>
    unfold Fields.default at h
    split at h
    · exact Gather.got.inj h
    · obtain ⟨v, hv, -⟩ := required_eq_got h
      rw [ho] at hv
      cases hv
  | some x =>
    obtain ⟨y, rfl, rfl⟩ := (reads_nullable hd hnull).default h ho
    rfl

end Json.Decoder

theorem lookup_whenSome (key key' : String) (f : α → Json) (o : Option α) :
    (whenSome key f o).lookup key' = if key' = key then o.map f else none := by
  cases o with
  | none => simp [whenSome]
  | some a =>
    rw [whenSome, List.lookup_cons]
    by_cases h : key' = key
    · simp [h]
    · have hne : (key' == key) = false := by simpa using h
      simp [h, hne]

/-! ## The parts of a document -/

open Json.Decoder

theorem reads_timestamp : Timestamp.decoder.Reads Timestamp.toJson (· = ·) := by
  refine reads_parsed fun t t' h => ?_
  rw [Timestamp.ofText?_text] at h
  split at h
  · exact Option.some.inj h
  · cases h

theorem reads_runId : RunId.decoder.Reads RunId.toJson (· = ·) :=
  reads_parsed fun r _ h => Option.some.inj ((RunId.ofText?_text r).symm.trans h)

theorem reads_step : Step.decoder.Reads Step.toJson (· = ·) :=
  reads_variant fun s => by cases s <;> rfl

theorem reads_stepStatus : StepStatus.decoder.Reads StepStatus.toJson (· = ·) :=
  reads_variant fun s => by cases s <;> rfl

theorem reads_entityStatus : EntityStatus.decoder.Reads EntityStatus.toJson (· = ·) :=
  reads_variant fun s => by cases s <;> rfl

/-- The same checkpoint, with data that may have been written and read. -/
structure Checkpoint.ReadsBack (c c' : Checkpoint) : Prop where
  operation : c.operation = c'.operation
  timestamp : c.timestamp = c'.timestamp
  data : c.data.ReadsBack c'.data

theorem Checkpoint.ReadsBack.eq_of_data {c c' : Checkpoint} (h : c.ReadsBack c')
    (hd : c'.data = c.data) : c' = c := by
  cases c
  cases c'
  exact Checkpoint.mk.injEq .. ▸ ⟨h.operation.symm, h.timestamp.symm, hd⟩

theorem reads_checkpoint : Checkpoint.decoder.Reads Checkpoint.toJson Checkpoint.ReadsBack := by
  intro s c c' h
  obtain ⟨s', h⟩ := record_eq_ok h
  simp only [Gather.seq_eq_got, Gather.map_eq_got] at h
  obtain ⟨_, data, ⟨_, time, ⟨operation, hop, rfl⟩, htime, rfl⟩, hdata, rfl⟩ := h
  exact ⟨reads_string.required hop rfl, reads_timestamp.required htime rfl,
    reads_json.default hdata rfl⟩

structure StepRecord.ReadsBack (r r' : StepRecord) : Prop where
  status : r.status = r'.status
  attempts : r.attempts = r'.attempts
  startedAt : r.startedAt = r'.startedAt
  completedAt : r.completedAt = r'.completedAt
  durationMs : r.durationMs = r'.durationMs
  error : r.error = r'.error
  checkpoints : List.Forall₂ Checkpoint.ReadsBack r.checkpoints r'.checkpoints

theorem StepRecord.ReadsBack.eq_of_checkpoints {r r' : StepRecord} (h : r.ReadsBack r')
    (hc : r'.checkpoints = r.checkpoints) : r' = r := by
  cases r
  cases r'
  exact StepRecord.mk.injEq .. ▸ ⟨h.status.symm, h.attempts.symm, h.startedAt.symm,
    h.completedAt.symm, h.durationMs.symm, h.error.symm, hc⟩

theorem reads_stepRecord : StepRecord.decoder.Reads StepRecord.toJson StepRecord.ReadsBack := by
  intro s r r' h
  obtain ⟨s', h⟩ := record_eq_ok h
  simp only [Gather.seq_eq_got, Gather.map_eq_got] at h
  obtain ⟨_, checkpoints, ⟨_, error, ⟨_, ms, ⟨_, completed, ⟨_, started, ⟨_, attempts,
    ⟨status, hstatus, rfl⟩, hattempts, rfl⟩, hstarted, rfl⟩, hcompleted, rfl⟩, hms, rfl⟩,
    herror, rfl⟩, hcheckpoints, rfl⟩ := h
  refine ⟨reads_stepStatus.required hstatus ?_, (reads_natural _ _).default hattempts ?_,
    reads_timestamp.optional nofun hstarted ?_, reads_timestamp.optional nofun hcompleted ?_,
    (reads_natural _ _).optional nofun hms ?_, reads_string.optional nofun herror ?_,
    (reads_list reads_checkpoint).default hcheckpoints ?_⟩
  all_goals simp [List.lookup_append, List.lookup_cons, lookup_whenSome]

theorem reads_stepTable : StepTable.decoder.Reads StepTable.toJson
    fun t t' => ∀ s, (t.get s).ReadsBack (t'.get s) := by
  intro s t t' h
  obtain ⟨s', h⟩ := record_eq_ok h
  simp only [Gather.seq_eq_got, Gather.map_eq_got] at h
  obtain ⟨_, finalized, ⟨_, published, ⟨_, validated, ⟨_, tested, ⟨ingested, hingested, rfl⟩,
    htested, rfl⟩, hvalidated, rfl⟩, hpublished, rfl⟩, hfinalized, rfl⟩ := h
  intro step
  cases step with
  | ingested => exact reads_stepRecord.required hingested rfl
  | tested => exact reads_stepRecord.required htested rfl
  | validated => exact reads_stepRecord.required hvalidated rfl
  | published => exact reads_stepRecord.required hpublished rfl
  | finalized => exact reads_stepRecord.required hfinalized rfl

theorem reads_failure : Failure.decoder.Reads Failure.toJson (· = ·) := by
  intro s e e' h
  obtain ⟨s', h⟩ := record_eq_ok h
  simp only [Gather.seq_eq_got, Gather.map_eq_got] at h
  obtain ⟨_, time, ⟨_, attempt, ⟨_, message, ⟨step, hstep, rfl⟩, hmessage, rfl⟩, hattempt,
    rfl⟩, htime, rfl⟩ := h
  rw [← reads_step.required hstep rfl, ← reads_string.required hmessage rfl,
    ← (reads_natural _ _).required hattempt rfl, ← reads_timestamp.required htime rfl]

structure Entity.ReadsBack (e e' : Entity) : Prop where
  id : e.id = e'.id
  status : e.status = e'.status
  currentStep : e.currentStep = e'.currentStep
  step : ∀ s, (e.step s).ReadsBack (e'.step s)
  metadata : e.metadata.ReadsBack e'.metadata
  errors : e.errors = e'.errors
  createdAt : e.createdAt = e'.createdAt
  updatedAt : e.updatedAt = e'.updatedAt

theorem reads_entity : Entity.decoder.Reads Entity.toJson Entity.ReadsBack := by
  intro s e e' h
  obtain ⟨s', h⟩ := record_eq_ok h
  simp only [Gather.seq_eq_got, Gather.map_eq_got] at h
  obtain ⟨_, updated, ⟨_, created, ⟨_, errors, ⟨_, metadata, ⟨_, steps, ⟨_, current,
    ⟨_, status, ⟨id, hid, rfl⟩, hstatus, rfl⟩, hcurrent, rfl⟩, hsteps, rfl⟩, hmetadata, rfl⟩,
    herrors, rfl⟩, hcreated, rfl⟩, hupdated, rfl⟩ := h
  have herrors := (reads_list reads_failure).default herrors (x := e.errors) rfl
  rw [List.forall₂_eq_eq_eq] at herrors
  exact ⟨reads_string.required hid rfl, reads_entityStatus.required hstatus rfl,
    reads_step.required hcurrent rfl, reads_stepTable.required hsteps rfl,
    reads_json.default hmetadata rfl, herrors, reads_timestamp.required hcreated rfl,
    reads_timestamp.required hupdated rfl⟩

theorem reads_batch : Batch.decoder.Reads Batch.toJson (· = ·) := by
  intro s b b' h
  obtain ⟨s', h⟩ := record_eq_ok h
  simp only [Gather.seq_eq_got, Gather.map_eq_got] at h
  obtain ⟨_, runId, ⟨_, ms, ⟨_, failed, ⟨_, succeeded, ⟨_, processed, ⟨_, time,
    ⟨step, hstep, rfl⟩, htime, rfl⟩, hprocessed, rfl⟩, hsucceeded, rfl⟩, hfailed, rfl⟩, hms,
    rfl⟩, hrunId, rfl⟩ := h
  rw [← reads_step.required hstep rfl, ← reads_timestamp.required htime rfl,
    ← (reads_natural _ _).required hprocessed rfl, ← (reads_natural _ _).required hsucceeded rfl,
    ← (reads_natural _ _).required hfailed rfl, ← (reads_natural _ _).required hms rfl,
    ← reads_runId.optional nofun hrunId (o := b.runId)
      (by simp [List.lookup_cons, lookup_whenSome])]

theorem written_optional_step (o : Option Step) {s : Setting} {o' : Option Step}
    (h : Step.decoder.nullable s (.written (.optional Step.toJson o)) = .ok o') : o = o' := by
  cases o with
  | none => exact Except.ok.inj h
  | some a =>
    obtain ⟨b, rfl, rfl⟩ := reads_nullable reads_step nofun s a o' h
    rfl

theorem reads_globalState : GlobalState.decoder.Reads GlobalState.toJson (· = ·) := by
  intro s g g' h
  obtain ⟨s', h⟩ := record_eq_ok h
  simp only [Gather.seq_eq_got, Gather.map_eq_got] at h
  obtain ⟨_, history, ⟨current, hcurrent, rfl⟩, hhistory, rfl⟩ := h
  have hhistory := (reads_list reads_batch).default hhistory (x := g.stepHistory) rfl
  rw [List.forall₂_eq_eq_eq] at hhistory
  have hcurrent : g.currentStep = current := by
    unfold Fields.nullable at hcurrent
    split at hcurrent
    · next hn =>
      rw [Bool.and_eq_true] at hn
      exact absurd (lookup_of_isNone hn.1) nofun
    · obtain ⟨v, hv, hread⟩ := required_eq_got hcurrent
      obtain rfl := Option.some.inj hv
      exact written_optional_step _ hread
  rw [← hhistory, ← hcurrent]

/-- The same document, with metadata and data that may have been written and read. -/
structure Document.ReadsBack (d d' : Document) : Prop where
  version : d.version = d'.version
  lastUpdated : d.lastUpdated = d'.lastUpdated
  entities : List.Forall₂ (fun a b => a.1 = b.1 ∧ a.2.ReadsBack b.2) d.entities.entries
    d'.entities.entries
  global : d.global = d'.global

theorem reads_document : Document.decoder.Reads Document.toJson Document.ReadsBack := by
  intro s d d' h
  obtain ⟨s', h⟩ := record_eq_ok h
  simp only [Gather.seq_eq_got, Gather.map_eq_got] at h
  obtain ⟨_, global, ⟨_, entities, ⟨_, updated, ⟨version, hversion, rfl⟩, hupdated, rfl⟩,
    hentities, rfl⟩, hglobal, rfl⟩ := h
  exact ⟨reads_string.required hversion rfl, reads_timestamp.required hupdated rfl,
    (reads_keyed reads_entity).default hentities rfl, reads_globalState.default hglobal rfl⟩

/-- The text of a document is read by decoding what it was written from. -/
theorem Document.ofText_text (d : Document) :
    ofText d.text = decoder ⟨.text, greatestDepth⟩ (.written d.toJson) := by
  have hline : d.text = String.ofList (render .pretty 0 d.toJson ++ ['\n']) := by
    rw [text, pretty, String.ofList_append]
  have htext : Tree.ofText d.text = (.written d.toJson, true) := by
    rw [hline]
    exact ofText_render .pretty d.toJson (List.forall_mem_singleton.mpr rfl)
  simp only [ofText, Json.Decoder.fromText, htext]
  cases decoder ⟨.text, greatestDepth⟩ (.written d.toJson) <;> rfl

/-- What the text of a document reads as, if it can be read. -/
theorem Document.readsBack_of_ofText {d d' : Document} (h : ofText d.text = .ok d') :
    d.ReadsBack d' := by
  rw [ofText_text] at h
  exact reads_document _ _ _ h

/-- Entities under one id read back as each other. -/
theorem Document.ReadsBack.related {d d' : Document} (h : d.ReadsBack d') :
    d.Related Entity.ReadsBack d' := by
  intro id
  have hlookup : ∀ {l l' : List (String × Entity)},
      List.Forall₂ (fun a b => a.1 = b.1 ∧ a.2.ReadsBack b.2) l l' →
        Option.Rel Entity.ReadsBack (l.lookup id) (l'.lookup id) := by
    intro l l' hl
    induction hl with
    | nil => exact .none
    | cons hab _ ih =>
      rw [List.lookup_cons, List.lookup_cons, ← hab.1]
      split
      · exact .some hab.2
      · exact ih
  exact hlookup h.entities

end Publishing
