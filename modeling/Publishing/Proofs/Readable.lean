import Publishing.Proofs.Doubles
import Publishing.Proofs.Format

/-
Which documents can be read once they are written.

A reader gives up on text that nests too deep, and it refuses numbers that are out of range and
instants in years that no instant may lie in.  `Decoder.Takes` says for a decoder what it takes
among all that was written for it, record by record, and `Document.exists_ofText_text` says it
of a whole document: metadata may nest up to three levels less deep than texts may, and the data
of checkpoints up to seven.
-/

namespace Publishing

/-! ## What fits -/

namespace Json

mutual

/-- Whether `P` holds of every number in a value. -/
def EveryNumber (P : Number → Prop) : Json → Prop
  | .number n => P n
  | .array items => EveryNumberOfItems P items
  | .object members => EveryNumberOfMembers P members
  | _ => True

def EveryNumberOfItems (P : Number → Prop) : List Json → Prop
  | [] => True
  | x :: xs => EveryNumber P x ∧ EveryNumberOfItems P xs

def EveryNumberOfMembers (P : Number → Prop) : List (String × Json) → Prop
  | [] => True
  | (_, x) :: xs => EveryNumber P x ∧ EveryNumberOfMembers P xs

end

/-- Whether the text of a value can be read where so many levels may be entered. -/
def Fits (depth : Nat) (v : Json) : Prop := ((Tree.written v).toJson? depth).isSome

theorem isSome_cons {x : Option α} {xs : Option (List α)} :
    (do return (← x) :: (← xs) : Option (List α)).isSome ↔ x.isSome ∧ xs.isSome := by
  cases x <;> cases xs <;> simp

mutual

theorem fits_iff {v : Json} {depth : Nat} :
    v.Fits depth ↔ v.depth ≤ depth ∧ v.EveryNumber fun n => n.reread.isSome := by
  match v, depth with
  | .null, _ | .bool _, _ | .string _, _ =>
    simp [Fits, Tree.written, Tree.toJson?, Json.depth, EveryNumber]
  | .number n, _ => simp [Fits, Tree.written, Tree.toJson?, Json.depth, EveryNumber]
  | .array items, 0 => simp [Fits, Tree.written, Tree.toJson?, Json.depth]
  | .array items, depth + 1 =>
    rw [Fits, Tree.written, Tree.toJson?, if_pos rfl, Option.isSome_map, isSome_items_iff,
      Json.depth, EveryNumber, Nat.add_comm 1, Nat.add_le_add_iff_right]
  | .object members, 0 => simp [Fits, Tree.written, Tree.toJson?, Json.depth]
  | .object members, depth + 1 =>
    rw [Fits, Tree.written, Tree.toJson?, if_pos rfl, Option.isSome_map, isSome_members_iff,
      Json.depth, EveryNumber, Nat.add_comm 1, Nat.add_le_add_iff_right]

theorem isSome_items_iff {items : List Json} {depth : Nat} :
    (Tree.itemsToJson? depth (Tree.writtenItems items)).isSome ↔
      depthItems items ≤ depth ∧ EveryNumberOfItems (fun n => n.reread.isSome) items := by
  match items with
  | [] => simp [Tree.writtenItems, Tree.itemsToJson?, depthItems, EveryNumberOfItems]
  | x :: xs =>
    have hx : x.Fits depth ↔ _ := fits_iff
    have hxs : (Tree.itemsToJson? depth (Tree.writtenItems xs)).isSome ↔ _ := isSome_items_iff
    rw [Fits] at hx
    rw [Tree.writtenItems, Tree.itemsToJson?, isSome_cons, hx, hxs, depthItems,
      EveryNumberOfItems, Nat.max_le]
    exact and_and_and_comm

theorem isSome_members_iff {members : List (String × Json)} {depth : Nat} :
    (Tree.membersToJson? depth (Tree.writtenMembers members)).isSome ↔
      depthMembers members ≤ depth ∧
        EveryNumberOfMembers (fun n => n.reread.isSome) members := by
  match members with
  | [] => simp [Tree.writtenMembers, Tree.membersToJson?, depthMembers, EveryNumberOfMembers]
  | (k, x) :: xs =>
    have hx : x.Fits depth ↔ _ := fits_iff
    have hxs : (Tree.membersToJson? depth (Tree.writtenMembers xs)).isSome ↔ _ :=
      isSome_members_iff
    rw [Fits] at hx
    rw [Tree.writtenMembers, Tree.membersToJson?, depthMembers, EveryNumberOfMembers, Nat.max_le]
    refine Iff.trans ?_ (Iff.trans (and_congr hx hxs) and_and_and_comm)
    cases Tree.toJson? depth (Tree.written x) <;>
      cases Tree.membersToJson? depth (Tree.writtenMembers xs) <;> simp

end

mutual

theorem EveryNumber.mono {P Q : Number → Prop} (hPQ : ∀ n, P n → Q n) {v : Json}
    (h : v.EveryNumber P) : v.EveryNumber Q := by
  match v with
  | .null | .bool _ | .string _ => trivial
  | .number n => exact hPQ n h
  | .array items => exact EveryNumberOfItems.mono hPQ h
  | .object members => exact EveryNumberOfMembers.mono hPQ h

theorem EveryNumberOfItems.mono {P Q : Number → Prop} (hPQ : ∀ n, P n → Q n) {items : List Json}
    (h : EveryNumberOfItems P items) : EveryNumberOfItems Q items := by
  match items with
  | [] => trivial
  | x :: xs => exact ⟨EveryNumber.mono hPQ h.1, EveryNumberOfItems.mono hPQ h.2⟩

theorem EveryNumberOfMembers.mono {P Q : Number → Prop} (hPQ : ∀ n, P n → Q n)
    {members : List (String × Json)} (h : EveryNumberOfMembers P members) :
    EveryNumberOfMembers Q members := by
  match members with
  | [] => trivial
  | (_, x) :: xs => exact ⟨EveryNumber.mono hPQ h.1, EveryNumberOfMembers.mono hPQ h.2⟩

end

/-- A value with numbers that can be kept fits if it does not nest too deep. -/
theorem fits_of_representable {v : Json} {depth : Nat} (hd : v.depth ≤ depth)
    (hn : v.EveryNumber Number.IsRepresentable) : v.Fits depth :=
  fits_iff.mpr ⟨hd, hn.mono fun _ => Number.isSome_reread⟩

theorem fits_null (depth : Nat) : Json.null.Fits depth := rfl

end Json

/-- Whether the year of an instant is one that instants may lie in. -/
def Timestamp.InRange (t : Timestamp) : Prop := yearInRange t.date.year

instance (t : Timestamp) : Decidable t.InRange :=
  inferInstanceAs (Decidable (Timestamp.yearInRange t.date.year = true))

/-- A checkpoint with data of which `D` holds. -/
structure Checkpoint.Fits (D : Json → Prop) (c : Checkpoint) : Prop where
  timestamp : c.timestamp.InRange
  data : D c.data

structure StepRecord.Fits (D : Json → Prop) (r : StepRecord) : Prop where
  attempts : r.attempts < 2 ^ 32
  startedAt : ∀ t ∈ r.startedAt, t.InRange
  completedAt : ∀ t ∈ r.completedAt, t.InRange
  durationMs : ∀ ms ∈ r.durationMs, ms < 2 ^ 64
  checkpoints : ∀ c ∈ r.checkpoints, c.Fits D

structure Failure.Fits (f : Failure) : Prop where
  attempt : f.attempt < 2 ^ 32
  timestamp : f.timestamp.InRange

/-- An entity with metadata of which `M` holds, and with data of which `D` does. -/
structure Entity.Fits (M D : Json → Prop) (e : Entity) : Prop where
  step : ∀ s, (e.step s).Fits D
  metadata : M e.metadata
  errors : ∀ f ∈ e.errors, f.Fits
  createdAt : e.createdAt.InRange
  updatedAt : e.updatedAt.InRange

structure Batch.Fits (b : Batch) : Prop where
  timestamp : b.timestamp.InRange
  processed : b.processed < 2 ^ 64
  succeeded : b.succeeded < 2 ^ 64
  failed : b.failed < 2 ^ 64
  durationMs : b.durationMs < 2 ^ 64

structure Document.Fits (M D : Json → Prop) (d : Document) : Prop where
  lastUpdated : d.lastUpdated.InRange
  entities : d.Every (Entity.Fits M D)
  batches : ∀ b ∈ d.global.stepHistory, b.Fits

section

variable {M D : Json → Prop} [DecidablePred M] [DecidablePred D]

instance (c : Checkpoint) : Decidable (c.Fits D) :=
  decidable_of_iff (c.timestamp.InRange ∧ D c.data)
    ⟨fun ⟨ht, hd⟩ => ⟨ht, hd⟩, fun h => ⟨h.timestamp, h.data⟩⟩

instance (r : StepRecord) : Decidable (r.Fits D) :=
  decidable_of_iff (r.attempts < 2 ^ 32 ∧ (∀ t ∈ r.startedAt, t.InRange) ∧
      (∀ t ∈ r.completedAt, t.InRange) ∧ (∀ ms ∈ r.durationMs, ms < 2 ^ 64) ∧
      ∀ c ∈ r.checkpoints, c.Fits D)
    ⟨fun ⟨ha, hs, hc, hms, hd⟩ => ⟨ha, hs, hc, hms, hd⟩,
      fun h => ⟨h.attempts, h.startedAt, h.completedAt, h.durationMs, h.checkpoints⟩⟩

instance (f : Failure) : Decidable f.Fits :=
  decidable_of_iff (f.attempt < 2 ^ 32 ∧ f.timestamp.InRange)
    ⟨fun ⟨ha, ht⟩ => ⟨ha, ht⟩, fun h => ⟨h.attempt, h.timestamp⟩⟩

instance (e : Entity) : Decidable (e.Fits M D) :=
  decidable_of_iff ((∀ s ∈ Step.all, (e.step s).Fits D) ∧ M e.metadata ∧
      (∀ f ∈ e.errors, f.Fits) ∧ e.createdAt.InRange ∧ e.updatedAt.InRange)
    ⟨fun ⟨hs, hm, hf, hc, hu⟩ => ⟨fun s => hs s (Step.mem_all s), hm, hf, hc, hu⟩,
      fun h => ⟨fun s _ => h.step s, h.metadata, h.errors, h.createdAt, h.updatedAt⟩⟩

instance (b : Batch) : Decidable b.Fits :=
  decidable_of_iff (b.timestamp.InRange ∧ b.processed < 2 ^ 64 ∧ b.succeeded < 2 ^ 64 ∧
      b.failed < 2 ^ 64 ∧ b.durationMs < 2 ^ 64)
    ⟨fun ⟨ht, hp, hs, hf, hms⟩ => ⟨ht, hp, hs, hf, hms⟩,
      fun h => ⟨h.timestamp, h.processed, h.succeeded, h.failed, h.durationMs⟩⟩

instance (d : Document) : Decidable (d.Fits M D) :=
  decidable_of_iff (d.lastUpdated.InRange ∧ d.Every (Entity.Fits M D) ∧
      ∀ b ∈ d.global.stepHistory, b.Fits)
    ⟨fun ⟨hu, he, hb⟩ => ⟨hu, he, hb⟩, fun h => ⟨h.lastUpdated, h.entities, h.batches⟩⟩

end

namespace Json.Decoder

variable {α β γ : Type}

/-- With so many levels left, `d` takes the text of `f x` just when `P` holds of `x`. -/
def Takes (d : Decoder β) (f : α → Json) (depth : Nat) (P : α → Prop) : Prop :=
  ∀ s x, s.depth = depth → ((∃ y, d s (.written (f x)) = .ok y) ↔ P x)

theorem enter_of_depth {s : Setting} {depth : Nat} (h : s.depth = depth + 1)
    (k : Setting → Except Fault α) : s.enter k = k { s with depth := depth } := by
  rw [Setting.enter, h]

/-! ## Values -/

variable {d : Decoder β} {f : α → Json} {depth : Nat} {P : α → Prop}

theorem takes_string : string.Takes .string depth fun _ => True :=
  fun _ x _ => iff_true_intro ⟨x, rfl⟩

theorem takes_json : json.Takes id depth (Fits depth) := by
  intro s v hs
  rw [Fits, ← hs, Option.isSome_iff_exists]
  dsimp only [json, id]
  cases (Tree.written v).toJson? s.depth with
  | some v' => simp
  | none => simp

theorem takes_natural (name : String) {bound : Nat} (hb : bound ≤ 2 ^ 64) :
    (natural name bound).Takes .nat depth (· < bound) := by
  intro s n hs
  constructor
  · rintro ⟨m, h⟩
    unfold natural at h
    split at h
    · next heq =>
      split at h
      · next hi =>
        have hn := Number.reread_int (Tree.number.inj heq)
        omega
      · cases h
    · cases h
  · intro hn
    have hread : (Number.int n).reread = some (.int n) :=
      Number.reread_int_of_fits (by omega) (by omega)
    have hwritten : Tree.written (.nat n) = .number (some (.int n)) := by
      rw [Json.nat, Tree.written, hread]
    rw [hwritten]
    exact ⟨_, if_pos ⟨Int.natCast_nonneg n, by exact_mod_cast hn⟩⟩

theorem takes_u32 : u32.Takes .nat depth (· < 2 ^ 32) := takes_natural _ (by decide)

theorem takes_u64 : u64.Takes .nat depth (· < 2 ^ 64) := takes_natural _ (by decide)

theorem takes_usize : usize.Takes .nat depth (· < 2 ^ 64) := takes_natural _ (by decide)

theorem takes_parsed {expected : String} {parse : String → Option β} {text : α → String}
    (h : ∀ x, (parse (text x)).isSome ↔ P x) :
    (parsed expected parse).Takes (fun x => .string (text x)) depth P := by
  intro s x _
  rw [← h x, Option.isSome_iff_exists]
  dsimp only [Tree.written, parsed]
  cases parse (text x) with
  | some y => simp
  | none => simp

theorem takes_variant {choices : List (String × β)} {name : β → String}
    (hname : ∀ b, choices.lookup (name b) = some b) :
    (variant choices).Takes (fun b => .string (name b)) depth fun _ => True := by
  refine fun s b _ => iff_true_intro ⟨b, ?_⟩
  show choose choices (name b) = .ok b
  rw [choose, hname]

theorem takes_nullable (hd : d.Takes f depth P) (hnull : ∀ x, Tree.written (f x) ≠ .null) :
    d.nullable.Takes f depth P := by
  intro s x hs
  have h : d.nullable s (.written (f x)) = (d s (.written (f x))).map some := by
    unfold nullable
    split
    · next heq => exact absurd heq (hnull x)
    · rfl
  rw [h, ← hd s x hs]
  cases d s (.written (f x)) with
  | ok y => simp [Except.map]
  | error e => simp [Except.map]

theorem takes_list (hd : d.Takes f depth P) :
    d.list.Takes (fun l : List α => .array (l.map f)) (depth + 1) fun l => ∀ x ∈ l, P x := by
  intro s l hs
  show (∃ m, s.enter (fun s => listItems d s true (Tree.writtenItems (l.map f))) = .ok m) ↔
    ∀ x ∈ l, P x
  rw [enter_of_depth hs]
  induction l with
  | nil => exact iff_of_true ⟨[], rfl⟩ (List.forall_mem_nil _)
  | cons x xs ih =>
    have hx := hd { s with depth := depth } x rfl
    rw [List.map_cons, Tree.writtenItems, listItems, List.forall_mem_cons, ← ih, ← hx]
    simp only [bind_eq_ok]
    constructor
    · rintro ⟨_, y, hy, ys, hys, -⟩
      exact ⟨⟨y, hy⟩, ys, hys⟩
    · rintro ⟨⟨y, hy⟩, ys, hys⟩
      exact ⟨_, y, hy, ys, hys, rfl⟩

theorem takes_keyed (hd : d.Takes f depth P) :
    d.keyed.Takes (fun m : Keyed α => .ofKeyed (m.map fun _ x => f x)) (depth + 1) fun m =>
      ∀ p ∈ m.entries, P p.2 := by
  intro s m hs
  show (∃ n, s.enter (fun s => keyedMembers d s true .empty
    (Tree.writtenMembers (m.entries.map fun e : String × α => (e.1, f e.2)))) = .ok n) ↔
      ∀ p ∈ m.entries, P p.2
  rw [enter_of_depth hs]
  generalize m.entries = l, Keyed.empty = sofar
  induction l generalizing sofar with
  | nil => exact iff_of_true ⟨sofar, rfl⟩ (List.forall_mem_nil _)
  | cons p rest ih =>
    have hx := hd { s with depth := depth } p.2 rfl
    rw [List.map_cons, Tree.writtenMembers, keyedMembers, List.forall_mem_cons, ← hx]
    simp only [bind_eq_ok]
    constructor
    · rintro ⟨n, y, hy, hn⟩
      exact ⟨⟨y, hy⟩, (ih _).mp ⟨n, hn⟩⟩
    · rintro ⟨⟨y, hy⟩, hrest⟩
      obtain ⟨n, hn⟩ := (ih (sofar.insert p.1 y)).mpr hrest
      exact ⟨n, y, hy, hn⟩

/-! ## Records -/

/-- Whether there was no fault. -/
def Gather.IsGot (x : Gather α) : Prop := ∃ a, x = .got a

theorem Gather.isGot_map {g : α → β} {x : Gather α} : (g <$> x).IsGot ↔ x.IsGot := by
  simp [IsGot, map_eq_got]

theorem Gather.isGot_seq {g : Gather (α → β)} {x : Gather α} :
    (g <*> x).IsGot ↔ g.IsGot ∧ x.IsGot := by
  simp only [IsGot, seq_eq_got]
  constructor
  · rintro ⟨_, g', a, hg, ha, -⟩
    exact ⟨⟨g', hg⟩, a, ha⟩
  · rintro ⟨⟨g', hg⟩, a, ha⟩
    exact ⟨_, g', a, hg, ha, rfl⟩

/-- Known fields that were written once each, and no others, leave nothing to find fault with. -/
theorem scanMembers_written {names seen : List String} {members : List (String × Json)}
    (hn : (members.map (·.1)).Nodup) (hmem : ∀ p ∈ members, p.1 ∈ names ∧ p.1 ∉ seen)
    (place : Nat) :
    scanMembers names seen place true (Tree.writtenMembers members) = .got () := by
  induction members generalizing seen place with
  | nil => rfl
  | cons p rest ih =>
    obtain ⟨hp, hrest⟩ := List.nodup_cons.mp hn
    obtain ⟨hin, hout⟩ := hmem p List.mem_cons_self
    rw [Tree.writtenMembers, scanMembers, if_pos hin, if_neg hout]
    refine ih hrest (fun q hq => ⟨(hmem q (List.mem_cons_of_mem _ hq)).1, ?_⟩) _
    rw [List.mem_cons, not_or]
    refine ⟨fun heq => hp ?_, (hmem q (List.mem_cons_of_mem _ hq)).2⟩
    show p.1 ∈ _
    rw [← heq]
    exact List.mem_map_of_mem hq

/-- A record is read when its fields are. -/
theorem exists_record_iff {name : String} {names : List String} {build : Fields → Gather α}
    {s : Setting} {members : List (String × Json)} (hs : s.depth = depth + 1)
    (hn : names.Nodup) (hkeys : (members.map (·.1)).Sublist names) :
    (∃ a, record name names build s (.written (.object members)) = .ok a) ↔
      (build (writtenFields { s with depth := depth } members)).IsGot := by
  have hscan : scanMembers names [] 0 true (Tree.writtenMembers members) = .got () :=
    scanMembers_written (hn.sublist hkeys)
      (fun p hp => ⟨hkeys.subset (List.mem_map_of_mem hp), List.not_mem_nil⟩) 0
  show (∃ a, s.enter (fun s => Gather.toExcept ((fun _ a => a) <$>
    scanMembers names [] 0 true (Tree.writtenMembers members) <*>
      build (writtenFields s members))) = .ok a) ↔ _
  rw [enter_of_depth hs, hscan]
  simp only [Gather.toExcept_eq_ok]
  show Gather.IsGot _ ↔ _
  rw [Gather.isGot_seq, Gather.isGot_map]
  exact and_iff_right ⟨(), rfl⟩

variable {s : Setting} {members : List (String × Json)} {name : String}

theorem find?_writtenFields {v : Json} (h : members.lookup name = some v) :
    ∃ place, (writtenFields s members).find? name = some (place, .written v) := by
  have hfind := findMember?_written name 0 members
  rw [h] at hfind
  obtain ⟨⟨place, t⟩, hp, rfl⟩ := Option.map_eq_some_iff.mp hfind
  exact ⟨place, hp⟩

theorem isGot_required {v : Json} (h : members.lookup name = some v) :
    ((writtenFields s members).required name d).IsGot ↔ ∃ y, d s (.written v) = .ok y := by
  obtain ⟨place, hp⟩ := find?_writtenFields (s := s) h
  simp only [Fields.required, hp, Gather.IsGot, Gather.ofExcept_eq_got]
  rfl

theorem Takes.required (hd : d.Takes f depth P) (hs : s.depth = depth) {x : α}
    (hx : members.lookup name = some (f x)) :
    ((writtenFields s members).required name d).IsGot ↔ P x :=
  (isGot_required hx).trans (hd s x hs)

theorem Takes.default (hd : d.Takes f depth P) (hs : s.depth = depth) {x : α}
    (hx : members.lookup name = some (f x)) {value : β} :
    ((writtenFields s members).default name value d).IsGot ↔ P x := by
  obtain ⟨place, hp⟩ := find?_writtenFields (s := s) hx
  rw [Fields.default, hp, if_neg (by simp)]
  exact hd.required hs hx

theorem Takes.optional (hd : d.Takes f depth P) (hnull : ∀ x, Tree.written (f x) ≠ .null)
    (hs : s.depth = depth) {o : Option α} (ho : members.lookup name = o.map f) :
    ((writtenFields s members).default name none d.nullable).IsGot ↔ ∀ x ∈ o, P x := by
  cases o with
  | none =>
    have hfind : findMember? name 0 (Tree.writtenMembers members) = none := by
      have := findMember?_written name 0 members
      rw [ho] at this
      exact Option.map_eq_none_iff.mp this
    have hfield : (writtenFields s members).find? name = none := hfind
    rw [Fields.default, hfield]
    exact ⟨fun _ => nofun, fun _ => ⟨none, rfl⟩⟩
  | some x =>
    rw [(takes_nullable hd hnull).default hs ho]
    simp

end Json.Decoder

/-! ## The parts of a document -/

open Json Json.Decoder

variable {depth : Nat}

theorem takes_timestamp : Timestamp.decoder.Takes Timestamp.toJson depth Timestamp.InRange := by
  refine takes_parsed fun t => ?_
  rw [Timestamp.ofText?_text, Timestamp.InRange]
  split <;> simp [*]

theorem takes_runId : RunId.decoder.Takes RunId.toJson depth fun _ => True :=
  takes_parsed fun r => by simp [RunId.ofText?_text]

theorem takes_step : Step.decoder.Takes Step.toJson depth fun _ => True :=
  takes_variant fun s => by cases s <;> rfl

theorem takes_stepStatus : StepStatus.decoder.Takes StepStatus.toJson depth fun _ => True :=
  takes_variant fun s => by cases s <;> rfl

theorem takes_entityStatus : EntityStatus.decoder.Takes EntityStatus.toJson depth fun _ => True :=
  takes_variant fun s => by cases s <;> rfl

theorem takes_checkpoint :
    Checkpoint.decoder.Takes Checkpoint.toJson (depth + 1) (Checkpoint.Fits (Json.Fits depth)) := by
  intro s c hs
  rw [Checkpoint.decoder, Checkpoint.toJson, exists_record_iff hs]
  · simp only [Gather.isGot_seq, Gather.isGot_map]
    rw [takes_string.required (x := c.operation) rfl rfl,
      takes_timestamp.required (x := c.timestamp) rfl rfl,
      takes_json.default (x := c.data) rfl rfl]
    exact ⟨fun ⟨⟨_, ht⟩, hdata⟩ => ⟨ht, hdata⟩, fun h => ⟨⟨trivial, h.timestamp⟩, h.data⟩⟩
  · decide
  · exact List.Sublist.refl _

/-- The only key of a member that may be left out. -/
theorem keys_whenSome (key : String) (f : α → Json) (o : Option α) :
    ((whenSome key f o).map (·.1)).Sublist [key] := by
  cases o with
  | none => exact List.nil_sublist _
  | some a => exact List.Sublist.refl _

theorem keys_stepRecord (r : StepRecord) :
    (([("status", r.status.toJson), ("attempts", .nat r.attempts)] ++
      whenSome "startedAt" Timestamp.toJson r.startedAt ++
      whenSome "completedAt" Timestamp.toJson r.completedAt ++
      whenSome "durationMs" .nat r.durationMs ++ whenSome "error" .string r.error ++
      [("checkpoints", Json.array (r.checkpoints.map Checkpoint.toJson))]).map (·.1)).Sublist
        ["status", "attempts", "startedAt", "completedAt", "durationMs", "error",
          "checkpoints"] := by
  simp only [List.map_append]
  exact ((((List.Sublist.refl ["status", "attempts"]).append (keys_whenSome ..)).append
    (keys_whenSome ..)).append (keys_whenSome ..) |>.append (keys_whenSome ..)).append
      (List.Sublist.refl ["checkpoints"])

theorem takes_stepRecord : StepRecord.decoder.Takes StepRecord.toJson (depth + 3)
    (StepRecord.Fits (Json.Fits depth)) := by
  intro s r hs
  rw [StepRecord.decoder, StepRecord.toJson, exists_record_iff hs (by decide) (keys_stepRecord r)]
  simp only [Gather.isGot_seq, Gather.isGot_map]
  rw [takes_stepStatus.required (x := r.status) rfl,
    takes_u32.default (x := r.attempts) rfl,
    takes_timestamp.optional nofun rfl (o := r.startedAt),
    takes_timestamp.optional nofun rfl (o := r.completedAt),
    takes_u64.optional nofun rfl (o := r.durationMs),
    takes_string.optional nofun rfl (o := r.error),
    (takes_list takes_checkpoint).default (x := r.checkpoints) rfl]
  · exact ⟨fun ⟨⟨⟨⟨⟨⟨_, ha⟩, hst⟩, hco⟩, hms⟩, _⟩, hch⟩ => ⟨ha, hst, hco, hms, hch⟩,
      fun h => ⟨⟨⟨⟨⟨⟨trivial, h.attempts⟩, h.startedAt⟩, h.completedAt⟩, h.durationMs⟩,
        fun _ _ => trivial⟩, h.checkpoints⟩⟩
  all_goals simp [List.lookup_append, List.lookup_cons, lookup_whenSome]

theorem takes_stepTable : StepTable.decoder.Takes StepTable.toJson (depth + 4)
    fun t => ∀ s, (t.get s).Fits (Json.Fits depth) := by
  intro s t hs
  rw [StepTable.decoder, StepTable.toJson, exists_record_iff hs]
  · simp only [Gather.isGot_seq, Gather.isGot_map]
    rw [takes_stepRecord.required (x := t.ingested) rfl rfl,
      takes_stepRecord.required (x := t.tested) rfl rfl,
      takes_stepRecord.required (x := t.validated) rfl rfl,
      takes_stepRecord.required (x := t.published) rfl rfl,
      takes_stepRecord.required (x := t.finalized) rfl rfl]
    constructor
    · rintro ⟨⟨⟨⟨h₁, h₂⟩, h₃⟩, h₄⟩, h₅⟩ step
      cases step <;> assumption
    · exact fun h => ⟨⟨⟨⟨h .ingested, h .tested⟩, h .validated⟩, h .published⟩, h .finalized⟩
  · decide
  · exact List.Sublist.refl _

theorem takes_failure : Failure.decoder.Takes Failure.toJson (depth + 1) Failure.Fits := by
  intro s f hs
  rw [Failure.decoder, Failure.toJson, exists_record_iff hs]
  · simp only [Gather.isGot_seq, Gather.isGot_map]
    rw [takes_step.required (x := f.step) rfl rfl, takes_string.required (x := f.message) rfl rfl,
      takes_u32.required (x := f.attempt) rfl rfl,
      takes_timestamp.required (x := f.timestamp) rfl rfl]
    exact ⟨fun ⟨⟨_, ha⟩, ht⟩ => ⟨ha, ht⟩, fun h => ⟨⟨⟨trivial, trivial⟩, h.attempt⟩, h.timestamp⟩⟩
  · decide
  · exact List.Sublist.refl _

theorem takes_entity : Entity.decoder.Takes Entity.toJson (depth + 5)
    (Entity.Fits (Json.Fits (depth + 4)) (Json.Fits depth)) := by
  intro s e hs
  rw [Entity.decoder, Entity.toJson, exists_record_iff hs]
  · simp only [Gather.isGot_seq, Gather.isGot_map]
    rw [takes_string.required (x := e.id) rfl rfl,
      takes_entityStatus.required (x := e.status) rfl rfl,
      takes_step.required (x := e.currentStep) rfl rfl,
      takes_stepTable.required (x := e.steps) rfl rfl, takes_json.default (x := e.metadata) rfl rfl,
      (takes_list takes_failure).default (x := e.errors) rfl rfl,
      takes_timestamp.required (x := e.createdAt) rfl rfl,
      takes_timestamp.required (x := e.updatedAt) rfl rfl]
    exact ⟨fun ⟨⟨⟨⟨⟨_, hsteps⟩, hm⟩, he⟩, hc⟩, hu⟩ => ⟨hsteps, hm, he, hc, hu⟩,
      fun h => ⟨⟨⟨⟨⟨⟨⟨trivial, trivial⟩, trivial⟩, h.step⟩, h.metadata⟩, h.errors⟩, h.createdAt⟩,
        h.updatedAt⟩⟩
  · decide
  · exact List.Sublist.refl _

theorem keys_batch (b : Batch) :
    (([("step", b.step.toJson), ("timestamp", b.timestamp.toJson),
      ("processed", .nat b.processed), ("succeeded", .nat b.succeeded), ("failed", .nat b.failed),
      ("durationMs", .nat b.durationMs)] ++
        whenSome "runId" RunId.toJson b.runId).map (·.1)).Sublist
          ["step", "timestamp", "processed", "succeeded", "failed", "durationMs", "runId"] := by
  rw [List.map_append]
  exact (List.Sublist.refl ["step", "timestamp", "processed", "succeeded", "failed",
    "durationMs"]).append (keys_whenSome ..)

theorem takes_batch : Batch.decoder.Takes Batch.toJson (depth + 1) Batch.Fits := by
  intro s b hs
  rw [Batch.decoder, Batch.toJson, exists_record_iff hs (by decide) (keys_batch b)]
  simp only [Gather.isGot_seq, Gather.isGot_map]
  rw [takes_step.required (x := b.step) rfl rfl,
    takes_timestamp.required (x := b.timestamp) rfl rfl,
    takes_usize.required (x := b.processed) rfl rfl,
    takes_usize.required (x := b.succeeded) rfl rfl,
    takes_usize.required (x := b.failed) rfl rfl,
    takes_u64.required (x := b.durationMs) rfl rfl,
    takes_runId.optional nofun rfl (o := b.runId)]
  · exact ⟨fun ⟨⟨⟨⟨⟨⟨_, ht⟩, hp⟩, hsu⟩, hf⟩, hms⟩, _⟩ => ⟨ht, hp, hsu, hf, hms⟩,
      fun h => ⟨⟨⟨⟨⟨⟨trivial, h.timestamp⟩, h.processed⟩, h.succeeded⟩, h.failed⟩, h.durationMs⟩,
        fun _ _ => trivial⟩⟩
  · simp [List.lookup_cons, lookup_whenSome]

theorem takes_globalState : GlobalState.decoder.Takes GlobalState.toJson (depth + 3)
    fun g => ∀ b ∈ g.stepHistory, b.Fits := by
  intro s g hs
  have hcurrent : ∀ s, ∃ o, Step.decoder.nullable s
      (.written (.optional Step.toJson g.currentStep)) = .ok o := by
    intro s
    cases g.currentStep with
    | none => exact ⟨none, rfl⟩
    | some k => exact ((takes_nullable takes_step nofun) s k rfl).mpr trivial
  rw [GlobalState.decoder, GlobalState.toJson, exists_record_iff hs]
  · simp only [Gather.isGot_seq, Gather.isGot_map]
    rw [(takes_list takes_batch).default (x := g.stepHistory) rfl rfl]
    refine and_iff_right ?_
    rw [Fields.nullable, if_neg]
    · exact (isGot_required rfl).mpr (hcurrent _)
    · intro h
      rw [Bool.and_eq_true] at h
      exact absurd (lookup_of_isNone h.1) nofun
  · decide
  · exact List.Sublist.refl _

theorem takes_document : Document.decoder.Takes Document.toJson (depth + 7)
    (Document.Fits (Json.Fits (depth + 4)) (Json.Fits depth)) := by
  intro s d hs
  rw [Document.decoder, Document.toJson, exists_record_iff hs]
  · simp only [Gather.isGot_seq, Gather.isGot_map]
    rw [takes_string.required (x := d.version) rfl rfl,
      takes_timestamp.required (x := d.lastUpdated) rfl rfl,
      (takes_keyed takes_entity).default (x := d.entities) rfl rfl,
      takes_globalState.default (x := d.global) rfl rfl]
    constructor
    · rintro ⟨⟨⟨-, hu⟩, he⟩, hb⟩
      exact ⟨hu, fun id e hfind => he (id, e) (Keyed.find?_eq_some_iff.mp hfind), hb⟩
    · intro h
      exact ⟨⟨⟨trivial, h.lastUpdated⟩,
        fun p hp => h.entities p.1 p.2 (Keyed.find?_eq_some_iff.mpr hp)⟩, h.batches⟩
  · decide
  · exact List.Sublist.refl _

/-- A document is read from its text just when everything in it fits. -/
theorem Document.exists_ofText_text (d : Document) :
    (∃ d', ofText d.text = .ok d') ↔ d.Fits (Json.Fits 124) (Json.Fits 120) := by
  rw [ofText_text]
  exact takes_document _ d rfl

end Publishing
