import Publishing.Proofs.Readable

/-
Whatever is read fits.

A text that is taken for a document need not have been written for one: its objects may stand as
arrays, its members in any order and more than once.  Still what comes of it nests no deeper
than its text and holds only numbers and instants that were read.  So a document that was
loaded can be loaded again once it is saved.
-/

namespace Publishing

namespace Json

/-! ## Numbers and levels of a value that was read -/

mutual

/-- Whether `P` holds of every number that a tree has a value for. -/
def Tree.EveryNumber (P : Number → Prop) : Tree → Prop
  | .number (some n) => P n
  | .array items _ => EveryNumberOfItems P items
  | .object members _ => EveryNumberOfMembers P members
  | _ => True

def Tree.EveryNumberOfItems (P : Number → Prop) : List Tree → Prop
  | [] => True
  | t :: ts => EveryNumber P t ∧ EveryNumberOfItems P ts

def Tree.EveryNumberOfMembers (P : Number → Prop) : List (Option String × Tree) → Prop
  | [] => True
  | (_, t) :: ts => EveryNumber P t ∧ EveryNumberOfMembers P ts

end

variable {P : Number → Prop}

theorem Tree.everyNumberOfItems_iff {ts : List Tree} :
    EveryNumberOfItems P ts ↔ ∀ t ∈ ts, t.EveryNumber P := by
  induction ts with
  | nil => simp [EveryNumberOfItems]
  | cons t ts ih => simp [EveryNumberOfItems, ih]

theorem Tree.everyNumberOfMembers_iff {ts : List (Option String × Tree)} :
    EveryNumberOfMembers P ts ↔ ∀ p ∈ ts, p.2.EveryNumber P := by
  induction ts with
  | nil => simp [EveryNumberOfMembers]
  | cons p ts ih =>
    obtain ⟨k, t⟩ := p
    simp [EveryNumberOfMembers, ih]

theorem everyNumberOfItems_iff {l : List Json} :
    EveryNumberOfItems P l ↔ ∀ v ∈ l, v.EveryNumber P := by
  induction l with
  | nil => simp [EveryNumberOfItems]
  | cons v l ih => simp [EveryNumberOfItems, ih]

theorem everyNumberOfMembers_iff {l : List (String × Json)} :
    EveryNumberOfMembers P l ↔ ∀ p ∈ l, p.2.EveryNumber P := by
  induction l with
  | nil => simp [EveryNumberOfMembers]
  | cons p l ih =>
    obtain ⟨k, v⟩ := p
    simp [EveryNumberOfMembers, ih]

theorem depthMembers_le_iff {l : List (String × Json)} {depth : Nat} :
    depthMembers l ≤ depth ↔ ∀ p ∈ l, p.2.depth ≤ depth := by
  induction l with
  | nil => simp [depthMembers]
  | cons p l ih =>
    obtain ⟨k, v⟩ := p
    simp [depthMembers, ih]

/-- The object of these members has some of them, in ascending order. -/
theorem exists_ofMembers (l : List (String × Json)) :
    ∃ m : List (String × Json), ofMembers l = .object m ∧ (m.Pairwise fun a b => a.1 < b.1) ∧
      ∀ p ∈ m, p ∈ l := by
  have hfold : ∀ (l sofar : List (String × Json)), (sofar.Pairwise fun a b => a.1 < b.1) →
      ((l.foldl (fun m e => Keyed.insertEntry e.1 e.2 m) sofar).Pairwise fun a b => a.1 < b.1) ∧
        ∀ p ∈ l.foldl (fun m e => Keyed.insertEntry e.1 e.2 m) sofar, p ∈ sofar ∨ p ∈ l := by
    intro l
    induction l with
    | nil => exact fun sofar h => ⟨h, fun p hp => Or.inl hp⟩
    | cons a rest ih =>
      intro sofar h
      have hinserted : (Keyed.insertEntry a.1 a.2 sofar).Pairwise fun a b => a.1 < b.1 :=
        Keyed.pairwise_insertEntry h
      obtain ⟨hasc, hmem⟩ := ih _ hinserted
      refine ⟨hasc, fun p hp => ?_⟩
      rcases hmem p hp with hp | hp
      · rcases Keyed.mem_insertEntry hp with rfl | hp
        · exact Or.inr List.mem_cons_self
        · exact Or.inl hp
      · exact Or.inr (List.mem_cons_of_mem _ hp)
  obtain ⟨hasc, hmem⟩ := hfold l [] .nil
  exact ⟨_, rfl, hasc, fun p hp => (hmem p hp).resolve_left List.not_mem_nil⟩

mutual

theorem Tree.toJson?_spec {t : Tree} (ht : t.EveryNumber P) {depth : Nat} {v : Json}
    (h : t.toJson? depth = some v) : v.depth ≤ depth ∧ v.EveryNumber P := by
  match t, depth with
  | .null, _ | .bool _, _ =>
    obtain rfl := Option.some.inj h
    exact ⟨Nat.zero_le _, trivial⟩
  | .string _, _ =>
    obtain ⟨s, -, rfl⟩ := Option.map_eq_some_iff.mp h
    exact ⟨Nat.zero_le _, trivial⟩
  | .number (some n), _ =>
    obtain rfl := Option.some.inj h
    exact ⟨Nat.zero_le _, ht⟩
  | .array items closed, depth + 1 =>
    obtain ⟨-, l, hl, rfl⟩ := toJson?_array_eq_some.mp h
    obtain ⟨hdepth, hnum⟩ := itemsToJson?_spec ht hl
    refine ⟨?_, hnum⟩
    rw [Json.depth]
    omega
  | .object members closed, depth + 1 =>
    obtain ⟨-, l, hl, rfl⟩ := toJson?_object_eq_some.mp h
    obtain ⟨hdepth, hnum⟩ := membersToJson?_spec ht hl
    obtain ⟨m, hm, -, hmem⟩ := exists_ofMembers l
    rw [depthMembers_le_iff] at hdepth
    rw [Json.everyNumberOfMembers_iff] at hnum
    have hle : depthMembers m ≤ depth := depthMembers_le_iff.mpr fun p hp => hdepth p (hmem p hp)
    rw [hm]
    refine ⟨?_, Json.everyNumberOfMembers_iff.mpr fun p hp => hnum p (hmem p hp)⟩
    rw [Json.depth]
    omega

theorem Tree.itemsToJson?_spec {ts : List Tree} (ht : EveryNumberOfItems P ts) {depth : Nat}
    {l : List Json} (h : itemsToJson? depth ts = some l) :
    depthItems l ≤ depth ∧ Json.EveryNumberOfItems P l := by
  match ts with
  | [] =>
    obtain rfl := Option.some.inj h
    exact ⟨Nat.zero_le _, trivial⟩
  | t :: ts =>
    obtain ⟨v, hv, vs, hvs, rfl⟩ := itemsToJson?_cons_eq_some.mp h
    obtain ⟨hdepth, hnum⟩ := toJson?_spec ht.1 hv
    obtain ⟨hdepths, hnums⟩ := itemsToJson?_spec ht.2 hvs
    exact ⟨Nat.max_le.mpr ⟨hdepth, hdepths⟩, hnum, hnums⟩

theorem Tree.membersToJson?_spec {ts : List (Option String × Tree)}
    (ht : EveryNumberOfMembers P ts) {depth : Nat} {l : List (String × Json)}
    (h : membersToJson? depth ts = some l) :
    depthMembers l ≤ depth ∧ Json.EveryNumberOfMembers P l := by
  match ts with
  | [] =>
    obtain rfl := Option.some.inj h
    exact ⟨Nat.zero_le _, trivial⟩
  | (k, t) :: ts =>
    obtain ⟨key, -, v, hv, vs, hvs, rfl⟩ := membersToJson?_cons_eq_some.mp h
    obtain ⟨hdepth, hnum⟩ := toJson?_spec ht.1 hv
    obtain ⟨hdepths, hnums⟩ := membersToJson?_spec ht.2 hvs
    exact ⟨Nat.max_le.mpr ⟨hdepth, hdepths⟩, hnum, hnums⟩

end

theorem readNumber_everyNumber (negative : Bool) (cs : List Char) :
    (readNumber negative cs).1.EveryNumber Number.IsRepresentable := by
  unfold readNumber
  split
  · next n rest _ =>
    cases hv : n.value? with
    | none => trivial
    | some v => exact Number.isRepresentable_value? hv
  · trivial

mutual

/-- The numbers in a text that have a value are representable. -/
theorem readTree_everyNumber (fuel : Nat) (cs : List Char) :
    (readTree fuel cs).1.EveryNumber Number.IsRepresentable := by
  match fuel with
  | 0 => trivial
  | fuel + 1 =>
    rw [readTree]
    split
    · trivial
    · trivial
    · trivial
    · split <;> trivial
    · split
      · trivial
      · exact readItems_everyNumber fuel _
    · split
      · trivial
      · exact readMembers_everyNumber fuel _
    · exact readNumber_everyNumber ..
    · split
      · exact readNumber_everyNumber ..
      · trivial
    · trivial

theorem readItems_everyNumber (fuel : Nat) (cs : List Char) :
    Tree.EveryNumberOfItems Number.IsRepresentable (readItems fuel cs).1 := by
  match fuel with
  | 0 => exact ⟨trivial, trivial⟩
  | fuel + 1 =>
    have ht := readTree_everyNumber fuel cs
    rw [readItems]
    dsimp only
    split
    · exact ⟨ht, readItems_everyNumber fuel _⟩
    · exact ⟨ht, trivial⟩
    · exact ⟨ht, trivial⟩

theorem readMembers_everyNumber (fuel : Nat) (cs : List Char) :
    Tree.EveryNumberOfMembers Number.IsRepresentable (readMembers fuel cs).1 := by
  match fuel with
  | 0 => trivial
  | fuel + 1 =>
    rw [readMembers]
    split
    · split
      · trivial
      · split
        · next rest _ =>
          have ht := readTree_everyNumber fuel rest
          dsimp only
          split
          · exact ⟨ht, readMembers_everyNumber fuel _⟩
          · exact ⟨ht, trivial⟩
          · exact ⟨ht, trivial⟩
        · exact ⟨trivial, trivial⟩
    · trivial

end

theorem everyNumber_ofText {text : String} {t : Tree} {ended : Bool}
    (h : Tree.ofText text = (t, ended)) : t.EveryNumber Number.IsRepresentable := by
  rw [show t = _ from (congrArg Prod.fst h).symm]
  exact readTree_everyNumber (2 * text.toList.length + 2) text.toList

namespace Decoder

variable {α β : Type}

/-! ## What decoders give -/

/-- With so many levels left, `Q` holds of whatever `d` makes of a tree that was read. -/
def Yields (d : Decoder β) (depth : Nat) (Q : β → Prop) : Prop :=
  ∀ s t y, s.depth = depth → t.EveryNumber Number.IsRepresentable → d s t = .ok y → Q y

variable {d : Decoder β} {depth : Nat} {Q : β → Prop}

theorem yields_json : json.Yields depth (Fits depth) := by
  intro s t v hs ht h
  dsimp only [json] at h
  split at h
  · next hv =>
    obtain rfl := Except.ok.inj h
    obtain ⟨hdepth, hnum⟩ := Tree.toJson?_spec ht hv
    exact fits_of_representable (hs ▸ hdepth) hnum
  · cases h

theorem yields_natural (name : String) (bound : Nat) :
    (natural name bound).Yields depth (· < bound) := by
  intro s t n hs ht h
  unfold natural at h
  split at h
  · split at h
    · next hi =>
      have hn := Except.ok.inj h
      omega
    · cases h
  · cases h

theorem yields_parsed {expected : String} {parse : String → Option β}
    (h : ∀ text y, parse text = some y → Q y) : (parsed expected parse).Yields depth Q := by
  intro s t y hs ht hy
  unfold parsed at hy
  split at hy
  · split at hy
    · next hp => exact h _ _ ((Except.ok.inj hy) ▸ hp)
    · cases hy
  · cases hy

theorem Yields.nullable (hd : d.Yields depth Q) :
    d.nullable.Yields depth fun o => ∀ y ∈ o, Q y := by
  intro s t o hs ht h
  unfold Decoder.nullable at h
  split at h
  · obtain rfl := Except.ok.inj h
    exact nofun
  · cases hx : d s t with
    | error e => rw [hx] at h; cases h
    | ok y =>
      rw [hx] at h
      obtain rfl := Except.ok.inj h
      rintro _ ⟨⟩
      exact hd s t y hs ht hx

theorem Yields.list (hd : d.Yields depth Q) :
    d.list.Yields (depth + 1) fun l => ∀ y ∈ l, Q y := by
  intro s t l hs ht h
  unfold Decoder.list at h
  split at h
  · next items closed =>
    rw [enter_of_depth hs] at h
    change Tree.EveryNumberOfItems _ items at ht
    induction items generalizing l with
    | nil =>
      rw [listItems] at h
      split at h
      · obtain rfl := Except.ok.inj h
        exact List.forall_mem_nil _
      · cases h
    | cons t ts ih =>
      rw [listItems] at h
      obtain ⟨y, hy, h⟩ := bind_eq_ok.mp h
      obtain ⟨ys, hys, h⟩ := bind_eq_ok.mp h
      obtain rfl := Except.ok.inj h
      exact List.forall_mem_cons.mpr ⟨hd _ t y rfl ht.1 hy, ih ys hys ht.2⟩
  · cases h

theorem Yields.keyed (hd : d.Yields depth Q) :
    d.keyed.Yields (depth + 1) fun m => ∀ p ∈ m.entries, Q p.2 := by
  intro s t m hs ht h
  unfold Decoder.keyed at h
  split at h
  · next members closed =>
    rw [enter_of_depth hs] at h
    change Tree.EveryNumberOfMembers _ members at ht
    have hsofar : ∀ p ∈ (Keyed.empty : Keyed β).entries, Q p.2 := List.forall_mem_nil _
    generalize Keyed.empty = sofar at h hsofar
    induction members generalizing sofar with
    | nil =>
      rw [keyedMembers] at h
      split at h
      · obtain rfl := Except.ok.inj h
        exact hsofar
      · cases h
    | cons p rest ih =>
      obtain ⟨k, t⟩ := p
      cases k with
      | none => cases h
      | some key =>
        rw [keyedMembers] at h
        obtain ⟨y, hy, h⟩ := bind_eq_ok.mp h
        refine ih ht.2 _ h fun p hp => ?_
        rcases Keyed.mem_insertEntry hp with rfl | hp
        · exact hd _ t y rfl ht.1 hy
        · exact hsofar p hp
  · cases h

/-- Whether the fields stand at this depth and were read. -/
structure Fields.IsRead (fs : Fields) (depth : Nat) : Prop where
  depth : fs.setting.depth = depth
  tree : ∀ name place t, fs.find? name = some (place, t) →
    t.EveryNumber Number.IsRepresentable

theorem findMember?_mem {name : String} {place : Nat} {members : List (Option String × Tree)}
    {found : Nat × Tree} (h : findMember? name place members = some found) :
    ∃ p ∈ members, p.2 = found.2 := by
  induction members generalizing place with
  | nil => cases h
  | cons p rest ih =>
    obtain ⟨k, t⟩ := p
    rw [findMember?] at h
    split at h
    · obtain rfl := Option.some.inj h
      exact ⟨_, List.mem_cons_self, rfl⟩
    · obtain ⟨p, hp, ht⟩ := ih h
      exact ⟨p, List.mem_cons_of_mem _ hp, ht⟩

/-- Whether it stands as an object or as an array, a record is built from fields that were
read. -/
theorem exists_fields {name : String} {names : List String} {build : Fields → Gather α}
    {s : Setting} {t : Tree} {a : α} (hs : s.depth = depth + 1)
    (ht : t.EveryNumber Number.IsRepresentable) (h : record name names build s t = .ok a) :
    ∃ fs : Fields, fs.IsRead depth ∧ build fs = .got a := by
  have hscanned : ∀ {scan : Gather Unit} {x : Gather α},
      Gather.toExcept ((fun _ a => a) <$> scan <*> x) = .ok a → x = .got a := by
    intro scan x h
    rw [Gather.toExcept_eq_ok, Gather.seq_eq_got] at h
    obtain ⟨g, a', hg, hx, rfl⟩ := h
    obtain ⟨_, -, rfl⟩ := Gather.map_eq_got.mp hg
    exact hx
  unfold record at h
  split at h
  · next members closed =>
    rw [enter_of_depth hs] at h
    refine ⟨_, ⟨rfl, fun field place t hfind => ?_⟩, hscanned h⟩
    obtain ⟨p, hp, hpt⟩ := findMember?_mem hfind
    rw [show t = p.2 from hpt.symm]
    exact Tree.everyNumberOfMembers_iff.mp ht p hp
  · next items closed =>
    rw [enter_of_depth hs] at h
    refine ⟨_, ⟨rfl, fun field place t hfind => ?_⟩, hscanned h⟩
    obtain ⟨t', ht', heq⟩ := Option.map_eq_some_iff.mp hfind
    obtain ⟨-, rfl⟩ := Prod.mk.inj heq
    exact Tree.everyNumberOfItems_iff.mp ht _ (List.mem_of_getElem? ht')
  · cases h

theorem Yields.required (hd : d.Yields depth Q) {fs : Fields} (hf : fs.IsRead depth)
    {name : String} {b : β} (h : fs.required name d = .got b) : Q b := by
  unfold Fields.required at h
  split at h
  · next place t hfind =>
    exact hd _ t b hf.depth (hf.tree _ _ _ hfind) (Gather.ofExcept_eq_got.mp h)
  · cases h

theorem Yields.default (hd : d.Yields depth Q) {fs : Fields} (hf : fs.IsRead depth)
    {name : String} {value b : β} (hv : Q value) (h : fs.default name value d = .got b) :
    Q b := by
  unfold Fields.default at h
  split at h
  · exact (Gather.got.inj h) ▸ hv
  · exact hd.required hf h

theorem Yields.optional (hd : d.Yields depth Q) {fs : Fields} (hf : fs.IsRead depth)
    {name : String} {o : Option β} (h : fs.default name none d.nullable = .got o) :
    ∀ y ∈ o, Q y :=
  hd.nullable.default hf (fun _ hy => absurd hy (Option.not_mem_none _)) h

end Decoder
end Json

/-! ## The parts of a document -/

open Json.Decoder

variable {depth : Nat} {F : Nat → Json → Prop}

theorem Timestamp.inRange_of_ofText? {text : String} {t : Timestamp} (h : ofText? text = some t) :
    t.InRange := by
  obtain ⟨⟨date, cs⟩, -, h⟩ := Option.bind_eq_some_iff.mp h
  dsimp only at h
  -- the year is looked at last, whatever stands between the date and the time
  split at h
  case h_4 => cases h
  all_goals
    obtain ⟨_, -, h⟩ := Option.bind_eq_some_iff.mp h
    obtain ⟨⟨second, nanos, _⟩, -, h⟩ := Option.bind_eq_some_iff.mp h
    obtain ⟨⟨offset, _⟩, -, h⟩ := Option.bind_eq_some_iff.mp h
    obtain ⟨_, -, h⟩ := Option.bind_eq_some_iff.mp h
    obtain ⟨t', -, h⟩ := Option.bind_eq_some_iff.mp h
    obtain ⟨_, hyear, h⟩ := Option.bind_eq_some_iff.mp h
    obtain rfl := Option.some.inj h
    exact (Option.guard_eq_some' (p := yearInRange t'.date.year) _).mp hyear

theorem yields_timestamp : Timestamp.decoder.Yields depth Timestamp.InRange :=
  yields_parsed fun _ _ => Timestamp.inRange_of_ofText?

theorem yields_checkpoint (hjson : ∀ n, json.Yields n (F n)) (hnull : ∀ n, F n .null) :
    Checkpoint.decoder.Yields (depth + 1) (Checkpoint.Fits (F depth)) := by
  intro s t c hs ht h
  obtain ⟨fs, hf, h⟩ := exists_fields hs ht h
  simp only [Gather.seq_eq_got, Gather.map_eq_got] at h
  obtain ⟨_, data, ⟨_, time, ⟨_, -, rfl⟩, htime, rfl⟩, hdata, rfl⟩ := h
  exact ⟨yields_timestamp.required hf htime, (hjson _).default hf (hnull _) hdata⟩

theorem yields_stepRecord (hjson : ∀ n, json.Yields n (F n)) (hnull : ∀ n, F n .null) :
    StepRecord.decoder.Yields (depth + 3) (StepRecord.Fits (F depth)) := by
  intro s t r hs ht h
  obtain ⟨fs, hf, h⟩ := exists_fields hs ht h
  simp only [Gather.seq_eq_got, Gather.map_eq_got] at h
  obtain ⟨_, checkpoints, ⟨_, _, ⟨_, ms, ⟨_, completed, ⟨_, started, ⟨_, attempts,
    ⟨_, -, rfl⟩, hattempts, rfl⟩, hstarted, rfl⟩, hcompleted, rfl⟩, hms, rfl⟩,
    -, rfl⟩, hcheckpoints, rfl⟩ := h
  exact ⟨(yields_natural _ _).default hf (by decide) hattempts,
    yields_timestamp.optional hf hstarted, yields_timestamp.optional hf hcompleted,
    (yields_natural _ _).optional hf hms,
    (yields_checkpoint hjson hnull).list.default hf (List.forall_mem_nil _) hcheckpoints⟩

theorem yields_stepTable (hjson : ∀ n, json.Yields n (F n)) (hnull : ∀ n, F n .null) :
    StepTable.decoder.Yields (depth + 4) fun t => ∀ s, (t.get s).Fits (F depth) := by
  intro s t table hs ht h
  obtain ⟨fs, hf, h⟩ := exists_fields hs ht h
  simp only [Gather.seq_eq_got, Gather.map_eq_got] at h
  obtain ⟨_, finalized, ⟨_, published, ⟨_, validated, ⟨_, tested, ⟨ingested, hingested, rfl⟩,
    htested, rfl⟩, hvalidated, rfl⟩, hpublished, rfl⟩, hfinalized, rfl⟩ := h
  intro step
  cases step with
  | ingested => exact (yields_stepRecord hjson hnull).required hf hingested
  | tested => exact (yields_stepRecord hjson hnull).required hf htested
  | validated => exact (yields_stepRecord hjson hnull).required hf hvalidated
  | published => exact (yields_stepRecord hjson hnull).required hf hpublished
  | finalized => exact (yields_stepRecord hjson hnull).required hf hfinalized

theorem yields_failure : Failure.decoder.Yields (depth + 1) Failure.Fits := by
  intro s t f hs ht h
  obtain ⟨fs, hf, h⟩ := exists_fields hs ht h
  simp only [Gather.seq_eq_got, Gather.map_eq_got] at h
  obtain ⟨_, time, ⟨_, attempt, ⟨_, _, ⟨_, -, rfl⟩, -, rfl⟩, hattempt, rfl⟩, htime, rfl⟩ := h
  exact ⟨(yields_natural _ _).required hf hattempt, yields_timestamp.required hf htime⟩

theorem yields_entity (hjson : ∀ n, json.Yields n (F n)) (hnull : ∀ n, F n .null) :
    Entity.decoder.Yields (depth + 5) (Entity.Fits (F (depth + 4)) (F depth)) := by
  intro s t e hs ht h
  obtain ⟨fs, hf, h⟩ := exists_fields hs ht h
  simp only [Gather.seq_eq_got, Gather.map_eq_got] at h
  obtain ⟨_, updated, ⟨_, created, ⟨_, errors, ⟨_, metadata, ⟨_, steps, ⟨_, _,
    ⟨_, _, ⟨_, -, rfl⟩, -, rfl⟩, -, rfl⟩, hsteps, rfl⟩, hmetadata, rfl⟩,
    herrors, rfl⟩, hcreated, rfl⟩, hupdated, rfl⟩ := h
  exact ⟨(yields_stepTable hjson hnull).required hf hsteps,
    (hjson _).default hf (hnull _) hmetadata,
    yields_failure.list.default hf (List.forall_mem_nil _) herrors,
    yields_timestamp.required hf hcreated, yields_timestamp.required hf hupdated⟩

theorem yields_batch : Batch.decoder.Yields (depth + 1) Batch.Fits := by
  intro s t b hs ht h
  obtain ⟨fs, hf, h⟩ := exists_fields hs ht h
  simp only [Gather.seq_eq_got, Gather.map_eq_got] at h
  obtain ⟨_, _, ⟨_, ms, ⟨_, failed, ⟨_, succeeded, ⟨_, processed, ⟨_, time,
    ⟨_, -, rfl⟩, htime, rfl⟩, hprocessed, rfl⟩, hsucceeded, rfl⟩, hfailed, rfl⟩, hms,
    rfl⟩, -, rfl⟩ := h
  exact ⟨yields_timestamp.required hf htime, (yields_natural _ _).required hf hprocessed,
    (yields_natural _ _).required hf hsucceeded, (yields_natural _ _).required hf hfailed,
    (yields_natural _ _).required hf hms⟩

theorem yields_globalState : GlobalState.decoder.Yields (depth + 3)
    fun g => ∀ b ∈ g.stepHistory, b.Fits := by
  intro s t g hs ht h
  obtain ⟨fs, hf, h⟩ := exists_fields hs ht h
  simp only [Gather.seq_eq_got, Gather.map_eq_got] at h
  obtain ⟨_, history, ⟨_, -, rfl⟩, hhistory, rfl⟩ := h
  exact yields_batch.list.default hf (List.forall_mem_nil _) hhistory

theorem yields_document (hjson : ∀ n, json.Yields n (F n)) (hnull : ∀ n, F n .null) :
    Document.decoder.Yields (depth + 7) (Document.Fits (F (depth + 4)) (F depth)) := by
  intro s t d hs ht h
  obtain ⟨fs, hf, h⟩ := exists_fields hs ht h
  simp only [Gather.seq_eq_got, Gather.map_eq_got] at h
  obtain ⟨_, global, ⟨_, entities, ⟨_, updated, ⟨_, -, rfl⟩, hupdated, rfl⟩,
    hentities, rfl⟩, hglobal, rfl⟩ := h
  have hentities := (yields_entity hjson hnull).keyed.default hf (List.forall_mem_nil _) hentities
  exact ⟨yields_timestamp.required hf hupdated,
    fun id e he => hentities (id, e) (Keyed.find?_eq_some_iff.mp he),
    yields_globalState.default hf (List.forall_mem_nil _) hglobal⟩

/-- What is so of all values that are read is so of those in a document that was read. -/
theorem Document.fits_of_yields (hjson : ∀ n, json.Yields n (F n))
    (hnull : ∀ n, F n .null) {text : String} {d : Document} (h : ofText text = .ok d) :
    d.Fits (F 124) (F 120) := by
  rcases ht : Json.Tree.ofText text with ⟨t, ended⟩
  have hnum := Json.everyNumber_ofText ht
  simp only [ofText, Json.Decoder.fromText, ht] at h
  obtain ⟨d', hd, h⟩ := bind_eq_ok.mp h
  split at h
  · obtain rfl := Except.ok.inj h
    exact yields_document hjson hnull _ t _ rfl hnum hd
  · cases h

/-- Whatever text a document was read from, it fits. -/
theorem Document.fits_of_ofText {text : String} {d : Document} (h : ofText text = .ok d) :
    d.Fits (Json.Fits 124) (Json.Fits 120) :=
  fits_of_yields (F := Json.Fits) (fun _ => yields_json) (fun _ => Json.fits_null _) h

end Publishing
