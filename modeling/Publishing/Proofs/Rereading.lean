import Publishing.Proofs.Gists
import Publishing.Proofs.Upkeep

/-
Documents of one gist are read alike.

What two runs of one history leave on disk differs in moments, durations, run ids and texts of
errors.  As long as the moments and the durations are such as can be written, that has no
influence on the reading: both texts are read, with one gist again, or the same is wrong with
both of them.
-/

namespace Publishing

variable {g : String → String}

/-! ## Results that agree -/

/-- Both are the same error, or values that `Q` relates. -/
inductive Agree {ε α β : Type} (Q : α → β → Prop) : Except ε α → Except ε β → Prop
  | error (e : ε) : Agree Q (.error e) (.error e)
  | ok {a : α} {b : β} (h : Q a b) : Agree Q (.ok a) (.ok b)

namespace Agree

variable {ε α β γ δ : Type} {Q : α → β → Prop} {Q' : γ → δ → Prop} {x : Except ε α}
  {x' : Except ε β}

theorem refl {P : α → α → Prop} (hP : ∀ a, P a a) (x : Except ε α) : Agree P x x := by
  cases x with
  | error e => exact .error e
  | ok a => exact .ok (hP a)

theorem map {f : α → γ} {f' : β → δ} (h : Agree Q x x') (hf : ∀ a b, Q a b → Q' (f a) (f' b)) :
    Agree Q' (x.map f) (x'.map f') := by
  cases h with
  | error e => exact .error e
  | ok h => exact .ok (hf _ _ h)

theorem bind {f : α → Except ε γ} {f' : β → Except ε δ} (h : Agree Q x x')
    (hf : ∀ a b, Q a b → Agree Q' (f a) (f' b)) : Agree Q' (x >>= f) (x' >>= f') := by
  cases h with
  | error e => exact .error e
  | ok h => exact hf _ _ h

end Agree

/-- Values of two lists that are shown alike are related in turn. -/
theorem forall₂_of_map_eq {α γ : Type} {b : α → γ} {R : α → α → Prop} {l l' : List α}
    (h : l'.map b = l.map b) (hR : ∀ x ∈ l, ∀ x' ∈ l', b x' = b x → R x x') :
    List.Forall₂ R l l' := by
  induction l generalizing l' with
  | nil =>
    obtain rfl := List.map_eq_nil_iff.mp h
    exact .nil
  | cons x rest ih =>
    obtain ⟨x', rest', rfl, hx, hrest⟩ := List.map_eq_cons_iff.mp h
    refine .cons (hR x List.mem_cons_self x' List.mem_cons_self hx) (ih hrest ?_)
    exact fun y hy y' hy' => hR y (List.mem_cons_of_mem _ hy) y' (List.mem_cons_of_mem _ hy')

theorem rel_of_map_eq {α γ : Type} {b : α → γ} {R : α → α → Prop} {o o' : Option α}
    (h : o'.map b = o.map b) (hR : ∀ x ∈ o, ∀ x' ∈ o', b x' = b x → R x x') :
    Option.Rel R o o' := by
  cases o with
  | none =>
    obtain rfl := Option.map_eq_none_iff.mp h
    exact .none
  | some x =>
    obtain ⟨x', rfl, hx⟩ := Option.map_eq_some_iff.mp h
    exact .some (hR x rfl x' rfl hx)

theorem map_eq_of_forall₂ {α γ : Type} {b : α → γ} {R : α → α → Prop} {l l' : List α}
    (h : List.Forall₂ R l l') (hR : ∀ x x', R x x' → b x' = b x) : l'.map b = l.map b := by
  induction h with
  | nil => rfl
  | cons hx _ ih => exact List.cons_eq_cons.mpr ⟨hR _ _ hx, ih⟩

theorem map_eq_of_rel {α γ : Type} {b : α → γ} {R : α → α → Prop} {o o' : Option α}
    (h : Option.Rel R o o') (hR : ∀ x x', R x x' → b x' = b x) : o'.map b = o.map b := by
  cases h with
  | none => rfl
  | some hx => exact congrArg some (hR _ _ hx)

namespace Json.Decoder

variable {α β γ : Type}

/-! ## Decoders -/

/-- The same holds of what is gathered, where faults agree in their places as well. -/
inductive Gather.Agree (Q : α → β → Prop) : Gather α → Gather β → Prop
  | got {a : α} {b : β} (h : Q a b) : Agree Q (.got a) (.got b)
  | fault (place : Nat) (e : Fault) : Agree Q (.fault place e) (.fault place e)

namespace Gather

variable {α' β' : Type} {Q : α → α' → Prop} {Q' : β → β' → Prop}

theorem Agree.seq {f : Gather (α → β)} {f' : Gather (α' → β')} {x : Gather α} {x' : Gather α'}
    (hf : Agree (fun f f' => ∀ a a', Q a a' → Q' (f a) (f' a')) f f') (hx : Agree Q x x') :
    Agree Q' (f <*> x) (f' <*> x') := by
  show Agree Q' (Gather.seq f fun _ => x) (Gather.seq f' fun _ => x')
  cases hf with
  | got hf =>
    cases hx with
    | got hx => exact .got (hf _ _ hx)
    | fault p e => exact .fault p e
  | fault p e =>
    cases hx with
    | got hx => exact .fault p e
    | fault q e' =>
      simp only [Gather.seq]
      split
      · exact .fault q e'
      · exact .fault p e

theorem Agree.map {f : α → β} {f' : α' → β'} {x : Gather α} {x' : Gather α'}
    (hx : Agree Q x x') (hf : ∀ a a', Q a a' → Q' (f a) (f' a')) :
    Agree Q' (f <$> x) (f' <$> x') := by
  have hgot : Agree (fun f f' => ∀ a a', Q a a' → Q' (f a) (f' a')) (.got f) (.got f') := .got hf
  exact hgot.seq hx

theorem agree_ofExcept (place : Nat) {x : Except Fault α} {x' : Except Fault α'}
    (h : Publishing.Agree Q x x') : Agree Q (ofExcept place x) (ofExcept place x') := by
  cases h with
  | error e => exact .fault place e
  | ok h => exact .got h

theorem agree_toExcept {x : Gather α} {x' : Gather α'} (h : Agree Q x x') :
    Publishing.Agree Q x.toExcept x'.toExcept := by
  cases h with
  | got h => exact .ok h
  | fault p e => exact .error e

end Gather

/-- With so many levels left, `d` makes related things of the texts of what is related. -/
def Likens (d : Decoder β) (f : α → Json) (depth : Nat) (R : α → α → Prop) (Q : β → β → Prop) :
    Prop :=
  ∀ s x x', s.depth = depth → R x x' → Agree Q (d s (.written (f x))) (d s (.written (f x')))

variable {d : Decoder β} {f : α → Json} {depth : Nat} {R : α → α → Prop} {Q : β → β → Prop}
  {P : α → Prop}

theorem likens_same (d : Decoder β) (f : α → Json) (depth : Nat) : d.Likens f depth Eq Eq := by
  rintro s x _ - rfl
  exact Agree.refl (fun _ => rfl) _

/-- What is taken anyway is taken in both texts. -/
theorem Takes.likens (hd : d.Takes f depth P) :
    d.Likens f depth (fun x x' => P x ∧ P x') fun _ _ => True := by
  intro s x x' hs hx
  obtain ⟨y, hy⟩ := (hd s x hs).mpr hx.1
  obtain ⟨y', hy'⟩ := (hd s x' hs).mpr hx.2
  rw [hy, hy']
  exact .ok trivial

theorem likens_string (g : String → String) (depth : Nat) :
    string.Likens .string depth (fun a a' => g a' = g a) fun a a' => g a' = g a :=
  fun _ _ _ _ h => .ok h

theorem Likens.nullable (hd : d.Likens f depth R Q) (hnull : ∀ x, Tree.written (f x) ≠ .null) :
    d.nullable.Likens f depth R (Option.Rel Q) := by
  have h : ∀ s x, d.nullable s (.written (f x)) = (d s (.written (f x))).map some := by
    intro s x
    unfold Decoder.nullable
    split
    · next heq => exact absurd heq (hnull x)
    · rfl
  intro s x x' hs hx
  rw [h, h]
  exact (hd s x x' hs hx).map fun _ _ => .some

theorem Likens.list (hd : d.Likens f depth R Q) :
    d.list.Likens (fun l : List α => .array (l.map f)) (depth + 1) (List.Forall₂ R)
      (List.Forall₂ Q) := by
  intro s l l' hs hl
  show Agree _ (s.enter fun s => listItems d s true (Tree.writtenItems (l.map f)))
    (s.enter fun s => listItems d s true (Tree.writtenItems (l'.map f)))
  rw [enter_of_depth hs, enter_of_depth hs]
  induction hl with
  | nil => exact .ok .nil
  | cons hx _ ih =>
    rw [List.map_cons, List.map_cons, Tree.writtenItems, Tree.writtenItems, listItems, listItems]
    exact (hd _ _ _ rfl hx).bind fun a a' ha => ih.bind fun l l' hl => .ok (.cons ha hl)

/-- Both maps have the same keys, and related values under them. -/
def Matches (R : α → α → Prop) (m m' : Keyed α) : Prop :=
  List.Forall₂ (fun p p' => p.1 = p'.1 ∧ R p.2 p'.2) m.entries m'.entries

theorem Matches.insert {m m' : Keyed α} (h : Matches R m m') (key : String) {x x' : α}
    (hx : R x x') : Matches R (m.insert key x) (m'.insert key x') := by
  show List.Forall₂ _ (Keyed.insertEntry key x m.entries) (Keyed.insertEntry key x' m'.entries)
  unfold Matches at h
  generalize m.entries = l, m'.entries = l' at h ⊢
  induction h with
  | nil => exact .cons ⟨rfl, hx⟩ .nil
  | cons hp hrest ih =>
    rw [Keyed.insertEntry, Keyed.insertEntry, ← hp.1]
    split
    · exact .cons ⟨rfl, hx⟩ (.cons hp hrest)
    · split
      · exact .cons ⟨rfl, hx⟩ hrest
      · exact .cons hp ih

theorem Likens.keyed (hd : d.Likens f depth R Q) :
    d.keyed.Likens (fun m : Keyed α => .ofKeyed (m.map fun _ x => f x)) (depth + 1) (Matches R)
      (Matches Q) := by
  intro s m m' hs hm
  show Agree _
    (s.enter fun s => keyedMembers d s true .empty
      (Tree.writtenMembers (m.entries.map fun e : String × α => (e.1, f e.2))))
    (s.enter fun s => keyedMembers d s true .empty
      (Tree.writtenMembers (m'.entries.map fun e : String × α => (e.1, f e.2))))
  rw [enter_of_depth hs, enter_of_depth hs]
  have hmembers : ∀ {l l' : List (String × α)},
      List.Forall₂ (fun p p' => p.1 = p'.1 ∧ R p.2 p'.2) l l' → ∀ {sofar sofar' : Keyed β},
      Matches Q sofar sofar' → Agree (Matches Q)
        (keyedMembers d { s with depth := depth } true sofar
          (Tree.writtenMembers (l.map fun e => (e.1, f e.2))))
        (keyedMembers d { s with depth := depth } true sofar'
          (Tree.writtenMembers (l'.map fun e => (e.1, f e.2)))) := by
    intro l l' hl
    induction hl with
    | nil => exact fun hm => .ok hm
    | cons hp _ ih =>
      intro sofar sofar' hm
      rw [List.map_cons, List.map_cons, Tree.writtenMembers, Tree.writtenMembers, keyedMembers,
        keyedMembers, ← hp.1]
      exact (hd _ _ _ rfl hp.2).bind fun a a' ha => ih (hm.insert _ ha)
  exact hmembers hm .nil

/-! ## Records -/

section

variable {members members' : List (String × Json)} {name : String} {s : Setting}
  (hkeys : members'.map (·.1) = members.map (·.1))

include hkeys

/-- Where a field is found depends on the keys alone. -/
theorem place_findMember? (place : Nat) :
    (findMember? name place (Tree.writtenMembers members')).map (·.1) =
      (findMember? name place (Tree.writtenMembers members)).map (·.1) := by
  induction members generalizing members' place with
  | nil =>
    obtain rfl := List.map_eq_nil_iff.mp hkeys
    rfl
  | cons p rest ih =>
    obtain ⟨p', rest', rfl, hp, hrest⟩ := List.map_eq_cons_iff.mp hkeys
    rw [Tree.writtenMembers, Tree.writtenMembers, findMember?, findMember?, hp]
    split
    · rfl
    · exact ih hrest (place + 1)

theorem find?_written {v v' : Json} (hv : members.lookup name = some v)
    (hv' : members'.lookup name = some v') :
    ∃ place, (writtenFields s members).find? name = some (place, .written v) ∧
      (writtenFields s members').find? name = some (place, .written v') := by
  obtain ⟨place, hp⟩ := find?_writtenFields (s := s) hv
  obtain ⟨place', hp'⟩ := find?_writtenFields (s := s) hv'
  have hplace : ((writtenFields s members').find? name).map (·.1) =
      ((writtenFields s members).find? name).map (·.1) := place_findMember? hkeys 0
  rw [hp, hp'] at hplace
  obtain rfl := Option.some.inj hplace
  exact ⟨place', hp, hp'⟩

theorem Likens.required (hd : d.Likens f depth R Q) (hs : s.depth = depth) {x x' : α}
    (hx : members.lookup name = some (f x)) (hx' : members'.lookup name = some (f x'))
    (hr : R x x') :
    Gather.Agree Q ((writtenFields s members).required name d)
      ((writtenFields s members').required name d) := by
  obtain ⟨place, hp, hp'⟩ := find?_written (s := s) hkeys hx hx'
  simp only [Fields.required, hp, hp']
  exact Gather.agree_ofExcept place (hd s x x' hs hr)

theorem Likens.default (hd : d.Likens f depth R Q) (hs : s.depth = depth) {x x' : α} {value : β}
    (hx : members.lookup name = some (f x)) (hx' : members'.lookup name = some (f x'))
    (hr : R x x') :
    Gather.Agree Q ((writtenFields s members).default name value d)
      ((writtenFields s members').default name value d) := by
  obtain ⟨place, hp, hp'⟩ := find?_written (s := s) hkeys hx hx'
  rw [Fields.default, Fields.default, hp, hp', if_neg (by simp), if_neg (by simp)]
  exact hd.required hkeys hs hx hx' hr

theorem Likens.optional (hd : d.Likens f depth R Q) (hnull : ∀ x, Tree.written (f x) ≠ .null)
    (hs : s.depth = depth) {o o' : Option α} (ho : members.lookup name = o.map f)
    (ho' : members'.lookup name = o'.map f) (hr : Option.Rel R o o') :
    Gather.Agree (Option.Rel Q) ((writtenFields s members).default name none d.nullable)
      ((writtenFields s members').default name none d.nullable) := by
  cases hr with
  | none =>
    have hnone : ∀ {l : List (String × Json)}, l.lookup name = none →
        (writtenFields s l).default name none d.nullable = .got none := by
      intro l hl
      have hfind : (writtenFields s l).find? name = none := by
        have := findMember?_written name 0 l
        rw [hl] at this
        exact Option.map_eq_none_iff.mp this
      rw [Fields.default, hfind]
      rfl
    rw [hnone ho, hnone ho']
    exact .got .none
  | some hr => exact (hd.nullable hnull).default hkeys hs ho ho' hr

/-- Records with the same keys agree if what is built of their fields does. -/
theorem agree_record {name : String} {names : List String} {build : Fields → Gather β}
    {Q : β → β → Prop} (hs : s.depth = depth + 1) (hn : names.Nodup)
    (hnames : (members.map (·.1)).Sublist names)
    (hbuild : members'.map (·.1) = members.map (·.1) →
      Gather.Agree Q (build (writtenFields { s with depth := depth } members))
        (build (writtenFields { s with depth := depth } members'))) :
    Agree Q (record name names build s (.written (.object members)))
      (record name names build s (.written (.object members'))) := by
  have hscan : ∀ {l : List (String × Json)}, (l.map (·.1)).Sublist names →
      scanMembers names [] 0 true (Tree.writtenMembers l) = .got () := fun hl =>
    scanMembers_written (hn.sublist hl)
      (fun p hp => ⟨hl.subset (List.mem_map_of_mem hp), List.not_mem_nil⟩) 0
  show Agree _
    (s.enter fun s => Gather.toExcept ((fun _ a => a) <$>
      scanMembers names [] 0 true (Tree.writtenMembers members) <*>
        build (writtenFields s members)))
    (s.enter fun s => Gather.toExcept ((fun _ a => a) <$>
      scanMembers names [] 0 true (Tree.writtenMembers members') <*>
        build (writtenFields s members')))
  rw [enter_of_depth hs, enter_of_depth hs, hscan hnames, hscan (hkeys ▸ hnames)]
  exact Gather.agree_toExcept (.seq (.map (Q := fun _ _ => True) (.got trivial)
    fun _ _ _ _ _ h => h) (hbuild hkeys))

end

end Json.Decoder

/-! ## Data -/

namespace Json

def gist (g : String → String) (v : Json) : Json := (v.mask g).blur

/-- What the gist of an object shows of a member. -/
def gistMember (g : String → String) (m : String × Json) : String × Json :=
  if m.1 = "durationMs" ∨ m.1 = "runId" then (m.1, .null)
  else if m.1 = "error" then (m.1, m.2.maskText g) else m

theorem fst_gistMember (g : String → String) (m : String × Json) : (gistMember g m).1 = m.1 := by
  unfold gistMember
  split
  · rfl
  · split <;> rfl

theorem gist_object (g : String → String) (members : List (String × Json)) :
    (object members).gist g = object (members.map (gistMember g)) := by
  rw [gist, mask, blur, List.map_map]
  refine congrArg object (List.map_congr_left fun m _ => ?_)
  simp only [Function.comp, gistMember]
  split <;> split <;> simp_all

theorem gist_ofMembers (g : String → String) (members : List (String × Json)) :
    (ofMembers members).gist g = ofMembers (members.map (gistMember g)) := by
  rw [ofMembers, gist_object]
  exact map_ofMembers (fst_gistMember g) members

/-- Whether what differs from run to run, if it is somewhere among the members of an object, fits
there. -/
def IsTimed : Json → Prop
  | .object members => ∀ m ∈ members, m.1 = "durationMs" ∨ m.1 = "runId" → m.2.Fits 119
  | _ => True

theorem isTimed_of_fits {v : Json} (h : v.Fits 120) : v.IsTimed := by
  cases v with
  | object members =>
    intro m hm _
    obtain ⟨hdepth, hnumbers⟩ := fits_iff.mp h
    rw [Json.depth] at hdepth
    exact fits_iff.mpr ⟨depthMembers_le_iff.mp (by omega) m hm,
      everyNumberOfMembers_iff.mp hnumbers m hm⟩
  | _ => trivial

theorem isTimed_of_isNote {v : Json} (h : v.IsNote fun _ => False) : v.IsTimed := by
  rcases h with rfl | ⟨l, rfl, -, hl⟩
  · trivial
  · exact fun m hm _ => (hl m hm).elim (fits_of_isScalar · _) False.elim

/-- A member that the gist does not show in full can be read all the same, and any other is the
same member. -/
theorem rel_toJson?_member {m m' : String × Json} (h : gistMember g m' = gistMember g m)
    (hm : m.1 = "durationMs" ∨ m.1 = "runId" → m.2.Fits 119)
    (hm' : m'.1 = "durationMs" ∨ m'.1 = "runId" → m'.2.Fits 119) :
    Option.Rel (fun a a' => gistMember g (m'.1, a') = gistMember g (m.1, a))
      ((Tree.written m.2).toJson? 119) ((Tree.written m'.2).toJson? 119) := by
  obtain ⟨k, v⟩ := m
  obtain ⟨k', v'⟩ := m'
  obtain rfl : k' = k := by
    have := congrArg Prod.fst h
    rwa [fst_gistMember, fst_gistMember] at this
  have hsame : v' = v → Option.Rel (fun a a' => gistMember g (k', a') = gistMember g (k', a))
      ((Tree.written v).toJson? 119) ((Tree.written v').toJson? 119) := by
    rintro rfl
    cases (Tree.written v').toJson? 119 with
    | none => exact .none
    | some a => exact .some rfl
  by_cases ht : k' = "durationMs" ∨ k' = "runId"
  · obtain ⟨a, ha⟩ := Option.isSome_iff_exists.mp (hm ht)
    obtain ⟨a', ha'⟩ := Option.isSome_iff_exists.mp (hm' ht)
    rw [ha, ha']
    refine .some ?_
    rw [gistMember, gistMember, if_pos ht, if_pos ht]
  · simp only [gistMember, if_neg ht] at h
    by_cases he : k' = "error"
    · simp only [if_pos he] at h
      have htext := (Prod.mk.inj h).2
      cases v with
      | string text =>
        cases v' with
        | string text' =>
          refine .some ?_
          simp only [gistMember, if_neg ht, if_pos he]
          exact h
        | _ => cases htext
      | _ =>
        refine hsame ?_
        cases v' with
        | string text' => cases htext
        | _ => exact htext
    · simp only [if_neg he] at h
      exact hsame (Prod.mk.inj h).2

theorem rel_membersToJson? {l l' : List (String × Json)}
    (h : l'.map (gistMember g) = l.map (gistMember g))
    (hl : (object l).IsTimed) (hl' : (object l').IsTimed) :
    Option.Rel (fun k k' => k'.map (gistMember g) = k.map (gistMember g))
      (Tree.membersToJson? 119 (Tree.writtenMembers l))
      (Tree.membersToJson? 119 (Tree.writtenMembers l')) := by
  induction l generalizing l' with
  | nil =>
    obtain rfl := List.map_eq_nil_iff.mp h
    exact .some rfl
  | cons m rest ih =>
    obtain ⟨m', rest', rfl, hm, hrest⟩ := List.map_eq_cons_iff.mp h
    have hmember := rel_toJson?_member hm (hl m List.mem_cons_self) (hl' m' List.mem_cons_self)
    have hmembers := ih hrest (fun n hn => hl n (List.mem_cons_of_mem _ hn))
      fun n hn => hl' n (List.mem_cons_of_mem _ hn)
    rw [Tree.writtenMembers, Tree.writtenMembers, Tree.membersToJson?, Tree.membersToJson?]
    generalize (Tree.written m.2).toJson? 119 = a, (Tree.written m'.2).toJson? 119 = a',
      Tree.membersToJson? 119 (Tree.writtenMembers rest) = k,
      Tree.membersToJson? 119 (Tree.writtenMembers rest') = k' at hmember hmembers ⊢
    cases hmember with
    | none => exact .none
    | some ha =>
      cases hmembers with
      | none => exact .none
      | some hk => exact .some (List.cons_eq_cons.mpr ⟨ha, hk⟩)

/-- Data of one gist are read with one gist, or cannot be read. -/
theorem Decoder.likens_json (g : String → String) :
    json.Likens id 120 (fun v v' => v'.gist g = v.gist g ∧ v.IsTimed ∧ v'.IsTimed)
      fun v v' => v'.gist g = v.gist g := by
  rintro s v v' hs ⟨hg, hv, hv'⟩
  suffices h : Option.Rel (fun v v' => v'.gist g = v.gist g) ((Tree.written v).toJson? 120)
      ((Tree.written v').toJson? 120) by
    dsimp only [json, id]
    rw [hs]
    generalize (Tree.written v).toJson? 120 = a, (Tree.written v').toJson? 120 = a' at h
    cases h with
    | none => exact .error _
    | some h => exact .ok h
  have hsame : v' = v → Option.Rel (fun v v' => v'.gist g = v.gist g)
      ((Tree.written v).toJson? 120) ((Tree.written v').toJson? 120) := by
    rintro rfl
    cases (Tree.written v').toJson? 120 with
    | none => exact .none
    | some a => exact .some rfl
  cases v with
  | object l =>
    cases v' with
    | object l' =>
      rw [gist_object, gist_object] at hg
      have hmembers := rel_membersToJson? (object.inj hg) hv hv'
      rw [Tree.written, Tree.written, Tree.toJson?, Tree.toJson?, if_pos rfl, if_pos rfl]
      generalize Tree.membersToJson? 119 (Tree.writtenMembers l) = k,
        Tree.membersToJson? 119 (Tree.writtenMembers l') = k' at hmembers ⊢
      cases hmembers with
      | none => exact .none
      | some hk =>
        refine .some ?_
        rw [gist_ofMembers, gist_ofMembers, hk]
    | _ => cases hg
  | _ =>
    cases v' with
    | object l' => cases hg
    | _ => exact hsame hg

end Json

/-! ## The parts of a document -/

open Json Json.Decoder

def Checkpoint.gist (g : String → String) (c : Checkpoint) : Checkpoint := (c.mask g).blur

def Failure.gist (g : String → String) (f : Failure) : Failure := (f.mask g).blur

def StepRecord.gist (g : String → String) (r : StepRecord) : StepRecord := (r.mask g).blur

theorem StepRecord.gist_eq (g : String → String) (r : StepRecord) :
    r.gist g = ⟨r.status, r.attempts, r.startedAt.map fun _ => .ofSeconds 0,
      r.completedAt.map fun _ => .ofSeconds 0, r.durationMs.map fun _ => 0, r.error.map g,
      r.checkpoints.map (Checkpoint.gist g)⟩ := by
  simp [gist, mask, blur, Function.comp_def, Checkpoint.gist]

theorem likens_timestamp (depth : Nat) : Timestamp.decoder.Likens Timestamp.toJson depth
    (fun t t' => t.InRange ∧ t'.InRange) fun _ _ => True :=
  takes_timestamp.likens

theorem likens_u64 (depth : Nat) :
    u64.Likens .nat depth (fun n n' => n < 2 ^ 64 ∧ n' < 2 ^ 64) fun _ _ => True :=
  takes_u64.likens

theorem likens_checkpoint (g : String → String) : Checkpoint.decoder.Likens Checkpoint.toJson 121
    (fun c c' => c'.gist g = c.gist g ∧ c.Fits IsTimed ∧ c'.Fits IsTimed)
    fun c c' => c'.gist g = c.gist g := by
  rintro s c c' hs ⟨hg, hc, hc'⟩
  obtain ⟨hoperation, -, hdata⟩ := Checkpoint.mk.inj hg
  rw [Checkpoint.decoder, Checkpoint.toJson, Checkpoint.toJson]
  refine agree_record ?_ hs (by decide) (List.Sublist.refl _) fun hkeys => ?_
  · rfl
  refine .seq (.seq (.map
    ((likens_same string .string 120).required hkeys rfl rfl rfl hoperation.symm) ?_)
    ((likens_timestamp 120).required hkeys rfl rfl rfl ⟨hc.timestamp, hc'.timestamp⟩))
    ((likens_json g).default hkeys rfl rfl rfl ⟨hdata, hc.data, hc'.data⟩)
  rintro operation _ rfl time time' - data data' hread
  exact Checkpoint.mk.injEq .. |>.mpr ⟨rfl, rfl, hread⟩

/-- Members that may be left out are left out together. -/
theorem keys_whenSome_congr {α : Type} {R : α → α → Prop} (key : String) (f : α → Json)
    {o o' : Option α} (h : Option.Rel R o o') :
    (whenSome key f o').map (·.1) = (whenSome key f o).map (·.1) := by
  cases h <;> rfl

theorem likens_stepRecord (g : String → String) : StepRecord.decoder.Likens StepRecord.toJson 123
    (fun r r' => r'.gist g = r.gist g ∧ r.Fits IsTimed ∧ r'.Fits IsTimed)
    fun r r' => r'.gist g = r.gist g := by
  rintro s r r' hs ⟨hg, hr, hr'⟩
  rw [StepRecord.gist_eq, StepRecord.gist_eq] at hg
  obtain ⟨hstatus, hattempts, hstarted, hcompleted, hms, herror, hcheckpoints⟩ :=
    StepRecord.mk.inj hg
  have hstarted := rel_of_map_eq hstarted fun t ht t' ht' _ =>
    And.intro (hr.startedAt t ht) (hr'.startedAt t' ht')
  have hcompleted := rel_of_map_eq hcompleted fun t ht t' ht' _ =>
    And.intro (hr.completedAt t ht) (hr'.completedAt t' ht')
  have hms := rel_of_map_eq hms fun n hn n' hn' _ =>
    And.intro (hr.durationMs n hn) (hr'.durationMs n' hn')
  have herror := rel_of_map_eq herror fun _ _ _ _ h => h
  have hcheckpoints := forall₂_of_map_eq hcheckpoints fun c hc c' hc' h =>
    And.intro h (And.intro (hr.checkpoints c hc) (hr'.checkpoints c' hc'))
  rw [StepRecord.decoder, StepRecord.toJson, StepRecord.toJson]
  refine agree_record ?_ hs (by decide) ?_ fun hkeys => ?_
  · simp only [List.map_append, keys_whenSome_congr _ _ hstarted,
      keys_whenSome_congr _ _ hcompleted, keys_whenSome_congr _ _ hms,
      keys_whenSome_congr _ _ herror]
    rfl
  · exact keys_stepRecord r
  refine .seq (.seq (.seq (.seq (.seq (.seq (.map
    ((likens_same StepStatus.decoder StepStatus.toJson 122).required hkeys rfl rfl rfl
      hstatus.symm) ?_)
    ((likens_same u32 .nat 122).default hkeys rfl rfl rfl hattempts.symm))
    ((likens_timestamp 122).optional hkeys (fun _ h => by cases h) rfl ?_ ?_ hstarted))
    ((likens_timestamp 122).optional hkeys (fun _ h => by cases h) rfl ?_ ?_ hcompleted))
    ((likens_u64 122).optional hkeys (fun _ h => by cases h) rfl ?_ ?_ hms))
    ((likens_string g 122).optional hkeys (fun _ h => by cases h) rfl ?_ ?_ herror))
    ((likens_checkpoint g).list.default hkeys rfl ?_ ?_ hcheckpoints)
  · rintro status _ rfl attempts _ rfl started started' hstarted completed completed' hcompleted
      ms ms' hms error error' herror checkpoints checkpoints' hcheckpoints
    rw [StepRecord.gist_eq, StepRecord.gist_eq, StepRecord.mk.injEq]
    exact ⟨rfl, rfl, map_eq_of_rel hstarted fun _ _ _ => rfl,
      map_eq_of_rel hcompleted fun _ _ _ => rfl, map_eq_of_rel hms fun _ _ _ => rfl,
      map_eq_of_rel herror fun _ _ h => h, map_eq_of_forall₂ hcheckpoints fun _ _ h => h⟩
  all_goals simp [List.lookup_append, List.lookup_cons, lookup_whenSome]

theorem likens_stepTable (g : String → String) : StepTable.decoder.Likens StepTable.toJson 124
    (fun t t' => ∀ s, (t'.get s).gist g = (t.get s).gist g ∧ (t.get s).Fits IsTimed ∧
      (t'.get s).Fits IsTimed)
    fun t t' => ∀ s, (t'.get s).gist g = (t.get s).gist g := by
  intro s t t' hs ht
  rw [StepTable.decoder, StepTable.toJson, StepTable.toJson]
  refine agree_record ?_ hs (by decide) (List.Sublist.refl _) fun hkeys => ?_
  · rfl
  refine .seq (.seq (.seq (.seq (.map
    ((likens_stepRecord g).required hkeys rfl rfl rfl (ht .ingested)) ?_)
    ((likens_stepRecord g).required hkeys rfl rfl rfl (ht .tested)))
    ((likens_stepRecord g).required hkeys rfl rfl rfl (ht .validated)))
    ((likens_stepRecord g).required hkeys rfl rfl rfl (ht .published)))
    ((likens_stepRecord g).required hkeys rfl rfl rfl (ht .finalized))
  intro i i' hi te te' hte v v' hv p p' hp f f' hf step
  cases step <;> assumption

theorem likens_failure (g : String → String) (depth : Nat) :
    Failure.decoder.Likens Failure.toJson (depth + 1)
      (fun f f' => f'.gist g = f.gist g ∧ f.Fits ∧ f'.Fits) fun f f' => f'.gist g = f.gist g := by
  rintro s f f' hs ⟨hg, hf, hf'⟩
  obtain ⟨hstep, hmessage, hattempt, -⟩ := Failure.mk.inj hg
  rw [Failure.decoder, Failure.toJson, Failure.toJson]
  refine agree_record ?_ hs (by decide) (List.Sublist.refl _) fun hkeys => ?_
  · rfl
  refine .seq (.seq (.seq (.map
    ((likens_same Step.decoder Step.toJson depth).required hkeys rfl rfl rfl hstep.symm) ?_)
    ((likens_string g depth).required hkeys rfl rfl rfl hmessage))
    ((likens_same u32 .nat depth).required hkeys rfl rfl rfl hattempt.symm))
    ((likens_timestamp depth).required hkeys rfl rfl rfl ⟨hf.timestamp, hf'.timestamp⟩)
  rintro step _ rfl message message' hmessage attempt _ rfl time time' -
  exact Failure.mk.injEq .. |>.mpr ⟨rfl, hmessage, rfl, rfl⟩

theorem Entity.gist_eq_gist_iff {e e' : Entity} : e'.gist g = e.gist g ↔
    e'.id = e.id ∧ e'.status = e.status ∧ e'.currentStep = e.currentStep ∧
      e'.metadata = e.metadata ∧ (∀ s, (e'.step s).gist g = (e.step s).gist g) ∧
      e'.errors.map (Failure.gist g) = e.errors.map (Failure.gist g) := by
  rw [gist_eq_iff]
  have herrors : ∀ e : Entity, (e.mask g).errors.map Failure.blur =
      e.errors.map (Failure.gist g) := fun e => List.map_map
  constructor
  · intro h
    refine ⟨h.id, h.status, h.currentStep, h.metadata, fun s => ?_, ?_⟩
    · have := h.steps s
      rwa [step_mask, step_mask] at this
    · have := h.errors
      rwa [herrors, herrors] at this
  · rintro ⟨hid, hstatus, hcurrent, hmetadata, hsteps, hfailures⟩
    refine ⟨hid, hstatus, hcurrent, hmetadata, fun s => ?_, ?_⟩
    · rw [step_mask, step_mask]
      exact hsteps s
    · rw [herrors, herrors]
      exact hfailures

/-- What differs from run to run in an entity can be written. -/
abbrev Entity.IsTimely (e : Entity) : Prop := e.Fits (fun _ => True) IsTimed

theorem likens_entity (g : String → String) : Entity.decoder.Likens Entity.toJson 125
    (fun e e' => e'.gist g = e.gist g ∧ e.IsTimely ∧ e'.IsTimely)
    fun e e' => e'.gist g = e.gist g := by
  rintro s e e' hs ⟨hg, he, he'⟩
  obtain ⟨hid, hstatus, hcurrent, hmetadata, hsteps, herrors⟩ := Entity.gist_eq_gist_iff.mp hg
  have herrors := forall₂_of_map_eq herrors fun f hf f' hf' h =>
    And.intro h (And.intro (he.errors f hf) (he'.errors f' hf'))
  have hsteps : ∀ k, (e'.step k).gist g = (e.step k).gist g ∧ (e.step k).Fits IsTimed ∧
      (e'.step k).Fits IsTimed := fun k => ⟨hsteps k, he.step k, he'.step k⟩
  rw [Entity.decoder, Entity.toJson, Entity.toJson]
  refine agree_record ?_ hs (by decide) (List.Sublist.refl _) fun hkeys => ?_
  · rfl
  refine .seq (.seq (.seq (.seq (.seq (.seq (.seq (.map
    ((likens_same string .string 124).required hkeys rfl rfl rfl hid.symm) ?_)
    ((likens_same EntityStatus.decoder EntityStatus.toJson 124).required hkeys rfl rfl rfl
      hstatus.symm))
    ((likens_same Step.decoder Step.toJson 124).required hkeys rfl rfl rfl hcurrent.symm))
    ((likens_stepTable g).required hkeys rfl rfl rfl hsteps))
    ((likens_same json id 124).default hkeys rfl rfl rfl hmetadata.symm))
    ((likens_failure g 122).list.default hkeys rfl rfl rfl herrors))
    ((likens_timestamp 124).required hkeys rfl rfl rfl ⟨he.createdAt, he'.createdAt⟩))
    ((likens_timestamp 124).required hkeys rfl rfl rfl ⟨he.updatedAt, he'.updatedAt⟩)
  rintro id _ rfl status _ rfl current _ rfl steps steps' hsteps metadata _ rfl errors errors'
    herrors created created' - updated updated' -
  exact Entity.gist_eq_gist_iff.mpr
    ⟨rfl, rfl, rfl, rfl, hsteps, map_eq_of_forall₂ herrors fun _ _ h => h⟩

/-- What differs from run to run in a batch can be written. -/
structure Batch.IsTimely (b : Batch) : Prop where
  timestamp : b.timestamp.InRange
  durationMs : b.durationMs < 2 ^ 64

theorem likens_batch (depth : Nat) : Batch.decoder.Likens Batch.toJson (depth + 1)
    (fun b b' => b'.blur = b.blur ∧ b.IsTimely ∧ b'.IsTimely) fun b b' => b'.blur = b.blur := by
  rintro s b b' hs ⟨hg, hb, hb'⟩
  obtain ⟨hstep, -, hprocessed, hsucceeded, hfailed, -, hrunId⟩ := Batch.mk.inj hg
  have hrunId := rel_of_map_eq (R := fun _ _ => True ∧ True) hrunId
    fun _ _ _ _ _ => ⟨trivial, trivial⟩
  rw [Batch.decoder, Batch.toJson, Batch.toJson]
  refine agree_record ?_ hs (by decide) (keys_batch b) fun hkeys => ?_
  · simp only [List.map_append, keys_whenSome_congr _ _ hrunId]
    rfl
  refine .seq (.seq (.seq (.seq (.seq (.seq (.map
    ((likens_same Step.decoder Step.toJson depth).required hkeys rfl rfl rfl hstep.symm) ?_)
    ((likens_timestamp depth).required hkeys rfl rfl rfl ⟨hb.timestamp, hb'.timestamp⟩))
    ((likens_same usize .nat depth).required hkeys rfl rfl rfl hprocessed.symm))
    ((likens_same usize .nat depth).required hkeys rfl rfl rfl hsucceeded.symm))
    ((likens_same usize .nat depth).required hkeys rfl rfl rfl hfailed.symm))
    ((likens_u64 depth).required hkeys rfl rfl rfl ⟨hb.durationMs, hb'.durationMs⟩))
    (takes_runId.likens.optional hkeys (fun _ h => by cases h) rfl ?_ ?_ hrunId)
  · rintro step _ rfl time time' - processed _ rfl succeeded _ rfl failed _ rfl ms ms' - runId
      runId' hrunId
    exact Batch.mk.injEq .. |>.mpr
      ⟨rfl, rfl, rfl, rfl, rfl, rfl, map_eq_of_rel hrunId fun _ _ _ => rfl⟩
  all_goals simp [List.lookup_cons, lookup_whenSome]

/-- The current steps are the same, and the histories have one gist. -/
theorem likens_globalState (depth : Nat) : GlobalState.decoder.Likens GlobalState.toJson (depth + 3)
    (fun x x' => x'.currentStep = x.currentStep ∧
      x'.stepHistory.map Batch.blur = x.stepHistory.map Batch.blur ∧
      (∀ b ∈ x.stepHistory, b.IsTimely) ∧ ∀ b ∈ x'.stepHistory, b.IsTimely)
    fun x x' => x'.currentStep = x.currentStep ∧
      x'.stepHistory.map Batch.blur = x.stepHistory.map Batch.blur := by
  rintro s x x' hs ⟨hcurrent, hg, hx, hx'⟩
  have hhistory := forall₂_of_map_eq hg fun b hb b' hb' h =>
    And.intro h (And.intro (hx b hb) (hx' b' hb'))
  rw [GlobalState.decoder, GlobalState.toJson, GlobalState.toJson, hcurrent]
  refine agree_record ?_ hs (by decide) (List.Sublist.refl _) fun hkeys => ?_
  · rfl
  have hstep : Gather.Agree Eq
      ((writtenFields { s with depth := depth + 2 }
        [("currentStep", .optional Step.toJson x.currentStep),
          ("stepHistory", .array (x.stepHistory.map Batch.toJson))]).nullable "currentStep"
            Step.decoder)
      ((writtenFields { s with depth := depth + 2 }
        [("currentStep", .optional Step.toJson x.currentStep),
          ("stepHistory", .array (x'.stepHistory.map Batch.toJson))]).nullable "currentStep"
            Step.decoder) := by
    have hlookup : ∀ (v : Json) (history : List Batch), List.lookup "currentStep"
        [("currentStep", v), ("stepHistory", .array (history.map Batch.toJson))] = some v :=
      fun _ _ => rfl
    obtain ⟨place, hp, hp'⟩ := find?_written (s := { s with depth := depth + 2 }) hkeys
      (hlookup _ x.stepHistory) (hlookup _ x'.stepHistory)
    simp only [Fields.nullable, Fields.required, hp, hp']
    exact Gather.agree_ofExcept place (.refl (fun _ => rfl) _)
  refine .seq (.map hstep ?_) ((likens_batch depth).list.default hkeys rfl rfl rfl hhistory)
  rintro current _ rfl history history' hhistory
  exact ⟨rfl, map_eq_of_forall₂ hhistory fun _ _ h => h⟩

/-- What differs from run to run in a document can be written. -/
structure Document.IsTimely (d : Document) : Prop where
  lastUpdated : d.lastUpdated.InRange
  entities : d.Every Entity.IsTimely
  batches : ∀ b ∈ d.global.stepHistory, b.IsTimely

theorem likens_document (g : String → String) : Document.decoder.Likens Document.toJson 127
    (fun d d' => d'.gist g = d.gist g ∧ d.IsTimely ∧ d'.IsTimely)
    fun d d' => d'.gist g = d.gist g := by
  rintro s d d' hs ⟨hg, hd, hd'⟩
  have hversion : d'.version = d.version := congrArg (·.version) hg
  have hcurrent : d'.global.currentStep = d.global.currentStep :=
    congrArg (·.global.currentStep) hg
  have hhistory : d'.global.stepHistory.map Batch.blur = d.global.stepHistory.map Batch.blur :=
    congrArg (·.global.stepHistory) hg
  have hentities : Matches (fun e e' => e'.gist g = e.gist g ∧ e.IsTimely ∧ e'.IsTimely)
      d.entities d'.entities := by
    refine forall₂_of_map_eq (congrArg (·.entities.entries) hg) fun p hp p' hp' h => ?_
    obtain ⟨hid, he⟩ := Prod.mk.inj h
    exact ⟨hid.symm, he, hd.entities p.1 p.2 (Keyed.find?_eq_some_iff.mpr hp),
      hd'.entities p'.1 p'.2 (Keyed.find?_eq_some_iff.mpr hp')⟩
  rw [Document.decoder, Document.toJson, Document.toJson]
  refine agree_record ?_ hs (by decide) (List.Sublist.refl _) fun hkeys => ?_
  · rfl
  refine .seq (.seq (.seq (.map
    ((likens_same string .string 126).required hkeys rfl rfl rfl hversion.symm) ?_)
    ((likens_timestamp 126).required hkeys rfl rfl rfl ⟨hd.lastUpdated, hd'.lastUpdated⟩))
    ((likens_entity g).keyed.default hkeys rfl rfl rfl hentities))
    ((likens_globalState 123).default hkeys rfl rfl rfl
      ⟨hcurrent, hhistory, hd.batches, hd'.batches⟩)
  rintro version _ rfl updated updated' - entities entities' hentities global global'
    ⟨hcurrent, hhistory⟩
  refine Document.mk.injEq .. |>.mpr ⟨rfl, rfl, Keyed.ext ?_, ?_⟩
  · exact map_eq_of_forall₂ hentities fun p p' hp => Prod.ext hp.1.symm hp.2
  · exact GlobalState.mk.injEq .. |>.mpr ⟨hcurrent, hhistory⟩

/-- The texts of documents of one gist are read alike. -/
theorem Document.agree_ofText {d d' : Document} (hg : d'.gist g = d.gist g) (hd : d.IsTimely)
    (hd' : d'.IsTimely) :
    Agree (fun d d' => d'.gist g = d.gist g) (ofText d.text) (ofText d'.text) := by
  rw [ofText_text, ofText_text]
  exact likens_document g _ d d' rfl ⟨hg, hd, hd'⟩

end Publishing
