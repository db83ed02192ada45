import Publishing.Proofs.Fidelity
import Publishing.Proofs.Ledger
import Publishing.Proofs.Reports
import Publishing.Proofs.Saving

/-
What an operation on a file store leaves behind.

An operation that fails, or that changes no entity, leaves no trace: the state file holds what
it held, nothing was delivered, and nothing waits to be.  One that changes entities names them
all, so that every other entity is saved as it was loaded.  `perform_traces` says both; what
loading made of an entity that was not named is a matter of the doubles in it.

What its state file holds makes a file store a site, so all that is proved of sites is so of
file stores, save for paths that climb.
-/

namespace Publishing

variable {σ : Type}

/-- A path that climbs, and that cannot be followed yet.  Making the directories on the way
may let it lead to a file that was there already. -/
def FileSystem.Strays (fs : FileSystem) (path : String) : Prop :=
  ".." ∈ Path.pieces path ∧ ∀ d, fs.walk path ≠ .ok d

namespace FileStore

variable [HasFiles σ] {s : FileStore} {now : Timestamp} {d : Document} {m : Emitter σ} {w w' : σ}

/-- What the state file holds. -/
def content? (s : FileStore) (w : σ) : Option ByteArray := ((files w).read s.path).toOption

theorem content?_eq_some {bytes : ByteArray} :
    s.content? w = some bytes ↔ (files w).read s.path = .ok bytes := by
  unfold content?
  cases (files w).read s.path with
  | ok b => exact ⟨fun h => congrArg _ (Option.some.inj h), fun h => congrArg _ (Except.ok.inj h)⟩
  | error fault => exact ⟨nofun, nofun⟩

theorem load_store (s : FileStore) (now : Timestamp) (w : σ) :
    s.store.load now w = s.load now (files w) := rfl

/-- A save that fails leaves the state file as it was. -/
theorem content?_save_error (hw : (files w).HasWorkingDirectory) {e : Error}
    (hs : s.store.save now d w = (.error e, w')) :
    s.content? w' = s.content? w ∨ s.content? w = none ∧ (files w).Strays s.path := by
  have he : (s.save now d (files w)).1 = .error e := congrArg Prod.fst hs
  have hw' : w' = setFiles (s.save now d (files w)).2 w := (congrArg Prod.snd hs).symm
  rw [hw', content?, HasFiles.files_setFiles]
  by_cases h : ∃ name, Path.EndsIn s.path name
  · obtain ⟨name, h⟩ := h
    have hgrows := grows_save h he
    by_cases hstrays : (files w).Strays s.path
    · -- what can be read is there, so the path can be followed
      refine Or.inr ⟨?_, hstrays⟩
      rw [content?]
      cases hr : (files w).read s.path with
      | error fault => rfl
      | ok bytes =>
        obtain ⟨at₀, hat₀, -⟩ := FileSystem.read_eq_ok.mp hr
        exact absurd hat₀ (hstrays.2 at₀)
    · refine Or.inl (FileSystem.read_of_grows h (temporaryName_ne name) hgrows ?_)
      by_cases hclimbs : ".." ∈ Path.pieces s.path
      · exact Or.inr (not_forall_not.mp fun hall => hstrays ⟨hclimbs, hall⟩)
      · exact Or.inl hclimbs
  · have h := not_exists.mp h
    have hw' := (keeps_save he).hasWorkingDirectory hw
    left
    rw [content?, FileSystem.read_of_not_endsIn h hw, FileSystem.read_of_not_endsIn h hw']

theorem content?_save (hs : s.store.save now d w = (.ok (), w')) :
    s.content? w' = some (d.stamp now).text.toUTF8 := by
  have hok : (s.save now d (files w)).1 = .ok () := congrArg Prod.fst hs
  have hw' : w' = setFiles (s.save now d (files w)).2 w := (congrArg Prod.snd hs).symm
  rw [hw', content?_eq_some, HasFiles.files_setFiles]
  exact read_save (Prod.ext hok rfl)

/-- What the state file holds, if that is text. -/
def text? (s : FileStore) (w : σ) : Option String := (s.content? w).bind Text.decode?

theorem text?_of_content? {t : String} (h : s.content? w = some t.toUTF8) : s.text? w = some t := by
  rw [text?, h, Option.bind_some, Text.decode?_eq_some]

/-- A file store as a site.  Its path ends in a name and does not climb, for if it did a save
that fails could let it lead to another file. -/
def site (s : FileStore) {name : String} (hends : Path.EndsIn s.path name)
    (hclimbs : ".." ∉ Path.pieces s.path) : Site σ where
  store := s.store
  text? := s.text?
  load_ok := by
    intro now w d hl
    rcases load_eq_ok hl with ⟨hnone, hd⟩ | ⟨t, hread, ht, hc⟩
    · exact .inl ⟨by rw [text?, content?, hnone, Option.bind_none], hd⟩
    · exact .inr ⟨t, text?_of_content? (content?_eq_some.mpr hread), ht, hc⟩
  save_ok hs := text?_of_content? (content?_save hs)
  save_error := by
    intro now d w w' e hs
    have he : (s.save now d (files w)).1 = .error e := congrArg Prod.fst hs
    have hw' : w' = setFiles (s.save now d (files w)).2 w := (congrArg Prod.snd hs).symm
    have hread := FileSystem.read_of_grows hends (temporaryName_ne name) (grows_save hends he)
      (.inl hclimbs)
    rw [text?, text?, hw', content?, HasFiles.files_setFiles, hread, content?]

theorem content?_flush (h : ∀ r w, s.content? (Emitter.deliver m.sinks r w) = s.content? w)
    (w : σ) : s.content? (m.flush w).2 = s.content? w := by
  show s.content? (m.queue.foldl (fun w r => Emitter.deliver m.sinks r w) w) = s.content? w
  induction m.queue generalizing w with
  | nil => rfl
  | cons r rest ih => rw [List.foldl_cons, ih, h]

theorem isFiled_of_load {fs : FileSystem} (hl : s.load now fs = .ok d) : d.IsFiled := by
  rcases load_eq_ok hl with ⟨-, rfl⟩ | ⟨t, -, -, hc⟩
  · intro id e he
    rw [Document.find?_empty] at he
    cases he
  · exact Document.isFiled_of_check hc

/-- What is loaded of a file that a document was written to. -/
theorem readsBack_of_load {d₀ : Document} (h : s.content? w = some d₀.text.toUTF8)
    (hl : s.load now (files w) = .ok d) : d₀.ReadsBack d := by
  have hr := content?_eq_some.mp h
  rcases load_eq_ok hl with ⟨hnone, -⟩ | ⟨t, ht, hd, -⟩
  · rw [hr] at hnone
    cases hnone
  · have htext : t = d₀.text := String.toByteArray_inj.mp (Except.ok.inj (ht.symm.trans hr))
    exact Document.readsBack_of_ofText (htext ▸ hd)

end FileStore

/-- When nothing is saved, whoever waits for records has no part in what happens. -/
theorem Operation.world_of_rejected (op : Operation) (store : Store σ) (now : Timestamp)
    (m : Emitter σ) (w : σ)
    (h : ∀ report, (op.perform store now m w).1 = .ok report → report.entities = [])
    (m' : Emitter σ) : (op.perform store now m w).2.2 = (op.perform store now m' w).2.2 := by
  unfold perform at h ⊢
  generalize (do let change ← op.prepare; change now (← store.load now w) :
    Except Error Change) = x at h ⊢
  cases x with
  | error e => rfl
  | ok c =>
    dsimp only [Change.commit] at h ⊢
    by_cases hn : c.report.entities.isEmpty
    · rw [if_pos hn, if_pos hn]
    · rw [if_neg hn] at h ⊢
      rw [if_neg hn]
      generalize store.save now c.document w = saved at h ⊢
      rcases saved with ⟨e | ⟨⟩, w'⟩
      · rfl
      · exact absurd (List.isEmpty_iff.mpr (h _ rfl)) hn

theorem Change.commit_of_save {store : Store σ} {c : Change} {now : Timestamp} {m : Emitter σ}
    {w w' : σ} (hne : c.report.entities ≠ [])
    (hs : store.save now c.document w = (.ok (), w')) :
    c.commit store now m w = (.ok c.report, (m.enqueue c.records).flush w') := by
  simp only [commit, List.isEmpty_iff, if_neg hne, hs]

/-- An operation that fails or changes no entity leaves no trace, and one that changes some
names them all. -/
theorem Operation.perform_traces [HasFiles σ] (op : Operation) (s : FileStore) (now : Timestamp)
    {m : Emitter σ} (hm : m.queue = []) {w : σ} (hw : (files w).HasWorkingDirectory) :
    (op.perform s.store now m w).2.1.queue = [] ∧
    ((∀ report, (op.perform s.store now m w).1 = .ok report → report.entities = []) →
      (∀ m' : Emitter σ, (op.perform s.store now m w).2.2 = (op.perform s.store now m' w).2.2) ∧
      (s.content? (op.perform s.store now m w).2.2 = s.content? w ∨
        s.content? w = none ∧ (files w).Strays s.path)) ∧
    ∀ report, (op.perform s.store now m w).1 = .ok report → report.entities ≠ [] →
      ∃ d d' : Document, s.load now (files w) = .ok d ∧
        ((∀ r w, s.content? (Emitter.deliver m.sinks r w) = s.content? w) →
          s.content? (op.perform s.store now m w).2.2 = some d'.text.toUTF8) ∧
        ∀ id ∉ report.entities, d'.find? id = d.find? id ∧
          ∀ d₀ : Document, s.content? w = some d₀.text.toUTF8 →
            Option.Rel Entity.ReadsBack (d₀.find? id) (d'.find? id) ∧
            ∀ e, d₀.find? id = some e → e.Fits (·.isExact) (·.isExact) →
              d'.find? id = some e := by
  have hworld := world_of_rejected op s.store now m w
  have hout := op.outcome_perform s.store now m w
  generalize op.perform s.store now m w = res at hout hworld ⊢
  cases hout with
  | refused e => exact ⟨hm, fun h => ⟨hworld h, Or.inl rfl⟩, nofun⟩
  | idle load makes none =>
    exact ⟨rfl, fun h => ⟨hworld h, Or.inl rfl⟩, fun report hr hne =>
      absurd (Except.ok.inj hr ▸ none) hne⟩
  | unsaved load makes save =>
    exact ⟨rfl, fun h => ⟨hworld h, FileStore.content?_save_error hw save⟩, nofun⟩
  | @saved d c w' load makes some save =>
    refine ⟨rfl, fun h => absurd (h _ rfl) some, fun report hr _ => ?_⟩
    obtain rfl := Except.ok.inj hr
    refine ⟨d, c.document.stamp now, load, fun hsinks => ?_, fun id hid => ?_⟩
    · rw [FileStore.content?_flush (by rwa [Emitter.sinks_enqueue])]
      exact FileStore.content?_save save
    · have hsame := makes.find?_of_not_mem (FileStore.isFiled_of_load load) hid
      refine ⟨hsame, fun d₀ hd₀ => ?_⟩
      show Option.Rel _ _ (c.document.find? id) ∧ ∀ e, _ → _ → c.document.find? id = _
      have hrel := (FileStore.readsBack_of_load hd₀ load).related id
      rw [hsame]
      refine ⟨hrel, fun e he hfits => ?_⟩
      rw [he] at hrel
      generalize d.find? id = found at hrel ⊢
      cases hrel with
      | some h => rw [h.eq hfits]

/-! ## A file system with one file -/

namespace FileStore

def atRoot : FileStore := ⟨"state.json", false⟩

/-- A file system with nothing but the state file, which a document was written to. -/
def holding (d : Document) : FileSystem :=
  ⟨.directory [("state.json", .file d.text.toUTF8)], [], "/"⟩

theorem read_holding (d : Document) : (holding d).read atRoot.path = .ok d.text.toUTF8 := rfl

theorem content?_holding (d : Document) : atRoot.content? (holding d) = some d.text.toUTF8 :=
  content?_eq_some.mpr (read_holding d)

theorem load_holding {now : Timestamp} {d d' : Document} (hd : Document.ofText d.text = .ok d')
    (hc : d'.check = .ok ()) : atRoot.store.load now (holding d) = .ok d' := by
  rw [load_store]
  exact load_of_read (read_holding d) hd hc

/-- An entity that was just registered with a number for metadata. -/
def measured (n : Number) : Document :=
  (Document.empty (.ofSeconds 0)).insert "post"
    (Entity.registered (.ofSeconds 0) "post" (.object [("value", .number n)])).1

def next : Entity × AuditRecord := Entity.registered (.ofSeconds 0) "next" .null

theorem load_drifting :
    atRoot.store.load (.ofSeconds 0) (holding (measured Memory.drifting)) =
      .ok (measured Memory.drifted) := by
  refine load_holding ?_ (by decide +kernel)
  rw [Document.ofText_text]
  decide +kernel

/-- What is not running is not completed, and the file is as it was. -/
theorem perform_traces_complete :
    (Emitter.ofSinks [] : Emitter FileSystem).queue = [] ∧
    (holding (measured Memory.drifting)).HasWorkingDirectory ∧
    atRoot.content? ((Operation.complete "post").perform atRoot.store (.ofSeconds 0) (.ofSinks [])
        (holding (measured Memory.drifting))).2.2 =
      some (measured Memory.drifting).text.toUTF8 := by
  refine ⟨rfl, rfl, ?_⟩
  have hrefused : ((Operation.complete "post").perform atRoot.store (.ofSeconds 0) (.ofSinks [])
      (holding (measured Memory.drifting))).1 =
        .error (.invalidTransition "post" "ingested" (.notRunning "complete" .pending)) := by
    have hchange : (do let change ← (Operation.complete "post").prepare
                       change (.ofSeconds 0) (← atRoot.store.load (.ofSeconds 0)
                         (holding (measured Memory.drifting))) : Except Error Change) =
        .error (.invalidTransition "post" "ingested" (.notRunning "complete" .pending)) := by
      rw [load_drifting]
      rfl
    rw [Operation.perform, hchange]
  obtain ⟨-, hrejected, -⟩ := Operation.perform_traces (.complete "post") atRoot (.ofSeconds 0)
    (m := .ofSinks []) rfl (w := holding (measured Memory.drifting)) rfl
  obtain ⟨-, hsame | ⟨hnone, -⟩⟩ := hrejected fun report hr => by
    rw [hrefused] at hr
    cases hr
  · rw [hsame, content?_holding]
  · rw [content?_holding] at hnone
    cases hnone

/-- An entity that is not named may have changed: what is saved is what was loaded. -/
theorem exists_unnamed_changed : ∃ (op : Operation) (w : FileSystem) (d d' : Document)
    (report : Report), atRoot.content? w = some d.text.toUTF8 ∧
      (op.perform atRoot.store (.ofSeconds 0) (.ofSinks []) w).1 = .ok report ∧
      report.entities = ["next"] ∧
      atRoot.content? (op.perform atRoot.store (.ofSeconds 0) (.ofSinks []) w).2.2 =
        some d'.text.toUTF8 ∧
      d'.find? "post" ≠ d.find? "post" := by
  have hsaved : (atRoot.save (.ofSeconds 0) ((measured Memory.drifted).insert "next" next.1)
      (holding (measured Memory.drifting))).1 = .ok () := by decide +kernel
  have hsave : atRoot.store.save (.ofSeconds 0) ((measured Memory.drifted).insert "next" next.1)
      (holding (measured Memory.drifting)) = (.ok (), _) := Prod.ext hsaved rfl
  have hblank : Text.isBlankText "next" = false := by decide
  have hperform := Operation.perform_register hblank load_drifting (by decide) .null (.ofSinks [])
  rw [Change.commit_of_save (List.cons_ne_nil _ _) hsave] at hperform
  refine ⟨.register "next" .null, holding (measured Memory.drifting), measured Memory.drifting,
    ((measured Memory.drifted).insert "next" next.1).stamp (.ofSeconds 0),
    ⟨"next registered", ["next"], []⟩, content?_holding _, ?_, rfl, ?_, by decide +kernel⟩
  · rw [hperform]
    rfl
  · rw [hperform]
    exact content?_save hsave

end FileStore
end Publishing
