import Publishing.Proofs.Enumeration
import Publishing.Proofs.Moves

/-
The ids that come to be tracked.

After any history an id is tracked if and only if some operation brought it: a registration under
that id, or an import with an item of that id.  Nothing takes an id away, and runs bring none.
A registration refuses ids that are blank.  An import takes the ids that discovery gives, and these
are the paths of files without their extensions: blank if a file right below the root has a blank
stem, and empty if the root is itself a file that counts as content.
-/

namespace Publishing

/-! ## Blank ids of content -/

namespace Content

variable {names extensions : List String} {root name : String} {content : ByteArray}

/-- Whether content at a root would have a blank id. -/
inductive HasBlank (root : String) (extensions : List String) : FileNode → Prop
  /-- The root is a file that counts itself, and no names lead to it. -/
  | root {content : ByteArray} (wanted : hasExtension extensions ((Path.fileName? root).getD "")) :
      HasBlank root extensions (.file content)
  | stem {es : List (String × FileNode)} {stem ext : String} {content : ByteArray}
      (there : (stem ++ "." ++ ext, .file content) ∈ es) (named : stem ≠ "")
      (blank : Text.isBlankText stem) (last : '.' ∉ ext.toList)
      (wanted : IsWanted extensions ext) : HasBlank root extensions (.directory es)

theorem id_item_singleton (name : String) (content : ByteArray) :
    (item [name] content).id = (Path.splitExtension name).1 := by
  simp [item, withoutExtension]

/-- An id that leads through a directory has a slash. -/
theorem not_isBlankText_id (name : String) (hne : names ≠ []) (content : ByteArray) :
    Text.isBlankText (item (name :: names) content).id = false := by
  obtain ⟨above, last, rfl⟩ := List.eq_nil_or_concat' names |>.resolve_left hne
  have hid : (item (name :: (above ++ [last])) content).id =
      "/".intercalate ([name] ++ (above ++ [(Path.splitExtension last).1])) := by
    rw [item, withoutExtension, ← List.cons_append, List.getLast?_concat]
    dsimp only
    rw [List.dropLast_concat]
    rfl
  rw [hid, String.intercalate_append_of_ne_nil (by simp) (by simp), Text.isBlankText,
    String.toList_append, String.toList_append, List.all_append, List.all_append,
    show "/".toList.all Text.isBlank = false by decide, Bool.and_false, Bool.false_and]

/-- A walk finds a place that no names lead to only at a file. -/
theorem nil_mem_filesBelow {node : FileNode} :
    ([], content) ∈ filesBelow [] node ↔ node = .file content := by
  cases node with
  | file c => simp [filesBelow, eq_comm]
  | directory es =>
    rw [filesBelow, mem_filesIn]
    simp

/-- What a blank id comes of. -/
theorem exists_blank_iff (root : String) (extensions : List String) (node : FileNode) :
    (∃ f ∈ filesBelow [] node,
      hasExtension extensions (f.1.getLast?.getD ((Path.fileName? root).getD "")) ∧
        Text.isBlankText (item f.1 f.2).id) ↔ HasBlank root extensions node := by
  cases node with
  | file content =>
    rw [filesBelow]
    constructor
    · rintro ⟨f, hf, hwanted, -⟩
      obtain rfl := List.mem_singleton.mp hf
      exact .root hwanted
    · rintro ⟨hwanted⟩
      exact ⟨_, List.mem_cons_self, hwanted, rfl⟩
  | directory es =>
    constructor
    · rintro ⟨f, hf, hwanted, hblank⟩
      obtain ⟨⟨name, node⟩, he, hvisible, ⟨names, content⟩, hg, rfl⟩ := mem_filesIn.mp hf
      rcases names with _ | ⟨a, rest⟩
      · obtain rfl := nil_mem_filesBelow.mp hg
        have hwanted : hasExtension extensions name := hwanted
        obtain ⟨stem, ext, hsplit, hext⟩ := hasExtension_iff.mp hwanted
        rw [id_item_singleton, hsplit] at hblank
        obtain ⟨rfl, hlast⟩ :=
          (Path.splitExtension_eq_some (isHidden_eq_false.mp hvisible)).mp hsplit
        refine .stem he ?_ hblank hlast hext
        rintro rfl
        -- the name would begin with a dot
        exact absurd hvisible (by simp [isHidden])
      · rw [not_isBlankText_id name (List.cons_ne_nil a rest)] at hblank
        cases hblank
    · rintro (_ | @⟨_, stem, ext, content, hthere, hnamed, hblank, hlast, hwanted⟩)
      -- the stem begins with a blank, so the name does not begin with a dot
      obtain ⟨c, cs, hstem⟩ := List.exists_cons_of_ne_nil (mt String.toList_eq_nil_iff.mp hnamed)
      have hvisible : (stem ++ "." ++ ext).toList.head? ≠ some '.' := by
        have hc : Text.isBlank c := by
          rw [Text.isBlankText, hstem, List.all_cons, Bool.and_eq_true] at hblank
          exact hblank.1
        have hhead : (stem ++ "." ++ ext).toList.head? = some c := by simp [hstem]
        rw [hhead, ne_eq, Option.some.injEq]
        rintro rfl
        revert hc
        decide
      have hsplit := (Path.splitExtension_eq_some hvisible).mpr ⟨rfl, hlast⟩
      refine ⟨([stem ++ "." ++ ext], content), mem_filesIn.mpr ⟨_, hthere,
        isHidden_eq_false.mpr hvisible, ([], content), nil_mem_filesBelow.mpr rfl, rfl⟩,
        hasExtension_iff.mpr ⟨_, _, hsplit, hwanted⟩, ?_⟩
      rw [id_item_singleton, hsplit]
      exact hblank

theorem hasBlank_iff {fs : FileSystem} {items : List ContentItem}
    (hd : discover fs root extensions = .ok items) :
    (∃ item ∈ items, Text.isBlankText item.id) ↔
      ∃ node, fs.stat root = .ok node ∧ HasBlank root extensions node := by
  unfold discover at hd
  split at hd
  · cases hd
  · next node hnode =>
    obtain rfl := Except.ok.inj hd
    simp only [List.mem_mergeSort, List.mem_map, List.mem_filter, hnode, Except.ok.injEq,
      exists_eq_left', ← exists_blank_iff]
    constructor
    · rintro ⟨_, ⟨f, ⟨hf, hwanted⟩, rfl⟩, hblank⟩
      exact ⟨f, hf, hwanted, hblank⟩
    · rintro ⟨f, hf, hwanted, hblank⟩
      exact ⟨_, ⟨f, ⟨hf, hwanted⟩, rfl⟩, hblank⟩

end Content

/-! ## What operations bring -/

/-- The ids that an operation has tracked after it. -/
def Operation.brings : Operation → List String
  | register id _ => [id]
  | migrate items => items.map (·.id)
  | _ => []

namespace Document

variable {d d' : Document} {id : String}

theorem contains_eq_isSome (d : Document) (id : String) :
    d.contains id = (d.find? id).isSome := rfl

theorem contains_mapEntities (f : String → Entity → Entity) (d : Document) (id : String) :
    (d.mapEntities f).contains id = d.contains id := by
  rw [contains_eq_isSome, find?_mapEntities, Option.isSome_map, contains_eq_isSome]

theorem contains_replace (id' : String) (e : Entity) (d : Document) (id : String) :
    (d.replace id' e).contains id = d.contains id := by
  rw [contains_eq_isSome, find?_replace]
  split
  · rw [Option.isSome_map]; rfl
  · rfl

theorem Related.contains {R : Entity → Entity → Prop} (h : d.Related R d') (id : String) :
    d'.contains id = d.contains id := by
  have hid := h id
  rw [contains_eq_isSome, contains_eq_isSome]
  revert hid
  cases d.find? id <;> cases d'.find? id <;> first | exact fun _ => rfl | exact nofun

/-- No move of a run brings an id or takes one away. -/
theorem MovesTo.contains (h : d.MovesTo d') (id : String) : d'.contains id = d.contains id := by
  cases h with
  | blocked now =>
    exact contains_mapEntities (fun _ e => (e.blockStuck now).1) d id
  | selected now s hf =>
    rw [document_select _ s hf, contains_mapEntities]
  | marked hw hm =>
    rw [(markEach_eq_ok hw.nodup hw.contains hm).1]
    exact contains_mapEntities _ d id
  | @folded _ _ now _ runId s ids _ _ _ _ batch _ hw hm hf =>
    rw [(markEach_eq_ok hw.nodup hw.contains hm).1] at hf
    rw [(foldEach_eq_ok hw.nodup (hw.contains_withMarks now runId) hf batch).1]
    exact (contains_mapEntities _ _ id).trans (contains_mapEntities _ d id)
  | closed => rfl

theorem contains_of_movesTo (h : Relation.ReflTransGen MovesTo d d') (id : String) :
    d'.contains id = d.contains id := by
  induction h with
  | refl => rfl
  | tail _ h ih => exact (h.contains id).trans ih

end Document

theorem Operation.Makes.contains_iff {op : Operation} {now : Timestamp} {d : Document} {c : Change}
    (h : op.Makes now d c) (hf : d.IsFiled) (id : String) :
    c.document.contains id ↔ d.contains id ∨ id ∈ op.brings := by
  have hsame : ∀ {d' : Document}, d'.contains id = d.contains id →
      (d'.contains id ↔ d.contains id ∨ id ∈ []) := fun h => by simp [h]
  cases h with
  | retryOne => exact hsame (Document.contains_replace ..)
  | @retryAll _ s =>
    refine hsame ?_
    rw [Document.contains_eq_isSome, (Document.retryReport_eq hf id).2, Option.isSome_or]
    cases hr : d.retried? now s id with
    | none => rfl
    | some e' =>
      obtain ⟨e, record, he, -⟩ := Document.retried?_eq_some.mp hr
      rw [Document.contains_eq_isSome, he]
      rfl
  | skipOne => exact hsame (Document.contains_replace ..)
  | skipAll _ hc =>
    obtain rfl := Except.ok.inj hc
    exact hsame (Document.contains_mapEntities ..)
  | reset => exact hsame (Document.contains_mapEntities ..)
  | complete => exact hsame (Document.contains_replace ..)
  | fail => exact hsame (Document.contains_replace ..)
  | @register id' metadata added =>
    rw [Document.contains_eq_isSome, Document.find?_insert]
    by_cases hid : id = id'
    · simp [hid, brings]
    · simp [hid, brings, Document.contains_eq_isSome]
  | migrate items =>
    show (Document.find? (d.insertFinalized now items).document id).isSome ↔ _
    rw [Document.find?_insertFinalized_eq, Option.isSome_or, Option.isSome_map, Bool.or_eq_true,
      List.find?_isSome, Document.contains_eq_isSome, brings, List.mem_map]
    simp

theorem Operation.isBlankText_of_register {σ : Type} {id : String} {metadata : Json}
    {store : Store σ} {now : Timestamp} {m : Emitter σ} {w : σ} {report : Report}
    (h : ((register id metadata).perform store now m w).1 = .ok report) :
    Text.isBlankText id = false := by
  by_contra hblank
  have hprepare : (register id metadata).prepare =
      .error (.invalidTransition id Step.ingested.name .blankId) := by
    rw [prepare, if_pos (by simpa using hblank)]
    rfl
  rw [perform, hprepare] at h
  cases h

/-! ## Histories -/

/-- Whether an operation that went well in these episodes brought an id. -/
def Episode.Brought (h : List Episode) (id : String) : Prop :=
  ∃ op report, .operation op (.ok report) ∈ h ∧ id ∈ op.brings

theorem Episode.brought_concat {h : List Episode} {e : Episode} {id : String} :
    Brought (h ++ [e]) id ↔
      Brought h id ∨ ∃ op report, e = .operation op (.ok report) ∧ id ∈ op.brings := by
  simp only [Brought, List.mem_append, List.mem_singleton, or_and_right, exists_or]
  simp only [eq_comm]

/-- What is so of the tracked ids after these episodes. -/
structure Document.NamedBy (d : Document) (h : List Episode) : Prop where
  tracked : ∀ id, d.contains id ↔ Episode.Brought h id
  /-- A blank id comes of an import that has met a file without a name of its own. -/
  blank : (∃ id, d.contains id ∧ Text.isBlankText id) ↔
    ∃ items report fs root extensions node, .operation (.migrate items) (.ok report) ∈ h ∧
      Content.discover fs root extensions = .ok items ∧ fs.stat root = .ok node ∧
      Content.HasBlank root extensions node

namespace Site

variable {σ : Type} {S : Site σ} {h : List Episode} {d : Document} {w : σ}

/-- What a run leaves on disk tracks the ids that were tracked before it. -/
theorem contains_of_leaves {r : RunSetup σ} (hr : r.store = S.store) {m : Emitter σ}
    {seen rest : List RunEvent} (ht : (r.run m w).trace = seen ++ rest) {t : Option String}
    (hleaves : Leaves (S.text? w) seen t) (hd : d.IsOn (S.text? w)) :
    ∃ d' : Document, d'.IsOn t ∧ ∀ id, d'.contains id = d.contains id := by
  unfold Leaves at hleaves
  cases hs : RunEvent.lastSaved seen with
  | none =>
    rw [hs] at hleaves
    exact ⟨d, hleaves ▸ hd, fun id => rfl⟩
  | some d₁ =>
    rw [hs] at hleaves
    obtain ⟨now, rfl⟩ := hleaves
    have hsaved : d₁ ∈ RunEvent.savings (r.run m w).trace := by
      rw [ht, RunEvent.savings_append]
      exact List.mem_append_left _ (List.mem_of_getLast? hs)
    rcases r.run_cases m w with ⟨e, -, hrun⟩ | ⟨d₀, hl, -⟩
    · rw [hrun] at hsaved
      cases hsaved
    · have hl' := hl
      rw [hr] at hl'
      have hmoves := r.movesTo_savings m w hl (isFiled_of_load hl') d₁ hsaved
      refine ⟨d₁.stamp now, rfl, fun id => ?_⟩
      exact (Document.contains_of_movesTo hmoves id).trans ((related_of_load hd hl').contains id)

/-- An operation that goes well leaves the ids that it brings tracked, and else nothing new. -/
theorem tracked_perform (op : Operation) (now : Timestamp) {m : Emitter σ}
    (hm : S.SparedBySinks m.sinks) (hd : d.IsOn (S.text? w))
    (hp : ∀ id, d.contains id ↔ Episode.Brought h id) :
    ∃ d' : Document, d'.IsOn (S.text? (op.perform S.store now m w).2.2) ∧
      ∀ id, d'.contains id ↔
        Episode.Brought (h ++ [.operation op (op.perform S.store now m w).1]) id := by
  have hfailed : ∀ (e : Error) id, d.contains id ↔
      Episode.Brought (h ++ [.operation op (.error e)]) id := by
    intro e id
    rw [hp, Episode.brought_concat]
    simp
  have hpassed : ∀ (report : Report) id, Episode.Brought (h ++ [.operation op (.ok report)]) id ↔
      d.contains id ∨ id ∈ op.brings := by
    intro report id
    rw [hp, Episode.brought_concat]
    simp
  have ho := op.outcome_perform S.store now m w
  generalize op.perform S.store now m w = res at ho ⊢
  cases ho with
  | refused e => exact ⟨d, hd, hfailed e⟩
  | unsaved _ _ hs => exact ⟨d, (S.save_error hs).symm ▸ hd, hfailed _⟩
  | @idle d' c hl hmakes hnone =>
    refine ⟨d, hd, fun id => ?_⟩
    have hloaded := (related_of_load hd hl).contains id
    have hkept : c.document.find? id = d'.find? id :=
      hmakes.find?_of_not_mem (isFiled_of_load hl) (by simp [hnone])
    rw [hpassed, ← hloaded, ← hmakes.contains_iff (isFiled_of_load hl),
      Document.contains_eq_isSome, Document.contains_eq_isSome, hkept]
  | @saved d' c _ hl hmakes _ hs =>
    refine ⟨c.document.stamp now, ?_, fun id => ?_⟩
    · rw [text?_flush_save hm hs]
      rfl
    · have hloaded := (related_of_load hd hl).contains id
      rw [hpassed, ← hloaded]
      exact hmakes.contains_iff (isFiled_of_load hl) id

/-- After any history those ids are tracked that were brought. -/
theorem tracked_of_history {t : Option String} (hh : S.History h t) :
    ∃ d : Document, d.IsOn t ∧ ∀ id, d.contains id ↔ Episode.Brought h id := by
  have hrun : ∀ {d : Document} {h : List Episode} {calls : List Call},
      (∀ id, d.contains id ↔ Episode.Brought h id) →
      ∀ id, d.contains id ↔ Episode.Brought (h ++ [.run calls]) id := by
    intro d h calls hp id
    rw [hp, Episode.brought_concat]
    simp
  induction hh with
  | absent =>
    refine ⟨.empty default, ⟨_, rfl⟩, fun id => iff_of_false ?_ ?_⟩
    · rw [Document.contains_eq_isSome, Document.find?_empty]
      exact Bool.false_ne_true
    · rintro ⟨op, report, hmem, -⟩
      cases hmem
  | operation op now m w hm _ ih =>
    obtain ⟨d, hd, hp⟩ := ih
    exact tracked_perform op now hm hd hp
  | run r m w hr hm hx _ ih =>
    obtain ⟨d, hd, hp⟩ := ih
    obtain ⟨seen, hmoment, hcalls⟩ := r.moment_run m w fun d hl => isFiled_of_load (hr ▸ hl)
    obtain ⟨rest, ht⟩ := hmoment.isPrefix
    obtain ⟨d', hd', hsame⟩ := contains_of_leaves hr ht.symm
      (keeps_of_moment hr hm hx hmoment).leaves.leaves hd
    exact ⟨d', hd', hrun fun id => hsame id ▸ hp id⟩
  | cut r m w hr ht hleaves _ ih =>
    obtain ⟨d, hd, hp⟩ := ih
    obtain ⟨d', hd', hsame⟩ := contains_of_leaves hr ht hleaves hd
    exact ⟨d', hd', hrun fun id => hsame id ▸ hp id⟩

/-- Whatever was registered in a history has an id that is not blank. -/
theorem not_isBlankText_of_history {t : Option String} (hh : S.History h t) {id : String}
    {metadata : Json} {report : Report}
    (hmem : .operation (.register id metadata) (.ok report) ∈ h) : Text.isBlankText id = false := by
  induction hh with
  | absent => cases hmem
  | operation op now m w _ _ ih =>
    rcases List.mem_append.mp hmem with hmem | hmem
    · exact ih hmem
    · obtain ⟨rfl, hok⟩ := Episode.operation.inj (List.mem_singleton.mp hmem)
      exact Operation.isBlankText_of_register hok.symm
  | run | cut =>
    rename_i ih
    rcases List.mem_append.mp hmem with hmem | hmem
    · exact ih hmem
    · cases List.mem_singleton.mp hmem

/-- Blank ids come of discovery only, if all that is imported was discovered. -/
theorem namedBy_of_tracked {t : Option String} (hh : S.History h t)
    (hdiscovered : ∀ items report, .operation (.migrate items) (.ok report) ∈ h →
      ∃ fs root extensions, Content.discover fs root extensions = .ok items)
    (htracked : ∀ id, d.contains id ↔ Episode.Brought h id) : d.NamedBy h where
  tracked := htracked
  blank := by
    constructor
    · rintro ⟨id, hid, hblank⟩
      obtain ⟨op, report, hmem, hbrings⟩ := (htracked id).mp hid
      cases op with
      | register id' metadata =>
        obtain rfl := List.mem_singleton.mp hbrings
        rw [not_isBlankText_of_history hh hmem] at hblank
        cases hblank
      | migrate items =>
        obtain ⟨item, hitem, rfl⟩ := List.mem_map.mp hbrings
        obtain ⟨fs, root, extensions, hd⟩ := hdiscovered items report hmem
        obtain ⟨node, hnode, hhas⟩ := (Content.hasBlank_iff hd).mp ⟨item, hitem, hblank⟩
        exact ⟨items, report, fs, root, extensions, node, hmem, hd, hnode, hhas⟩
      | retry | skipTo | reset | complete | fail => cases hbrings
    · rintro ⟨items, report, fs, root, extensions, node, hmem, hd, hnode, hhas⟩
      obtain ⟨item, hitem, hblank⟩ := (Content.hasBlank_iff hd).mpr ⟨node, hnode, hhas⟩
      exact ⟨item.id, (htracked _).mpr ⟨_, report, hmem, List.mem_map_of_mem hitem⟩, hblank⟩

/-- After any history of operations and runs, in which only discovered content was imported, those
ids are tracked that a registration or an import brought.  A blank one is among them if and only if
some import has met a root that counts as content itself, or a file right below the root with a
blank stem.  So it is of the document on disk, and of what is read there. -/
theorem namedBy_of_history {t : Option String} (hh : S.History h t)
    (hdiscovered : ∀ items report, .operation (.migrate items) (.ok report) ∈ h →
      ∃ fs root extensions, Content.discover fs root extensions = .ok items) :
    (∃ d : Document, d.IsOn t ∧ d.NamedBy h) ∧
      ∀ text d, t = some text → Document.ofText text = .ok d → d.NamedBy h := by
  obtain ⟨d, hd, htracked⟩ := tracked_of_history hh
  refine ⟨⟨d, hd, namedBy_of_tracked hh hdiscovered htracked⟩, ?_⟩
  rintro text d' rfl hread
  obtain rfl := hd
  have hsame := (Document.readsBack_of_ofText hread).sameProgress.contains
  exact namedBy_of_tracked hh hdiscovered fun id => hsame id ▸ htracked id

end Site

/-! ## Imports of one file -/

namespace Content

/-- An empty file, which is all there is. -/
def lone : FileSystem := ⟨.directory [("p.md", .file .empty)], [], "/"⟩

theorem hasExtension_lone : hasExtension ["md"] "p.md" := by decide +kernel

theorem discover_lone : discover lone "/" ["md"] = .ok [item ["p.md"] .empty] ∧
    discover lone "p.md" ["md"] = .ok [item [] .empty] := by
  have hname : Path.fileName? "p.md" = some "p.md" := by decide +kernel
  constructor
  · rw [discover, show lone.stat "/" = .ok lone.root from rfl]
    simp [lone, filesBelow, filesIn, isHidden, hasExtension_lone]
  · rw [discover, show lone.stat "p.md" = .ok (.file .empty) by rfl]
    simp [filesBelow, hname, hasExtension_lone]

end Content

namespace Memory

/-- What comes of the import of one item where nothing is tracked. -/
def taken (item : ContentItem) : Change :=
  (Document.empty (.ofSeconds 0)).migrate (.ofSeconds 0) [item]

theorem history_import (item : ContentItem) :
    site.History [.operation (.migrate [item]) (.ok (taken item).report)]
      (some ((taken item).document.stamp (.ofSeconds 0)).text) := by
  have hsinks : site.SparedBySinks (Emitter.ofSinks []).sinks := fun _ _ => rfl
  exact Site.History.operation (S := site) (.migrate [item]) (.ofSeconds 0)
    (Emitter.ofSinks []) blank hsinks .absent

theorem contains_taken (item : ContentItem) : (taken item).document.contains item.id := by
  show (Document.find? (Document.insert _ item.id _) item.id).isSome
  rw [Document.find?_insert, if_pos rfl]
  rfl

end Memory

namespace Content

/-- The import of a directory with one file tracks an id that is not blank, and that alone. -/
theorem namedBy_of_history_lone : ∃ report t,
    Memory.site.History [.operation (.migrate [item ["p.md"] .empty]) (.ok report)] t ∧
    discover lone "/" ["md"] = .ok [item ["p.md"] .empty] ∧
    ∃ d : Document, d.IsOn t ∧ d.contains "p" ∧ ∀ id, d.contains id → ¬ Text.isBlankText id := by
  have hh := Memory.history_import (item ["p.md"] .empty)
  have hid : (item ["p.md"] .empty).id = "p" := by
    rw [id_item_singleton]
    decide +kernel
  obtain ⟨⟨d, hd, hnamed⟩, -⟩ := Site.namedBy_of_history hh fun items report hmem => by
    obtain ⟨hop, -⟩ := Episode.operation.inj (List.mem_singleton.mp hmem)
    exact ⟨lone, "/", ["md"], (Operation.migrate.inj hop) ▸ discover_lone.1⟩
  refine ⟨_, _, hh, discover_lone.1, d, hd, ?_, fun id hid' hblank => ?_⟩
  · exact (hnamed.tracked "p").mpr ⟨_, _, List.mem_cons_self, by simp [Operation.brings, hid]⟩
  · obtain ⟨items, report, fs, root, extensions, node, hmem, hfound, hnode, hhas⟩ :=
      hnamed.blank.mp ⟨id, hid', hblank⟩
    obtain ⟨hop, -⟩ := Episode.operation.inj (List.mem_singleton.mp hmem)
    obtain rfl := Operation.migrate.inj hop
    obtain ⟨i, hi, hblank⟩ := (hasBlank_iff hfound).mpr ⟨node, hnode, hhas⟩
    rw [List.mem_singleton.mp hi, hid] at hblank
    exact absurd hblank (by decide)

/-- An import of the file itself tracks the empty id. -/
theorem exists_blank_tracked : ∃ (fs : FileSystem) (root : String) (extensions : List String)
    (items : List ContentItem) (report : Report) (d : Document),
    discover fs root extensions = .ok items ∧
      Memory.site.History [.operation (.migrate items) (.ok report)] (some d.text) ∧
      ∃ id, d.contains id ∧ Text.isBlankText id :=
  ⟨lone, "p.md", ["md"], _, _, _, discover_lone.2, Memory.history_import _, "",
    Memory.contains_taken (item [] .empty), rfl⟩

end Content
end Publishing
