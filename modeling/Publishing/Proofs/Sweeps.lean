import Mathlib.Data.List.Sort
import Publishing.Proofs.Fronts
import Publishing.Proofs.Rejections
import Publishing.Proofs.Settled

/-
Operations that change some entities, each by itself, and pass over others.

`Change.Alters` says whom a change changes and how, with the rest of the document as it was, and
`Change.PassesOver` whom it reports as left alone.  A sweep alters the entities that its verdict
changes and passes over those that its verdict skips, so an operation that is a sweep needs no
more than a reading of its verdict.
-/

namespace Publishing

/-- Whether a change of `d` names and changes exactly the entities that `P` holds of, each as `R`
says, and leaves everything else as it was. -/
structure Change.Alters (c : Change) (d : Document) (P : Entity → Prop)
    (R : Entity → Entity → Prop) : Prop where
  named : ∀ id, id ∈ c.report.entities ↔ ∃ e, d.find? id = some e ∧ P e
  ordered : c.report.entities.Pairwise (· < ·)
  changed : ∀ id e, d.find? id = some e → P e → ∃ e', c.document.find? id = some e' ∧ R e e'
  others : ∀ id, id ∉ c.report.entities → c.document.find? id = d.find? id
  version : c.document.version = d.version
  global : c.document.global = d.global

/-- Whether a change of `d` reports exactly the entities that `Q` holds of as left alone, each once
and with that reason. -/
structure Change.PassesOver (c : Change) (d : Document) (Q : Entity → SkipReason → Prop) :
    Prop where
  reported : ∀ x, x ∈ c.report.skipped ↔ ∃ e, d.find? x.id = some e ∧ Q e x.reason
  ordered : (c.report.skipped.map (·.id)).Pairwise (· < ·)

/-- What is in the order of its ids is determined by its members. -/
theorem eq_of_pairwise_ids {α : Type} {id : α → String} {l l' : List α}
    (hl : (l.map id).Pairwise (· < ·)) (hl' : (l'.map id).Pairwise (· < ·))
    (h : ∀ x, x ∈ l ↔ x ∈ l') : l = l' := by
  let before (x y : α) : Prop := id x < id y
  have _ : Std.Antisymm before := ⟨fun _ _ hxy hyx => absurd hyx (String.lt_asymm hxy)⟩
  have _ : Std.Irrefl before := ⟨fun _ => String.lt_irrefl _⟩
  have hsorted : l.Pairwise before := List.pairwise_map.mp hl
  have hsorted' : l'.Pairwise before := List.pairwise_map.mp hl'
  exact hsorted.eq_of_mem_iff hsorted' h

/-- Who is passed over, and why, leaves no choice in the report. -/
theorem Change.PassesOver.skipped_eq {c c' : Change} {d d' : Document}
    {Q Q' : Entity → SkipReason → Prop} (h : c.PassesOver d Q) (h' : c'.PassesOver d' Q')
    (hsame : ∀ id reason, (∃ e, d'.find? id = some e ∧ Q' e reason) ↔
      ∃ e, d.find? id = some e ∧ Q e reason) : c'.report.skipped = c.report.skipped :=
  eq_of_pairwise_ids h'.ordered h.ordered fun x =>
    (h'.reported x).trans ((hsame x.id x.reason).trans (h.reported x).symm)

namespace Document

variable {d : Document}

theorem pairwise_all (hf : d.IsFiled) : d.all.Pairwise fun a b => a.id < b.id := by
  have hkeys : (d.all.map (·.id)).Pairwise (· < ·) := by
    rw [ids_eq_keys hf]
    exact List.pairwise_map.mpr d.entities.ascending
  exact List.pairwise_map.mp hkeys

theorem pairwise_filter_ids (hf : d.IsFiled) (p : Entity → Bool) :
    ((d.all.filter p).map (·.id)).Pairwise (· < ·) :=
  List.pairwise_map.mpr ((pairwise_all hf).sublist List.filter_sublist)

/-- What is collected from the entities, one by one, is in the order of the ids. -/
theorem pairwise_filterMap {α : Type} {id : α → String} (hf : d.IsFiled) {f : Entity → Option α}
    (hid : ∀ e x, f e = some x → id x = e.id) :
    ((d.all.filterMap f).map id).Pairwise (· < ·) := by
  refine List.pairwise_map.mpr ((pairwise_all hf).filterMap _ fun a b hab x hx y hy => ?_)
  rw [hid a x hx, hid b y hy]
  exact hab

theorem alters_sweep (hf : d.IsFiled) {f : Entity → Verdict} {message : Nat → String}
    {P : Entity → Prop} {R : Entity → Entity → Prop}
    (hP : ∀ e ∈ d.all, ((f e).isChanged ↔ P e))
    (hR : ∀ e ∈ d.all, P e → R e ((f e).entity e)) :
    (d.sweep f message).Alters d P R where
  named id := by
    rw [mem_entities_sweep hf]
    refine exists_congr fun e => and_congr_right fun he => hP e (mem_all.mpr ⟨id, he⟩)
  ordered := pairwise_filter_ids hf _
  changed id e he hp := by
    refine ⟨(f e).entity e, ?_, hR e (mem_all.mpr ⟨id, he⟩) hp⟩
    rw [find?_document_sweep, he, Option.map_some]
  others _ hid := find?_sweep_of_not_mem hf hid
  version := rfl
  global := rfl

theorem passesOver_sweep (hf : d.IsFiled) {f : Entity → Verdict} {message : Nat → String}
    {Q : Entity → SkipReason → Prop}
    (hQ : ∀ e ∈ d.all, ∀ reason, (f e).skipReason? = some reason ↔ Q e reason) :
    (d.sweep f message).PassesOver d Q where
  reported x := by
    obtain ⟨id, reason⟩ := x
    simp only [sweep, List.mem_filterMap, Option.map_eq_some_iff, Skipped.mk.injEq]
    constructor
    · rintro ⟨e, hmem, reason, hreason, rfl, rfl⟩
      obtain ⟨id, he⟩ := mem_all.mp hmem
      obtain rfl := hf id e he
      exact ⟨e, he, (hQ e hmem reason).mp hreason⟩
    · rintro ⟨e, he, hq⟩
      have hmem := mem_all.mpr ⟨id, he⟩
      exact ⟨e, hmem, reason, (hQ e hmem reason).mpr hq, hf id e he, rfl⟩
  ordered := pairwise_filterMap hf fun e x hx => by
    obtain ⟨_, -, rfl⟩ := Option.map_eq_some_iff.mp hx
    rfl

end Document

/-- An operation that is refused leaves no trace. -/
theorem Operation.perform_of_refused {σ : Type} {op : Operation}
    {f : Timestamp → Document → Except Error Change} (hp : op.prepare = .ok f) {store : Store σ}
    {now : Timestamp} {d : Document} {w : σ} (hl : store.load now w = .ok d) {e : Error}
    (he : f now d = .error e) (m : Emitter σ) : op.perform store now m w = (.error e, m, w) := by
  have hchange : (do let change ← op.prepare; change now (← store.load now w) :
      Except Error Change) = .error e := by
    rw [hp, hl]
    exact he
  unfold perform
  simp only [hchange]

namespace FileStore

variable {σ : Type} [HasFiles σ] {s : FileStore} {now now' : Timestamp} {m : Emitter σ} {w w' : σ}
  {d d' : Document} {c : Change}

/-- Whether what is delivered to these sinks leaves the state file alone. -/
def SparedBySinks (s : FileStore) (sinks : List (Sink σ)) : Prop :=
  ∀ record w, s.content? (Emitter.deliver sinks record w) = s.content? w

/-- How an operation ends that comes to this change: if it changes nobody, nothing is saved, and
otherwise either its document is in the state file, or the store has said why not. -/
def Commits (s : FileStore) (now : Timestamp) (w : σ) (c : Change)
    (out : Except Error Report × Emitter σ × σ) : Prop :=
  if c.report.entities = [] then out.1 = .ok c.report ∧ out.2.2 = w
  else
    (∃ e, s.store.save now c.document w = (.error e, out.2.2) ∧ out.1 = .error e) ∨
      out.1 = .ok c.report ∧ s.content? out.2.2 = some (c.document.stamp now).text.toUTF8

theorem commits (hm : s.SparedBySinks m.sinks) (c : Change) (now : Timestamp) (w : σ) :
    s.Commits now w c (c.commit s.store now m w) := by
  unfold Commits Change.commit
  by_cases hn : c.report.entities = []
  · simp only [hn, List.isEmpty_nil, if_true, and_self]
  · simp only [hn, List.isEmpty_iff, if_false]
    rcases hs : s.store.save now c.document w with ⟨e | ⟨⟩, w'⟩
    · exact Or.inl ⟨e, rfl, rfl⟩
    · refine Or.inr ⟨rfl, ?_⟩
      rw [content?_flush (by rwa [Emitter.sinks_enqueue])]
      exact content?_save hs

theorem check_of_load {fs : FileSystem} (hl : s.load now fs = .ok d) : d.check = .ok () := by
  rcases load_eq_ok hl with ⟨-, rfl⟩ | ⟨_, -, -, hc⟩
  · exact Document.check_empty now
  · exact hc

theorem load_interrupted (now : Timestamp) :
    atRoot.load now (files (holding Memory.interrupted)) = .ok Memory.interrupted :=
  load_of_read (read_holding _) Memory.ofText_interrupted (by decide +kernel)

end FileStore
end Publishing
