import Publishing.Proofs.Moves

/-
What lasts.

Something is said of one entity at a time.  If it is so of every entity that comes to be tracked,
if no change of the entity breaks it, and if it is so of what is read back too, then it is so of
all entities on disk after any history.  All that is to be shown of it is about one change of one
entity, whatever operation or phase of a run the change belongs to.
-/

namespace Publishing

/-- Whether something is so of an entity from the first, and goes on to be so. -/
structure Entity.IsLasting (P : Entity → Prop) : Prop where
  tracked {now : Timestamp} {id : String} {e : Entity} {records : List AuditRecord}
    (h : Tracked now id e records) : P e
  changed {now : Timestamp} {c : AttemptChange} {e e' : Entity} {records : List AuditRecord}
    (he : P e) (h : e.Changed now c e' records) : P e'
  reads {e e' : Entity} (he : P e) (h : e.ReadsBack e') : P e'

namespace Entity.IsLasting

open Document

variable {P : Entity → Prop} {d d' : Document} {now : Timestamp}

theorem changes (hP : IsLasting P) {L : AttemptChange → Prop} {records : List AuditRecord}
    (h : Changes now L d records d') (hd : d.Every P) : d'.Every P := by
  induction h with
  | done d => exact hd
  | change he _ h _ ih => exact ih (hd.replace (hP.changed (hd _ _ he) h))
  | track _ h _ ih => exact ih (hd.insert (hP.tracked h))

theorem moves (hP : IsLasting P) (h : d.MovesTo d') (hd : d.Every P) : d'.Every P := by
  cases h with
  | blocked now => exact hP.changes (changes_blockStuck (L := fun _ => True) now trivial d) hd
  | selected now s hf =>
    exact hP.changes (changes_select (L := fun _ => True) now trivial s hf) hd
  | @marked _ d' _ _ _ _ _ _ hw hm =>
    have hmarked : d'.Every P :=
      hP.changes (changes_markEach (L := fun _ => True) trivial hw hm) hd
    exact hmarked
  | @folded _ d' _ _ _ _ _ _ _ _ tally _ _ hw hm hf =>
    have hmarked : d'.Every P :=
      hP.changes (changes_markEach (L := fun _ => True) trivial hw hm) hd
    have hfolded : tally.document.Every P := hP.changes (changes_folded hw hm hf).1 hmarked
    exact hfolded
  | closed => exact hd

theorem becomes (hP : IsLasting P) (h : d.MayBecome d') (hd : d.Every P) : d'.Every P := by
  cases h with
  | changed hm => exact hP.changes hm.changes hd
  | moved h =>
    induction h with
    | refl => exact hd
    | tail _ h ih => exact hP.moves h ih

theorem readsBack (hP : IsLasting P) (h : d.ReadsBack d') (hd : d.Every P) : d'.Every P := by
  intro id e he
  obtain ⟨e₀, he₀, hread⟩ := h.related.left he
  exact hP.reads (hd id e₀ he₀) hread

theorem load (hP : IsLasting P) {σ : Type} {S : Site σ} {w : σ}
    (hw : ∀ text, S.text? w = some text → ∃ b : Document, text = b.text ∧ b.Every P)
    (hl : S.store.load now w = .ok d) : d.Every P := by
  cases S.load_ok hl with
  | inl h =>
    obtain ⟨-, rfl⟩ := h
    intro id e he
    rw [find?_empty] at he
    cases he
  | inr h =>
    obtain ⟨t, ht, hd, -⟩ := h
    obtain ⟨b, rfl, hb⟩ := hw t ht
    exact hP.readsBack (readsBack_of_ofText hd) hb

/-- What follows of what lasts is so of the document on disk after any history, and of what is read
there. -/
theorem every_of_history (hP : IsLasting P) {Q : Entity → Prop} (hQ : ∀ e, P e → Q e) {σ : Type}
    {S : Site σ} {h : List Episode} {t : String} (hh : S.History h (some t)) :
    (∃ d : Document, t = d.text ∧ d.Every Q) ∧ ∀ d, Document.ofText t = .ok d → d.Every Q := by
  have hdisk : ∀ text, some t = some text → ∃ d : Document, text = d.text ∧ d.Every P := by
    refine hh.induct_writes (P := fun t => ∀ text, t = some text →
      ∃ d : Document, text = d.text ∧ d.Every P) nofun fun w t hbefore hwrites => ?_
    cases hwrites with
    | nothing => exact hbefore
    | @document now time d d' load becomes =>
      intro text htext
      obtain rfl := Option.some.inj htext
      have hd' : d'.Every P := hP.becomes becomes (hP.load hbefore load)
      exact ⟨d'.stamp time, rfl, hd'⟩
  obtain ⟨d, rfl, hd⟩ := hdisk t rfl
  refine ⟨⟨d, rfl, fun id e he => hQ e (hd id e he)⟩, fun d' hd' id e he => hQ e ?_⟩
  exact hP.readsBack (readsBack_of_ofText hd') hd id e he

end Entity.IsLasting
end Publishing
