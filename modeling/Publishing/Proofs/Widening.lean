import Publishing.Proofs.Matching
import Publishing.Proofs.Resets

/-
Wider patterns.

One star more in a pattern loses no match, as long as the text has no line feed.  A run of stars
is read in pairs from its left, so a star that comes in changes how the stars behind it are paired.
That is why the star is added in front of a pattern first, by induction over the pairs behind it.
Two stars by themselves match every id without a line feed, and only those.  So a reset with that
pattern is the reset without any, unless an id with a line feed is among those that the latter
changes or reports.
-/

namespace Publishing

namespace Glob

/-- Whether a pattern also stands for every text without a line feed that another stands for. -/
def IsWithin (pattern wide : List Char) : Prop :=
  ∀ text, '\n' ∉ text → Describes pattern text → Describes wide text

variable {pattern wide : List Char} {c : Char}

theorem IsWithin.pair (h : IsWithin pattern wide) :
    IsWithin ('*' :: '*' :: pattern) ('*' :: '*' :: wide) := by
  intro text htext hd
  rw [Describes] at hd ⊢
  obtain ⟨run, rest, rfl, hrun, hrest⟩ := hd
  have hnone : '\n' ∉ rest := fun hmem => htext (List.mem_append_right run hmem)
  exact ⟨run, rest, rfl, hrun, h rest hnone hrest⟩

theorem IsWithin.star (h : IsWithin pattern wide)
    (hpattern : ∀ rest, pattern = '*' :: rest → False)
    (hwide : ∀ rest, wide = '*' :: rest → False) :
    IsWithin ('*' :: pattern) ('*' :: wide) := by
  intro text htext hd
  rw [Describes.eq_2 _ _ hpattern] at hd
  rw [Describes.eq_2 _ _ hwide]
  obtain ⟨run, rest, rfl, hrun, hrest⟩ := hd
  have hnone : '\n' ∉ rest := fun hmem => htext (List.mem_append_right run hmem)
  exact ⟨run, rest, rfl, hrun, h rest hnone hrest⟩

/-- Neither pattern pairs a character that is not a star with what is behind it. -/
theorem IsWithin.cons (h : IsWithin pattern wide) (hc : c ≠ '*') :
    IsWithin (c :: pattern) (c :: wide) := by
  intro text htext hd
  by_cases hmark : c = '?'
  · subst hmark
    rw [Describes] at hd ⊢
    obtain ⟨d, rest, rfl, hd, hrest⟩ := hd
    have hnone : '\n' ∉ rest := fun hmem => htext (List.mem_cons_of_mem d hmem)
    exact ⟨d, rest, rfl, hd, h rest hnone hrest⟩
  · rw [Describes.eq_4 _ _ _ (fun _ hstar _ => hc hstar) hc hmark] at hd ⊢
    obtain ⟨rest, rfl, hrest⟩ := hd
    have hnone : '\n' ∉ rest := fun hmem => htext (List.mem_cons_of_mem c hmem)
    exact ⟨rest, rfl, h rest hnone hrest⟩

/-- One star more in front. -/
theorem isWithin_star (pattern : List Char) : IsWithin pattern ('*' :: pattern) := by
  induction pattern using pairs.induct with
  | case1 rest ih =>
    -- two of the three stars are a pair again, so the new one is in front of the rest
    exact ih.pair
  | case2 c rest hpair ih =>
    intro text htext hd
    by_cases hc : c = '*'
    · subst hc
      have hrest : ∀ rest', rest = '*' :: rest' → False := fun rest' => hpair rest' rfl
      rw [Describes.eq_2 _ _ hrest] at hd
      rw [Describes]
      obtain ⟨run, rest, rfl, -, hrest⟩ := hd
      exact ⟨run, rest, rfl, fun hmem => htext (List.mem_append_left rest hmem), hrest⟩
    · rw [Describes.eq_2 _ _ fun _ h => hc (List.cons.inj h).1]
      exact ⟨[], text, rfl, List.not_mem_nil, hd⟩
  | case3 =>
    intro text _ hd
    rw [Describes.eq_2 _ [] (by simp)]
    exact ⟨[], text, rfl, List.not_mem_nil, hd⟩

/-- One star more anywhere. -/
theorem isWithin_insert (front pattern : List Char) :
    IsWithin (front ++ pattern) (front ++ '*' :: pattern) := by
  induction front using pairs.induct with
  | case1 rest ih => exact ih.pair
  | case2 c rest hpair ih =>
    by_cases hc : c = '*'
    · subst hc
      cases rest with
      | nil => exact isWithin_star ('*' :: pattern)
      | cons d rest =>
        have hd : d ≠ '*' := fun hd => hpair rest rfl (hd ▸ rfl)
        exact ih.star (fun _ h => hd (List.cons.inj h).1) fun _ h => hd (List.cons.inj h).1
    · exact ih.cons hc
  | case3 => exact isWithin_star pattern

/-- Two stars stand for what has no line feed. -/
theorem describes_pair (text : List Char) : Describes ['*', '*'] text ↔ '\n' ∉ text := by
  simp [Describes]

end Glob

namespace ResetFilter

variable {onlyFailed : Bool} {e : Entity}

/-- A filter for two stars is for the ids without a line feed. -/
theorem matches_pair : (ResetFilter.mk (some "**") onlyFailed).Matches e ↔
    '\n' ∉ e.id.toList ∧ (ResetFilter.mk none onlyFailed).Matches e := by
  have hpair : (∀ pattern, some "**" = some pattern →
      ∃ r, Glob.compile? pattern = some r ∧ r.isMatch e.id) ↔ '\n' ∉ e.id.toList := by
    rw [← Glob.describes_pair]
    have hcompile := Glob.compile?_eq "**"
    constructor
    · intro h
      obtain ⟨r, hr, hmatch⟩ := h "**" rfl
      exact (Glob.isMatch_iff_describes hr e.id).mp hmatch
    · intro h pattern hpattern
      obtain rfl := Option.some.inj hpattern
      exact ⟨_, hcompile, (Glob.isMatch_iff_describes hcompile e.id).mpr h⟩
  rw [Matches, Matches]
  exact and_congr hpair (by simp)

end ResetFilter

namespace Entity

variable {e : Entity} {s : Step}

/-- Whether a reset from `s` neither changes an entity nor reports it, if its filter selects it. -/
def EscapesReset (s : Step) (e : Entity) : Prop :=
  (∀ k, ¬ e.FailedBefore s k) ∧ ¬ e.HoldsFrom s

theorem escapesReset_iff :
    e.EscapesReset s ↔ ¬ e.TakesReset s ∧ ∀ reason, ¬ e.EvadesReset s reason := by
  constructor
  · intro ⟨hfailed, hholds⟩
    refine ⟨fun ht => hholds ht.holds, fun reason hevades => ?_⟩
    cases hevades with
    | inl h =>
      obtain ⟨k, hk, -⟩ := h
      exact hfailed k hk
    | inr h => exact hholds h.2.1
  · intro ⟨htakes, hevades⟩
    have hfailed : ∀ k, ¬ e.FailedBefore s k := fun k hk => hevades _ (Or.inl ⟨k, hk, rfl⟩)
    refine ⟨hfailed, fun hholds => htakes ⟨hfailed, fun k hk => ?_, hholds⟩⟩
    exact hevades _ (Or.inr ⟨hfailed, hholds, k, hk, rfl⟩)

theorem IsValid.resetVerdict_of_escapesReset (h : e.IsValid) (now : Timestamp)
    (he : e.EscapesReset s) : e.resetVerdict now s = .untouched := by
  rcases h.resetVerdict_cases now s with ⟨k, hk, -⟩ | ⟨-, ⟨-, hverdict⟩ | ⟨hholds, -⟩⟩
  · exact absurd hk (he.1 k)
  · exact hverdict
  · exact absurd hholds he.2

end Entity

namespace Document

variable {d : Document} {now : Timestamp} {s : Step} {onlyFailed : Bool}

theorem sweep_congr {f g : Entity → Verdict} {message : Nat → String}
    (h : ∀ e ∈ d.all, f e = g e) : d.sweep f message = d.sweep g message := by
  have hentities : d.entities.map (fun _ e => (f e).entity e) =
      d.entities.map fun _ e => (g e).entity e :=
    Keyed.map_congr fun id e he => by rw [h e (mem_all.mpr ⟨id, he⟩)]
  have hchanged : d.all.filter (fun e => (f e).isChanged) =
      d.all.filter fun e => (g e).isChanged :=
    List.filter_congr fun e he => by rw [h e he]
  have hrecords : d.all.flatMap (fun e => (f e).records) = d.all.flatMap fun e => (g e).records :=
    List.flatMap_congr fun e he => by rw [h e he]
  have hskipped : d.all.filterMap (fun e => (f e).skipReason?.map (Skipped.mk e.id)) =
      d.all.filterMap fun e => (g e).skipReason?.map (Skipped.mk e.id) :=
    List.filterMap_congr fun e he => by rw [h e he]
  simp only [sweep, hentities, hchanged, hrecords, hskipped]

/-- The verdict on an entity is that of the reset without a pattern, unless there is a line feed in
the id. -/
theorem verdict_pair (now : Timestamp) (s : Step) (onlyFailed : Bool) (e : Entity) :
    (if ResetFilter.selects (Glob.compile? "**") onlyFailed e then e.resetVerdict now s
      else .untouched) =
    if '\n' ∈ e.id.toList then .untouched
    else if ResetFilter.selects none onlyFailed e then e.resetVerdict now s else .untouched := by
  have hnone : ResetFilter.selects none onlyFailed e ↔
      (ResetFilter.mk none onlyFailed).Matches e :=
    @ResetFilter.selects_iff ⟨none, onlyFailed⟩ e
  have hpair : ResetFilter.selects (Glob.compile? "**") onlyFailed e ↔
      '\n' ∉ e.id.toList ∧ ResetFilter.selects none onlyFailed e :=
    (@ResetFilter.selects_iff ⟨some "**", onlyFailed⟩ e).trans <|
      ResetFilter.matches_pair.trans (and_congr_right fun _ => hnone.symm)
  by_cases hbreak : '\n' ∈ e.id.toList
  · rw [if_pos hbreak, if_neg fun hsel => (hpair.mp hsel).1 hbreak]
  · by_cases hsel : ResetFilter.selects none onlyFailed e
    · rw [if_neg hbreak, if_pos hsel, if_pos (hpair.mpr ⟨hbreak, hsel⟩)]
    · rw [if_neg hbreak, if_neg hsel, if_neg fun h => hsel (hpair.mp h).2]

theorem find?_reset_pair (hd : d.check = .ok ()) (id : String) :
    (d.reset now s (Glob.compile? "**") onlyFailed).document.find? id =
      if '\n' ∈ id.toList then d.find? id
      else (d.reset now s none onlyFailed).document.find? id := by
  rw [reset, reset, find?_document_sweep, find?_document_sweep]
  cases he : d.find? id with
  | none => simp
  | some e =>
    rw [Option.map_some, Option.map_some, verdict_pair, isFiled_of_check hd id e he]
    split <;> rfl

/-- Whether a reset from `s` without a pattern leaves everybody alone that has a line feed in the
id, without a report. -/
def SparesLineFeeds (d : Document) (s : Step) (onlyFailed : Bool) : Prop :=
  ∀ id e, d.find? id = some e → '\n' ∈ id.toList →
    (ResetFilter.mk none onlyFailed).Matches e → e.EscapesReset s

theorem reset_pair (hd : d.check = .ok ()) (h : d.SparesLineFeeds s onlyFailed)
    (now : Timestamp) :
    d.reset now s (Glob.compile? "**") onlyFailed = d.reset now s none onlyFailed := by
  obtain ⟨-, hf, hv⟩ := check_eq_ok_iff.mp hd
  refine sweep_congr fun e hmem => ?_
  obtain ⟨id, he⟩ := mem_all.mp hmem
  rw [verdict_pair]
  by_cases hbreak : '\n' ∈ e.id.toList
  · rw [if_pos hbreak]
    by_cases hsel : ResetFilter.selects none onlyFailed e
    · have hm := (@ResetFilter.selects_iff ⟨none, onlyFailed⟩ e).mp hsel
      have hescapes := h id e he (hf id e he ▸ hbreak) hm
      rw [if_pos hsel, (hv id e he).resetVerdict_of_escapesReset now hescapes]
    · rw [if_neg hsel]
  · rw [if_neg hbreak]

/-- The reports show whether somebody with a line feed in the id was left out. -/
theorem sparesLineFeeds_of_report (hd : d.check = .ok ())
    (h : (d.reset now s (Glob.compile? "**") onlyFailed).report =
      (d.reset now s none onlyFailed).report) : d.SparesLineFeeds s onlyFailed := by
  have hf := isFiled_of_check hd
  have hpair := @alters_reset d now s ⟨some "**", onlyFailed⟩ _ hd rfl
  have hnone := @alters_reset d now s ⟨none, onlyFailed⟩ _ hd rfl
  have hpair' := @passesOver_reset d now s ⟨some "**", onlyFailed⟩ _ hd rfl
  have hnone' := @passesOver_reset d now s ⟨none, onlyFailed⟩ _ hd rfl
  intro id e he hbreak hm
  -- whoever the reset for two stars names or reports has no line feed
  have hleft : ∀ e', d.find? id = some e' →
      ¬ (ResetFilter.mk (some "**") onlyFailed).Matches e' := fun e' he' hmatch =>
    (ResetFilter.matches_pair.mp hmatch).1 (hf id e' he' ▸ hbreak)
  refine Entity.escapesReset_iff.mpr ⟨fun htakes => ?_, fun reason hevades => ?_⟩
  · have hnamed := (hnone.named id).mpr ⟨e, he, hm, htakes⟩
    have hsame : id ∈ (d.reset now s (Glob.compile? "**") onlyFailed).report.entities := by
      rw [h]
      exact hnamed
    obtain ⟨e', he', hmatch, -⟩ := (hpair.named id).mp hsame
    exact hleft e' he' hmatch
  · have hreported := (hnone'.reported ⟨id, reason⟩).mpr ⟨e, he, hm, hevades⟩
    have hsame : ⟨id, reason⟩ ∈ (d.reset now s (Glob.compile? "**") onlyFailed).report.skipped := by
      rw [h]
      exact hreported
    obtain ⟨e', he', hmatch, -⟩ := (hpair'.reported ⟨id, reason⟩).mp hsame
    exact hleft e' he' hmatch

end Document

/-- A reset for two stars does what the reset without a pattern does, but for the entities with a
line feed in the id, which it leaves alone.  So it comes to the same change, or to the same report,
just when the other leaves them alone too, without a report.  And a pattern in which two stars
stand in the place of one matches what it has matched before, but for the ids with a line feed. -/
theorem Operation.reset_widest {name : String} {s : Step} (hs : Step.ofName? name = some s)
    {d : Document} (hd : d.check = .ok ()) (onlyFailed : Bool) (now : Timestamp) :
    (∃ (f g : Timestamp → Document → Except Error Change) (c c' : Change),
      (Operation.reset name ⟨some "**", onlyFailed⟩).prepare = .ok f ∧ f now d = .ok c ∧
      (Operation.reset name ⟨none, onlyFailed⟩).prepare = .ok g ∧ g now d = .ok c' ∧
      (∀ id, c.document.find? id =
        if '\n' ∈ id.toList then d.find? id else c'.document.find? id) ∧
      (c = c' ↔ d.SparesLineFeeds s onlyFailed) ∧
      (c.report = c'.report ↔ d.SparesLineFeeds s onlyFailed)) ∧
    ∀ front back : String, ∃ r wide : Regex,
      Glob.compile? (front ++ "*" ++ back) = some r ∧
      Glob.compile? (front ++ "**" ++ back) = some wide ∧
      ∀ id : String, r.isMatch id → wide.isMatch id ∨ '\n' ∈ id.toList := by
  refine ⟨⟨_, _, _, _, Operation.prepare_reset hs _, rfl, Operation.prepare_reset hs _, rfl,
    Document.find?_reset_pair hd, ?_, ?_⟩, fun front back => ?_⟩
  · constructor
    · intro h
      exact Document.sparesLineFeeds_of_report hd (congrArg Change.report h)
    · intro h
      exact Document.reset_pair hd h now
  · constructor
    · intro h
      exact Document.sparesLineFeeds_of_report hd h
    · intro h
      exact congrArg Change.report (Document.reset_pair hd h now)
  · have hr := Glob.compile?_eq (front ++ "*" ++ back)
    have hwide := Glob.compile?_eq (front ++ "**" ++ back)
    refine ⟨_, _, hr, hwide, fun id hmatch => ?_⟩
    by_cases hbreak : '\n' ∈ id.toList
    · exact Or.inr hbreak
    · rw [Glob.isMatch_iff_describes hr] at hmatch
      rw [Glob.isMatch_iff_describes hwide]
      have hwithin := Glob.isWithin_insert front.toList ('*' :: back.toList) id.toList hbreak
      simp only [String.toList_append, List.append_assoc] at hmatch ⊢
      exact Or.inl (hwithin hmatch)

/-- A document with one entity, which was tracked as finished and has a line feed in its id. -/
def Document.broken : Document :=
  ((Document.empty (.ofSeconds 0)).migrate (.ofSeconds 0) [⟨"a\nb", .null⟩]).document

/-- Nobody in `Document.broken` needs attention, so if only those who do are asked for, two stars
make no difference there. -/
theorem Operation.reset_widest_broken :
    (∃ (f g : Timestamp → Document → Except Error Change) (c : Change),
      (Operation.reset "ingested" ⟨some "**", true⟩).prepare = .ok f ∧
      (Operation.reset "ingested" ⟨none, true⟩).prepare = .ok g ∧
      f (.ofSeconds 0) .broken = .ok c ∧ g (.ofSeconds 0) .broken = .ok c) ∧
    ∃ wide, Glob.compile? ("posts/" ++ "**" ++ "") = some wide ∧ wide.isMatch "posts/a" := by
  have hs : Step.ofName? "ingested" = some .ingested := by decide +kernel
  have hd : Document.broken.check = .ok () := by decide +kernel
  have hcalm : Document.broken.Every fun e => ¬ (e.status = .failed ∨ e.status = .blocked) := by
    decide +kernel
  have hspares : Document.broken.SparesLineFeeds .ingested true :=
    fun id e he _ hm => absurd (hm.2 rfl) (hcalm id e he)
  obtain ⟨⟨f, g, c, c', hf, hc, hg, hc', -, hsame, -⟩, hwide⟩ :=
    Operation.reset_widest hs hd true (.ofSeconds 0)
  refine ⟨⟨f, g, c, hf, hg, hc, ?_⟩, ?_⟩
  · rw [hc', hsame.mpr hspares]
  · obtain ⟨r, wide, hr, hwide, hmatch⟩ := hwide "posts/" ""
    refine ⟨wide, hwide, (hmatch "posts/a" ?_).resolve_right (by decide)⟩
    rw [Glob.isMatch_iff_describes hr, ← Glob.accepts_iff]
    decide +kernel

/-- Without a pattern, and for one star, the entity of `Document.broken` is reset, and for two it
is not. -/
theorem Operation.exists_reset_narrower : Document.broken.check = .ok () ∧
    ∃ (r wide : Regex) (f g h : Timestamp → Document → Except Error Change) (c c' c'' : Change),
      Glob.compile? "*" = some r ∧ r.isMatch "a\nb" ∧
      Glob.compile? "**" = some wide ∧ ¬ wide.isMatch "a\nb" ∧
      (Operation.reset "ingested" ⟨none, false⟩).prepare = .ok f ∧
      f (.ofSeconds 0) .broken = .ok c ∧ c.report.entities = ["a\nb"] ∧
      (Operation.reset "ingested" ⟨some "*", false⟩).prepare = .ok g ∧
      g (.ofSeconds 0) .broken = .ok c' ∧ c'.report.entities = ["a\nb"] ∧
      (Operation.reset "ingested" ⟨some "**", false⟩).prepare = .ok h ∧
      h (.ofSeconds 0) .broken = .ok c'' ∧ c''.report.entities = [] := by
  have hs : Step.ofName? "ingested" = some .ingested := by decide +kernel
  have hone := Glob.compile?_eq "*"
  have htwo := Glob.compile?_eq "**"
  refine ⟨by decide +kernel, _, _, _, _, _, _, _, _, hone, ?_, htwo, ?_,
    Operation.prepare_reset hs _, rfl, by decide +kernel, Operation.prepare_reset hs _, rfl,
    by decide +kernel, Operation.prepare_reset hs _, rfl, by decide +kernel⟩
  · rw [Glob.isMatch_iff_describes hone, ← Glob.accepts_iff]
    decide
  · rw [Glob.isMatch_iff_describes htwo, ← Glob.accepts_iff]
    decide

end Publishing
