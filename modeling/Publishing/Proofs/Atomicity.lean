import Mathlib.Logic.Relation
import Publishing.Proofs.Readiness
import Publishing.Proofs.Rejections

/-
A save that can break off anywhere.

Here the files may fail and the process may die at any point of a save: before an action,
after it, and in the middle of it, with some of the directories made or some of the bytes
written.  Only a rename happens at once or not at all.  `FileAction.MayEnd` says how a list of
actions can end then.  All that can be left behind short of the rename are directories and the
temporary file, so the state file holds what it held, or all of the new text.

One thing about paths is in the way of saying so of the path alone: `x/../y` leads nowhere
without a directory `x`, and to `y` once the save has made one.  What is read there then is
not torn either, but it is an old file and not nothing.
-/

namespace Publishing

/-- Whether a path is another one or leads to a directory above it. -/
def Path.IsAbove (above path : String) : Prop :=
  Relation.ReflTransGen (fun p q => Path.parent? p = some q) path above

/-- Some of the directories that lead to a path, and perhaps its own, have been made. -/
def FileSystem.Prepares (path : String) : FileSystem → FileSystem → Prop :=
  Relation.ReflTransGen fun fs fs' =>
    ∃ above, Path.IsAbove above path ∧ fs.createDirectory above = .ok fs'

namespace FileAction

/-- What an action may leave when it breaks off. -/
inductive Leaves (fs : FileSystem) : FileAction → FileSystem → Prop
  | untouched (a : FileAction) : Leaves fs a fs
  | directories {path : String} {fs' : FileSystem} (h : fs.Prepares path fs') :
      Leaves fs (.createDirectories path) fs'
  | file {path : String} {fs' : FileSystem} (h : fs.create path = .ok fs') :
      Leaves fs (.create path) fs'
  | bytes {path : String} {written rest : ByteArray} {fs' : FileSystem}
      (h : fs.append path written = .ok fs') : Leaves fs (.append path (written ++ rest)) fs'

/-- How actions can end: with a result, or with none when the process dies. -/
inductive MayEnd :
    FileSystem → List FileAction → Option (Except Error Unit) → FileSystem → Prop
  | done (fs : FileSystem) : MayEnd fs [] (some (.ok ())) fs
  | died (fs : FileSystem) (l : List FileAction) : MayEnd fs l none fs
  | torn {fs fs' : FileSystem} {a : FileAction} (h : a.Leaves fs fs') (rest : List FileAction) :
      MayEnd fs (a :: rest) none fs'
  | failed {fs fs' : FileSystem} {a : FileAction} (h : a.Leaves fs fs') (fault : FileFault)
      (rest : List FileAction) : MayEnd fs (a :: rest) (some (.error (.file a.subject fault))) fs'
  | next {fs fs₁ fs' : FileSystem} {a : FileAction} {rest : List FileAction}
      {r : Option (Except Error Unit)} (h : a.apply fs = (none, fs₁))
      (hrest : MayEnd fs₁ rest r fs') : MayEnd fs (a :: rest) r fs'

end FileAction

namespace FileSystem

variable {fs fs' : FileSystem} {path t : String}

theorem Prepares.above {above : String} (hp : Path.parent? path = some above)
    (h : fs.Prepares above fs') : fs.Prepares path fs' := by
  induction h with
  | refl => exact .refl
  | tail _ hc ih =>
    obtain ⟨p, hq, hc⟩ := hc
    exact ih.tail ⟨p, .head hp hq, hc⟩

theorem prepares_of_createDirectory (h : fs.createDirectory path = .ok fs') :
    fs.Prepares path fs' := .single ⟨path, .refl, h⟩

/-- Making directories is one way of having made some. -/
theorem prepares_createDirectories (fs : FileSystem) (path : String) :
    fs.Prepares path (fs.createDirectories path).2 := by
  unfold createDirectories
  generalize path.length + 1 = fuel
  induction fuel generalizing fs path with
  | zero => exact .refl
  | succ fuel ih =>
    unfold createDirectories.go
    split
    · exact .refl
    · split
      · next h => exact prepares_of_createDirectory h
      · split
        · exact .refl
        · next above hp =>
          have habove := (ih fs above).above hp
          split
          · next h => rwa [h] at habove
          · next h =>
            rw [h] at habove
            split
            · next h => exact habove.trans (prepares_of_createDirectory h)
            · exact habove
      · exact .refl

theorem Prepares.grows (h : fs.Prepares path fs') (t : String) : fs.Grows t fs' := by
  induction h with
  | refl => exact .refl t fs
  | tail _ hc ih =>
    obtain ⟨above, -, hc⟩ := hc
    exact ih.trans (grows_createDirectory hc t)

end FileSystem

namespace FileAction

variable {fs fs' : FileSystem} {a : FileAction}

/-- An action that fails breaks off. -/
theorem leaves_of_fault {fault : FileFault} (h : a.apply fs = (some fault, fs')) :
    a.Leaves fs fs' := by
  have hexcept : ∀ {x : Except FileFault FileSystem}, ofExcept fs x = (some fault, fs') →
      fs' = fs := by
    intro x hx
    cases x with
    | ok fs₁ => cases hx
    | error e => exact (Prod.mk.inj hx).2.symm
  cases a with
  | createDirectories path =>
    have hp := fs.prepares_createDirectories path
    rw [show fs.createDirectories path = (some fault, fs') from h] at hp
    exact .directories hp
  | create path => exact hexcept h ▸ .untouched _
  | append path bytes => exact hexcept h ▸ .untouched _
  | sync path => cases h
  | rename path target => exact hexcept h ▸ .untouched _

/-- What actions do when nothing strikes them is one of the ways in which they can end. -/
theorem mayEnd_applyAll (fs : FileSystem) (l : List FileAction) :
    MayEnd fs l (some (applyAll fs l).1) (applyAll fs l).2 := by
  induction l generalizing fs with
  | nil => exact .done fs
  | cons a rest ih =>
    rw [applyAll]
    rcases ha : a.apply fs with ⟨fault | fault, fs₁⟩
    · exact .next ha (ih fs₁)
    · exact .failed (leaves_of_fault ha) fault rest

/-- Before a rename at the end there is what the other actions keep, and after it they have
all succeeded. -/
theorem MayEnd.cases_rename {R : FileSystem → FileSystem → Prop} (hrefl : ∀ fs, R fs fs)
    (htrans : ∀ {fs fs₁ fs₂}, R fs fs₁ → R fs₁ fs₂ → R fs fs₂) {source target : String}
    {l : List FileAction}
    (hl : ∀ a ∈ l, ∀ fs fs', a.Leaves fs fs' ∨ a.apply fs = (none, fs') → R fs fs')
    {r : Option (Except Error Unit)} (h : MayEnd fs (l ++ [.rename source target]) r fs') :
    (r ≠ some (.ok ()) ∧ R fs fs') ∨
      (∀ e, r ≠ some (.error e)) ∧ applyAll fs (l ++ [.rename source target]) = (.ok (), fs') := by
  induction l generalizing fs with
  | nil =>
    cases h with
    | died => exact .inl ⟨nofun, hrefl _⟩
    | torn ht =>
      cases ht
      exact .inl ⟨nofun, hrefl _⟩
    | failed ht =>
      cases ht
      exact .inl ⟨nofun, hrefl _⟩
    | next ha hrest =>
      refine .inr ⟨fun e => ?_, applyAll_cons_ok.mpr ⟨_, ha, ?_⟩⟩
      · cases hrest <;> exact nofun
      · cases hrest <;> rfl
  | cons a rest ih =>
    obtain ⟨ha, hrest⟩ := List.forall_mem_cons.mp hl
    cases h with
    | died => exact .inl ⟨nofun, hrefl _⟩
    | torn ht => exact .inl ⟨nofun, ha _ _ (.inl ht)⟩
    | failed ht => exact .inl ⟨nofun, ha _ _ (.inl ht)⟩
    | next hdone hend =>
      rcases ih hrest hend with ⟨hr, hkeeps⟩ | ⟨hr, hall⟩
      · exact .inl ⟨hr, htrans (ha _ _ (.inr hdone)) hkeeps⟩
      · exact .inr ⟨hr, applyAll_cons_ok.mpr ⟨_, hdone, hall⟩⟩

end FileAction

/-! ## The path of the temporary file -/

namespace Path

/-- Text without slashes goes on with the last part. -/
theorem splitSlashes_append {b : List Char} (hb : '/' ∉ b) (a : List Char) :
    ∃ front last, splitSlashes (a ++ b) = front ++ [last ++ b] := by
  induction a with
  | nil => exact ⟨[], [], splitSlashes_of_not_mem hb⟩
  | cons c rest ih =>
    obtain ⟨front, last, h⟩ := ih
    by_cases hc : c = '/'
    · subst hc
      exact ⟨[] :: front, last, (splitSlashes_slash _).trans (congrArg _ h)⟩
    · cases front with
      | nil => exact ⟨[], c :: last, splitSlashes_cons hc h⟩
      | cons part front => exact ⟨(c :: part) :: front, last, splitSlashes_cons hc h⟩

/-- The last part of a path with such an ending is a name. -/
theorem exists_endsIn {path : String} {a : List Char} (h : path.toList = a ++ ['t', 'm', 'p']) :
    ∃ name, EndsIn path name := by
  obtain ⟨front, last, hsplit⟩ := splitSlashes_append (show '/' ∉ ['t', 'm', 'p'] by decide) a
  have hlast : (splitSlashes path.toList).getLast? = some (last ++ ['t', 'm', 'p']) := by
    rw [h, hsplit, List.getLast?_concat]
  have hend : ∀ {cs : List Char}, cs.getLast? ≠ some 'p' →
      String.ofList (last ++ ['t', 'm', 'p']) ≠ String.ofList cs := by
    intro cs hcs he
    refine hcs ?_
    rw [← String.toList_inj, String.toList_ofList, String.toList_ofList] at he
    rw [← he]
    simp
  refine ⟨String.ofList (last ++ ['t', 'm', 'p']), ?_, hend (by decide), hend (by decide)⟩
  rw [pieces, List.getLast?_map, getLast?_filter hlast (by simp)]
  rfl

end Path

namespace FileStore

open FileSystem

variable {s : FileStore} {name : String} {now : Timestamp} {d : Document} {fs fs' : FileSystem}

/-- The temporary file is never the state file, whatever the path of that is. -/
theorem temporary_ne_path (s : FileStore) : s.temporary ≠ s.path := by
  intro he
  have hjoin : ∀ path more : String, ∃ a, (Path.join path more).toList = a ++ more.toList := by
    intro path more
    unfold Path.join
    split
    · exact ⟨[], rfl⟩
    · split
      · exact ⟨_, String.toList_append⟩
      · exact ⟨_, String.toList_append⟩
  have hend : ∃ a, s.temporary.toList = a ++ ['t', 'm', 'p'] := by
    obtain ⟨a, ha⟩ := hjoin s.directory
      ("." ++ (Path.fileName? s.path).getD "state.json" ++ ".tmp")
    refine ⟨a ++ ("." ++ (Path.fileName? s.path).getD "state.json" ++ ".").toList, ?_⟩
    rw [temporary, ha, String.toList_append, String.toList_append]
    simp
  obtain ⟨a, hend⟩ := hend
  rw [he] at hend
  obtain ⟨name, h⟩ := Path.exists_endsIn hend
  -- both paths end in the same name then
  have htemp := (temporary_spec h).1
  rw [he] at htemp
  exact temporaryName_ne name (Option.some.inj (h.1.symm.trans htemp.1))

/-! ## Saves that break off -/

/-- What a save does, if it does anything. -/
def plan (s : FileStore) (now : Timestamp) (d : Document) : Except Error (List FileAction) :=
  if s.readOnly then .error (.file s.path .readOnlyStore)
  else
    match d.check with
    | .error v => .error (.corruptState s.path (.unsavable v))
    | .ok () => .ok (s.saveActions (d.stamp now).text)

theorem save_eq_plan (s : FileStore) (now : Timestamp) (d : Document) (fs : FileSystem) :
    s.save now d fs =
      match s.plan now d with
      | .error e => (.error e, fs)
      | .ok l => FileAction.applyAll fs l := by
  unfold save plan
  split
  · rfl
  · cases d.check <;> rfl

theorem plan_eq_ok {l : List FileAction} : s.plan now d = .ok l ↔
    s.readOnly = false ∧ d.check = .ok () ∧ l = s.saveActions (d.stamp now).text := by
  unfold plan
  by_cases hr : s.readOnly
  · rw [if_pos hr]
    exact ⟨nofun, fun h => absurd (hr.symm.trans h.1) nofun⟩
  · rw [if_neg hr]
    cases d.check with
    | error v => exact ⟨nofun, nofun⟩
    | ok u =>
      exact ⟨fun h => ⟨Bool.eq_false_iff.mpr hr, rfl, (Except.ok.inj h).symm⟩,
        fun h => congrArg _ h.2.2.symm⟩

/-- How a save can end, with a result or with the death of the process. -/
inductive MaySave (s : FileStore) (now : Timestamp) (d : Document) (fs : FileSystem) :
    Option (Except Error Unit) → FileSystem → Prop
  | unstarted : MaySave s now d fs none fs
  | refused {e : Error} (h : s.plan now d = .error e) : MaySave s now d fs (some (.error e)) fs
  | started {l : List FileAction} {r : Option (Except Error Unit)} {fs' : FileSystem}
      (h : s.plan now d = .ok l) (hend : FileAction.MayEnd fs l r fs') : MaySave s now d fs r fs'

/-- What a save does when nothing strikes it is one of the ways in which it can end. -/
theorem maySave_save (s : FileStore) (now : Timestamp) (d : Document) (fs : FileSystem) :
    s.MaySave now d fs (some (s.save now d fs).1) (s.save now d fs).2 := by
  rw [save_eq_plan]
  cases hp : s.plan now d with
  | error e => exact .refused hp
  | ok l => exact .started hp (FileAction.mayEnd_applyAll fs l)

/-- What actions before the rename keep, whether they are done or break off. -/
theorem leaves_keeps {R : FileSystem → FileSystem → Prop} (hrefl : ∀ fs, R fs fs)
    (hdirs : ∀ {fs fs' : FileSystem}, fs.Prepares s.directory fs' → R fs fs')
    (hcreate : ∀ {fs fs' : FileSystem}, fs.create s.temporary = .ok fs' → R fs fs')
    (happend : ∀ {fs fs' : FileSystem} {bytes},
      fs.append s.temporary bytes = .ok fs' → R fs fs') {bytes : ByteArray} :
    ∀ a ∈ [FileAction.createDirectories s.directory, .create s.temporary,
      .append s.temporary bytes, .sync s.temporary],
      ∀ fs fs', a.Leaves fs fs' ∨ a.apply fs = (none, fs') → R fs fs' := by
  rintro a ha fs fs' (hl | hdone)
  · simp only [List.mem_cons, List.not_mem_nil, or_false] at ha
    cases hl with
    | untouched => exact hrefl fs
    | directories h =>
      obtain ⟨rfl⟩ : _ = s.directory := by simpa using ha
      exact hdirs h
    | file h =>
      obtain ⟨rfl⟩ : _ = s.temporary := by simpa using ha
      exact hcreate h
    | bytes h =>
      obtain ⟨rfl, -⟩ : _ = s.temporary ∧ _ := by simpa using ha
      exact happend h
  · have hkeeps := apply_keeps hrefl (fun fs => hdirs (fs.prepares_createDirectories _)) hcreate
      happend a ha fs
    rwa [hdone] at hkeeps

/-- Whether the state file is spared: unless its path strays what is read there is the same, or
still nothing, and in any case what can be read was there before, at the place that the path
leads to. -/
structure Spares (s : FileStore) (fs fs' : FileSystem) : Prop where
  same : ¬ fs.Strays s.path → (fs'.read s.path).toOption = (fs.read s.path).toOption
  found : ∀ content, fs'.read s.path = .ok content →
    ∃ at₀, fs'.walk s.path = .ok at₀ ∧ fs.root.sight at₀.place = .file content

theorem spares_of_grows (h : Path.EndsIn s.path name) (hg : fs.Grows (temporaryName name) fs') :
    s.Spares fs fs' := by
  refine ⟨fun hstrays => read_of_grows h (temporaryName_ne name) hg ?_, fun content hread => ?_⟩
  · by_cases hclimbs : ".." ∈ Path.pieces s.path
    · exact Or.inr (not_forall_not.mp fun hall => hstrays ⟨hclimbs, hall⟩)
    · exact Or.inl hclimbs
  · obtain ⟨at₀, hat, -, -, hs⟩ := (read_eq_ok_iff h).mp hread
    refine ⟨at₀, hat, ?_⟩
    rw [(place_of_endsIn h hat).2]
    exact (hg.file _ (by simpa using temporaryName_ne name) content).mp hs

theorem spares_of_keeps (h : ∀ name, ¬ Path.EndsIn s.path name) (hw : fs.HasWorkingDirectory)
    (hk : fs.Keeps fs') : s.Spares fs fs' := by
  have hnone := read_of_not_endsIn h (hk.hasWorkingDirectory hw)
  refine ⟨fun _ => hnone.trans (read_of_not_endsIn h hw).symm, fun content hread => ?_⟩
  rw [hread] at hnone
  cases hnone

theorem spares_refl (s : FileStore) (hw : fs.HasWorkingDirectory) : s.Spares fs fs := by
  by_cases hends : ∃ name, Path.EndsIn s.path name
  · obtain ⟨name, hends⟩ := hends
    exact spares_of_grows hends (Grows.refl _ fs)
  · exact spares_of_keeps (not_exists.mp hends) hw (Grows.refl "" fs).toKeeps

/-- Actions that do not come to the rename spare the state file, and otherwise they have all
succeeded. -/
theorem spares_of_mayEnd (hw : fs.HasWorkingDirectory) {text : String}
    {r : Option (Except Error Unit)} (h : FileAction.MayEnd fs (s.saveActions text) r fs') :
    (r ≠ some (.ok ()) ∧ s.Spares fs fs') ∨ (∀ e, r ≠ some (.error e)) ∧
      FileAction.applyAll fs (s.saveActions text) = (.ok (), fs') := by
  by_cases hends : ∃ name, Path.EndsIn s.path name
  · obtain ⟨name, hends⟩ := hends
    obtain ⟨htemp, -, -⟩ := temporary_spec hends
    refine (h.cases_rename (R := FileSystem.Grows (temporaryName name)) (Grows.refl _) Grows.trans
      (leaves_keeps (Grows.refl _) (fun h => h.grows _) (grows_create htemp)
        (grows_append htemp))).imp_left fun ⟨hr, hg⟩ => ⟨hr, spares_of_grows hends hg⟩
  · have hrefl : ∀ fs : FileSystem, fs.Keeps fs := fun fs => (Grows.refl "" fs).toKeeps
    refine (h.cases_rename (R := FileSystem.Keeps) hrefl Keeps.trans
      (leaves_keeps hrefl (fun h => (h.grows "").toKeeps) keeps_create keeps_append)).imp_left
        fun ⟨hr, hk⟩ => ⟨hr, spares_of_keeps (not_exists.mp hends) hw hk⟩

/-- Wherever a save breaks off, the state file is spared or holds all of the new text: it is
spared if the save reports an error, and it holds the new text if the save succeeds.  What
cannot be saved changes nothing at all. -/
theorem atomic_of_maySave (hw : fs.HasWorkingDirectory) {r : Option (Except Error Unit)}
    (h : s.MaySave now d fs r fs') :
    s.temporary ≠ s.path ∧
    (s.readOnly ∨ d.check ≠ .ok () → fs' = fs) ∧
    ((r ≠ some (.ok ()) ∧ s.Spares fs fs') ∨ (∀ e, r ≠ some (.error e)) ∧ d.check = .ok () ∧
      fs'.read s.path = .ok (d.stamp now).text.toUTF8) := by
  refine ⟨s.temporary_ne_path, fun hbad => ?_, ?_⟩
  · cases h with
    | unstarted | refused => rfl
    | started hp =>
      obtain ⟨hr, hc, -⟩ := plan_eq_ok.mp hp
      rcases hbad with hro | hinvalid
      · exact absurd (hr.symm.trans hro) nofun
      · exact absurd hc hinvalid
  · cases h with
    | unstarted => exact .inl ⟨nofun, s.spares_refl hw⟩
    | refused hp => exact .inl ⟨nofun, s.spares_refl hw⟩
    | started hp hend =>
      obtain ⟨-, hc, rfl⟩ := plan_eq_ok.mp hp
      exact (spares_of_mayEnd hw hend).imp_right fun ⟨hr, hall⟩ => ⟨hr, hc, read_saveActions hall⟩

/-- A file system with a state file and nothing else. -/
def aged : FileSystem := ⟨.directory [("state.json", .file "old".toUTF8)], [], "/"⟩

/-- The same one with a temporary file beside it. -/
def interrupted (bytes : ByteArray) : FileSystem :=
  ⟨.directory [("state.json", .file "old".toUTF8), (".state.json.tmp", .file bytes)], [], "/"⟩

theorem leaves_interrupted (written rest : ByteArray) :
    FileAction.Leaves (interrupted .empty) (.append atRoot.temporary (written ++ rest))
      (interrupted (.empty ++ written)) := .bytes rfl

/-- The process dies when all but the last byte is written, and the old file is still there. -/
theorem atomic_of_maySave_aged : aged.HasWorkingDirectory ∧
    ∃ fs', atRoot.MaySave (.ofSeconds 0) (.empty (.ofSeconds 0)) aged none fs' ∧
      (fs'.read atRoot.path).toOption = some "old".toUTF8 := by
  have hw : aged.HasWorkingDirectory := rfl
  let written := ((Document.empty (.ofSeconds 0)).stamp (.ofSeconds 0)).toJson.pretty.toUTF8
  have hmay : atRoot.MaySave (.ofSeconds 0) (.empty (.ofSeconds 0)) aged none
      (interrupted (.empty ++ written)) :=
    .started (plan_eq_ok.mpr ⟨rfl, Document.check_empty _, rfl⟩)
      (.next rfl (.next rfl (.torn (leaves_interrupted written "\n".toUTF8) _)))
  refine ⟨hw, _, hmay, ?_⟩
  obtain ⟨-, -, ⟨-, hspared⟩ | ⟨-, -, hnew⟩⟩ := atomic_of_maySave hw hmay
  · have hstrays : ¬ aged.Strays atRoot.path := fun h => absurd h.1 (by decide +kernel)
    have hread : (aged.read atRoot.path).toOption = some "old".toUTF8 := rfl
    exact (hspared.same hstrays).trans hread
  · have hread : (interrupted (.empty ++ written)).read atRoot.path = .ok "old".toUTF8 := rfl
    have hdiffer : "old".toUTF8 ≠
        ((Document.empty (.ofSeconds 0)).stamp (.ofSeconds 0)).text.toUTF8 := by decide +kernel
    exact absurd (Except.ok.inj (hread.symm.trans hnew)) hdiffer

/-- The path of this store leads nowhere in a file system without a directory `x`. -/
def climbing : FileStore := ⟨"x/../state.json", false⟩

/-- An old state file, and a directory where the temporary file should be. -/
def obstructed : FileSystem :=
  ⟨.directory [(".state.json.tmp", .directory []), ("state.json", .file "old".toUTF8)], [], "/"⟩

/-- A save that fails can let a path lead to an old file that it did not lead to. -/
theorem not_forall_maySave : ¬ ∀ (s : FileStore) (now : Timestamp) (d : Document)
    (fs fs' : FileSystem) (r : Option (Except Error Unit)), fs.HasWorkingDirectory →
    s.MaySave now d fs r fs' →
    (fs'.read s.path).toOption = (fs.read s.path).toOption ∨
      fs'.read s.path = .ok (d.stamp now).text.toUTF8 := by
  intro h
  have hsave := h climbing (.ofSeconds 0) (.empty (.ofSeconds 0)) obstructed _ _ rfl
    (maySave_save climbing (.ofSeconds 0) (.empty (.ofSeconds 0)) obstructed)
  have hbefore : (obstructed.read climbing.path).toOption = none := by decide +kernel
  have hafter : (climbing.save (.ofSeconds 0) (.empty (.ofSeconds 0)) obstructed).2.read
      climbing.path = .ok "old".toUTF8 := by decide +kernel
  rw [hbefore, hafter] at hsave
  rcases hsave with hsave | hsave
  · cases hsave
  · have hnew : "old".toUTF8 ≠
        ((Document.empty (.ofSeconds 0)).stamp (.ofSeconds 0)).text.toUTF8 := by decide +kernel
    exact hnew (Except.ok.inj hsave)

end FileStore
end Publishing
