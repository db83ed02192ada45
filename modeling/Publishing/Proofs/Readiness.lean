import Publishing.Proofs.Saving

/-
When a save succeeds.

A save needs the directory of the state file, or has to make it, and must be able to write
both the temporary file and the state file.  Where these are given nothing else is in its way,
and a save that succeeds leaves them behind: so whatever was saved can be saved again.
-/

namespace Publishing

namespace FileNode

theorem lookup_filter_self (name : String) (es : List (String × FileNode)) :
    (es.filter fun e => e.1 ≠ name).lookup name = none := by
  induction es with
  | nil => rfl
  | cons e rest ih =>
    by_cases he : e.1 = name
    · rw [List.filter_cons_of_neg (by simpa using he), ih]
    · have hb : (name == e.1) = false := by simpa using Ne.symm he
      rw [List.filter_cons_of_pos (by simpa using he), List.lookup_cons, hb]
      exact ih

/-- Nothing is left of what was taken away. -/
theorem sight_remove_append (n : FileNode) {place : List String} (hne : place ≠ [])
    (more : List String) : (n.remove place).sight (place ++ more) = .nothing := by
  induction place generalizing n with
  | nil => exact absurd rfl hne
  | cons name rest ih =>
    cases n with
    | file content => rfl
    | directory es =>
      cases rest with
      | nil =>
        show (directory (es.filter fun e => e.1 ≠ name)).sight (name :: more) = _
        rw [sight_directory_cons, lookup_filter_self]
      | cons name' rest =>
        cases hl : es.lookup name with
        | none => rw [remove_of_lookup_none hl, List.cons_append, sight_directory_cons, hl]
        | some child =>
          rw [remove_of_lookup hl, List.cons_append, sight_directory_cons, lookup_putEntry_self]
          exact ih child (List.cons_ne_nil _ _)

end FileNode

namespace FileSystem

variable {fs fs' : FileSystem} {path name : String} {d : Destination}

/-! ## Directories -/

theorem stat_eq_ok {n : FileNode} (h : fs.stat path = .ok n) :
    ∃ d, fs.walk path = .ok d ∧ fs.lookup d = .ok (some n) := by
  unfold stat at h
  cases hf : fs.find path with
  | error fault => rw [hf] at h; cases h
  | ok p =>
    rw [hf] at h
    have hp : p.2 = n := Except.ok.inj h
    obtain ⟨d, hd, hrest⟩ := bind_eq_ok.mp hf
    obtain ⟨found, hl, hfound⟩ := bind_eq_ok.mp hrest
    refine ⟨d, hd, ?_⟩
    split at hfound
    · cases hfound
    · split at hfound
      · cases hfound
      · obtain rfl := Except.ok.inj hfound
        exact hp ▸ hl
    · obtain rfl := Except.ok.inj hfound
      exact hp ▸ hl

theorem isDirectory_iff_lookup : fs.isDirectory path ↔
    ∃ d es, fs.walk path = .ok d ∧ fs.lookup d = .ok (some (.directory es)) := by
  constructor
  · intro h
    unfold isDirectory at h
    split at h
    · next n hn =>
      obtain ⟨d, hd, hl⟩ := stat_eq_ok hn
      cases n with
      | file content => cases h
      | directory es => exact ⟨d, es, hd, hl⟩
    · cases h
  · rintro ⟨d, es, hd, hl⟩
    have hf : fs.find path = .ok (d.place, .directory es) :=
      bind_eq_ok.mpr ⟨d, hd, bind_eq_ok.mpr ⟨_, hl, rfl⟩⟩
    rw [isDirectory, stat, hf]
    rfl

theorem sight_eq_directory {place : List String} :
    fs.root.sight place = .directory ↔ ∃ es, fs.nodeAt? place = some (.directory es) :=
  FileNode.sighted_eq_directory

theorem enters_here {directory place : List String} :
    fs.Enters directory "." place ↔ place = directory := by
  rw [← enter_eq_ok_iff, enter, if_pos rfl]
  exact ⟨fun h => (Except.ok.inj h).symm, fun h => congrArg _ h.symm⟩

theorem enters_above {directory place : List String} :
    fs.Enters directory ".." place ↔ place = directory.dropLast := by
  rw [← enter_eq_ok_iff, enter, if_neg (by decide), if_pos rfl]
  exact ⟨fun h => (Except.ok.inj h).symm, fun h => congrArg _ h.symm⟩

/-- The last part of a path leads to a directory just when it can be entered. -/
theorem lookup_eq_directory {part : String} (hlast : d.last = .ofPiece (some part)) :
    (∃ es, fs.lookup d = .ok (some (.directory es))) ↔
      ∃ place, fs.Enters d.directory part place ∧ fs.root.sight place = .directory := by
  -- the first two parts lead to one place, whatever is there
  have hstanding : ∀ place₀, fs.lookup d = .ok (fs.nodeAt? place₀) →
      (∀ place, fs.Enters d.directory part place ↔ place = place₀) →
      ((∃ es, fs.lookup d = .ok (some (.directory es))) ↔
        ∃ place, fs.Enters d.directory part place ∧ fs.root.sight place = .directory) := by
    intro place₀ hl henters
    rw [hl]
    constructor
    · rintro ⟨es, hes⟩
      exact ⟨place₀, (henters _).mpr rfl, sight_eq_directory.mpr ⟨es, Except.ok.inj hes⟩⟩
    · rintro ⟨place, he, hs⟩
      obtain rfl := (henters place).mp he
      obtain ⟨es, hes⟩ := sight_eq_directory.mp hs
      exact ⟨es, congrArg Except.ok hes⟩
  by_cases hhere : part = "."
  · subst hhere
    refine hstanding d.directory ?_ fun _ => enters_here
    rw [lookup, Destination.place, hlast]
    rfl
  by_cases habove : part = ".."
  · subst habove
    refine hstanding d.directory.dropLast ?_ fun _ => enters_above
    rw [lookup, Destination.place, hlast]
    rfl
  · have hname : LastPart.ofPiece (some part) = .name part := by
      unfold LastPart.ofPiece
      split
      · next heq => cases heq
      · next heq => exact absurd (Option.some.inj heq) hhere
      · next heq => exact absurd (Option.some.inj heq) habove
      · next heq => exact congrArg _ (Option.some.inj heq).symm
    rw [lookup, hlast, hname]
    constructor
    · rintro ⟨es, hl⟩
      obtain ⟨hsize, hes⟩ := entry?_eq_ok.mp hl
      have hs := sight_eq_directory.mpr ⟨es, hes.symm⟩
      exact ⟨_, .descend hhere habove hsize hs, hs⟩
    · rintro ⟨place, he, hs⟩
      cases he with
      | stay => exact absurd rfl hhere
      | climb => exact absurd rfl habove
      | descend _ _ hsize _ =>
        obtain ⟨es, hes⟩ := sight_eq_directory.mp hs
        exact ⟨es, entry?_eq_ok.mpr ⟨hsize, hes.symm⟩⟩

/-- A path leads to a directory when all its parts do, one after the other. -/
theorem isDirectory_iff : fs.isDirectory path ↔ Path.IsText path ∧
    ∃ place, (Path.pieces path).foldlM fs.enter (fs.start path) = .ok place ∧
      fs.root.sight place = .directory := by
  have hwalk : fs.isDirectory path ↔ ∃ d, fs.walk path = .ok d ∧
      ∃ es, fs.lookup d = .ok (some (.directory es)) := by
    rw [isDirectory_iff_lookup]
    exact ⟨fun ⟨d, es, hd, hl⟩ => ⟨d, hd, es, hl⟩, fun ⟨d, hd, es, hl⟩ => ⟨d, es, hd, hl⟩⟩
  rw [hwalk]
  rcases List.eq_nil_or_concat' (Path.pieces path) with hp | ⟨front, part, hp⟩
  · -- the path ends where it begins, at a dot as it were
    have hfold : ∀ place, (Path.pieces path).foldlM fs.enter (fs.start path) = .ok place ↔
        place = fs.start path := by
      rw [hp]
      exact fun place => ⟨fun h => (Except.ok.inj h).symm, fun h => congrArg _ h.symm⟩
    constructor
    · rintro ⟨d, hd, hl⟩
      obtain ⟨htext, hdir, hlast, -⟩ := walk_eq_ok_iff.mp hd
      rw [hp] at hlast hdir
      have hdot : d.last = .ofPiece (some ".") := hlast
      obtain ⟨place, he, hs⟩ := (lookup_eq_directory hdot).mp hl
      obtain rfl := enters_here.mp he
      exact ⟨htext, _, (hfold _).mpr (Except.ok.inj hdir).symm, hs⟩
    · rintro ⟨htext, place, hplace, hs⟩
      refine ⟨⟨place, .ofPiece (some "."), _⟩, walk_eq_ok_iff.mpr ⟨htext, ?_, ?_, rfl⟩,
        (lookup_eq_directory rfl).mpr ⟨place, .stay, hs⟩⟩
      · rw [hp, (hfold place).mp hplace]
        rfl
      · rw [hp]
        rfl
  · rw [hp, List.foldlM_append]
    have henter : ∀ {mid place}, [part].foldlM fs.enter mid = .ok place ↔
        fs.Enters mid part place := by
      intro mid place
      rw [List.foldlM_cons, ← enter_eq_ok_iff]
      exact bind_eq_ok.trans ⟨fun ⟨_, h, he⟩ => Except.ok.inj he ▸ h, fun h => ⟨_, h, rfl⟩⟩
    constructor
    · rintro ⟨d, hd, hl⟩
      obtain ⟨htext, hdir, hlast, -⟩ := walk_eq_ok_iff.mp hd
      rw [hp, List.dropLast_concat] at hdir
      rw [hp, List.getLast?_concat] at hlast
      obtain ⟨place, he, hs⟩ := (lookup_eq_directory hlast).mp hl
      exact ⟨htext, place, bind_eq_ok.mpr ⟨_, hdir, henter.mpr he⟩, hs⟩
    · rintro ⟨htext, place, hplace, hs⟩
      obtain ⟨mid, hmid, he⟩ := bind_eq_ok.mp hplace
      refine ⟨⟨mid, .ofPiece (some part), _⟩, walk_eq_ok_iff.mpr ⟨htext, ?_, ?_, rfl⟩,
        (lookup_eq_directory rfl).mpr ⟨place, henter.mp he, hs⟩⟩
      · rw [hp, List.dropLast_concat]
        exact hmid
      · rw [hp, List.getLast?_concat]

theorem createDirectories_of_isDirectory (h : fs.isDirectory path) :
    fs.createDirectories path = (none, fs) := by
  obtain ⟨d, es, hd, hl⟩ := isDirectory_iff_lookup.mp h
  have hne : path ≠ "" := (isDirectory_iff.mp h).1.2.1
  have hthere : fs.createDirectory path = .error .alreadyExists := by
    unfold createDirectory
    rw [hd]
    show (fs.lookup d >>= _) = _
    rw [hl]
    cases d.last <;> rfl
  unfold createDirectories
  rw [createDirectories.go, if_neg hne, hthere]
  exact congrArg (·, fs) (if_pos h)

/-- Only the text of a path can be made a directory. -/
theorem isText_of_createDirectories (hne : path ≠ "")
    (h : fs.createDirectories path = (none, fs')) : Path.IsText path := by
  have hmade : ∀ {fs fs' : FileSystem}, fs.createDirectory path = .ok fs' → Path.IsText path := by
    intro fs fs' hc
    obtain ⟨d, hd, -⟩ := bind_eq_ok.mp hc
    exact (walk_eq_ok_iff.mp hd).1
  have hthere : ∀ {fs : FileSystem} {fault : FileFault},
      (if fs.isDirectory path then none else some fault) = none → Path.IsText path := by
    intro fs fault hi
    split at hi
    · next hdir => exact (isDirectory_iff.mp hdir).1
    · cases hi
  unfold createDirectories at h
  rw [createDirectories.go, if_neg hne] at h
  split at h
  · next hc => exact hmade hc
  · split at h
    · cases h
    · split at h
      · cases h
      · split at h
        · next hc => exact hmade hc
        · exact hthere (Prod.mk.inj h).1
  · exact hthere (Prod.mk.inj h).1

/-! ## Files -/

/-- A file can be written where there is a place for it, or there is one already. -/
theorem writable_iff (h : Path.EndsIn path name) : (∃ p, fs.writable path = .ok p) ↔
    ∃ d, fs.walk path = .ok d ∧ d.slashed = false ∧ ¬ longestName < name.utf8ByteSize ∧
      fs.root.sight (d.directory ++ [name]) ≠ .directory := by
  constructor
  · rintro ⟨⟨place, content⟩, hw⟩
    obtain ⟨d, hd, rfl, hslashed, hfind⟩ := writable_eq_ok h hw
    obtain ⟨d', hd', hrest⟩ := bind_eq_ok.mp hw
    obtain ⟨n, hl, -⟩ := bind_eq_ok.mp hrest
    exact ⟨d, hd, hslashed, ((lookup_eq_ok h hd').mp hl).1, sight_of_writable hfind⟩
  · rintro ⟨d, hd, hslashed, hsize, hs⟩
    have hl := (lookup_eq_ok h hd).mpr ⟨hsize, rfl⟩
    unfold writable
    rw [hd]
    show ∃ p, (fs.lookup d >>= _) = _
    rw [hl, (place_of_endsIn h hd).1, hslashed]
    rw [FileNode.sight] at hs
    generalize fs.root.find? (d.directory ++ [name]) = n at hs
    cases n with
    | none => exact ⟨_, rfl⟩
    | some n =>
      cases n with
      | file content => exact ⟨_, rfl⟩
      | directory es => exact absurd rfl hs

/-- In a directory, a file is where it was put, and beside it nothing has changed. -/
theorem sight_putAt_file {directory : List String} {t : String}
    (h : fs.root.sight directory = .directory) (content : ByteArray) :
    (fs.putAt (directory ++ [t]) (.file content)).root.sight (directory ++ [t]) = .file content ∧
      ∀ other ≠ t, (fs.putAt (directory ++ [t]) (.file content)).root.sight
        (directory ++ [other]) = fs.root.sight (directory ++ [other]) := by
  constructor
  · have hput := FileNode.sight_put_append (.file content)
      (List.append_ne_nil_of_right_ne_nil directory (List.cons_ne_nil t []))
      (by rw [List.dropLast_concat]; exact h) []
    rwa [List.append_nil] at hput
  · intro other hne
    refine FileNode.sight_put_of_not_below _ _ fun hp => hne ?_
    have heq := hp.eq_of_length (by rw [List.length_append, List.length_append]; rfl)
    exact (List.cons.inj (List.append_cancel_left heq)).1.symm

/-- A file that is there can be moved to where one can be written. -/
theorem exists_rename {source t : String} {d' : Destination} (hs : Path.EndsIn source t)
    (hp : Path.EndsIn path name) (hd : fs.walk source = .ok d) (hd' : fs.walk path = .ok d')
    (hslashed : d.slashed = false) (hslashed' : d'.slashed = false)
    (hsize : ¬ longestName < t.utf8ByteSize) (hsize' : ¬ longestName < name.utf8ByteSize)
    {content : ByteArray} (hfile : fs.root.sight (d.directory ++ [t]) = .file content)
    (hfree : fs.root.sight (d'.directory ++ [name]) ≠ .directory) :
    ∃ fs', fs.rename source path = .ok fs' := by
  have hl := (lookup_eq_ok hs hd).mpr ⟨hsize, rfl⟩
  have hl' := (lookup_eq_ok hp hd').mpr ⟨hsize', rfl⟩
  rw [FileNode.sighted_eq_file.mp hfile] at hl
  rw [FileNode.sight] at hfree
  unfold rename
  rw [hd, hd']
  simp only [bind, Except.bind, (place_of_endsIn hs hd).1, (place_of_endsIn hp hd').1, hl, hl',
    hslashed, hslashed', Bool.false_eq_true, or_self, if_false]
  generalize fs.root.find? (d'.directory ++ [name]) = n at hfree
  cases n with
  | none => exact ⟨_, rfl⟩
  | some n =>
    cases n with
    | file content => exact ⟨_, rfl⟩
    | directory es => exact absurd rfl hfree

end FileSystem

namespace FileStore

open FileSystem

variable {s : FileStore} {name : String} {fs fs' : FileSystem}

/-- Whether nothing is in the way of a save: the directory is there, and both files can be
written. -/
structure IsReady (s : FileStore) (fs : FileSystem) : Prop where
  directory : fs.isDirectory s.directory
  temporary : ∃ p, fs.writable s.temporary = .ok p
  target : ∃ p, fs.writable s.path = .ok p

/-- The parts of the directory lead where the state file is looked for. -/
theorem foldlM_enter_directory (h : Path.EndsIn s.path name) :
    (Path.pieces s.directory).foldlM fs.enter (fs.start s.directory) =
      (Path.names s.path).dropLast.foldlM fs.enter (fs.start s.path) := by
  obtain ⟨-, hsolid, hhead⟩ := directory_spec h
  have hnames : Path.names s.directory = (Path.names s.path).dropLast := by
    show (Path.solid _).map _ = ((Path.solid _).map _).dropLast
    rw [hsolid, List.map_dropLast]
  have hstart : fs.start s.directory = fs.start s.path := by
    rw [start, start, Path.isAbsolute, Path.isAbsolute]
    exact if_congr (by simpa using hhead) rfl rfl
  rw [← foldlM_enter_filter, ← names_eq, hnames, hstart]

theorem isDirectory_directory_iff (h : Path.EndsIn s.path name) {at₀ : Destination}
    (hd : fs.walk s.path = .ok at₀) :
    fs.isDirectory s.directory ↔
      Path.IsText s.directory ∧ fs.root.sight at₀.directory = .directory := by
  rw [isDirectory_iff, foldlM_enter_directory h, directory_of_walk h hd]
  refine and_congr_right fun _ => ⟨?_, fun hs => ⟨_, rfl, hs⟩⟩
  rintro ⟨place, hplace, hs⟩
  exact Except.ok.inj hplace ▸ hs

/-- What readiness comes to: both paths lead into one directory. -/
theorem isReady_iff (h : Path.EndsIn s.path name) : s.IsReady fs ↔ ∃ at₀ aim : Destination,
    fs.walk s.temporary = .ok at₀ ∧ fs.walk s.path = .ok aim ∧ at₀.directory = aim.directory ∧
    (at₀.slashed = false ∧ aim.slashed = false) ∧ Path.IsText s.directory ∧
    (¬ longestName < (temporaryName name).utf8ByteSize ∧ ¬ longestName < name.utf8ByteSize) ∧
    fs.root.sight at₀.directory = .directory ∧
    fs.root.sight (at₀.directory ++ [temporaryName name]) ≠ .directory ∧
    fs.root.sight (at₀.directory ++ [name]) ≠ .directory := by
  obtain ⟨htemp, -, -⟩ := temporary_spec h
  constructor
  · intro hr
    obtain ⟨at₀, hat, hslashed, hsize, hfree⟩ := (writable_iff htemp).mp hr.temporary
    obtain ⟨aim, haim, haimSlashed, haimSize, haimFree⟩ := (writable_iff h).mp hr.target
    have hdir := directory_temporary h hat haim
    obtain ⟨htext, hthere⟩ := (isDirectory_directory_iff h haim).mp hr.directory
    exact ⟨at₀, aim, hat, haim, hdir, ⟨hslashed, haimSlashed⟩, htext, ⟨hsize, haimSize⟩,
      hdir ▸ hthere, hfree, hdir ▸ haimFree⟩
  · rintro ⟨at₀, aim, hat, haim, hdir, ⟨hslashed, haimSlashed⟩, htext, ⟨hsize, haimSize⟩, hthere,
      hfree, haimFree⟩
    exact ⟨(isDirectory_directory_iff h haim).mpr ⟨htext, hdir ▸ hthere⟩,
      (writable_iff htemp).mpr ⟨at₀, hat, hslashed, hsize, hfree⟩,
      (writable_iff h).mpr ⟨aim, haim, haimSlashed, haimSize, hdir ▸ haimFree⟩⟩

/-- Whatever the temporary file holds, a save remains possible. -/
theorem IsReady.putAt (hr : s.IsReady fs) (h : Path.EndsIn s.path name) {at₀ : Destination}
    (hat : fs.walk s.temporary = .ok at₀) (content : ByteArray) :
    s.IsReady (fs.putAt (at₀.directory ++ [temporaryName name]) (.file content)) ∧
      (fs.putAt (at₀.directory ++ [temporaryName name]) (.file content)).root.sight
        (at₀.directory ++ [temporaryName name]) = .file content := by
  obtain ⟨at₁, aim, hat₁, haim, hdir, hslashed, htext, hsize, hthere, hfree, haimFree⟩ :=
    (isReady_iff h).mp hr
  obtain rfl := Except.ok.inj (hat.symm.trans hat₁)
  have hgrows : fs.Grows (temporaryName name)
      (fs.putAt (at₀.directory ++ [temporaryName name]) (.file content)) :=
    grows_putAt_file hfree (by simp) content
  obtain ⟨hself, hother⟩ := sight_putAt_file (t := temporaryName name) hthere content
  refine ⟨(isReady_iff h).mpr ⟨at₀, aim, walk_mono hgrows.toKeeps hat,
    walk_mono hgrows.toKeeps haim, hdir, hslashed, htext, hsize, hgrows.directory _ hthere, ?_, ?_⟩,
    hself⟩
  · rw [hself]
    exact nofun
  · rw [hother name (temporaryName_ne name)]
    exact haimFree

theorem IsReady.create (hr : s.IsReady fs) (h : Path.EndsIn s.path name) :
    ∃ fs', fs.create s.temporary = .ok fs' ∧ s.IsReady fs' := by
  obtain ⟨p, hp⟩ := hr.temporary
  have hc : fs.create s.temporary = .ok (fs.putAt p.1 (.file .empty)) :=
    bind_eq_ok.mpr ⟨p, hp, rfl⟩
  obtain ⟨at₀, hat, -, -, hfs'⟩ := create_eq_ok (temporary_spec h).1 hc
  exact ⟨_, hc, hfs' ▸ (hr.putAt h hat .empty).1⟩

theorem IsReady.append (hr : s.IsReady fs) (h : Path.EndsIn s.path name) (bytes : ByteArray) :
    ∃ fs', fs.append s.temporary bytes = .ok fs' ∧ s.IsReady fs' ∧
      ∃ at₀ content, fs'.walk s.temporary = .ok at₀ ∧
        fs'.root.sight (at₀.directory ++ [temporaryName name]) = .file content := by
  have htemp := (temporary_spec h).1
  obtain ⟨p, hp⟩ := hr.temporary
  have ha : fs.append s.temporary bytes =
      .ok (fs.putAt p.1 (.file (p.2.getD .empty ++ bytes))) := bind_eq_ok.mpr ⟨p, hp, rfl⟩
  obtain ⟨at₀, content, hat, -, -, hfs'⟩ := append_eq_ok htemp ha
  obtain ⟨hr', hfile⟩ := hr.putAt h hat (content.getD .empty ++ bytes)
  have hat' := walk_mono (grows_append htemp ha).toKeeps hat
  rw [← hfs'] at hr' hfile
  exact ⟨_, ha, hr', at₀, _, hat', hfile⟩

/-- Where nothing is in the way, all actions of a save succeed. -/
theorem applyAll_of_isReady (hr : s.IsReady fs) (text : String) :
    ∃ fs', FileAction.applyAll fs (s.saveActions text) = (.ok (), fs') := by
  obtain ⟨p, hp⟩ := hr.target
  obtain ⟨name, h⟩ := endsIn_of_writable hp
  obtain ⟨fs₂, hcreate, hr₂⟩ := hr.create h
  obtain ⟨fs₃, happend, hr₃, at₀, content, hat, hfile⟩ := hr₂.append h text.toUTF8
  obtain ⟨at₁, aim, hat₁, haim, hdir, ⟨hslashed, haimSlashed⟩, -, ⟨hsize, haimSize⟩, -, -,
    haimFree⟩ := (isReady_iff h).mp hr₃
  obtain rfl := Except.ok.inj (hat.symm.trans hat₁)
  obtain ⟨fs', hrename⟩ := exists_rename (temporary_spec h).1 h hat haim hslashed haimSlashed
    hsize haimSize hfile (hdir ▸ haimFree)
  refine ⟨fs', ?_⟩
  unfold saveActions
  refine FileAction.applyAll_cons_ok.mpr ⟨fs, createDirectories_of_isDirectory hr.directory, ?_⟩
  refine FileAction.applyAll_cons_ok.mpr ⟨fs₂, FileAction.create_eq_none.mpr hcreate, ?_⟩
  refine FileAction.applyAll_cons_ok.mpr ⟨fs₃, FileAction.append_eq_none.mpr happend, ?_⟩
  refine FileAction.applyAll_cons_ok.mpr ⟨fs₃, rfl, ?_⟩
  exact FileAction.applyAll_cons_ok.mpr ⟨fs', FileAction.rename_eq_none.mpr hrename, rfl⟩

/-- When all actions of a save have succeeded, nothing is in the way of the next one. -/
theorem isReady_of_saveActions {text : String}
    (hs : FileAction.applyAll fs (s.saveActions text) = (.ok (), fs')) : s.IsReady fs' := by
  obtain ⟨fs₁, fs₂, fs₃, hmade, hcreate, happend, hrename⟩ := applyAll_saveActions hs
  obtain ⟨name, h⟩ := endsIn_of_rename hrename
  obtain ⟨htemp, -, -⟩ := temporary_spec h
  have htext := isText_of_createDirectories (directory_spec h).1 hmade
  obtain ⟨at₀, aim, moved, hat, haim, haimSlashed, haimSize, hsource, htarget, hfs'⟩ :=
    rename_eq_ok htemp h hrename
  have hdir := directory_temporary h hat haim
  have hapart : at₀.directory ++ [temporaryName name] ≠ aim.directory ++ [name] := fun he => by
    rw [hdir] at he
    exact temporaryName_ne name (List.cons.inj (List.append_cancel_left he)).1.symm
  have hfs' := hfs' hapart
  have hkeeps := keeps_rename hsource htarget hfs'
  obtain ⟨at₁, hat₁, hslashed, hsize, -⟩ := (writable_iff htemp).mp
    (bind_eq_ok.mp hcreate |>.imp fun _ hw => hw.1)
  obtain rfl := Except.ok.inj ((walk_mono (grows_append htemp happend).toKeeps
    (walk_mono (grows_create htemp hcreate).toKeeps hat₁)).symm.trans hat)
  have hthere : fs₃.root.sight at₁.directory = .directory :=
    FileNode.sight_of_prefix (by rw [hsource]; exact nofun) (List.cons_ne_nil _ [])
  refine (isReady_iff h).mpr ⟨at₁, aim, walk_mono hkeeps hat, walk_mono hkeeps haim, hdir,
    ⟨hslashed, haimSlashed⟩, htext, ⟨hsize, haimSize⟩, hkeeps.directory _ hthere, ?_, ?_⟩
  · have hnothing := FileNode.sight_remove_append fs₃.root
      (List.append_ne_nil_of_right_ne_nil at₁.directory
        (List.cons_ne_nil (temporaryName name) [])) []
    rw [List.append_nil] at hnothing
    rw [hfs', FileNode.sight_put_of_not_below _ _ fun hp => hapart ?_, hnothing]
    · exact nofun
    · exact (hp.eq_of_length (by rw [hdir, List.length_append, List.length_append]; rfl)).symm
  · rw [hfs', ← hdir, sight_rename hsource]
    exact nofun

variable {now : Timestamp} {d : Document}

theorem save_eq_ok : s.save now d fs = (.ok (), fs') ↔ s.readOnly = false ∧ d.check = .ok () ∧
    FileAction.applyAll fs (s.saveActions (d.stamp now).text) = (.ok (), fs') := by
  cases hr : s.readOnly with
  | true =>
    rw [save, if_pos hr]
    constructor
    · intro h
      cases h
    · rintro ⟨h, -⟩
      cases h
  | false =>
    rw [save, if_neg (by rw [hr]; exact Bool.false_ne_true)]
    cases d.check with
    | error v =>
      constructor
      · intro h
        cases h
      · rintro ⟨-, h, -⟩
        cases h
    | ok u => exact ⟨fun h => ⟨rfl, rfl, h⟩, fun h => h.2.2⟩

/-- A valid document can be saved where nothing is in the way. -/
theorem save_of_isReady (hr : s.IsReady fs) (hw : s.readOnly = false) (hc : d.check = .ok ()) :
    ∃ fs', s.save now d fs = (.ok (), fs') := by
  obtain ⟨fs', hs⟩ := applyAll_of_isReady hr (d.stamp now).text
  exact ⟨fs', save_eq_ok.mpr ⟨hw, hc, hs⟩⟩

/-- Where a document was saved, any valid one can be saved next. -/
theorem save_of_save (hs : s.save now d fs = (.ok (), fs')) {now' : Timestamp} {d' : Document}
    (hc : d'.check = .ok ()) : ∃ fs'', s.save now' d' fs' = (.ok (), fs'') := by
  obtain ⟨hw, -, hs⟩ := save_eq_ok.mp hs
  exact save_of_isReady (isReady_of_saveActions hs) hw hc

end FileStore
end Publishing
