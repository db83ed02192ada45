import Publishing.Proofs.Beside
import Publishing.Proofs.Histories

/-
What a save of a file store does to the state file.

All that a save changes before its last action, the rename, are directories that it makes
and the temporary file.  So a save that fails leaves the state file as it was, and one that
succeeds leaves exactly the text of the document in it.
-/

namespace Publishing

namespace FileSystem

variable {fs fs' : FileSystem} {path name t : String} {d : Destination}

theorem names_eq (path : String) : Path.names path = (Path.pieces path).filter (· ≠ ".") := by
  rw [Path.names, Path.pieces, List.filter_map, List.filter_filter]
  congr 1
  refine List.filter_congr fun p _ => ?_
  have hdot : String.ofList p = "." ↔ p = ['.'] := by
    rw [← String.toList_inj, String.toList_ofList]
    rfl
  simp [Function.comp, hdot, Bool.and_comm]

theorem foldlM_enter_filter (parts : List String) (directory : List String) :
    (parts.filter (· ≠ ".")).foldlM fs.enter directory = parts.foldlM fs.enter directory := by
  induction parts generalizing directory with
  | nil => rfl
  | cons part rest ih =>
    by_cases hp : part = "."
    · rw [List.filter_cons_of_neg (by simpa using hp), ih, List.foldlM_cons,
        enter_eq_ok_iff.mpr (hp ▸ Enters.stay)]
      rfl
    · rw [List.filter_cons_of_pos (by simpa using hp), List.foldlM_cons, List.foldlM_cons]
      exact congrArg _ (funext ih)

/-- The directory of a path depends on its names alone. -/
theorem directory_of_walk (h : Path.EndsIn path name) (hd : fs.walk path = .ok d) :
    (Path.names path).dropLast.foldlM fs.enter (fs.start path) = .ok d.directory := by
  rw [names_eq, ← Path.dropLast_filter h.1 (by simpa using h.2.1), foldlM_enter_filter]
  exact (walk_eq_ok_iff.mp hd).2.1

/-! ## The single actions -/

theorem grows_createDirectory (h : fs.createDirectory path = .ok fs') (t : String) :
    fs.Grows t fs' := by
  obtain ⟨d, -, hrest⟩ := bind_eq_ok.mp h
  obtain ⟨n, hl, hn⟩ := bind_eq_ok.mp hrest
  split at hn
  · next s hlast =>
    obtain rfl := Except.ok.inj hn
    refine grows_putAt_directory (FileNode.sighted_eq_nothing.mpr ?_)
    rw [lookup, hlast] at hl
    rw [Destination.place, hlast]
    exact (entry?_eq_ok.mp hl).2.symm
  · cases hn

theorem grows_createDirectories (fs : FileSystem) (path t : String) :
    fs.Grows t (fs.createDirectories path).2 := by
  unfold createDirectories
  generalize path.length + 1 = fuel
  induction fuel generalizing fs path with
  | zero => exact .refl t fs
  | succ fuel ih =>
    unfold createDirectories.go
    split
    · exact .refl t fs
    · split
      · next h => exact grows_createDirectory h t
      · split
        · exact .refl t fs
        · next above _ =>
          have habove := ih fs above
          split
          · next h => rwa [h] at habove
          · next h =>
            rw [h] at habove
            split
            · next h => exact habove.trans (grows_createDirectory h t)
            · exact habove
      · exact .refl t fs

theorem writable_eq_ok (h : Path.EndsIn path name) {place : List String}
    {content : Option ByteArray} (hw : fs.writable path = .ok (place, content)) :
    ∃ d, fs.walk path = .ok d ∧ place = d.directory ++ [name] ∧ d.slashed = false ∧
      fs.root.find? place = content.map .file := by
  obtain ⟨d, hd, hrest⟩ := bind_eq_ok.mp hw
  obtain ⟨n, hl, hn⟩ := bind_eq_ok.mp hrest
  obtain ⟨hlast, hplace⟩ := place_of_endsIn h hd
  obtain ⟨-, rfl⟩ := (lookup_eq_ok h hd).mp hl
  rw [← hplace] at hn
  split at hn
  · next hslashed hfind =>
    obtain ⟨rfl, rfl⟩ := Prod.mk.inj (Except.ok.inj hn)
    exact ⟨d, hd, hplace, hslashed, hfind⟩
  · next hslashed hfind =>
    obtain ⟨rfl, rfl⟩ := Prod.mk.inj (Except.ok.inj hn)
    exact ⟨d, hd, hplace, hslashed, hfind⟩
  · cases hn

theorem endsIn_of_writable {p : List String × Option ByteArray} (hw : fs.writable path = .ok p) :
    ∃ name, Path.EndsIn path name := by
  obtain ⟨d, hd, hrest⟩ := bind_eq_ok.mp hw
  obtain ⟨n, -, hn⟩ := bind_eq_ok.mp hrest
  cases hlast : d.last with
  | name name => exact ⟨name, endsIn_of_last hd hlast⟩
  | here | above => rw [hlast] at hn; cases hn

theorem sight_of_writable {place : List String} {content : Option ByteArray}
    (h : fs.root.find? place = content.map .file) : fs.root.sight place ≠ .directory := by
  rw [FileNode.sight, h]
  cases content <;> exact Sight.noConfusion

theorem create_eq_ok (h : Path.EndsIn path name) (hc : fs.create path = .ok fs') :
    ∃ d, fs.walk path = .ok d ∧ d.slashed = false ∧
      fs.root.sight (d.directory ++ [name]) ≠ .directory ∧
      fs' = fs.putAt (d.directory ++ [name]) (.file .empty) := by
  obtain ⟨⟨place, content⟩, hw, hput⟩ := bind_eq_ok.mp hc
  obtain ⟨d, hd, rfl, hslashed, hfind⟩ := writable_eq_ok h hw
  exact ⟨d, hd, hslashed, sight_of_writable hfind, (Except.ok.inj hput).symm⟩

theorem append_eq_ok (h : Path.EndsIn path name) {bytes : ByteArray}
    (ha : fs.append path bytes = .ok fs') :
    ∃ d, ∃ content : Option ByteArray, fs.walk path = .ok d ∧ d.slashed = false ∧
      fs.root.find? (d.directory ++ [name]) = content.map .file ∧
      fs' = fs.putAt (d.directory ++ [name]) (.file (content.getD .empty ++ bytes)) := by
  obtain ⟨⟨place, content⟩, hw, hput⟩ := bind_eq_ok.mp ha
  obtain ⟨d, hd, rfl, hslashed, hfind⟩ := writable_eq_ok h hw
  exact ⟨d, content, hd, hslashed, hfind, (Except.ok.inj hput).symm⟩

theorem grows_create (h : Path.EndsIn path t) (hc : fs.create path = .ok fs') :
    fs.Grows t fs' := by
  obtain ⟨d, -, -, hs, rfl⟩ := create_eq_ok h hc
  exact grows_putAt_file hs (by simp) _

theorem grows_append (h : Path.EndsIn path t) {bytes : ByteArray}
    (ha : fs.append path bytes = .ok fs') : fs.Grows t fs' := by
  obtain ⟨d, content, -, -, hfind, rfl⟩ := append_eq_ok h ha
  exact grows_putAt_file (sight_of_writable hfind) (by simp) _

theorem keeps_create (hc : fs.create path = .ok fs') : fs.Keeps fs' := by
  obtain ⟨p, hw, -⟩ := bind_eq_ok.mp hc
  obtain ⟨name, h⟩ := endsIn_of_writable hw
  exact (grows_create h hc).toKeeps

theorem keeps_append {bytes : ByteArray} (ha : fs.append path bytes = .ok fs') : fs.Keeps fs' := by
  obtain ⟨p, hw, -⟩ := bind_eq_ok.mp ha
  obtain ⟨name, h⟩ := endsIn_of_writable hw
  exact (grows_append h ha).toKeeps

/-- A file that has been put at a place holds what was put there. -/
theorem sight_eq_of_putAt {place : List String} {content found : ByteArray}
    (h : fs' = fs.putAt (place ++ [t]) (.file content))
    (hfound : fs'.root.sight (place ++ [t]) = .file found) : content = found := by
  have hne : place ++ [t] ≠ [] := List.append_ne_nil_of_right_ne_nil place (List.cons_ne_nil t [])
  have hput : fs'.root = fs.root.put (.file content) (place ++ [t]) := congrArg _ h
  rw [hput] at hfound
  by_cases hd : fs.root.sight (place ++ [t]).dropLast = .directory
  · have hat := FileNode.sight_put_append (.file content) hne hd []
    rw [List.append_nil, hfound] at hat
    exact (Sight.file.inj hat).symm
  · have hat := FileNode.sight_put_append_of_ne _ (.file content) hne hd []
    rw [List.append_nil, hfound] at hat
    cases hat

/-- Nothing is moved but to a path that ends in a name. -/
theorem endsIn_of_rename {source : String} (hr : fs.rename source path = .ok fs') :
    ∃ name, Path.EndsIn path name := by
  obtain ⟨d, hd, hrest⟩ := bind_eq_ok.mp hr
  obtain ⟨d', hd', hrest⟩ := bind_eq_ok.mp hrest
  cases hlast : d'.last with
  | name name => exact ⟨name, endsIn_of_last hd' hlast⟩
  | here | above =>
    rw [hlast] at hrest
    cases hsource : d.last with
    | name s => rw [hsource] at hrest; cases hrest
    | here | above => rw [hsource] at hrest; cases hrest

/-- What a rename moves is found at its target, if the target has a directory. -/
theorem rename_eq_ok {source : String} (hs : Path.EndsIn source t) (ht : Path.EndsIn path name)
    (hr : fs.rename source path = .ok fs') : ∃ d d' content,
      fs.walk source = .ok d ∧ fs.walk path = .ok d' ∧ d'.slashed = false ∧
      ¬ longestName < name.utf8ByteSize ∧
      fs.root.sight (d.directory ++ [t]) = .file content ∧
      fs.root.sight (d'.directory ++ [name]) ≠ .directory ∧
      (d.directory ++ [t] ≠ d'.directory ++ [name] → fs' = { fs with
        root := (fs.root.remove (d.directory ++ [t])).put (.file content)
          (d'.directory ++ [name]) }) := by
  obtain ⟨d, hd, hrest⟩ := bind_eq_ok.mp hr
  obtain ⟨d', hd', hrest⟩ := bind_eq_ok.mp hrest
  obtain ⟨hlast, hplace⟩ := place_of_endsIn hs hd
  obtain ⟨hlast', hplace'⟩ := place_of_endsIn ht hd'
  simp only [hlast, hlast', hplace, hplace'] at hrest
  obtain ⟨n, hl, hrest⟩ := bind_eq_ok.mp hrest
  obtain ⟨n', hl', hrest⟩ := bind_eq_ok.mp hrest
  obtain ⟨-, rfl⟩ := (lookup_eq_ok hs hd).mp hl
  obtain ⟨hsize, rfl⟩ := (lookup_eq_ok ht hd').mp hl'
  split at hrest
  · cases hrest
  · cases hrest
  · next content hfind =>
    obtain ⟨hslashed, hrest⟩ := throwIf_eq_ok.mp hrest
    refine ⟨d, d', content, hd, hd', Bool.eq_false_iff.mpr fun h => hslashed (.inr h), hsize,
      FileNode.sighted_eq_file.mpr hfind, ?_, ?_⟩
    · intro hdir
      obtain ⟨es, hes⟩ := FileNode.sighted_eq_directory.mp hdir
      rw [hes] at hrest
      cases hrest
    · intro hne
      split at hrest
      · cases hrest
      · rw [if_neg hne] at hrest
        exact (Except.ok.inj hrest).symm

/-- After a rename within one directory the target holds what was moved. -/
theorem sight_rename {directory : List String} {content : ByteArray}
    (hs : fs.root.sight (directory ++ [t]) = .file content) :
    ((fs.root.remove (directory ++ [t])).put (.file content) (directory ++ [name])).sight
      (directory ++ [name]) = .file content := by
  have hdir : (fs.root.remove (directory ++ [t])).sight directory = .directory := by
    rw [FileNode.sight_remove_of_not_below _ fun hp => ?_]
    · exact FileNode.sight_of_prefix (by rw [hs]; exact nofun) (List.cons_ne_nil t [])
    · have hlen := hp.length_le
      rw [List.length_append, List.length_singleton] at hlen
      exact Nat.not_succ_le_self _ hlen
  have hput := FileNode.sight_put_append (n := fs.root.remove (directory ++ [t])) (.file content)
    (List.append_ne_nil_of_right_ne_nil directory (List.cons_ne_nil name []))
    (by rw [List.dropLast_concat]; exact hdir) []
  rw [List.append_nil] at hput
  exact hput

/-- And every directory is still there. -/
theorem keeps_rename {source target : List String} {content : ByteArray}
    (hs : fs.root.sight source = .file content) (ht : fs.root.sight target ≠ .directory)
    (hfs' : fs' = { fs with root := (fs.root.remove source).put (.file content) target }) :
    fs.Keeps fs' := by
  subst hfs'
  -- a directory lies neither at a file nor below one
  have hbeside : ∀ {place p : List String}, fs.root.sight place ≠ .directory →
      fs.root.sight p = .directory → ¬ place <+: p := by
    rintro place _ hplace hp ⟨more, rfl⟩
    by_cases hm : more = []
    · rw [hm, List.append_nil] at hp
      exact hplace hp
    · rw [FileNode.sight_append_of_ne_directory hplace hm] at hp
      cases hp
  refine ⟨rfl, fun p hp => ?_⟩
  show ((fs.root.remove source).put _ target).sight p = _
  rw [FileNode.sight_put_of_not_below _ _ (hbeside ht hp),
    FileNode.sight_remove_of_not_below _ (hbeside (by rw [hs]; exact nofun) hp), hp]

/-- What is appended to a new file is all that it holds. -/
theorem sight_append_create (h : Path.EndsIn path t) {bytes : ByteArray} {fs₁ fs₂ fs₃ : FileSystem}
    (hcreate : fs₁.create path = .ok fs₂) (happend : fs₂.append path bytes = .ok fs₃)
    {at₃ : Destination} (hwalk : fs₃.walk path = .ok at₃) {moved : ByteArray}
    (hfound : fs₃.root.sight (at₃.directory ++ [t]) = .file moved) : moved = bytes := by
  obtain ⟨at₁, hwalk₁, -, -, hfs₂⟩ := create_eq_ok h hcreate
  have hwalk₂ := walk_mono (grows_create h hcreate).toKeeps hwalk₁
  obtain ⟨at₂, content, hat₂, -, hfind, hfs₃⟩ := append_eq_ok h happend
  have hwalk₃ := walk_mono (grows_append h happend).toKeeps hwalk₂
  have h₂ : at₁ = at₂ := Except.ok.inj (hwalk₂.symm.trans hat₂)
  have h₃ : at₁ = at₃ := Except.ok.inj (hwalk₃.symm.trans hwalk)
  rw [← h₂] at hfind hfs₃
  rw [← h₃] at hfound
  have hempty : content.getD .empty = .empty := by
    cases content with
    | none => rfl
    | some c =>
      exact (sight_eq_of_putAt hfs₂ (FileNode.sighted_eq_file.mpr hfind)).symm
  rw [hempty, ByteArray.empty_append] at hfs₃
  exact (sight_eq_of_putAt hfs₃ hfound).symm

/-- What is written to a new file and moved over another in its directory is what that one
holds then. -/
theorem read_of_rename {source : String} (hs : Path.EndsIn source t) (ht : Path.EndsIn path name)
    (hne : t ≠ name) {bytes : ByteArray} {fs₁ fs₂ fs₃ : FileSystem}
    (hdir : ∀ at₁ at₂ : Destination, fs₃.walk source = .ok at₁ → fs₃.walk path = .ok at₂ →
      at₁.directory = at₂.directory)
    (hcreate : fs₁.create source = .ok fs₂) (happend : fs₂.append source bytes = .ok fs₃)
    (hrename : fs₃.rename source path = .ok fs') : fs'.read path = .ok bytes := by
  obtain ⟨at₃, at', moved, hat₃, hat', hslashed, hsize, hsource, htarget, hfs'⟩ :=
    rename_eq_ok hs ht hrename
  have hbytes := sight_append_create hs hcreate happend hat₃ hsource
  rw [hdir at₃ at' hat₃ hat', hbytes] at hsource hfs'
  have hapart : at'.directory ++ [t] ≠ at'.directory ++ [name] := fun he =>
    hne (List.cons.inj (List.append_cancel_left he)).1
  have hfs' := hfs' hapart
  refine (read_eq_ok_iff ht).mpr
    ⟨at', walk_mono (keeps_rename hsource htarget hfs') hat', hslashed, hsize, ?_⟩
  rw [hfs']
  exact sight_rename hsource

end FileSystem

/-! ## The whole save -/

theorem Text.decode?_eq_some {bytes : ByteArray} {t : String} :
    decode? bytes = some t ↔ bytes = t.toUTF8 := by
  unfold decode? String.fromUTF8?
  split
  · next h =>
    rw [Option.some.injEq, ← String.toByteArray_inj]
    exact Iff.rfl
  · next h =>
    refine ⟨nofun, fun he => absurd ?_ h⟩
    rw [he]
    exact t.isValidUTF8

namespace FileAction

variable {fs fs' : FileSystem} {t : String} {a : FileAction} {rest : List FileAction}

theorem applyAll_cons_ok : applyAll fs (a :: rest) = (.ok (), fs') ↔
    ∃ fs₁, a.apply fs = (none, fs₁) ∧ applyAll fs₁ rest = (.ok (), fs') := by
  rw [applyAll]
  rcases ha : a.apply fs with ⟨fault | fault, fs₁⟩
  · exact ⟨fun h => ⟨fs₁, rfl, h⟩, fun ⟨fs₂, h, hrest⟩ => (Prod.mk.inj h).2 ▸ hrest⟩
  · exact ⟨nofun, fun ⟨_, h, _⟩ => nomatch (Prod.mk.inj h).1⟩

theorem ofExcept_eq_none {x : Except FileFault FileSystem} :
    ofExcept fs x = (none, fs') ↔ x = .ok fs' := by
  cases x with
  | ok fs₁ =>
    exact ⟨fun h => congrArg _ (Prod.mk.inj h).2, fun h => congrArg _ (Except.ok.inj h)⟩
  | error fault => exact ⟨nofun, nofun⟩

theorem create_eq_none {path : String} :
    (create path).apply fs = (none, fs') ↔ fs.create path = .ok fs' := ofExcept_eq_none

theorem append_eq_none {path : String} {bytes : ByteArray} :
    (append path bytes).apply fs = (none, fs') ↔ fs.append path bytes = .ok fs' := ofExcept_eq_none

theorem rename_eq_none {path target : String} :
    (rename path target).apply fs = (none, fs') ↔ fs.rename path target = .ok fs' :=
  ofExcept_eq_none

/-- What single actions keep of a file system, several keep that fail: the last of them does
nothing then. -/
theorem applyAll_keeps {R : FileSystem → FileSystem → Prop} (hrefl : ∀ fs, R fs fs)
    (htrans : ∀ {fs fs₁ fs₂}, R fs fs₁ → R fs₁ fs₂ → R fs fs₂) {last : FileAction}
    (hlast : ∀ fs fault, (last.apply fs).1 = some fault → (last.apply fs).2 = fs)
    {l : List FileAction} (hl : ∀ a ∈ l, ∀ fs : FileSystem, R fs (a.apply fs).2) {e : Error}
    (h : (applyAll fs (l ++ [last])).1 = .error e) : R fs (applyAll fs (l ++ [last])).2 := by
  induction l generalizing fs with
  | nil =>
    have hfault := hlast fs
    rw [List.nil_append, applyAll] at h ⊢
    rcases ha : last.apply fs with ⟨fault | fault, fs₁⟩
    · rw [ha] at h
      cases h
    · rw [ha] at hfault
      exact hfault fault rfl ▸ hrefl fs₁
  | cons a rest ih =>
    obtain ⟨ha, hrest⟩ := List.forall_mem_cons.mp hl
    have hkeeps := ha fs
    rw [List.cons_append, applyAll] at h ⊢
    rcases hok : a.apply fs with ⟨fault | fault, fs₁⟩
    · rw [hok] at h hkeeps
      exact htrans hkeeps (ih hrest h)
    · rw [hok] at hkeeps
      exact hkeeps

end FileAction

namespace FileStore

open FileSystem

variable {s : FileStore} {name : String} {now : Timestamp} {d : Document} {fs fs' : FileSystem}

/-- A change that can fail keeps what it keeps when it succeeds. -/
theorem ofExcept_keeps {R : FileSystem → FileSystem → Prop} (hrefl : ∀ fs, R fs fs)
    {x : Except FileFault FileSystem} (h : ∀ fs', x = .ok fs' → R fs fs') :
    R fs (FileAction.ofExcept fs x).2 := by
  cases x with
  | ok fs' => exact h fs' rfl
  | error fault => exact hrefl fs

/-- A rename that fails does nothing. -/
theorem rename_failed (source path : String) (fs : FileSystem) (fault : FileFault)
    (h : ((FileAction.rename source path).apply fs).1 = some fault) :
    ((FileAction.rename source path).apply fs).2 = fs := by
  change (FileAction.ofExcept fs (fs.rename source path)).1 = some fault at h
  show (FileAction.ofExcept fs (fs.rename source path)).2 = fs
  cases hr : fs.rename source path with
  | ok fs' => rw [hr] at h; cases h
  | error fault => rfl

/-- The actions before the rename keep what these changes keep. -/
theorem apply_keeps {R : FileSystem → FileSystem → Prop} (hrefl : ∀ fs, R fs fs)
    (hdirs : ∀ fs : FileSystem, R fs (fs.createDirectories s.directory).2)
    (hcreate : ∀ {fs fs' : FileSystem}, fs.create s.temporary = .ok fs' → R fs fs')
    {bytes : ByteArray}
    (happend : ∀ {fs fs' : FileSystem}, fs.append s.temporary bytes = .ok fs' → R fs fs') :
    ∀ a ∈ [FileAction.createDirectories s.directory, .create s.temporary,
      .append s.temporary bytes, .sync s.temporary], ∀ fs : FileSystem, R fs (a.apply fs).2 := by
  have hnone : ∀ a ∈ ([] : List FileAction), ∀ fs : FileSystem, R fs (a.apply fs).2 := nofun
  refine List.forall_mem_cons.mpr ⟨fun fs => ?_, List.forall_mem_cons.mpr ⟨fun fs => ?_,
    List.forall_mem_cons.mpr ⟨fun fs => ?_, List.forall_mem_cons.mpr ⟨fun fs => ?_, hnone⟩⟩⟩⟩
  · exact hdirs fs
  · show R fs (FileAction.ofExcept fs (fs.create s.temporary)).2
    exact ofExcept_keeps hrefl fun _ => hcreate
  · show R fs (FileAction.ofExcept fs (fs.append s.temporary bytes)).2
    exact ofExcept_keeps hrefl fun _ => happend
  · exact hrefl fs

/-- A save that fails comes down to the actions before the rename. -/
theorem save_keeps {R : FileSystem → FileSystem → Prop} (hrefl : ∀ fs, R fs fs)
    (htrans : ∀ {fs fs₁ fs₂}, R fs fs₁ → R fs₁ fs₂ → R fs fs₂)
    (hdirs : ∀ fs : FileSystem, R fs (fs.createDirectories s.directory).2)
    (hcreate : ∀ {fs fs' : FileSystem}, fs.create s.temporary = .ok fs' → R fs fs')
    (happend : ∀ {fs fs' : FileSystem} {bytes},
      fs.append s.temporary bytes = .ok fs' → R fs fs') {e : Error}
    (he : (s.save now d fs).1 = .error e) : R fs (s.save now d fs).2 := by
  by_cases hr : s.readOnly
  · rw [save, if_pos hr]
    exact hrefl fs
  · rw [save, if_neg hr] at he ⊢
    cases hc : d.check with
    | error v => exact hrefl fs
    | ok u =>
      rw [hc] at he
      exact FileAction.applyAll_keeps hrefl htrans (rename_failed s.temporary s.path)
        (apply_keeps hrefl hdirs hcreate happend) he

/-- A save that fails changes no file but the temporary one. -/
theorem grows_save (h : Path.EndsIn s.path name) {e : Error}
    (he : (s.save now d fs).1 = .error e) :
    fs.Grows (temporaryName name) (s.save now d fs).2 := by
  obtain ⟨htemp, -, -⟩ := temporary_spec h
  exact save_keeps (.refl _) .trans (fun fs => grows_createDirectories fs _ _)
    (grows_create htemp) (grows_append htemp) he

/-- And no directory, whatever the path is. -/
theorem keeps_save {e : Error} (he : (s.save now d fs).1 = .error e) :
    fs.Keeps (s.save now d fs).2 :=
  save_keeps (fun fs => (Grows.refl "" fs).toKeeps) .trans
    (fun fs => (grows_createDirectories fs _ "").toKeeps) keeps_create keeps_append he

/-- The file systems that a save goes through when all its actions succeed. -/
theorem applyAll_saveActions {text : String}
    (hs : FileAction.applyAll fs (s.saveActions text) = (.ok (), fs')) :
    ∃ fs₁ fs₂ fs₃ : FileSystem, fs.createDirectories s.directory = (none, fs₁) ∧
      fs₁.create s.temporary = .ok fs₂ ∧ fs₂.append s.temporary text.toUTF8 = .ok fs₃ ∧
      fs₃.rename s.temporary s.path = .ok fs' := by
  unfold saveActions at hs
  obtain ⟨fs₁, hmade, hs⟩ := FileAction.applyAll_cons_ok.mp hs
  obtain ⟨fs₂, hcreate, hs⟩ := FileAction.applyAll_cons_ok.mp hs
  obtain ⟨fs₃, happend, hs⟩ := FileAction.applyAll_cons_ok.mp hs
  obtain ⟨fs₄, hsync, hs⟩ := FileAction.applyAll_cons_ok.mp hs
  obtain ⟨fs₅, hrename, hs⟩ := FileAction.applyAll_cons_ok.mp hs
  have hstay : fs₃ = fs₄ := (Prod.mk.inj hsync).2
  have hend : fs₅ = fs' := (Prod.mk.inj hs).2
  rw [← hstay, hend] at hrename
  exact ⟨fs₁, fs₂, fs₃, hmade, FileAction.create_eq_none.mp hcreate,
    FileAction.append_eq_none.mp happend, FileAction.rename_eq_none.mp hrename⟩

/-- The temporary file is in the directory of the state file. -/
theorem directory_temporary (h : Path.EndsIn s.path name) {at₁ at₂ : Destination}
    (htemp : fs.walk s.temporary = .ok at₁) (hpath : fs.walk s.path = .ok at₂) :
    at₁.directory = at₂.directory := by
  obtain ⟨hends, hnames, habs⟩ := temporary_spec h
  have hd := directory_of_walk hends htemp
  rw [hnames, List.dropLast_concat, start, habs] at hd
  exact Except.ok.inj (hd.symm.trans (directory_of_walk h hpath))

/-- Actions of a save that all succeed leave the text in the state file. -/
theorem read_saveActions {text : String}
    (hs : FileAction.applyAll fs (s.saveActions text) = (.ok (), fs')) :
    fs'.read s.path = .ok text.toUTF8 := by
  obtain ⟨fs₁, fs₂, fs₃, -, hcreate, happend, hrename⟩ := applyAll_saveActions hs
  obtain ⟨name, h⟩ := endsIn_of_rename hrename
  obtain ⟨htemp, -, -⟩ := temporary_spec h
  exact read_of_rename htemp h (temporaryName_ne name).symm
    (fun _ _ => directory_temporary h) hcreate happend hrename

/-- A save that succeeds leaves the text of the document in the state file. -/
theorem read_save (hs : s.save now d fs = (.ok (), fs')) :
    fs'.read s.path = .ok (d.stamp now).text.toUTF8 := by
  by_cases hr : s.readOnly
  · rw [save, if_pos hr] at hs
    cases hs
  · rw [save, if_neg hr] at hs
    cases hc : d.check with
    | error v => rw [hc] at hs; cases hs
    | ok u =>
      rw [hc] at hs
      exact read_saveActions hs

/-- What is loaded is what the state file holds, or nothing if there is no such file. -/
theorem load_eq_ok (hl : s.load now fs = .ok d) :
    ((fs.read s.path).toOption = none ∧ d = .empty now) ∨
      ∃ t : String, fs.read s.path = .ok t.toUTF8 ∧ Document.ofText t = .ok d ∧
        d.check = .ok () := by
  unfold load at hl
  split at hl
  · next hc =>
    refine Or.inl ⟨?_, (Except.ok.inj hl).symm⟩
    cases hs : fs.stat s.path with
    | error fault => rw [FileSystem.read, hs]; rfl
    | ok n => rw [contains, hs] at hc; cases hc
  · split at hl
    · cases hl
    · next t ht =>
      obtain ⟨bytes, hread, ht⟩ := bind_eq_ok.mp ht
      split at ht
      · next t' hdecode =>
        obtain rfl := Except.ok.inj ht
        split at hl
        · cases hl
        · next d' hd =>
          split at hl
          · cases hl
          · next hc =>
            obtain rfl := Except.ok.inj hl
            exact Or.inr ⟨t', Text.decode?_eq_some.mp hdecode ▸ hread, hd, hc⟩
      · cases ht

theorem load_eq_of_read {t : String} (hr : fs.read s.path = .ok t.toUTF8) :
    s.load now fs = match Document.ofText t with
      | .error fault => .error (.corruptState s.path (.unparseable fault))
      | .ok d =>
        match d.check with
        | .error v => .error (.corruptState s.path (.violation v))
        | .ok () => .ok d := by
  have hcontains : fs.contains s.path = true := by
    obtain ⟨n, hn, -⟩ := bind_eq_ok.mp hr
    rw [contains, hn]
    rfl
  have ht : fs.readText s.path = .ok t := by
    refine bind_eq_ok.mpr ⟨_, hr, ?_⟩
    rw [Text.decode?_eq_some.mpr rfl]
    rfl
  simp only [load, hcontains, ht]
  rfl

theorem load_of_read {t : String} (hr : fs.read s.path = .ok t.toUTF8)
    (hd : Document.ofText t = .ok d) (hc : d.check = .ok ()) : s.load now fs = .ok d := by
  simp only [load_eq_of_read hr, hd, hc]

end FileStore
end Publishing
