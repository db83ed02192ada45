import Publishing.Proofs.Entries
import Publishing.Proofs.Places

/-
Following paths through a file system that grows.

A path that can be followed leads to the same place when directories are added.  One that
cannot be followed may come to lead somewhere then, but to no file that there was already,
unless it climbs: `x/../y` leads to `y` once there is a directory `x`.
-/

namespace Publishing

theorem toOption_congr {ε ε' α : Type} {x : Except ε α} {y : Except ε' α}
    (h : ∀ a, x = .ok a ↔ y = .ok a) : x.toOption = y.toOption := by
  cases hy : y with
  | ok a =>
    rw [(h a).mpr hy]
    rfl
  | error e =>
    cases hx : x with
    | ok a => rw [(h a).mp hx] at hy; cases hy
    | error e' => rfl

namespace Path

/-- What stands between the slashes of a path, dots included. -/
def pieces (path : String) : List String :=
  ((splitSlashes path.toList).filter (· ≠ [])).map String.ofList

/-- Whether a path can be followed as far as its text goes. -/
def IsText (path : String) : Prop :=
  ¬ path.toList.any (·.toNat = 0) ∧ path ≠ "" ∧ ¬ FileSystem.longestPath < path.utf8ByteSize

/-- Whether a path ends in a name. -/
def EndsIn (path name : String) : Prop :=
  (pieces path).getLast? = some name ∧ name ≠ "." ∧ name ≠ ".."

end Path

namespace FileSystem

variable {fs fs' : FileSystem} {path name t : String} {d : Destination}

/-- Where a path begins. -/
def start (fs : FileSystem) (path : String) : List String :=
  if Path.isAbsolute path then [] else fs.workingDirectory

def LastPart.ofPiece : Option String → LastPart
  | none | some "." => .here
  | some ".." => .above
  | some s => .name s

theorem walk_eq_ok_iff : fs.walk path = .ok d ↔ Path.IsText path ∧
    (Path.pieces path).dropLast.foldlM fs.enter (fs.start path) = .ok d.directory ∧
    d.last = .ofPiece (Path.pieces path).getLast? ∧
    d.slashed = (path.toList.getLast? = some '/' : Bool) := by
  unfold walk
  refine throwIf_eq_ok.trans ((and_congr_right fun _ => throwIf_eq_ok.trans
    (and_congr_right fun _ => throwIf_eq_ok.trans (and_congr_right fun _ => bind_eq_ok))).trans ?_)
  rw [← and_assoc, ← and_assoc, and_assoc (a := ¬ _)]
  refine and_congr Iff.rfl ⟨?_, ?_⟩
  · rintro ⟨directory, hd, h⟩
    obtain rfl := Except.ok.inj h
    exact ⟨hd, rfl, rfl⟩
  · rintro ⟨hd, hlast, hslashed⟩
    exact ⟨d.directory, hd, congrArg Except.ok (by cases d; cases hlast; cases hslashed; rfl)⟩

theorem entry?_eq_ok {directory : List String} {n : Option FileNode} :
    fs.entry? directory name = .ok n ↔
      ¬ longestName < name.utf8ByteSize ∧ n = fs.root.find? (directory ++ [name]) := by
  unfold entry?
  split
  · next h => exact ⟨nofun, fun h' => absurd h h'.1⟩
  · next h => exact ⟨fun h' => ⟨h, (Except.ok.inj h').symm⟩, fun h' => congrArg _ h'.2.symm⟩

/-- What a step into a part comes to. -/
inductive Enters (fs : FileSystem) (directory : List String) : String → List String → Prop
  | stay : Enters fs directory "." directory
  | climb : Enters fs directory ".." directory.dropLast
  | descend {part : String} (here : part ≠ ".") (above : part ≠ "..")
      (size : ¬ longestName < part.utf8ByteSize)
      (found : fs.root.sight (directory ++ [part]) = .directory) :
      Enters fs directory part (directory ++ [part])

theorem enter_eq_ok_iff {directory place : List String} {part : String} :
    fs.enter directory part = .ok place ↔ fs.Enters directory part place := by
  constructor
  · intro h
    unfold enter at h
    split at h
    · next hp =>
      obtain rfl := Except.ok.inj h
      exact hp ▸ .stay
    · next hhere =>
      split at h
      · next hp =>
        obtain rfl := Except.ok.inj h
        exact hp ▸ .climb
      · next habove =>
        obtain ⟨n, hn, hm⟩ := bind_eq_ok.mp h
        obtain ⟨hsize, rfl⟩ := entry?_eq_ok.mp hn
        split at hm
        · cases hm
        · cases hm
        · next es hes =>
          obtain rfl := Except.ok.inj hm
          exact .descend hhere habove hsize (FileNode.sighted_eq_directory.mpr ⟨es, hes⟩)
  · intro h
    cases h with
    | stay => rfl
    | climb => rfl
    | descend hhere habove hsize hfound =>
      obtain ⟨es, hes⟩ := FileNode.sighted_eq_directory.mp hfound
      rw [enter, if_neg hhere, if_neg habove]
      refine bind_eq_ok.mpr ⟨_, entry?_eq_ok.mpr ⟨hsize, rfl⟩, ?_⟩
      rw [hes]
      rfl

theorem Enters.mono {directory place : List String} {part : String}
    (h : fs.Enters directory part place) (hk : fs.Keeps fs') : fs'.Enters directory part place := by
  cases h with
  | stay => exact .stay
  | climb => exact .climb
  | descend hhere habove hsize hfound => exact .descend hhere habove hsize (hk.directory _ hfound)

theorem foldlM_enter_mono (hk : fs.Keeps fs') {parts : List String} {directory place : List String}
    (h : parts.foldlM fs.enter directory = .ok place) :
    parts.foldlM fs'.enter directory = .ok place := by
  induction parts generalizing directory with
  | nil => exact h
  | cons part rest ih =>
    rw [List.foldlM_cons] at h ⊢
    obtain ⟨next, hnext, hrest⟩ := bind_eq_ok.mp h
    refine bind_eq_ok.mpr ⟨next, ?_, ih hrest⟩
    exact enter_eq_ok_iff.mpr ((enter_eq_ok_iff.mp hnext).mono hk)

theorem start_of_keeps (hk : fs.Keeps fs') (path : String) : fs'.start path = fs.start path := by
  rw [start, start, hk.workingDirectory]

/-- A path that can be followed leads to the same place in a larger file system. -/
theorem walk_mono (hk : fs.Keeps fs') (h : fs.walk path = .ok d) : fs'.walk path = .ok d := by
  obtain ⟨htext, hd, hlast, hslashed⟩ := walk_eq_ok_iff.mp h
  exact walk_eq_ok_iff.mpr
    ⟨htext, start_of_keeps hk path ▸ foldlM_enter_mono hk hd, hlast, hslashed⟩

/-- Without climbing, a directory that was there before is reached as it was. -/
theorem foldlM_enter_of_directory {parts : List String} (hc : ".." ∉ parts)
    {directory place : List String} (h : parts.foldlM fs'.enter directory = .ok place)
    (hd : fs.root.sight place = .directory) :
    directory <+: place ∧ parts.foldlM fs.enter directory = .ok place := by
  induction parts generalizing directory with
  | nil =>
    obtain rfl := Except.ok.inj h
    exact ⟨List.prefix_rfl, rfl⟩
  | cons part rest ih =>
    obtain ⟨hpart, hrest⟩ := not_or.mp (mt List.mem_cons.mpr hc)
    rw [List.foldlM_cons] at h ⊢
    obtain ⟨next, hnext, hplace⟩ := bind_eq_ok.mp h
    obtain ⟨hpre, hok⟩ := ih hrest hplace
    cases enter_eq_ok_iff.mp hnext with
    | stay => exact ⟨hpre, hok⟩
    | climb => exact absurd rfl hpart
    | descend hhere habove hsize _ =>
      refine ⟨(List.prefix_append directory [part]).trans hpre, bind_eq_ok.mpr ⟨_, ?_, hok⟩⟩
      refine enter_eq_ok_iff.mpr (.descend hhere habove hsize ?_)
      -- it lies on the way to `place`
      obtain ⟨more, rfl⟩ := hpre
      by_cases hm : more = []
      · rwa [hm, List.append_nil] at hd
      · exact FileNode.sight_of_prefix (by rw [hd]; exact nofun) hm

theorem ofPiece_of_endsIn (h : Path.EndsIn path name) :
    LastPart.ofPiece (Path.pieces path).getLast? = .name name := by
  rw [h.1]
  unfold LastPart.ofPiece
  split
  · next heq => cases heq
  · next heq => exact absurd (Option.some.inj heq) h.2.1
  · next heq => exact absurd (Option.some.inj heq) h.2.2
  · next heq => exact congrArg _ (Option.some.inj heq).symm

theorem lookup_eq_ok (h : Path.EndsIn path name) (hd : fs.walk path = .ok d)
    {n : Option FileNode} : fs.lookup d = .ok n ↔
      ¬ longestName < name.utf8ByteSize ∧ n = fs.root.find? (d.directory ++ [name]) := by
  have hlast := (walk_eq_ok_iff.mp hd).2.2.1
  rw [ofPiece_of_endsIn h] at hlast
  rw [lookup, hlast]
  exact entry?_eq_ok

theorem place_of_endsIn (h : Path.EndsIn path name) (hd : fs.walk path = .ok d) :
    d.last = .name name ∧ d.place = d.directory ++ [name] := by
  have hlast := (walk_eq_ok_iff.mp hd).2.2.1
  rw [ofPiece_of_endsIn h] at hlast
  rw [Destination.place, hlast]
  exact ⟨rfl, rfl⟩

theorem read_eq_ok {content : ByteArray} : fs.read path = .ok content ↔
    ∃ d, fs.walk path = .ok d ∧ fs.lookup d = .ok (some (.file content)) ∧ d.slashed = false := by
  constructor
  · intro h
    obtain ⟨n, hstat, hn⟩ := bind_eq_ok.mp h
    cases n with
    | directory es => cases hn
    | file c =>
      obtain rfl := Except.ok.inj hn
      unfold stat at hstat
      cases hf : fs.find path with
      | error fault => rw [hf] at hstat; cases hstat
      | ok p =>
        rw [hf] at hstat
        have hp : p.2 = .file c := Except.ok.inj hstat
        obtain ⟨d, hd, hrest⟩ := bind_eq_ok.mp hf
        obtain ⟨n, hl, hn⟩ := bind_eq_ok.mp hrest
        refine ⟨d, hd, ?_⟩
        split at hn
        · cases hn
        · split at hn
          · cases hn
          · next hslashed =>
            obtain rfl := Except.ok.inj hn
            cases hp
            exact ⟨hl, Bool.eq_false_iff.mpr hslashed⟩
        · obtain rfl := Except.ok.inj hn
          cases hp
  · rintro ⟨d, hd, hl, hslashed⟩
    refine bind_eq_ok.mpr ⟨.file content, ?_, rfl⟩
    have hf : fs.find path = .ok (d.place, .file content) := by
      refine bind_eq_ok.mpr ⟨d, hd, bind_eq_ok.mpr ⟨_, hl, ?_⟩⟩
      show (if d.slashed = true then _ else _) = _
      rw [if_neg (Bool.eq_false_iff.mp hslashed)]
      rfl
    rw [stat, hf]
    rfl

theorem endsIn_of_last (hd : fs.walk path = .ok d) (hl : d.last = .name name) :
    Path.EndsIn path name := by
  have hlast := (walk_eq_ok_iff.mp hd).2.2.1
  rw [hl] at hlast
  unfold LastPart.ofPiece at hlast
  split at hlast
  · cases hlast
  · cases hlast
  · cases hlast
  · next s hhere habove hpiece =>
    obtain rfl := LastPart.name.inj hlast
    exact ⟨hpiece, fun he => hhere (he ▸ rfl), fun he => habove (he ▸ rfl)⟩

/-- Whether the working directory is a directory. -/
def HasWorkingDirectory (fs : FileSystem) : Prop :=
  fs.root.sight fs.workingDirectory = .directory

theorem Keeps.hasWorkingDirectory (hk : fs.Keeps fs') (h : fs.HasWorkingDirectory) :
    fs'.HasWorkingDirectory := by
  rw [HasWorkingDirectory, hk.workingDirectory]
  exact hk.directory _ h

theorem sight_above {place : List String} (h : fs.root.sight place = .directory) (n : Nat) :
    fs.root.sight (place.take n) = .directory := by
  by_cases hmore : place.drop n = []
  · rwa [List.take_of_length_le (List.drop_eq_nil_iff.mp hmore)]
  · rw [← List.take_append_drop n place] at h
    exact FileNode.sight_of_prefix (by rw [h]; exact nofun) hmore

theorem sight_foldlM_enter {parts : List String} {directory place : List String}
    (hd : fs.root.sight directory = .directory) (h : parts.foldlM fs.enter directory = .ok place) :
    fs.root.sight place = .directory := by
  induction parts generalizing directory with
  | nil => exact Except.ok.inj h ▸ hd
  | cons part rest ih =>
    rw [List.foldlM_cons] at h
    obtain ⟨next, hnext, hrest⟩ := bind_eq_ok.mp h
    refine ih ?_ hrest
    cases enter_eq_ok_iff.mp hnext with
    | stay => exact hd
    | climb => exact List.dropLast_eq_take ▸ sight_above hd _
    | descend _ _ _ found => exact found

/-- A path that does not end in a name leads to a directory, if anywhere. -/
theorem read_of_not_endsIn (h : ∀ name, ¬ Path.EndsIn path name) (hw : fs.HasWorkingDirectory) :
    (fs.read path).toOption = none := by
  cases hr : fs.read path with
  | error fault => rfl
  | ok content =>
    exfalso
    obtain ⟨d, hd, hl, -⟩ := read_eq_ok.mp hr
    have hstart : fs.root.sight (fs.start path) = .directory := by
      unfold start
      split
      · exact sight_above hw 0
      · exact hw
    have hdir := sight_foldlM_enter hstart (walk_eq_ok_iff.mp hd).2.1
    have hplace : fs.root.sight d.place = .directory ∧
        fs.root.find? d.place = some (.file content) := by
      unfold lookup at hl
      unfold Destination.place
      cases hlast : d.last with
      | name s => exact absurd (endsIn_of_last hd hlast) (h s)
      | here =>
        rw [hlast] at hl
        have hfile := Except.ok.inj hl
        rw [Destination.place, hlast] at hfile
        exact ⟨hdir, hfile⟩
      | above =>
        rw [hlast] at hl
        have hfile := Except.ok.inj hl
        rw [Destination.place, hlast] at hfile
        exact ⟨List.dropLast_eq_take ▸ sight_above hdir _, hfile⟩
    rw [FileNode.sight, hplace.2] at hplace
    cases hplace.1

/-- What is read at the end of a path that ends in a name. -/
theorem read_eq_ok_iff (h : Path.EndsIn path name) {content : ByteArray} :
    fs.read path = .ok content ↔ ∃ d, fs.walk path = .ok d ∧ d.slashed = false ∧
      ¬ longestName < name.utf8ByteSize ∧
      fs.root.sight (d.directory ++ [name]) = .file content := by
  rw [read_eq_ok]
  refine exists_congr fun d => and_congr_right fun hd => ?_
  rw [lookup_eq_ok h hd, FileNode.sight, FileNode.sighted_eq_file]
  tauto

/-- What a file holds is read as before when the file system has grown beside it. -/
theorem read_of_grows (h : Path.EndsIn path name) (hne : name ≠ t) (hg : fs.Grows t fs')
    (hc : ".." ∉ Path.pieces path ∨ ∃ d, fs.walk path = .ok d) :
    (fs'.read path).toOption = (fs.read path).toOption := by
  have hiff : ∀ content, fs'.read path = .ok content ↔ fs.read path = .ok content := by
    intro content
    have hfile : ∀ directory : List String, fs'.root.sight (directory ++ [name]) = .file content ↔
        fs.root.sight (directory ++ [name]) = .file content := fun directory =>
      hg.file _ (by simpa using hne) content
    rw [read_eq_ok_iff h, read_eq_ok_iff h]
    constructor
    · rintro ⟨d, hd, hslashed, hsize, hs⟩
      rw [hfile] at hs
      refine ⟨d, ?_, hslashed, hsize, hs⟩
      rcases hc with hc | ⟨d₀, hd₀⟩
      · obtain ⟨htext, hdir, hlast, hsl⟩ := walk_eq_ok_iff.mp hd
        refine walk_eq_ok_iff.mpr ⟨htext, ?_, hlast, hsl⟩
        have habove := FileNode.sight_of_prefix (by rw [hs]; exact nofun) (List.cons_ne_nil name [])
        rw [start_of_keeps hg.toKeeps] at hdir
        exact (foldlM_enter_of_directory (fun hm => hc (List.mem_of_mem_dropLast hm)) hdir habove).2
      · obtain rfl := Except.ok.inj ((walk_mono hg.toKeeps hd₀).symm.trans hd)
        exact hd₀
    · rintro ⟨d, hd, hslashed, hsize, hs⟩
      exact ⟨d, walk_mono hg.toKeeps hd, hslashed, hsize, (hfile _).mpr hs⟩
  exact toOption_congr hiff

end FileSystem
end Publishing
