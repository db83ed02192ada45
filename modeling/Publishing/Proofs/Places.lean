import Mathlib.Data.List.Infix
import Publishing.Files.System

/-
What is at each place of a file system, and what a change at one place leaves alone.

A place is a list of names below the root.  What a node put at a place changes are the
place itself and what lies below it.  A file system `Grows` into another one when nothing
is lost but what files of one name hold: such files may come and go, and directories may
be added where nothing was.
-/

namespace Publishing

/-- What is seen at a place. -/
inductive Sight where
  | nothing
  | directory
  | file (content : ByteArray)

namespace FileNode

def sighted : Option FileNode → Sight
  | none => .nothing
  | some (.directory _) => .directory
  | some (.file content) => .file content

def sight (n : FileNode) (place : List String) : Sight := sighted (n.find? place)

theorem sighted_eq_file {n : Option FileNode} {content : ByteArray} :
    sighted n = .file content ↔ n = some (.file content) := by
  cases n with
  | none => exact ⟨nofun, nofun⟩
  | some n =>
    cases n with
    | directory es => exact ⟨nofun, nofun⟩
    | file c => exact ⟨fun h => by cases h; rfl, fun h => by cases h; rfl⟩

theorem sighted_eq_directory {n : Option FileNode} :
    sighted n = .directory ↔ ∃ es, n = some (.directory es) := by
  cases n with
  | none => exact ⟨nofun, nofun⟩
  | some n =>
    cases n with
    | directory es => exact ⟨fun _ => ⟨es, rfl⟩, fun _ => rfl⟩
    | file c => exact ⟨nofun, nofun⟩

theorem sighted_eq_nothing {n : Option FileNode} : sighted n = .nothing ↔ n = none := by
  cases n with
  | none => exact ⟨fun _ => rfl, fun _ => rfl⟩
  | some n => cases n <;> exact ⟨nofun, nofun⟩

theorem find?_append (n : FileNode) (a b : List String) :
    n.find? (a ++ b) = (n.find? a).bind fun m => m.find? b := by
  induction a generalizing n with
  | nil => rfl
  | cons name rest ih =>
    rw [List.cons_append, find?, find?]
    cases n.entries.lookup name with
    | none => rfl
    | some child => exact ih child

/-- Only a directory has anything below it. -/
theorem sight_append_of_ne_directory {n : FileNode} {place more : List String}
    (h : n.sight place ≠ .directory) (hne : more ≠ []) : n.sight (place ++ more) = .nothing := by
  rw [sight, find?_append]
  obtain ⟨name, rest, rfl⟩ := List.exists_cons_of_ne_nil hne
  unfold sight at h
  cases hp : n.find? place with
  | none => rfl
  | some m =>
    cases m with
    | file content => rfl
    | directory es =>
      rw [hp] at h
      exact absurd rfl h

/-- What lies above something is a directory. -/
theorem sight_of_prefix {n : FileNode} {place more : List String}
    (h : n.sight (place ++ more) ≠ .nothing) (hne : more ≠ []) : n.sight place = .directory := by
  by_contra hd
  exact h (sight_append_of_ne_directory hd hne)

theorem sight_directory_cons (es : List (String × FileNode)) (name : String) (rest : List String) :
    (directory es).sight (name :: rest) =
      match es.lookup name with
      | some child => child.sight rest
      | none => .nothing := by
  unfold sight
  rw [find?]
  show sighted (match es.lookup name with
    | some child => child.find? rest
    | none => none) = _
  cases es.lookup name <;> rfl

theorem put_of_lookup {es : List (String × FileNode)} {name : String} {child : FileNode}
    (h : es.lookup name = some child) (node : FileNode) (name' : String) (rest : List String) :
    (directory es).put node (name :: name' :: rest) =
      directory (putEntry name (child.put node (name' :: rest)) es) := by
  simp only [put, h]

theorem put_of_lookup_none {es : List (String × FileNode)} {name : String}
    (h : es.lookup name = none) (node : FileNode) (name' : String) (rest : List String) :
    (directory es).put node (name :: name' :: rest) = directory es := by
  simp only [put, h]

theorem remove_of_lookup {es : List (String × FileNode)} {name : String} {child : FileNode}
    (h : es.lookup name = some child) (name' : String) (rest : List String) :
    (directory es).remove (name :: name' :: rest) =
      directory (putEntry name (child.remove (name' :: rest)) es) := by
  simp only [remove, h]

theorem remove_of_lookup_none {es : List (String × FileNode)} {name : String}
    (h : es.lookup name = none) (name' : String) (rest : List String) :
    (directory es).remove (name :: name' :: rest) = directory es := by
  simp only [remove, h]

/-- Another entry under `name` is seen below `name` only. -/
theorem sight_putEntry {es : List (String × FileNode)} {name : String} {child : FileNode}
    {other : List String}
    (h : ∀ more, other = name :: more → child.sight more = (directory es).sight other) :
    (directory (putEntry name child es)).sight other = (directory es).sight other := by
  cases other with
  | nil => rfl
  | cons name' more =>
    by_cases hname : name' = name
    · subst hname
      rw [sight_directory_cons, lookup_putEntry_self]
      exact h more rfl
    · rw [sight_directory_cons, sight_directory_cons, lookup_putEntry_of_ne hname]

theorem lookup_filter_of_ne {name other : String} (h : other ≠ name)
    (es : List (String × FileNode)) :
    (es.filter fun e => e.1 ≠ name).lookup other = es.lookup other := by
  induction es with
  | nil => rfl
  | cons e rest ih =>
    by_cases he : e.1 = name
    · have hb : (other == e.1) = false := by simpa [he] using h
      rw [List.filter_cons_of_neg (by simpa using he), List.lookup_cons, hb]
      exact ih
    · rw [List.filter_cons_of_pos (by simpa using he), List.lookup_cons, List.lookup_cons, ih]

/-- A node that is put at a place changes nothing beside it. -/
theorem sight_put_of_not_below (n node : FileNode) {place other : List String}
    (h : ¬ place <+: other) : (n.put node place).sight other = n.sight other := by
  induction place generalizing n other with
  | nil => exact absurd List.nil_prefix h
  | cons name rest ih =>
    cases n with
    | file content => rfl
    | directory es =>
      cases rest with
      | nil =>
        exact sight_putEntry fun more hmore => absurd (hmore ▸ ⟨more, rfl⟩) h
      | cons name' rest =>
        cases hl : es.lookup name with
        | none => rw [put_of_lookup_none hl]
        | some child =>
          rw [put_of_lookup hl]
          refine sight_putEntry fun more hmore => ?_
          rw [hmore, sight_directory_cons, hl]
          exact ih child fun hp => h (hmore ▸ List.cons_prefix_cons.mpr ⟨rfl, hp⟩)

/-- What is taken away from a place changes nothing beside it. -/
theorem sight_remove_of_not_below (n : FileNode) {place other : List String}
    (h : ¬ place <+: other) : (n.remove place).sight other = n.sight other := by
  induction place generalizing n other with
  | nil => exact absurd List.nil_prefix h
  | cons name rest ih =>
    cases n with
    | file content => rfl
    | directory es =>
      cases rest with
      | nil =>
        cases other with
        | nil => rfl
        | cons name' more =>
          have hname : name' ≠ name := by
            rintro rfl
            exact h ⟨more, rfl⟩
          show (directory (es.filter fun e => e.1 ≠ name)).sight _ = _
          rw [sight_directory_cons, sight_directory_cons, lookup_filter_of_ne hname]
      | cons name' rest =>
        cases hl : es.lookup name with
        | none => rw [remove_of_lookup_none hl]
        | some child =>
          rw [remove_of_lookup hl]
          refine sight_putEntry fun more hmore => ?_
          rw [hmore, sight_directory_cons, hl]
          exact ih child fun hp => h (hmore ▸ List.cons_prefix_cons.mpr ⟨rfl, hp⟩)

/-- At its place a node is seen if there is a directory to hold it. -/
theorem sight_put_append {n : FileNode} (node : FileNode) {place : List String} (hne : place ≠ [])
    (hd : n.sight place.dropLast = .directory) (more : List String) :
    (n.put node place).sight (place ++ more) = node.sight more := by
  induction place generalizing n with
  | nil => exact absurd rfl hne
  | cons name rest ih =>
    cases n with
    | file content => cases rest <;> cases hd
    | directory es =>
      cases rest with
      | nil =>
        show (directory (putEntry name node es)).sight (name :: more) = node.sight more
        rw [sight_directory_cons, lookup_putEntry_self]
      | cons name' rest =>
        rw [List.dropLast_cons_cons, sight_directory_cons] at hd
        cases hl : es.lookup name with
        | none => rw [hl] at hd; cases hd
        | some child =>
          rw [hl] at hd
          rw [put_of_lookup hl, List.cons_append, sight_directory_cons, lookup_putEntry_self]
          exact ih (List.cons_ne_nil _ _) hd

/-- Without such a directory nothing is put anywhere. -/
theorem sight_put_append_of_ne (n node : FileNode) {place : List String} (hne : place ≠ [])
    (hd : n.sight place.dropLast ≠ .directory) (more : List String) :
    (n.put node place).sight (place ++ more) = .nothing := by
  have habove : (n.put node place).sight place.dropLast ≠ .directory := by
    rw [sight_put_of_not_below n node fun hp => ?_]
    · exact hd
    · have hlen := hp.length_le
      have hpos := List.length_pos_of_ne_nil hne
      rw [List.length_dropLast] at hlen
      omega
  have hsplit : place ++ more = place.dropLast ++ (place.getLast hne :: more) := by
    rw [← List.singleton_append, ← List.append_assoc, List.dropLast_append_getLast hne]
  rw [hsplit]
  exact sight_append_of_ne_directory habove (List.cons_ne_nil _ _)

end FileNode

namespace FileSystem

variable {fs fs' fs'' : FileSystem} {t : String} {place : List String}

/-- Every directory of `fs` is one of `fs'`. -/
structure Keeps (fs fs' : FileSystem) : Prop where
  workingDirectory : fs'.workingDirectory = fs.workingDirectory
  directory : ∀ place, fs.root.sight place = .directory → fs'.root.sight place = .directory

/-- And every file has the same content in both, but for those with the name `t`. -/
structure Grows (t : String) (fs fs' : FileSystem) : Prop extends Keeps fs fs' where
  file : ∀ place, place.getLast? ≠ some t → ∀ content,
    fs'.root.sight place = .file content ↔ fs.root.sight place = .file content

theorem Keeps.trans (h : fs.Keeps fs') (h' : fs'.Keeps fs'') : fs.Keeps fs'' :=
  ⟨h'.workingDirectory.trans h.workingDirectory, fun p hp => h'.directory p (h.directory p hp)⟩

theorem Grows.refl (t : String) (fs : FileSystem) : fs.Grows t fs :=
  ⟨⟨rfl, fun _ h => h⟩, fun _ _ _ => Iff.rfl⟩

theorem Grows.trans (h : fs.Grows t fs') (h' : fs'.Grows t fs'') : fs.Grows t fs'' :=
  ⟨h.toKeeps.trans h'.toKeeps, fun p hp c => (h'.file p hp c).trans (h.file p hp c)⟩

theorem sight_nil_ne_nothing (n : FileNode) : n.sight [] ≠ .nothing := by
  cases n <;> exact nofun

/-- A directory may be made where nothing was. -/
theorem grows_putAt_directory (h : fs.root.sight place = .nothing) :
    fs.Grows t (fs.putAt place .emptyDirectory) := by
  have hne : place ≠ [] := by
    rintro rfl
    exact sight_nil_ne_nothing _ h
  -- below the place nothing was, and there is no file now
  have hbelow : ∀ more, fs.root.sight (place ++ more) = .nothing := by
    intro more
    by_cases hm : more = []
    · rw [hm, List.append_nil, h]
    · exact FileNode.sight_append_of_ne_directory (by rw [h]; exact nofun) hm
  have hnofile : ∀ more c, (fs.root.put .emptyDirectory place).sight (place ++ more) ≠ .file c := by
    intro more c
    by_cases hd : fs.root.sight place.dropLast = .directory
    · rw [FileNode.sight_put_append _ hne hd]
      cases more <;> exact nofun
    · rw [FileNode.sight_put_append_of_ne _ _ hne hd]
      exact nofun
  refine ⟨⟨rfl, fun p hp => ?_⟩, fun p _ c => ?_⟩
  · have hpre : ¬ place <+: p := by
      rintro ⟨more, rfl⟩
      rw [hbelow] at hp
      cases hp
    exact (FileNode.sight_put_of_not_below _ _ hpre).trans hp
  · by_cases hpre : place <+: p
    · obtain ⟨more, rfl⟩ := hpre
      exact ⟨fun hc => absurd hc (hnofile more c), fun hc => by rw [hbelow] at hc; cases hc⟩
    · exact Eq.congr_left (FileNode.sight_put_of_not_below _ _ hpre)

/-- And a file with the name `t` where no directory was. -/
theorem grows_putAt_file (h : fs.root.sight place ≠ .directory) (ht : place.getLast? = some t)
    (content : ByteArray) : fs.Grows t (fs.putAt place (.file content)) := by
  have hne : place ≠ [] := by
    rintro rfl
    cases ht
  refine ⟨⟨rfl, fun p hp => ?_⟩, fun p hlast c => ?_⟩
  · have hpre : ¬ place <+: p := by
      rintro ⟨more, rfl⟩
      by_cases hm : more = []
      · rw [hm, List.append_nil] at hp
        exact h hp
      · rw [FileNode.sight_append_of_ne_directory h hm] at hp
        cases hp
    exact (FileNode.sight_put_of_not_below _ _ hpre).trans hp
  · by_cases hpre : place <+: p
    · obtain ⟨more, rfl⟩ := hpre
      have hm : more ≠ [] := by
        rintro rfl
        rw [List.append_nil] at hlast
        exact hlast ht
      have hnothing : (fs.root.put (.file content) place).sight (place ++ more) = .nothing := by
        by_cases hd : fs.root.sight place.dropLast = .directory
        · rw [FileNode.sight_put_append _ hne hd]
          obtain ⟨name, rest, rfl⟩ := List.exists_cons_of_ne_nil hm
          rfl
        · exact FileNode.sight_put_append_of_ne _ _ hne hd more
      rw [FileNode.sight_append_of_ne_directory h hm]
      exact Eq.congr_left hnothing
    · exact Eq.congr_left (FileNode.sight_put_of_not_below _ _ hpre)

end FileSystem
end Publishing
