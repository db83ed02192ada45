import Mathlib.Data.List.DropRight
import Publishing.Proofs.Walks
import Publishing.Store.File

/-
The temporary file of a store is beside its state file.

The path of the temporary file is made from the text of the other one, by cutting off its
last part.  Dots and empty parts are in the way of reading that off: what counts are the
parts that lead somewhere, the solid ones, and `names_temporary` says that both paths have
the same, but for the last.
-/

namespace Publishing
namespace Path

variable {path name : String} {cs a b : List Char} {l q : List (List Char)}

/-- Whether a part leads somewhere. -/
def isSolid (p : List Char) : Bool := p ≠ [] ∧ p ≠ ['.']

/-! ## Splitting and joining -/

theorem splitSlashes_ne_nil (cs : List Char) : splitSlashes cs ≠ [] := by
  cases cs with
  | nil => exact nofun
  | cons c rest =>
    rw [splitSlashes]
    split
    · exact nofun
    · split <;> exact nofun

theorem splitSlashes_slash (cs : List Char) : splitSlashes ('/' :: cs) = [] :: splitSlashes cs := by
  rw [splitSlashes]
  obtain ⟨part, parts, h⟩ := List.exists_cons_of_ne_nil (splitSlashes_ne_nil cs)
  rw [h]
  rfl

theorem splitSlashes_cons {c : Char} (hc : c ≠ '/') {part : List Char} {parts : List (List Char)}
    (h : splitSlashes cs = part :: parts) : splitSlashes (c :: cs) = (c :: part) :: parts := by
  rw [splitSlashes, h]
  exact if_neg hc

theorem splitSlashes_append_slash (a b : List Char) :
    splitSlashes (a ++ '/' :: b) = splitSlashes a ++ splitSlashes b := by
  induction a with
  | nil => exact splitSlashes_slash b
  | cons c rest ih =>
    by_cases hc : c = '/'
    · subst hc
      rw [List.cons_append, splitSlashes_slash, splitSlashes_slash, ih, List.cons_append]
    · obtain ⟨part, parts, h⟩ := List.exists_cons_of_ne_nil (splitSlashes_ne_nil rest)
      rw [h] at ih
      rw [List.cons_append, splitSlashes_cons hc ih, splitSlashes_cons hc h]
      rfl

theorem splitSlashes_of_not_mem {p : List Char} (h : '/' ∉ p) : splitSlashes p = [p] := by
  induction p with
  | nil => rfl
  | cons c rest ih =>
    obtain ⟨hc, hrest⟩ := not_or.mp (mt List.mem_cons.mpr h)
    exact splitSlashes_cons (Ne.symm hc) (ih hrest)

theorem not_mem_of_mem_splitSlashes {p : List Char} (h : p ∈ splitSlashes cs) : '/' ∉ p := by
  induction cs generalizing p with
  | nil =>
    obtain rfl := List.mem_singleton.mp h
    exact List.not_mem_nil
  | cons c rest ih =>
    by_cases hc : c = '/'
    · subst hc
      rw [splitSlashes_slash] at h
      rcases List.mem_cons.mp h with rfl | h
      · exact List.not_mem_nil
      · exact ih h
    · obtain ⟨part, parts, hs⟩ := List.exists_cons_of_ne_nil (splitSlashes_ne_nil rest)
      rw [splitSlashes_cons hc hs] at h
      rcases List.mem_cons.mp h with rfl | h
      · exact fun hm => (List.mem_cons.mp hm).elim (fun h => hc h.symm)
          (ih (hs ▸ List.mem_cons_self))
      · exact ih (hs ▸ List.mem_cons_of_mem _ h)

theorem joinSlashes_cons_cons (p p' : List Char) (rest : List (List Char)) :
    joinSlashes (p :: p' :: rest) = p ++ '/' :: joinSlashes (p' :: rest) := by
  simp [joinSlashes, List.intercalate]

theorem joinSlashes_singleton (p : List Char) : joinSlashes [p] = p := by
  simp [joinSlashes, List.intercalate]

/-- Parts without slashes are what their joined text is split into. -/
theorem splitSlashes_joinSlashes (hne : l ≠ []) (h : ∀ p ∈ l, '/' ∉ p) :
    splitSlashes (joinSlashes l) = l := by
  induction l with
  | nil => exact absurd rfl hne
  | cons p rest ih =>
    obtain ⟨hp, hrest⟩ := List.forall_mem_cons.mp h
    cases rest with
    | nil => rw [joinSlashes_singleton, splitSlashes_of_not_mem hp]
    | cons p' rest =>
      rw [joinSlashes_cons_cons, splitSlashes_append_slash, splitSlashes_of_not_mem hp,
        ih (List.cons_ne_nil _ _) hrest, List.singleton_append]

/-! ## Solid parts -/

/-- The solid parts of a text. -/
def solid (cs : List Char) : List (List Char) := (splitSlashes cs).filter isSolid

theorem solid_append_slash (a b : List Char) : solid (a ++ '/' :: b) = solid a ++ solid b := by
  rw [solid, splitSlashes_append_slash, List.filter_append, solid, solid]

theorem solid_slash (cs : List Char) : solid ('/' :: cs) = solid cs := solid_append_slash [] cs

theorem solid_dot_slash (cs : List Char) : solid ('.' :: '/' :: cs) = solid cs :=
  solid_append_slash ['.'] cs

/-- The prefix of a path leads nowhere. -/
def prefixSize : List Char → Nat
  | '/' :: _ | ['.'] | '.' :: '/' :: _ => 1
  | _ => 0

theorem parts_eq (path : String) : parts path = (path.toList.take (prefixSize path.toList),
    parts.trimmed (splitSlashes (path.toList.drop (prefixSize path.toList)))) := rfl

theorem solid_drop_prefixSize (cs : List Char) : solid (cs.drop (prefixSize cs)) = solid cs := by
  unfold prefixSize
  split
  · exact (solid_slash _).symm
  · rfl
  · exact (solid_slash _).trans (solid_dot_slash _).symm
  · rfl

theorem trimmed_eq (l : List (List Char)) :
    parts.trimmed l = l.rdropWhile fun p => !isSolid p := by
  have hp : (fun p : List Char => decide (p = []) || decide (p = ['.'])) = fun p => !isSolid p := by
    funext p
    by_cases h : p = [] <;> by_cases h' : p = ['.'] <;> simp [isSolid, h, h']
  rw [List.rdropWhile, ← hp, parts.trimmed]

theorem filter_trimmed (l : List (List Char)) :
    (parts.trimmed l).filter isSolid = l.filter isSolid := by
  rw [trimmed_eq]
  have hrest : (l.rtakeWhile fun p => !isSolid p).filter isSolid = [] := by
    refine List.filter_eq_nil_iff.mpr fun p hp => ?_
    simpa using List.mem_rtakeWhile_imp hp
  have hsplit : (l.rdropWhile fun p => !isSolid p) ++ (l.rtakeWhile fun p => !isSolid p) = l :=
    List.rdropWhile_append_rtakeWhile
  conv_rhs => rw [← hsplit, List.filter_append, hrest, List.append_nil]

theorem trimmed_isPrefix (l : List (List Char)) : parts.trimmed l <+: l :=
  trimmed_eq l ▸ List.rdropWhile_prefix _ l

/-- A trimmed list ends with its last solid part. -/
theorem getLast?_trimmed (l : List (List Char)) :
    (parts.trimmed l).getLast? = (l.filter isSolid).getLast? := by
  rw [← filter_trimmed]
  rcases List.eq_nil_or_concat' (parts.trimmed l) with h | ⟨front, p, h⟩
  · rw [h]; rfl
  · have hsolid : isSolid p := by
      have hne : l.rdropWhile (fun p => !isSolid p) ≠ [] := by
        rw [← trimmed_eq, h]
        exact List.append_ne_nil_of_right_ne_nil _ (List.cons_ne_nil _ _)
      have hlast := List.rdropWhile_last_not (fun p => !isSolid p) l hne
      simpa [← trimmed_eq, h] using hlast
    rw [h, List.filter_append, List.filter_cons_of_pos hsolid, List.filter_nil]
    simp

theorem getLast?_filter {α : Type} {p : α → Bool} {l : List α} {a : α} (h : l.getLast? = some a)
    (ha : p a) : (l.filter p).getLast? = some a := by
  obtain ⟨front, rfl⟩ := List.getLast?_eq_some_iff.mp h
  rw [List.filter_append, List.filter_cons_of_pos ha, List.filter_nil]
  exact List.getLast?_eq_some_iff.mpr ⟨_, rfl⟩

theorem dropLast_filter {α : Type} {p : α → Bool} {l : List α} {a : α} (h : l.getLast? = some a)
    (ha : p a) : l.dropLast.filter p = (l.filter p).dropLast := by
  obtain ⟨front, rfl⟩ := List.getLast?_eq_some_iff.mp h
  rw [List.filter_append, List.filter_cons_of_pos ha, List.filter_nil, List.dropLast_concat,
    List.dropLast_concat]

theorem isSolid_iff {p : List Char} : isSolid p ↔ p ≠ [] ∧ p ≠ ['.'] := by
  rw [isSolid, decide_eq_true_eq]

/-! ## A path that ends in a name -/

theorem isSolid_of_endsIn (h : EndsIn path name) :
    (solid path.toList).getLast? = some name.toList ∧ isSolid name.toList := by
  obtain ⟨hlast, hdot, -⟩ := h
  rw [pieces, List.getLast?_map] at hlast
  obtain ⟨p, hp, rfl⟩ := Option.map_eq_some_iff.mp hlast
  have hne : p ≠ [] := by simpa using List.of_mem_filter (List.mem_of_getLast? hp)
  have hsolid : isSolid p := by
    refine isSolid_iff.mpr ⟨hne, ?_⟩
    rintro rfl
    exact hdot rfl
  have hboth : solid path.toList = ((splitSlashes path.toList).filter (· ≠ [])).filter isSolid := by
    rw [List.filter_filter, solid]
    refine List.filter_congr fun q _ => ?_
    by_cases hq : q = [] <;> simp [isSolid, hq]
  rw [hboth, String.toList_ofList]
  exact ⟨getLast?_filter hp hsolid, hsolid⟩

theorem getLast?_parts (h : EndsIn path name) : (parts path).2.getLast? = some name.toList := by
  rw [parts_eq, getLast?_trimmed]
  show (solid _).getLast? = _
  rw [solid_drop_prefixSize]
  exact (isSolid_of_endsIn h).1

theorem fileName?_of_endsIn (h : EndsIn path name) : fileName? path = some name := by
  unfold fileName?
  rw [getLast?_parts h]
  have hne : name.toList ≠ ['.', '.'] := fun he => h.2.2 (String.toList_inj.mp he)
  show (if name.toList = ['.', '.'] then none else some (String.ofList name.toList)) = _
  rw [if_neg hne, String.ofList_toList]

/-- The parts above the last one, with the prefix in front. -/
def above (path : String) : List Char :=
  (parts path).1 ++ joinSlashes (parts.trimmed (parts path).2.dropLast)

theorem parent?_of_endsIn (h : EndsIn path name) :
    parent? path = some (String.ofList (above path)) := by
  have hne : (parts path).2 ≠ [] := by
    intro he
    have hlast := getLast?_parts h
    rw [he] at hlast
    cases hlast
  unfold parent? above
  split
  · next he => rw [he] at hne; exact absurd rfl hne
  · next he => rw [he] at hne; exact absurd rfl hne
  · next he => rw [he] at hne; exact absurd rfl hne
  · next he => rw [he]

/-- Joined parts begin as their first part does. -/
theorem head?_joinSlashes {c : Char} {p : List Char} (l : List (List Char)) :
    (joinSlashes ((c :: p) :: l)).head? = some c := by
  cases l with
  | nil => rw [joinSlashes_singleton]; rfl
  | cons p' rest => rw [joinSlashes_cons_cons]; rfl

theorem solid_joinSlashes (hs : ∀ p ∈ l, '/' ∉ p) : solid (joinSlashes l) = l.filter isSolid := by
  by_cases hne : l = []
  · subst hne
    rfl
  · rw [solid, splitSlashes_joinSlashes hne hs]

/-- The path above has the same solid parts, but for the last, and begins alike. -/
theorem above_spec (h : EndsIn path name) :
    solid (above path) = (solid path.toList).dropLast ∧
      ((above path).head? = some '/' ↔ path.toList.head? = some '/') := by
  obtain ⟨hlast, hsolid⟩ := isSolid_of_endsIn h
  have hparts := getLast?_parts h
  rw [parts_eq] at hparts
  rw [above, parts_eq]
  generalize path.toList = cs at hlast hparts ⊢
  -- the parts that are joined are the first ones of those that the path was split into
  have hpre : parts.trimmed (parts.trimmed (splitSlashes (cs.drop (prefixSize cs)))).dropLast <+:
      splitSlashes (cs.drop (prefixSize cs)) := by
    refine (trimmed_isPrefix _).trans ((List.dropLast_prefix _).trans (trimmed_isPrefix _))
  have hfilter : (parts.trimmed (parts.trimmed
      (splitSlashes (cs.drop (prefixSize cs)))).dropLast).filter isSolid = (solid cs).dropLast := by
    rw [filter_trimmed, dropLast_filter hparts hsolid, filter_trimmed]
    exact congrArg _ (solid_drop_prefixSize cs)
  generalize parts.trimmed (parts.trimmed
    (splitSlashes (cs.drop (prefixSize cs)))).dropLast = q at hpre hfilter ⊢
  have hslash : ∀ p ∈ q, '/' ∉ p := fun p hp => not_mem_of_mem_splitSlashes (hpre.subset hp)
  rw [← hfilter]
  unfold prefixSize at hpre ⊢
  split at hpre
  · next rest =>
    exact ⟨(solid_slash _).trans (solid_joinSlashes hslash), Iff.rfl⟩
  · cases hlast
  · next rest =>
    refine ⟨?_, Iff.rfl⟩
    rw [List.drop_one, List.tail_cons, splitSlashes_slash] at hpre
    show solid ('.' :: joinSlashes q) = _
    rcases List.prefix_cons_iff.mp hpre with rfl | ⟨q', rfl, -⟩
    · rfl
    · cases q' with
      | nil => rfl
      | cons p' rest' =>
        rw [joinSlashes_cons_cons, List.nil_append, solid_dot_slash,
          solid_joinSlashes fun p hp => hslash p (List.mem_cons_of_mem _ hp)]
        rfl
  · next hno _ _ =>
    refine ⟨solid_joinSlashes hslash, ?_⟩
    show (joinSlashes q).head? = _ ↔ _
    cases cs with
    | nil => cases hlast
    | cons c rest =>
      have hc : c ≠ '/' := by
        rintro rfl
        exact hno _ rfl
      obtain ⟨part, parts, hs⟩ := List.exists_cons_of_ne_nil (splitSlashes_ne_nil rest)
      rw [List.drop_zero, splitSlashes_cons hc hs] at hpre
      have hhead : (joinSlashes q).head? ≠ some '/' := by
        rcases List.prefix_cons_iff.mp hpre with rfl | ⟨q', rfl, -⟩
        · exact nofun
        · rw [head?_joinSlashes]
          exact fun he => hc (Option.some.inj he)
      exact iff_of_false hhead fun he => hc (Option.some.inj he)

/-- A path that a part without slashes is joined to. -/
theorem join_spec {more : String} (hne : path ≠ "") (hslash : '/' ∉ more.toList)
    (hsolid : isSolid more.toList) :
    (∃ front, splitSlashes (join path more).toList = front ++ [more.toList]) ∧
      solid (join path more).toList = solid path.toList ++ [more.toList] ∧
      (join path more).toList.head? = path.toList.head? := by
  have hmore : splitSlashes more.toList = [more.toList] := splitSlashes_of_not_mem hslash
  have hsolidMore : solid more.toList = [more.toList] := by
    rw [solid, hmore, List.filter_cons_of_pos hsolid, List.filter_nil]
  have hcs : path.toList ≠ [] := fun he => hne (String.toList_inj.mp he)
  have habs : isAbsolute more = false := by
    refine decide_eq_false fun he => hslash ?_
    exact List.mem_of_mem_head? he
  unfold join
  rw [if_neg (by simp [habs, hne])]
  split
  · next hlast =>
    obtain ⟨front, hfront⟩ := List.getLast?_eq_some_iff.mp hlast
    rw [String.toList_append, hfront, List.append_assoc, List.singleton_append]
    refine ⟨⟨splitSlashes front, by rw [splitSlashes_append_slash, hmore]⟩, ?_, ?_⟩
    · rw [solid_append_slash, solid_append_slash, hsolidMore, List.append_assoc]
      rfl
    · cases front <;> rfl
  · have hjoin : (path ++ "/" ++ more).toList = path.toList ++ '/' :: more.toList := by
      rw [String.toList_append, String.toList_append, List.append_assoc]
      rfl
    rw [hjoin]
    refine ⟨⟨splitSlashes path.toList, by rw [splitSlashes_append_slash, hmore]⟩,
      by rw [solid_append_slash, hsolidMore], ?_⟩
    obtain ⟨c, rest, hc⟩ := List.exists_cons_of_ne_nil hcs
    rw [hc]
    rfl

end Path

namespace FileStore

variable {s : FileStore} {name : String}

/-- The name of the temporary file of a state file. -/
def temporaryName (name : String) : String := "." ++ name ++ ".tmp"

theorem toList_temporaryName (name : String) :
    (temporaryName name).toList = '.' :: (name.toList ++ ['.', 't', 'm', 'p']) := by
  rw [temporaryName, String.toList_append, String.toList_append]
  rfl

theorem temporaryName_ne (name : String) : name ≠ temporaryName name := by
  intro h
  have hlen := congrArg (fun s => s.toList.length) h
  rw [toList_temporaryName] at hlen
  simp at hlen
  omega

theorem directory_spec (h : Path.EndsIn s.path name) : s.directory ≠ "" ∧
    Path.solid s.directory.toList = (Path.solid s.path.toList).dropLast ∧
    (s.directory.toList.head? = some '/' ↔ s.path.toList.head? = some '/') := by
  obtain ⟨hsolid, hhead⟩ := Path.above_spec h
  have hdir : s.directory =
      if Path.above s.path = [] then "." else .ofList (Path.above s.path) := by
    unfold directory
    rw [Path.parent?_of_endsIn h]
    refine if_congr ?_ rfl rfl
    rw [← String.toList_inj, String.toList_ofList]
    rfl
  rw [hdir]
  split
  · next hnil =>
    rw [hnil] at hsolid hhead
    exact ⟨nofun, hsolid, by simpa using hhead⟩
  · next hne =>
    rw [String.toList_ofList]
    refine ⟨fun he => hne ?_, hsolid, hhead⟩
    rw [← String.toList_ofList (l := Path.above s.path), he]
    rfl

/-- The temporary file is in the directory of the state file. -/
theorem temporary_spec (h : Path.EndsIn s.path name) :
    Path.EndsIn s.temporary (temporaryName name) ∧
      Path.names s.temporary = (Path.names s.path).dropLast ++ [temporaryName name] ∧
      Path.isAbsolute s.temporary = Path.isAbsolute s.path := by
  obtain ⟨hne, hsolid, hhead⟩ := directory_spec h
  obtain ⟨hlast, hname⟩ := Path.isSolid_of_endsIn h
  have hslash : '/' ∉ (temporaryName name).toList := by
    rw [toList_temporaryName]
    have hn :=
      Path.not_mem_of_mem_splitSlashes (List.mem_of_mem_filter (List.mem_of_getLast? hlast))
    simp [hn]
  have hmore : Path.isSolid (temporaryName name).toList := by
    rw [toList_temporaryName]
    exact Path.isSolid_iff.mpr ⟨nofun, by simp⟩
  have htemp : s.temporary = Path.join s.directory (temporaryName name) := by
    rw [temporary, Path.fileName?_of_endsIn h]
    rfl
  obtain ⟨⟨front, hsplit⟩, hparts, hfirst⟩ := Path.join_spec hne hslash hmore
  rw [← htemp] at hsplit hparts hfirst
  refine ⟨⟨?_, ?_, ?_⟩, ?_, ?_⟩
  · have hend : (front ++ [(temporaryName name).toList]).getLast? =
        some (temporaryName name).toList :=
      List.getLast?_eq_some_iff.mpr ⟨front, rfl⟩
    rw [Path.pieces, hsplit, List.getLast?_map, Path.getLast?_filter hend
      (decide_eq_true (Path.isSolid_iff.mp hmore).1), Option.map_some, String.ofList_toList]
  · intro he
    exact (Path.isSolid_iff.mp hmore).2 (by rw [he]; rfl)
  · intro he
    have hlen := congrArg (fun s => s.toList.length) he
    rw [toList_temporaryName] at hlen
    simp at hlen
  · show (Path.solid _).map _ = ((Path.solid _).map _).dropLast ++ _
    rw [hparts, hsolid, List.map_append, List.map_dropLast, List.map_singleton,
      String.ofList_toList]
  · rw [Path.isAbsolute, Path.isAbsolute, hfirst]
    exact decide_eq_decide.mpr hhead

end FileStore
end Publishing
