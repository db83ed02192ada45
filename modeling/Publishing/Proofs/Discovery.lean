import Mathlib.Data.List.Nodup
import Mathlib.Data.List.TakeWhile
import Publishing.Content
import Publishing.Proofs.Places

/-
What discovery finds.

A tree is what it has at each place.  A walk visits each file once that no hidden name leads to,
and of these discovery keeps those with a wanted extension.  What counts as one is said here of the
tree alone: it is at a place that no name on the way to hides, and its name is a stem, a dot and an
extension without dots.
-/

namespace Publishing

namespace FileNode

/-- Whether the names in each directory of a tree differ. -/
def HasDistinctNames (n : FileNode) : Prop :=
  ∀ place es, n.find? place = some (.directory es) → (es.map (·.1)).Nodup

variable {es : List (String × FileNode)} {name : String} {node : FileNode}

theorem lookup_eq_some_iff_mem (h : (es.map (·.1)).Nodup) :
    es.lookup name = some node ↔ (name, node) ∈ es := by
  induction es with
  | nil => simp
  | cons e rest ih =>
    obtain ⟨hnew, hrest⟩ := List.nodup_cons.mp h
    rw [List.lookup_cons]
    by_cases hname : name = e.1
    · subst hname
      have hnot : (e.1, node) ∉ rest := fun hmem => hnew (List.mem_map.mpr ⟨_, hmem, rfl⟩)
      simp [Prod.ext_iff, hnot, eq_comm]
    · have hne : (name, node) ≠ e := fun h => hname (congrArg Prod.fst h)
      rw [beq_eq_false_iff_ne.mpr hname, List.mem_cons, or_iff_right hne, ← ih hrest]

theorem find?_cons (es : List (String × FileNode)) (name : String) (rest : List String) :
    (directory es).find? (name :: rest) = (es.lookup name).bind (·.find? rest) := by
  rw [find?, show (directory es).entries = es from rfl]
  cases es.lookup name <;> rfl

theorem find?_cons_of_mem (h : (es.map (·.1)).Nodup) (hmem : (name, node) ∈ es)
    (rest : List String) : (directory es).find? (name :: rest) = node.find? rest := by
  rw [find?_cons, (lookup_eq_some_iff_mem h).mpr hmem, Option.bind_some]

namespace HasDistinctNames

theorem nodup (h : (directory es).HasDistinctNames) : (es.map (·.1)).Nodup := h [] es rfl

theorem of_file (content : ByteArray) : (file content).HasDistinctNames
  | [], _, h => by cases h
  | _ :: _, _, h => by cases h

theorem of_children (hnames : (es.map (·.1)).Nodup) (hes : ∀ e ∈ es, e.2.HasDistinctNames) :
    (directory es).HasDistinctNames
  | [], _, h => by
    cases h
    exact hnames
  | name :: place, es', h => by
    rw [find?_cons] at h
    obtain ⟨node, hlookup, hfind⟩ := Option.bind_eq_some_iff.mp h
    exact hes _ ((lookup_eq_some_iff_mem hnames).mp hlookup) place es' hfind

theorem child (h : (directory es).HasDistinctNames) (hmem : (name, node) ∈ es) :
    node.HasDistinctNames := fun place es' hfind =>
  h (name :: place) es' <| by rwa [find?_cons_of_mem h.nodup hmem]

end HasDistinctNames
end FileNode

namespace Path

variable {name stem ext : String}

theorem splitExtension_append (hstem : stem ≠ "") (hext : '.' ∉ ext.toList)
    (hdots : stem ++ "." ++ ext ≠ "..") :
    splitExtension (stem ++ "." ++ ext) = (stem, some ext) := by
  have hlist : (stem ++ "." ++ ext).toList = stem.toList ++ '.' :: ext.toList := by simp
  have hbehind : (stem ++ "." ++ ext).toList.reverse.takeWhile (· ≠ '.') = ext.toList.reverse := by
    rw [hlist, List.reverse_append, List.reverse_cons, List.append_assoc,
      List.takeWhile_append_of_pos]
    · simp
    · intro c hc
      exact decide_eq_true fun h => hext (h ▸ List.mem_reverse.mp hc)
  have hfront : (stem ++ "." ++ ext).toList.take
      ((stem ++ "." ++ ext).toList.length - ext.toList.length - 1) = stem.toList := by
    rw [hlist]
    refine List.take_left' ?_
    simp only [List.length_append, List.length_cons]
    omega
  simp only [splitExtension, hbehind, List.reverse_reverse, hfront]
  rw [if_neg, String.ofList_toList, String.ofList_toList]
  simp only [hlist, List.length_append, List.length_cons, hdots, or_false, String.toList_eq_nil_iff]
  refine not_or.mpr ⟨?_, hstem⟩
  omega

theorem splitExtension_of_not_mem (h : '.' ∉ name.toList) : splitExtension name = (name, none) := by
  have hall : name.toList.reverse.takeWhile (· ≠ '.') = name.toList.reverse :=
    List.takeWhile_eq_self_iff.mpr fun c hc =>
      decide_eq_true fun hdot => h (hdot ▸ List.mem_reverse.mp hc)
  simp only [splitExtension, hall, List.reverse_reverse, true_or, if_true]

/-- A name that does not begin with a dot has as its extension what follows its last dot. -/
theorem splitExtension_eq_some (hv : name.toList.head? ≠ some '.') :
    splitExtension name = (stem, some ext) ↔ name = stem ++ "." ++ ext ∧ '.' ∉ ext.toList := by
  have happ : ∀ {stem ext : String}, name = stem ++ "." ++ ext → '.' ∉ ext.toList →
      splitExtension name = (stem, some ext) := by
    rintro stem ext rfl hext
    refine splitExtension_append ?_ hext ?_
    · rintro rfl
      exact hv (by simp)
    · intro h
      rw [h] at hv
      exact hv rfl
  refine ⟨fun h => ?_, fun ⟨hname, hext⟩ => happ hname hext⟩
  by_cases hdot : '.' ∈ name.toList
  · obtain ⟨front, behind, hlist, hext⟩ := List.eq_append_cons_of_mem (List.mem_reverse.mpr hdot)
    have hname : name = String.ofList behind.reverse ++ "." ++ String.ofList front.reverse := by
      rw [← String.toList_inj]
      simpa using congrArg List.reverse hlist
    have hext : '.' ∉ (String.ofList front.reverse).toList := by simpa using hext
    obtain ⟨hstem, hsome⟩ := Prod.mk.inj ((happ hname hext).symm.trans h)
    rw [← hstem, ← Option.some.inj hsome]
    exact ⟨hname, hext⟩
  · rw [splitExtension_of_not_mem hdot] at h
    cases h

end Path

namespace Content

/-! ## Walks -/

mutual

theorem filesBelow_eq (above : List String) : (n : FileNode) →
    filesBelow above n = (filesBelow [] n).map fun f => (above ++ f.1, f.2)
  | .file content => by simp [filesBelow]
  | .directory es => filesIn_eq above es

theorem filesIn_eq (above : List String) : (es : List (String × FileNode)) →
    filesIn above es = (filesIn [] es).map fun f => (above ++ f.1, f.2)
  | [] => rfl
  | (name, node) :: rest => by
    rw [filesIn, filesIn, filesBelow_eq (above ++ [name]) node, filesBelow_eq ([] ++ [name]) node,
      filesIn_eq above rest]
    split <;> simp

end

theorem filesIn_cons (name : String) (node : FileNode) (rest : List (String × FileNode)) :
    filesIn [] ((name, node) :: rest) =
      (if isHidden name then [] else (filesBelow [] node).map fun f => (name :: f.1, f.2)) ++
        filesIn [] rest := by
  rw [filesIn, filesBelow_eq]
  rfl

theorem mem_filesIn {es : List (String × FileNode)} {f : List String × ByteArray} :
    f ∈ filesIn [] es ↔ ∃ e ∈ es, isHidden e.1 = false ∧
      ∃ g ∈ filesBelow [] e.2, f = (e.1 :: g.1, g.2) := by
  induction es with
  | nil => simp [filesIn]
  | cons e rest ih =>
    rw [filesIn_cons, List.mem_append, ih, List.exists_mem_cons_iff]
    refine or_congr_left ?_
    cases isHidden e.1 with
    | true => simp
    | false =>
      simp only [Bool.false_eq_true, if_false, List.mem_map, true_and]
      exact exists_congr fun g => and_congr_right fun _ => eq_comm

/-- A walk finds the files that no hidden name leads to. -/
theorem mem_filesBelow {n : FileNode} (hn : n.HasDistinctNames) {place : List String}
    {content : ByteArray} : (place, content) ∈ filesBelow [] n ↔
      n.find? place = some (.file content) ∧ ∀ name ∈ place, isHidden name = false := by
  induction place generalizing n with
  | nil =>
    cases n with
    | file c =>
      rw [filesBelow, List.mem_singleton, FileNode.find?, Prod.mk.injEq, Option.some.injEq,
        FileNode.file.injEq]
      exact ⟨fun h => ⟨h.2.symm, List.forall_mem_nil _⟩, fun h => ⟨rfl, h.1.symm⟩⟩
    | directory es =>
      rw [filesBelow, mem_filesIn]
      simp [FileNode.find?]
  | cons name rest ih =>
    cases n with
    | file c => simp [filesBelow, FileNode.find?, FileNode.entries]
    | directory es =>
      rw [filesBelow, mem_filesIn, List.forall_mem_cons]
      constructor
      · rintro ⟨⟨_, node⟩, hmem, hvisible, ⟨_, _⟩, hg, hf⟩
        obtain ⟨⟨rfl, rfl⟩, rfl⟩ := by simpa using hf
        obtain ⟨hfind, hrest⟩ := (ih (hn.child hmem)).mp hg
        rw [FileNode.find?_cons_of_mem hn.nodup hmem]
        exact ⟨hfind, hvisible, hrest⟩
      · rintro ⟨hfind, hvisible, hrest⟩
        rw [FileNode.find?_cons] at hfind
        obtain ⟨node, hlookup, hfind⟩ := Option.bind_eq_some_iff.mp hfind
        have hmem := (FileNode.lookup_eq_some_iff_mem hn.nodup).mp hlookup
        exact ⟨_, hmem, hvisible, _, (ih (hn.child hmem)).mpr ⟨hfind, hrest⟩, rfl⟩

mutual

/-- It finds each of them once. -/
theorem nodup_filesBelow : (n : FileNode) → n.HasDistinctNames → (filesBelow [] n).Nodup
  | .file _, _ => List.pairwise_singleton ..
  | .directory es, h => nodup_filesIn es h.nodup fun _ hmem => h.child hmem

theorem nodup_filesIn : (es : List (String × FileNode)) → (es.map (·.1)).Nodup →
    (∀ e ∈ es, e.2.HasDistinctNames) → (filesIn [] es).Nodup
  | [], _, _ => List.nodup_nil
  | (name, node) :: rest, hnames, hdistinct => by
    obtain ⟨hnew, hnames⟩ := List.nodup_cons.mp hnames
    obtain ⟨hnode, hdistinct⟩ := List.forall_mem_cons.mp hdistinct
    have hbelow := nodup_filesBelow node hnode
    have hrest := nodup_filesIn rest hnames hdistinct
    rw [filesIn_cons]
    split
    · exact hrest
    refine List.nodup_append.mpr ⟨List.Nodup.map (fun f g h => ?_) hbelow, hrest, ?_⟩
    · simpa [Prod.ext_iff] using h
    · -- they lie below different names
      intro f hf g hg hfg
      obtain ⟨f, -, rfl⟩ := List.mem_map.mp hf
      obtain ⟨e, he, -, g, -, rfl⟩ := mem_filesIn.mp hg
      have hname : name = e.1 := (List.cons.inj (congrArg Prod.fst hfg)).1
      exact hnew (List.mem_map.mpr ⟨e, he, hname.symm⟩)

end

/-! ## What counts as content -/

/-- Whether an extension is one of these, the dots in front of them and the case of ASCII letters
aside. -/
def IsWanted (extensions : List String) (ext : String) : Prop :=
  ∃ dots bare, dots ++ bare ∈ extensions ∧ (∀ c ∈ dots.toList, c = '.') ∧
    bare.toList.head? ≠ some '.' ∧ Text.lowerAscii bare = Text.lowerAscii ext

/-- A file whose name is a stem, a dot and an extension. -/
structure File where
  above : List String
  stem : String
  ext : String
  content : ByteArray

namespace File

variable {f : File}

def name (f : File) : String := f.stem ++ "." ++ f.ext

def place (f : File) : List String := f.above ++ [f.name]

def path (f : File) : String := "/".intercalate f.place

def id (f : File) : String := "/".intercalate (f.above ++ [f.stem])

/-- The id is the path without the extension. -/
theorem path_eq (f : File) : f.path = f.id ++ "." ++ f.ext := by
  rw [path, id, place, name]
  cases f.above with
  | nil => simp
  | cons a rest =>
    rw [String.intercalate_append_of_ne_nil (by simp) (by simp),
      String.intercalate_append_of_ne_nil (by simp) (by simp)]
    simp [String.append_assoc]

/-- What is told of a file. -/
def item (f : File) : ContentItem where
  id := f.id
  metadata := .ofMembers
    [("path", .string f.path), ("contentHash", .string (Sha256.hex f.content.toList)),
      ("sizeBytes", .nat f.content.size)]

/-- What is told of a file says where it is. -/
theorem member?_path (f : File) : f.item.metadata.member? "path" = some (.string f.path) := by
  show (Keyed.insertEntry _ _ (Keyed.insertEntry _ _ (Keyed.insertEntry _ _ []))).lookup "path" = _
  rw [Keyed.lookup_insertEntry_of_ne (show "path" ≠ "sizeBytes" by decide),
    Keyed.lookup_insertEntry_of_ne (show "path" ≠ "contentHash" by decide),
    Keyed.lookup_insertEntry_self]

/-- Whether a file is in a tree, where no name on the way to it begins with a dot, and has one of
these extensions. -/
structure IsIn (f : File) (n : FileNode) (extensions : List String) : Prop where
  there : n.find? f.place = some (.file f.content)
  visible : ∀ name ∈ f.place, name.toList.head? ≠ some '.'
  last : '.' ∉ f.ext.toList
  wanted : IsWanted extensions f.ext

end File

theorem isHidden_eq_false {name : String} : isHidden name = false ↔ name.toList.head? ≠ some '.' :=
  decide_eq_false_iff_not

theorem lowerAscii_eq_iff {s t : String} : Text.lowerAscii s = Text.lowerAscii t ↔
    s.toList.map Char.toLower = t.toList.map Char.toLower := by
  rw [← String.toList_inj, Text.lowerAscii, Text.lowerAscii, String.toList_map, String.toList_map]

theorem isWanted_iff {extensions : List String} {ext : String} : IsWanted extensions ext ↔
    ∃ wanted ∈ extensions, Text.lowerAscii (String.ofList (wanted.toList.dropWhile (· = '.'))) =
      Text.lowerAscii ext := by
  constructor
  · rintro ⟨dots, bare, hmem, hdots, hbare, hext⟩
    refine ⟨_, hmem, ?_⟩
    have hdrop : (dots ++ bare).toList.dropWhile (· = '.') = bare.toList := by
      rw [String.toList_append, List.dropWhile_append_of_pos fun c hc => by simpa using hdots c hc]
      cases hb : bare.toList with
      | nil => rfl
      | cons c cs =>
        rw [hb] at hbare
        exact List.dropWhile_cons_of_neg (by simpa using hbare)
    rw [hdrop, String.ofList_toList, hext]
  · rintro ⟨wanted, hmem, hext⟩
    refine ⟨String.ofList (wanted.toList.takeWhile (· = '.')), _, ?_, fun c hc => ?_, ?_, hext⟩
    · rwa [← String.ofList_append, List.takeWhile_append_dropWhile, String.ofList_toList]
    · rw [String.toList_ofList] at hc
      simpa using List.mem_takeWhile_imp hc
    · rw [String.toList_ofList]
      intro h
      have := List.head?_dropWhile_not (· = '.') wanted.toList
      simp [h] at this

theorem hasExtension_iff {extensions : List String} {name : String} :
    hasExtension extensions name ↔
      ∃ stem ext, Path.splitExtension name = (stem, some ext) ∧ IsWanted extensions ext := by
  rcases hs : Path.splitExtension name with ⟨stem, _ | ext⟩
  · simp [hasExtension, hs]
  · simp only [hasExtension, hs, List.any_eq_true, decide_eq_true_eq, ← isWanted_iff]
    simp

/-! ## What a walk comes to -/

/-- The file that a walk has found at a place. -/
def File.ofFound (f : List String × ByteArray) : File :=
  let parts := Path.splitExtension (f.1.getLast?.getD "")
  ⟨f.1.dropLast, parts.1, parts.2.getD "", f.2⟩

/-- The content of a tree, in the order of the walk. -/
def filesOf (n : FileNode) (extensions : List String) : List File :=
  ((filesBelow [] n).filter fun f => hasExtension extensions (f.1.getLast?.getD "")).map .ofFound

variable {n : FileNode} {extensions : List String} {f : List String × ByteArray}

theorem ofFound_eq {above : List String} {last stem ext : String} {content : ByteArray}
    (h : Path.splitExtension last = (stem, some ext)) :
    File.ofFound (above ++ [last], content) = ⟨above, stem, ext, content⟩ := by
  simp [File.ofFound, h]

/-- What is found by an extension is the file at its place. -/
theorem place_ofFound (hv : ∀ name ∈ f.1, name.toList.head? ≠ some '.')
    (he : hasExtension extensions (f.1.getLast?.getD "")) : (File.ofFound f).place = f.1 ∧
      '.' ∉ (File.ofFound f).ext.toList ∧ IsWanted extensions (File.ofFound f).ext := by
  obtain ⟨stem, ext, hs, hw⟩ := hasExtension_iff.mp he
  obtain ⟨place, content⟩ := f
  rcases List.eq_nil_or_concat' place with rfl | ⟨above, last, rfl⟩
  · cases hs
  · rw [List.getLast?_concat, Option.getD_some] at hs
    obtain ⟨hname, hlast⟩ := (Path.splitExtension_eq_some
      (hv last (List.mem_append_right _ List.mem_cons_self))).mp hs
    rw [ofFound_eq hs]
    exact ⟨congrArg (above ++ [·]) hname.symm, hlast, hw⟩

theorem splitExtension_of_isIn {g : File} (h : g.IsIn n extensions) :
    Path.splitExtension g.name = (g.stem, some g.ext) :=
  (Path.splitExtension_eq_some
    (h.visible _ (List.mem_append_right _ List.mem_cons_self))).mpr ⟨rfl, h.last⟩

theorem File.IsIn.eq_of_place {g g' : File} (h : g.IsIn n extensions) (h' : g'.IsIn n extensions)
    (hplace : g.place = g'.place) : g = g' := by
  obtain ⟨habove, hname⟩ := List.append_inj' hplace rfl
  have hparts := (splitExtension_of_isIn h).symm.trans
    ((List.cons.inj hname).1 ▸ splitExtension_of_isIn h')
  have hcontent := h.there.symm.trans (hplace ▸ h'.there)
  cases g
  cases g'
  simp_all

theorem mem_filesOf (hn : n.HasDistinctNames) {g : File} :
    g ∈ filesOf n extensions ↔ g.IsIn n extensions := by
  simp only [filesOf, List.mem_map, List.mem_filter]
  constructor
  · rintro ⟨⟨place, content⟩, ⟨hf, he⟩, rfl⟩
    obtain ⟨hthere, hv⟩ := (mem_filesBelow hn).mp hf
    have hv : ∀ name ∈ place, name.toList.head? ≠ some '.' := fun name h =>
      isHidden_eq_false.mp (hv name h)
    obtain ⟨hplace, hlast, hw⟩ := place_ofFound (f := (place, content)) hv he
    exact ⟨hplace ▸ hthere, hplace ▸ hv, hlast, hw⟩
  · intro h
    have hs := splitExtension_of_isIn h
    refine ⟨(g.place, g.content), ⟨(mem_filesBelow hn).mpr ⟨h.there, fun name hname =>
      isHidden_eq_false.mpr (h.visible name hname)⟩, ?_⟩, ofFound_eq hs⟩
    rw [File.place, List.getLast?_concat, Option.getD_some]
    exact hasExtension_iff.mpr ⟨_, _, hs, h.wanted⟩

theorem place_of_mem (hn : n.HasDistinctNames) (hf : f ∈ (filesBelow [] n).filter fun f =>
    hasExtension extensions (f.1.getLast?.getD "")) : (File.ofFound f).place = f.1 := by
  obtain ⟨hf, he⟩ := List.mem_filter.mp hf
  exact (place_ofFound (fun name hname =>
    isHidden_eq_false.mp (((mem_filesBelow hn).mp hf).2 name hname)) he).1

theorem nodup_filesOf (hn : n.HasDistinctNames) : (filesOf n extensions).Nodup := by
  refine List.Nodup.map_on (fun f hf g hg h => ?_) ((nodup_filesBelow n hn).filter _)
  refine Prod.ext ?_ (congrArg File.content h)
  rw [← place_of_mem hn hf, h, place_of_mem hn hg]

/-! ## Discovery -/

theorem item_eq {g : File} (h : g.IsIn n extensions) : item g.place g.content = g.item := by
  have hid : withoutExtension g.place = g.above ++ [g.stem] := by
    simp [withoutExtension, File.place, splitExtension_of_isIn h]
  rw [item, hid]
  rfl

/-- The content of a tree by id, and in the order of the walk where the ids are the same. -/
def listed (n : FileNode) (extensions : List String) : List File :=
  (filesOf n extensions).mergeSort fun f g => f.id ≤ g.id

theorem listed_perm (n : FileNode) (extensions : List String) :
    (listed n extensions).Perm (filesOf n extensions) := List.mergeSort_perm ..

theorem mem_listed (hn : n.HasDistinctNames) {g : File} :
    g ∈ listed n extensions ↔ g.IsIn n extensions :=
  (listed_perm n extensions).mem_iff.trans (mem_filesOf hn)

theorem nodup_listed (hn : n.HasDistinctNames) : (listed n extensions).Nodup :=
  (listed_perm n extensions).nodup_iff.mpr (nodup_filesOf hn)

theorem pairwise_listed (n : FileNode) (extensions : List String) :
    (listed n extensions).Pairwise fun f g => f.id ≤ g.id := by
  refine (List.pairwise_mergeSort ?_ ?_ _).imp of_decide_eq_true
  · simpa only [decide_eq_true_eq] using fun _ _ _ => String.le_trans
  · simpa only [Bool.or_eq_true, decide_eq_true_eq] using fun _ _ => String.le_total _ _

theorem discover_eq {fs : FileSystem} {root : String} {es : List (String × FileNode)}
    (hroot : fs.stat root = .ok (.directory es)) (hn : (FileNode.directory es).HasDistinctNames)
    (extensions : List String) : discover fs root extensions =
      .ok ((listed (.directory es) extensions).map File.item) := by
  let rootName := (Path.fileName? root).getD ""
  have hfilter : ((filesBelow [] (.directory es)).filter fun f =>
      hasExtension extensions (f.1.getLast?.getD rootName)) =
        (filesBelow [] (.directory es)).filter fun f =>
          hasExtension extensions (f.1.getLast?.getD "") := by
    refine List.filter_congr fun ⟨place, content⟩ hf => ?_
    rcases List.eq_nil_or_concat' place with rfl | ⟨above, last, rfl⟩
    · -- the root is no file
      cases ((mem_filesBelow hn).mp hf).1
    · rw [List.getLast?_concat, Option.getD_some, Option.getD_some]
  have hitems : (((filesBelow [] (.directory es)).filter fun f =>
      hasExtension extensions (f.1.getLast?.getD "")).map fun f => item f.1 f.2) =
        (filesOf (.directory es) extensions).map File.item := by
    rw [filesOf, List.map_map]
    refine List.map_congr_left fun f hf => ?_
    have hin := (mem_filesOf hn).mp (List.mem_map_of_mem hf)
    rw [← place_of_mem hn hf]
    exact item_eq hin
  have hsort : (listed (.directory es) extensions).map File.item =
      ((filesOf (.directory es) extensions).map File.item).mergeSort fun a b => a.id ≤ b.id :=
    List.map_mergeSort fun _ _ _ _ => rfl
  rw [discover, hroot, hsort, ← hitems]
  dsimp only
  rw [hfilter]

/-- Discovery finds the files that count as content, each of them once, and tells of them in the
order of their ids.  How the root itself is called does not matter. -/
theorem discover_finds {fs : FileSystem} {root : String} {es : List (String × FileNode)}
    (hroot : fs.stat root = .ok (.directory es)) (hn : (FileNode.directory es).HasDistinctNames)
    (extensions : List String) : ∃ files : List File,
      discover fs root extensions = .ok (files.map File.item) ∧
      (∀ f, f ∈ files ↔ f.IsIn (.directory es) extensions) ∧ (files.map File.place).Nodup ∧
      (files.map File.id).Pairwise (· ≤ ·) ∧ ∀ f ∈ files, f.path = f.id ++ "." ++ f.ext := by
  refine ⟨_, discover_eq hroot hn extensions, fun f => mem_listed hn, ?_,
    List.pairwise_map.mpr (pairwise_listed ..), fun f _ => f.path_eq⟩
  refine List.Nodup.map_on (fun f hf g hg h => ?_) (nodup_listed hn)
  exact ((mem_listed hn).mp hf).eq_of_place ((mem_listed hn).mp hg) h

/-- A tree with content in two directories, and with files that do not count. -/
def sample : List (String × FileNode) :=
  [("b.tar.MD", .file .empty), (".draft", .directory [("c.md", .file .empty)]),
    ("guides", .directory [("a.md", .file .empty), (".md", .file .empty)]), ("md", .file .empty)]

theorem hasDistinctNames_sample : (FileNode.directory sample).HasDistinctNames := by
  have hfile := FileNode.HasDistinctNames.of_file
  refine .of_children (by decide) (List.forall_mem_cons.mpr ⟨hfile _, ?_⟩)
  simp [hfile, FileNode.HasDistinctNames.of_children]

/-- Below a hidden root a file in a directory is found, and one that hides in a directory is not. -/
theorem discover_finds_sample :
    let fs : FileSystem := ⟨.directory [(".site", .directory sample)], [], "/"⟩
    fs.stat ".site" = .ok (.directory sample) ∧ (FileNode.directory sample).HasDistinctNames ∧
      ∃ files : List File, discover fs ".site" ["txt", "..md"] = .ok (files.map File.item) ∧
        ⟨[], "b.tar", "MD", .empty⟩ ∈ files ∧ ⟨["guides"], "a", "md", .empty⟩ ∈ files ∧
        ⟨[".draft"], "c", "md", .empty⟩ ∉ files := by
  intro fs
  have hroot : fs.stat ".site" = .ok (.directory sample) := rfl
  obtain ⟨files, hfiles, hmem, -⟩ := discover_finds hroot hasDistinctNames_sample ["txt", "..md"]
  have hmd : ∀ ext, Text.lowerAscii "md" = Text.lowerAscii ext → IsWanted ["txt", "..md"] ext :=
    fun ext h => ⟨"..", "md", by decide, by simp, by decide, h⟩
  refine ⟨hroot, hasDistinctNames_sample, files, hfiles, ?_, ?_, fun h => ?_⟩
  · exact (hmem _).mpr ⟨rfl, by decide, by decide, hmd _ (lowerAscii_eq_iff.mpr (by decide))⟩
  · exact (hmem _).mpr ⟨rfl, by decide, by decide, hmd _ rfl⟩
  · exact ((hmem _).mp h).visible ".draft" (by decide) (by decide)

end Content
end Publishing
