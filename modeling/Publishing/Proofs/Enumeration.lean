import Publishing.Proofs.Discovery
import Publishing.Proofs.Reports

/-
What the order in which directories are listed has to do with an import.

Two trees are the same if they have the same at each place, in whatever order they list it.
Discovery sorts by ids, but an id leaves the extension out, and files of one id stay in the order
in which they were listed.  So two listings of a tree come to the same content if and only if no
two files of it are told apart by their extensions only.  Where there are such files, it is still
the same ids that are tracked, but which of the files an entity tells of depends on the listing.
-/

namespace Publishing

namespace FileNode

variable {n n' : FileNode} {es : List (String × FileNode)} {name : String} {place : List String}

/-- Whether two trees have the same at each place. -/
def SameTree (n n' : FileNode) : Prop := ∀ place, n'.sight place = n.sight place

/-- Whether no name in a tree holds a slash. -/
def HasPlainNames (n : FileNode) : Prop :=
  ∀ place es, n.find? place = some (.directory es) → ∀ e ∈ es, '/' ∉ e.1.toList

theorem mem_of_lookup {node : FileNode} (h : es.lookup name = some node) : (name, node) ∈ es := by
  obtain ⟨front, behind, rfl, -⟩ := List.lookup_eq_some_iff.mp h
  exact List.mem_append_right _ List.mem_cons_self

theorem HasPlainNames.of_file (content : ByteArray) : (file content).HasPlainNames
  | [], _, h => by cases h
  | _ :: _, _, h => by cases h

theorem HasPlainNames.of_children (h : ∀ e ∈ es, '/' ∉ e.1.toList ∧ e.2.HasPlainNames) :
    (directory es).HasPlainNames
  | [], _, hfind => by
    cases hfind
    exact fun e he => (h e he).1
  | name :: place, es', hfind => by
    rw [find?_cons] at hfind
    obtain ⟨node, hlookup, hnode⟩ := Option.bind_eq_some_iff.mp hfind
    exact (h _ (mem_of_lookup hlookup)).2 place es' hnode

theorem HasPlainNames.of_find? (h : n.HasPlainNames) {node : FileNode}
    (hfind : n.find? place = some node) : ∀ name ∈ place, '/' ∉ name.toList := by
  induction place generalizing n with
  | nil => exact nofun
  | cons name rest ih =>
    cases n with
    | file content => cases hfind
    | directory es =>
      rw [find?_cons] at hfind
      obtain ⟨child, hlookup, hrest⟩ := Option.bind_eq_some_iff.mp hfind
      have hchild : child.HasPlainNames := fun place es' hfind =>
        h (name :: place) es' (by rwa [find?_cons, hlookup, Option.bind_some])
      exact List.forall_mem_cons.mpr ⟨h [] es rfl _ (mem_of_lookup hlookup), ih hchild hrest⟩

/-! ## The other way round -/

mutual

/-- The same tree with each directory listed backwards. -/
def mirror : FileNode → FileNode
  | file content => file content
  | directory es => directory (mirrorEntries es)

def mirrorEntries : List (String × FileNode) → List (String × FileNode)
  | [] => []
  | (name, node) :: rest => mirrorEntries rest ++ [(name, mirror node)]

end

theorem mirrorEntries_eq (es : List (String × FileNode)) :
    mirrorEntries es = (es.map fun e => (e.1, e.2.mirror)).reverse := by
  induction es with
  | nil => rfl
  | cons e rest ih => rw [mirrorEntries, ih, List.map_cons, List.reverse_cons]

theorem nodup_mirrorEntries (h : (es.map (·.1)).Nodup) : ((mirrorEntries es).map (·.1)).Nodup := by
  rw [mirrorEntries_eq, List.map_reverse, List.map_map, List.nodup_reverse]
  exact h

theorem lookup_mirrorEntries (h : (es.map (·.1)).Nodup) (name : String) :
    (mirrorEntries es).lookup name = (es.lookup name).map mirror := by
  refine Option.ext fun node => ?_
  rw [lookup_eq_some_iff_mem (nodup_mirrorEntries h), mirrorEntries_eq, List.mem_reverse,
    List.mem_map, Option.map_eq_some_iff]
  constructor
  · rintro ⟨e, he, heq⟩
    obtain ⟨rfl, rfl⟩ := Prod.mk.inj heq
    exact ⟨e.2, (lookup_eq_some_iff_mem h).mpr he, rfl⟩
  · rintro ⟨child, hlookup, rfl⟩
    exact ⟨(name, child), (lookup_eq_some_iff_mem h).mp hlookup, rfl⟩

theorem find?_mirror (h : n.HasDistinctNames) (place : List String) :
    n.mirror.find? place = (n.find? place).map mirror := by
  induction place generalizing n with
  | nil => rfl
  | cons name rest ih =>
    cases n with
    | file content => rfl
    | directory es =>
      rw [mirror, find?_cons, find?_cons, lookup_mirrorEntries h.nodup]
      cases hl : es.lookup name with
      | none => rfl
      | some node => exact ih (h.child ((lookup_eq_some_iff_mem h.nodup).mp hl))

theorem HasDistinctNames.mirror (h : n.HasDistinctNames) : n.mirror.HasDistinctNames := by
  intro place es' hfind
  rw [find?_mirror h] at hfind
  obtain ⟨node, hnode, hmirror⟩ := Option.map_eq_some_iff.mp hfind
  cases node with
  | file content => cases hmirror
  | directory es =>
    cases hmirror
    exact nodup_mirrorEntries (h place es hnode)

theorem sameTree_mirror (h : n.HasDistinctNames) : n.SameTree n.mirror := by
  intro place
  rw [sight, sight, find?_mirror h]
  cases n.find? place with
  | none => rfl
  | some node => cases node <;> rfl

end FileNode

/-! ## What a migration looks at -/

namespace Document

variable {d d' : Document} {now now' : Timestamp} {items items' : List ContentItem}

/-- Whom a migration adds is settled by the ids, of the items and of those tracked before. -/
theorem insertFinalized_congr (hids : items'.map (·.id) = items.map (·.id))
    (hd : ∀ id, d'.contains id = d.contains id) :
    (d'.insertFinalized now' items').added = (d.insertFinalized now items).added ∧
      (d'.insertFinalized now' items').skipped = (d.insertFinalized now items).skipped := by
  induction items generalizing items' d d' with
  | nil =>
    obtain rfl := List.map_eq_nil_iff.mp hids
    exact ⟨rfl, rfl⟩
  | cons item rest ih =>
    obtain ⟨item', rest', rfl, hid, hrest⟩ := List.map_eq_cons_iff.mp hids
    rw [insertFinalized, insertFinalized, hd, hid]
    split
    · obtain ⟨ha, hs⟩ := ih hrest hd
      exact ⟨ha, congrArg (_ :: ·) hs⟩
    · have hinsert : ∀ id, (d'.insert item.id (imported now' item').1).contains id =
          (d.insert item.id (imported now item).1).contains id := by
        intro id
        show (Document.find? _ id).isSome = (Document.find? _ id).isSome
        rw [find?_insert, find?_insert]
        split
        · rfl
        · exact hd id
      obtain ⟨ha, hs⟩ := ih hrest hinsert
      exact ⟨congrArg (_ :: ·) ha, hs⟩

/-- An entity stays as it was, or it tells of the first item of its id. -/
theorem find?_insertFinalized_eq (items : List ContentItem) (d : Document) (id : String) :
    (d.insertFinalized now items).document.find? id =
      (d.find? id).or ((items.find? (·.id = id)).map fun item => (imported now item).1) := by
  induction items generalizing d with
  | nil => simp [insertFinalized]
  | cons item rest ih =>
    rw [insertFinalized]
    split
    · next hc =>
      rw [ih]
      by_cases hid : item.id = id
      · obtain ⟨e, he⟩ := contains_iff.mp hc
        rw [← hid, he, Option.some_or, Option.some_or]
      · rw [List.find?_cons_of_neg (by simpa using hid)]
    · next hc =>
      rw [ih, find?_insert]
      by_cases hid : item.id = id
      · have hnone : d.find? id = none := by
          rw [← Option.not_isSome_iff_eq_none, ← hid]
          exact hc
        rw [if_pos hid.symm, List.find?_cons_of_pos (by simpa using hid), hnone, Option.some_or,
          Option.none_or, Option.map_some]
      · rw [if_neg (Ne.symm hid), List.find?_cons_of_neg (by simpa using hid)]

theorem metadata_migrate (now : Timestamp) (items : List ContentItem) (d : Document) (id : String) :
    ((d.migrate now items).document.find? id).map (·.metadata) =
      ((d.find? id).map (·.metadata)).or ((items.find? (·.id = id)).map (·.metadata)) := by
  rw [show (d.migrate now items).document = (d.insertFinalized now items).document from rfl,
    find?_insertFinalized_eq]
  cases d.find? id with
  | some e => rfl
  | none => cases items.find? (·.id = id) <;> rfl

end Document

namespace Content

open FileNode (mirror mirrorEntries SameTree HasPlainNames)

variable {n n' : FileNode} {extensions : List String} {f g : File}

theorem filesIn_append (es es' : List (String × FileNode)) :
    filesIn [] (es ++ es') = filesIn [] es ++ filesIn [] es' := by
  induction es with
  | nil => rfl
  | cons e rest ih => rw [List.cons_append, filesIn_cons, filesIn_cons, ih, List.append_assoc]

mutual

theorem filesBelow_mirror : (n : FileNode) → filesBelow [] n.mirror = (filesBelow [] n).reverse
  | .file _ => rfl
  | .directory es => filesIn_mirrorEntries es

theorem filesIn_mirrorEntries : (es : List (String × FileNode)) →
    filesIn [] (mirrorEntries es) = (filesIn [] es).reverse
  | [] => rfl
  | (name, node) :: rest => by
    rw [mirrorEntries, filesIn_append, filesIn_mirrorEntries rest, filesIn_cons, filesIn_cons,
      filesBelow_mirror node]
    split <;> simp [filesIn]

end

theorem filesOf_mirror (n : FileNode) (extensions : List String) :
    filesOf n.mirror extensions = (filesOf n extensions).reverse := by
  rw [filesOf, filesOf, filesBelow_mirror, List.filter_reverse, List.map_reverse]

/-! ## Files of one id -/

theorem File.isIn_congr (h : n.SameTree n') : f.IsIn n' extensions ↔ f.IsIn n extensions := by
  have hthere : n'.find? f.place = some (.file f.content) ↔
      n.find? f.place = some (.file f.content) := by
    rw [← FileNode.sighted_eq_file, ← FileNode.sighted_eq_file]
    exact Eq.congr_left (h f.place)
  exact ⟨fun hf => ⟨hthere.mp hf.there, hf.visible, hf.last, hf.wanted⟩,
    fun hf => ⟨hthere.mpr hf.there, hf.visible, hf.last, hf.wanted⟩⟩

theorem intercalate_inj {l l' : List String} (hne : l ≠ []) (hne' : l' ≠ [])
    (hl : ∀ s ∈ l, '/' ∉ s.toList) (hl' : ∀ s ∈ l', '/' ∉ s.toList)
    (h : "/".intercalate l = "/".intercalate l') : l = l' := by
  have hsplit : ∀ l : List String, l ≠ [] → (∀ s ∈ l, '/' ∉ s.toList) →
      ("/".intercalate l).toList.splitOn '/' = l.map String.toList := by
    intro l hne hl
    rw [String.toList_intercalate]
    exact List.splitOn_intercalate '/' (by simpa using hl) (by simpa using hne)
  have hlists := hsplit l hne hl
  rw [h, hsplit l' hne' hl'] at hlists
  exact (List.map_inj_right fun _ _ => String.toList_inj.mp).mp hlists.symm

/-- Two files of one id differ in their extensions only. -/
theorem File.IsIn.id_eq_iff (hn : n.HasPlainNames) (hf : f.IsIn n extensions)
    (hg : g.IsIn n extensions) : f.id = g.id ↔ f.above = g.above ∧ f.stem = g.stem := by
  have hplain : ∀ {f : File}, f.IsIn n extensions → ∀ s ∈ f.above ++ [f.stem], '/' ∉ s.toList := by
    intro f hf s hs
    have hplace := hn.of_find? hf.there
    rcases List.mem_append.mp hs with hs | hs
    · exact hplace s (List.mem_append_left _ hs)
    · obtain rfl := List.mem_singleton.mp hs
      have hname := hplace f.name (List.mem_append_right _ List.mem_cons_self)
      exact fun h => hname (by simp [name, h])
  constructor
  · intro h
    have hsame := intercalate_inj (by simp) (by simp) (hplain hf) (hplain hg) h
    obtain ⟨habove, hstem⟩ := List.append_inj' hsame rfl
    exact ⟨habove, (List.cons.inj hstem).1⟩
  · rintro ⟨habove, hstem⟩
    rw [id, id, habove, hstem]

theorem File.IsIn.eq_of_path (hn : n.HasPlainNames) (hf : f.IsIn n extensions)
    (hg : g.IsIn n extensions) (h : f.path = g.path) : f = g :=
  hf.eq_of_place hg <| intercalate_inj (by simp [place]) (by simp [place])
    (hn.of_find? hf.there) (hn.of_find? hg.there) h

theorem File.path_eq_of_item (h : f.item = g.item) : f.path = g.path := by
  have hpath := congrArg (fun item => item.metadata.member? "path") h
  simp only [member?_path] at hpath
  exact Json.string.inj (Option.some.inj hpath)

/-- Whether no two files that count as content are told apart by their extensions only. -/
def HasNoTwins (n : FileNode) (extensions : List String) : Prop :=
  ∀ f g : File, f.IsIn n extensions → g.IsIn n extensions → f.above = g.above → f.stem = g.stem →
    f.ext = g.ext

theorem HasNoTwins.eq_of_id (h : HasNoTwins n extensions) (hn : n.HasPlainNames)
    (hf : f.IsIn n extensions) (hg : g.IsIn n extensions) (hid : f.id = g.id) : f = g := by
  obtain ⟨habove, hstem⟩ := (hf.id_eq_iff hn hg).mp hid
  refine hf.eq_of_place hg ?_
  rw [File.place, File.place, File.name, File.name, habove, hstem, h f g hf hg habove hstem]

/-! ## Two listings of a tree -/

theorem listed_perm_of_sameTree (hn : n.HasDistinctNames) (hn' : n'.HasDistinctNames)
    (h : n.SameTree n') (extensions : List String) :
    (listed n' extensions).Perm (listed n extensions) := by
  rw [List.perm_ext_iff_of_nodup (nodup_listed hn') (nodup_listed hn)]
  exact fun f => (mem_listed hn').trans ((File.isIn_congr h).trans (mem_listed hn).symm)

theorem ids_listed_eq (hp : (listed n' extensions).Perm (listed n extensions)) :
    (listed n' extensions).map File.id = (listed n extensions).map File.id :=
  (hp.map File.id).eq_of_pairwise (fun _ _ _ _ => String.le_antisymm)
    (List.pairwise_map.mpr (pairwise_listed ..)) (List.pairwise_map.mpr (pairwise_listed ..))

theorem listed_eq_of_hasNoTwins (hn : n.HasDistinctNames) (hplain : n.HasPlainNames)
    (ht : HasNoTwins n extensions) (hp : (listed n' extensions).Perm (listed n extensions)) :
    listed n' extensions = listed n extensions := by
  refine hp.eq_of_pairwise (fun f g hf hg hle hle' => ?_) (pairwise_listed ..) (pairwise_listed ..)
  exact ht.eq_of_id hplain ((mem_listed hn).mp (hp.mem_iff.mp hf)) ((mem_listed hn).mp hg)
    (String.le_antisymm hle hle')

theorem not_both_orders {α : Type} {a b : α} {l : List α} (hn : l.Nodup) (h : [a, b].Sublist l)
    (h' : [b, a].Sublist l) : False := by
  induction l with
  | nil => cases h
  | cons c rest ih =>
    obtain ⟨hnew, hrest⟩ := List.nodup_cons.mp hn
    cases h with
    | cons _ h =>
      cases h' with
      | cons _ h' => exact ih hrest h h'
      | cons_cons _ _ => exact hnew (h.subset (List.mem_cons_of_mem _ List.mem_cons_self))
    | cons_cons _ h =>
      cases h' with
      | cons _ h' => exact hnew (h'.subset (List.mem_cons_of_mem _ List.mem_cons_self))
      | cons_cons _ _ => exact hnew (h.subset List.mem_cons_self)

theorem exists_order {α : Type} {a b : α} {l : List α} (ha : a ∈ l) (hb : b ∈ l) (hne : a ≠ b) :
    [a, b].Sublist l ∨ [b, a].Sublist l := by
  obtain ⟨front, behind, rfl⟩ := List.append_of_mem ha
  rcases List.mem_append.mp hb with hb | hb
  · refine Or.inr (List.Sublist.append (List.singleton_sublist.mpr hb) ?_)
    exact List.singleton_sublist.mpr List.mem_cons_self
  · have hb := (List.mem_cons.mp hb).resolve_left hne.symm
    exact Or.inl (((List.singleton_sublist.mpr hb).cons_cons a).trans
      (List.sublist_append_right _ _))

/-- Files of one id are listed in the order of the walk. -/
theorem pair_sublist_listed (hid : f.id = g.id) (h : [f, g].Sublist (filesOf n extensions)) :
    [f, g].Sublist (listed n extensions) := by
  refine List.pair_sublist_mergeSort ?_ ?_ (decide_eq_true (hid ▸ String.le_refl _)) h
  · simpa only [decide_eq_true_eq] using fun _ _ _ => String.le_trans
  · simpa only [Bool.or_eq_true, decide_eq_true_eq] using fun _ _ => String.le_total _ _

/-- Files that are told apart by their extensions only are listed in either order. -/
theorem hasNoTwins_of_mirror (hn : n.HasDistinctNames) (hplain : n.HasPlainNames)
    (h : (listed n.mirror extensions).map File.item = (listed n extensions).map File.item) :
    HasNoTwins n extensions := by
  have hnodup : ((listed n extensions).map File.item).Nodup := by
    refine List.Nodup.map_on (fun f hf g hg h => ?_) (nodup_listed hn)
    exact ((mem_listed hn).mp hf).eq_of_path hplain ((mem_listed hn).mp hg) (File.path_eq_of_item h)
  have horders : ∀ {f g : File}, f.id = g.id → ¬ [f, g].Sublist (filesOf n extensions) := by
    intro f g hid hfg
    have hgf : [g, f].Sublist (filesOf n.mirror extensions) := by
      rw [filesOf_mirror]
      exact hfg.reverse
    refine not_both_orders hnodup ((pair_sublist_listed hid hfg).map File.item) ?_
    rw [← h]
    exact (pair_sublist_listed hid.symm hgf).map File.item
  intro f g hf hg habove hstem
  by_contra hext
  have hid : f.id = g.id := (hf.id_eq_iff hplain hg).mpr ⟨habove, hstem⟩
  have hne : f ≠ g := fun h => hext (congrArg File.ext h)
  rcases exists_order ((mem_filesOf hn).mpr hf) ((mem_filesOf hn).mpr hg) hne with hfg | hgf
  · exact horders hid hfg
  · exact horders hid.symm hgf

/-! ## Imports -/

/-- Whether a path leads to this tree, in whatever order it is listed there. -/
def Lists (fs : FileSystem) (root : String) (n : FileNode) : Prop :=
  ∃ es, fs.stat root = .ok (.directory es) ∧ (FileNode.directory es).HasDistinctNames ∧
    n.SameTree (.directory es)

/-- Whether these items of a tree come to the same when they are tracked, but for the metadata of
an entity whose id two of the files have. -/
structure TrackAlike (n : FileNode) (extensions : List String) (items items' : List ContentItem) :
    Prop where
  perm : items'.Perm items
  ids : items'.map (·.id) = items.map (·.id)
  report (d : Document) (now now' : Timestamp) :
    (d.migrate now' items').report = (d.migrate now items).report
  metadata (d : Document) (now now' : Timestamp) (id : String)
    (h : d.contains id ∨ ∀ f g : File, f.IsIn n extensions → g.IsIn n extensions → f.id = id →
      g.id = id → f = g) :
    ((d.migrate now' items').document.find? id).map (·.metadata) =
      ((d.migrate now items).document.find? id).map (·.metadata)

theorem find?_eq_of_perm {α : Type} {l l' : List α} {p : α → Bool} (h : l'.Perm l)
    (hp : ∀ a ∈ l, ∀ b ∈ l, p a → p b → a = b) : l'.find? p = l.find? p := by
  cases hl : l.find? p with
  | none =>
    rw [List.find?_eq_none] at hl ⊢
    exact fun a ha => hl a (h.mem_iff.mp ha)
  | some a =>
    have ha := List.mem_of_find?_eq_some hl
    obtain ⟨b, hb⟩ := Option.isSome_iff_exists.mp
      (List.find?_isSome.mpr ⟨a, h.mem_iff.mpr ha, List.find?_some hl⟩)
    rw [hb, hp b (h.mem_iff.mp (List.mem_of_find?_eq_some hb)) a ha (List.find?_some hb)
      (List.find?_some hl)]

theorem trackAlike_of_perm {files files' : List File} (hp : files'.Perm files)
    (hids : files'.map File.id = files.map File.id) (hin : ∀ f ∈ files, f.IsIn n extensions) :
    TrackAlike n extensions (files.map File.item) (files'.map File.item) where
  perm := hp.map _
  ids := by
    rw [List.map_map, List.map_map]
    exact hids
  report d now now' := by
    have hitems : (files'.map File.item).map (·.id) = (files.map File.item).map (·.id) := by
      rw [List.map_map, List.map_map]
      exact hids
    have hcongr : (d.insertFinalized now' (files'.map File.item)).added =
          (d.insertFinalized now (files.map File.item)).added ∧
        (d.insertFinalized now' (files'.map File.item)).skipped =
          (d.insertFinalized now (files.map File.item)).skipped :=
      Document.insertFinalized_congr hitems fun _ => rfl
    simp only [Document.migrate, hcongr]
  metadata d now now' id h := by
    rw [Document.metadata_migrate, Document.metadata_migrate, List.find?_map, List.find?_map]
    rcases h with hd | hone
    · obtain ⟨e, he⟩ := Document.contains_iff.mp hd
      rw [he, Option.map_some, Option.some_or, Option.some_or]
    · have hfirst : files'.find? ((fun item : ContentItem => decide (item.id = id)) ∘ File.item) =
          files.find? ((fun item : ContentItem => decide (item.id = id)) ∘ File.item) :=
        find?_eq_of_perm hp fun f hf g hg hfid hgid =>
          hone f g (hin f hf) (hin g hg) (of_decide_eq_true hfid) (of_decide_eq_true hgid)
      rw [hfirst]

theorem Lists.discover_eq {fs : FileSystem} {root : String} (h : Lists fs root n)
    (hn : n.HasDistinctNames) (extensions : List String) : ∃ n' : FileNode,
      Content.discover fs root extensions = .ok ((listed n' extensions).map File.item) ∧
        (listed n' extensions).Perm (listed n extensions) := by
  obtain ⟨es, hroot, hes, hsame⟩ := h
  exact ⟨_, Content.discover_eq hroot hes extensions, listed_perm_of_sameTree hn hes hsame _⟩

theorem lists_of_directory {es : List (String × FileNode)}
    (hes : (FileNode.directory es).HasDistinctNames) (hsame : n.SameTree (.directory es)) :
    Lists ⟨.directory es, [], "/"⟩ "/" n := ⟨es, rfl, hes, hsame⟩

theorem discover_root {es : List (String × FileNode)}
    (hes : (FileNode.directory es).HasDistinctNames) :
    discover ⟨.directory es, [], "/"⟩ "/" extensions =
      .ok ((listed (.directory es) extensions).map File.item) :=
  Content.discover_eq rfl hes extensions

/-- Whatever the order in which a tree is listed, an import adds and passes over the same ids, and
an entity that was tracked before, or whose id only one of the files has, gets the same metadata.
The content that is discovered is the same for every order if and only if no two files are told
apart by their extensions only. -/
theorem import_of_lists (hn : n.HasDistinctNames) (hplain : n.HasPlainNames)
    (extensions : List String) :
    (∀ fs root fs' root', Lists fs root n → Lists fs' root' n →
      ∃ items items', discover fs root extensions = .ok items ∧
        discover fs' root' extensions = .ok items' ∧ TrackAlike n extensions items items') ∧
    ((∀ fs root fs' root', Lists fs root n → Lists fs' root' n →
      discover fs' root' extensions = discover fs root extensions) ↔ HasNoTwins n extensions) := by
  refine ⟨fun fs root fs' root' h h' => ?_, fun h => ?_, fun ht fs root fs' root' h h' => ?_⟩
  · obtain ⟨m, hd, hp⟩ := h.discover_eq hn extensions
    obtain ⟨m', hd', hp'⟩ := h'.discover_eq hn extensions
    refine ⟨_, _, hd, hd', trackAlike_of_perm (hp'.trans hp.symm) ?_ fun f hf => ?_⟩
    · exact (ids_listed_eq hp').trans (ids_listed_eq hp).symm
    · exact (mem_listed hn).mp (hp.mem_iff.mp hf)
  · cases n with
    | file content =>
      -- there is nothing below a file
      rintro f g hf -
      obtain ⟨name, rest, hplace⟩ := List.exists_cons_of_ne_nil
        (show f.place ≠ [] by simp [File.place])
      have hthere := hf.there
      rw [hplace] at hthere
      cases hthere
    | directory es =>
      have hmirror : (FileNode.directory (mirrorEntries es)).HasDistinctNames := hn.mirror
      have hsame := h _ _ _ _ (lists_of_directory hn fun _ => rfl)
        (lists_of_directory hmirror (FileNode.sameTree_mirror hn))
      rw [discover_root hn, discover_root hmirror] at hsame
      exact hasNoTwins_of_mirror hn hplain (Except.ok.inj hsame)
  · obtain ⟨m, hd, hp⟩ := h.discover_eq hn extensions
    obtain ⟨m', hd', hp'⟩ := h'.discover_eq hn extensions
    rw [hd, hd', listed_eq_of_hasNoTwins hn hplain ht hp, listed_eq_of_hasNoTwins hn hplain ht hp']

/-- An empty file at the top of a tree. -/
def page (ext : String) : File := ⟨[], "p", ext, .empty⟩

/-- Two files with one stem, listed in this order. -/
def pair (ext ext' : String) : FileNode :=
  .directory [((page ext).name, .file .empty), ((page ext').name, .file .empty)]

theorem found_page {ext : String} (h : ext ∈ ["md", "MD"]) : isHidden (page ext).name = false ∧
    hasExtension ["md"] (page ext).name ∧ File.ofFound ([(page ext).name], .empty) = page ext := by
  have hext : '.' ∉ ext.toList ∧ isHidden (page ext).name = false ∧ "p" ++ "." ++ ext ≠ ".." ∧
      "md".toList.map Char.toLower = ext.toList.map Char.toLower := by
    revert ext
    decide
  obtain ⟨hlast, hvisible, hdots, hlower⟩ := hext
  have hsplit : Path.splitExtension (page ext).name = ("p", some ext) :=
    Path.splitExtension_append (show "p" ≠ "" by decide) hlast hdots
  have hwanted : IsWanted ["md"] ext :=
    ⟨"", "md", by decide, by simp, by decide, lowerAscii_eq_iff.mpr hlower⟩
  exact ⟨hvisible, hasExtension_iff.mpr ⟨_, _, hsplit, hwanted⟩, @ofFound_eq [] _ _ _ _ hsplit⟩

theorem listed_pair {ext ext' : String} (h : ext ∈ ["md", "MD"]) (h' : ext' ∈ ["md", "MD"]) :
    listed (pair ext ext') ["md"] = [page ext, page ext'] := by
  obtain ⟨hvisible, hwanted, hfound⟩ := found_page h
  obtain ⟨hvisible', hwanted', hfound'⟩ := found_page h'
  have hfiles : filesOf (pair ext ext') ["md"] = [page ext, page ext'] := by
    simp [filesOf, pair, filesBelow, filesIn, hvisible, hvisible', hwanted, hwanted', hfound,
      hfound']
  rw [listed, hfiles]
  exact List.mergeSort_of_pairwise (List.pairwise_pair.mpr (decide_eq_true (String.le_refl _)))

theorem hasDistinctNames_pair {ext ext' : String} (h : ext ≠ ext') :
    (pair ext ext').HasDistinctNames := by
  refine .of_children ?_ fun e he => ?_
  · simpa [page, File.name] using h
  · simp only [List.mem_cons, List.not_mem_nil, or_false] at he
    rcases he with rfl | rfl <;> exact .of_file _

theorem hasPlainNames_pair : (pair "md" "MD").HasPlainNames := by
  refine .of_children fun e he => ?_
  simp only [List.mem_cons, List.not_mem_nil, or_false] at he
  rcases he with rfl | rfl <;> exact ⟨by decide, .of_file _⟩

theorem lists_pair : Lists ⟨pair "md" "MD", [], "/"⟩ "/" (pair "md" "MD") ∧
    Lists ⟨pair "MD" "md", [], "/"⟩ "/" (pair "md" "MD") :=
  ⟨lists_of_directory (hasDistinctNames_pair (by decide)) fun _ => rfl,
    lists_of_directory (hasDistinctNames_pair (by decide))
      (FileNode.sameTree_mirror (hasDistinctNames_pair (by decide)))⟩

/-- Both listings of the pair lead to the same ids. -/
theorem import_of_lists_pair : (pair "md" "MD").HasDistinctNames ∧ (pair "md" "MD").HasPlainNames ∧
    ∃ items items', discover ⟨pair "md" "MD", [], "/"⟩ "/" ["md"] = .ok items ∧
      discover ⟨pair "MD" "md", [], "/"⟩ "/" ["md"] = .ok items' ∧
      TrackAlike (pair "md" "MD") ["md"] items items' := by
  have hn : (pair "md" "MD").HasDistinctNames := hasDistinctNames_pair (by decide)
  exact ⟨hn, hasPlainNames_pair, (import_of_lists hn hasPlainNames_pair ["md"]).1 _ _ _ _
    lists_pair.1 lists_pair.2⟩

/-- Of two files that differ in the case of their extensions, the one that is listed first is
discovered first, and is the one that the tracked entity tells of. -/
theorem exists_import_by_order : ∃ (n : FileNode) (fs fs' : FileSystem) (extensions : List String)
    (items items' : List ContentItem),
    Lists fs "/" n ∧ Lists fs' "/" n ∧ discover fs "/" extensions = .ok items ∧
      discover fs' "/" extensions = .ok items' ∧ items' ≠ items ∧
      ∀ now, (((Document.empty now).migrate now items').document.find? "p").map (·.metadata) ≠
        (((Document.empty now).migrate now items).document.find? "p").map (·.metadata) := by
  have hmd : (page "md").item.metadata ≠ (page "MD").item.metadata := fun h => by
    have hpath := congrArg (Json.member? "path") h
    rw [File.member?_path, File.member?_path] at hpath
    revert hpath
    decide
  have hdiscover : ∀ {ext ext' : String}, ext ∈ ["md", "MD"] → ext' ∈ ["md", "MD"] → ext ≠ ext' →
      discover ⟨pair ext ext', [], "/"⟩ "/" ["md"] = .ok [(page ext).item, (page ext').item] := by
    intro ext ext' h h' hne
    rw [pair, discover_root (hasDistinctNames_pair hne)]
    exact congrArg (fun files => Except.ok (List.map File.item files)) (listed_pair h h')
  refine ⟨pair "md" "MD", _, _, ["md"], _, _, lists_pair.1, lists_pair.2,
    hdiscover (by decide) (by decide) (by decide), hdiscover (by decide) (by decide) (by decide),
    fun h => ?_, fun now h => ?_⟩
  · exact hmd (congrArg ContentItem.metadata (List.cons.inj h).1.symm)
  · rw [Document.metadata_migrate, Document.metadata_migrate, Document.find?_empty,
      List.find?_cons_of_pos (by decide), List.find?_cons_of_pos (by decide)] at h
    exact hmd (Option.some.inj h).symm

end Content
end Publishing
