import Publishing.Proofs.LogFiles
import Publishing.Proofs.Nesting

/-
What can be read from a log.

The text of a value holds no character before the space, so no line feed, whatever its strings
are.  So a log holds one line for each record, in their order, behind what it held before.  A line
reads as an object with the fields of the record, if the reader goes as deep as the data of the
record and one level more; a reader of 127 levels may not.
-/

namespace Publishing

/-! ## Characters -/

namespace Json

open Text

/-- Whether no character comes before the space, as all characters do that end a line. -/
def IsInline (cs : List Char) : Prop := ∀ c ∈ cs, 0x20 ≤ c.toNat

@[simp] theorem isInline_nil : IsInline [] := nofun

@[simp] theorem isInline_cons {c : Char} {cs : List Char} :
    IsInline (c :: cs) ↔ 0x20 ≤ c.toNat ∧ IsInline cs := List.forall_mem_cons

@[simp] theorem isInline_append {cs cs' : List Char} :
    IsInline (cs ++ cs') ↔ IsInline cs ∧ IsInline cs' := List.forall_mem_append

theorem isInline_of_isDigit {cs : List Char} (h : ∀ c ∈ cs, isDigit c) : IsInline cs := by
  intro c hc
  have hdigit := h c hc
  rw [isDigit, Bool.and_eq_true, decide_eq_true_eq] at hdigit
  exact Nat.le_trans (by decide) (Char.le_def.mp hdigit.1)

theorem isInline_renderNumber (n : Number) : IsInline (renderNumber n) := by
  have hwell := n.wellFormed_numeral
  have hfraction : IsInline (Numeral.fractionText n.numeral.fraction) := by
    cases hf : n.numeral.fraction with
    | none => exact isInline_nil
    | some ds => exact isInline_cons.mpr ⟨by decide, isInline_of_isDigit (hwell.fraction ds hf).2⟩
  have hexponent : IsInline (Numeral.exponentText n.numeral.exponent) := by
    cases he : n.numeral.exponent with
    | none => exact isInline_nil
    | some p =>
      refine isInline_cons.mpr ⟨by decide, isInline_cons.mpr ⟨?_, ?_⟩⟩
      · split <;> decide
      · exact isInline_of_isDigit (hwell.exponent p he).2
  rw [Number.renderNumber_eq, Numeral.text]
  simp only [isInline_append]
  refine ⟨?_, ⟨isInline_of_isDigit hwell.whole, hfraction⟩, hexponent⟩
  split <;> simp

theorem isInline_hexDigit : ∀ n < 0x20,
    0x20 ≤ (hexDigit (n / 16)).toNat ∧ 0x20 ≤ (hexDigit (n % 16)).toNat := by decide

theorem isInline_escapeChar (c : Char) : IsInline (escapeChar c) := by
  unfold escapeChar
  by_cases hcontrol : c.toNat < 0x20
  · obtain ⟨hhigh, hlow⟩ := isInline_hexDigit c.toNat hcontrol
    rw [if_pos hcontrol]
    split_ifs <;> simp [hhigh, hlow]
  · have hc : 0x20 ≤ c.toNat := Nat.not_lt.mp hcontrol
    rw [if_neg hcontrol]
    split_ifs <;> simp [hc]

theorem isInline_renderString (s : String) : IsInline (renderString s) := by
  have hescaped : IsInline (s.toList.flatMap escapeChar) := by
    intro c hc
    obtain ⟨a, -, ha⟩ := List.mem_flatMap.mp hc
    exact isInline_escapeChar a c ha
  simp [renderString, hescaped]

mutual

/-- Without layout the text of a value stands in one line. -/
theorem isInline_render (level : Nat) (v : Json) : IsInline (render .compact level v) := by
  match v with
  | .null => simp [render]
  | .bool true => simp [render]
  | .bool false => simp [render]
  | .number n => exact isInline_renderNumber n
  | .string s => exact isInline_renderString s
  | .array [] => simp [render]
  | .array (x :: xs) =>
    simp [render, Layout.line, isInline_render (level + 1) x, isInline_renderItems (level + 1) xs]
  | .object [] => simp [render]
  | .object ((k, x) :: xs) =>
    simp [render, Layout.line, Layout.colon, isInline_renderString, isInline_render (level + 1) x,
      isInline_renderMembers (level + 1) xs]

theorem isInline_renderItems (level : Nat) (items : List Json) :
    IsInline (renderItems .compact level items) := by
  match items with
  | [] => simp [renderItems]
  | x :: xs =>
    simp [renderItems, Layout.line, isInline_render level x, isInline_renderItems level xs]

theorem isInline_renderMembers (level : Nat) (members : List (String × Json)) :
    IsInline (renderMembers .compact level members) := by
  match members with
  | [] => simp [renderMembers]
  | (k, x) :: xs =>
    simp [renderMembers, Layout.line, Layout.colon, isInline_renderString,
      isInline_render level x, isInline_renderMembers level xs]

end

end Json

/-! ## Lines -/

namespace Text

def bytesOf (s : String) : List UInt8 := s.toUTF8.data.toList

/-- The lines of a file: what stands between its line feeds, and behind the last. -/
def linesOf (bytes : ByteArray) : List (List UInt8) := bytes.data.toList.splitOn 10

/-- Whether a file is empty or its last byte is a line feed. -/
def EndsLine (bytes : ByteArray) : Prop := ∀ b, bytes.data.toList.getLast? = some b → b = 10

theorem bytesOf_ofList (cs : List Char) :
    bytesOf (String.ofList cs) = cs.flatMap String.utf8EncodeChar := by
  simp [bytesOf, String.toUTF8, List.utf8Encode]

/-- No character but the line feed has its byte. -/
theorem lineFeed_not_mem_bytesOf {cs : List Char} (h : Json.IsInline cs) :
    10 ∉ bytesOf (String.ofList cs) := by
  rw [bytesOf_ofList]
  intro hmem
  obtain ⟨c, hc, hbyte⟩ := List.mem_flatMap.mp hmem
  have hle : 0x20 ≤ c.val.toNat := h c hc
  have hiff : ∀ n : Nat, 10 = UInt8.ofNat n ↔ n % 256 = 10 := fun n => by
    rw [← UInt8.toNat_inj, UInt8.toNat_ofNat', eq_comm]
    rfl
  unfold String.utf8EncodeChar at hbyte
  dsimp only at hbyte
  split_ifs at hbyte <;> simp only [List.mem_cons, List.not_mem_nil, or_false, hiff] at hbyte <;>
    omega

/-- What is behind a whole line is divided into lines by itself. -/
theorem linesOf_append {front : ByteArray} (h : EndsLine front) (behind : ByteArray) :
    ∃ lines, linesOf front = lines ++ [[]] ∧ linesOf (front ++ behind) = lines ++ linesOf behind := by
  simp only [linesOf, List.splitOn_eq_splitOnP, ByteArray.data_append, Array.toList_append]
  rcases List.eq_nil_or_concat' front.data.toList with hnil | ⟨above, b, hfront⟩
  · exact ⟨[], by rw [hnil]; rfl, by rw [hnil]; rfl⟩
  · obtain rfl : b = 10 := h b (by rw [hfront, List.getLast?_concat])
    refine ⟨above.splitOnP (· == 10), ?_, ?_⟩
    · rw [hfront, List.splitOnP_append_cons _ _ rfl]
      rfl
    · rw [hfront, List.append_assoc, List.singleton_append, List.splitOnP_append_cons _ _ rfl]

theorem linesOf_line {cs : List Char} (h : Json.IsInline cs) (behind : ByteArray) :
    linesOf ((String.ofList cs ++ "\n").toUTF8 ++ behind) =
      bytesOf (String.ofList cs) :: linesOf behind := by
  have hbytes : ((String.ofList cs ++ "\n").toUTF8 ++ behind).data.toList =
      bytesOf (String.ofList cs) ++ 10 :: behind.data.toList := by
    rw [ByteArray.data_append, Array.toList_append, List.append_cons]
    rfl
  have hnone : ∀ b ∈ bytesOf (String.ofList cs), (b == 10) = false := fun b hb =>
    beq_eq_false_iff_ne.mpr fun heq => lineFeed_not_mem_bytesOf h (heq ▸ hb)
  rw [linesOf, linesOf, hbytes, List.splitOn_eq_splitOnP, List.splitOn_eq_splitOnP,
    List.splitOnP_append_cons _ _ rfl, List.splitOnP_eq_singleton hnone]
  rfl

end Text

open Text

namespace AuditRecord

/-- What a log file holds of these records. -/
def logOf (rs : List AuditRecord) : ByteArray := (String.join (rs.map line)).toUTF8

theorem logOf_cons (r : AuditRecord) (rs : List AuditRecord) :
    logOf (r :: rs) = r.line.toUTF8 ++ logOf rs := by
  rw [logOf, List.map_cons, String.join_cons]
  exact String.toByteArray_append

/-- The log of records has a line for each of them. -/
theorem linesOf_logOf (rs : List AuditRecord) :
    linesOf (logOf rs) = rs.map (fun r => bytesOf r.toJson.compact) ++ [[]] := by
  induction rs with
  | nil => rfl
  | cons r rest ih =>
    rw [logOf_cons, line, Json.compact, linesOf_line (Json.isInline_render 0 r.toJson), ih]
    rfl

end AuditRecord

/-! ## Lines that are read -/

namespace Keyed

theorem lookup_foldl_insertEntry {α : Type} {l : List (String × α)} (hl : (l.map (·.1)).Nodup)
    (sofar : List (String × α)) (key : String) :
    (l.foldl (fun m e => insertEntry e.1 e.2 m) sofar).lookup key =
      (l.lookup key).or (sofar.lookup key) := by
  induction l generalizing sofar with
  | nil => rfl
  | cons a rest ih =>
    obtain ⟨hfirst, hrest⟩ := List.nodup_cons.mp hl
    rw [List.foldl_cons, ih hrest, List.lookup_cons]
    by_cases hkey : key = a.1
    · have hnone : rest.lookup key = none := by
        rw [List.lookup_eq_none_iff]
        intro p hp
        simp only [bne_iff_ne, ne_eq]
        exact fun heq => hfirst (List.mem_map.mpr ⟨p, hp, heq.symm.trans hkey⟩)
      rw [hnone, hkey, lookup_insertEntry_self, beq_self_eq_true]
      rfl
    · rw [lookup_insertEntry_of_ne hkey, beq_eq_false_iff_ne.mpr hkey]

end Keyed

namespace Json

theorem member?_ofMembers {l : List (String × Json)} (hl : (l.map (·.1)).Nodup) (key : String) :
    (ofMembers l).member? key = l.lookup key := by
  show (List.foldl _ [] l).lookup key = _
  rw [Keyed.lookup_foldl_insertEntry hl, List.lookup_nil, Option.or_none]

/-- The value of a text, if it is JSON and nests at most `limit` levels. -/
def parseWithin? (limit : Nat) (text : String) : Option Json :=
  match Tree.ofText text with
  | (t, true) => t.toJson? limit
  | (_, false) => none

theorem parse?_eq_parseWithin? (text : String) :
    parse? text = parseWithin? greatestDepth text := rfl

/-- Members without doubles read as they are, if the reader goes deep enough. -/
theorem toJson?_written_object {members : List (String × Json)} (h : isExactMembers members)
    (limit : Nat) : (Tree.written (object members)).toJson? limit =
      if (object members).depth ≤ limit then some (ofMembers members) else none := by
  have hfits : (object members).Fits limit ↔ (object members).depth ≤ limit :=
    ⟨fun hf => (fits_iff.mp hf).1,
      fun hd => fits_of_representable hd (everyNumberOfMembers_of_isExact h)⟩
  split_ifs with hd
  · obtain ⟨v, hv⟩ := Option.isSome_iff_exists.mp (hfits.mpr hd)
    rw [hv]
    cases limit with
    | zero => cases hv
    | succ limit =>
      obtain ⟨l, hl, rfl⟩ := Option.map_eq_some_iff.mp hv
      rw [membersToJson?_written_of_isExact h hl]
  · exact Option.not_isSome_iff_eq_none.mp (mt hfits.mp hd)

end Json

namespace AuditRecord

variable {r r' : AuditRecord} {v : Json}

/-- Whether the members of an object are the fields of a record: no entity is named where the
record has none. -/
structure IsReadFrom (r : AuditRecord) (v : Json) : Prop where
  entity : v.member? "entityId" = r.entity.map .string
  step : ∃ text, v.member? "step" = some (.string text) ∧ Step.ofName? text = some r.step
  operation : v.member? "operation" = some (.string r.operation)
  timestamp : ∃ text, v.member? "timestamp" = some (.string text) ∧
    Timestamp.ofText? text = some r.timestamp
  data : v.member? "data" = some r.data

/-- There is one record to be read from a value at most. -/
theorem IsReadFrom.unique (h : r.IsReadFrom v) (h' : r'.IsReadFrom v) : r' = r := by
  have hentity : r'.entity = r.entity :=
    Option.map_injective (fun _ _ => Json.string.inj) (h'.entity.symm.trans h.entity)
  obtain ⟨text, htext, hstep⟩ := h.step
  obtain ⟨text', htext', hstep'⟩ := h'.step
  obtain rfl : text' = text := Json.string.inj (Option.some.inj (htext'.symm.trans htext))
  obtain ⟨time, htime, hread⟩ := h.timestamp
  obtain ⟨time', htime', hread'⟩ := h'.timestamp
  obtain rfl : time' = time := Json.string.inj (Option.some.inj (htime'.symm.trans htime))
  cases r
  cases r'
  exact AuditRecord.mk.injEq .. ▸ ⟨hentity, Option.some.inj (hstep'.symm.trans hstep),
    Json.string.inj (Option.some.inj (h'.operation.symm.trans h.operation)),
    Option.some.inj (hread'.symm.trans hread), Option.some.inj (h'.data.symm.trans h.data)⟩

/-- The members of a record in the order in which they are written. -/
def members (r : AuditRecord) : List (String × Json) :=
  Json.whenSome "entityId" .string r.entity ++
    [("step", r.step.toJson), ("operation", .string r.operation),
      ("timestamp", r.timestamp.toJson), ("data", r.data)]

theorem toJson_eq (r : AuditRecord) : r.toJson = .object r.members := rfl

theorem nodup_members (r : AuditRecord) : (r.members.map (·.1)).Nodup := by
  have hkeys : r.members.map (·.1) =
      (r.entity.map fun _ => "entityId").toList ++ ["step", "operation", "timestamp", "data"] := by
    rw [members]
    cases r.entity <;> rfl
  rw [hkeys]
  cases r.entity <;> simp

theorem isExact_members (h : r.data.isExact) : Json.isExactMembers r.members := by
  rw [members]
  cases r.entity <;> simpa [Json.whenSome, Json.isExactMembers, Step.toJson, Timestamp.toJson,
    Json.isExact] using h

theorem depth_toJson (r : AuditRecord) : r.toJson.depth = r.data.depth + 1 := by
  rw [toJson_eq, Json.depth, members]
  cases r.entity <;> simp [Json.whenSome, Json.depthMembers, Step.toJson, Timestamp.toJson,
    Json.depth, Nat.add_comm]

theorem isReadFrom_members (ht : r.timestamp.InRange) : r.IsReadFrom (.ofMembers r.members) := by
  have hlookup := Json.member?_ofMembers r.nodup_members
  refine ⟨?_, ⟨r.step.name, ?_, ?_⟩, ?_, ⟨r.timestamp.text, ?_, ?_⟩, ?_⟩
  case refine_3 => cases r.step <;> decide +kernel
  case refine_6 =>
    rw [Timestamp.ofText?_text]
    exact if_pos ht
  all_goals
    rw [hlookup, members]
    cases r.entity <;> rfl

/-- What the line of a record reads as. -/
theorem parseWithin?_compact (h : r.data.isExact) (limit : Nat) :
    Json.parseWithin? limit r.toJson.compact =
      if r.data.depth < limit then some (.ofMembers r.members) else none := by
  have htext := Json.ofText_render .compact r.toJson (List.forall_mem_nil fun c => Json.isSpace c)
  rw [List.append_nil] at htext
  rw [Json.parseWithin?, Json.compact, htext]
  dsimp only
  rw [toJson_eq, Json.toJson?_written_object (isExact_members h), ← toJson_eq, depth_toJson]
  rfl

theorem bytesOf_compact_ne_nil (r : AuditRecord) : bytesOf r.toJson.compact ≠ [] := by
  have hbrace : ∃ cs, Json.render .compact 0 r.toJson = '\x7b' :: cs := by
    rw [toJson_eq, members]
    cases r.entity <;> exact ⟨_, rfl⟩
  obtain ⟨cs, hcs⟩ := hbrace
  rw [Json.compact, hcs, bytesOf_ofList, List.flatMap_cons]
  exact List.append_ne_nil_of_left_ne_nil (List.cons_ne_nil _ _) _

theorem size_line_ne_zero (r : AuditRecord) : r.line.toUTF8.size ≠ 0 := by
  have hsize : r.line.toUTF8.size = r.toJson.compact.toUTF8.size + 1 := ByteArray.size_append
  rw [hsize]
  exact Nat.succ_ne_zero _

end AuditRecord

/-! ## Lines that are written -/

namespace FileSystem

variable {fs : FileSystem} {path : String} {d : Destination}

theorem sight_directory_of_walk (hw : fs.HasWorkingDirectory) (hd : fs.walk path = .ok d) :
    fs.root.sight d.directory = .directory := by
  have hstart : fs.root.sight (fs.start path) = .directory := by
    unfold start
    split
    · exact sight_above hw 0
    · exact hw
  exact sight_foldlM_enter hstart (walk_eq_ok_iff.mp hd).2.1

end FileSystem

open FileSystem

namespace Sink

variable {σ : Type} [HasFiles σ] {path : String} {r : AuditRecord} {rs : List AuditRecord}
  {w w' : σ}

/-- Whether the file that a path leads to is known before a line is written to it.  Where it is
not, the directories on the way have yet to be made, and a path that climbs may then lead to a
file that was there. -/
def Leads (path : String) (w : σ) : Prop :=
  ".." ∉ Path.pieces path ∨ logged path w ≠ .empty

theorem Leads.walk (h : Leads path w) :
    ".." ∉ Path.pieces path ∨ ∃ d, (files w).walk path = .ok d := by
  refine h.imp_right fun hne => ?_
  cases hr : (files w).read path with
  | error fault => exact absurd (by rw [logged, hr]; rfl) hne
  | ok content =>
    obtain ⟨d, hd, -⟩ := read_eq_ok.mp hr
    exact ⟨d, hd⟩

/-- A line that was written stands at the end of the file. -/
theorem lines_eq_ok (hw : (files w).HasWorkingDirectory) (h : lines path r w = (.ok (), w')) :
    (files w').HasWorkingDirectory ∧ ∃ base, logged path w' = base ++ r.line.toUTF8 ∧
      (Leads path w → base = logged path w) := by
  unfold lines at h
  dsimp only at h
  generalize hmade : (if (Path.parent? path).getD "" = "" then (none, files w)
    else (files w).createDirectories ((Path.parent? path).getD "")) = made at h
  obtain ⟨fault, fs⟩ := made
  have hgrows : ∀ t, (files w).Grows t fs := by
    intro t
    split_ifs at hmade
    · obtain ⟨-, rfl⟩ := Prod.mk.inj hmade
      exact .refl t _
    · have hgrown := grows_createDirectories (files w) ((Path.parent? path).getD "") t
      rw [hmade] at hgrown
      exact hgrown
  cases fault with
  | some fault => cases h
  | none =>
    dsimp only at h
    split at h
    · next fs' happend =>
      obtain ⟨-, rfl⟩ := Prod.mk.inj h
      obtain ⟨p, hp, -⟩ := bind_eq_ok.mp happend
      obtain ⟨name, hends⟩ := endsIn_of_writable hp
      have hw₁ := (hgrows name).toKeeps.hasWorkingDirectory hw
      have hread := read_of_append hends (fun d hd => sight_directory_of_walk hw₁ hd) happend
      rw [HasFiles.files_setFiles]
      refine ⟨(grows_append hends happend).toKeeps.hasWorkingDirectory hw₁,
        (fs.read path).toOption.getD .empty, ?_, fun hleads => ?_⟩
      · rw [logged, HasFiles.files_setFiles, hread]
        rfl
      · rw [logged, read_of_grows hends (FileStore.temporaryName_ne name) (hgrows _) hleads.walk]
    · cases h

/-- Whether records are written to a log one after the other, each with success.  Meanwhile
anything may happen that leaves the file as it is. -/
inductive Takes (path : String) : List AuditRecord → σ → σ → Prop
  | done (w : σ) : Takes path [] w w
  | aside {w w₁ w' : σ} {rs : List AuditRecord} (there : (files w₁).HasWorkingDirectory)
      (same : logged path w₁ = logged path w) (rest : Takes path rs w₁ w') : Takes path rs w w'
  | line {w w₁ w' : σ} {r : AuditRecord} {rs : List AuditRecord}
      (written : lines path r w = (.ok (), w₁)) (rest : Takes path rs w₁ w') :
      Takes path (r :: rs) w w'

/-- The log of the records stands behind what the file held. -/
theorem logged_of_takes (h : Takes path rs w w') (hw : (files w).HasWorkingDirectory) :
    ∃ base, logged path w' = base ++ AuditRecord.logOf rs ∧
      (Leads path w → base = logged path w) := by
  induction h with
  | done w => exact ⟨logged path w, (ByteArray.append_empty).symm, fun _ => rfl⟩
  | aside there same _ ih =>
    obtain ⟨base, hlog, hbase⟩ := ih there
    refine ⟨base, hlog, fun hleads => ?_⟩
    rw [Leads, ← same] at hleads
    rw [hbase hleads, same]
  | @line w w₁ _ r rs written _ ih =>
    obtain ⟨hw₁, base, hline, hbase⟩ := lines_eq_ok hw written
    obtain ⟨base₁, hlog, hbase₁⟩ := ih hw₁
    have hne : logged path w₁ ≠ .empty := by
      intro hempty
      have hsize := congrArg ByteArray.size (hline.symm.trans hempty)
      rw [ByteArray.size_append] at hsize
      exact absurd (Nat.add_eq_zero_iff.mp hsize).2 r.size_line_ne_zero
    refine ⟨base, ?_, hbase⟩
    rw [hlog, hbase₁ (Or.inr hne), hline, AuditRecord.logOf_cons, ByteArray.append_assoc]

/-- Records that a log takes each add one line to it, behind what the file held and in their
order.  The line of a record without doubles reads as an object with the fields of the record, and
of no other, for every reader that goes deeper than its data; one of 127 levels reads it if and
only if the data nest at most 126. -/
theorem lines_of_takes (h : Takes path rs w w') (hw : (files w).HasWorkingDirectory) :
    ∃ base, logged path w' = base ++ AuditRecord.logOf rs ∧
      (Leads path w → base = logged path w) ∧
      linesOf (AuditRecord.logOf rs) = rs.map (fun r => bytesOf r.toJson.compact) ++ [[]] ∧
      (EndsLine base → ∃ lines, linesOf base = lines ++ [[]] ∧
        linesOf (logged path w') =
          lines ++ (rs.map (fun r => bytesOf r.toJson.compact) ++ [[]])) ∧
      ∀ r ∈ rs, bytesOf r.toJson.compact ≠ [] ∧
        (r.data.isExact → r.timestamp.InRange →
          ∃ v, r.IsReadFrom v ∧ (∀ r' : AuditRecord, r'.IsReadFrom v → r' = r) ∧
            (∀ limit, Json.parseWithin? limit r.toJson.compact =
              if r.data.depth < limit then some v else none) ∧
            Json.parse? r.toJson.compact = if r.data.depth ≤ 126 then some v else none) := by
  obtain ⟨base, hlog, hbase⟩ := logged_of_takes h hw
  refine ⟨base, hlog, hbase, AuditRecord.linesOf_logOf rs, fun hends => ?_, fun r _ => ?_⟩
  · obtain ⟨lines, hfront, happend⟩ := linesOf_append hends (AuditRecord.logOf rs)
    exact ⟨lines, hfront, by rw [hlog, happend, AuditRecord.linesOf_logOf]⟩
  · refine ⟨r.bytesOf_compact_ne_nil, fun hexact htime => ?_⟩
    have hread := AuditRecord.parseWithin?_compact hexact
    refine ⟨_, AuditRecord.isReadFrom_members htime, fun r' hr' =>
      (AuditRecord.isReadFrom_members htime).unique hr', hread, ?_⟩
    rw [Json.parse?_eq_parseWithin?, hread]
    exact if_congr Nat.lt_succ_iff rfl rfl

/-! ## A log that was begun -/

/-- A file system with nothing but a log of one line. -/
def begun : FileSystem := ⟨.directory [("log.jsonl", .file "\x7b\x7d\n".toUTF8)], [], "/"⟩

theorem takes_begun {r : AuditRecord} (h : (lines "log.jsonl" r begun).1 = .ok ()) :
    Takes "log.jsonl" [r] begun (lines "log.jsonl" r begun).2 :=
  .line (Prod.ext h rfl) (.done _)

/-- A record with characters that end lines. -/
def unruly : AuditRecord :=
  ⟨some "a\n\"b\"", .ingested, OperationName.registered, .ofSeconds 0,
    .object [("k\r", .array [.number (.int (-1))])]⟩

theorem lines_of_takes_unruly : begun.HasWorkingDirectory ∧
    ∃ w', Takes "log.jsonl" [unruly] begun w' ∧ EndsLine (logged "log.jsonl" begun) ∧
      linesOf (logged "log.jsonl" w') =
        [bytesOf "\x7b\x7d", bytesOf unruly.toJson.compact, []] ∧
      ∃ v, Json.parse? unruly.toJson.compact = some v ∧ unruly.IsReadFrom v := by
  have hw : begun.HasWorkingDirectory := rfl
  have htakes : Takes "log.jsonl" [unruly] begun _ := takes_begun (by decide +kernel)
  have hleads : Leads "log.jsonl" begun := Or.inl (by decide)
  have hends : EndsLine (logged "log.jsonl" begun) := by
    intro b hb
    exact (Option.some.inj hb).symm
  obtain ⟨base, -, hbase, -, hlines, hall⟩ := lines_of_takes htakes hw
  obtain rfl := hbase hleads
  obtain ⟨lines, hfront, hlog⟩ := hlines hends
  obtain ⟨-, hread⟩ := hall unruly List.mem_cons_self
  obtain ⟨v, hv, -, -, hparse⟩ := hread (by decide +kernel) (by decide +kernel)
  have hbegun : lines = [bytesOf "\x7b\x7d"] := by
    have hold : linesOf (logged "log.jsonl" begun) = [bytesOf "\x7b\x7d"] ++ [[]] := by
      decide +kernel
    exact List.append_cancel_right (hfront.symm.trans hold)
  refine ⟨hw, _, htakes, hends, by rw [hlog, hbegun]; rfl, v, ?_, hv⟩
  rw [hparse, if_pos (by decide +kernel)]

/-- Metrics that can be read, and what is recorded of the call that they come of. -/
def metrics : Json := .object [("m", Memory.nested 124)]

def measuring : AuditRecord :=
  (((Entity.draft (.ofSeconds 0) "a" .null).beginStep (.ofSeconds 0) .ingested).fold (.ofSeconds 0)
    .ingested (.succeeded (some metrics)) 0).2

theorem depth_metrics : metrics.depth = 126 := by
  rw [metrics, Json.depth, Json.depthMembers, Json.depthMembers, Memory.depth_nested]
  rfl

/-- Metrics that were read can make a line that cannot be read. -/
theorem exists_line_unread : ∃ w',
    Json.parse? metrics.compact = some metrics ∧ measuring.data.isExact ∧
      Takes "log.jsonl" [measuring] begun w' ∧
      Json.parse? measuring.toJson.compact = none := by
  have hmetrics : metrics.isExact := by
    rw [metrics, Json.isExact, Json.isExactMembers, Memory.isExact_nested]
    rfl
  have hdata : measuring.data = .object
      [("attempt", .nat 1), ("durationMs", .nat 0), ("metrics", metrics)] := rfl
  have hexact : measuring.data.isExact := by
    rw [hdata, Json.isExact, Json.isExactMembers, Json.isExactMembers, Json.isExactMembers,
      hmetrics]
    decide +kernel
  have hdepth : measuring.data.depth = 127 := by
    simp [hdata, Json.depth, Json.depthMembers, depth_metrics, Json.nat]
  refine ⟨_, Json.parse?_compact hmetrics (by rw [depth_metrics]; decide), hexact,
    takes_begun (by decide +kernel), ?_⟩
  rw [Json.parse?_eq_parseWithin?, AuditRecord.parseWithin?_compact hexact, hdepth]
  rfl

end Sink
end Publishing
