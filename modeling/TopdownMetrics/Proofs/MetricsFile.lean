import TopdownMetrics.Metrics.File
import TopdownMetrics.Proofs.JsonStrings

/-!
# Reading back a metrics file

The items of a block stand on lines of their own, and the reader passes over the blanks between
them.  So a block is read back if each of its items is: members of a record by the strings they
hold, records by their members, and the file by its records.  Fields that are not set have no
member and are read as not set.
-/

namespace TopdownMetrics

namespace Json

open Scanner

theorem blanks_eq (cs : List Char) : blanks cs = some ((), cs.dropWhile isBlank) :=
  rfl

theorem dropWhile_blanks {ws : List Char} {c : Char} (hws : ∀ c ∈ ws, isBlank c = true)
    (hc : isBlank c = false) (cs : List Char) : (ws ++ c :: cs).dropWhile isBlank = c :: cs := by
  rw [List.dropWhile_append_of_pos hws]
  exact List.dropWhile_cons_of_neg (by simp [hc])

theorem reads_blanks_bind {α : Type} {f : Unit → Scanner α} {a : α} {ws text : List Char} {c : Char}
    (hws : ∀ c ∈ ws, isBlank c = true) (hc : isBlank c = false) (h : (f ()).Reads (c :: text) a) :
    (blanks >>= f).Reads (ws ++ c :: text) a := by
  intro rest
  rw [List.append_assoc, bind_apply (blanks_eq _), List.cons_append, dropWhile_blanks hws hc]
  exact h rest

/-! ## The text of a block -/

/-- The end of a line and the blanks in front of the next. -/
def lineBreak (depth : Nat) : List Char :=
  '\n' :: List.replicate (4 * depth) ' '

theorem isBlank_of_mem_lineBreak {depth : Nat} : ∀ c ∈ lineBreak depth, isBlank c = true := by
  intro c hc
  rcases List.mem_cons.1 hc with rfl | hc
  · rfl
  · rw [List.eq_of_mem_replicate hc]
    rfl

/-- What stands behind an item: further items, or the end of the block. -/
def behindItem (depth : Nat) (close : Char) : List (List Char) → List Char
  | [] => lineBreak depth ++ [close]
  | line :: lines => ',' :: (lineBreak (depth + 1) ++ line ++ behindItem depth close lines)

/-- The text of a block behind its opening bracket. -/
def blockText (depth : Nat) (close : Char) : List (List Char) → List Char
  | [] => [close]
  | line :: lines => lineBreak (depth + 1) ++ line ++ behindItem depth close lines

theorem intercalate_eq_behindItem (depth : Nat) (close : Char) (line : List Char)
    (lines : List (List Char)) :
    '\n' :: [',', '\n'].intercalate
        ((line :: lines).map (List.replicate (4 * (depth + 1)) ' ' ++ ·)) ++
          lineBreak depth ++ [close] =
      lineBreak (depth + 1) ++ line ++ behindItem depth close lines := by
  induction lines generalizing line with
  | nil => simp [behindItem, lineBreak]
  | cons next lines ih =>
    rw [behindItem, ← ih]
    simp [List.intercalate_cons_cons, lineBreak]

theorem toList_block {opening closing : String} {close : Char} (hclosing : closing.toList = [close])
    (depth : Nat) (lines : List String) :
    (block opening closing depth lines).toList =
      opening.toList ++ blockText depth close (lines.map String.toList) := by
  cases lines with
  | nil => simp [block, blockText, hclosing]
  | cons line lines =>
    have hlines : ((line :: lines).map (indentation (depth + 1) ++ ·)).map String.toList =
        ((line :: lines).map String.toList).map (List.replicate (4 * (depth + 1)) ' ' ++ ·) := by
      simp [indentation]
    have hbreak : "\n".toList ++ (indentation depth).toList = lineBreak depth := by
      simp [indentation, lineBreak]
    rw [List.map_cons, blockText, ← intercalate_eq_behindItem, ← List.map_cons, ← hlines, block,
      if_neg (by simp)]
    simp only [String.toList_append, String.toList_intercalate, hclosing, ← hbreak,
      List.append_assoc]
    rfl

section

variable (depth : Nat) (close : Char) (lines : List (List Char))

theorem length_lt_behindItem : lines.length < (behindItem depth close lines).length := by
  induction lines with
  | nil => simp [behindItem]
  | cons line lines ih =>
    simp only [behindItem, List.length_cons, List.length_append]
    omega

theorem length_le_behindItem {line : List Char} (h : line ∈ lines) :
    line.length ≤ (behindItem depth close lines).length := by
  induction lines with
  | nil => cases h
  | cons first lines ih =>
    simp only [behindItem, List.length_cons, List.length_append]
    rcases List.mem_cons.1 h with rfl | hmem
    · omega
    · have hle := ih hmem
      omega

theorem length_le_blockText : lines.length ≤ (blockText depth close lines).length := by
  cases lines with
  | nil => exact Nat.zero_le _
  | cons line lines =>
    have hlt := length_lt_behindItem depth close lines
    simp only [blockText, List.length_cons, List.length_append]
    omega

theorem line_length_le_blockText {line : List Char} (h : line ∈ lines) :
    line.length ≤ (blockText depth close lines).length := by
  cases lines with
  | nil => cases h
  | cons first lines =>
    simp only [blockText, List.length_append]
    rcases List.mem_cons.1 h with rfl | hmem
    · omega
    · have hle := length_le_behindItem depth close lines hmem
      omega

end

/-! ## Reading a block -/

/-- What the reader of a block takes at once behind the first item. -/
def nextItem {α : Type} (item : Scanner α) : Scanner (Option α) := do
  if (← peek?) = some ',' then
    char ','
    blanks
    let a ← item
    blanks
    return some a
  else
    return none

theorem items_eq {α : Type} (fuel : Nat) (close : Char) (item : Scanner α) :
    items fuel close item = do
      blanks
      if (← peek?) = some close then
        char close
        return []
      else
        let first ← item
        blanks
        let rest ← steps fuel (nextItem item)
        char close
        return first :: rest :=
  rfl

section

variable {α ε : Type} {item : Scanner α} {close : Char} {depth : Nat}

/-- The text of an item is read back, and does not look like the end of the block. -/
structure Item (item : Scanner α) (close : Char) (line : List Char) (a : α) : Prop where
  reads : item.Reads line a
  starts : ∃ c cs, line = c :: cs ∧ isBlank c = false ∧ c ≠ close

theorem Item.dropWhile_blanks {line : List Char} {a : α} (h : Item item close line a)
    (rest : List Char) : (lineBreak depth ++ line ++ rest).dropWhile isBlank = line ++ rest := by
  obtain ⟨c, cs, rfl, hc, -⟩ := h.starts
  rw [List.append_assoc]
  exact Json.dropWhile_blanks isBlank_of_mem_lineBreak hc (cs ++ rest)

theorem nextItem_of_end (hcomma : close ≠ ',') (rest : List Char) :
    nextItem item (close :: rest) = some (none, close :: rest) := by
  unfold nextItem
  rw [peek_bind, if_neg (by simpa using hcomma)]
  rfl

theorem nextItem_of_item {line : List Char} {a : α} (h : Item item close line a)
    (rest : List Char) :
    nextItem item (',' :: (lineBreak depth ++ line ++ rest)) =
      some (some a, rest.dropWhile isBlank) := by
  have hcomma : char ',' (',' :: (lineBreak depth ++ line ++ rest)) =
      some ((), lineBreak depth ++ line ++ rest) :=
    reads_char ',' _
  unfold nextItem
  rw [peek_bind, if_pos rfl, bind_apply hcomma, bind_apply (blanks_eq _), h.dropWhile_blanks,
    bind_apply (h.reads rest), bind_apply (blanks_eq rest)]
  rfl

variable {line : ε → List Char} {read : ε → α}

theorem stepsOnto_nextItem (hclose : isBlank close = false) (hcomma : close ≠ ',')
    {entries : List ε} (hitems : ∀ e ∈ entries, Item item close (line e) (read e)) {fuel : Nat}
    (hfuel : entries.length ≤ fuel) (found : List α) (rest : List Char) :
    stepsOnto found fuel (nextItem item)
        ((behindItem depth close (entries.map line) ++ rest).dropWhile isBlank) =
      some (found.reverse ++ entries.map read, close :: rest) := by
  induction entries generalizing fuel found with
  | nil =>
    rw [List.map_nil, behindItem, List.append_assoc, List.singleton_append,
      dropWhile_blanks isBlank_of_mem_lineBreak hclose,
      stepsOnto_of_end (nextItem_of_end hcomma rest)]
    simp
  | cons e entries ih =>
    obtain ⟨fuel, rfl⟩ := Nat.exists_eq_add_of_le' (Nat.one_le_of_lt hfuel)
    have hrest := ih (fun e he => hitems e (List.mem_cons_of_mem _ he))
      (Nat.le_of_succ_le_succ hfuel) (read e :: found)
    have hitem := @nextItem_of_item _ _ _ (depth + 1) _ _ (hitems e List.mem_cons_self)
      (behindItem depth close (entries.map line) ++ rest)
    have hcomma : (behindItem depth close ((e :: entries).map line) ++ rest).dropWhile isBlank =
        ',' :: (lineBreak (depth + 1) ++ line e ++
          (behindItem depth close (entries.map line) ++ rest)) := by
      rw [List.map_cons, behindItem, List.cons_append, List.append_assoc]
      rfl
    rw [hcomma, stepsOnto_of_step hitem, hrest]
    simp

/-- A block is read back if each of its items is. -/
theorem items_reads (hclose : isBlank close = false) (hcomma : close ≠ ',') {entries : List ε}
    {fuel : Nat} (hfuel : (blockText depth close (entries.map line)).length ≤ fuel)
    (hitems : ∀ e ∈ entries, (line e).length ≤ fuel → Item item close (line e) (read e)) :
    (items fuel close item).Reads (blockText depth close (entries.map line))
      (entries.map read) := by
  have hread : ∀ e ∈ entries, Item item close (line e) (read e) := fun e he =>
    hitems e he (Nat.le_trans
      (line_length_le_blockText depth close _ (List.mem_map_of_mem he)) hfuel)
  have hcount := Nat.le_trans (length_le_blockText depth close (entries.map line)) hfuel
  rw [List.length_map] at hcount
  intro rest
  have hend : char close (close :: rest) = some ((), rest) := reads_char close rest
  rw [items_eq, bind_apply (blanks_eq _)]
  cases entries with
  | nil =>
    have hblanks : (close :: rest).dropWhile isBlank = close :: rest :=
      List.dropWhile_cons_of_neg (by simp [hclose])
    rw [List.map_nil, blockText, List.singleton_append, hblanks, peek_bind, if_pos rfl,
      bind_apply hend]
    rfl
  | cons e entries =>
    have he := hread e List.mem_cons_self
    obtain ⟨c, cs, hline, -, hne⟩ := he.starts
    have hsteps := @stepsOnto_nextItem _ _ _ _ depth line read hclose hcomma entries
      (fun e he => hread e (List.mem_cons_of_mem _ he)) fuel (Nat.le_of_succ_le hcount) [] rest
    rw [List.map_cons, blockText, List.append_assoc, he.dropWhile_blanks, hline, List.cons_append,
      peek_bind, if_neg (by simpa using hne), ← List.cons_append, ← hline, bind_apply (he.reads _),
      bind_apply (blanks_eq _)]
    unfold steps
    rw [bind_apply hsteps, bind_apply hend]
    rfl

end

/-! ## Records -/

/-- A record whose fields hold strings. -/
def stringRecord (fields : List (String × String)) : Json :=
  .object (fields.map fun entry => (entry.1, .string entry.2))

def memberLine (entry : String × String) : List Char :=
  (quote entry.1 ++ ": " ++ quote entry.2).toList

/-- How the value of a member of a record is read. -/
def fieldValue (names : List String) (fuel : Nat) (name : String) : Scanner (Option Json) :=
  if names.contains name then some <$> value .keep fuel depthLimit
  else do
    passedOver fuel
    return none

theorem fieldMember_eq (names : List String) (fuel : Nat) :
    fieldMember names fuel = do
      let entry ← member .keep fuel (fieldValue names fuel)
      return entry.2.map (entry.1, ·) :=
  rfl

theorem member_reads {α : Type} {key : String} {fuel : Nat} (hfuel : key.length ≤ fuel)
    {valueOf : String → Scanner α} {c : Char} {text : List Char} {a : α} (hc : isBlank c = false)
    (hvalue : (valueOf key).Reads (c :: text) a) :
    (member .keep fuel valueOf).Reads ((quote key).toList ++ ([':', ' '] ++ c :: text))
      (key, a) := by
  have hrest : (blanks >>= fun _ => char ':' >>= fun _ => blanks >>= fun _ =>
      valueOf key >>= fun a => pure (key, a)).Reads ([] ++ ':' :: ([' '] ++ c :: text)) (key, a) :=
    reads_blanks_bind nofun rfl (reads_char_bind
      (reads_blanks_bind (List.forall_mem_singleton.2 rfl) hc (hvalue.pure_bind fun a => (key, a))))
  rw [toList_quote, List.cons_append]
  exact reads_char_bind ((stringRest_reads hfuel).bind hrest)

variable {names : List String} {fuel : Nat}

theorem fieldMember_item {entry : String × String} (hname : entry.1 ∈ names)
    (hfuel : (memberLine entry).length ≤ fuel) :
    Item (fieldMember names fuel) '\x7d' (memberLine entry) (some (entry.1, .string entry.2)) := by
  obtain ⟨key, text⟩ := entry
  have hline :
      memberLine (key, text) = (quote key).toList ++ ([':', ' '] ++ (quote text).toList) := by
    simp [memberLine]
  have hkey := length_le_length_quote key
  have htext := length_le_length_quote text
  rw [hline] at hfuel ⊢
  simp only [List.length_append] at hfuel
  have hvalue : (fieldValue names fuel key).Reads (quote text).toList (some (.string text)) := by
    unfold fieldValue
    rw [if_pos (by simpa using hname)]
    exact (value_reads_quote (by omega) depthLimit).map some
  rw [toList_quote text] at hvalue ⊢
  refine ⟨?_, '"', _, congrArg (· ++ _) (toList_quote key), rfl, by decide⟩
  rw [fieldMember_eq]
  exact (member_reads (by omega) rfl hvalue).pure_bind fun entry => entry.2.map (entry.1, ·)

theorem toList_indented_stringRecord (depth : Nat) (fields : List (String × String)) :
    ((stringRecord fields).indented depth).toList =
      '\x7b' :: blockText depth '\x7d' (fields.map memberLine) := by
  have hmembers : indentedMembers depth (fields.map fun entry => (entry.1, .string entry.2)) =
      fields.map fun entry => quote entry.1 ++ ": " ++ quote entry.2 := by
    induction fields with
    | nil => rfl
    | cons entry fields ih => rw [List.map_cons, indentedMembers, ih]; rfl
  rw [stringRecord, indented, hmembers, toList_block rfl, List.map_map]
  rfl

theorem recordValue_item {fields : List (String × String)} {depth : Nat}
    (hnames : ∀ entry ∈ fields, entry.1 ∈ names)
    (hfuel : ((stringRecord fields).indented depth).toList.length ≤ fuel) :
    Item (recordValue names fuel) ']' ((stringRecord fields).indented depth).toList
      (stringRecord fields) := by
  rw [toList_indented_stringRecord] at hfuel ⊢
  have hmembers : (items fuel '\x7d' (fieldMember names fuel)).Reads
      (blockText depth '\x7d' (fields.map memberLine))
      (fields.map fun entry => some (entry.1, .string entry.2)) :=
    items_reads rfl (by decide) (Nat.le_of_succ_le hfuel) fun entry hentry hlength =>
      fieldMember_item (hnames entry hentry) hlength
  have hfields : (fields.map fun entry => some (entry.1, Json.string entry.2)).filterMap id =
      fields.map fun entry => (entry.1, Json.string entry.2) := by
    simp [List.filterMap_map]
  have hrecord : (char '\x7b' >>= fun _ => items fuel '\x7d' (fieldMember names fuel) >>=
      fun members => pure (Json.object (members.filterMap id))).Reads
        ('\x7b' :: blockText depth '\x7d' (fields.map memberLine)) (stringRecord fields) := by
    have hobject := hmembers.pure_bind fun members => Json.object (members.filterMap id)
    rw [hfields] at hobject
    exact reads_char_bind hobject
  exact ⟨fun rest => hrecord rest, '\x7b', _, rfl, rfl, by decide⟩

theorem toList_fileText (records : List (List (String × String))) :
    (Json.array (records.map stringRecord)).fileText.toList =
      '[' :: (blockText 0 ']'
        (records.map fun fields => ((stringRecord fields).indented 1).toList) ++ ['\n']) := by
  have hitems : indentedItems 0 (records.map stringRecord) =
      records.map fun fields => (stringRecord fields).indented 1 := by
    induction records with
    | nil => rfl
    | cons fields records ih => rw [List.map_cons, indentedItems, ih]; rfl
  rw [fileText, indented, hitems, String.toList_append, toList_block rfl, List.map_map]
  rfl

/-- How a whole file of records is read. -/
def recordsDocument (names : List String) (fuel : Nat) : Scanner (List Json) := do
  blanks
  char '['
  let records ← items fuel ']' (recordValue names fuel)
  blanks
  return records

theorem parseRecords?_eq (names : List String) (text : String) :
    parseRecords? names text = runAll? (recordsDocument names text.length) text :=
  rfl

/-- Records of the given fields are read back from the text of their array. -/
theorem parseRecords?_fileText {records : List (List (String × String))}
    (hnames : ∀ fields ∈ records, ∀ entry ∈ fields, entry.1 ∈ names) :
    parseRecords? names (Json.array (records.map stringRecord)).fileText =
      some (records.map stringRecord) := by
  have htext := toList_fileText records
  generalize (Json.array (records.map stringRecord)).fileText = text at htext ⊢
  have hlength := congrArg List.length htext
  rw [String.length_toList, List.length_cons, List.length_append] at hlength
  have hrecords : (items text.length ']' (recordValue names text.length)).Reads
      (blockText 0 ']' (records.map fun fields => ((stringRecord fields).indented 1).toList))
      (records.map stringRecord) :=
    items_reads rfl (by decide) (by omega) fun fields hfields hle =>
      recordValue_item (hnames fields hfields) hle
  have hopen : ∀ rest, char '[' ('[' :: rest) = some ((), rest) := reads_char '['
  have hdocument : recordsDocument names text.length text.toList =
      some (records.map stringRecord, []) := by
    unfold recordsDocument
    rw [htext, bind_apply (blanks_eq _)]
    show (char '[' >>= _) ('[' :: _) = _
    rw [bind_apply (hopen _), bind_apply (hrecords ['\n']), bind_apply (blanks_eq _)]
    rfl
  rw [parseRecords?_eq]
  unfold runAll?
  rw [hdocument]

/-! ## Fields -/

/-- The fields that are set. -/
def setFields (entries : List (String × Option String)) : List (String × String) :=
  entries.filterMap fun entry => entry.2.map (entry.1, ·)

theorem mem_of_mem_setFields {entries : List (String × Option String)} {entry : String × String}
    (h : entry ∈ setFields entries) : (entry.1, some entry.2) ∈ entries := by
  obtain ⟨⟨key, set⟩, hmem, hset⟩ := List.mem_filterMap.1 h
  obtain ⟨value, rfl, rfl⟩ := Option.map_eq_some_iff.1 hset
  exact hmem

section

variable {entries : List (String × Option String)} (hnames : (entries.map (·.1)).Nodup)

include hnames

theorem nodup_setFields : ((setFields entries).map (·.1)).Nodup := by
  rw [List.Nodup, List.pairwise_map] at hnames ⊢
  rw [setFields, List.pairwise_filterMap]
  refine hnames.imp ?_
  intro entry other hne field hfield field' hfield'
  obtain ⟨_, _, rfl⟩ := Option.map_eq_some_iff.1 hfield
  obtain ⟨_, _, rfl⟩ := Option.map_eq_some_iff.1 hfield'
  exact hne

/-- A field is looked up among those that are set. -/
theorem lookup_setFields {name : String} {value : Option String} (h : (name, value) ∈ entries) :
    List.lookup name ((setFields entries).map fun entry => (entry.1, Json.string entry.2)) =
      value.map Json.string := by
  induction entries with
  | nil => cases h
  | cons entry entries ih =>
    obtain ⟨key, set⟩ := entry
    rw [List.map_cons, List.nodup_cons] at hnames
    have hrest : ∀ {other : Option String}, (key, other) ∉ entries := fun hmem =>
      hnames.1 (List.mem_map.2 ⟨_, hmem, rfl⟩)
    rcases List.mem_cons.1 h with heq | hmem
    · obtain ⟨rfl, rfl⟩ := Prod.mk.inj heq
      cases value with
      | some v => simp [setFields]
      | none =>
        have hunset : setFields ((name, none) :: entries) = setFields entries := rfl
        rw [hunset, Option.map_none, List.lookup_eq_none_iff]
        intro member hmember
        obtain ⟨entry, hentry, rfl⟩ := List.mem_map.1 hmember
        refine bne_iff_ne.2 ?_
        rintro rfl
        exact hrest (mem_of_mem_setFields hentry)
    · have hne : name ≠ key := by
        rintro rfl
        exact hrest hmem
      cases set with
      | none => exact ih hnames.2 hmem
      | some v =>
        have hbeq : (name == key) = false := by simpa using hne
        have hset : setFields ((key, some v) :: entries) = (key, v) :: setFields entries := rfl
        rw [hset, List.map_cons, List.lookup_cons, hbeq]
        exact ih hnames.2 hmem

/-- Each field of a record that has been written is found as it was set. -/
theorem exists_fields?_stringRecord :
    ∃ fs, fields? (entries.map (·.1)) (stringRecord (setFields entries)) = some fs ∧
      ∀ entry ∈ entries, fs entry.1 = entry.2.map Json.string := by
  have honce : ∀ name, (((setFields entries).map fun entry =>
      (entry.1, Json.string entry.2)).filter (·.1 == name)).length ≤ 1 := by
    intro name
    have hcount := List.nodup_iff_count.1 (nodup_setFields hnames) name
    rw [List.count_eq_countP, List.countP_map] at hcount
    rw [← List.countP_eq_length_filter, List.countP_map]
    exact hcount
  refine ⟨_, if_pos (List.all_eq_true.2 fun name _ => decide_eq_true (honce name)), ?_⟩
  intro entry hentry
  exact lookup_setFields hnames hentry

end

variable {fs : Fields} {name : String}

theorem required?_of_string {v : String} (h : fs name = some (.string v)) :
    fs.required? name string? = some v := by
  unfold Fields.required?
  rw [h]
  rfl

theorem text?_of_set {value : Option String} (h : fs name = value.map Json.string) :
    fs.text? name = some value := by
  unfold Fields.text? Fields.defaulting?
  rw [h]
  cases value with
  | none => rfl
  | some v => rfl

end Json

namespace Metric

open Json

/-- The fields of a record in the order of their names, and whether they are set. -/
def entries (m : Metric) : List (String × Option String) :=
  [("BriefDescription", some m.briefDescription), ("MetricConstraint", m.constraint),
   ("MetricExpr", some m.expr), ("MetricGroup", m.group), ("MetricName", some m.name),
   ("PublicDescription", m.publicDescription), ("ScaleUnit", m.scaleUnit), ("Unit", m.unit)]

theorem toJson_eq (m : Metric) : m.toJson = stringRecord (setFields m.entries) :=
  rfl

theorem map_fst_entries (m : Metric) : m.entries.map (·.1) = fieldNames :=
  rfl

theorem nodup_names (m : Metric) : (m.entries.map (·.1)).Nodup := by
  rw [map_fst_entries]
  decide

theorem ofJson?_toJson (m : Metric) : ofJson? m.toJson = some m := by
  obtain ⟨fs, hfields, hset⟩ := exists_fields?_stringRecord m.nodup_names
  rw [← toJson_eq, map_fst_entries] at hfields
  simp only [entries, List.forall_mem_cons] at hset
  obtain ⟨hbrief, hconstraint, hexpr, hgroup, hname, hpublic, hscale, hunit, -⟩ := hset
  unfold ofJson?
  rw [hfields, Option.bind_eq_bind, Option.bind_some, required?_of_string hbrief,
    text?_of_set hconstraint, required?_of_string hexpr, text?_of_set hgroup,
    required?_of_string hname, text?_of_set hpublic, text?_of_set hscale, text?_of_set hunit]
  rfl

theorem mem_fieldNames_of_mem {m : Metric} {entry : String × String}
    (h : entry ∈ setFields m.entries) : entry.1 ∈ fieldNames := by
  rw [← m.map_fst_entries]
  exact List.mem_map.2 ⟨_, mem_of_mem_setFields h, rfl⟩

theorem mapM_ofJson?_toJson (ms : List Metric) : (ms.map toJson).mapM ofJson? = some ms := by
  have hback : ofJson? ∘ toJson = pure := funext ofJson?_toJson
  rw [List.mapM_map, hback, List.mapM_pure, List.map_id']
  rfl

theorem listOfText?_fileText (ms : List Metric) : listOfText? (fileText ms) = some ms := by
  have hnames : ∀ fields ∈ ms.map fun m => setFields m.entries, ∀ entry ∈ fields,
      entry.1 ∈ fieldNames := by
    intro fields hfields entry hentry
    obtain ⟨m, _, rfl⟩ := List.mem_map.1 hfields
    exact mem_fieldNames_of_mem hentry
  have hparse := parseRecords?_fileText hnames
  rw [List.map_map] at hparse
  have hrecords : ms.map (stringRecord ∘ fun m => setFields m.entries) = ms.map toJson := rfl
  rw [hrecords] at hparse
  unfold listOfText? fileText
  rw [hparse]
  exact mapM_ofJson?_toJson ms

/-- Reading back a metrics file undoes writing it. -/
theorem listOfText?_toUTF8_fileText (ms : List Metric) :
    (String.fromUTF8? (fileText ms).toUTF8).bind listOfText? = some ms := by
  have hbytes : String.fromUTF8? (fileText ms).toUTF8 = some (fileText ms) :=
    dif_pos (fileText ms).isValidUTF8
  rw [hbytes]
  exact listOfText?_fileText ms

end Metric

end TopdownMetrics
