import Mathlib.Data.List.Basic
import TopdownMetrics.Events.Uncore

/-!
# The index of an event store

A store keeps records by topic, finds the last record of a name through an index, and has a
catalog of events beside them.  The three are changed by different operations.  What they must
agree on is told by a journal of the additions to the store: the topics hold the records of the
journal in order, the index points at the last addition of each name, and the catalog holds
names from the journal only.
-/

namespace TopdownMetrics

/-! ## Journals -/

/-- A record that is added to a store. -/
structure Addition where
  topic : String
  name : String
  deriving DecidableEq, Repr

namespace Addition

/-- The names that a journal, its latest addition first, adds to a topic, in order. -/
def namesIn (topic : String) (journal : List Addition) : List String :=
  ((journal.filter (·.topic == topic)).map (·.name)).reverse

/-- Where the latest record of a name stands: behind the earlier ones of its topic. -/
def lastPosition? (name : String) : List Addition → Option RecordPosition
  | [] => none
  | a :: earlier =>
    if a.name = name then some ⟨a.topic, (namesIn a.topic earlier).length⟩
    else lastPosition? name earlier

variable {a : Addition} {journal : List Addition} {topic name : String} {p : RecordPosition}

theorem namesIn_cons :
    namesIn topic (a :: journal) =
      namesIn topic journal ++ if a.topic = topic then [a.name] else [] := by
  by_cases htopic : a.topic = topic
  · simp [namesIn, htopic]
  · simp [namesIn, htopic]

theorem getElem?_namesIn_of_lastPosition? (h : lastPosition? name journal = some p) :
    (namesIn p.topic journal)[p.index]? = some name := by
  induction journal with
  | nil => cases h
  | cons a earlier ih =>
    rw [namesIn_cons]
    unfold lastPosition? at h
    by_cases hname : a.name = name
    · rw [if_pos hname] at h
      obtain rfl := Option.some.inj h
      simp [hname]
    · rw [if_neg hname] at h
      have hbound := (List.getElem?_eq_some_iff.1 (ih h)).1
      rw [List.getElem?_append_left hbound]
      exact ih h

theorem exists_lastPosition?_of_mem (h : name ∈ namesIn topic journal) :
    ∃ p, lastPosition? name journal = some p := by
  induction journal with
  | nil => simp [namesIn] at h
  | cons a earlier ih =>
    unfold lastPosition?
    by_cases hname : a.name = name
    · exact ⟨_, if_pos hname⟩
    · rw [if_neg hname]
      apply ih
      rw [namesIn_cons] at h
      rcases List.mem_append.1 h with h | h
      · exact h
      · split at h
        · exact absurd (List.mem_singleton.1 h).symm hname
        · cases h

theorem exists_lastPosition?_of_mem_journal (h : a ∈ journal) :
    ∃ p, lastPosition? a.name journal = some p := by
  have hmem : a.name ∈ namesIn a.topic journal := by
    simpa [namesIn] using ⟨a, ⟨h, rfl⟩, rfl⟩
  exact exists_lastPosition?_of_mem hmem

end Addition

/-! ## Names of records -/

section

variable {r : EventRecord} {key : String}

/-- Changes that leave a key alone, one after the other. -/
theorem getElem?_foldl_of_forall {β : Type} {f : EventRecord → β → EventRecord} {changes : List β}
    (h : ∀ c ∈ changes, ∀ r : EventRecord, (f r c)[key]? = r[key]?) :
    (changes.foldl f r)[key]? = r[key]? := by
  induction changes generalizing r with
  | nil => rfl
  | cons c changes ih =>
    rw [List.foldl_cons, ih fun d hd => h d (List.mem_cons_of_mem c hd)]
    exact h c List.mem_cons_self r

theorem Event.name_record? {e : Event} (h : e.record? = some r) :
    r["EventName"]? = some e.name := by
  unfold Event.record? at h
  split at h
  · cases h
  · obtain rfl := Option.some.inj h
    rw [getElem?_foldl_of_forall]
    · exact Std.TreeMap.getElem?_insert_self
    · rintro ⟨key, value⟩ hfield r
      have hkey : key ≠ "EventName" := by
        have hkeys : ∀ key ∈ e.fields.map (·.1), key ≠ "EventName" := by
          simp [Event.fields]
        exact hkeys key (List.mem_map_of_mem hfield)
      cases value with
      | none => rfl
      | some value => simp [Std.TreeMap.getElem?_insert, hkey]

theorem EventStore.FileMarks.name_mark (marks : FileMarks) (r : EventRecord) :
    (marks.mark r)["EventName"]? = r["EventName"]? := by
  have hunit (unit : String) : (r.insertIfNew "Unit" unit)["EventName"]? = r["EventName"]? := by
    rw [Std.TreeMap.getElem?_insertIfNew]
    split
    · rename_i h
      simp at h
    · rfl
  unfold mark
  cases marks.unit with
  | none =>
    cases marks.perPackage with
    | false => rfl
    | true => simp [Std.TreeMap.getElem?_insert]
  | some unit =>
    cases marks.perPackage with
    | false => exact hunit unit
    | true => simpa [Std.TreeMap.getElem?_insert] using hunit unit

/-- The keys of a record that a row of rewrites can set. -/
def UncoreRow.rewrittenKeys : List String :=
  ["BriefDescription", "Filter", "UMask", "ScaleUnit", "MetricName", "MetricExpr"]

theorem UncoreRow.key_mem_of_mem_updates {row : UncoreRow} {name target value : String}
    {mask : Option String} {c : String × String}
    (h : c ∈ row.updates name target value mask) : c.1 ∈ rewrittenKeys := by
  have hsingle {p : Prop} [Decidable p] {key v : String} (hkey : key ∈ rewrittenKeys)
      (h : c ∈ if p then [] else [(key, v)]) : c.1 ∈ rewrittenKeys := by
    split at h
    · cases h
    · rw [List.mem_singleton.1 h]
      exact hkey
  unfold UncoreRow.updates at h
  simp only [List.mem_append, Option.mem_toList, Option.map_eq_some_iff] at h
  rcases h with (((hbrief | hfilter) | ⟨_, _, rfl⟩) | hscale) | hmetric
  · exact hsingle (by simp [rewrittenKeys]) hbrief
  · exact hsingle (by simp [rewrittenKeys]) hfilter
  · simp [rewrittenKeys]
  · exact hsingle (by simp [rewrittenKeys]) hscale
  · split at hmetric
    · cases hmetric
    · rcases List.mem_pair.1 hmetric with rfl | rfl
      · simp [rewrittenKeys]
      · simp [rewrittenKeys]

/-- No row of rewrites renames a record. -/
theorem UncoreRow.key_ne_of_mem_updates {row : UncoreRow} {name target value : String}
    {mask : Option String} {c : String × String}
    (h : c ∈ row.updates name target value mask) : c.1 ≠ "EventName" := by
  intro hname
  have hkey := key_mem_of_mem_updates h
  simp [hname, rewrittenKeys] at hkey

end

/-! ## What one operation adds -/

/-- The events of a file that are added to a store: of those that can be written the first of
each name. -/
def Event.firstWritten (es : List Event) : List Event :=
  (es.filter (·.record?.isSome)).eraseDupsBy (·.name == ·.name)

def Event.addition (e : Event) : Addition :=
  ⟨e.topic, e.name⟩

/-- The event that a row of rewrites refers to. -/
def UncoreRow.eventName (row : UncoreRow) (s : EventStore) : String :=
  resolveName s.catalog row.nameAndMask.1

/-- A call that changes a store. -/
inductive StoreCall where
  | addFile (kind text : String) (hybrid : Bool)
  | cloneAs (name newName : String)
  | applyUncore (text : String)
  deriving DecidableEq, Repr

theorem EventCatalog.mem_of_lookup? {c : EventCatalog} {name : String} {e : Event}
    (h : c.lookup? name = some e) : name ∈ c.events :=
  Std.TreeMap.mem_iff_isSome_getElem?.2 (Option.isSome_of_mem h)

namespace EventStore

/-- The store behind a call.  A call that fails leaves the store as it is. -/
def after (s : EventStore) : StoreCall → EventStore
  | .addFile kind text hybrid => ((s.addFile? kind text hybrid).map (·.1)).getD s
  | .cloneAs name newName => (s.cloneAs? name newName).getD s
  | .applyUncore text => (s.applyUncoreText text).1

/-- A copy goes to the topic of the record of which it is a copy. -/
def copyAdditions (s : EventStore) (name newName : String) : List Addition :=
  (s.positions[name]?.map fun p => ⟨p.topic, newName⟩).toList

/-- A row of rewrites adds a copy if it has a new name and its event is in the catalog. -/
def rowAdditions (s : EventStore) (row : UncoreRow) : List Addition :=
  if row.newName ≠ "" ∧ (s.catalog.lookup? (row.eventName s)).isSome then
    s.copyAdditions (row.eventName s) row.newName
  else []

def rowsAdditions (s : EventStore) : List UncoreRow → List Addition
  | [] => []
  | row :: rows => ((row.applyTo? s).getD s).rowsAdditions rows ++ s.rowAdditions row

/-- What a call adds to a store, the latest addition first. -/
def additions (s : EventStore) : StoreCall → List Addition
  | .addFile _ text _ =>
    (((Event.ofFile? text).map Event.firstWritten).getD []).reverse.map Event.addition
  | .cloneAs name newName => s.copyAdditions name newName
  | .applyUncore text => s.rowsAdditions ((Csv.rows text).map UncoreRow.ofCells)

/-- The store behind a list of calls, from an empty one. -/
def ofCalls (calls : List StoreCall) : EventStore :=
  calls.foldl after {}

/-- What calls add to a store, the latest addition first. -/
def journal (s : EventStore) : List StoreCall → List Addition
  | [] => []
  | call :: calls => (s.after call).journal calls ++ s.additions call

/-! ## Stores that follow a journal -/

def recordAt? (s : EventStore) (p : RecordPosition) : Option EventRecord :=
  (s.topics[p.topic]?).bind (·[p.index]?)

/-- The names of the records of a topic. -/
def recordNames (s : EventStore) (topic : String) : List (Option String) :=
  (s.topics.getD topic #[]).toList.map (·["EventName"]?)

/-- The three parts of a store agree with the journal of what has been added to it. -/
structure Follows (s : EventStore) (journal : List Addition) : Prop where
  /-- The records of a topic are those that have been added to it. -/
  records : ∀ topic, s.recordNames topic = (Addition.namesIn topic journal).map some
  positions : ∀ name, s.positions[name]? = Addition.lastPosition? name journal
  catalog : ∀ name ∈ s.catalog.events, ∃ a ∈ journal, a.name = name

theorem recordAt?_map (s : EventStore) (p : RecordPosition) :
    (s.recordAt? p).map (·["EventName"]?) = (s.recordNames p.topic)[p.index]? := by
  unfold recordAt? recordNames
  rw [Std.TreeMap.getD_eq_getD_getElem?]
  cases s.topics[p.topic]? with
  | none => simp
  | some records => simp

theorem record?_eq (s : EventStore) (name : String) :
    s.record? name = s.positions[name]?.bind s.recordAt? :=
  rfl

namespace Follows

variable {s : EventStore} {journal : List Addition} {topic name newName : String}
  {r : EventRecord} {p : RecordPosition}

theorem exists_recordAt? (h : s.Follows journal) (hp : s.positions[name]? = some p) :
    ∃ r, s.recordAt? p = some r ∧ r["EventName"]? = some name := by
  rw [h.positions] at hp
  have hname := Addition.getElem?_namesIn_of_lastPosition? hp
  have hrecord := s.recordAt?_map p
  rw [h.records, List.getElem?_map, hname] at hrecord
  obtain ⟨r, hr, hrname⟩ := Option.map_eq_some_iff.1 hrecord
  exact ⟨r, hr, hrname⟩

theorem exists_record? (h : s.Follows journal) (hp : s.positions[name]? = some p) :
    ∃ r, s.record? name = some r ∧ r["EventName"]? = some name := by
  rw [record?_eq, hp]
  exact h.exists_recordAt? hp

theorem exists_position (h : s.Follows journal) (hr : s.recordAt? p = some r) :
    ∃ name last, r["EventName"]? = some name ∧ s.positions[name]? = some last := by
  have hrecord := s.recordAt?_map p
  rw [h.records, List.getElem?_map, hr] at hrecord
  obtain ⟨name, hname, hrname⟩ := Option.map_eq_some_iff.1 hrecord.symm
  obtain ⟨last, hlast⟩ := Addition.exists_lastPosition?_of_mem (List.mem_of_getElem? hname)
  exact ⟨name, last, hrname.symm, (h.positions name).trans hlast⟩

theorem exists_position_of_mem_catalog (h : s.Follows journal) (hname : name ∈ s.catalog.events) :
    ∃ p, s.positions[name]? = some p := by
  obtain ⟨a, ha, rfl⟩ := h.catalog name hname
  obtain ⟨p, hp⟩ := Addition.exists_lastPosition?_of_mem_journal ha
  exact ⟨p, (h.positions a.name).trans hp⟩

theorem empty : ({} : EventStore).Follows [] where
  records topic := by simp [recordNames, Addition.namesIn]
  positions name := by simp [Addition.lastPosition?]
  catalog name hname := by simp at hname

theorem push (h : s.Follows journal) (topic : String) (hname : r["EventName"]? = some name) :
    (s.push topic r).Follows (⟨topic, name⟩ :: journal) where
  records other := by
    have hrecords := h.records other
    unfold recordNames at hrecords ⊢
    rw [Addition.namesIn_cons]
    simp only [EventStore.push, Std.TreeMap.getD_insert]
    by_cases htopic : topic = other
    · subst htopic
      simp [hrecords, hname]
    · simp [hrecords, htopic]
  positions other := by
    have hsize : (s.topics.getD topic #[]).size = (Addition.namesIn topic journal).length := by
      have hlength := congrArg List.length (h.records topic)
      simpa [recordNames] using hlength
    unfold Addition.lastPosition?
    simp only [EventStore.push, hname, Std.TreeMap.getElem?_insert, hsize]
    by_cases hother : name = other
    · simp [hother]
    · simp [hother, h.positions]
  catalog other hother := by
    obtain ⟨a, ha, haname⟩ := h.catalog other hother
    exact ⟨a, List.mem_cons_of_mem _ ha, haname⟩

theorem register (h : s.Follows journal) {e : Event} (he : ∃ a ∈ journal, a.name = e.name) :
    ({ s with catalog := (s.catalog.register e).1 } : EventStore).Follows journal where
  records := h.records
  positions := h.positions
  catalog name hname := by
    unfold EventCatalog.register at hname
    split at hname
    · exact h.catalog name hname
    · rcases Std.TreeMap.mem_insert.1 hname with hname | hname
      · obtain rfl : e.name = name := by simpa using hname
        exact he
      · exact h.catalog name hname

theorem setRecord (h : s.Follows journal) (hr : r["EventName"]? = some name) :
    (s.setRecord name r).Follows journal := by
  unfold EventStore.setRecord
  cases hp : s.positions[name]? with
  | none => exact h
  | some p =>
    refine ⟨fun topic => ?_, h.positions, h.catalog⟩
    obtain ⟨old, hold, hname⟩ := h.exists_recordAt? hp
    obtain ⟨records, hrecords, hat⟩ := Option.bind_eq_some_iff.1 hold
    rw [← h.records topic]
    unfold recordNames
    by_cases htopic : p.topic = topic
    · subst htopic
      -- The name at the position is written over by itself.
      have hnames : (records.toList.map (·["EventName"]?))[p.index]? = some (some name) := by
        rw [List.getElem?_map, Array.getElem?_toList, hat, Option.map_some, hname]
      rw [Std.TreeMap.getD_modify_self, Std.TreeMap.getD_eq_getD_getElem?, hrecords]
      simp only [Option.map_some, Option.getD_some, Array.toList_setIfInBounds, List.map_set, hr]
      obtain ⟨hbound, hat⟩ := List.getElem?_eq_some_iff.1 hnames
      rw [← hat]
      exact List.set_getElem_self hbound
    · simp [Std.TreeMap.getD_modify, htopic]

theorem addEvents (marks : FileMarks) {seen : List String} (added : Nat) (es : List Event)
    (h : s.Follows journal) :
    (EventStore.addEvents marks s seen added es).1.Follows
      (((es.filter fun e => e.record?.isSome && !seen.contains e.name).eraseDupsBy
        (·.name == ·.name)).reverse.map Event.addition ++ journal) := by
  induction es generalizing s seen added journal with
  | nil => exact h
  | cons e es ih =>
    unfold EventStore.addEvents
    cases hrecord : e.record? with
    | none => simpa [hrecord] using ih added h
    | some r =>
      dsimp only
      by_cases hseen : e.name ∈ seen
      · simpa [hrecord, hseen] using ih added h
      · have hname : (marks.mark r)["EventName"]? = some e.name :=
          (marks.name_mark r).trans (Event.name_record? hrecord)
        have hpush : Follows _ (e.addition :: journal) :=
          (h.push e.topic hname).register ⟨_, List.mem_cons_self, rfl⟩
        have hrest := @ih _ _ (e.name :: seen) (added + 1) hpush
        -- Names that come again in the file are passed over from here on.
        have hunseen : (es.filter fun b => b.record?.isSome && !(e.name :: seen).contains b.name) =
            (es.filter fun b => b.record?.isSome && !seen.contains b.name).filter
              fun b => (b.name == e.name) = false := by
          rw [List.filter_filter]
          apply List.filter_congr
          intro b _
          cases b.record?.isSome <;> simp
        rw [if_neg (by simpa using hseen), List.filter_cons_of_pos (by simp [hrecord, hseen]),
          List.eraseDupsBy_cons, ← hunseen]
        simpa using hrest

theorem cloneAs (h : s.Follows journal) (name newName : String) :
    ((s.cloneAs? name newName).getD s).Follows (s.copyAdditions name newName ++ journal) ∧
      (s.cloneAs? name newName).isSome = (s.positions[name]?).isSome := by
  unfold EventStore.cloneAs? copyAdditions
  cases hp : s.positions[name]? with
  | none => exact ⟨h, rfl⟩
  | some p =>
    obtain ⟨r, hr, hname⟩ := h.exists_record? hp
    have hnew : (r.insert "EventName" newName)["EventName"]? = some newName :=
      Std.TreeMap.getElem?_insert_self
    simp only [hr]
    exact ⟨h.push p.topic hnew, rfl⟩

theorem cloned (h : s.Follows journal) (hp : s.positions[name]? = some p) (newName : String) :
    ∃ copied r, s.cloneAs? name newName = some copied ∧
      copied.Follows (s.copyAdditions name newName ++ journal) ∧
      copied.record? newName = some r ∧ r["EventName"]? = some newName := by
  obtain ⟨hfollows, hsome⟩ := h.cloneAs name newName
  rw [hp] at hsome
  obtain ⟨copied, hcopied⟩ := Option.isSome_iff_exists.1 hsome
  rw [hcopied] at hfollows
  have hadded : (⟨p.topic, newName⟩ : Addition) ∈ s.copyAdditions name newName ++ journal := by
    simp [copyAdditions, hp]
  obtain ⟨last, hlast⟩ := Addition.exists_lastPosition?_of_mem_journal hadded
  obtain ⟨r, hr, hname⟩ := hfollows.exists_record? ((hfollows.positions newName).trans hlast)
  exact ⟨copied, r, hcopied, hfollows, hr, hname⟩

theorem rewritten (h : s.Follows journal) (hname : r["EventName"]? = some name)
    {changes : List (String × String)} (hchanges : ∀ c ∈ changes, c.1 ≠ "EventName") :
    (s.setRecord name (changes.foldl (fun r (key, value) => r.insert key value) r)).Follows
      journal := by
  apply h.setRecord
  rw [getElem?_foldl_of_forall, hname]
  intro c hc r
  simp [Std.TreeMap.getElem?_insert, hchanges c hc]

/-- A row applies exactly if the catalog has its event: the record that it changes is there. -/
theorem applyTo (h : s.Follows journal) (row : UncoreRow) :
    ((row.applyTo? s).getD s).Follows (s.rowAdditions row ++ journal) ∧
      (row.applyTo? s).isSome = (s.catalog.lookup? (row.eventName s)).isSome := by
  unfold UncoreRow.applyTo? rowAdditions UncoreRow.eventName
  obtain ⟨given, mask⟩ := row.nameAndMask
  dsimp only
  generalize UncoreRow.resolveName s.catalog given = name
  cases hsource : s.catalog.lookup? name with
  | none => exact ⟨by simpa using h, rfl⟩
  | some source =>
    obtain ⟨p, hp⟩ := h.exists_position_of_mem_catalog (EventCatalog.mem_of_lookup? hsource)
    by_cases hnew : row.newName = ""
    · obtain ⟨r, hr, hname⟩ := h.exists_record? hp
      simp only [hnew, if_true, Option.bind_eq_bind, Option.bind_some, hr, Option.pure_def]
      exact ⟨h.rewritten hname fun _ => UncoreRow.key_ne_of_mem_updates, rfl⟩
    · obtain ⟨copied, r, hcopied, hfollows, hr, hname⟩ := h.cloned hp row.newName
      simp only [hnew, if_false, Option.bind_eq_bind, Option.bind_some, hcopied, hr,
        Option.pure_def]
      rw [if_pos ⟨hnew, rfl⟩]
      exact ⟨hfollows.rewritten hname fun _ => UncoreRow.key_ne_of_mem_updates, rfl⟩

theorem applyUncoreRows (h : s.Follows journal) (rows : List UncoreRow) :
    (s.applyUncoreRows rows).1.Follows (s.rowsAdditions rows ++ journal) := by
  unfold EventStore.applyUncoreRows
  generalize 0 = count
  induction rows generalizing s journal count with
  | nil => exact h
  | cons row rows ih =>
    have hrow := (h.applyTo row).1
    rw [List.foldl_cons, rowsAdditions, List.append_assoc]
    cases happly : row.applyTo? s with
    | none =>
      rw [happly] at hrow
      simp only [happly]
      exact ih hrow count
    | some changed =>
      rw [happly] at hrow
      simp only [happly]
      exact ih hrow (count + 1)

theorem after (h : s.Follows journal) (call : StoreCall) :
    (s.after call).Follows (s.additions call ++ journal) := by
  cases call with
  | addFile kind text hybrid =>
    simp only [EventStore.after, EventStore.additions, EventStore.addFile?]
    cases Event.ofFile? text with
    | none => exact h
    | some es =>
      have hadded := @addEvents _ _ (.ofKind kind hybrid) [] 0 es h
      simpa [Event.firstWritten] using hadded
  | cloneAs name newName => exact (h.cloneAs name newName).1
  | applyUncore text => exact h.applyUncoreRows _

theorem foldl_after (h : s.Follows journal) (calls : List StoreCall) :
    (calls.foldl EventStore.after s).Follows (s.journal calls ++ journal) := by
  induction calls generalizing s journal with
  | nil => exact h
  | cons call calls ih =>
    rw [List.foldl_cons, EventStore.journal, List.append_assoc]
    exact ih (h.after call)

end Follows

theorem follows_ofCalls (calls : List StoreCall) :
    (ofCalls calls).Follows (({} : EventStore).journal calls) := by
  have hrun := Follows.empty.foldl_after calls
  rwa [List.append_nil] at hrun

/-- Whatever calls have been made, each entry of the index points at the last record that was
added under its name, each record has a name in the index, and a row of rewrites whose event
is in the catalog finds the record that it changes. -/
theorem index_of_calls (calls : List StoreCall) :
    let s := ofCalls calls
    let journal := ({} : EventStore).journal calls
    (∀ topic, s.recordNames topic = (Addition.namesIn topic journal).map some) ∧
    (∀ name, s.positions[name]? = Addition.lastPosition? name journal) ∧
    (∀ name p, s.positions[name]? = some p →
      ∃ r, s.recordAt? p = some r ∧ r["EventName"]? = some name) ∧
    (∀ p r, s.recordAt? p = some r →
      ∃ name last, r["EventName"]? = some name ∧ s.positions[name]? = some last) ∧
    (∀ name e, s.catalog.lookup? name = some e →
      ∃ p r, s.positions[name]? = some p ∧ s.record? name = some r) ∧
    (∀ row : UncoreRow,
      (row.applyTo? s).isSome = (s.catalog.lookup? (row.eventName s)).isSome) := by
  intro s journal
  have h : s.Follows journal := follows_ofCalls calls
  refine ⟨h.records, h.positions, fun name p => h.exists_recordAt?, fun p r => h.exists_position,
    fun name e he => ?_, fun row => (h.applyTo row).2⟩
  obtain ⟨p, hp⟩ := h.exists_position_of_mem_catalog (EventCatalog.mem_of_lookup? he)
  obtain ⟨r, hr, -⟩ := h.exists_record? hp
  exact ⟨p, r, hp, hr⟩

end EventStore

end TopdownMetrics
