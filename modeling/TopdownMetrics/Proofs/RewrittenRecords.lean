import TopdownMetrics.Proofs.StoredRecords

/-!
# What a row of rewrites changes

A row that applies either writes over the last record of its event or appends a copy of it; which
of the two, is decided by its new name.  All its exits but the first lie behind the copy, so that a
store is left half changed if one of them is taken.  In a store that calls have built none of them
is: the catalog has the event only if there is a record to copy and to change.
-/

namespace TopdownMetrics

def EventRecord.AgreesBut (keys : List String) (r r' : EventRecord) : Prop :=
  ∀ key ∉ keys, r'[key]? = r[key]?

namespace EventRecord.AgreesBut

variable {keys : List String} {r r' r'' : EventRecord}

theorem refl (keys : List String) (r : EventRecord) : AgreesBut keys r r :=
  fun _ _ => rfl

theorem trans (h : AgreesBut keys r r') (h' : AgreesBut keys r' r'') : AgreesBut keys r r'' :=
  fun key hkey => (h' key hkey).trans (h key hkey)

theorem foldl_insert {changes : List (String × String)} (h : ∀ c ∈ changes, c.1 ∈ keys) :
    AgreesBut keys r (changes.foldl (fun r (key, value) => r.insert key value) r) := by
  intro key hkey
  apply getElem?_foldl_of_forall
  intro c hc r
  have hne : c.1 ≠ key := by
    intro heq
    rw [← heq] at hkey
    exact hkey (h c hc)
  simp [Std.TreeMap.getElem?_insert, hne]

end EventRecord.AgreesBut

namespace UncoreRow

/-- The row applies to the stores whose catalog has its event. -/
def applies (row : UncoreRow) (s : EventStore) : Bool :=
  (s.catalog.lookup? (row.eventName s)).isSome

/-- The values that the row sets in the record of `target`, a copy of that of `name` or the same. -/
def rewrite (row : UncoreRow) (name target : String) (source : Event) (r : EventRecord) :
    EventRecord :=
  (row.updates name target (source.filterValue.getD "") row.nameAndMask.2).foldl
    (fun r (key, value) => r.insert key value) r

/-- The row with all its exits: whether it applies, and the store in which it leaves off. -/
def run (row : UncoreRow) (s : EventStore) : Bool × EventStore :=
  let name := row.eventName s
  let target := if row.newName = "" then name else row.newName
  match s.catalog.lookup? name with
  | none => (false, s)
  | some source =>
    match if row.newName = "" then some s else s.cloneAs? name row.newName with
    | none => (false, s)
    | some copied =>
      match copied.record? target with
      | none => (false, copied)
      | some r => (true, copied.setRecord target (row.rewrite name target source r))

theorem applyTo?_eq_run (row : UncoreRow) (s : EventStore) :
    row.applyTo? s = match row.run s with
      | (true, s') => some s'
      | (false, _) => none := by
  unfold applyTo? run eventName
  dsimp only
  cases s.catalog.lookup? (resolveName s.catalog row.nameAndMask.1) with
  | none => rfl
  | some source =>
    by_cases hnew : row.newName = ""
    · simp only [hnew, if_true, Option.bind_eq_bind, Option.bind_some]
      cases s.record? (resolveName s.catalog row.nameAndMask.1) <;> rfl
    · simp only [hnew, if_false, Option.bind_eq_bind, Option.bind_some]
      cases s.cloneAs? (resolveName s.catalog row.nameAndMask.1) row.newName with
      | none => rfl
      | some copied =>
        simp only [Option.bind_some]
        cases copied.record? row.newName <;> rfl

/-- What a row that applies does to the records and to the index. -/
inductive Changes (row : UncoreRow) (s s' : EventStore) : Prop
  | inPlace {p : RecordPosition} {r r' : EventRecord} (newName : row.newName = "")
      (position : s.positions[row.eventName s]? = some p) (record : s.recordAt? p = some r)
      (name : r["EventName"]? = some (row.eventName s)) (agrees : r.AgreesBut rewrittenKeys r')
      (records : ∀ topic, s'.recordsIn topic =
        if p.topic = topic then (s.recordsIn topic).set p.index r' else s.recordsIn topic)
      (positions : s'.positions = s.positions)
  | copy {p : RecordPosition} {r r' : EventRecord} (newName : row.newName ≠ "")
      (position : s.positions[row.eventName s]? = some p) (record : s.recordAt? p = some r)
      (name : r'["EventName"]? = some row.newName)
      (agrees : r.AgreesBut ("EventName" :: rewrittenKeys) r')
      (records : ∀ topic, s'.recordsIn topic =
        s.recordsIn topic ++ if p.topic = topic then [r'] else [])
      (positions : ∀ name, s'.positions[name]? =
        if row.newName = name then some ⟨p.topic, (s.recordsIn p.topic).length⟩
        else s.positions[name]?)

variable {row : UncoreRow} {s s' : EventStore}

theorem eventName_congr (h : s'.catalog = s.catalog) : row.eventName s' = row.eventName s := by
  rw [eventName, eventName, h]

theorem applies_congr (h : s'.catalog = s.catalog) : row.applies s' = row.applies s := by
  rw [applies, applies, eventName_congr h, h]

theorem agreesBut_rewrite (row : UncoreRow) (name target : String) (source : Event)
    (r : EventRecord) : r.AgreesBut rewrittenKeys (row.rewrite name target source r) :=
  .foldl_insert fun _ => key_mem_of_mem_updates

namespace Changes

/-- A record stays in its place, and only that of the event of the row changes. -/
theorem exists_recordAt? (h : row.Changes s s') {q : RecordPosition} {old : EventRecord}
    (hold : s.recordAt? q = some old) :
    ∃ new, s'.recordAt? q = some new ∧ old.AgreesBut rewrittenKeys new ∧
      ((row.newName = "" → old["EventName"]? ≠ some (row.eventName s)) → new = old) := by
  rw [EventStore.recordAt?_eq] at hold
  have hbound := (List.getElem?_eq_some_iff.1 hold).1
  cases h with
  | @inPlace p r r' newName position record name agrees records positions =>
    rw [EventStore.recordAt?_eq, records]
    by_cases hplace : p = q
    · rcases hplace with rfl
      have hsame : r = old := Option.some.inj (record.symm.trans (s.recordAt?_eq p ▸ hold))
      rw [if_pos rfl, List.getElem?_set_self hbound]
      rw [hsame] at name agrees
      exact ⟨r', rfl, agrees, fun hother => absurd name (hother newName)⟩
    · have helse : (if p.topic = q.topic then (s.recordsIn q.topic).set p.index r'
          else s.recordsIn q.topic)[q.index]? = some old := by
        split
        · rename_i htopic
          rw [List.getElem?_set_ne, hold]
          intro hindex
          apply hplace
          cases p
          cases q
          simp_all
        · exact hold
      exact ⟨old, helse, .refl _ old, fun _ => rfl⟩
  | copy newName position record name agrees records positions =>
    rw [EventStore.recordAt?_eq, records, List.getElem?_append_left hbound]
    exact ⟨old, hold, .refl _ old, fun _ => rfl⟩

theorem recordCount_eq (h : row.Changes s s') :
    s'.recordCount = s.recordCount + if row.newName = "" then 0 else 1 := by
  cases h with
  | inPlace newName position record name agrees records positions =>
    rw [if_pos newName]
    apply EventStore.recordCount_of_appended []
    intro topic
    rw [records]
    split
    · rw [List.length_set, List.count_nil, Nat.add_zero]
    · rfl
  | @copy p _ _ newName position record name agrees records positions =>
    rw [if_neg newName]
    apply EventStore.recordCount_of_appended [p.topic]
    intro topic
    rw [records, List.length_append, List.count_singleton]
    by_cases htopic : p.topic = topic
    · simp [htopic]
    · simp [htopic]

end Changes

end UncoreRow

namespace EventStore

variable {s s' : EventStore} {journal : List Addition}

namespace Follows

theorem inPlace (h : s.Follows journal) {row : UncoreRow} {source : Event}
    (hsource : s.catalog.lookup? (row.eventName s) = some source) (hnew : row.newName = "") :
    ∃ s', row.run s = (true, s') ∧ s'.catalog = s.catalog ∧ row.Changes s s' := by
  rcases h.exists_position_of_mem_catalog (EventCatalog.mem_of_lookup? hsource) with ⟨p, hp⟩
  rcases h.exists_recordAt? hp with ⟨r, hr, hname⟩
  have hrecord : s.record? (row.eventName s) = some r := by
    rw [record?_eq, hp]
    exact hr
  refine ⟨_, ?_, catalog_setRecord s _ _, .inPlace hnew hp hr hname
    (row.agreesBut_rewrite (row.eventName s) (row.eventName s) source r) (recordsIn_setRecord hp _)
    (positions_setRecord s _ _)⟩
  simp only [UncoreRow.run, hsource, hnew, if_true, hrecord]

theorem copy (h : s.Follows journal) {row : UncoreRow} {source : Event}
    (hsource : s.catalog.lookup? (row.eventName s) = some source) (hnew : row.newName ≠ "") :
    ∃ s', row.run s = (true, s') ∧ s'.catalog = s.catalog ∧ row.Changes s s' := by
  rcases h.exists_position_of_mem_catalog (EventCatalog.mem_of_lookup? hsource) with ⟨p, hp⟩
  rcases h.exists_recordAt? hp with ⟨r, hr, -⟩
  let renamed : EventRecord := r.insert "EventName" row.newName
  let copied := s.push p.topic renamed
  have hname : renamed["EventName"]? = some row.newName := Std.TreeMap.getElem?_insert_self
  have hclone : s.cloneAs? (row.eventName s) row.newName = some copied := by
    have hrecord : s.record? (row.eventName s) = some r := by
      rw [record?_eq, hp]
      exact hr
    simp only [cloneAs?, hp, hrecord, Option.bind_eq_bind, Option.bind_some, Option.pure_def]
    rfl
  have hposition : copied.positions[row.newName]? =
      some ⟨p.topic, (s.recordsIn p.topic).length⟩ := by
    rw [s.positions_push p.topic hname, if_pos rfl]
  have hrecord : copied.record? row.newName = some renamed := s.record?_push_self p.topic hname
  let changed := row.rewrite (row.eventName s) row.newName source renamed
  have hchanged : renamed.AgreesBut UncoreRow.rewrittenKeys changed :=
    row.agreesBut_rewrite _ _ source renamed
  have hagrees : EventRecord.AgreesBut ("EventName" :: UncoreRow.rewrittenKeys) r changed := by
    intro key hkey
    rw [List.mem_cons, not_or] at hkey
    rw [hchanged key hkey.2, Std.TreeMap.getElem?_insert]
    simp [Ne.symm hkey.1]
  refine ⟨copied.setRecord row.newName changed, ?_, catalog_setRecord copied _ _,
    .copy hnew hp hr ?_ hagrees ?_ ?_⟩
  · simp only [UncoreRow.run, hsource, hnew, if_false, hclone, hrecord]
    rfl
  · rw [hchanged _ (by simp [UncoreRow.rewrittenKeys]), hname]
  · intro topic
    rw [recordsIn_setRecord hposition, recordsIn_push]
    by_cases htopic : p.topic = topic
    · simp [htopic]
    · simp [htopic]
  · intro name
    rw [positions_setRecord, s.positions_push p.topic hname]

/-- A row stops before it has changed anything, or it applies. -/
theorem run_row (h : s.Follows journal) (row : UncoreRow) :
    (row.applies s = false ∧ row.run s = (false, s)) ∨
    (row.applies s = true ∧
      ∃ s', row.run s = (true, s') ∧ s'.catalog = s.catalog ∧ row.Changes s s') := by
  unfold UncoreRow.applies
  cases hsource : s.catalog.lookup? (row.eventName s) with
  | none =>
    left
    simp only [Option.isSome_none, UncoreRow.run, hsource, and_self]
  | some source =>
    right
    refine ⟨rfl, ?_⟩
    by_cases hnew : row.newName = ""
    · exact h.inPlace hsource hnew
    · exact h.copy hsource hnew

end Follows

/-- What rows do together to a store, if `applied` of them apply. -/
structure Rewritten (rows : List UncoreRow) (s : EventStore) (applied : Nat) (s' : EventStore) :
    Prop where
  catalog : s'.catalog = s.catalog
  count : applied = rows.countP (·.applies s)
  recordCount : s'.recordCount =
    s.recordCount + rows.countP fun row => row.applies s && row.newName ≠ ""
  records : ∀ p r, s.recordAt? p = some r → ∃ r', s'.recordAt? p = some r' ∧
    r.AgreesBut UncoreRow.rewrittenKeys r' ∧
    ((∀ row ∈ rows, row.newName = "" → r["EventName"]? ≠ some (row.eventName s)) → r' = r)

namespace Rewritten

variable {row : UncoreRow} {rows : List UncoreRow} {s₁ : EventStore} {n : Nat}

theorem nil (s : EventStore) : Rewritten [] s 0 s where
  catalog := rfl
  count := rfl
  recordCount := rfl
  records _ r hr := ⟨r, hr, .refl _ r, fun _ => rfl⟩

theorem skip (hskip : row.applies s = false) (h : Rewritten rows s n s') :
    Rewritten (row :: rows) s n s' where
  catalog := h.catalog
  count := by rw [List.countP_cons_of_neg (by simp [hskip]), h.count]
  recordCount := by rw [List.countP_cons_of_neg (by simp [hskip]), h.recordCount]
  records p r hr := by
    rcases h.records p r hr with ⟨r', hr', hagrees, hsame⟩
    exact ⟨r', hr', hagrees, fun hother =>
      hsame fun other hmem => hother other (List.mem_cons_of_mem row hmem)⟩

theorem cons (happly : row.applies s = true) (hcatalog : s₁.catalog = s.catalog)
    (hchanges : row.Changes s s₁) (h : Rewritten rows s₁ n s') :
    Rewritten (row :: rows) s (n + 1) s' where
  catalog := h.catalog.trans hcatalog
  count := by
    simp only [h.count, UncoreRow.applies_congr hcatalog, List.countP_cons, happly, if_true]
  recordCount := by
    simp only [h.recordCount, hchanges.recordCount_eq, UncoreRow.applies_congr hcatalog,
      List.countP_cons, happly, Bool.true_and]
    by_cases hnew : row.newName = ""
    · simp [hnew]
    · simp [hnew, Nat.add_assoc, Nat.add_comm 1]
  records p r hr := by
    rcases hchanges.exists_recordAt? hr with ⟨r₁, hr₁, hagrees₁, hsame₁⟩
    rcases h.records p r₁ hr₁ with ⟨r', hr', hagrees, hsame⟩
    refine ⟨r', hr', hagrees₁.trans hagrees, fun hother => ?_⟩
    have hfirst : r₁ = r := hsame₁ (hother row List.mem_cons_self)
    rw [hfirst] at hsame
    apply hsame
    intro other hmem
    rw [UncoreRow.eventName_congr hcatalog]
    exact hother other (List.mem_cons_of_mem row hmem)

end Rewritten

/-- The step of the loop over the rows: the store so far and the number of rows that applied. -/
def countRow (sofar : EventStore × Nat) (row : UncoreRow) : EventStore × Nat :=
  match row.applyTo? sofar.1 with
  | some s => (s, sofar.2 + 1)
  | none => sofar

theorem applyUncoreRows_eq (s : EventStore) (rows : List UncoreRow) :
    s.applyUncoreRows rows = rows.foldl countRow (s, 0) :=
  rfl

theorem foldl_countRow (s : EventStore) (count : Nat) (rows : List UncoreRow) :
    rows.foldl countRow (s, count) =
      ((s.applyUncoreRows rows).1, (s.applyUncoreRows rows).2 + count) := by
  rw [applyUncoreRows_eq]
  induction rows generalizing s count with
  | nil => simp
  | cons row rows ih =>
    simp only [List.foldl_cons, countRow]
    cases row.applyTo? s with
    | none => exact ih s count
    | some s₁ =>
      dsimp only
      rw [ih s₁ (count + 1), ih s₁ (0 + 1)]
      simp only [Nat.zero_add, Nat.add_assoc, Nat.add_comm 1]

theorem applyUncoreRows_cons (s : EventStore) (row : UncoreRow) (rows : List UncoreRow) :
    s.applyUncoreRows (row :: rows) = match row.applyTo? s with
      | some s₁ => ((s₁.applyUncoreRows rows).1, (s₁.applyUncoreRows rows).2 + 1)
      | none => s.applyUncoreRows rows := by
  rw [applyUncoreRows_eq, List.foldl_cons, countRow]
  cases row.applyTo? s with
  | none => exact foldl_countRow s 0 rows
  | some s₁ => exact foldl_countRow s₁ 1 rows

theorem Follows.rewritten_rows (h : s.Follows journal) (rows : List UncoreRow) :
    Rewritten rows s (s.applyUncoreRows rows).2 (s.applyUncoreRows rows).1 := by
  induction rows generalizing s journal with
  | nil => exact .nil s
  | cons row rows ih =>
    have hfollows := (h.applyTo row).1
    rcases h.run_row row with ⟨hskip, hrun⟩ | ⟨happly, s₁, hrun, hcatalog, hchanges⟩
    · rw [applyUncoreRows_cons, row.applyTo?_eq_run, hrun]
      exact .skip hskip (ih h)
    · rw [row.applyTo?_eq_run, hrun] at hfollows
      rw [applyUncoreRows_cons, row.applyTo?_eq_run, hrun]
      exact .cons happly hcatalog hchanges (ih hfollows)

/-- A row of rewrites changes one record or nothing, in each store that calls have built.  It
applies if and only if the catalog has its event.  If it does not, then it has changed nothing when
it stops; and a file of rewrites returns the number of rows that apply. -/
theorem uncore_rewrites_of_calls (calls : List StoreCall) :
    let s := ofCalls calls
    (∀ row : UncoreRow,
      (row.applies s = false ∧ row.run s = (false, s) ∧ row.applyTo? s = none) ∨
      (row.applies s = true ∧ ∃ s', row.run s = (true, s') ∧ row.applyTo? s = some s' ∧
        s'.catalog = s.catalog ∧ row.Changes s s')) ∧
    ∀ text, Rewritten ((Csv.rows text).map UncoreRow.ofCells) s (s.applyUncoreText text).2
      (s.applyUncoreText text).1 := by
  intro s
  have h : s.Follows (({} : EventStore).journal calls) := follows_ofCalls calls
  constructor
  · intro row
    rcases h.run_row row with ⟨hskip, hrun⟩ | ⟨happly, s', hrun, hcatalog, hchanges⟩
    · left
      exact ⟨hskip, hrun, by rw [row.applyTo?_eq_run, hrun]⟩
    · right
      exact ⟨happly, s', hrun, by rw [row.applyTo?_eq_run, hrun], hcatalog, hchanges⟩
  · intro text
    exact h.rewritten_rows _

end EventStore

end TopdownMetrics
