import Mathlib.Algebra.BigOperators.Group.Finset.Basic
import TopdownMetrics.Proofs.StoreIndex

/-!
# The records in a store

An operation on a store either appends a record to a topic or writes over one in its place.  Both
are told by the list of records of each topic; so is the number of all records, because a topic
without records does not count.
-/

namespace TopdownMetrics.EventStore

/-- The records of a topic, in order. -/
def recordsIn (s : EventStore) (topic : String) : List EventRecord :=
  (s.topics.getD topic #[]).toList

variable {s s' : EventStore} {r : EventRecord} {p : RecordPosition} {name newName topic : String}

theorem recordAt?_eq (s : EventStore) (p : RecordPosition) :
    s.recordAt? p = (s.recordsIn p.topic)[p.index]? := by
  unfold recordAt? recordsIn
  rw [Std.TreeMap.getD_eq_getD_getElem?]
  cases s.topics[p.topic]? with
  | none => simp
  | some records => simp

/-! ## What the operations do to the records -/

theorem recordsIn_push (s : EventStore) (topic : String) (r : EventRecord) (other : String) :
    (s.push topic r).recordsIn other =
      s.recordsIn other ++ if topic = other then [r] else [] := by
  unfold recordsIn push
  by_cases htopic : topic = other
  · simp [htopic]
  · simp [Std.TreeMap.getD_insert, htopic]

theorem positions_push (s : EventStore) (topic : String) (hname : r["EventName"]? = some name)
    (other : String) :
    (s.push topic r).positions[other]? =
      if name = other then some ⟨topic, (s.recordsIn topic).length⟩ else s.positions[other]? := by
  simp only [push, hname, Std.TreeMap.getElem?_insert, Std.LawfulEqCmp.compare_eq_iff_eq, recordsIn,
    Array.length_toList]

theorem recordsIn_setRecord (hp : s.positions[name]? = some p) (r : EventRecord)
    (topic : String) :
    (s.setRecord name r).recordsIn topic =
      if p.topic = topic then (s.recordsIn topic).set p.index r else s.recordsIn topic := by
  unfold recordsIn setRecord
  rw [hp]
  by_cases htopic : p.topic = topic
  · subst htopic
    rw [if_pos rfl, Std.TreeMap.getD_modify_self, Std.TreeMap.getD_eq_getD_getElem?]
    cases s.topics[p.topic]? with
    | none => simp
    | some records => simp
  · simp [Std.TreeMap.getD_modify, htopic]

theorem positions_setRecord (s : EventStore) (name : String) (r : EventRecord) :
    (s.setRecord name r).positions = s.positions := by
  unfold setRecord
  cases s.positions[name]? <;> rfl

theorem catalog_setRecord (s : EventStore) (name : String) (r : EventRecord) :
    (s.setRecord name r).catalog = s.catalog := by
  unfold setRecord
  cases s.positions[name]? <;> rfl

/-! ## The last record of a name -/

theorem record?_of_concat
    (hposition : s'.positions[name]? = some ⟨topic, (s.recordsIn topic).length⟩)
    (hrecords : s'.recordsIn topic = s.recordsIn topic ++ [r]) : s'.record? name = some r := by
  rw [record?_eq, hposition, Option.bind_some, recordAt?_eq, hrecords, List.getElem?_concat_length]

/-- If records are only appended, a name keeps its last record as long as it keeps its place. -/
theorem record?_of_append {more : String → List EventRecord}
    (hrecords : ∀ topic, s'.recordsIn topic = s.recordsIn topic ++ more topic)
    (hposition : s'.positions[name]? = s.positions[name]?) (hr : s.record? name = some r) :
    s'.record? name = some r := by
  rw [record?_eq] at hr
  obtain ⟨p, hp, hat⟩ := Option.bind_eq_some_iff.1 hr
  rw [recordAt?_eq] at hat
  have hbound := (List.getElem?_eq_some_iff.1 hat).1
  rw [record?_eq, hposition, hp, Option.bind_some, recordAt?_eq, hrecords,
    List.getElem?_append_left hbound, hat]

theorem record?_push_self (s : EventStore) (topic : String) (hname : r["EventName"]? = some name) :
    (s.push topic r).record? name = some r := by
  have hposition : (s.push topic r).positions[name]? =
      some ⟨topic, (s.recordsIn topic).length⟩ := by
    rw [s.positions_push topic hname, if_pos rfl]
  apply record?_of_concat hposition
  rw [recordsIn_push, if_pos rfl]

theorem record?_setRecord (h : s.record? name = some r) (r' : EventRecord) :
    (s.setRecord name r').record? name = some r' := by
  rw [record?_eq] at h
  obtain ⟨p, hp, hat⟩ := Option.bind_eq_some_iff.1 h
  rw [recordAt?_eq] at hat
  have hbound := (List.getElem?_eq_some_iff.1 hat).1
  rw [record?_eq, positions_setRecord, hp, Option.bind_some, recordAt?_eq, recordsIn_setRecord hp,
    if_pos rfl, List.getElem?_set_self hbound]

theorem record?_of_cloneAs? {copied : EventStore} (h : s.cloneAs? name newName = some copied) :
    ∃ old, s.record? name = some old ∧
      copied.record? newName = some (old.insert "EventName" newName) := by
  obtain ⟨p, hp, h⟩ := Option.bind_eq_some_iff.1 h
  obtain ⟨old, hold, h⟩ := Option.bind_eq_some_iff.1 h
  obtain rfl := Option.some.inj h
  exact ⟨old, hold, s.record?_push_self p.topic Std.TreeMap.getElem?_insert_self⟩

/-! ## How many records there are -/

theorem length_recordsIn_of_notMem {topic : String} (h : topic ∉ s.topics) :
    (s.recordsIn topic).length = 0 := by
  rw [recordsIn, Std.TreeMap.getD_eq_fallback h]
  rfl

/-- The count runs over the topics of the store, but may run over any more. -/
theorem recordCount_eq_sum {topics : Finset String} (h : ∀ topic ∈ s.topics, topic ∈ topics) :
    s.recordCount = ∑ topic ∈ topics, (s.recordsIn topic).length := by
  have hsizes : s.topics.toList.map (fun entry => entry.2.size) =
      s.topics.keys.map fun topic => (s.recordsIn topic).length := by
    rw [← Std.TreeMap.map_fst_toList_eq_keys, List.map_map]
    refine List.map_congr_left fun entry hentry => ?_
    have hrecords := Std.TreeMap.mem_toList_iff_getElem?_eq_some.1 hentry
    simp [recordsIn, Std.TreeMap.getD_eq_getD_getElem?, hrecords]
  have hcount : s.recordCount = (s.topics.toList.map fun entry => entry.2.size).sum := by
    rw [recordCount, Std.TreeMap.foldl_eq_foldl_toList, List.sum_eq_foldl, List.foldl_map]
  rw [hcount, hsizes, ← List.sum_toFinset _ Std.TreeMap.nodup_keys]
  refine Finset.sum_subset ?_ ?_
  · intro topic htopic
    exact h topic (Std.TreeMap.mem_keys.1 (List.mem_toFinset.1 htopic))
  · intro topic _ htopic
    refine length_recordsIn_of_notMem fun hmem => htopic ?_
    exact List.mem_toFinset.2 (Std.TreeMap.mem_keys.2 hmem)

/-- If each topic is longer by the records that were appended to it, then there are as many
records more. -/
theorem recordCount_of_appended (topics : List String)
    (h : ∀ topic, (s'.recordsIn topic).length = (s.recordsIn topic).length + topics.count topic) :
    s'.recordCount = s.recordCount + topics.length := by
  let all := s.topics.keys.toFinset ∪ s'.topics.keys.toFinset ∪ topics.toFinset
  have hleft : ∀ topic ∈ s.topics, topic ∈ all := fun topic htopic => by
    simp [all, htopic]
  have hright : ∀ topic ∈ s'.topics, topic ∈ all := fun topic htopic => by
    simp [all, htopic]
  have hcounts : ∑ topic ∈ all, topics.count topic = topics.length := by
    rw [← List.sum_toFinset_count_eq_length topics]
    refine (Finset.sum_subset Finset.subset_union_right ?_).symm
    intro topic _ htopic
    exact List.count_eq_zero_of_not_mem (mt List.mem_toFinset.2 htopic)
  rw [recordCount_eq_sum hleft, recordCount_eq_sum hright, ← hcounts,
    ← Finset.sum_add_distrib]
  exact Finset.sum_congr rfl fun topic _ => h topic

end TopdownMetrics.EventStore
