import TopdownMetrics.Proofs.AddedFiles
import TopdownMetrics.Proofs.RewrittenRecords

/-!
# The event from which a record was made

A record is made from an event of a file, or it is a copy of the last record of some name and so
made from the same event as that one.  Only the last record of a name is ever copied or written
over, so that it is enough to know one event for each name: that of its last record.  The catalog
knows one as well, but the first that was added under the name.
-/

namespace TopdownMetrics

/-- For each name the event from which its last record was made. -/
abbrev Origins := String → Option Event

namespace Origins

/-- A record is appended for each of the events. -/
def add (o : Origins) (es : List Event) : Origins := fun name =>
  (es.findRev? (·.name == name)).or (o name)

/-- The last record of `name` is copied under `newName`, if there is one. -/
def copy (o : Origins) (name newName : String) : Origins := fun other =>
  if newName = other then (o name).or (o other) else o other

theorem add_append (o : Origins) (es more : List Event) :
    o.add (es ++ more) = (o.add es).add more := by
  funext name
  simp only [add, List.findRev?_eq_find?_reverse, List.reverse_append, List.find?_append,
    Option.or_assoc]

theorem copy_of_none {o : Origins} {name : String} (h : o name = none) (newName : String) :
    o.copy name newName = o := by
  funext other
  rw [copy, h, Option.none_or, ite_self]

theorem copy_self {o : Origins} {name : String} (h : (o name).isSome) (newName : String) :
    o.copy name newName newName = o name := by
  rw [copy, if_pos rfl, Option.or_of_isSome h]

theorem copy_of_ne (o : Origins) (name : String) {newName other : String}
    (hne : newName ≠ other) : o.copy name newName other = o other := by
  rw [copy, if_neg hne]

end Origins

/-- The events that a call adds to a store, in order. -/
def StoreCall.addedEvents : StoreCall → List Event
  | .addFile _ text _ => ((Event.ofFile? text).map Event.firstWritten).getD []
  | .cloneAs _ _ => []
  | .applyUncore _ => []

/-- The keys that a call can set in the copy of a record or in the record itself. -/
def StoreCall.changedKeys : StoreCall → List String
  | .addFile _ _ _ => []
  | .cloneAs _ _ => ["EventName"]
  | .applyUncore _ => "EventName" :: UncoreRow.rewrittenKeys

namespace EventStore

def originsRow (s : EventStore) (o : Origins) (row : UncoreRow) : Origins :=
  if row.newName ≠ "" ∧ row.applies s then o.copy (row.eventName s) row.newName else o

def originsRows (s : EventStore) (o : Origins) : List UncoreRow → Origins
  | [] => o
  | row :: rows => ((row.applyTo? s).getD s).originsRows (s.originsRow o row) rows

def originsAfter (s : EventStore) (o : Origins) : StoreCall → Origins
  | .addFile kind text hybrid => o.add (StoreCall.addFile kind text hybrid).addedEvents
  | .cloneAs name newName => o.copy name newName
  | .applyUncore text => s.originsRows o ((Csv.rows text).map UncoreRow.ofCells)

def origins (s : EventStore) (o : Origins) : List StoreCall → Origins
  | [] => o
  | call :: calls => (s.after call).origins (s.originsAfter o call) calls

/-- The events of the last records after a list of calls, from an empty store. -/
def originsOf (calls : List StoreCall) : Origins :=
  ({} : EventStore).origins (fun _ => none) calls

end EventStore

/-! ## Records of an event -/

/-- But for the keys, the record is that of the event as some file marks it. -/
def Event.Makes (e : Event) (keys : List String) (r : EventRecord) : Prop :=
  ∃ (marks : EventStore.FileMarks) (plain : EventRecord), marks.record? e = some plain ∧
    plain.AgreesBut keys r

theorem EventRecord.AgreesBut.mono {keys keys' : List String} {r r' : EventRecord}
    (h : r.AgreesBut keys r') (hkeys : keys ⊆ keys') : r.AgreesBut keys' r' :=
  fun key hkey => h key fun hmem => hkey (hkeys hmem)

theorem EventRecord.agreesBut_insert (r : EventRecord) (key value : String) :
    r.AgreesBut [key] (r.insert key value) := by
  intro other hother
  rw [Std.TreeMap.getElem?_insert]
  simp [Ne.symm (List.ne_of_not_mem_cons hother)]

namespace Event.Makes

variable {e : Event} {keys keys' : List String} {r r' : EventRecord}

theorem mono (h : e.Makes keys r) (hkeys : keys ⊆ keys') : e.Makes keys' r := by
  obtain ⟨marks, plain, hplain, hmade⟩ := h
  exact ⟨marks, plain, hplain, hmade.mono hkeys⟩

theorem trans (h : e.Makes keys r) (hagrees : r.AgreesBut keys r') : e.Makes keys r' := by
  obtain ⟨marks, plain, hplain, hmade⟩ := h
  exact ⟨marks, plain, hplain, hmade.trans hagrees⟩

end Event.Makes

namespace EventStore

variable {s s' : EventStore} {o : Origins} {added : List Event} {keys : List String}
  {journal : List Addition} {name newName : String} {r r' : EventRecord} {p : RecordPosition}
  {row : UncoreRow}

/-! ## What the operations do to the origins -/

/-- The store has records of these origins, changed at these keys at most, and its catalog the first
of the events added. -/
structure Descends (s : EventStore) (o : Origins) (added : List Event) (keys : List String) :
    Prop where
  lookup : ∀ name, s.catalog.lookup? name = added.find? (·.name == name)
  isSome_eq : ∀ name, (o name).isSome = (s.positions[name]?).isSome
  makes : ∀ name e, o name = some e → ∃ r, s.record? name = some r ∧ e.Makes keys r

namespace Descends

theorem empty : ({} : EventStore).Descends (fun _ => none) [] [] where
  lookup _ := by simp [EventCatalog.lookup?]
  isSome_eq _ := by simp
  makes _ _ h := by cases h

theorem mono (h : s.Descends o added keys) {keys' : List String} (hkeys : keys ⊆ keys') :
    s.Descends o added keys' where
  lookup := h.lookup
  isSome_eq := h.isSome_eq
  makes name e he := by
    obtain ⟨r, hr, hmade⟩ := h.makes name e he
    exact ⟨r, hr, hmade.mono hkeys⟩

theorem add {marks : FileMarks} {es : List Event} (h : s.Descends o added keys)
    (hadded : Added marks es s s') : s'.Descends (o.add es) (added ++ es) keys where
  lookup name := by rw [hadded.lookup, h.lookup, List.find?_append]
  isSome_eq name := by
    by_cases hname : name ∈ es.map (·.name)
    · obtain ⟨e, he, rfl⟩ := List.mem_map.1 hname
      obtain ⟨r, -, hr⟩ := hadded.last e he
      obtain ⟨p, hp, -⟩ := Option.bind_eq_some_iff.1 (s'.record?_eq e.name ▸ hr)
      have hfound : (es.findRev? (·.name == e.name)).isSome := by
        rw [List.findRev?_eq_find?_reverse, List.find?_isSome]
        exact ⟨e, List.mem_reverse.2 he, beq_self_eq_true _⟩
      rw [Origins.add, Option.or_of_isSome hfound, hfound, hp, Option.isSome_some]
    · have hnone : es.findRev? (·.name == name) = none := by
        rw [List.findRev?_eq_find?_reverse, List.find?_eq_none]
        intro e he heq
        exact hname (List.mem_map.2 ⟨e, List.mem_reverse.1 he, beq_iff_eq.1 heq⟩)
      rw [Origins.add, hnone, Option.none_or, hadded.positions name hname, h.isSome_eq]
  makes name e he := by
    rcases Option.or_eq_some_iff.1 he with hlast | ⟨hnone, hold⟩
    · rw [List.findRev?_eq_find?_reverse] at hlast
      have hname : e.name = name := by simpa using List.find?_some hlast
      rcases hname with rfl
      obtain ⟨r, hr, hrecord⟩ :=
        hadded.last e (List.mem_reverse.1 (List.mem_of_find?_eq_some hlast))
      exact ⟨r, hrecord, marks, r, hr, .refl keys r⟩
    · have hname : name ∉ es.map (·.name) := by
        rintro hmem
        obtain ⟨d, hd, rfl⟩ := List.mem_map.1 hmem
        rw [List.findRev?_eq_find?_reverse, List.find?_eq_none] at hnone
        exact hnone d (List.mem_reverse.2 hd) (beq_self_eq_true _)
      obtain ⟨r, hr, hmade⟩ := h.makes name e hold
      exact ⟨r, record?_of_append hadded.records (hadded.positions name hname) hr, hmade⟩

/-- The copy may have been rewritten. -/
theorem copy (h : s.Descends o added keys) (hcatalog : s'.catalog = s.catalog)
    (hp : s.positions[name]? = some p) (hr : s.recordAt? p = some r)
    (hagrees : r.AgreesBut keys r')
    (hrecords : ∀ topic, s'.recordsIn topic =
      s.recordsIn topic ++ if p.topic = topic then [r'] else [])
    (hpositions : ∀ other, s'.positions[other]? =
      if newName = other then some ⟨p.topic, (s.recordsIn p.topic).length⟩
      else s.positions[other]?) : s'.Descends (o.copy name newName) added keys where
  lookup other := by rw [hcatalog, h.lookup]
  isSome_eq other := by
    have hname : (o name).isSome := by rw [h.isSome_eq, hp, Option.isSome_some]
    by_cases hother : newName = other
    · rw [← hother, Origins.copy_self hname, hname, hpositions, if_pos rfl, Option.isSome_some]
    · rw [o.copy_of_ne name hother, hpositions, if_neg hother, h.isSome_eq]
  makes other e he := by
    have hname : (o name).isSome := by rw [h.isSome_eq, hp, Option.isSome_some]
    by_cases hother : newName = other
    · rw [← hother, Origins.copy_self hname] at he
      obtain ⟨r₀, hr₀, hmade⟩ := h.makes name e he
      rw [record?_eq, hp, Option.bind_some, hr] at hr₀
      rw [← Option.some.inj hr₀] at hmade
      refine ⟨r', ?_, hmade.trans hagrees⟩
      have hposition : s'.positions[other]? = some ⟨p.topic, (s.recordsIn p.topic).length⟩ := by
        rw [hpositions, if_pos hother]
      apply record?_of_concat hposition
      rw [hrecords, if_pos rfl]
    · rw [o.copy_of_ne name hother] at he
      obtain ⟨r₀, hr₀, hmade⟩ := h.makes other e he
      have hposition : s'.positions[other]? = s.positions[other]? := by
        rw [hpositions, if_neg hother]
      exact ⟨r₀, record?_of_append hrecords hposition hr₀, hmade⟩

theorem cloneAs (h : s.Descends o added keys) (hfollows : s.Follows journal)
    (hkeys : "EventName" ∈ keys) (name newName : String) :
    ((s.cloneAs? name newName).getD s).Descends (o.copy name newName) added keys := by
  have hsome := h.isSome_eq name
  unfold EventStore.cloneAs?
  cases hp : s.positions[name]? with
  | none =>
    rw [hp, Option.isSome_none, Option.isSome_eq_false_iff, Option.isNone_iff_eq_none] at hsome
    rw [Origins.copy_of_none hsome]
    exact h
  | some p =>
    obtain ⟨r, hr, -⟩ := hfollows.exists_recordAt? hp
    have hrecord : s.record? name = some r := by
      rw [record?_eq, hp, Option.bind_some, hr]
    have hagrees : r.AgreesBut keys (r.insert "EventName" newName) :=
      (r.agreesBut_insert "EventName" newName).mono (by simpa using hkeys)
    simp only [hrecord, Option.bind_eq_bind, Option.bind_some, Option.pure_def, Option.getD_some]
    exact h.copy rfl hp hr hagrees (s.recordsIn_push p.topic _)
      (s.positions_push p.topic Std.TreeMap.getElem?_insert_self)

theorem changes (h : s.Descends o added keys)
    (hkeys : "EventName" :: UncoreRow.rewrittenKeys ⊆ keys)
    (happly : row.applies s = true) (hcatalog : s'.catalog = s.catalog)
    (hchanges : row.Changes s s') : s'.Descends (s.originsRow o row) added keys := by
  have hplaces := @UncoreRow.Changes.exists_recordAt? _ _ _ hchanges
  cases hchanges with
  | inPlace hnew _ _ _ _ _ hpositions =>
    rw [originsRow, if_neg fun hcopy => hcopy.1 hnew]
    refine ⟨fun name => by rw [hcatalog, h.lookup], fun name => by rw [hpositions, h.isSome_eq],
      fun name e he => ?_⟩
    obtain ⟨old, hold, hmade⟩ := h.makes name e he
    obtain ⟨p, hp, hat⟩ := Option.bind_eq_some_iff.1 (s.record?_eq name ▸ hold)
    obtain ⟨new, hnew, hagrees, -⟩ := hplaces hat
    refine ⟨new, ?_, hmade.trans (hagrees.mono (List.subset_of_cons_subset hkeys))⟩
    rw [record?_eq, hpositions, hp, Option.bind_some, hnew]
  | copy hnew hp hr _ hagrees hrecords hpositions =>
    rw [originsRow, if_pos ⟨hnew, happly⟩]
    exact h.copy hcatalog hp hr (hagrees.mono hkeys) hrecords hpositions

theorem rows (h : s.Descends o added keys) (hfollows : s.Follows journal)
    (hkeys : "EventName" :: UncoreRow.rewrittenKeys ⊆ keys) (rows : List UncoreRow) :
    (s.applyUncoreRows rows).1.Descends (s.originsRows o rows) added keys := by
  induction rows generalizing s o journal with
  | nil => exact h
  | cons row rows ih =>
    have hrow := (hfollows.applyTo row).1
    rw [originsRows, applyUncoreRows_cons]
    rcases hfollows.run_row row with ⟨hskip, hrun⟩ | ⟨happly, s₁, hrun, hcatalog, hchanges⟩
    · rw [row.applyTo?_eq_run, hrun] at hrow ⊢
      have hsame : s.originsRow o row = o := by
        rw [originsRow, if_neg fun hcopy => Bool.false_ne_true (hskip ▸ hcopy.2)]
      rw [hsame]
      exact ih h hfollows
    · rw [row.applyTo?_eq_run, hrun] at hrow ⊢
      exact ih (h.changes hkeys happly hcatalog hchanges) hrow

theorem after (h : s.Descends o added keys) (hfollows : s.Follows journal) (call : StoreCall) :
    (s.after call).Descends (s.originsAfter o call) (added ++ call.addedEvents)
      (keys ++ call.changedKeys) := by
  have hkept := h.mono (List.subset_append_left keys call.changedKeys)
  have hchanged := List.subset_append_right keys call.changedKeys
  cases call with
  | addFile kind text hybrid =>
    rw [EventStore.after, originsAfter, StoreCall.addedEvents, addFile?_eq]
    cases Event.ofFile? text with
    | none => exact hkept.add (.refl (.ofKind kind hybrid) s)
    | some es =>
      have hwritten : ∀ e ∈ Event.firstWritten es, e.record?.isSome = true := by
        intro e he
        exact (List.mem_filter.1 ((Event.firsts_sublist _).subset he)).2
      have hadded := (Added.refl (.ofKind kind hybrid) s).foldl_addEvent (Event.firstWritten es)
        hwritten (Event.nodup_names_firsts _)
      exact hkept.add hadded
  | cloneAs name newName =>
    rw [StoreCall.addedEvents, List.append_nil]
    exact hkept.cloneAs hfollows (hchanged List.mem_cons_self) name newName
  | applyUncore text =>
    rw [StoreCall.addedEvents, List.append_nil]
    exact hkept.rows hfollows hchanged _

theorem foldl_after (h : s.Descends o added keys) (hfollows : s.Follows journal)
    (calls : List StoreCall) :
    (calls.foldl EventStore.after s).Descends (s.origins o calls)
      (added ++ calls.flatMap StoreCall.addedEvents)
      (keys ++ calls.flatMap StoreCall.changedKeys) := by
  induction calls generalizing s o added keys journal with
  | nil =>
    simp only [List.flatMap_nil, List.append_nil]
    exact h
  | cons call calls ih =>
    rw [List.foldl_cons, origins, List.flatMap_cons, List.flatMap_cons, ← List.append_assoc,
      ← List.append_assoc]
    exact ih (h.after hfollows call) (hfollows.after call)

end Descends

/-- The catalog and the index may each have an event for a name, but not the same one. -/
theorem descends_ofCalls (calls : List StoreCall) :
    (ofCalls calls).Descends (originsOf calls) (calls.flatMap StoreCall.addedEvents)
      (calls.flatMap StoreCall.changedKeys) :=
  Descends.empty.foldl_after .empty calls

/-- If nothing is copied, the last record of a name is that of the last event of the name. -/
theorem originsOf_of_addFiles {calls : List StoreCall}
    (h : ∀ call ∈ calls, ∃ kind text hybrid, call = .addFile kind text hybrid) (name : String) :
    originsOf calls name =
      (calls.flatMap StoreCall.addedEvents).findRev? (·.name == name) := by
  have hrun (s : EventStore) (o : Origins) :
      s.origins o calls = o.add (calls.flatMap StoreCall.addedEvents) := by
    induction calls generalizing s o with
    | nil =>
      funext name
      simp [origins, Origins.add]
    | cons call calls ih =>
      obtain ⟨kind, text, hybrid, rfl⟩ := h call List.mem_cons_self
      rw [origins, ih (fun other hother => h other (List.mem_cons_of_mem _ hother)),
        List.flatMap_cons, Origins.add_append]
      rfl
  rw [originsOf, hrun, Origins.add, Option.or_none]

end EventStore

end TopdownMetrics
