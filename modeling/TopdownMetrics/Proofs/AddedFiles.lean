import Mathlib.Data.Finset.Card
import TopdownMetrics.Proofs.StoredRecords

/-!
# What an event file adds

The loop over the events of a file decides which of them are kept, and stores those that are.  The
two are taken apart here.  Kept is the first event of each name among those that can be written,
and storing appends one record to the topic of the event, makes it the last record of its name and
offers the event to the catalog.
-/

namespace TopdownMetrics

/-! ## The first events of their names -/

namespace Event

def firsts (es : List Event) : List Event :=
  es.eraseDupsBy (·.name == ·.name)

theorem firsts_cons (e : Event) (es : List Event) :
    firsts (e :: es) = e :: firsts (es.filter (·.name ≠ e.name)) := by
  unfold firsts
  rw [List.eraseDupsBy_cons]
  simp

theorem induction_on_names {motive : List Event → Prop} (es : List Event) (nil : motive [])
    (cons : ∀ e es, motive (es.filter (·.name ≠ e.name)) → motive (e :: es)) : motive es := by
  induction hn : es.length using Nat.strong_induction_on generalizing es with
  | h n ih =>
    cases es with
    | nil => exact nil
    | cons e es =>
      have hlength := List.length_filter_le (fun o : Event => decide (o.name ≠ e.name)) es
      rw [List.length_cons] at hn
      apply cons
      exact ih _ (by omega) _ rfl

theorem firsts_sublist (es : List Event) : (firsts es).Sublist es := by
  induction es using induction_on_names with
  | nil => exact List.nil_sublist _
  | cons e es ih =>
    rw [firsts_cons]
    exact (ih.trans List.filter_sublist).cons_cons e

theorem nodup_names_firsts (es : List Event) : ((firsts es).map (·.name)).Nodup := by
  induction es using induction_on_names with
  | nil => exact List.nodup_nil
  | cons e es ih =>
    rw [firsts_cons, List.map_cons, List.nodup_cons]
    constructor
    · intro hmem
      rcases List.mem_map.1 hmem with ⟨o, ho, hname⟩
      have hne := List.of_mem_filter ((firsts_sublist _).subset ho)
      simp [hname] at hne
    · exact ih

theorem mem_firsts_iff (e : Event) (es : List Event) :
    e ∈ firsts es ↔ es.find? (·.name == e.name) = some e := by
  induction es using induction_on_names with
  | nil => simp [firsts]
  | cons first es ih =>
    rw [firsts_cons, List.mem_cons, ih, List.find?_filter, List.find?_cons]
    by_cases hname : first.name = e.name
    · have hnone : es.find? (fun o => decide ((decide (o.name ≠ first.name)) = true ∧
          (o.name == e.name) = true)) ≠ some e := by
        intro hfound
        have hprop := List.find?_some hfound
        simp [hname] at hprop
      rw [or_iff_left hnone, beq_iff_eq.2 hname, Option.some.injEq]
      exact eq_comm
    · have hne : e ≠ first := by
        intro heq
        rw [heq] at hname
        exact hname rfl
      have hsame : (fun o : Event => decide ((decide (o.name ≠ first.name)) = true ∧
          (o.name == e.name) = true)) = (·.name == e.name) := by
        funext o
        by_cases ho : o.name = e.name
        · simp [ho, Ne.symm hname]
        · simp [ho]
      simp only [hne, false_or, hsame, beq_eq_false_iff_ne.2 hname]

theorem mem_names_firsts_iff (name : String) (es : List Event) :
    name ∈ (firsts es).map (·.name) ↔ name ∈ es.map (·.name) := by
  constructor
  · exact fun h => ((firsts_sublist es).map _).subset h
  · intro h
    rcases List.mem_map.1 h with ⟨o, ho, rfl⟩
    have hfound : (es.find? (·.name == o.name)).isSome = true :=
      List.find?_isSome.2 ⟨o, ho, beq_self_eq_true _⟩
    rcases Option.isSome_iff_exists.1 hfound with ⟨e, he⟩
    have hname : e.name = o.name := by simpa using List.find?_some he
    rw [← hname] at he ⊢
    exact List.mem_map_of_mem ((mem_firsts_iff e es).2 he)

theorem length_firsts (es : List Event) :
    (firsts es).length = (es.map (·.name)).toFinset.card := by
  have hnames : ((firsts es).map (·.name)).toFinset = (es.map (·.name)).toFinset := by
    ext name
    rw [List.mem_toFinset, List.mem_toFinset, mem_names_firsts_iff]
  rw [← hnames, List.toFinset_card_of_nodup (nodup_names_firsts es), List.length_map]

end Event

theorem EventCatalog.lookup?_register (c : EventCatalog) (e : Event) (name : String) :
    (c.register e).1.lookup? name =
      (c.lookup? name).or (if e.name = name then some e else none) := by
  unfold register lookup?
  by_cases htaken : c.events.contains e.name = true
  · rw [if_pos htaken]
    by_cases hname : e.name = name
    · rw [Std.TreeMap.contains_eq_isSome_getElem?, hname] at htaken
      rw [Option.or_of_isSome htaken]
    · simp [hname]
  · rw [if_neg htaken, Std.TreeMap.getElem?_insert]
    by_cases hname : e.name = name
    · rw [Std.TreeMap.contains_eq_isSome_getElem?, hname, Option.not_isSome_iff_eq_none] at htaken
      simp [hname, htaken]
    · simp [hname]

/-! ## Storing events -/

namespace EventStore

/-- The record that is stored for an event of a file. -/
def FileMarks.record? (marks : FileMarks) (e : Event) : Option EventRecord :=
  e.record?.map marks.mark

def addEvent (marks : FileMarks) (s : EventStore) (e : Event) : EventStore :=
  match marks.record? e with
  | none => s
  | some r => { s.push e.topic r with catalog := (s.catalog.register e).1 }

section

variable {marks : FileMarks} {s : EventStore} {e : Event} {plain r : EventRecord}

theorem addEvent_of_record? (h : e.record? = some plain) :
    addEvent marks s e =
      { s.push e.topic (marks.mark plain) with catalog := (s.catalog.register e).1 } := by
  rw [addEvent, FileMarks.record?, h, Option.map_some]

theorem recordsIn_addEvent (h : e.record? = some plain) (topic : String) :
    (addEvent marks s e).recordsIn topic =
      s.recordsIn topic ++ if e.topic = topic then [marks.mark plain] else [] := by
  rw [addEvent_of_record? h]
  exact s.recordsIn_push e.topic (marks.mark plain) topic

theorem positions_addEvent (h : e.record? = some plain) (name : String) :
    (addEvent marks s e).positions[name]? =
      if e.name = name then some ⟨e.topic, (s.recordsIn e.topic).length⟩
      else s.positions[name]? := by
  have hname : (marks.mark plain)["EventName"]? = some e.name :=
    (marks.name_mark plain).trans (Event.name_record? h)
  rw [addEvent_of_record? h]
  exact s.positions_push e.topic hname name

theorem lookup?_addEvent (h : e.record? = some plain) (name : String) :
    (addEvent marks s e).catalog.lookup? name =
      (s.catalog.lookup? name).or (if e.name = name then some e else none) := by
  rw [addEvent_of_record? h]
  exact s.catalog.lookup?_register e name

theorem record?_addEvent (h : e.record? = some plain) :
    (addEvent marks s e).record? e.name = some (marks.mark plain) := by
  have hposition : (addEvent marks s e).positions[e.name]? =
      some ⟨e.topic, (s.recordsIn e.topic).length⟩ := by
    rw [positions_addEvent h, if_pos rfl]
  apply record?_of_concat hposition
  rw [recordsIn_addEvent h, if_pos rfl]

theorem record?_addEvent_of_ne (h : e.record? = some plain) {name : String} (hne : e.name ≠ name)
    (hr : s.record? name = some r) : (addEvent marks s e).record? name = some r := by
  have hposition : (addEvent marks s e).positions[name]? = s.positions[name]? := by
    rw [positions_addEvent h, if_neg hne]
  exact record?_of_append (recordsIn_addEvent h) hposition hr

end

/-- The loop over a file, apart: first the choice of the events, then the storing. -/
theorem addEvents_eq (marks : FileMarks) (s : EventStore) (seen : List String) (n : Nat)
    (es : List Event) :
    addEvents marks s seen n es =
      let added := Event.firsts (es.filter fun e => e.record?.isSome && !seen.contains e.name)
      (added.foldl (addEvent marks) s, n + added.length) := by
  induction es generalizing s seen n with
  | nil => rfl
  | cons e es ih =>
    unfold addEvents
    cases hrecord : e.record? with
    | none => simp [hrecord, ih]
    | some r =>
      by_cases hseen : e.name ∈ seen
      · simp [hrecord, hseen, ih]
      · have hunseen : (es.filter fun o => o.record?.isSome && !(e.name :: seen).contains o.name) =
            (es.filter fun o => o.record?.isSome && !seen.contains o.name).filter
              (·.name ≠ e.name) := by
          rw [List.filter_filter]
          apply List.filter_congr
          intro o _
          cases o.record?.isSome <;> simp [Bool.and_comm]
        dsimp only
        rw [if_neg (by simpa using hseen), ih, hunseen,
          List.filter_cons_of_pos (by simp [hrecord, hseen]), Event.firsts_cons, List.foldl_cons,
          addEvent_of_record? hrecord, List.length_cons]
        simp only [push, Nat.add_assoc, Nat.add_comm 1]

/-- The store `s'` holds the records of the added events behind those of `s`. -/
structure Added (marks : FileMarks) (added : List Event) (s s' : EventStore) : Prop where
  records (topic : String) : s'.recordsIn topic =
    s.recordsIn topic ++ (added.filter (·.topic = topic)).filterMap marks.record?
  last : ∀ e ∈ added, ∃ r, marks.record? e = some r ∧ s'.record? e.name = some r
  positions : ∀ name ∉ added.map (·.name), s'.positions[name]? = s.positions[name]?
  lookup (name : String) : s'.catalog.lookup? name =
    (s.catalog.lookup? name).or (added.find? (·.name == name))

namespace Added

variable {marks : FileMarks} {added : List Event} {s s' : EventStore} {e : Event}

theorem refl (marks : FileMarks) (s : EventStore) : Added marks [] s s where
  records _ := by simp
  last _ h := by cases h
  positions _ _ := rfl
  lookup _ := by simp

theorem concat (h : Added marks added s s') (hwritten : e.record?.isSome = true)
    (hnew : e.name ∉ added.map (·.name)) : Added marks (added ++ [e]) s (addEvent marks s' e) := by
  rcases Option.isSome_iff_exists.1 hwritten with ⟨plain, hplain⟩
  have hrecord : marks.record? e = some (marks.mark plain) := by
    rw [FileMarks.record?, hplain, Option.map_some]
  constructor
  · intro topic
    rw [recordsIn_addEvent hplain, h.records, List.append_assoc, List.filter_append,
      List.filterMap_append]
    by_cases htopic : e.topic = topic
    · simp [htopic, hrecord]
    · simp [htopic]
  · intro o ho
    rcases List.mem_append.1 ho with ho | ho
    · rcases h.last o ho with ⟨r, hr, hlast⟩
      have hne : e.name ≠ o.name := by
        intro heq
        apply hnew
        rw [heq]
        exact List.mem_map_of_mem ho
      exact ⟨r, hr, record?_addEvent_of_ne hplain hne hlast⟩
    · rcases List.mem_singleton.1 ho with rfl
      exact ⟨_, hrecord, record?_addEvent hplain⟩
  · intro name hname
    rw [List.map_append, List.mem_append, not_or] at hname
    have hne : e.name ≠ name := by
      intro heq
      exact hname.2 (by simp [heq])
    rw [positions_addEvent hplain, if_neg hne, h.positions name hname.1]
  · intro name
    rw [lookup?_addEvent hplain, h.lookup, Option.or_assoc, List.find?_append]
    by_cases heq : e.name = name
    · simp [heq]
    · simp [heq]

theorem foldl_addEvent (h : Added marks added s s') (es : List Event)
    (hwritten : ∀ e ∈ es, e.record?.isSome = true)
    (hnodup : ((added ++ es).map (·.name)).Nodup) :
    Added marks (added ++ es) s (es.foldl (addEvent marks) s') := by
  induction es generalizing added s' with
  | nil => simpa using h
  | cons e es ih =>
    have hnew : e.name ∉ added.map (·.name) := by
      intro hmem
      rw [List.map_append, List.nodup_append] at hnodup
      exact hnodup.2.2 _ hmem _ List.mem_cons_self rfl
    have hstep := h.concat (hwritten e List.mem_cons_self) hnew
    rw [List.append_cons] at hnodup ⊢
    apply ih hstep
    · intro o ho
      exact hwritten o (List.mem_cons_of_mem e ho)
    · exact hnodup

theorem recordCount_eq (h : Added marks added s s') :
    s'.recordCount = s.recordCount + added.length := by
  have hlength : (added.map (·.topic)).length = added.length := List.length_map _
  rw [← hlength]
  apply recordCount_of_appended
  intro topic
  have hwritten : ∀ e ∈ added.filter (·.topic = topic), (marks.record? e).isSome = true := by
    intro e he
    rcases h.last e (List.mem_of_mem_filter he) with ⟨r, hr, -⟩
    rw [hr, Option.isSome_some]
  rw [h.records, List.length_append, List.length_filterMap_eq_countP,
    List.countP_eq_length.2 hwritten, List.count_eq_countP, List.countP_map,
    ← List.countP_eq_length_filter]
  rfl

end Added

theorem addFile?_eq (s : EventStore) (kind text : String) (hybrid : Bool) :
    s.addFile? kind text hybrid = (Event.ofFile? text).map fun es =>
      let added := Event.firsts (es.filter (·.record?.isSome))
      (added.foldl (addEvent (.ofKind kind hybrid)) s, added.length) := by
  unfold addFile?
  congr 1
  funext es
  simp [addEvents_eq]

/-- An event file is added as a whole or not at all.  If its text is an event file, then one record
is added for each name of an event that can be written, from the first such event of the name and
behind the records of its topic; nothing else changes, and the catalog takes the event if the name
is new to it. -/
theorem addFile?_appends_firsts (s : EventStore) (kind text : String) (hybrid : Bool) :
    (Event.ofFile? text = none ∧ s.addFile? kind text hybrid = none ∧
      s.after (.addFile kind text hybrid) = s) ∨
    ∃ es added s', Event.ofFile? text = some es ∧
      s.addFile? kind text hybrid = some (s', added.length) ∧
      s.after (.addFile kind text hybrid) = s' ∧
      added.Sublist es ∧
      (∀ e, e ∈ added ↔ es.find? (fun o => o.record?.isSome && o.name == e.name) = some e) ∧
      added.length = ((es.filter (·.record?.isSome)).map (·.name)).toFinset.card ∧
      Added (.ofKind kind hybrid) added s s' ∧
      s'.recordCount = s.recordCount + added.length ∧
      (∀ e ∈ added, (s'.catalog.lookup? e.name).isSome = true) ∧
      (∀ name e, s.catalog.lookup? name = some e → s'.catalog.lookup? name = some e) := by
  have hafter : s.after (.addFile kind text hybrid) =
      ((s.addFile? kind text hybrid).map (·.1)).getD s := rfl
  rw [hafter, addFile?_eq]
  cases Event.ofFile? text with
  | none => exact .inl ⟨rfl, rfl, rfl⟩
  | some es =>
    let usable := es.filter (·.record?.isSome)
    let added := Event.firsts usable
    have hsublist : added.Sublist usable := Event.firsts_sublist usable
    have hmem (e : Event) :
        e ∈ added ↔ es.find? (fun o => o.record?.isSome && o.name == e.name) = some e := by
      rw [Event.mem_firsts_iff, List.find?_filter]
      simp only [Bool.decide_and, Bool.decide_eq_true]
    have hwritten : ∀ e ∈ added, e.record?.isSome = true := by
      intro e he
      have hfound := List.find?_some ((hmem e).1 he)
      exact (Bool.and_eq_true_iff.1 hfound).1
    have hadded : Added (.ofKind kind hybrid) added s
        (added.foldl (addEvent (.ofKind kind hybrid)) s) :=
      (Added.refl _ s).foldl_addEvent added hwritten (Event.nodup_names_firsts usable)
    right
    refine ⟨es, added, _, rfl, rfl, rfl, hsublist.trans List.filter_sublist, hmem,
      Event.length_firsts usable, hadded, hadded.recordCount_eq, ?_, ?_⟩
    · intro e he
      have hfound : (added.find? (·.name == e.name)).isSome = true :=
        List.find?_isSome.2 ⟨e, he, beq_self_eq_true _⟩
      rw [hadded.lookup, Option.isSome_or, hfound, Bool.or_true]
    · intro name e he
      rw [hadded.lookup, he, Option.some_or]

end EventStore

end TopdownMetrics
