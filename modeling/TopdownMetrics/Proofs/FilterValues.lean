import Mathlib.Data.List.DropRight
import TopdownMetrics.Proofs.RecordOrigins
import TopdownMetrics.Proofs.Replacing

/-!
# The filter value that a row of rewrites sets

A row with the filter `Filter1` sets a term with the filter value of its event.  It takes the value
from the catalog and changes the record that the index has.  The catalog keeps the first event that
was added under a name and the index the last record, so that the value is that of the event from
which the record was made if and only if these two events have it in common.
-/

namespace TopdownMetrics

namespace UncoreRow

/-! ## The term of a filter value -/

/-- The text with its filters spelled as terms. -/
def spelled (text : String) : String :=
  filterTerms.foldl (fun f (spelling, term) => Text.replace f spelling term) text

/-- A filter value in the form in which it is set. -/
def valueTerm (value : String) : String :=
  String.ofList ((spelled value).toList.rdropWhile (· == ','))

/-- A number is set as it stands. -/
theorem valueTerm_of_notMem {value : String} (hequal : '=' ∉ value.toList)
    (hcomma : ',' ∉ value.toList) : valueTerm value = value := by
  have hmarks : ∀ t ∈ filterTerms, '=' ∈ t.1.toList ∨ ',' ∈ t.1.toList := by decide
  have hspelled : spelled value = value := by
    unfold spelled
    generalize filterTerms = terms at hmarks
    induction terms with
    | nil => rfl
    | cons t terms ih =>
      rcases t with ⟨spelling, term⟩
      have hsame : Text.replace value spelling term = value := by
        rcases hmarks (spelling, term) List.mem_cons_self with hmark | hmark
        · exact Text.replace_of_notMem hmark hequal term
        · exact Text.replace_of_notMem hmark hcomma term
      simp only [List.foldl_cons, hsame]
      exact ih fun t ht => hmarks t (List.mem_cons_of_mem _ ht)
  have hlast : value.toList.rdropWhile (· == ',') = value.toList := by
    rw [List.rdropWhile_eq_self_iff]
    intro hne hlast
    rw [beq_iff_eq] at hlast
    exact hcomma (hlast ▸ List.getLast_mem hne)
  rw [valueTerm, hspelled, hlast, String.ofList_toList]

theorem spelled_config (value : String) :
    spelled ("config1=" ++ value) = "config1=" ++ spelled value := by
  have hapart : ∀ t ∈ filterTerms,
      t.1.toList ≠ [] ∧ Text.IsApart t.1.toList "config1=".toList := by
    decide
  unfold spelled
  generalize filterTerms = terms at hapart
  induction terms generalizing value with
  | nil => rfl
  | cons t terms ih =>
    rcases t with ⟨spelling, term⟩
    have hfirst := hapart (spelling, term) List.mem_cons_self
    simp only [List.foldl_cons]
    rw [Text.replace_append hfirst.1 hfirst.2]
    exact ih _ fun t ht => hapart t (List.mem_cons_of_mem _ ht)

theorem trimMatches_config (text : String) :
    Text.trimMatches (· == ',') ("config1=" ++ text) =
      "config1=" ++ String.ofList (text.toList.rdropWhile (· == ',')) := by
  have hback : ("config1=".toList ++ text.toList).rdropWhile (· == ',') =
      "config1=".toList ++ text.toList.rdropWhile (· == ',') := by
    have hlast : "config1=".toList.reverse.dropWhile (· == ',') = "config1=".toList.reverse := by
      decide
    simp only [List.rdropWhile, List.reverse_append, List.dropWhile_append, hlast]
    split
    · rename_i hempty
      rw [List.isEmpty_iff.1 hempty, List.reverse_nil, List.append_nil, List.reverse_reverse]
    · rw [List.reverse_append, List.reverse_reverse]
  have hkept : ("config1=".toList ++ text.toList).dropWhile (· == ',') =
      "config1=".toList ++ text.toList := by
    have hfirst : "config1=".toList = 'c' :: "onfig1=".toList := by decide
    rw [hfirst]
    rfl
  rw [Text.trimMatches, String.toList_append, hkept, ← List.rdropWhile, hback,
    String.ofList_append, String.ofList_toList]

variable {row : UncoreRow} {s s' : EventStore}

theorem filterAndMask_of_filter1 (hfilter : row.filter = "Filter1") (value : String) :
    row.filterAndMask value = ("config1=" ++ valueTerm value, none) := by
  have hsplit (text : String) :
      splitMask ("config1=" ++ text).toList = (none, ("config1=" ++ text).toList) := by
    rw [String.toList_append]
    rfl
  simp only [filterAndMask, if_pos hfilter]
  rw [← spelled, spelled_config, hsplit]
  dsimp only
  rw [String.ofList_toList, trimMatches_config]
  rfl

/-! ## The filter that a row sets -/

/-- The name of the record that the row changes. -/
def targetName (row : UncoreRow) (s : EventStore) : String :=
  if row.newName = "" then row.eventName s else row.newName

theorem exists_updates_eq (hfilter : row.filter = "Filter1") (name target value : String)
    (mask : Option String) : ∃ front back,
      row.updates name target value mask =
        front ++ ("Filter", "config1=" ++ valueTerm value) :: back ∧
      ∀ c ∈ back, c.1 ≠ "Filter" := by
  have hset : row.filter ≠ "" := by
    rw [hfilter]
    decide
  have hterm : "config1=" ++ valueTerm value ≠ "" := by
    intro hempty
    have hlist := congrArg String.toList hempty
    rw [String.toList_append] at hlist
    cases hlist
  unfold updates
  simp only [if_neg hset, filterAndMask_of_filter1 hfilter, if_neg hterm, List.append_assoc,
    List.cons_append, List.nil_append]
  refine ⟨_, _, rfl, ?_⟩
  intro c hc
  simp only [List.mem_append, Option.mem_toList, Option.map_eq_some_iff] at hc
  rcases hc with ⟨_, _, rfl⟩ | hscale | hmetric
  · simp
  · split at hscale
    · cases hscale
    · rw [List.mem_singleton.1 hscale]
      simp
  · split at hmetric
    · cases hmetric
    · rcases List.mem_pair.1 hmetric with rfl | rfl
      · simp
      · simp

theorem filter_rewrite (hfilter : row.filter = "Filter1") (name target : String) (source : Event)
    (r : EventRecord) :
    (row.rewrite name target source r)["Filter"]? =
      some ("config1=" ++ valueTerm (source.filterValue.getD "")) := by
  obtain ⟨front, back, hupdates, hback⟩ := exists_updates_eq hfilter name target
    (source.filterValue.getD "") row.nameAndMask.2
  rw [rewrite, hupdates, List.foldl_append, List.foldl_cons, getElem?_foldl_of_forall]
  · exact Std.TreeMap.getElem?_insert_self
  · intro c hc r
    simp [Std.TreeMap.getElem?_insert, hback c hc]

/-- A row that applies finds the event in the catalog and the record through the index. -/
theorem exists_rewrite_of_applyTo? (h : row.applyTo? s = some s') :
    ∃ source old r, s.catalog.lookup? (row.eventName s) = some source ∧
      s.record? (row.eventName s) = some old ∧ old.AgreesBut ["EventName"] r ∧
      s'.record? (row.targetName s) =
        some (row.rewrite (row.eventName s) (row.targetName s) source r) := by
  rw [applyTo?_eq_run, run] at h
  cases hsource : s.catalog.lookup? (row.eventName s) with
  | none => simp [hsource] at h
  | some source =>
    by_cases hnew : row.newName = ""
    · have htarget : row.targetName s = row.eventName s := if_pos hnew
      simp only [hsource, hnew, if_true] at h
      cases hold : s.record? (row.eventName s) with
      | none => simp [hold] at h
      | some old =>
        simp only [hold, Option.some.injEq] at h
        rcases h with rfl
        rw [htarget]
        exact ⟨source, old, old, rfl, rfl, .refl _ old, EventStore.record?_setRecord hold _⟩
    · have htarget : row.targetName s = row.newName := if_neg hnew
      simp only [hsource, hnew, if_false] at h
      cases hclone : s.cloneAs? (row.eventName s) row.newName with
      | none => simp [hclone] at h
      | some copied =>
        obtain ⟨old, hold, hcopy⟩ := EventStore.record?_of_cloneAs? hclone
        simp only [hclone, hcopy, Option.some.injEq] at h
        rcases h with rfl
        rw [htarget]
        exact ⟨source, old, _, rfl, hold, old.agreesBut_insert "EventName" row.newName,
          EventStore.record?_setRecord hcopy _⟩

end UncoreRow

namespace EventStore

/-- In the store `s'` behind the row, its target has the filter value of the event from which the
record of the row was made. -/
def SetsValueOfOrigin (calls : List StoreCall) (row : UncoreRow) (s' : EventStore) : Prop :=
  ∃ origin new, originsOf calls (row.eventName (ofCalls calls)) = some origin ∧
    s'.record? (row.targetName (ofCalls calls)) = some new ∧
    new["Filter"]? = some ("config1=" ++ origin.filterValue.getD "")

section

variable {calls : List StoreCall} {row : UncoreRow} {s' : EventStore} {first origin : Event}

theorem exists_applyTo?_of_added
    (hfirst : (calls.flatMap StoreCall.addedEvents).find? (·.name == row.nameAndMask.1) =
      some first) (husable : first.isDeprecated = false) :
    row.eventName (ofCalls calls) = row.nameAndMask.1 ∧
      ∃ s', row.applyTo? (ofCalls calls) = some s' := by
  have hlookup : (ofCalls calls).catalog.lookup? row.nameAndMask.1 = some first := by
    rw [(descends_ofCalls calls).lookup, hfirst]
  have hname : row.eventName (ofCalls calls) = row.nameAndMask.1 := by
    simp [UncoreRow.eventName, UncoreRow.resolveName, hlookup, husable]
  have happlies := ((follows_ofCalls calls).applyTo row).2
  rw [hname, hlookup] at happlies
  exact ⟨hname, Option.isSome_iff_exists.1 happlies⟩

theorem setsValueOfOrigin_iff (hfilter : row.filter = "Filter1")
    (happly : row.applyTo? (ofCalls calls) = some s')
    (hfirst : (calls.flatMap StoreCall.addedEvents).find?
      (·.name == row.eventName (ofCalls calls)) = some first)
    (horigin : originsOf calls (row.eventName (ofCalls calls)) = some origin) :
    SetsValueOfOrigin calls row s' ↔
      UncoreRow.valueTerm (first.filterValue.getD "") = origin.filterValue.getD "" := by
  obtain ⟨source, old, copied, hsource, -, -, hnew⟩ := UncoreRow.exists_rewrite_of_applyTo? happly
  rw [(descends_ofCalls calls).lookup, hfirst] at hsource
  obtain rfl := Option.some.inj hsource
  have hvalue := UncoreRow.filter_rewrite hfilter (row.eventName (ofCalls calls))
    (row.targetName (ofCalls calls)) first copied
  constructor
  · rintro ⟨o, r, ho, hr, hset⟩
    obtain rfl := Option.some.inj (ho.symm.trans horigin)
    obtain rfl := Option.some.inj (hr.symm.trans hnew)
    have hsame := Option.some.inj (hvalue.symm.trans hset)
    exact (String.append_right_inj "config1=").1 hsame
  · intro hsame
    refine ⟨origin, _, horigin, hnew, ?_⟩
    rw [hvalue, hsame]

/-- Whatever calls have been made, a row with the filter `Filter1` sets the filter value of the
first event that was added under its name.  The record that it changes or copies was made from its
origin, but for keys that the calls can set; if they only add files, that is the last event of the
name.  The value is that of the origin if and only if the two events have it in common. -/
theorem row_sets_value_of_origin_iff (hfilter : row.filter = "Filter1")
    (happly : row.applyTo? (ofCalls calls) = some s') :
    let s := ofCalls calls
    let events := calls.flatMap StoreCall.addedEvents
    ∃ first origin old new,
      events.find? (·.name == row.eventName s) = some first ∧
      originsOf calls (row.eventName s) = some origin ∧
      s.record? (row.eventName s) = some old ∧
      origin.Makes (calls.flatMap StoreCall.changedKeys) old ∧
      s'.record? (row.targetName s) = some new ∧
      old.AgreesBut ("EventName" :: UncoreRow.rewrittenKeys) new ∧
      new["Filter"]? = some ("config1=" ++ UncoreRow.valueTerm (first.filterValue.getD "")) ∧
      (SetsValueOfOrigin calls row s' ↔
        UncoreRow.valueTerm (first.filterValue.getD "") = origin.filterValue.getD "") ∧
      ('=' ∉ (first.filterValue.getD "").toList → ',' ∉ (first.filterValue.getD "").toList →
        (SetsValueOfOrigin calls row s' ↔
          first.filterValue.getD "" = origin.filterValue.getD "")) ∧
      ((∀ call ∈ calls, ∃ kind text hybrid, call = .addFile kind text hybrid) →
        events.findRev? (·.name == row.eventName s) = some origin) := by
  intro s events
  have hdescends : s.Descends (originsOf calls) events (calls.flatMap StoreCall.changedKeys) :=
    descends_ofCalls calls
  obtain ⟨first, old, copied, hsource, hold, hcopied, hnew⟩ :=
    UncoreRow.exists_rewrite_of_applyTo? happly
  have hfirst : events.find? (·.name == row.eventName s) = some first := by
    rw [← hdescends.lookup]
    exact hsource
  obtain ⟨origin, horigin⟩ : ∃ origin, originsOf calls (row.eventName s) = some origin := by
    obtain ⟨p, hp, -⟩ := Option.bind_eq_some_iff.1 (s.record?_eq _ ▸ hold)
    rw [← Option.isSome_iff_exists, hdescends.isSome_eq, hp, Option.isSome_some]
  have hmakes : origin.Makes (calls.flatMap StoreCall.changedKeys) old := by
    obtain ⟨r, hr, hmade⟩ := hdescends.makes _ origin horigin
    rw [Option.some.inj (hold.symm.trans hr)]
    exact hmade
  have hagrees : old.AgreesBut ("EventName" :: UncoreRow.rewrittenKeys)
      (row.rewrite (row.eventName s) (row.targetName s) first copied) :=
    (hcopied.mono (by simp)).trans
      ((row.agreesBut_rewrite _ _ first copied).mono fun _ => List.mem_cons_of_mem _)
  have hiff := setsValueOfOrigin_iff hfilter happly hfirst horigin
  refine ⟨first, origin, old, _, hfirst, horigin, hold, hmakes, hnew, hagrees,
    UncoreRow.filter_rewrite hfilter _ _ first copied, hiff, ?_, ?_⟩
  · intro hequal hcomma
    rw [hiff, UncoreRow.valueTerm_of_notMem hequal hcomma]
  · intro hfiles
    rw [← originsOf_of_addFiles hfiles]
    exact horigin

end

/-- A file with one event, which asks for its own filter value. -/
def torFile (value : String) : StoreCall :=
  .addFile "uncore" ("[\x7b\"EventName\":\"UNC_C_TOR\",\"Unit\":\"CBO\"," ++
    "\"Filter\":\"Filter1\",\"FILTER_VALUE\":\"" ++ value ++ "\"\x7d]") false

def torEvent (value : String) : Event where
  name := "UNC_C_TOR"
  filter := some ("config1=" ++ value)
  filterValue := some value
  unit := some "CBO"
  topic := "Uncore-Cache"

def torRow : UncoreRow :=
  ⟨"UNC_C_TOR", "", "", "Filter1", "", ""⟩

theorem filter_torRow : torRow.filter = "Filter1" :=
  rfl

theorem nameAndMask_torRow : torRow.nameAndMask.1 = "UNC_C_TOR" := by
  decide

theorem addedEvents_torFile :
    (torFile "0x182").addedEvents = [torEvent "0x182"] ∧
      (torFile "0x192").addedEvents = [torEvent "0x192"] := by
  decide +kernel

theorem row_sets_value_of_only_file :
    ∃ s', torRow.applyTo? (ofCalls [torFile "0x182"]) = some s' ∧
      SetsValueOfOrigin [torFile "0x182"] torRow s' := by
  have hevents : [torFile "0x182"].flatMap StoreCall.addedEvents = [torEvent "0x182"] := by
    rw [List.flatMap_singleton, addedEvents_torFile.1]
  have hadded : ([torFile "0x182"].flatMap StoreCall.addedEvents).find?
      (·.name == torRow.nameAndMask.1) = some (torEvent "0x182") := by
    rw [hevents, nameAndMask_torRow]
    rfl
  obtain ⟨hname, s', happly⟩ := exists_applyTo?_of_added hadded rfl
  obtain ⟨first, origin, -, -, hfirst, -, -, -, -, -, -, -, hiff, hlast⟩ :=
    row_sets_value_of_origin_iff filter_torRow happly
  have horigin := hlast (List.forall_mem_singleton.2 ⟨_, _, _, rfl⟩)
  rw [hname, nameAndMask_torRow, hevents] at hfirst horigin
  obtain rfl : torEvent "0x182" = first := Option.some.inj hfirst
  obtain rfl : torEvent "0x182" = origin := Option.some.inj horigin
  exact ⟨s', happly, (hiff (by decide) (by decide)).2 rfl⟩

/-- Two files have the event, with different values. -/
def torFiles : List StoreCall :=
  [torFile "0x182", torFile "0x192"]

/-- The value is that of the first file, the record that of the second. -/
theorem not_setsValueOfOrigin_torFiles :
    ∃ s', torRow.applyTo? (ofCalls torFiles) = some s' ∧
      ¬ SetsValueOfOrigin torFiles torRow s' := by
  have hevents : torFiles.flatMap StoreCall.addedEvents =
      [torEvent "0x182", torEvent "0x192"] := by
    rw [torFiles, List.flatMap_cons, List.flatMap_singleton, addedEvents_torFile.1,
      addedEvents_torFile.2]
    rfl
  have hfiles : ∀ call ∈ torFiles, ∃ kind text hybrid, call = .addFile kind text hybrid := by
    intro call hcall
    rcases List.mem_pair.1 hcall with rfl | rfl
    · exact ⟨_, _, _, rfl⟩
    · exact ⟨_, _, _, rfl⟩
  have hfirst : (torFiles.flatMap StoreCall.addedEvents).find?
      (·.name == torRow.nameAndMask.1) = some (torEvent "0x182") := by
    rw [hevents, nameAndMask_torRow]
    rfl
  have horigin : originsOf torFiles torRow.nameAndMask.1 = some (torEvent "0x192") := by
    rw [originsOf_of_addFiles hfiles, hevents, nameAndMask_torRow]
    rfl
  obtain ⟨hname, s', happly⟩ := exists_applyTo?_of_added hfirst rfl
  rw [← hname] at hfirst horigin
  refine ⟨s', happly, fun hset => ?_⟩
  have hsame := (setsValueOfOrigin_iff filter_torRow happly hfirst horigin).1 hset
  exact absurd hsame (by decide)

end EventStore

end TopdownMetrics
