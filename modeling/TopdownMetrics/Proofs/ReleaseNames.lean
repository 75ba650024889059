import TopdownMetrics.Events.Uncore
import TopdownMetrics.Proofs.ReleasePaths
import TopdownMetrics.Proofs.Replacing
import TopdownMetrics.Release.FileName

/-!
# Names of the files of a model

The files of a model are named for the topics of its events and for its short name.  The topics
come from a fixed list, also those of copies that rewrites add, and no short name has a slash.
So each file stands in the directory of the model itself, and none has the name of the map of
processors.
-/

namespace TopdownMetrics

/-- A file of this name stands in the directory that it is put into and is not the map of
processors. -/
structure IsModelFile (name : String) : Prop extends Path.IsFileName name where
  ne_map : name ≠ "mapfile.csv"

/-! ## Case and replacements -/

namespace Text

variable {text pattern replacement : String} {cs : List Char}

theorem toLower_ne_slash {c : Char} (hascii : c.toNat < 0x80) (hc : c ≠ '/') :
    c.toLower ≠ '/' := by
  have hall : ∀ n < 0x80, Char.ofNat n ≠ '/' → (Char.ofNat n).toLower ≠ '/' := by
    decide +kernel
  have hmapped := hall c.toNat hascii
  rw [Char.ofNat_toNat] at hmapped
  exact hmapped hc

theorem ofNat_ne_slash {n : Nat} (h : 0x30 ≤ n) : Char.ofNat n ≠ '/' := by
  intro hslash
  have hcode : (Char.ofNat n).toNat = '/'.toNat := congrArg Char.toNat hslash
  by_cases hvalid : n.isValidChar
  · rw [Char.ofNat, dif_pos hvalid] at hcode
    change n = 0x2f at hcode
    omega
  · rw [Char.ofNat, dif_neg hvalid] at hcode
    cases hcode

/-- No run of letters ends before the digits, which follow the slash. -/
theorem mapByRuns_ne_slash {c : Char} (hascii : 0x80 ≤ c.toNat) :
    mapByRuns lowerRuns c ≠ '/' := by
  have hruns : ∀ r ∈ lowerRuns, 0x30 ≤ (r.first : Int) + r.shift := by
    decide +kernel
  unfold mapByRuns
  cases hfind : lowerRuns.find? (·.covers c.toNat) with
  | none =>
    rintro rfl
    exact absurd hascii (by decide)
  | some r =>
    have hrun := hruns r (List.mem_of_find?_eq_some hfind)
    have hcovers : r.first ≤ c.toNat := by
      have hcovers := List.find?_some hfind
      simp only [CaseRun.covers, Bool.and_eq_true, decide_eq_true_eq] at hcovers
      exact hcovers.1.1
    exact ofNat_ne_slash (by omega)

theorem slash_notMem_lowerChar {c : Char} (hc : c ≠ '/') : '/' ∉ lowerChar c := by
  unfold lowerChar
  split
  · rename_i hascii
    rw [List.mem_singleton]
    exact fun hslash => toLower_ne_slash hascii hc hslash.symm
  · split
    · decide
    · rename_i hascii _
      rw [List.mem_singleton]
      exact fun hslash => mapByRuns_ne_slash (by omega) hslash.symm

theorem slash_notMem_lowerFrom (before : List Char) (h : '/' ∉ cs) :
    '/' ∉ lowerFrom before cs := by
  induction cs generalizing before with
  | nil => exact List.not_mem_nil
  | cons c cs ih =>
    rw [List.mem_cons, not_or] at h
    have hmapped : '/' ∉ (if c = 'Σ' then
        if meetsCased before && !meetsCased cs then ['ς'] else ['σ']
      else lowerChar c) := by
      split
      · split
        · decide
        · decide
      · exact slash_notMem_lowerChar (Ne.symm h.1)
    exact fun hmem => (List.mem_append.1 hmem).elim hmapped (ih _ h.2)

theorem slash_notMem_lower (h : '/' ∉ text.toList) : '/' ∉ (lower text).toList := by
  simpa [lower] using slash_notMem_lowerFrom [] h

theorem slash_notMem_replace (hpattern : pattern ≠ "") (hreplacement : '/' ∉ replacement.toList)
    (h : '/' ∉ text.toList) : '/' ∉ (replace text pattern replacement).toList := by
  unfold replace replaceAll
  rw [if_neg (by simpa using hpattern), String.toList_ofList]
  exact fun hmem => (mem_of_mem_replaceFrom hmem).elim hreplacement h

end Text

theorem isModelFile_metricsFileName {shortname : String} (h : '/' ∉ shortname.toList) :
    IsModelFile (metricsFileName shortname) := by
  have hlast : (metricsFileName shortname).toList.getLast? = some 'n' := by
    unfold metricsFileName
    rw [String.toList_append, List.getLast?_append]
    rfl
  have hne (other : String) (hother : other.toList.getLast? ≠ some 'n') :
      metricsFileName shortname ≠ other := by
    rintro rfl
    exact hother hlast
  have hslash : '/' ∉ (metricsFileName shortname).toList := by
    unfold metricsFileName
    rw [String.toList_append, List.mem_append, not_or]
    exact ⟨Text.slash_notMem_replace (by decide) (by decide) (Text.slash_notMem_lower h),
      by decide⟩
  exact {
    not_mem := hslash
    leads := by simp [Path.leads, hne "" (by decide), hne "." (by decide)]
    ne_up := hne ".." (by decide)
    ne_map := hne "mapfile.csv" (by decide) }

/-! ## Topics -/

namespace Topic

/-- All topics that an event can have. -/
def all : List String :=
  patterns.map (·.1) ++ [other, "Uncore-Memory", "Uncore-Cache", "Uncore-Power",
    "Uncore-Interconnect", "Uncore-Other"]

theorem ofName_mem_all (name : String) : ofName name ∈ all := by
  have hbest (best : Option Rule) (rs : List Rule) (hbest : ∀ r ∈ best, r ∈ rules)
      (hrs : ∀ r ∈ rs, r ∈ rules) : ∀ r ∈ rs.foldl better best, r ∈ rules := by
    induction rs generalizing best with
    | nil => exact hbest
    | cons r rs ih =>
      apply ih (better best r)
      · intro chosen hchosen
        cases best with
        | none =>
          cases hchosen
          exact hrs r List.mem_cons_self
        | some b =>
          simp only [better] at hchosen
          split at hchosen
          · cases hchosen
            exact hrs r List.mem_cons_self
          · exact hbest chosen hchosen
      · exact fun r hr => hrs r (List.mem_cons_of_mem _ hr)
  unfold ofName
  dsimp only
  cases hchosen : (rules.filter (Text.startsWithGlob name ·.pattern)).foldl better none with
  | none => decide
  | some r =>
    have hr := hbest none _ (by simp) (fun r hr => (List.mem_filter.1 hr).1) r hchosen
    obtain ⟨⟨topic, ps⟩, hpatterns, hr⟩ := List.mem_flatMap.1 hr
    obtain ⟨pattern, _, rfl⟩ := List.mem_map.1 hr
    exact List.mem_append_left _ (List.mem_map.2 ⟨_, hpatterns, rfl⟩)

theorem ofUnit_mem_all (unit : String) : ofUnit unit ∈ all := by
  unfold ofUnit
  split
  · decide
  · split
    · decide
    · split
      · decide
      · split
        · decide
        · decide

theorem topicOf_mem_all (name : String) (unit : Option String) : topicOf name unit ∈ all := by
  unfold topicOf
  cases unit with
  | none => exact ofName_mem_all name
  | some unit =>
    dsimp only
    split
    · exact ofName_mem_all name
    · exact ofUnit_mem_all unit

end Topic

theorem isModelFile_topicFileName {topic : String} (h : topic ∈ Topic.all) :
    IsModelFile (topicFileName topic) := by
  have hall : ∀ topic ∈ Topic.all, '/' ∉ (topicFileName topic).toList ∧
      Path.leads (topicFileName topic) = true ∧ topicFileName topic ≠ ".." ∧
      topicFileName topic ≠ "mapfile.csv" := by
    decide +kernel
  obtain ⟨hslash, hleads, hup, hmap⟩ := hall topic h
  exact ⟨⟨hslash, hleads, hup⟩, hmap⟩

theorem Event.topic_mem_all {text : String} {es : List Event} (hes : Event.ofFile? text = some es)
    {e : Event} (he : e ∈ es) : e.topic ∈ Topic.all := by
  unfold Event.ofFile? at hes
  simp only [Option.bind_eq_bind, Option.bind_eq_some_iff, Option.pure_def,
    Option.some.injEq] at hes
  obtain ⟨_, _, objects, _, rfl⟩ := hes
  obtain ⟨raw, _, hraw⟩ := List.mem_filterMap.1 he
  unfold Event.ofMembers? at hraw
  simp only [Option.bind_eq_bind, Option.bind_eq_some_iff, Option.pure_def,
    Option.some.injEq] at hraw
  obtain ⟨_, _, rfl⟩ := hraw
  exact Topic.topicOf_mem_all _ _

/-! ## Topics of a store -/

namespace EventStore

variable {s : EventStore}

/-- The records of a store and its index have topics of the list. -/
structure HasTopics (s : EventStore) : Prop where
  topics : ∀ topic ∈ s.topics, topic ∈ Topic.all
  positions : ∀ (name : String) (p : RecordPosition), s.positions[name]? = some p →
    p.topic ∈ Topic.all

namespace HasTopics

theorem empty : ({} : EventStore).HasTopics where
  topics topic h := by simp at h
  positions name p h := by simp at h

theorem push (h : s.HasTopics) {topic : String} (htopic : topic ∈ Topic.all) (r : EventRecord) :
    (s.push topic r).HasTopics where
  topics other hother := by
    rcases Std.TreeMap.mem_insert.1 hother with heq | hother
    · rwa [← Std.LawfulEqCmp.eq_of_compare heq]
    · exact h.topics other hother
  positions name p hp := by
    unfold EventStore.push at hp
    cases hname : r["EventName"]? with
    | none =>
      simp only [hname] at hp
      exact h.positions name p hp
    | some new =>
      simp only [hname, Std.TreeMap.getElem?_insert] at hp
      split at hp
      · cases hp
        exact htopic
      · exact h.positions name p hp

theorem setRecord (h : s.HasTopics) (name : String) (r : EventRecord) :
    (s.setRecord name r).HasTopics := by
  unfold EventStore.setRecord
  cases hp : s.positions[name]? with
  | none => exact h
  | some p =>
    refine ⟨fun topic htopic => ?_, h.positions⟩
    exact h.topics topic (Std.TreeMap.mem_modify.1 htopic)

theorem cloneAs? (h : s.HasTopics) {name newName : String} {copied : EventStore}
    (hcopied : s.cloneAs? name newName = some copied) : copied.HasTopics := by
  unfold EventStore.cloneAs? at hcopied
  simp only [Option.bind_eq_bind, Option.bind_eq_some_iff, Option.pure_def,
    Option.some.injEq] at hcopied
  obtain ⟨p, hp, r, _, rfl⟩ := hcopied
  exact h.push (h.positions name p hp) _

theorem addEvents (marks : FileMarks) (seen : List String) (added : Nat) {es : List Event}
    (hes : ∀ e ∈ es, e.topic ∈ Topic.all) (h : s.HasTopics) :
    (EventStore.addEvents marks s seen added es).1.HasTopics := by
  induction es generalizing s seen added with
  | nil => exact h
  | cons e es ih =>
    have hrest := fun e he => hes e (List.mem_cons_of_mem _ he)
    unfold EventStore.addEvents
    split
    · exact ih seen added hrest h
    · split
      · exact ih seen added hrest h
      · have hpushed := h.push (hes e List.mem_cons_self)
        exact ih _ _ hrest ⟨(hpushed _).topics, (hpushed _).positions⟩

theorem addFile? (h : s.HasTopics) {kind text : String} {hybrid : Bool} {added : EventStore × Nat}
    (hadded : s.addFile? kind text hybrid = some added) : added.1.HasTopics := by
  unfold EventStore.addFile? at hadded
  obtain ⟨es, hes, rfl⟩ := Option.map_eq_some_iff.1 hadded
  exact addEvents _ _ _ (fun e he => Event.topic_mem_all hes he) h

theorem applyTo? (h : s.HasTopics) {row : UncoreRow} {changed : EventStore}
    (hchanged : row.applyTo? s = some changed) : changed.HasTopics := by
  unfold UncoreRow.applyTo? at hchanged
  obtain ⟨given, mask⟩ := row.nameAndMask
  by_cases hnew : row.newName = ""
  · simp only [hnew, if_true, Option.bind_eq_bind, Option.bind_eq_some_iff, Option.pure_def,
      Option.some.injEq] at hchanged
    obtain ⟨_, _, _, rfl, _, _, rfl⟩ := hchanged
    exact h.setRecord _ _
  · simp only [hnew, if_false, Option.bind_eq_bind, Option.bind_eq_some_iff, Option.pure_def,
      Option.some.injEq] at hchanged
    obtain ⟨_, _, copied, hcopied, _, _, rfl⟩ := hchanged
    exact (h.cloneAs? hcopied).setRecord _ _

/-- Rewrites add no topic. -/
theorem applyUncoreRows (h : s.HasTopics) (rows : List UncoreRow) :
    (s.applyUncoreRows rows).1.HasTopics := by
  unfold EventStore.applyUncoreRows
  generalize 0 = count
  induction rows generalizing s count with
  | nil => exact h
  | cons row rows ih =>
    rw [List.foldl_cons]
    cases happly : row.applyTo? s with
    | none =>
      simp only [happly]
      exact ih h count
    | some changed =>
      simp only [happly]
      exact ih (h.applyTo? happly) (count + 1)

end HasTopics

end EventStore

end TopdownMetrics
