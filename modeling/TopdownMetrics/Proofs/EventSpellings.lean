import Mathlib.Logic.Function.Iterate
import TopdownMetrics.Proofs.FirstPlaces
import TopdownMetrics.Proofs.RecordOrigins

/-!
# The spellings of event names

Two kinds of names are spelled differently when they are read: those with a number behind
`OFFCORE_RESPONSE`, and those that give a request and a response.  A name of the first kind is not
looked at again, although without the number it may be of either kind.  So a name has its final
spelling behind one step unless what follows the number is respelled itself.  As long as no file has
such a name, a catalog has no name that would be respelled, and no two names for one event.
-/

namespace TopdownMetrics

theorem Text.dropPrefix?_eq_some_iff {pattern cs rest : List Char} :
    dropPrefix? pattern cs = some rest ↔ pattern ++ rest = cs := by
  rw [dropPrefix?, Option.ite_none_right_eq_some, List.isPrefixOf_iff_prefix]
  constructor
  · rintro ⟨hstart, hrest⟩
    rw [← Option.some.inj hrest]
    exact (List.prefix_append_drop hstart).symm
  · rintro rfl
    exact ⟨List.prefix_append pattern rest, by rw [List.drop_left]⟩

namespace Event

variable {name other ending rest : String}

/-! ## One step -/

/-- What may follow `OFFCORE_RESPONSE` in a name that is respelled. -/
inductive IsRespelledEnding : String → Prop
  | numbered (rest : String) : IsRespelledEnding ("_0" ++ rest)
  | request (request response : String) :
      IsRespelledEnding (":request=" ++ request ++ ":response=" ++ response)

def IsRespelled (name : String) : Prop :=
  ∃ ending, name = "OFFCORE_RESPONSE" ++ ending ∧ IsRespelledEnding ending

/-- Without its number the name is still one that is respelled. -/
def IsTwiceRespelled (name : String) : Prop :=
  ∃ ending, name = "OFFCORE_RESPONSE_0" ++ ending ∧ IsRespelledEnding ending

theorem isRespelled_iff :
    IsRespelled name ↔ (∃ rest, name = "OFFCORE_RESPONSE_0" ++ rest) ∨
      ∃ request response,
        name = "OFFCORE_RESPONSE:request=" ++ (request ++ ":response=" ++ response) := by
  have hnumber : "OFFCORE_RESPONSE_0" = "OFFCORE_RESPONSE" ++ "_0" := by decide
  have hrequest : "OFFCORE_RESPONSE:request=" = "OFFCORE_RESPONSE" ++ ":request=" := by decide
  simp only [hnumber, hrequest, String.append_assoc]
  constructor
  · rintro ⟨_, rfl, hending⟩
    cases hending with
    | numbered rest => exact .inl ⟨rest, rfl⟩
    | request request response =>
      exact .inr ⟨request, response, by simp only [String.append_assoc]⟩
  · rintro (⟨rest, rfl⟩ | ⟨request, response, rfl⟩)
    · exact ⟨_, rfl, .numbered rest⟩
    · exact ⟨_, by simp only [String.append_assoc], .request request response⟩

theorem dropPrefix?_eq_some_iff {pattern : String} {cs : List Char} :
    Text.dropPrefix? pattern.toList name.toList = some cs ↔ name = pattern ++ String.ofList cs := by
  rw [Text.dropPrefix?_eq_some_iff, ← String.toList_inj, String.toList_append,
    String.toList_ofList, eq_comm]

theorem dropPrefix?_eq_none_iff {pattern : String} :
    Text.dropPrefix? pattern.toList name.toList = none ↔ ∀ rest, name ≠ pattern ++ rest := by
  simp only [Option.eq_none_iff_forall_ne_some, ne_eq, dropPrefix?_eq_some_iff]
  constructor
  · intro hnone rest
    rw [← String.ofList_toList (s := rest)]
    exact hnone rest.toList
  · exact fun hnone cs => hnone (String.ofList cs)

theorem fixName_numbered (ending : String) :
    fixName ("OFFCORE_RESPONSE_0" ++ ending) = "OFFCORE_RESPONSE" ++ ending := by
  have hrest : Text.dropPrefix? "OFFCORE_RESPONSE_0".toList
      ("OFFCORE_RESPONSE_0" ++ ending).toList = some ending.toList := by
    rw [dropPrefix?_eq_some_iff, String.ofList_toList]
  rw [fixName, hrest]
  dsimp only
  rw [String.ofList_toList]

theorem length_fixName_numbered (ending : String) :
    (fixName ("OFFCORE_RESPONSE_0" ++ ending)).length <
      ("OFFCORE_RESPONSE_0" ++ ending).length := by
  have hstem : "OFFCORE_RESPONSE".length < "OFFCORE_RESPONSE_0".length := by decide
  rw [fixName_numbered, String.length_append, String.length_append]
  omega

/-- The first of the two kinds goes before the second. -/
theorem fixName_cases (name : String) :
    (∃ ending, name = "OFFCORE_RESPONSE_0" ++ ending) ∨
    (∃ request response,
      name = "OFFCORE_RESPONSE:request=" ++ (request ++ ":response=" ++ response) ∧
      fixName name = "OFFCORE_RESPONSE." ++ request ++ "." ++ response) ∨
    (¬ IsRespelled name ∧ fixName name = name) := by
  rw [isRespelled_iff]
  unfold fixName
  cases hnumbered : Text.dropPrefix? "OFFCORE_RESPONSE_0".toList name.toList with
  | some cs => exact .inl ⟨_, dropPrefix?_eq_some_iff.1 hnumbered⟩
  | none =>
    have hunnumbered := dropPrefix?_eq_none_iff.1 hnumbered
    cases hrequest : Text.dropPrefix? "OFFCORE_RESPONSE:request=".toList name.toList with
    | none =>
      have hnone := dropPrefix?_eq_none_iff.1 hrequest
      refine .inr (.inr ⟨?_, rfl⟩)
      rintro (⟨rest, hname⟩ | ⟨request, response, hname⟩)
      · exact hunnumbered rest hname
      · exact hnone _ hname
    | some cs =>
      rw [dropPrefix?_eq_some_iff] at hrequest
      dsimp only
      cases hcut : Text.cut? ":response=".toList cs with
      | some parts =>
        obtain ⟨request, response⟩ := parts
        have hparts := (Text.cut?_eq_some_iff.1 hcut).divides
        refine .inr (.inl ⟨String.ofList request, String.ofList response, ?_, rfl⟩)
        rw [hrequest, ← hparts, String.append_assoc]
        simp only [String.ofList_append, String.ofList_toList]
      | none =>
        refine .inr (.inr ⟨?_, rfl⟩)
        rintro (⟨rest, hname⟩ | ⟨request, response, hname⟩)
        · exact hunnumbered rest hname
        · rw [hrequest, String.append_right_inj] at hname
          refine Text.cut?_eq_none_iff.1 hcut ⟨request.toList, response.toList, ?_⟩
          rw [← String.toList_append, ← String.toList_append, ← hname, String.toList_ofList]

theorem not_isRespelled_point (rest : String) : ¬ IsRespelled ("OFFCORE_RESPONSE." ++ rest) := by
  rw [isRespelled_iff]
  rintro (⟨_, hname⟩ | ⟨_, _, hname⟩)
  · have hchars := congrArg (fun text : String => text.toList[16]?) hname
    simp at hchars
  · have hchars := congrArg (fun text : String => text.toList[16]?) hname
    simp at hchars

theorem fixName_eq_self_iff : fixName name = name ↔ ¬ IsRespelled name := by
  rcases fixName_cases name with ⟨ending, rfl⟩ | ⟨request, response, hname, hfixed⟩ |
    ⟨hnot, hfixed⟩
  · refine iff_of_false (fun hself => ?_) (not_not_intro (isRespelled_iff.2 (.inl ⟨ending, rfl⟩)))
    exact absurd (congrArg String.length hself) (length_fixName_numbered ending).ne
  · have hrespelled : IsRespelled name := isRespelled_iff.2 (.inr ⟨request, response, hname⟩)
    refine iff_of_false (fun hself => ?_) (not_not_intro hrespelled)
    rw [hself, String.append_assoc, String.append_assoc] at hfixed
    exact not_isRespelled_point _ (hfixed ▸ hrespelled)
  · exact iff_of_true hfixed hnot

theorem fixName_fixName_iff : fixName (fixName name) = fixName name ↔ ¬ IsTwiceRespelled name := by
  rw [fixName_eq_self_iff, not_iff_not]
  rcases fixName_cases name with ⟨ending, rfl⟩ | ⟨request, response, rfl, hfixed⟩ | ⟨hnot, hfixed⟩
  · rw [fixName_numbered]
    simp only [IsRespelled, IsTwiceRespelled, String.append_right_inj]
  · rw [hfixed, String.append_assoc, String.append_assoc]
    refine iff_of_false (not_isRespelled_point _) ?_
    rintro ⟨ending, hname, -⟩
    have hchars := congrArg (fun text : String => text.toList[16]?) hname
    simp at hchars
  · rw [hfixed]
    refine iff_of_false hnot ?_
    rintro ⟨ending, hname, -⟩
    exact hnot (isRespelled_iff.2 (.inl ⟨ending, hname⟩))

/-! ## All steps -/

/-- Respelling the two names again and again leads to the same name. -/
def SpellSame (name other : String) : Prop :=
  ∃ i j, fixName^[i] name = fixName^[j] other

/-- Each further step takes a number away, so that it comes to an end. -/
theorem exists_settled (name : String) : ∃ i, ¬ IsRespelled (fixName^[i] name) := by
  induction hn : name.length using Nat.strong_induction_on generalizing name with
  | h n ih =>
    by_cases htwice : IsTwiceRespelled name
    · obtain ⟨ending, rfl, -⟩ := htwice
      have hlength := length_fixName_numbered ending
      rw [hn] at hlength
      obtain ⟨i, hi⟩ := ih _ hlength _ rfl
      exact ⟨i + 1, by rwa [Function.iterate_succ_apply]⟩
    · exact ⟨1, fixName_eq_self_iff.1 (fixName_fixName_iff.2 htwice)⟩

namespace SpellSame

theorem fixName_right (name : String) (i : ℕ) : SpellSame name (fixName^[i] name) :=
  ⟨i, 0, rfl⟩

theorem eq_of_settled (h : SpellSame name other) (hname : fixName name = name)
    (hother : fixName other = other) : name = other := by
  obtain ⟨i, j, hsame⟩ := h
  rwa [Function.iterate_fixed hname, Function.iterate_fixed hother] at hsame

theorem fixName_both (h : SpellSame name other) : SpellSame (fixName name) (fixName other) := by
  obtain ⟨i, j, hsame⟩ := h
  refine ⟨i, j, ?_⟩
  rw [← Function.iterate_succ_apply, ← Function.iterate_succ_apply, Function.iterate_succ_apply',
    Function.iterate_succ_apply', hsame]

end SpellSame

/-- A name gets the spelling of all other names of its event, unless it is respelled twice. -/
theorem not_isTwiceRespelled_iff : ¬ IsTwiceRespelled name ↔
    ∀ other, ¬ IsTwiceRespelled other → SpellSame name other → fixName other = fixName name := by
  constructor
  · intro hname other hother hsame
    exact (hsame.fixName_both.eq_of_settled (fixName_fixName_iff.2 hname)
      (fixName_fixName_iff.2 hother)).symm
  · intro hall htwice
    obtain ⟨i, hsettled⟩ := exists_settled name
    have hfixed := fixName_eq_self_iff.2 hsettled
    have honce : ¬ IsTwiceRespelled (fixName^[i] name) :=
      fixName_fixName_iff.1 (congrArg fixName hfixed)
    have hspelling := hall _ honce (.fixName_right name i)
    rw [hfixed] at hspelling
    exact fixName_fixName_iff.1 (hspelling ▸ hfixed) htwice

/-! ## Names that files give -/

/-- The objects in the text of an event file. -/
def objects? (text : String) : Option (List Json.Members) :=
  (Json.parse? (String.ofList (text.toList.dropWhile (· = '\ufeff')))).bind fileObjects?

theorem ofFile?_eq (text : String) :
    ofFile? text = (objects? text).map (·.filterMap ofMembers?) := by
  unfold ofFile? objects?
  dsimp only
  generalize Json.parse? _ = parsed
  cases parsed with
  | none => rfl
  | some v => cases hobjects : fileObjects? v <;> simp [hobjects]

theorem exists_name_of_ofMembers? {raw : Json.Members} {e : Event} (h : ofMembers? raw = some e) :
    ∃ given, clean? raw "EventName" = some given ∧ e.name = fixName given := by
  unfold ofMembers? at h
  cases hgiven : clean? raw "EventName" with
  | none => simp [hgiven] at h
  | some given =>
    simp only [hgiven, Option.bind_eq_bind, Option.bind_some, Option.pure_def,
      Option.some.injEq] at h
    exact ⟨given, rfl, congrArg Event.name h.symm⟩

end Event

namespace EventStore

open Event

variable {calls : List StoreCall} {name : String}

/-- One of the files has an event under this name that can be written. -/
def Gives (calls : List StoreCall) (given : String) : Prop :=
  ∃ kind text hybrid objects raw e, .addFile kind text hybrid ∈ calls ∧
    objects? text = some objects ∧ raw ∈ objects ∧ clean? raw "EventName" = some given ∧
    ofMembers? raw = some e ∧ e.record?.isSome = true

def Registers (calls : List StoreCall) (name : String) : Prop :=
  ((ofCalls calls).catalog.lookup? name).isSome = true

theorem registers_iff_mem_names :
    Registers calls name ↔ ∃ call ∈ calls, name ∈ call.addedEvents.map (·.name) := by
  rw [Registers, (descends_ofCalls calls).lookup, List.find?_isSome]
  simp only [beq_iff_eq, List.mem_flatMap, List.mem_map]
  exact ⟨fun ⟨e, ⟨call, hcall, he⟩, hname⟩ => ⟨call, hcall, e, he, hname⟩,
    fun ⟨call, hcall, e, he, hname⟩ => ⟨e, ⟨call, hcall, he⟩, hname⟩⟩

theorem mem_names_addFile_iff {kind text : String} {hybrid : Bool} :
    name ∈ (StoreCall.addFile kind text hybrid).addedEvents.map (·.name) ↔
      ∃ objects raw e, objects? text = some objects ∧ raw ∈ objects ∧ ofMembers? raw = some e ∧
        e.record?.isSome = true ∧ e.name = name := by
  rw [StoreCall.addedEvents, ofFile?_eq]
  cases objects? text with
  | none => simp
  | some objects =>
    have hfirsts := mem_names_firsts_iff name
      ((objects.filterMap ofMembers?).filter (·.record?.isSome))
    rw [Option.map_some, Option.map_some, Option.getD_some]
    refine hfirsts.trans ?_
    simp only [List.mem_map, List.mem_filter, List.mem_filterMap]
    constructor
    · rintro ⟨e, ⟨⟨raw, hraw, he⟩, hwritten⟩, hname⟩
      exact ⟨objects, raw, e, rfl, hraw, he, hwritten, hname⟩
    · rintro ⟨_, raw, e, ⟨⟩, hraw, he, hwritten, hname⟩
      exact ⟨e, ⟨⟨raw, hraw, he⟩, hwritten⟩, hname⟩

/-- A catalog has the names that files give, each after one step. -/
theorem registers_iff :
    Registers calls name ↔ ∃ given, Gives calls given ∧ fixName given = name := by
  rw [registers_iff_mem_names]
  constructor
  · rintro ⟨call, hcall, hmem⟩
    cases call with
    | addFile kind text hybrid =>
      obtain ⟨objects, raw, e, hobjects, hraw, hread, hwritten, rfl⟩ := mem_names_addFile_iff.1 hmem
      obtain ⟨given, hgiven, hname⟩ := exists_name_of_ofMembers? hread
      exact ⟨given, ⟨kind, text, hybrid, objects, raw, e, hcall, hobjects, hraw, hgiven, hread,
        hwritten⟩, hname.symm⟩
    | cloneAs => cases hmem
    | applyUncore => cases hmem
  · rintro ⟨given, ⟨kind, text, hybrid, objects, raw, e, hcall, hobjects, hraw, hgiven, hread,
      hwritten⟩, rfl⟩
    obtain ⟨given', hgiven', hname⟩ := exists_name_of_ofMembers? hread
    obtain rfl := Option.some.inj (hgiven'.symm.trans hgiven)
    exact ⟨_, hcall, mem_names_addFile_iff.2
      ⟨objects, raw, e, hobjects, hraw, hread, hwritten, hname⟩⟩

/-- A name has its final spelling behind one step, which is that of all names of its event, if and
only if it is not respelled twice.  A catalog has the names that the files of the calls give, one
step behind; none of them would be respelled if and only if no file gives a name that is respelled
twice, and then no two of them are spellings of the same name. -/
theorem event_names_are_settled_iff (name : String) (calls : List StoreCall) :
    ((fixName (fixName name) = fixName name ↔ ¬ IsTwiceRespelled name) ∧
      (¬ IsTwiceRespelled name ↔ ∀ other, ¬ IsTwiceRespelled other → SpellSame name other →
        fixName other = fixName name)) ∧
    (Registers calls name ↔ ∃ given, Gives calls given ∧ fixName given = name) ∧
    ((∀ registered, Registers calls registered → fixName registered = registered) ↔
      ∀ given, Gives calls given → ¬ IsTwiceRespelled given) ∧
    ((∀ given, Gives calls given → ¬ IsTwiceRespelled given) →
      ∀ registered other, Registers calls registered → Registers calls other →
        SpellSame registered other → registered = other) := by
  have hsettled : (∀ registered, Registers calls registered → fixName registered = registered) ↔
      ∀ given, Gives calls given → ¬ IsTwiceRespelled given := by
    simp only [registers_iff, forall_exists_index, and_imp, forall_apply_eq_imp_iff₂,
      fixName_fixName_iff]
  refine ⟨⟨fixName_fixName_iff, not_isTwiceRespelled_iff⟩, registers_iff, hsettled, ?_⟩
  intro hgiven registered other hname hother hsame
  have hnames := hsettled.2 hgiven
  exact hsame.eq_of_settled (hnames registered hname) (hnames other hother)

/-- A file with an event of which nothing but the name is given. -/
def nameFile (name : String) : StoreCall :=
  .addFile "core" ("[\x7b\"EventName\":\"" ++ name ++ "\"\x7d]") false

theorem names_nameFile :
    (nameFile "OFFCORE_RESPONSE_0.RFO").addedEvents.map (·.name) = ["OFFCORE_RESPONSE.RFO"] ∧
      (nameFile "OFFCORE_RESPONSE:request=RFO:response=L3").addedEvents.map (·.name) =
        ["OFFCORE_RESPONSE.RFO.L3"] ∧
      (nameFile "OFFCORE_RESPONSE_0:request=RFO:response=L3").addedEvents.map (·.name) =
        ["OFFCORE_RESPONSE:request=RFO:response=L3"] := by
  refine ⟨?_, ?_, ?_⟩ <;> decide +kernel

/-- One name of each kind. -/
def respelledFiles : List StoreCall :=
  [nameFile "OFFCORE_RESPONSE_0.RFO", nameFile "OFFCORE_RESPONSE:request=RFO:response=L3"]

theorem one_spelling_respelledFiles :
    (∀ given, Gives respelledFiles given → ¬ IsTwiceRespelled given) ∧
      Registers respelledFiles "OFFCORE_RESPONSE.RFO" ∧
      Registers respelledFiles "OFFCORE_RESPONSE.RFO.L3" ∧
      ¬ SpellSame "OFFCORE_RESPONSE.RFO" "OFFCORE_RESPONSE.RFO.L3" := by
  have hnames (name : String) : Registers respelledFiles name ↔
      name = "OFFCORE_RESPONSE.RFO" ∨ name = "OFFCORE_RESPONSE.RFO.L3" := by
    simp [-List.mem_map, registers_iff_mem_names, respelledFiles, names_nameFile]
  obtain ⟨-, -, hsettled, hone⟩ :=
    event_names_are_settled_iff "OFFCORE_RESPONSE_0.RFO" respelledFiles
  have hgiven : ∀ given, Gives respelledFiles given → ¬ IsTwiceRespelled given := by
    refine hsettled.1 fun name hname => ?_
    rcases (hnames name).1 hname with rfl | rfl
    · decide +kernel
    · decide +kernel
  have hfirst := (hnames _).2 (.inl rfl)
  have hsecond := (hnames _).2 (.inr rfl)
  refine ⟨hgiven, hfirst, hsecond, fun hsame => ?_⟩
  exact absurd (hone hgiven _ _ hfirst hsecond hsame) (by decide)

/-- A request with a number and the same request without. -/
def numberedFiles : List StoreCall :=
  [nameFile "OFFCORE_RESPONSE_0:request=RFO:response=L3",
    nameFile "OFFCORE_RESPONSE:request=RFO:response=L3"]

/-- The event is registered under two names, of which one would be respelled as the other. -/
theorem two_spellings_numberedFiles :
    fixName "OFFCORE_RESPONSE_0:request=RFO:response=L3" =
        "OFFCORE_RESPONSE:request=RFO:response=L3" ∧
      fixName "OFFCORE_RESPONSE:request=RFO:response=L3" = "OFFCORE_RESPONSE.RFO.L3" ∧
      Registers numberedFiles "OFFCORE_RESPONSE:request=RFO:response=L3" ∧
      Registers numberedFiles "OFFCORE_RESPONSE.RFO.L3" := by
  refine ⟨by decide +kernel, by decide +kernel, ?_, ?_⟩
  · simp [-List.mem_map, registers_iff_mem_names, numberedFiles, names_nameFile]
  · simp [-List.mem_map, registers_iff_mem_names, numberedFiles, names_nameFile]

end EventStore

end TopdownMetrics
