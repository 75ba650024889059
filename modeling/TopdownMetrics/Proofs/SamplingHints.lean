import TopdownMetrics.Proofs.CompanionSlots
import TopdownMetrics.Proofs.TableRows
import TopdownMetrics.Table.Locate

/-!
# Conditional sampling hints

The two branches of a conditional hint are divided by a colon, and so are an event and its
modifiers.  The first colon behind the question mark counts.  So the branches are read as they
are written exactly where the first one has no modifiers; otherwise the modifiers of the first
branch end up in front of the second one.
-/

namespace TopdownMetrics

namespace Text

/-! ## Cutting and trimming -/

theorem cut?_of_notMem {c : Char} {before : List Char} (h : c ∉ before) (behind : List Char) :
    cut? [c] (before ++ c :: behind) = some (before, behind) := by
  induction before with
  | nil => simp [cut?]
  | cons d before ih =>
    obtain ⟨hne, hnotMem⟩ := not_or.1 (mt List.mem_cons.2 h)
    simp [cut?, ih hnotMem, hne]

/-- The characters are those of a single word. -/
def IsSolid (cs : List Char) : Prop :=
  cs ≠ [] ∧ ∀ c ∈ cs, isBlank c = false

instance : DecidablePred IsSolid := fun cs =>
  decidable_of_iff (cs ≠ [] ∧ cs.all (!isBlank ·) = true) (by simp [IsSolid])

theorem IsSolid.all_isBlank {cs : List Char} (h : IsSolid cs) : cs.all isBlank = false := by
  obtain ⟨hne, hall⟩ := h
  obtain ⟨c, rest, rfl⟩ := List.exists_cons_of_ne_nil hne
  simp [hall c List.mem_cons_self]

theorem IsSolid.trimLeft_append {cs : List Char} (h : IsSolid cs) (behind : List Char) :
    trimLeft (cs ++ behind) = cs ++ behind := by
  obtain ⟨hne, hall⟩ := h
  obtain ⟨c, rest, rfl⟩ := List.exists_cons_of_ne_nil hne
  exact List.dropWhile_cons_of_neg (by simp [hall c List.mem_cons_self])

theorem IsSolid.trimRight_append {cs : List Char} (h : IsSolid cs) (front : List Char) :
    trimRight (front ++ cs) = front ++ cs := by
  obtain ⟨hne, hall⟩ := h
  refine List.rdropWhile_eq_self_iff.2 fun hfront => ?_
  rw [List.getLast_append_right hne]
  simp [hall _ (List.getLast_mem hne)]

theorem trimLeft_cons_blank (cs : List Char) : trimLeft (' ' :: cs) = trimLeft cs :=
  List.dropWhile_cons_of_pos (by decide)

theorem IsSolid.trimChars_cons {cs : List Char} (h : IsSolid cs) : trimChars (' ' :: cs) = cs := by
  have hleft := h.trimLeft_append []
  have hright := h.trimRight_append []
  rw [List.append_nil] at hleft
  rw [List.nil_append] at hright
  rw [trimChars, trimLeft_cons_blank, hleft, hright]

theorem IsSolid.trimChars_between {cs : List Char} (h : IsSolid cs) :
    trimChars (' ' :: (cs ++ [' '])) = cs := by
  have hright := h.trimRight_append []
  rw [List.nil_append] at hright
  have hblank : trimRight (cs ++ [' ']) = trimRight cs :=
    List.rdropWhile_concat_pos isBlank cs ' ' (by decide)
  rw [trimChars, trimLeft_cons_blank, h.trimLeft_append, hblank, hright]

theorem trimLeft_append_of_not_blank {cs : List Char} (h : cs.all isBlank = false)
    (behind : List Char) : trimLeft (cs ++ behind) = trimLeft cs ++ behind := by
  induction cs with
  | nil => cases h
  | cons c cs ih =>
    rw [List.all_cons, Bool.and_eq_false_iff] at h
    cases hc : isBlank c with
    | true =>
      have hrest := ih (h.resolve_left (by simp [hc]))
      simpa [trimLeft, hc] using hrest
    | false => simp [trimLeft, hc]

theorem all_isBlank_trimLeft {cs : List Char} (h : cs.all isBlank = false) :
    (trimLeft cs).all isBlank = false := by
  have hnot := List.head?_dropWhile_not isBlank cs
  cases hleft : trimLeft cs with
  | nil =>
    have hall := List.all_eq_true.2 (List.dropWhile_eq_nil_iff.1 hleft)
    rw [h] at hall
    cases hall
  | cons c rest =>
    have hhead : (cs.dropWhile isBlank).head? = some c := congrArg List.head? hleft
    rw [hhead] at hnot
    simp only [List.all_cons, Bool.and_eq_false_iff]
    exact .inl (by simpa using hnot)

theorem trimChars_ne_nil {cs : List Char} (h : cs.all isBlank = false) : trimChars cs ≠ [] := by
  rw [Ne, trimChars_eq_nil_iff, ← List.all_eq_true, h]
  decide

theorem eq_of_trim_eq {text : String} (h : trim text = text) :
    trimLeft text.toList = text.toList ∧ trimRight text.toList = text.toList := by
  have hchars : trimRight (trimLeft text.toList) = text.toList := by
    simpa [trim, trimChars] using congrArg String.toList h
  have hsuffix : trimLeft text.toList <:+ text.toList := List.dropWhile_suffix isBlank
  have hprefix : trimRight (trimLeft text.toList) <+: trimLeft text.toList :=
    List.rdropWhile_prefix isBlank _
  have hlength := hprefix.length_le
  rw [hchars] at hlength
  have hleft : trimLeft text.toList = text.toList :=
    hsuffix.eq_of_length (le_antisymm hsuffix.length_le hlength)
  exact ⟨hleft, by rwa [hleft] at hchars⟩

/-- A pattern without blanks at its start is found behind the blanks of a text. -/
theorem infix_trimLeft_iff {pattern cs : List Char} (h : trimLeft pattern = pattern) :
    pattern <:+: trimLeft cs ↔ pattern <:+: cs := by
  refine ⟨fun hinfix => hinfix.trans (List.dropWhile_suffix isBlank).isInfix, fun hinfix => ?_⟩
  induction cs with
  | nil => exact hinfix
  | cons c cs ih =>
    cases hc : isBlank c with
    | false => simpa [trimLeft, hc] using hinfix
    | true =>
      have hdrop : trimLeft (c :: cs) = trimLeft cs := List.dropWhile_cons_of_pos hc
      rw [hdrop]
      rcases List.infix_cons_iff.1 hinfix with hprefix | hrest
      · cases pattern with
        | nil => exact List.nil_infix
        | cons d pattern =>
          obtain rfl : d = c := (List.cons_prefix_cons.1 hprefix).1
          have hlength : (trimLeft pattern).length ≤ pattern.length :=
            List.length_dropWhile_le isBlank pattern
          have hdrop' : trimLeft (d :: pattern) = trimLeft pattern :=
            List.dropWhile_cons_of_pos hc
          rw [← hdrop', h, List.length_cons] at hlength
          omega
      · exact ih hrest

/-- A pattern without blanks at its end is not found with a blank behind a text. -/
theorem infix_concat_blank_iff {pattern cs : List Char} (h : trimRight pattern = pattern) :
    pattern <:+: cs ++ [' '] ↔ pattern <:+: cs := by
  refine ⟨fun hinfix => ?_, fun hinfix => hinfix.trans (List.prefix_append _ _).isInfix⟩
  rcases List.infix_concat_iff.1 hinfix with hsuffix | hrest
  · rcases List.suffix_concat_iff.1 hsuffix with rfl | ⟨front, rfl, -⟩
    · exact List.nil_infix
    · have hdrop : trimRight (front ++ [' ']) = trimRight front :=
        List.rdropWhile_concat_pos isBlank front ' ' (by decide)
      have hlength : (trimRight front).length ≤ front.length :=
        (List.rdropWhile_prefix isBlank front).length_le
      rw [← hdrop, h, List.length_append, List.length_singleton] at hlength
      omega
  · exact hrest

end Text

/-! ## The chosen branch -/

def availableHint (hint : String) : Option String :=
  if hint = "#NA" then none else some hint

theorem chooseBranch?_of_cut (arch : String) {condition first second : List Char}
    (hquestion : '?' ∉ condition) (hcolon : ':' ∉ first)
    (hcondition : condition.all Text.isBlank = false) (hsecond : second.all Text.isBlank = false) :
    chooseBranch? arch (condition ++ '?' :: (first ++ ':' :: second)) =
      if first.all Text.isBlank = true then none
      else some (Text.trimChars
        (if Text.occursIn arch.toList condition = true then first else second)) := by
  rw [chooseBranch?, Text.cut?_of_notMem hquestion]
  simp only [Option.bind_eq_bind, Option.bind_some, Text.cut?_of_notMem hcolon, hcondition,
    hsecond, Bool.false_or, Bool.or_false]
  by_cases hmentioned : Text.occursIn arch.toList condition = true
  · simp only [hmentioned, if_true]
  · simp only [hmentioned, if_false, Bool.false_eq_true]

/-- What a cell gives whose trimmed text is cut at its question mark and at the first colon
behind it. -/
theorem locateHint_of_cut {cell : String} (arch : String) {condition first second : List Char}
    (hcell : Text.trimChars cell.toList = condition ++ '?' :: (first ++ ':' :: second))
    (hquestion : '?' ∉ condition) (hcolon : ':' ∉ first)
    (hcondition : condition.all Text.isBlank = false) (hsecond : second.all Text.isBlank = false) :
    locateHint cell arch =
      if first.all Text.isBlank = true then .error ⟨Text.trim cell⟩
      else .ok (availableHint (String.ofList (Text.trimChars
        (if Text.occursIn arch.toList condition = true then first else second)))) := by
  have hmem : (Text.trimChars cell.toList).contains '?' = true := by simp [hcell]
  have hbranch := chooseBranch?_of_cut arch hquestion hcolon hcondition hsecond
  rw [← hcell] at hbranch
  unfold locateHint
  dsimp only
  rw [if_pos hmem, hbranch]
  by_cases hfirst : first.all Text.isBlank = true
  · rw [if_pos hfirst, if_pos hfirst, Text.trim]
  · rw [if_neg hfirst, if_neg hfirst]
    have hne : Text.trimChars
        (if Text.occursIn arch.toList condition = true then first else second) ≠ [] := by
      split
      · exact Text.trimChars_ne_nil (Bool.eq_false_iff.2 hfirst)
      · exact Text.trimChars_ne_nil hsecond
    simp [availableHint, hne]

/-! ## Conditional cells -/

/-- A hint that is a single word, possibly with modifiers. -/
structure IsHintWord (hint : String) : Prop where
  solid : Text.IsSolid hint.toList
  question : '?' ∉ hint.toList

instance : DecidablePred IsHintWord := fun hint =>
  decidable_of_iff (Text.IsSolid hint.toList ∧ '?' ∉ hint.toList)
    ⟨fun ⟨hsolid, hquestion⟩ => ⟨hsolid, hquestion⟩, fun h => ⟨h.solid, h.question⟩⟩

/-- The condition as it stands in front of the question mark of a trimmed cell. -/
def shownCondition (condition : String) : String :=
  String.ofList (Text.trimLeft condition.toList ++ [' '])

def conditionalCell (condition chosen otherwise : String) : String :=
  condition ++ " ? " ++ chosen ++ " : " ++ otherwise

theorem trimChars_conditionalCell {condition otherwise : String} (chosen : String)
    (hcondition : condition.toList.all Text.isBlank = false) (hotherwise : IsHintWord otherwise) :
    Text.trimChars (conditionalCell condition chosen otherwise).toList =
      (shownCondition condition).toList ++ '?' ::
        (' ' :: chosen.toList ++ ' ' :: ':' :: ' ' :: otherwise.toList) := by
  have htext : (conditionalCell condition chosen otherwise).toList =
      condition.toList ++ (' ' :: '?' :: ' ' :: chosen.toList ++ [' ', ':', ' '] ++
        otherwise.toList) := by
    simp [conditionalCell]
  rw [htext, Text.trimChars, Text.trimLeft_append_of_not_blank hcondition, ← List.append_assoc,
    hotherwise.solid.trimRight_append]
  simp [shownCondition]

section

variable {arch condition chosen otherwise : String}

theorem question_notMem_shownCondition (h : '?' ∉ condition.toList) :
    '?' ∉ (shownCondition condition).toList := by
  have hsubset := (List.dropWhile_suffix Text.isBlank (l := condition.toList)).subset
  simp only [shownCondition, String.toList_ofList, List.mem_append, List.mem_singleton, not_or]
  exact ⟨fun hmem => h (hsubset hmem), by decide⟩

theorem all_isBlank_shownCondition (h : condition.toList.all Text.isBlank = false) :
    (shownCondition condition).toList.all Text.isBlank = false := by
  simp [shownCondition, Text.all_isBlank_trimLeft h]

/-- A first branch without a colon leaves both branches whole. -/
theorem locateHint_of_colon_notMem (arch : String) (hquestion : '?' ∉ condition.toList)
    (hcondition : condition.toList.all Text.isBlank = false) (hchosen : IsHintWord chosen)
    (hotherwise : IsHintWord otherwise) (hcolon : ':' ∉ chosen.toList) :
    locateHint (conditionalCell condition chosen otherwise) arch =
      .ok (availableHint
        (if Text.contains (shownCondition condition) arch then chosen else otherwise)) := by
  have hcell : Text.trimChars (conditionalCell condition chosen otherwise).toList =
      (shownCondition condition).toList ++ '?' ::
        ((' ' :: (chosen.toList ++ [' '])) ++ ':' :: (' ' :: otherwise.toList)) := by
    rw [trimChars_conditionalCell chosen hcondition hotherwise]
    simp
  have hfirst : (' ' :: (chosen.toList ++ [' '])).all Text.isBlank = false := by
    simp [hchosen.solid.all_isBlank]
  have hcut := locateHint_of_cut arch hcell (question_notMem_shownCondition hquestion)
    (by simp [hcolon]) (all_isBlank_shownCondition hcondition)
    (by simp [hotherwise.solid.all_isBlank])
  rw [hcut, if_neg (by simp [hfirst]), Text.contains]
  split
  · rw [hchosen.solid.trimChars_between, String.ofList_toList]
  · rw [hotherwise.solid.trimChars_cons, String.ofList_toList]

/-- With modifiers the first branch ends at its first colon, and what stands behind the colon
belongs to the second branch. -/
theorem locateHint_of_modifiers {event modifiers : String} (hquestion : '?' ∉ condition.toList)
    (hcondition : condition.toList.all Text.isBlank = false)
    (hchosen : IsHintWord (event ++ ":" ++ modifiers)) (hotherwise : IsHintWord otherwise)
    (hcolon : ':' ∉ event.toList) :
    locateHint (conditionalCell condition (event ++ ":" ++ modifiers) otherwise) arch =
      if event = "" then
        .error ⟨Text.trim (conditionalCell condition (event ++ ":" ++ modifiers) otherwise)⟩
      else .ok (availableHint (if Text.contains (shownCondition condition) arch then event
        else Text.trim (modifiers ++ " : " ++ otherwise))) := by
  have hcell : Text.trimChars
      (conditionalCell condition (event ++ ":" ++ modifiers) otherwise).toList =
        (shownCondition condition).toList ++ '?' ::
          ((' ' :: event.toList) ++ ':' :: (modifiers ++ " : " ++ otherwise).toList) := by
    rw [trimChars_conditionalCell _ hcondition hotherwise]
    simp
  have hwords : ∀ c ∈ event.toList, Text.isBlank c = false := fun c hc =>
    hchosen.solid.2 c (by simp [hc])
  have hcut := locateHint_of_cut arch hcell (question_notMem_shownCondition hquestion)
    (by simp [hcolon]) (all_isBlank_shownCondition hcondition)
    (by simp [hotherwise.solid.all_isBlank])
  rw [hcut, Text.contains]
  by_cases hempty : event = ""
  · subst hempty
    rw [if_pos rfl, if_pos (by decide)]
  · have hsolid : Text.IsSolid event.toList := ⟨by simpa using hempty, hwords⟩
    rw [if_neg hempty, if_neg (by simp [hsolid.all_isBlank])]
    split
    · rw [hsolid.trimChars_cons, String.ofList_toList]
    · rfl

theorem availableHint_inj {hint hint' : String} (h : availableHint hint = availableHint hint') :
    hint = hint' := by
  unfold availableHint at h
  split_ifs at h with hnone hnone'
  · exact hnone.trans hnone'.symm
  · exact Option.some.inj h

theorem trim_modifiers_ne (modifiers : String) (hotherwise : IsHintWord otherwise) :
    Text.trim (modifiers ++ " : " ++ otherwise) ≠ otherwise := by
  have htext : (modifiers ++ " : " ++ otherwise).toList =
      (modifiers.toList ++ [' ', ':']) ++ ([' '] ++ otherwise.toList) := by simp
  have hcolon : (modifiers.toList ++ [' ', ':']).all Text.isBlank = false := by
    simp [Text.isBlank]
  intro heq
  -- The blank in front of the second branch is left inside the hint.
  have hchars := congrArg String.toList heq
  rw [Text.trim, String.toList_ofList, htext, Text.trimChars,
    Text.trimLeft_append_of_not_blank hcolon, ← List.append_assoc,
    hotherwise.solid.trimRight_append] at hchars
  have hmem : ' ' ∈ otherwise.toList := hchars ▸ by simp
  exact absurd (hotherwise.solid.2 ' ' hmem) (by decide)

/-- Blanks around a condition do not matter to a name that has none around it. -/
theorem contains_shownCondition (harch : Text.trim arch = arch) :
    Text.contains (shownCondition condition) arch = Text.contains condition arch := by
  obtain ⟨hleft, hright⟩ := Text.eq_of_trim_eq harch
  rw [Bool.eq_iff_iff, Text.contains, Text.contains, Text.occursIn_iff, Text.occursIn_iff,
    shownCondition, String.toList_ofList, Text.infix_concat_blank_iff hright,
    Text.infix_trimLeft_iff hleft]

theorem colon_notMem_of_whole_branch (hquestion : '?' ∉ condition.toList)
    (hcondition : condition.toList.all Text.isBlank = false) (hchosen : IsHintWord chosen)
    (hotherwise : IsHintWord otherwise)
    (h : locateHint (conditionalCell condition chosen otherwise) arch =
      .ok (availableHint
        (if Text.contains (shownCondition condition) arch then chosen else otherwise))) :
    ':' ∉ chosen.toList := by
  intro hmem
  obtain ⟨event, modifiers, htext, hcolon⟩ := List.eq_append_cons_of_mem hmem
  obtain rfl : chosen = String.ofList event ++ ":" ++ String.ofList modifiers :=
    String.toList_injective (by simp [htext])
  rw [locateHint_of_modifiers hquestion hcondition hchosen hotherwise (by simpa using hcolon)] at h
  split_ifs at h with hempty hmentioned
  · have hlength := congrArg String.length (availableHint_inj (Except.ok.inj h))
    have hone : ":".length = 1 := rfl
    simp only [String.length_append, String.length_ofList] at hlength
    omega
  · exact trim_modifiers_ne _ hotherwise (availableHint_inj (Except.ok.inj h))

/-- A conditional cell gives one of its two branches whole if and only if the first branch has
no modifiers.  With modifiers the first branch loses them, and the second one gets them. -/
theorem locateHint_yields_whole_branch_iff (arch : String) (hquestion : '?' ∉ condition.toList)
    (hcondition : condition.toList.all Text.isBlank = false) (hchosen : IsHintWord chosen)
    (hotherwise : IsHintWord otherwise) :
    let cell := conditionalCell condition chosen otherwise
    let mentioned := Text.contains (shownCondition condition) arch
    (Text.trim arch = arch →
      (locateHint cell arch =
          .ok (availableHint (if Text.contains condition arch then chosen else otherwise)) ↔
        ':' ∉ chosen.toList)) ∧
      (':' ∉ chosen.toList →
        locateHint cell arch = .ok (availableHint (if mentioned then chosen else otherwise))) ∧
      ∀ event modifiers, chosen = event ++ ":" ++ modifiers → ':' ∉ event.toList →
        locateHint cell arch =
          if event = "" then .error ⟨Text.trim cell⟩
          else .ok (availableHint
            (if mentioned then event else Text.trim (modifiers ++ " : " ++ otherwise))) := by
  intro cell mentioned
  have hwhole := locateHint_of_colon_notMem arch hquestion hcondition hchosen hotherwise
  refine ⟨fun harch => ?_, hwhole, fun event modifiers htext hcolon => ?_⟩
  · rw [← contains_shownCondition harch]
    exact ⟨colon_notMem_of_whole_branch hquestion hcondition hchosen hotherwise, hwhole⟩
  · subst htext
    exact locateHint_of_modifiers hquestion hcondition hchosen hotherwise hcolon

end

theorem locateHint_yields_whole_branch_skylake :
    locateHint "SKL, KBL ? MEM_LOAD_RETIRED.L1_HIT : FRONTEND_RETIRED.L2_MISS:pp" "SKL" =
        .ok (some "MEM_LOAD_RETIRED.L1_HIT") ∧
      locateHint "SKL, KBL ? MEM_LOAD_RETIRED.L1_HIT : FRONTEND_RETIRED.L2_MISS:pp" "BDW" =
        .ok (some "FRONTEND_RETIRED.L2_MISS:pp") := by
  have hchosen : IsHintWord "MEM_LOAD_RETIRED.L1_HIT" := by decide +kernel
  have hotherwise : IsHintWord "FRONTEND_RETIRED.L2_MISS:pp" := by decide +kernel
  have hquestion : '?' ∉ "SKL, KBL".toList := by decide
  have hwhole (arch : String) :=
    locateHint_yields_whole_branch_iff arch hquestion (by decide) hchosen hotherwise
  exact ⟨((hwhole "SKL").1 (by decide)).2 (by decide), ((hwhole "BDW").1 (by decide)).2 (by decide)⟩

/-- The modifiers of the first branch are taken for the start of the second one. -/
theorem locateHint_loses_modifiers :
    locateHint "SKL ? MEM_LOAD_RETIRED.L1_HIT:pp : #NA" "SKL" =
        .ok (some "MEM_LOAD_RETIRED.L1_HIT") ∧
      locateHint "SKL ? MEM_LOAD_RETIRED.L1_HIT:pp : #NA" "BDW" = .ok (some "pp : #NA") ∧
      ¬ ∀ arch, locateHint (conditionalCell "SKL" "MEM_LOAD_RETIRED.L1_HIT:pp" "#NA") arch =
        .ok (availableHint
          (if Text.contains "SKL" arch then "MEM_LOAD_RETIRED.L1_HIT:pp" else "#NA")) := by
  refine ⟨by decide +kernel, by decide +kernel, fun hwhole => ?_⟩
  exact absurd (hwhole "BDW") (by decide +kernel)

end TopdownMetrics
