import TopdownMetrics.Metrics.Draft
import TopdownMetrics.Proofs.MapfileModels
import TopdownMetrics.Proofs.ReleasePaths
import TopdownMetrics.Proofs.Replacing
import TopdownMetrics.Proofs.Trimming

/-!
# Canonical lists of groups

The groups of a metric are given as pieces of a text between semicolons.  The level groups get their
emitted names in the whole text before it is split.  Their old names have no semicolons and start
with a letter that their new names do not have, so that each piece is renamed apart from the others
and nothing is left to rename.  So the list is that of the names of the pieces, in order and without
repetitions; it does not depend on the order of the pieces, and is the list of its own names.
-/

namespace TopdownMetrics

/-! ## Names of level groups -/

def oldLevelName (level : Char) : List Char :=
  "TmaL".toList ++ [level]

def newLevelName (level : Char) : List Char :=
  "tma_L".toList ++ level :: "_group".toList

/-- The levels that have groups of their own. -/
def groupLevels : List Char :=
  ['1', '2']

theorem oldLevelName_ne_nil (level : Char) : oldLevelName level ≠ [] :=
  List.cons_ne_nil _ _

theorem forall_groupLevels {p : Char → Prop} (first : p '1') (second : p '2') :
    ∀ level ∈ groupLevels, p level := by
  simp [groupLevels, first, second]

/-- The text starts with the old name of a level group. -/
def StartsLevel (cs : List Char) : Prop :=
  ∃ level ∈ groupLevels, oldLevelName level <+: cs

theorem StartsLevel.mono {cs ds : List Char} (h : StartsLevel cs) (hds : cs <+: ds) :
    StartsLevel ds := by
  obtain ⟨level, hlevel, hstart⟩ := h
  exact ⟨level, hlevel, hstart.trans hds⟩

theorem renameLevelGroups_level {level : Char} (h : level ∈ groupLevels) (cs : List Char) :
    renameLevelGroups (oldLevelName level ++ cs) = newLevelName level ++ renameLevelGroups cs := by
  have hlevel : level = '1' ∨ level = '2' := by simpa [groupLevels] using h
  change renameLevelGroups ('T' :: 'm' :: 'a' :: 'L' :: level :: cs) = _
  rw [renameLevelGroups, if_pos hlevel]
  simp [newLevelName]

theorem renameLevelGroups_cons {c : Char} {cs : List Char} (h : ¬ StartsLevel (c :: cs)) :
    renameLevelGroups (c :: cs) = c :: renameLevelGroups cs := by
  rw [renameLevelGroups.eq_def]
  split
  · rename_i level rest heq
    obtain ⟨rfl, rfl⟩ := List.cons.inj heq
    have hlevel : ¬ (level = '1' ∨ level = '2') := by
      intro hlevel
      exact h ⟨level, by simpa [groupLevels] using hlevel, rest, rfl⟩
    rw [if_neg hlevel]
  · rename_i heq
    obtain ⟨rfl, rfl⟩ := List.cons.inj heq
    rfl
  · rename_i heq
    cases heq

theorem induction_on_levels {motive : List Char → Prop} (cs : List Char) (nil : motive [])
    (level : ∀ level ∈ groupLevels, ∀ cs, motive cs → motive (oldLevelName level ++ cs))
    (cons : ∀ c cs, ¬ StartsLevel (c :: cs) → motive cs → motive (c :: cs)) : motive cs := by
  induction hn : cs.length using Nat.strong_induction_on generalizing cs with
  | h n ih =>
    cases cs with
    | nil => exact nil
    | cons c cs =>
      rw [List.length_cons] at hn
      by_cases hstarts : StartsLevel (c :: cs)
      · obtain ⟨l, hl, rest, hrest⟩ := hstarts
        have hlength := congrArg List.length hrest
        simp [oldLevelName] at hlength
        rw [← hrest]
        exact level l hl rest (ih _ (by omega) rest rfl)
      · exact cons c cs hstarts (ih _ (by omega) cs rfl)

theorem isApart_newLevelName : ∀ level ∈ groupLevels, ∀ other ∈ groupLevels,
    Text.IsApart (oldLevelName level) (newLevelName other) :=
  forall_groupLevels (forall_groupLevels (by decide) (by decide))
    (forall_groupLevels (by decide) (by decide))

theorem letter_notMem_oldLevelName : ∀ level ∈ groupLevels, 't' ∉ oldLevelName level :=
  forall_groupLevels (by decide) (by decide)

/-- Renaming the level groups at once or one after the other is the same. -/
theorem renameLevelGroups_eq_replaceFrom (cs : List Char) :
    renameLevelGroups cs =
      Text.replaceFrom (oldLevelName '2') (newLevelName '2') 0
        (Text.replaceFrom (oldLevelName '1') (newLevelName '1') 0 cs) := by
  induction cs using induction_on_levels with
  | nil => rfl
  | level l hl cs ih =>
    rw [renameLevelGroups_level hl, ih]
    have hcases : l = '1' ∨ l = '2' := by simpa [groupLevels] using hl
    rcases hcases with rfl | rfl
    · rw [Text.replaceFrom_pattern_append (oldLevelName_ne_nil _),
        Text.replaceFrom_append (isApart_newLevelName '2' (by decide) '1' (by decide))]
    · have hother : Text.IsApart (oldLevelName '1') (oldLevelName '2') := by decide
      rw [Text.replaceFrom_append hother, Text.replaceFrom_pattern_append (oldLevelName_ne_nil _)]
  | cons c cs hstarts ih =>
    have hfirst : ¬ oldLevelName '1' <+: c :: cs := fun h => hstarts ⟨'1', by decide, h⟩
    have hsecond : ¬ oldLevelName '2' <+:
        c :: Text.replaceFrom (oldLevelName '1') (newLevelName '1') 0 cs := by
      intro h
      rw [← Text.replaceFrom_cons hfirst] at h
      exact hstarts ⟨'2', by decide, Text.prefix_of_prefix_replaceFrom rfl (by decide) h⟩
    rw [renameLevelGroups_cons hstarts, ih, Text.replaceFrom_cons hfirst,
      Text.replaceFrom_cons hsecond]

theorem prefix_of_prefix_renameLevelGroups {query cs : List Char} (hquery : 't' ∉ query)
    (h : query <+: renameLevelGroups cs) : query <+: cs := by
  rw [renameLevelGroups_eq_replaceFrom] at h
  have hfirst := Text.prefix_of_prefix_replaceFrom rfl hquery h
  exact Text.prefix_of_prefix_replaceFrom rfl hquery hfirst

/-! ## Texts without old names -/

def IsRenamed (cs : List Char) : Prop :=
  ∀ level ∈ groupLevels, ¬ oldLevelName level <:+: cs

theorem IsRenamed.mono {cs ds : List Char} (h : IsRenamed ds) (hcs : cs <:+: ds) :
    IsRenamed cs :=
  fun level hlevel hold => h level hlevel (hold.trans hcs)

theorem isRenamed_renameLevelGroups (cs : List Char) : IsRenamed (renameLevelGroups cs) := by
  intro level hlevel
  induction cs using induction_on_levels with
  | nil => exact fun h => absurd (List.infix_nil.1 h) (oldLevelName_ne_nil level)
  | level l hl cs ih =>
    rw [renameLevelGroups_level hl]
    exact fun h => ih (Text.infix_of_infix_append (isApart_newLevelName level hlevel l hl) h)
  | cons c cs hstarts ih =>
    rw [renameLevelGroups_cons hstarts]
    intro h
    rcases List.infix_cons_iff.1 h with hstart | hbehind
    · rw [← renameLevelGroups_cons hstarts] at hstart
      have hletter := letter_notMem_oldLevelName level hlevel
      exact hstarts ⟨level, hlevel, prefix_of_prefix_renameLevelGroups hletter hstart⟩
    · exact ih hbehind

theorem renameLevelGroups_of_isRenamed {cs : List Char} (h : IsRenamed cs) :
    renameLevelGroups cs = cs := by
  induction cs with
  | nil => rfl
  | cons c cs ih =>
    have hstarts : ¬ StartsLevel (c :: cs) := by
      rintro ⟨level, hlevel, hstart⟩
      exact h level hlevel hstart.isInfix
    rw [renameLevelGroups_cons hstarts, ih (h.mono (List.suffix_cons c cs).isInfix)]

/-! ## Pieces -/

theorem splitOn_renameLevelGroups (cs : List Char) :
    Text.splitOn (· == ';') (renameLevelGroups cs) =
      (Text.splitOn (· == ';') cs).map renameLevelGroups := by
  induction cs using induction_on_levels with
  | nil => rfl
  | level l hl cs ih =>
    obtain ⟨piece, pieces, hpieces, -⟩ := Text.exists_splitOn_eq_cons (· == ';') cs
    have hmarks : ∀ l ∈ groupLevels, ';' ∉ oldLevelName l ∧ ';' ∉ newLevelName l :=
      forall_groupLevels (by decide) (by decide)
    obtain ⟨hold, hnew⟩ := hmarks l hl
    rw [hpieces, List.map_cons] at ih
    rw [renameLevelGroups_level hl, Text.splitOn_append (Text.beq_eq_false_of_notMem hnew) ih,
      Text.splitOn_append (Text.beq_eq_false_of_notMem hold) hpieces, List.map_cons,
      renameLevelGroups_level hl]
  | cons c cs hstarts ih =>
    obtain ⟨piece, pieces, hpieces, hprefix⟩ := Text.exists_splitOn_eq_cons (· == ';') cs
    have hpiece : ¬ StartsLevel (c :: piece) :=
      fun h => hstarts (h.mono (List.cons_prefix_cons.2 ⟨rfl, hprefix⟩))
    rw [renameLevelGroups_cons hstarts]
    by_cases hc : c = ';'
    · simp [Text.splitOn, hc, ih, renameLevelGroups]
    · simp [Text.splitOn, hc, ih, hpieces, renameLevelGroups_cons hpiece]

theorem all_isBlank_renameLevelGroups (cs : List Char) :
    (renameLevelGroups cs).all Text.isBlank = cs.all Text.isBlank := by
  induction cs using induction_on_levels with
  | nil => rfl
  | level l hl cs ih =>
    rw [renameLevelGroups_level hl]
    rfl
  | cons c cs hstarts ih => rw [renameLevelGroups_cons hstarts, List.all_cons, List.all_cons, ih]

theorem semicolon_notMem_renameLevelGroups {cs : List Char} (h : ';' ∉ cs) :
    ';' ∉ renameLevelGroups cs := by
  have hwhole : Text.splitOn (· == ';') cs = [cs] :=
    Text.splitOn_of_forall (Text.beq_eq_false_of_notMem h)
  have hrenamed : renameLevelGroups cs ∈ Text.splitOn (· == ';') (renameLevelGroups cs) := by
    rw [splitOn_renameLevelGroups, hwhole]
    exact List.mem_singleton_self _
  intro hmem
  have hno := Text.forall_mem_splitOn hrenamed ';' hmem
  simp at hno

/-! ## Names of groups -/

/-- The name of the group that a piece gives. -/
def groupName (piece : String) : String :=
  Text.trim (Text.replace (Text.replace piece "TmaL1" "tma_L1_group") "TmaL2" "tma_L2_group")

theorem toList_groupName (piece : String) :
    (groupName piece).toList = Text.trimChars (renameLevelGroups piece.toList) := by
  simp only [groupName, Text.trim, Text.replace, Text.replaceAll, String.toList_ofList]
  rw [renameLevelGroups_eq_replaceFrom]
  rfl

theorem groupName_eq_empty_iff {piece : String} :
    groupName piece = "" ↔ ∀ c ∈ piece.toList, Text.isBlank c = true := by
  rw [← String.toList_inj, toList_groupName, String.toList_empty, Text.trimChars_eq_nil_iff,
    ← List.all_eq_true, all_isBlank_renameLevelGroups, List.all_eq_true]

theorem isTrimmed_groupName (piece : String) : Text.IsTrimmed (groupName piece).toList := by
  rw [toList_groupName]
  exact Text.isTrimmed_trimChars _

theorem semicolon_notMem_groupName {piece : String} (h : ';' ∉ piece.toList) :
    ';' ∉ (groupName piece).toList := by
  rw [toList_groupName]
  exact fun hmem => semicolon_notMem_renameLevelGroups h (Text.mem_of_mem_trimChars hmem)

theorem groupName_groupName (piece : String) : groupName (groupName piece) = groupName piece := by
  obtain ⟨front, behind, -, -, haround⟩ :=
    Text.exists_blanks_around (renameLevelGroups piece.toList)
  have hinfix : (groupName piece).toList <:+: renameLevelGroups piece.toList := by
    rw [toList_groupName]
    exact ⟨front, behind, by rw [List.append_assoc]; exact haround.symm⟩
  have hrenamed := (isRenamed_renameLevelGroups piece.toList).mono hinfix
  rw [← String.toList_inj, toList_groupName (groupName piece),
    renameLevelGroups_of_isRenamed hrenamed,
    Text.trimChars_of_isTrimmed (isTrimmed_groupName piece)]

/-- The names of the groups that the pieces give, as they come. -/
def groupNames (pieces : List String) : List String :=
  (pieces.map groupName).filter (· != "")

theorem mem_groupNames {pieces : List String} {name : String} :
    name ∈ groupNames pieces ↔ name ≠ "" ∧ ∃ piece ∈ pieces, groupName piece = name := by
  simp [groupNames, and_comm]

theorem groupNames_eq_nil_iff {pieces : List String} :
    groupNames pieces = [] ↔ ∀ piece ∈ pieces, ∀ c ∈ piece.toList, Text.isBlank c = true := by
  simp only [groupNames, List.filter_eq_nil_iff, List.forall_mem_map, ← groupName_eq_empty_iff,
    bne_iff_ne, ne_eq, not_not]

/-! ## Lists of groups -/

/-- The text consists of these pieces with semicolons between them. -/
structure ArePieces (text : String) (pieces : List String) : Prop where
  ne_nil : pieces ≠ []
  apart : ∀ piece ∈ pieces, ';' ∉ piece.toList
  joined : String.intercalate ";" pieces = text

theorem arePieces_split (text : String) : ArePieces text (Text.split text ';') where
  ne_nil := by simpa [Text.split] using Text.splitOn_ne_nil _ _
  apart _ hpiece := Text.notMem_of_mem_split hpiece
  joined := Text.intercalate_split rfl text

variable {text other : String} {pieces others : List String}

theorem ArePieces.normalizeGroups_eq (h : ArePieces text pieces) :
    normalizeGroups text =
      if groupNames pieces = [] then none
      else some (String.intercalate ";" (Text.distinctSorted (groupNames pieces))) := by
  have hpieces : Text.split text ';' = pieces := by
    rw [← h.joined]
    exact Text.split_intercalate rfl h.ne_nil h.apart
  have hnames : groupNames pieces =
      ((Text.splitOn (· == ';') (renameLevelGroups text.toList)).map
        fun cs => String.ofList (Text.trimChars cs)).filter (· != "") := by
    have hname (cs : List Char) : groupName (String.ofList cs) =
        String.ofList (Text.trimChars (renameLevelGroups cs)) := by
      rw [← String.toList_inj, toList_groupName, String.toList_ofList, String.toList_ofList]
    simp [groupNames, ← hpieces, Text.split, splitOn_renameLevelGroups, Function.comp_def, hname]
  simp only [normalizeGroups, ← hnames, List.isEmpty_iff]

theorem ArePieces.normalizeGroups_congr (h : ArePieces text pieces)
    (hother : ArePieces other others)
    (hmem : ∀ name, name ∈ groupNames others ↔ name ∈ groupNames pieces) :
    normalizeGroups other = normalizeGroups text := by
  have hsorted : Text.distinctSorted (groupNames others) =
      Text.distinctSorted (groupNames pieces) := by
    refine eq_of_pairwise_lt Text.pairwise_distinctSorted
      Text.pairwise_distinctSorted fun name => ?_
    rw [Text.mem_distinctSorted, Text.mem_distinctSorted, hmem]
  have hnil : groupNames others = [] ↔ groupNames pieces = [] := by
    simp only [List.eq_nil_iff_forall_not_mem, hmem]
  rw [h.normalizeGroups_eq, hother.normalizeGroups_eq, hsorted]
  simp only [hnil]

/-- The names of the groups that the pieces give, in order. -/
structure IsGroupList (pieces names : List String) : Prop where
  sorted : names.Pairwise (· < ·)
  filled : ∀ name ∈ names, name ≠ ""
  trimmed : ∀ name ∈ names, Text.IsTrimmed name.toList
  mem_iff : ∀ name, name ∈ names ↔ name ≠ "" ∧ ∃ piece ∈ pieces, groupName piece = name

theorem isGroupList_distinctSorted (pieces : List String) :
    IsGroupList pieces (Text.distinctSorted (groupNames pieces)) where
  sorted := Text.pairwise_distinctSorted
  filled name hname := (mem_groupNames.1 (Text.mem_distinctSorted.1 hname)).1
  trimmed name hname := by
    obtain ⟨-, piece, -, rfl⟩ := mem_groupNames.1 (Text.mem_distinctSorted.1 hname)
    exact isTrimmed_groupName piece
  mem_iff name := by rw [Text.mem_distinctSorted, mem_groupNames]

/-- The names in a list give themselves. -/
theorem IsGroupList.mem_groupNames {names : List String} (h : IsGroupList pieces names)
    (name : String) : name ∈ groupNames names ↔ name ∈ groupNames pieces := by
  have hown : ∀ name ∈ names, groupName name = name := by
    intro name hname
    obtain ⟨-, piece, -, rfl⟩ := (h.mem_iff name).1 hname
    exact groupName_groupName piece
  rw [TopdownMetrics.mem_groupNames, TopdownMetrics.mem_groupNames, ← h.mem_iff]
  constructor
  · rintro ⟨-, other, hother, rfl⟩
    rwa [hown other hother]
  · intro hname
    exact ⟨h.filled name hname, name, hname, hown name hname⟩

theorem IsGroupList.semicolon_notMem {names : List String} (h : IsGroupList pieces names)
    (hpieces : ∀ piece ∈ pieces, ';' ∉ piece.toList) : ∀ name ∈ names, ';' ∉ name.toList := by
  intro name hname
  obtain ⟨-, piece, hpiece, rfl⟩ := (h.mem_iff name).1 hname
  exact semicolon_notMem_groupName (hpieces piece hpiece)

/-- There is no list without a piece that is not blank.  Otherwise it consists of the names that the
pieces give, gives itself, and is the same for all texts with the same pieces. -/
theorem normalizeGroups_is_canonical (text : String) :
    ∃ pieces, ArePieces text pieces ∧
      (normalizeGroups text = none ↔
        ∀ piece ∈ pieces, ∀ c ∈ piece.toList, Text.isBlank c = true) ∧
      (∀ groups, normalizeGroups text = some groups →
        normalizeGroups groups = some groups ∧
          ∃ names, ArePieces groups names ∧ IsGroupList pieces names) ∧
      ∀ other others, ArePieces other others → (∀ piece, piece ∈ others ↔ piece ∈ pieces) →
        normalizeGroups other = normalizeGroups text := by
  have hpieces := arePieces_split text
  refine ⟨_, hpieces, ?_, ?_, ?_⟩
  · rw [hpieces.normalizeGroups_eq, ← groupNames_eq_nil_iff]
    simp
  · intro groups hgroups
    rw [hpieces.normalizeGroups_eq] at hgroups
    split at hgroups
    · cases hgroups
    · rename_i hne
      have hlist := isGroupList_distinctSorted (Text.split text ';')
      have hnames : ArePieces groups (Text.distinctSorted (groupNames (Text.split text ';'))) := by
        refine ⟨?_, hlist.semicolon_notMem hpieces.apart, Option.some.inj hgroups⟩
        obtain ⟨name, hname⟩ := List.exists_mem_of_ne_nil _ hne
        exact List.ne_nil_of_mem (Text.mem_distinctSorted.2 hname)
      refine ⟨?_, _, hnames, hlist⟩
      rw [hpieces.normalizeGroups_congr hnames hlist.mem_groupNames, hpieces.normalizeGroups_eq,
        if_neg hne]
      exact hgroups
  · intro other others hother hmem
    refine hpieces.normalizeGroups_congr hother fun name => ?_
    rw [mem_groupNames, mem_groupNames]
    simp only [hmem]

example : normalizeGroups "TopdownL1;TmaL1; PGO;TmaL1" = some "PGO;TopdownL1;tma_L1_group" := by
  decide +kernel

end TopdownMetrics
