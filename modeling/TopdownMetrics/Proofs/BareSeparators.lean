import Mathlib.Data.String.Basic
import TopdownMetrics.Proofs.FirstPlaces
import TopdownMetrics.Rules.Document

/-!
# Separators without a backslash

The replacement of a fixup must not bring a separator without a backslash into a formula.  The check
reads a replacement from the left and reports the first such separator, but for one at the very
start, which it passes over.  So the rules that are accepted have no other bare separators in the
replacements of architectures and of shared lists, and they have none at all exactly if none of
these replacements starts with a separator.
-/

namespace TopdownMetrics

namespace Fixup

/-- A separator stands behind the place and no backslash in front. -/
def IsBareAt (before : List Char) : List Char → Prop
  | [] => False
  | c :: _ => isSeparator c = true ∧ before.getLast? ≠ some '\\'

instance : DecidableRel IsBareAt
  | _, [] => inferInstanceAs (Decidable False)
  | _, _ :: _ => inferInstanceAs (Decidable (_ ∧ _))

/-- The same, but not at the start of the text. -/
def IsBareInside (before behind : List Char) : Prop :=
  before ≠ [] ∧ IsBareAt before behind

instance : DecidableRel IsBareInside :=
  fun _ _ => inferInstanceAs (Decidable (_ ∧ _))

/-- The replacement has a bare separator at its start. -/
def OpensBare (f : Fixup) : Prop :=
  IsBareAt [] f.replacement.toList

instance : DecidablePred OpensBare :=
  fun f => inferInstanceAs (Decidable (IsBareAt [] f.replacement.toList))

def HasBare (f : Fixup) : Prop :=
  ∃ before behind, before ++ behind = f.replacement.toList ∧ IsBareAt before behind

/-- The answer of a check that looks for separators at the places of the kind `p`: the first of them
with the number of bytes in front, if there is one. -/
inductive Reports (p : List Char → List Char → Prop) (f : Fixup) : Except RulesError Unit → Prop
  | accepted
      (hnone : ∀ before behind, before ++ behind = f.replacement.toList → ¬ p before behind) :
      Reports p f (.ok ())
  | refused {before : List Char} {c : Char} {cs : List Char}
      (hfirst : Text.IsFirstPlace p f.replacement.toList before (c :: cs)) :
      Reports p f
        (.error (.unescapedSeparator f.pattern c (String.ofList before).utf8ByteSize))

variable {p q : List Char → List Char → Prop} {f : Fixup} {answer other : Except RulesError Unit}

/-! ## Reports -/

namespace Reports

theorem unique (h : f.Reports p answer) (h' : f.Reports p other) : answer = other := by
  cases h with
  | accepted hnone =>
    cases h' with
    | accepted => rfl
    | refused hfirst => exact absurd hfirst.kind (hnone _ _ hfirst.divides)
  | refused hfirst =>
    cases h' with
    | accepted hnone => exact absurd hfirst.kind (hnone _ _ hfirst.divides)
    | refused hfirst' =>
      obtain ⟨rfl, hbehind⟩ := hfirst.unique hfirst'
      rw [(List.cons.inj hbehind).1]

theorem congr (h : f.Reports p answer) (hpq : ∀ before behind,
    before ++ behind = f.replacement.toList → (p before behind ↔ q before behind)) :
    f.Reports q answer := by
  cases h with
  | accepted hnone =>
    exact .accepted fun before behind hdivides =>
      (not_congr (hpq before behind hdivides)).1 (hnone before behind hdivides)
  | refused hfirst => exact .refused (hfirst.congr hpq)

theorem exists_isFirstPlace {cause : RulesError} (h : f.Reports p (.error cause)) :
    ∃ before c cs, Text.IsFirstPlace p f.replacement.toList before (c :: cs) ∧
      cause = .unescapedSeparator f.pattern c (String.ofList before).utf8ByteSize := by
  cases h with
  | refused hfirst => exact ⟨_, _, _, hfirst, rfl⟩

end Reports

/-! ## The check -/

theorem utf8ByteSize_ofList_eq_zero_iff {cs : List Char} :
    (String.ofList cs).utf8ByteSize = 0 ↔ cs = [] := by
  rw [String.utf8ByteSize_eq_zero_iff, String.ofList_eq_empty_iff]

theorem bareSeparatorFrom?_eq (front cs : List Char) :
    bareSeparatorFrom? (String.ofList front).utf8ByteSize front.getLast? cs =
      (Text.firstPlace? IsBareInside front cs).bind fun (before, behind) =>
        behind.head?.map (·, (String.ofList before).utf8ByteSize) := by
  induction cs generalizing front with
  | nil => simp [bareSeparatorFrom?, Text.firstPlace?, IsBareInside, IsBareAt]
  | cons c cs ih =>
    have hbare : isSeparator c = true ∧ 0 < (String.ofList front).utf8ByteSize ∧
        front.getLast? ≠ some '\\' ↔ IsBareInside front (c :: cs) := by
      rw [Nat.pos_iff_ne_zero, Ne, utf8ByteSize_ofList_eq_zero_iff]
      exact and_left_comm
    by_cases hinside : IsBareInside front (c :: cs)
    · rw [bareSeparatorFrom?, if_pos (hbare.2 hinside), Text.firstPlace?_of_start hinside]
      rfl
    · have hsize : (String.ofList front).utf8ByteSize + c.utf8Size =
          (String.ofList (front ++ [c])).utf8ByteSize := by
        simp [String.ofList_append]
      rw [bareSeparatorFrom?, if_neg (mt hbare.1 hinside), Text.firstPlace?_cons_of_not hinside,
        ← ih, hsize, List.getLast?_concat]

theorem bareSeparator?_eq (f : Fixup) :
    f.bareSeparator? = (Text.firstPlace? IsBareInside [] f.replacement.toList).bind
      fun (before, behind) => behind.head?.map (·, (String.ofList before).utf8ByteSize) :=
  bareSeparatorFrom?_eq [] f.replacement.toList

theorem reports_checkFixup (f : Fixup) : f.Reports IsBareInside (Rules.checkFixup f) := by
  unfold Rules.checkFixup
  rw [bareSeparator?_eq]
  cases hplace : Text.firstPlace? IsBareInside [] f.replacement.toList with
  | none => exact .accepted (Text.firstPlace?_eq_none_iff.1 hplace)
  | some place =>
    obtain ⟨before, behind⟩ := place
    have hfirst := Text.firstPlace?_eq_some_iff.1 hplace
    cases behind with
    | nil => exact absurd hfirst.kind.2 id
    | cons c cs => exact .refused hfirst

theorem checkFixup_eq_ok_iff :
    Rules.checkFixup f = .ok () ↔ ∀ before behind, before ++ behind = f.replacement.toList →
      ¬ IsBareInside before behind := by
  have hreport := reports_checkFixup f
  constructor
  · intro hok
    rw [hok] at hreport
    cases hreport with
    | accepted hnone => exact hnone
  · exact fun hnone => hreport.unique (.accepted hnone)

/-- The separator at the start is the only one that the check does not see. -/
theorem reports_isBareAt_iff : f.Reports IsBareAt (Rules.checkFixup f) ↔ ¬ f.OpensBare := by
  have hreport := reports_checkFixup f
  constructor
  · intro hclaimed hopens
    cases hcs : f.replacement.toList with
    | nil =>
      rw [OpensBare, hcs] at hopens
      exact hopens
    | cons c cs =>
      have hstart : Text.IsFirstPlace IsBareAt f.replacement.toList [] (c :: cs) :=
        (Text.isFirstPlace_start_iff hopens).2 ⟨rfl, hcs.symm⟩
      have hanswer := hclaimed.unique (.refused hstart)
      rw [hanswer] at hreport
      obtain ⟨before, d, ds, hfirst, hcause⟩ := hreport.exists_isFirstPlace
      have hsize := (RulesError.unescapedSeparator.inj hcause).2.2
      exact hfirst.kind.1 (utf8ByteSize_ofList_eq_zero_iff.1 hsize.symm)
  · intro hopens
    refine hreport.congr fun before behind hdivides => ⟨fun h => h.2, fun h => ⟨?_, h⟩⟩
    rintro rfl
    rw [List.nil_append] at hdivides
    exact hopens (by rwa [OpensBare, ← hdivides])

theorem hasBare_iff (f : Fixup) :
    f.HasBare ↔ f.OpensBare ∨ Rules.checkFixup f ≠ .ok () := by
  rw [Ne, checkFixup_eq_ok_iff]
  constructor
  · rintro ⟨before, behind, hdivides, hbare⟩
    by_cases hstart : before = []
    · rw [hstart, List.nil_append] at hdivides
      rw [hstart, hdivides] at hbare
      exact .inl hbare
    · exact .inr fun hnone => hnone before behind hdivides ⟨hstart, hbare⟩
  · rintro (hopens | hrefused)
    · exact ⟨[], f.replacement.toList, rfl, hopens⟩
    · simp only [not_forall, not_not] at hrefused
      obtain ⟨before, behind, hdivides, hinside⟩ := hrefused
      exact ⟨before, behind, hdivides, hinside.2⟩

end Fixup

namespace Rules

/-- The fixup is one of an architecture or of a shared list. -/
def Declares (rules : Rules) (f : Fixup) : Prop :=
  (∃ list ∈ rules.fixupSets, f ∈ list.2) ∨ ∃ arch ∈ rules.archs, f ∈ arch.2.fixups

theorem mem_checkedFixups_iff {rules : Rules} {f : Fixup} :
    f ∈ rules.checkedFixups ↔ rules.Declares f := by
  simp [checkedFixups, Declares]

theorem forM_checkFixup_eq_ok_iff (fs : List Fixup) :
    fs.forM checkFixup = .ok () ↔ ∀ f ∈ fs, checkFixup f = .ok () := by
  induction fs with
  | nil => simp [pure, Except.pure]
  | cons f fs ih =>
    rw [List.forM, List.forall_mem_cons, ← ih]
    cases checkFixup f <;> simp [bind, Except.bind]

theorem ofText_eq_ok_iff {text : String} {rules : Rules} :
    ofText text = .ok rules ↔ (Toml.parse? text).bind Document.rules = some rules ∧
      ∀ f, rules.Declares f → checkFixup f = .ok () := by
  simp only [← mem_checkedFixups_iff]
  unfold ofText
  cases (Toml.parse? text).bind Document.rules with
  | none => simp
  | some read =>
    have hchecks := forM_checkFixup_eq_ok_iff read.checkedFixups
    simp only [Option.some.injEq]
    cases hforM : read.checkedFixups.forM checkFixup with
    | error cause =>
      rw [hforM] at hchecks
      simp only [bind, Except.bind, reduceCtorEq, false_iff, not_and] at hchecks ⊢
      rintro rfl
      exact hchecks
    | ok =>
      rw [hforM] at hchecks
      simp only [bind, Except.bind, pure, Except.pure, Except.ok.injEq, true_iff] at hchecks ⊢
      constructor
      · rintro rfl
        exact ⟨rfl, hchecks⟩
      · exact And.left

/-- The check of a replacement reports the first bare separator behind its start.  That is the first
one of all if and only if the replacement does not start with a separator.  A document is accepted
exactly if it can be read and the replacements of its architectures and shared lists have bare
separators at their starts at most; it is free of them exactly if it is accepted and none of these
replacements starts with one. -/
theorem bare_separator_is_reported_iff (f : Fixup) (text : String) (rules : Rules) :
    (f.Reports Fixup.IsBareInside (checkFixup f) ∧
      (f.Reports Fixup.IsBareAt (checkFixup f) ↔ ¬ f.OpensBare)) ∧
    (ofText text = .ok rules ↔ (Toml.parse? text).bind Document.rules = some rules ∧
      ∀ g, rules.Declares g → ∀ before behind, before ++ behind = g.replacement.toList →
        Fixup.IsBareAt before behind → before = []) ∧
    (ofText text = .ok rules ∧ (∀ g, rules.Declares g → ¬ g.OpensBare) ↔
      (Toml.parse? text).bind Document.rules = some rules ∧
        ∀ g, rules.Declares g → ¬ g.HasBare) := by
  refine ⟨⟨f.reports_checkFixup, Fixup.reports_isBareAt_iff⟩, ?_, ?_⟩
  · have hplaces (f : Fixup) : checkFixup f = .ok () ↔
        ∀ before behind, before ++ behind = f.replacement.toList →
          Fixup.IsBareAt before behind → before = [] := by
      simp only [Fixup.checkFixup_eq_ok_iff, Fixup.IsBareInside, ne_eq, not_and', not_not]
    simp only [ofText_eq_ok_iff, hplaces]
  · rw [ofText_eq_ok_iff, and_assoc]
    simp only [Fixup.hasBare_iff, not_or, not_not, forall_and, and_comm]

/-! ### A separator at the start -/

def leadingComma : Fixup :=
  ⟨":c1", ",c1"⟩

def leadingCommaText : String :=
  "keywords = []\ntopdown_prefixes = []\ntma_columns = []\n" ++
    "slots = \x7b family = \"\", token = \"\", term = \"\" \x7d\ncontext = \x7b keep = [] \x7d\n" ++
    "arch.SKL.fixups = [\x7b from = \":c1\", to = \",c1\" \x7d]\n"

def leadingCommaRules : Rules where
  keywords := []
  keywordPrefixes := []
  ignoredMetrics := []
  watchdogMetrics := []
  topdownPrefixes := []
  slots := ⟨"", "", ""⟩
  metricGroups := []
  context := ⟨[], []⟩
  commonFixups := []
  fixupSets := []
  formulaColumns := []
  archs := [("SKL", { ArchRules.undeclared with fixups := [leadingComma] })]
  idleStates := []

/-- The rules are accepted, and their fixup brings a comma without a backslash into a formula. -/
theorem not_reports_leadingComma :
    checkFixup leadingComma = .ok () ∧ leadingComma.HasBare ∧
      ¬ leadingComma.Reports Fixup.IsBareAt (checkFixup leadingComma) ∧
      ofText leadingCommaText = .ok leadingCommaRules ∧ leadingCommaRules.Declares leadingComma ∧
      Fixup.applyAll (leadingCommaRules.fixupsFor "SKL") "CYCLES:c1" = "CYCLES,c1" := by
  have hopens : leadingComma.OpensBare := by decide
  have hcheck : checkFixup leadingComma = .ok () := by rfl
  have hdeclares (f : Fixup) : leadingCommaRules.Declares f ↔ f = leadingComma := by
    simp [Declares, leadingCommaRules]
  refine ⟨hcheck, (Fixup.hasBare_iff _).2 (.inl hopens),
    mt Fixup.reports_isBareAt_iff.1 (not_not_intro hopens), ofText_eq_ok_iff.2 ⟨?_, ?_⟩,
    (hdeclares _).2 rfl, ?_⟩
  · decide +kernel
  · intro f hf
    rw [(hdeclares f).1 hf, hcheck]
  · decide +kernel

end Rules

end TopdownMetrics
