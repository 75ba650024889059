import Mathlib.Data.Fintype.Basic
import Mathlib.Data.List.FinRange
import Mathlib.Data.Set.Image
import Mathlib.Logic.Function.Iterate
import Mathlib.Order.Bounds.Basic
import TopdownMetrics.Metrics.ReferenceCheck

/-!
# The greatest self-consistent set of drafts

The check of references drops drafts one at a time and only looks at counters.  Here a run
of the check is a chain of single drops, each of a draft whose formula names something
that is unknown at that moment.  A set of drafts that refer to events and to each other only
loses no member in such a drop, so it survives the whole run; and the drafts that are left
in the end form such a set themselves.
-/

namespace TopdownMetrics

open Formula

variable {ctx : ExtractionContext}

/-! ## Words of a formula -/

/-- Every word of the formula is a number, a keyword, an event or one of the names. -/
def ExtractionContext.Covers (ctx : ExtractionContext) (names : String → Prop)
    (formula : String) : Prop :=
  ∀ word ∈ wordsOf formula.toList,
    looksNumeric word = true ∨ ctx.rules.isKeyword (String.ofList word) = true ∨
      ctx.catalog.contains (String.ofList word) = true ∨ names (String.ofList word)

theorem ExtractionContext.Covers.mono {names others : String → Prop} {formula : String}
    (h : ctx.Covers names formula) (hnames : ∀ name, names name → others name) :
    ctx.Covers others formula := by
  intro word hword
  have hcover := h word hword
  exact hcover.imp_right (Or.imp_right (Or.imp_right (hnames _)))

theorem unresolvedWords_eq_nil_iff {rules : Rules} {known : String → Bool} {text : String} :
    unresolvedWords rules known text = [] ↔
      ∀ word ∈ wordsOf text.toList,
        looksNumeric word = true ∨ rules.isKeyword (String.ofList word) = true ∨
          known (String.ofList word) = true := by
  unfold unresolvedWords
  rw [List.eq_nil_iff_forall_not_mem]
  simp only [List.mem_eraseDups, List.mem_map, List.mem_filter, Bool.and_eq_true,
    Bool.not_eq_true', not_exists, not_and]
  constructor
  · intro h word hword
    by_contra hopen
    simp only [not_or, Bool.not_eq_true] at hopen
    exact h _ word ⟨hword, ⟨hopen.1, hopen.2.1⟩, hopen.2.2⟩ rfl
  · rintro h _ word ⟨hword, ⟨hnumeric, hkeyword⟩, hknown⟩ _
    have hcover := h word hword
    simp [hnumeric, hkeyword, hknown] at hcover

theorem unknownName?_eq_none_iff {alive : NameCounts} {d : Draft} :
    unknownName? ctx alive d = none ↔ ctx.Covers (fun name => 0 < alive.getD name 0) d.expr := by
  unfold unknownName? ExtractionContext.Covers
  rw [List.head?_eq_none_iff, unresolvedWords_eq_nil_iff]
  simp only [Bool.or_eq_true, decide_eq_true_eq]

/-! ## Counters -/

/-- The counters count the drafts of a list by their names. -/
def Counts (alive : NameCounts) (ds : List Draft) : Prop :=
  ∀ name, alive.getD name 0 = ds.countP (·.name == name)

namespace Counts

variable {alive : NameCounts} {ds before after : List Draft} {d : Draft}

theorem add (h : Counts alive ds) (d : Draft) : Counts (alive.add d.name) (ds ++ [d]) := by
  intro name
  unfold NameCounts.add
  rw [Std.TreeMap.getD_insert, h d.name, h name]
  by_cases hname : d.name = name
  · simp [hname]
  · simp [hname]

theorem remove (h : Counts alive (before ++ d :: after)) :
    Counts (alive.remove d.name) (before ++ after) := by
  intro name
  unfold NameCounts.remove
  rw [Std.TreeMap.getD_insert, h d.name, h name]
  by_cases hname : d.name = name
  · simp [hname]
  · simp [hname]

theorem foldl_add (h : Counts alive before) (ds : List Draft) :
    Counts (ds.foldl (fun alive d => alive.add d.name) alive) (before ++ ds) := by
  induction ds generalizing alive before with
  | nil => simpa using h
  | cons d ds ih =>
    rw [List.append_cons]
    exact ih (h.add d)

theorem ofDrafts (ds : List Draft) : Counts (.ofDrafts ds) ds := by
  have hempty : Counts ∅ [] := by
    intro name
    simp
  exact hempty.foldl_add ds

theorem pos_iff (h : Counts alive ds) {name : String} :
    0 < alive.getD name 0 ↔ ∃ d ∈ ds, d.name = name := by
  rw [h name, List.countP_pos_iff]
  simp only [beq_iff_eq]

theorem unknownName?_eq_none_iff (h : Counts alive ds) {d : Draft} :
    unknownName? ctx alive d = none ↔ ctx.Covers (fun name => ∃ e ∈ ds, e.name = name) d.expr := by
  rw [TopdownMetrics.unknownName?_eq_none_iff]
  simp only [h.pos_iff]

end Counts

/-! ## Runs of single drops -/

/-- Drafts are dropped from a list one after the other.  Each has a formula that the drafts
of its moment do not cover, and a finding of its own. -/
inductive Drops (ctx : ExtractionContext) :
    List Draft → List Diagnostic → List Draft → Prop where
  | none (ds : List Draft) : Drops ctx ds [] ds
  | drop {before after left : List Draft} {d : Draft} {findings : List Diagnostic}
      (symbol : String)
      (hopen : ¬ ctx.Covers (fun name => ∃ e ∈ before ++ d :: after, e.name = name) d.expr)
      (h : Drops ctx (before ++ after) findings left) :
      Drops ctx (before ++ d :: after)
        (.warning (.unresolvedSymbol d.name symbol) :: findings) left

/-- The formulas of the drafts refer to events and to drafts of the set only. -/
def SelfConsistent (ctx : ExtractionContext) (S : Set Draft) : Prop :=
  ∀ d ∈ S, ctx.Covers (fun name => ∃ e ∈ S, e.name = name) d.expr

namespace Drops

variable {ds mid left : List Draft} {findings more : List Diagnostic}

theorem trans (h : Drops ctx ds findings mid) (hmid : Drops ctx mid more left) :
    Drops ctx ds (findings ++ more) left := by
  induction h with
  | none => exact hmid
  | drop symbol hopen _ ih => exact .drop symbol hopen (ih hmid)

theorem sublist (h : Drops ctx ds findings left) : left.Sublist ds := by
  induction h with
  | none ds => exact .refl ds
  | drop symbol _ _ ih => exact ih.trans ((List.sublist_cons_self _ _).append_left _)

/-- Each draft that is dropped leaves a finding of its own name. -/
theorem exists_finding (h : Drops ctx ds findings left) {d : Draft} (hd : d ∈ ds)
    (hleft : d ∉ left) : ∃ symbol, .warning (.unresolvedSymbol d.name symbol) ∈ findings := by
  induction h with
  | none => exact absurd hd hleft
  | @drop before after left dropped findings symbol hopen _ ih =>
    by_cases hsame : d = dropped
    · subst hsame
      exact ⟨symbol, List.mem_cons_self⟩
    · have hrest : d ∈ before ++ after := by simpa [hsame] using hd
      obtain ⟨other, hother⟩ := ih hrest hleft
      exact ⟨other, List.mem_cons_of_mem _ hother⟩

/-- A self-consistent set keeps its members, with all their repetitions. -/
theorem filter_eq (h : Drops ctx ds findings left) {S : Set Draft} [DecidablePred (· ∈ S)]
    (hS : SelfConsistent ctx S) (hsub : ∀ d ∈ S, d ∈ ds) :
    left.filter (· ∈ S) = ds.filter (· ∈ S) := by
  induction h with
  | none => rfl
  | @drop before after left d findings symbol hopen _ ih =>
    -- The set is covered by its own members, all of which are still there.
    have hd : d ∉ S := by
      intro hd
      apply hopen
      apply (hS d hd).mono
      rintro name ⟨e, he, hname⟩
      exact ⟨e, hsub e he, hname⟩
    have hrest : ∀ e ∈ S, e ∈ before ++ after := by
      intro e he
      have hne : e ≠ d := by
        rintro rfl
        exact hd he
      have hmem := hsub e he
      simpa [hne] using hmem
    rw [ih hrest]
    simp [hd]

end Drops

/-! ## Passes -/

@[simp] theorem acceptedDrafts_cons (c : Candidate) (cs : List Candidate) :
    acceptedDrafts (c :: cs) =
      if c.accepted then c.draft :: acceptedDrafts cs else acceptedDrafts cs := by
  by_cases h : c.accepted <;> simp [acceptedDrafts, h]

theorem acceptedDrafts_map_true (ds : List Draft) :
    acceptedDrafts (ds.map (⟨·, true⟩)) = ds := by
  induction ds with
  | nil => rfl
  | cons d ds ih => simp [ih]

/-- A sweep over the candidates behind `before` is a run of drops, and leaves the counters
right. -/
theorem sweep_drops {alive : NameCounts} {before : List Draft} {cs : List Candidate}
    (h : Counts alive (before ++ acceptedDrafts cs)) :
    Drops ctx (before ++ acceptedDrafts cs) (sweep ctx alive cs).findings
        (before ++ acceptedDrafts (sweep ctx alive cs).candidates) ∧
      Counts (sweep ctx alive cs).alive
        (before ++ acceptedDrafts (sweep ctx alive cs).candidates) := by
  -- Candidates that have been looked at and kept move over to `before`.
  induction cs generalizing alive before with
  | nil => exact ⟨.none _, h⟩
  | cons c cs ih =>
    obtain ⟨d, accepted⟩ := c
    cases accepted with
    | false => exact ih h
    | true =>
      have hcons : before ++ acceptedDrafts (⟨d, true⟩ :: cs) =
          before ++ d :: acceptedDrafts cs := by simp
      rw [hcons] at h ⊢
      simp only [sweep, if_true]
      cases hname : unknownName? ctx alive d with
      | none =>
        rw [List.append_cons] at h ⊢
        simpa using ih h
      | some symbol =>
        have hopen : ¬ ctx.Covers
            (fun name => ∃ e ∈ before ++ d :: acceptedDrafts cs, e.name = name) d.expr := by
          rw [← h.unknownName?_eq_none_iff, hname]
          exact Option.some_ne_none symbol
        obtain ⟨hdrops, hcounts⟩ := ih h.remove
        exact ⟨.drop symbol hopen hdrops, hcounts⟩

/-- A sweep without findings has found every accepted draft covered. -/
theorem unknownName?_eq_none_of_sweep {alive : NameCounts} {cs : List Candidate}
    (h : (sweep ctx alive cs).findings = []) :
    (sweep ctx alive cs).candidates = cs ∧
      ∀ d ∈ acceptedDrafts cs, unknownName? ctx alive d = none := by
  induction cs with
  | nil => exact ⟨rfl, by simp [acceptedDrafts]⟩
  | cons c cs ih =>
    obtain ⟨d, accepted⟩ := c
    cases accepted with
    | false =>
      obtain ⟨hcs, hnone⟩ := ih h
      refine ⟨congrArg _ hcs, ?_⟩
      simpa using hnone
    | true =>
      simp only [sweep, if_true] at h ⊢
      cases hname : unknownName? ctx alive d with
      | none =>
        simp only [hname] at h
        obtain ⟨hcs, hnone⟩ := ih h
        refine ⟨congrArg _ hcs, ?_⟩
        simpa [hname] using hnone
      | some symbol => simp [hname] at h

namespace ReferenceCheck

variable {s : ReferenceCheck}

theorem start_accepted (ds : List Draft) : (start ds).accepted = ds :=
  acceptedDrafts_map_true ds

theorem start_counts (ds : List Draft) : Counts (start ds).alive (start ds).accepted := by
  rw [start_accepted]
  exact .ofDrafts ds

theorem pass_drops (ctx : ExtractionContext) (h : Counts s.alive s.accepted) :
    Drops ctx s.accepted (s.pass ctx).findings (s.pass ctx).accepted ∧
      Counts (s.pass ctx).alive (s.pass ctx).accepted :=
  @sweep_drops _ _ [] _ h

theorem selfConsistent_of_pass (h : Counts s.alive s.accepted)
    (hfindings : (s.pass ctx).findings = []) :
    SelfConsistent ctx {d | d ∈ (s.pass ctx).accepted} := by
  obtain ⟨hcs, hnone⟩ := unknownName?_eq_none_of_sweep hfindings
  have haccepted : (s.pass ctx).accepted = s.accepted := congrArg acceptedDrafts hcs
  rw [haccepted]
  intro d hd
  exact h.unknownName?_eq_none_iff.1 (hnone d hd)

theorem settle_drops (ctx : ExtractionContext) (h : Counts s.alive s.accepted) :
    Drops ctx s.accepted (s.settle ctx).2 (s.settle ctx).1 ∧
      SelfConsistent ctx {d | d ∈ (s.settle ctx).1} := by
  fun_induction settle ctx s with
  | case1 s hfindings =>
    obtain ⟨hdrops, -⟩ := pass_drops ctx h
    rw [hfindings] at hdrops
    exact ⟨hdrops, selfConsistent_of_pass h hfindings⟩
  | case2 s finding findings hfindings accepted more hsettle ih =>
    obtain ⟨hdrops, hcounts⟩ := pass_drops ctx h
    rw [hfindings] at hdrops
    rw [hsettle] at ih
    obtain ⟨hrest, hconsistent⟩ := ih hcounts
    exact ⟨hdrops.trans hrest, hconsistent⟩

/-- The check ends: every pass but the last drops a candidate. -/
theorem exists_settle_eq_iterate (ctx : ExtractionContext) (s : ReferenceCheck) :
    ∃ n ≤ s.candidates.countP (·.accepted),
      ((pass ctx)^[n + 1] s).findings = [] ∧
        (s.settle ctx).1 = ((pass ctx)^[n + 1] s).accepted := by
  fun_induction settle ctx s with
  | case1 s hfindings => exact ⟨0, Nat.zero_le _, hfindings, rfl⟩
  | case2 s finding findings hfindings accepted more hsettle ih =>
    obtain ⟨n, hle, hlast, haccepted⟩ := ih
    have hcount : (s.pass ctx).candidates.countP (·.accepted) + (s.pass ctx).findings.length =
        s.candidates.countP (·.accepted) := sweep_countP ctx s.alive s.candidates
    rw [hfindings, List.length_cons] at hcount
    refine ⟨n + 1, by omega, ?_, ?_⟩
    · rw [Function.iterate_succ_apply]
      exact hlast
    · rw [Function.iterate_succ_apply, ← haccepted, hsettle]

end ReferenceCheck

/-! ## The greatest set -/

section

variable {ds : List Draft}

theorem checkReferences_drops (ctx : ExtractionContext) (ds : List Draft) :
    Drops ctx ds (checkReferences ctx ds).2 (checkReferences ctx ds).1 ∧
      SelfConsistent ctx {d | d ∈ (checkReferences ctx ds).1} := by
  have h := ReferenceCheck.settle_drops ctx (ReferenceCheck.start_counts ds)
  rw [ReferenceCheck.start_accepted] at h
  exact h

theorem mem_checkReferences_of_selfConsistent {S : Set Draft} (hS : SelfConsistent ctx S)
    (hsub : ∀ d ∈ S, d ∈ ds) {d : Draft} (hd : d ∈ S) : d ∈ (checkReferences ctx ds).1 := by
  classical
  have hfilter := (checkReferences_drops ctx ds).1.filter_eq hS hsub
  have hmem : d ∈ ds.filter (· ∈ S) := List.mem_filter.2 ⟨hsub d hd, decide_eq_true hd⟩
  rw [← hfilter] at hmem
  exact (List.mem_filter.1 hmem).1

theorem checkReferences_sublist (ctx : ExtractionContext) (ds : List Draft) :
    (checkReferences ctx ds).1.Sublist ds :=
  (checkReferences_drops ctx ds).1.sublist

/-- All copies of a draft share its fate, and what is accepted keeps its order. -/
theorem checkReferences_eq_filter (ctx : ExtractionContext) (ds : List Draft) :
    (checkReferences ctx ds).1 = ds.filter (· ∈ (checkReferences ctx ds).1) := by
  obtain ⟨hdrops, hconsistent⟩ := checkReferences_drops ctx ds
  have hfilter := hdrops.filter_eq hconsistent fun d hd =>
    (checkReferences_sublist ctx ds).mem hd
  have hself : (checkReferences ctx ds).1.filter (· ∈ (checkReferences ctx ds).1) =
      (checkReferences ctx ds).1 := by
    rw [List.filter_eq_self]
    intro d hd
    exact decide_eq_true hd
  exact hself.symm.trans hfilter

theorem mem_checkReferences_of_mem_iff {others : List Draft} (hmem : ∀ d, d ∈ ds ↔ d ∈ others)
    {d : Draft} (hd : d ∈ (checkReferences ctx ds).1) : d ∈ (checkReferences ctx others).1 := by
  apply mem_checkReferences_of_selfConsistent (checkReferences_drops ctx ds).2 _ hd
  intro e he
  exact (hmem e).1 ((checkReferences_sublist ctx ds).mem he)

theorem checkReferences_perm {others : List Draft} (h : ds.Perm others) :
    (checkReferences ctx ds).1.Perm (checkReferences ctx others).1 := by
  have hmem : ∀ d, d ∈ (checkReferences ctx ds).1 ↔ d ∈ (checkReferences ctx others).1 := by
    intro d
    constructor
    · exact mem_checkReferences_of_mem_iff fun _ => h.mem_iff
    · exact mem_checkReferences_of_mem_iff fun _ => h.mem_iff.symm
  calc
    (checkReferences ctx ds).1 = ds.filter (· ∈ (checkReferences ctx ds).1) :=
      checkReferences_eq_filter ctx ds
    _ = ds.filter (· ∈ (checkReferences ctx others).1) := by simp only [hmem]
    List.Perm _ (others.filter (· ∈ (checkReferences ctx others).1)) := h.filter _
    _ = (checkReferences ctx others).1 := (checkReferences_eq_filter ctx others).symm

end

/-! ## More events -/

namespace EventCatalog

variable {c : EventCatalog} {name : String}

theorem contains_iff :
    c.contains name = true ↔ c.events.contains name = true ∨
      ∃ other, c.capitals[Text.upper name]? = some other ∧ c.events.contains other = true := by
  unfold contains lookupAnyCase? lookup?
  simp only [Option.isSome_or, Bool.or_eq_true, Std.TreeMap.contains_eq_isSome_getElem?]
  cases c.capitals[Text.upper name]? <;> simp

theorem contains_register (h : c.contains name = true) (e : Event) :
    (c.register e).1.contains name = true := by
  unfold register
  split
  · exact h
  · have hinsert : ∀ other, c.events.contains other = true →
        (c.events.insert e.name e).contains other = true := by
      intro other hother
      rw [Std.TreeMap.contains_insert, hother, Bool.or_true]
    rw [contains_iff] at h ⊢
    rcases h with hexact | ⟨other, hcapitals, hother⟩
    · exact .inl (hinsert name hexact)
    · refine .inr ⟨other, ?_, hinsert other hother⟩
      -- The name in capitals is taken, so the new event leaves its entry alone.
      have htaken : Text.upper e.name = Text.upper name → Text.upper e.name ∈ c.capitals := by
        intro heq
        rw [heq, ← Std.TreeMap.contains_iff_mem, Std.TreeMap.contains_eq_isSome_getElem?,
          hcapitals]
        rfl
      rw [Std.TreeMap.getElem?_insertIfNew, if_neg, hcapitals]
      rintro ⟨heq, hnew⟩
      exact hnew (htaken (Std.compare_eq_iff_eq.1 heq))

def registerAll (c : EventCatalog) (events : List Event) : EventCatalog :=
  events.foldl (fun c e => (c.register e).1) c

theorem contains_registerAll (h : c.contains name = true) (events : List Event) :
    (c.registerAll events).contains name = true := by
  induction events generalizing c with
  | nil => exact h
  | cons e events ih => exact ih (contains_register h e)

end EventCatalog

theorem SelfConsistent.registerAll {S : Set Draft} (hS : SelfConsistent ctx S)
    (events : List Event) :
    SelfConsistent { ctx with catalog := ctx.catalog.registerAll events } S := by
  intro d hd word hword
  have hcover := hS d hd word hword
  exact hcover.imp_right (Or.imp_right (Or.imp_left
    (EventCatalog.contains_registerAll · events)))

theorem checkReferences_sublist_of_registerAll (ctx : ExtractionContext) (ds : List Draft)
    (events : List Event) :
    (checkReferences ctx ds).1.Sublist
      (checkReferences { ctx with catalog := ctx.catalog.registerAll events } ds).1 := by
  have hmem : ∀ d ∈ (checkReferences ctx ds).1,
      d ∈ (checkReferences { ctx with catalog := ctx.catalog.registerAll events } ds).1 := by
    intro d hd
    have hS := (checkReferences_drops ctx ds).2.registerAll events
    exact mem_checkReferences_of_selfConsistent hS
      (fun e he => (checkReferences_sublist ctx ds).mem he) hd
  rw [checkReferences_eq_filter { ctx with catalog := ctx.catalog.registerAll events }]
  have hself := (checkReferences_sublist ctx ds).filter
    (· ∈ (checkReferences { ctx with catalog := ctx.catalog.registerAll events } ds).1)
  rwa [List.filter_eq_self.2 fun d hd => decide_eq_true (hmem d hd)] at hself

/-! ## The accepted positions -/

def acceptedPositions (ctx : ExtractionContext) (ds : List Draft) : Finset (Fin ds.length) :=
  Finset.univ.filter fun i => ds.get i ∈ (checkReferences ctx ds).1

theorem mem_acceptedPositions {ds : List Draft} {i : Fin ds.length} :
    i ∈ acceptedPositions ctx ds ↔ ds.get i ∈ (checkReferences ctx ds).1 := by
  simp [acceptedPositions]

theorem image_acceptedPositions (ctx : ExtractionContext) (ds : List Draft) :
    ds.get '' ↑(acceptedPositions ctx ds) = {d | d ∈ (checkReferences ctx ds).1} := by
  ext d
  constructor
  · rintro ⟨i, hi, rfl⟩
    exact mem_acceptedPositions.1 hi
  · intro hd
    obtain ⟨i, rfl⟩ := List.get_of_mem ((checkReferences_sublist ctx ds).mem hd)
    exact ⟨i, mem_acceptedPositions.2 hd, rfl⟩

theorem isGreatest_acceptedPositions (ctx : ExtractionContext) (ds : List Draft) :
    IsGreatest {S : Set (Fin ds.length) | SelfConsistent ctx (ds.get '' S)}
      ↑(acceptedPositions ctx ds) := by
  constructor
  · rw [Set.mem_ofPred_eq, image_acceptedPositions]
    exact (checkReferences_drops ctx ds).2
  · intro S hS i hi
    apply mem_acceptedPositions.2
    apply mem_checkReferences_of_selfConsistent hS
    · rintro d ⟨j, -, rfl⟩
      exact List.get_mem ds j
    · exact ⟨i, hi, rfl⟩

theorem checkReferences_eq_map_acceptedPositions (ctx : ExtractionContext) (ds : List Draft) :
    (checkReferences ctx ds).1 =
      ((List.finRange ds.length).filter (· ∈ acceptedPositions ctx ds)).map ds.get := by
  calc
    (checkReferences ctx ds).1 = ds.filter (· ∈ (checkReferences ctx ds).1) :=
      checkReferences_eq_filter ctx ds
    _ = ((List.finRange ds.length).map ds.get).filter (· ∈ (checkReferences ctx ds).1) := by
      rw [List.map_get_finRange]
    _ = _ := by
      rw [List.filter_map]
      simp only [mem_acceptedPositions, Function.comp_def]

/-- The check ends, and accepts the greatest set of candidates whose formulas refer to
events and to members of the set only, in the order of the candidates.  So no set of this
kind holds a candidate that is dropped, the order of the candidates does not matter, and
further events let no candidate be dropped. -/
theorem checkReferences_keeps_greatest (ctx : ExtractionContext) (ds : List Draft) :
    (∃ n ≤ ds.length,
      ((ReferenceCheck.pass ctx)^[n + 1] (.start ds)).findings = [] ∧
        (checkReferences ctx ds).1 = ((ReferenceCheck.pass ctx)^[n + 1] (.start ds)).accepted) ∧
    (∃ kept : Finset (Fin ds.length),
      IsGreatest {S : Set (Fin ds.length) | SelfConsistent ctx (ds.get '' S)} ↑kept ∧
        (checkReferences ctx ds).1 =
          ((List.finRange ds.length).filter (· ∈ kept)).map ds.get ∧
        ∀ i ∉ kept, ∀ S : Set (Fin ds.length), SelfConsistent ctx (ds.get '' S) → i ∉ S) ∧
    (∀ others : List Draft, ds.Perm others →
      (checkReferences ctx ds).1.Perm (checkReferences ctx others).1) ∧
    ∀ events : List Event,
      (checkReferences ctx ds).1.Sublist
        (checkReferences { ctx with catalog := ctx.catalog.registerAll events } ds).1 := by
  refine ⟨?_, ?_, fun others => checkReferences_perm,
    checkReferences_sublist_of_registerAll ctx ds⟩
  · obtain ⟨n, hle, hlast⟩ :=
      ReferenceCheck.exists_settle_eq_iterate ctx (ReferenceCheck.start ds)
    refine ⟨n, hle.trans ?_, hlast⟩
    exact List.countP_le_length.trans_eq (List.length_map _)
  · have hgreatest := isGreatest_acceptedPositions ctx ds
    refine ⟨acceptedPositions ctx ds, hgreatest,
      checkReferences_eq_map_acceptedPositions ctx ds, ?_⟩
    intro i hi S hS hmem
    exact hi (hgreatest.2 hS hmem)

end TopdownMetrics
