import Mathlib.Data.List.Induction
import Mathlib.Data.String.Basic
import TopdownMetrics.Events.Topic

/-!
# The best-ranked topic

Many patterns can match the start of a name.  The rules are visited in the order of the table, and a
rule takes the place of the best one so far if its priority is not lower, so that the last rule of
the highest priority is left.  As the topics of the table are in ascending order, this rule belongs
to the last of the topics that compete with this priority.  That does not mention the order of the
patterns within a topic, on which the choice does not depend.
-/

namespace TopdownMetrics

namespace Text

/-! ## What a pattern matches -/

/-- The characters are a match of the wildcard pattern. -/
inductive Fits : (pattern : List Char) → List Char → Prop
  | nil : Fits [] []
  | run {pattern cs : List Char} (run : List Char) (hline : '\n' ∉ run) (h : Fits pattern cs) :
      Fits ('*' :: pattern) (run ++ cs)
  | single {pattern cs : List Char} {c : Char} (hline : c ≠ '\n') (h : Fits pattern cs) :
      Fits ('?' :: pattern) (c :: cs)
  | literal {pattern cs : List Char} {c : Char} (hc : c ≠ '*' ∧ c ≠ '?') (h : Fits pattern cs) :
      Fits (c :: pattern) (c :: cs)

theorem mem_lineRests_iff {rest cs : List Char} :
    rest ∈ lineRests cs ↔ ∃ run, '\n' ∉ run ∧ run ++ rest = cs := by
  induction cs with
  | nil => simp [lineRests]
  | cons c cs ih =>
    rw [lineRests, List.mem_cons]
    constructor
    · rintro (rfl | hrest)
      · exact ⟨[], List.not_mem_nil, rfl⟩
      · split_ifs at hrest with hc
        · cases hrest
        · obtain ⟨run, hline, rfl⟩ := ih.1 hrest
          exact ⟨c :: run, by simp [hline, Ne.symm hc], rfl⟩
    · rintro ⟨run, hline, hrun⟩
      rcases List.append_eq_cons_iff.1 hrun with ⟨rfl, rfl⟩ | ⟨run, rfl, rfl⟩
      · exact .inl rfl
      · rw [List.mem_cons, not_or] at hline
        rw [if_neg (Ne.symm hline.1)]
        exact .inr (ih.2 ⟨run, hline.2, rfl⟩)

theorem globMatches_literal {p : Char} (hstar : p ≠ '*') (hsingle : p ≠ '?') (pattern : List Char)
    (c : Char) (cs : List Char) :
    globMatches (p :: pattern) (c :: cs) = (p == c && globMatches pattern cs) := by
  rw [globMatches]
  · exact hstar
  · exact hsingle

theorem globMatches_iff {pattern cs : List Char} :
    globMatches pattern cs = true ↔ ∃ front, front <+: cs ∧ Fits pattern front := by
  constructor
  · intro h
    induction pattern generalizing cs with
    | nil => exact ⟨[], List.nil_prefix, .nil⟩
    | cons p pattern ih =>
      by_cases hstar : p = '*'
      · subst hstar
        rw [globMatches, List.any_eq_true] at h
        obtain ⟨rest, hrest, hmatches⟩ := h
        obtain ⟨run, hline, rfl⟩ := mem_lineRests_iff.1 hrest
        obtain ⟨front, hfront, hfits⟩ := ih hmatches
        exact ⟨run ++ front, (List.prefix_append_right_inj run).2 hfront, .run run hline hfits⟩
      · cases cs with
        | nil => simp [globMatches] at h
        | cons c cs =>
          by_cases hsingle : p = '?'
          · subst hsingle
            rw [globMatches, Bool.and_eq_true, bne_iff_ne] at h
            obtain ⟨front, hfront, hfits⟩ := ih h.2
            exact ⟨c :: front, List.cons_prefix_cons.2 ⟨rfl, hfront⟩, .single h.1 hfits⟩
          · rw [globMatches_literal hstar hsingle, Bool.and_eq_true, beq_iff_eq] at h
            obtain ⟨rfl, hmatches⟩ := h
            obtain ⟨front, hfront, hfits⟩ := ih hmatches
            exact ⟨p :: front, List.cons_prefix_cons.2 ⟨rfl, hfront⟩,
              .literal ⟨hstar, hsingle⟩ hfits⟩
  · rintro ⟨front, hfront, hfits⟩
    induction hfits generalizing cs with
    | nil => rw [globMatches]
    | run run hline _ ih =>
      obtain ⟨back, rfl⟩ := hfront
      rw [globMatches, List.any_eq_true]
      exact ⟨_, mem_lineRests_iff.2 ⟨run, hline, (List.append_assoc _ _ _).symm⟩,
        ih (List.prefix_append _ _)⟩
    | single hline _ ih =>
      obtain ⟨back, rfl⟩ := hfront
      rw [List.cons_append, globMatches, ih (List.prefix_append _ _)]
      simpa using hline
    | literal hc _ ih =>
      obtain ⟨back, rfl⟩ := hfront
      rw [List.cons_append, globMatches_literal hc.1 hc.2, ih (List.prefix_append _ _)]
      simp

end Text

namespace Topic

/-! ## The last rule of the highest priority -/

/-- The pattern of the rule matches at the start of the name. -/
def Rule.Applies (r : Rule) (name : String) : Prop :=
  ∃ front, front <+: name.toList ∧ Text.Fits r.pattern.toList front

theorem Rule.applies_iff {r : Rule} {name : String} :
    r.Applies name ↔ Text.startsWithGlob name r.pattern = true :=
  Text.globMatches_iff.symm

/-- Nothing in front of the rule has a higher priority, and everything behind it a lower one. -/
structure IsLastBest (rs : List Rule) (r : Rule) (front behind : List Rule) : Prop where
  divides : rs = front ++ r :: behind
  le_of_front : ∀ other ∈ front, other.priority ≤ r.priority
  lt_of_behind : ∀ other ∈ behind, other.priority < r.priority

variable {rs : List Rule} {r : Rule} {front behind : List Rule} {name : String}

theorem isLastBest_concat (rs : List Rule) (r : Rule)
    (h : ∀ other ∈ rs, other.priority ≤ r.priority) : IsLastBest (rs ++ [r]) r rs [] :=
  ⟨rfl, h, by simp⟩

theorem IsLastBest.le (h : IsLastBest rs r front behind) :
    ∀ other ∈ rs, other.priority ≤ r.priority := by
  intro other hother
  rw [h.divides, List.mem_append, List.mem_cons] at hother
  rcases hother with hfront | rfl | hbehind
  · exact h.le_of_front other hfront
  · exact le_rfl
  · exact (h.lt_of_behind other hbehind).le

/-- One rule more is the last of the highest priority, or the one so far stays it. -/
theorem IsLastBest.concat (h : IsLastBest rs r front behind) (next : Rule) :
    ∃ best front behind, better (some r) next = some best ∧
      IsLastBest (rs ++ [next]) best front behind := by
  by_cases hle : r.priority ≤ next.priority
  · refine ⟨next, rs, [], if_pos hle, isLastBest_concat rs next fun other hother => ?_⟩
    exact (h.le other hother).trans hle
  · refine ⟨r, front, behind ++ [next], if_neg hle, by simp [h.divides], h.le_of_front, ?_⟩
    intro other hother
    rcases List.mem_append.1 hother with hbehind | hnext
    · exact h.lt_of_behind other hbehind
    · rw [List.mem_singleton.1 hnext]
      exact not_le.1 hle

theorem exists_isLastBest_of_ne_nil (hrs : rs ≠ []) :
    ∃ r front behind, rs.foldl better none = some r ∧ IsLastBest rs r front behind := by
  induction rs using List.reverseRecOn with
  | nil => exact absurd rfl hrs
  | append_singleton rs next ih =>
    rw [List.foldl_concat]
    by_cases hnil : rs = []
    · rw [hnil]
      exact ⟨next, [], [], rfl, isLastBest_concat [] next (by simp)⟩
    · obtain ⟨r, front, behind, hfold, hbest⟩ := ih hnil
      rw [hfold]
      exact hbest.concat next

/-! ## The best-ranked topic -/

/-- The topic is that of a rule that applies to the name, and no such rule has a higher priority or
the same priority and a later topic.  If no rule applies, it is the topic of all other events. -/
inductive IsBestTopic (rs : List Rule) (name : String) : String → Prop
  | ranked {r : Rule} (hr : r ∈ rs) (happlies : r.Applies name)
      (hpriority : ∀ other ∈ rs, other.Applies name → other.priority ≤ r.priority)
      (htopic : ∀ other ∈ rs, other.Applies name → other.priority = r.priority →
        ¬ r.topic < other.topic) : IsBestTopic rs name r.topic
  | other (hnone : ∀ r ∈ rs, ¬ r.Applies name) : IsBestTopic rs name other

/-- Which topic is the best depends on the rules, and not on their order. -/
theorem IsBestTopic.unique {rs' : List Rule} {t t' : String} (h : IsBestTopic rs name t)
    (h' : IsBestTopic rs' name t') (hmem : ∀ r, r ∈ rs ↔ r ∈ rs') : t = t' := by
  cases h with
  | @ranked r hr happlies hpriority htopic =>
    cases h' with
    | @ranked r' hr' happlies' hpriority' htopic' =>
      have heq : r'.priority = r.priority :=
        le_antisymm (hpriority r' ((hmem r').2 hr') happlies')
          (hpriority' r ((hmem r).1 hr) happlies)
      exact le_antisymm (not_lt.1 (htopic' r ((hmem r).1 hr) happlies heq.symm))
        (not_lt.1 (htopic r' ((hmem r').2 hr') happlies' heq))
    | other hnone => exact absurd happlies (hnone r ((hmem r).1 hr))
  | other hnone =>
    cases h' with
    | @ranked r' hr' happlies' => exact absurd happlies' (hnone r' ((hmem r').2 hr'))
    | other => rfl

/-- The topic that a list of rules gives to a name. -/
def classify (rs : List Rule) (name : String) : String :=
  (((rs.filter (Text.startsWithGlob name ·.pattern)).foldl better none).map Rule.topic).getD other

theorem ofName_eq (name : String) : ofName name = classify rules name :=
  rfl

theorem mem_applying_iff : r ∈ rs.filter (Text.startsWithGlob name ·.pattern) ↔
    r ∈ rs ∧ r.Applies name := by
  rw [List.mem_filter, Rule.applies_iff]

theorem isBestTopic_classify (hrs : rs.Pairwise (·.topic ≤ ·.topic)) (name : String) :
    IsBestTopic rs name (classify rs name) := by
  unfold classify
  by_cases hnil : rs.filter (Text.startsWithGlob name ·.pattern) = []
  · rw [hnil]
    refine .other fun r hr happlies => ?_
    exact List.not_mem_nil (hnil ▸ mem_applying_iff.2 ⟨hr, happlies⟩)
  · obtain ⟨r, front, behind, hfold, hbest⟩ := exists_isLastBest_of_ne_nil hnil
    have hr : r ∈ rs ∧ r.Applies name := by
      rw [← mem_applying_iff, hbest.divides]
      exact List.mem_append_right front List.mem_cons_self
    rw [hfold]
    refine .ranked hr.1 hr.2
      (fun s hs happlies => hbest.le s (mem_applying_iff.2 ⟨hs, happlies⟩)) ?_
    -- A rule of the same priority stands in front, where no topic is later.
    intro s hs happlies heq
    have hsorted := hrs.filter (Text.startsWithGlob name ·.pattern)
    have hmem := mem_applying_iff.2 ⟨hs, happlies⟩
    rw [hbest.divides] at hsorted hmem
    rcases List.mem_append.1 hmem with hfront | hrest
    · exact not_lt.2 ((List.pairwise_append.1 hsorted).2.2 s hfront r List.mem_cons_self)
    · rcases List.mem_cons.1 hrest with rfl | hbehind
      · exact lt_irrefl _
      · exact absurd heq (hbest.lt_of_behind s hbehind).ne

/-! ## The table -/

/-- The rules of a table of topics, in its order. -/
def rulesOf (table : List (String × List (String × Nat))) : List Rule :=
  table.flatMap fun (topic, ps) => ps.map fun (pattern, priority) => ⟨topic, pattern, priority⟩

/-- The table lists the same topics in the same order, with the patterns of each in any order. -/
def ReordersPatterns (table table' : List (String × List (String × Nat))) : Prop :=
  List.Forall₂ (fun listed listed' => listed.1 = listed'.1 ∧ listed.2.Perm listed'.2) table table'

variable {table table' : List (String × List (String × Nat))}

theorem ReordersPatterns.perm_rulesOf (h : ReordersPatterns table table') :
    (rulesOf table).Perm (rulesOf table') := by
  induction h with
  | nil => exact .refl _
  | @cons listed listed' _ _ hlisted _ ih =>
    obtain ⟨topic, ps⟩ := listed
    obtain ⟨topic', ps'⟩ := listed'
    obtain ⟨rfl, hps⟩ := hlisted
    exact (hps.map _).append ih

theorem ReordersPatterns.map_fst (h : ReordersPatterns table table') :
    table.map (·.1) = table'.map (·.1) := by
  induction h with
  | nil => rfl
  | cons hlisted _ ih => rw [List.map_cons, List.map_cons, hlisted.1, ih]

theorem topic_of_mem_rulesOf (h : r ∈ rulesOf table) : r.topic ∈ table.map (·.1) := by
  obtain ⟨⟨topic, ps⟩, hlisted, hr⟩ := List.mem_flatMap.1 h
  obtain ⟨p, _, rfl⟩ := List.mem_map.1 hr
  exact List.mem_map_of_mem hlisted

theorem pairwise_rulesOf (h : (table.map (·.1)).Pairwise (· < ·)) :
    (rulesOf table).Pairwise (·.topic ≤ ·.topic) := by
  induction table with
  | nil => exact .nil
  | cons listed table ih =>
    obtain ⟨topic, ps⟩ := listed
    obtain ⟨hfirst, hrest⟩ := List.pairwise_cons.1 h
    have htopic : ∀ s ∈ ps.map fun (pattern, priority) => (⟨topic, pattern, priority⟩ : Rule),
        s.topic = topic := by
      intro s hs
      obtain ⟨p, _, rfl⟩ := List.mem_map.1 hs
      rfl
    refine List.pairwise_append.2 ⟨?_, ih hrest, ?_⟩
    · exact List.pairwise_of_forall_mem_list fun s hs s' hs' => by rw [htopic s hs, htopic s' hs']
    · intro s hs s' hs'
      rw [htopic s hs]
      exact (hfirst _ (topic_of_mem_rulesOf hs')).le

theorem pairwise_topics : (patterns.map (·.1)).Pairwise (· < ·) := by
  decide

/-- The topic of a core event is the best-ranked one: that of a pattern that matches at the start of
the name, where no such pattern has a higher priority and none of the same priority belongs to a
later topic.  Nothing changes if the patterns of each topic are listed in another order. -/
theorem topicOf_is_best_ranked (name : String) {unit : Option String}
    (hunit : ∀ u ∈ unit, Text.contains u "cpu" = true) :
    IsBestTopic rules name (topicOf name unit) ∧
      ∀ table, ReordersPatterns patterns table →
        classify (rulesOf table) name = topicOf name unit := by
  have htopic : topicOf name unit = classify (rulesOf patterns) name := by
    cases unit with
    | none => exact ofName_eq name
    | some u => exact (if_pos (hunit u rfl)).trans (ofName_eq name)
  have hbest := isBestTopic_classify (pairwise_rulesOf pairwise_topics) name
  rw [htopic]
  refine ⟨hbest, fun table hreorders => ?_⟩
  have htable : (table.map (·.1)).Pairwise (· < ·) := hreorders.map_fst ▸ pairwise_topics
  exact (isBestTopic_classify (pairwise_rulesOf htable) name).unique hbest
    fun r => (hreorders.perm_rulesOf.mem_iff).symm

/-- The name fits a pattern of priority 3 for caches and one for memory; the later topic wins. -/
theorem topicOf_latencySample :
    (∀ u ∈ some "cpu_core", Text.contains u "cpu" = true) ∧
      topicOf "MEM_TRANS_RETIRED.LOAD_LATENCY_GT_4" (some "cpu_core") = "Memory" ∧
      IsBestTopic rules "MEM_TRANS_RETIRED.LOAD_LATENCY_GT_4" "Memory" := by
  have hunit : ∀ u ∈ some "cpu_core", Text.contains u "cpu" = true := by
    intro u hu
    rw [← Option.some.inj hu]
    decide
  have htopic : topicOf "MEM_TRANS_RETIRED.LOAD_LATENCY_GT_4" (some "cpu_core") = "Memory" := by
    decide +kernel
  exact ⟨hunit, htopic, htopic ▸ (topicOf_is_best_ranked _ hunit).1⟩

end Topic

end TopdownMetrics
