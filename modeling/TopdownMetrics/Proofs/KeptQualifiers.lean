import TopdownMetrics.Proofs.ResolvedRendering
import TopdownMetrics.Rules.Builtin

/-!
# Which qualifiers a step keeps

A symbol without a mark becomes an event that has its term group and the meaning of its modifiers.
All that can be lost is a privilege, because an event has one at most.  A marked symbol is looked
up by its name alone, and what it becomes is no event: its modifiers and its terms are lost.
-/

namespace TopdownMetrics.Formula

/-! ## The meaning of modifiers -/

namespace Qualification

def term? : Qualification → Option String
  | .term text => some text
  | .privilege _ => none

def privilege? : Qualification → Option Privilege
  | .term _ => none
  | .privilege p => some p

theorem mem_filterMap_privilege? {qs : List Qualification} {p : Privilege} :
    p ∈ qs.filterMap privilege? ↔ .privilege p ∈ qs := by
  rw [List.mem_filterMap]
  constructor
  · intro h
    rcases h with ⟨q, hq, hp⟩
    cases q with
    | term text => cases hp
    | privilege p' =>
      rcases Option.some.inj hp with rfl
      exact hq
  · intro h
    exact ⟨_, h, rfl⟩

end Qualification

theorem EventRef.foldl_qualify_eq (qs : List Qualification) (e : EventRef) :
    qs.foldl EventRef.qualify e =
      { e with
        qualifiers := e.qualifiers ++ qs.filterMap Qualification.term?
        privilege := (qs.filterMap Qualification.privilege?).getLast?.or e.privilege } := by
  induction qs generalizing e with
  | nil => simp
  | cons q qs ih =>
    rw [List.foldl_cons, ih]
    cases q with
    | term text => simp [qualify, Qualification.term?, Qualification.privilege?]
    | privilege p =>
      simp [qualify, List.filterMap_cons, Qualification.term?, Qualification.privilege?,
        List.getLast?_cons]

theorem mapM_qualification?_eq_none_iff {modifiers : List String} :
    modifiers.mapM qualification? = none ↔ ∃ m ∈ modifiers, qualification? m = none := by
  induction modifiers with
  | nil => simp
  | cons m modifiers ih =>
    rw [List.mapM_cons]
    cases hm : qualification? m with
    | none => simp [hm]
    | some q =>
      cases hrest : modifiers.mapM qualification? with
      | none => simp [hm, ih.1 hrest]
      | some qs => simpa [hm, hrest] using ih

theorem mem_of_mapM_qualification? {modifiers : List String} {qs : List Qualification}
    (h : modifiers.mapM qualification? = some qs) (q : Qualification) :
    q ∈ qs ↔ ∃ m ∈ modifiers, qualification? m = some q := by
  induction modifiers generalizing qs with
  | nil =>
    cases h
    simp
  | cons m modifiers ih =>
    rw [List.mapM_cons] at h
    rcases Option.bind_eq_some_iff.1 h with ⟨first, hfirst, hrest⟩
    rcases Option.bind_eq_some_iff.1 hrest with ⟨rest, hmore, hcons⟩
    cases hcons
    simp only [List.mem_cons, ih hmore, exists_eq_or_imp, hfirst, Option.some.injEq,
      @eq_comm _ q first]

/-! ## One step -/

namespace Symbol

/-- The tree is an event that has the term group of the symbol, and for each of its modifiers a
qualifier, in order, or a privilege. -/
def KeptBy (symbol : Symbol) (e : Expr) : Prop :=
  ∃ event qs, e = .event event ∧ event.terms = symbol.terms ∧
    symbol.modifiers.mapM qualification? = some qs ∧
    event.qualifiers = qs.filterMap Qualification.term? ∧
    ∀ p, .privilege p ∈ qs ↔ event.privilege = some p

/-- The event of a symbol whose modifiers mean `qs`: of the privileges it has the last. -/
def event (symbol : Symbol) (pmu : String) (qs : List Qualification) : EventRef where
  name := symbol.name
  pmu := pmu
  qualifiers := qs.filterMap Qualification.term?
  privilege := (qs.filterMap Qualification.privilege?).getLast?
  terms := symbol.terms

def MixesPrivileges (symbol : Symbol) : Prop :=
  ∀ p, ∃ m ∈ symbol.modifiers, qualification? m = some (.privilege p)

end Symbol

namespace Scope

variable {s : Scope} {symbol : Symbol} {e : Expr}

theorem step_of_bare (s : Scope) (hbare : symbol.sigil = .bare)
    (hqualified : symbol.isQualified = true) :
    s.step symbol = match symbol.modifiers.mapM qualification? with
      | some qs => .ok (.event (symbol.event s.pmu qs))
      | none => .error (.unresolvedSymbol symbol.render) := by
  unfold step bareReference qualifiedEvent
  rw [hbare]
  dsimp only
  rw [if_pos hqualified]
  cases symbol.modifiers.mapM qualification? with
  | none => rfl
  | some qs => simp [EventRef.foldl_qualify_eq, Symbol.event, Except.map]

/-- A marked symbol is looked up by its name. -/
theorem step_of_marked (s : Scope) (hmarked : symbol.sigil ≠ .bare) :
    s.step symbol = s.step ⟨symbol.sigil, symbol.name, [], none⟩ := by
  unfold step
  cases hsigil : symbol.sigil with
  | bare => exact absurd hsigil hmarked
  | hash => rfl
  | sum => rfl
  | aggregate => rfl

theorem not_keptBy_bracket (h : ∀ a ∈ e.atoms, a.Spelled) : ¬ symbol.KeptBy e.bracket := by
  intro hkept
  rcases hkept with ⟨event, -, hevent, -⟩
  have hatom : Atom.event event ∈ e.atoms := by
    rw [← Expr.atoms_bracket, hevent]
    exact List.mem_singleton_self _
  exact h _ hatom

/-- A marked symbol does not become an event. -/
theorem not_keptBy_of_marked (hmarked : symbol.sigil ≠ .bare) (h : s.step symbol = .ok e) :
    ¬ symbol.KeptBy e := by
  have hother : (∀ event, e ≠ .event event) → ¬ symbol.KeptBy e := by
    intro hne hkept
    rcases hkept with ⟨event, -, hevent, -⟩
    exact hne event hevent
  cases steps_of_step h with
  | kept hkeep => exact hother (by simp)
  | memory hkeep hnone => exact hother (by simp)
  | sum hchildren => exact hother (by simp)
  | aggregate hchildren => exact hother (by simp)
  | replaced hkeep htext hparse =>
    exact not_keptBy_bracket (levelled_and_spelled_of_parse hparse).2
  | node hkeep hnone hname htext hparse =>
    exact not_keptBy_bracket (levelled_and_spelled_of_parseFragment hparse).2
  | aux hkeep hnone hname hnode htext hparse =>
    exact not_keptBy_bracket (levelled_and_spelled_of_parseFragment hparse).2
  | ignored htext hignored hparse => exact absurd rfl hmarked
  | unavailable htext hignored hna => exact absurd rfl hmarked
  | metric htext hignored hna => exact absurd rfl hmarked
  | event hnone => exact absurd rfl hmarked
  | qualified hqualified hqs => exact absurd rfl hmarked

theorem keptBy_event_iff {qs : List Qualification}
    (hqs : symbol.modifiers.mapM qualification? = some qs) (pmu : String) :
    symbol.KeptBy (.event (symbol.event pmu qs)) ↔ ¬ symbol.MixesPrivileges := by
  have hmem (p : Privilege) : (∃ m ∈ symbol.modifiers, qualification? m = some (.privilege p)) ↔
      .privilege p ∈ qs := (mem_of_mapM_qualification? hqs _).symm
  have hlast {p : Privilege} (h : (symbol.event pmu qs).privilege = some p) : .privilege p ∈ qs :=
    Qualification.mem_filterMap_privilege?.1 (List.mem_of_getLast? h)
  unfold Symbol.MixesPrivileges
  simp only [hmem]
  constructor
  · intro hkept hboth
    rcases hkept with ⟨event, qs', hevent, -, hqs', -, hprivilege⟩
    rcases Expr.event.inj hevent with rfl
    rcases Option.some.inj (hqs.symm.trans hqs') with rfl
    have hkernel := (hprivilege .kernel).1 (hboth .kernel)
    rw [(hprivilege .user).1 (hboth .user)] at hkernel
    cases hkernel
  · intro hmixed
    refine ⟨_, qs, rfl, rfl, hqs, rfl, fun p => ⟨fun hp => ?_, hlast⟩⟩
    cases hprivilege : (symbol.event pmu qs).privilege with
    | none =>
      have hnil := List.getLast?_eq_none_iff.1 hprivilege
      rw [← Qualification.mem_filterMap_privilege?, hnil] at hp
      cases hp
    | some last =>
      by_contra hne
      apply hmixed
      have hlastMem := hlast hprivilege
      intro other
      have hother : other = p ∨ other = last := by
        cases other <;> cases p <;> cases last <;> simp_all
      rcases hother with rfl | rfl
      · exact hp
      · exact hlastMem

/-- A step of a symbol with modifiers or terms keeps them all, or fails, only if the symbol has no
mark and does not ask for two privileges.  A modifier without a meaning is an error there, and a
marked symbol becomes what it would be without its modifiers and terms. -/
theorem step_keeps_qualifiers_iff (s : Scope) (symbol : Symbol)
    (hqualified : symbol.isQualified = true) :
    ((∀ e, s.step symbol = .ok e → symbol.KeptBy e) ↔
      (∃ cause, s.step symbol = .error cause) ∨
        symbol.sigil = .bare ∧ ¬ symbol.MixesPrivileges) ∧
    (symbol.sigil = .bare →
      ((∃ cause, s.step symbol = .error cause) ↔ ∃ m ∈ symbol.modifiers, qualification? m = none) ∧
      (∀ cause, s.step symbol = .error cause → cause = .unresolvedSymbol symbol.render) ∧
      ∀ qs, symbol.modifiers.mapM qualification? = some qs →
        s.step symbol = .ok (.event (symbol.event s.pmu qs))) ∧
    (symbol.sigil ≠ .bare → s.step symbol = s.step ⟨symbol.sigil, symbol.name, [], none⟩) := by
  refine ⟨?_, ?_, s.step_of_marked⟩
  · by_cases hbare : symbol.sigil = .bare
    · rw [s.step_of_bare hbare hqualified]
      cases hqs : symbol.modifiers.mapM qualification? with
      | none => simp
      | some qs => simp [hbare, keptBy_event_iff hqs]
    · cases hstep : s.step symbol with
      | error cause => simp
      | ok e => simpa [hbare] using not_keptBy_of_marked hbare hstep
  · intro hbare
    rw [s.step_of_bare hbare hqualified, ← mapM_qualification?_eq_none_iff]
    cases symbol.modifiers.mapM qualification? with
    | none => simp
    | some qs => simp

/-- The parts of a symbol without a mark are all in its event. -/
theorem step_keeps_count_and_privilege :
    let s := Scope.ofArch {} .builtin "SKL" "cpu"
    let symbol : Symbol := ⟨.bare, "INST_RETIRED.ANY", ["c1", "sup"], some "thresh\\=1"⟩
    symbol.isQualified = true ∧ ∀ e, s.step symbol = .ok e → symbol.KeptBy e := by
  intro s symbol
  have hqualified : symbol.isQualified = true := rfl
  have hprivileges : ¬ symbol.MixesPrivileges := by
    intro hmixed
    rcases hmixed .user with ⟨m, hm, hmeaning⟩
    revert m
    decide
  exact ⟨hqualified, (s.step_keeps_qualifiers_iff symbol hqualified).1.2 (.inr ⟨rfl, hprivileges⟩)⟩

/-- A marked symbol loses a modifier that has no meaning. -/
theorem step_discards_modifier :
    let s := Scope.ofArch {} .builtin "SKL" "cpu"
    let symbol : Symbol := ⟨.hash, "SMT_on", ["zz"], none⟩
    symbol.isQualified = true ∧ qualification? "zz" = none ∧
      Formula.parse "#SMT_on:zz" = .ok (.symbol symbol) ∧
      s.step symbol = .ok (.context "SMT_on") ∧ ¬ symbol.KeptBy (.context "SMT_on") := by
  intro s symbol
  have hparse : Formula.parse "#SMT_on:zz" = .ok (.symbol symbol) :=
    parse_eq_ok_of_tokens (by decide +kernel) (by decide) (by decide)
  refine ⟨rfl, by decide, hparse, by cbv, ?_⟩
  intro hkept
  rcases hkept with ⟨event, -, hevent, -⟩
  cases hevent

/-- A symbol without a mark loses the first of two privileges. -/
example : (Scope.ofArch {} .builtin "SKL" "cpu").step ⟨.bare, "A", ["sup", "user"], none⟩ =
    .ok (.event ⟨"A", "cpu", [], some .user, none⟩) := by
  cbv

end Scope

end TopdownMetrics.Formula
