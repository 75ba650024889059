import TopdownMetrics.Proofs.EmittedRecords

/-!
# The first draft of each name

An emission compares each record with those that it holds already.  What it does can be told
from the drafts alone: the first draft of a name becomes a record, and each later one is
compared with that first draft, whatever came between the two.
-/

namespace TopdownMetrics

/-- A draft of a list, with the drafts in front of it. -/
structure Arrival where
  earlier : List Draft
  draft : Draft

namespace Arrival

def isFirst (a : Arrival) : Bool :=
  !a.earlier.any (·.name == a.draft.name)

/-- The warning that the first draft of the name has another formula. -/
def conflict? (a : Arrival) : Option Diagnostic :=
  (a.earlier.find? (·.name == a.draft.name)).bind fun first =>
    if first.expr = a.draft.expr then none
    else some (.warning (.duplicateMetric a.draft.name first.expr a.draft.expr))

/-- The drafts of a list in order, with `earlier` in front of them all. -/
def listFrom (earlier : List Draft) : List Draft → List Arrival
  | [] => []
  | d :: ds => ⟨earlier, d⟩ :: listFrom (earlier ++ [d]) ds

end Arrival

namespace Emission

variable {rules : Rules} {pmu : String}

/-- What `push` says of each of a list of drafts. -/
def additions (rules : Rules) (pmu : String) (e : Emission) : List Draft → List Bool
  | [] => []
  | d :: ds =>
    let (e, added) := e.push (d.toMetric rules pmu)
    added :: e.additions rules pmu ds

/-! ## One draft -/

/-- Under each name the emission holds the record of the first of the drafts. -/
def Recalls (rules : Rules) (pmu : String) (e : Emission) (ds : List Draft) : Prop :=
  ∀ name, e.records.find? (·.name == name) =
    (ds.find? (·.name == name)).map (·.toMetric rules pmu)

theorem Recalls.concat_of_none {e e' : Emission} {ds : List Draft} {d : Draft}
    (h : e.Recalls rules pmu ds) (hnone : ds.find? (·.name == d.name) = none)
    (hrecords : e'.records = e.records ++ [d.toMetric rules pmu]) :
    e'.Recalls rules pmu (ds ++ [d]) := by
  intro name
  rw [hrecords, List.find?_append, List.find?_append, h name]
  by_cases hname : d.name = name
  · subst hname
    rw [hnone]
    have hfound : (d.toMetric rules pmu).name = d.name := rfl
    simp [hfound]
  · have hother : (d.toMetric rules pmu).name ≠ name := hname
    simp [hname, hother]

theorem Recalls.concat_of_some {e e' : Emission} {ds : List Draft} {d first : Draft}
    (h : e.Recalls rules pmu ds) (hsome : ds.find? (·.name == d.name) = some first)
    (hrecords : e'.records = e.records) : e'.Recalls rules pmu (ds ++ [d]) := by
  intro name
  rw [hrecords, h name, List.find?_append]
  by_cases hname : d.name = name
  · subst hname
    rw [hsome]
    rfl
  · simp [hname]

/-- A push adds the record of the first draft of a name, warns of a later draft with another
formula than that first one, and does nothing else. -/
theorem push_of_recalls {e : Emission} {ds : List Draft} (h : e.Recalls rules pmu ds)
    (d : Draft) :
    let a : Arrival := ⟨ds, d⟩
    let pushed := e.push (d.toMetric rules pmu)
    pushed.2 = a.isFirst ∧
      pushed.1.records = e.records ++ (if a.isFirst then [d.toMetric rules pmu] else []) ∧
      pushed.1.diagnostics = e.diagnostics ++ a.conflict?.toList ∧
      pushed.1.Recalls rules pmu (ds ++ [d]) := by
  intro a pushed
  have hfind := h d.name
  cases hearlier : ds.find? (·.name == d.name) with
  | none =>
    have hfirst : a.isFirst = true := by
      have hall := List.find?_eq_none.1 hearlier
      simpa [a, Arrival.isFirst] using hall
    have hnew : (d.toMetric rules pmu).name ∉ e.records.map (·.name) := by
      rw [hearlier] at hfind
      intro hmem
      obtain ⟨r, hr, hname⟩ := List.mem_map.1 hmem
      exact List.find?_eq_none.1 hfind r hr (beq_iff_eq.2 hname)
    obtain ⟨hposition, hpush⟩ := push_of_notMem hnew
    have hpushed : pushed = (e.append (d.toMetric rules pmu) hposition, true) := hpush
    rw [hpushed, hfirst]
    refine ⟨rfl, rfl, ?_, h.concat_of_none hearlier rfl⟩
    simp [a, Arrival.conflict?, hearlier]
  | some first =>
    have hfirst : a.isFirst = false := by
      have hmem := List.mem_of_find?_eq_some hearlier
      have hname := List.find?_some hearlier
      have hany : ds.any (·.name == d.name) = true := List.any_eq_true.2 ⟨first, hmem, hname⟩
      simp [a, Arrival.isFirst, hany]
    rw [hearlier] at hfind
    have hmem : first.toMetric rules pmu ∈ e.records := List.mem_of_find?_eq_some hfind
    have hname : (first.toMetric rules pmu).name = d.name := by
      simpa using List.find?_some hfind
    have hpushed : pushed = if first.expr = d.expr then (e, false)
        else ({ e with diagnostics := e.diagnostics ++
          [.warning (.duplicateMetric d.name first.expr d.expr)] }, false) :=
      push_of_mem hmem hname
    rw [hpushed, hfirst]
    by_cases hsame : first.expr = d.expr
    · rw [if_pos hsame]
      refine ⟨rfl, by simp, ?_, h.concat_of_some hearlier rfl⟩
      simp [a, Arrival.conflict?, hearlier, hsame]
    · rw [if_neg hsame]
      refine ⟨rfl, by simp, ?_, h.concat_of_some hearlier rfl⟩
      simp [a, Arrival.conflict?, hearlier, hsame]

/-- Two records of one name would share its position. -/
theorem nodup_names (e : Emission) : (e.records.map (·.name)).Nodup := by
  rw [List.nodup_iff_getElem?_ne_getElem?]
  intro i j hij hj hsame
  have hname : (e.records.map (·.name))[j]? = some (e.records.map (·.name))[j] :=
    List.getElem?_eq_getElem hj
  have hi := (e.position_iff _ i).2 (hsame.trans hname)
  have hj := (e.position_iff _ j).2 hname
  have heq : i = j := Option.some.inj (hi.symm.trans hj)
  omega

/-! ## Lists of drafts -/

/-- What a list of drafts adds to an emission that recalls the drafts in front of it. -/
theorem foldl_push_of_recalls {e : Emission} {earlier : List Draft}
    (h : e.Recalls rules pmu earlier) (ds : List Draft) :
    let emission := ds.foldl (fun e d => (e.push (d.toMetric rules pmu)).1) e
    let arrivals := Arrival.listFrom earlier ds
    e.additions rules pmu ds = arrivals.map (·.isFirst) ∧
      emission.records =
        e.records ++ (arrivals.filter (·.isFirst)).map (·.draft.toMetric rules pmu) ∧
      emission.diagnostics = e.diagnostics ++ arrivals.filterMap (·.conflict?) := by
  induction ds generalizing e earlier with
  | nil => simp [Arrival.listFrom, additions]
  | cons d ds ih =>
    intro emission arrivals
    obtain ⟨hadded, hrecords, hdiagnostics, hrecalls⟩ := push_of_recalls h d
    obtain ⟨hadditions, hlaterRecords, hlaterDiagnostics⟩ := ih hrecalls
    have harrivals : arrivals = ⟨earlier, d⟩ :: Arrival.listFrom (earlier ++ [d]) ds := rfl
    refine ⟨?_, ?_, ?_⟩
    · rw [harrivals, List.map_cons, ← hadditions, ← hadded]
      rfl
    · rw [harrivals]
      refine hlaterRecords.trans ?_
      rw [hrecords, List.append_assoc]
      cases hfirst : Arrival.isFirst ⟨earlier, d⟩ with
      | true => simp [hfirst]
      | false => simp [hfirst]
    · rw [harrivals]
      refine hlaterDiagnostics.trans ?_
      rw [hdiagnostics, List.append_assoc]
      cases hconflict : Arrival.conflict? ⟨earlier, d⟩ with
      | none => simp [hconflict]
      | some warning => simp [hconflict]

/-- The records have different names and are those of the first draft of each name, in order.
The index holds the positions of these names and no others.  `push` accepts these drafts and no
others.  The findings are the warnings about later drafts whose formula differs from that of
the first draft of the name, in order. -/
theorem ofDrafts_keeps_first (rules : Rules) (pmu : String) (ds : List Draft) :
    let arrivals := Arrival.listFrom [] ds
    ((ofDrafts rules pmu ds).records.map (·.name)).Nodup ∧
      (ofDrafts rules pmu ds).records =
        (arrivals.filter (·.isFirst)).map (·.draft.toMetric rules pmu) ∧
      (∀ (name : String) (i : Nat), (ofDrafts rules pmu ds).positions[name]? = some i ↔
        ((arrivals.filter (·.isFirst)).map (·.draft.name))[i]? = some name) ∧
      additions rules pmu ∅ ds = arrivals.map (·.isFirst) ∧
      (ofDrafts rules pmu ds).diagnostics = arrivals.filterMap (·.conflict?) := by
  intro arrivals
  have hstart : (∅ : Emission).Recalls rules pmu [] := by
    intro name
    rfl
  obtain ⟨hadditions, hrecords, hdiagnostics⟩ := foldl_push_of_recalls hstart ds
  have hnames : (ofDrafts rules pmu ds).records.map (·.name) =
      (arrivals.filter (·.isFirst)).map (·.draft.name) := by
    have hfirsts : (ofDrafts rules pmu ds).records =
        (arrivals.filter (·.isFirst)).map (·.draft.toMetric rules pmu) := hrecords
    rw [hfirsts, List.map_map]
    rfl
  refine ⟨nodup_names _, hrecords, ?_, hadditions, hdiagnostics⟩
  intro name i
  rw [← hnames]
  exact (ofDrafts rules pmu ds).position_iff name i

end Emission

end TopdownMetrics
