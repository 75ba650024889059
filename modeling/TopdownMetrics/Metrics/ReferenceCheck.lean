import TopdownMetrics.Diagnostic
import TopdownMetrics.Events.Catalog
import TopdownMetrics.Formula.References
import TopdownMetrics.Metrics.Draft

/-!
# The check of references between drafts

A draft may refer to others by name, so it is accepted only when every name in its formula
is an event or an accepted draft.  Dropping one draft can orphan others; the drafts are
therefore looked at again until none has to be dropped.  Several drafts may share a name,
which stays known until the last of them is dropped.
-/

namespace TopdownMetrics

open Formula

/-- What a table is extracted against. -/
structure ExtractionContext where
  rules : Rules
  catalog : EventCatalog
  arch : String
  /-- The unit on which the events of the table are counted. -/
  pmu : String

/-- The number of accepted drafts of each name. -/
abbrev NameCounts := Std.TreeMap String Nat

namespace NameCounts

def add (alive : NameCounts) (name : String) : NameCounts :=
  alive.insert name (alive.getD name 0 + 1)

def remove (alive : NameCounts) (name : String) : NameCounts :=
  alive.insert name (alive.getD name 0 - 1)

def ofDrafts (ds : List Draft) : NameCounts :=
  ds.foldl (fun alive d => alive.add d.name) ∅

end NameCounts

/-- A draft, and whether it has been accepted so far. -/
structure Candidate where
  draft : Draft
  accepted : Bool
  deriving DecidableEq, Repr, Inhabited

/-- The drafts that are still accepted, in order. -/
def acceptedDrafts (cs : List Candidate) : List Draft :=
  (cs.filter (·.accepted)).map (·.draft)

/-- Where the check stands after a pass. -/
structure ReferenceCheck where
  alive : NameCounts
  candidates : List Candidate
  /-- What the last pass found. -/
  findings : List Diagnostic

/-- The first name in the formula of a draft that is neither an event nor the name of an
accepted draft. -/
def unknownName? (ctx : ExtractionContext) (alive : NameCounts) (d : Draft) : Option String :=
  (unresolvedWords ctx.rules
    (fun word => ctx.catalog.contains word || decide (0 < alive.getD word 0)) d.expr).head?

/-- One look at each accepted candidate in order.  One that is dropped no longer counts for
those behind it. -/
def sweep (ctx : ExtractionContext) (alive : NameCounts) : List Candidate → ReferenceCheck
  | [] => ⟨alive, [], []⟩
  | c :: cs =>
    if c.accepted then
      match unknownName? ctx alive c.draft with
      | none =>
        let rest := sweep ctx alive cs
        { rest with candidates := c :: rest.candidates }
      | some symbol =>
        let rest := sweep ctx (alive.remove c.draft.name) cs
        { rest with
          candidates := { c with accepted := false } :: rest.candidates
          findings := .warning (.unresolvedSymbol c.draft.name symbol) :: rest.findings }
    else
      let rest := sweep ctx alive cs
      { rest with candidates := c :: rest.candidates }

theorem sweep_countP (ctx : ExtractionContext) (alive : NameCounts) (cs : List Candidate) :
    (sweep ctx alive cs).candidates.countP (·.accepted) + (sweep ctx alive cs).findings.length =
      cs.countP (·.accepted) := by
  induction cs generalizing alive with
  | nil => rfl
  | cons c cs ih =>
    simp only [sweep]
    split
    · rename_i haccepted
      split
      · have hrest := ih alive
        simp only [List.countP_cons, haccepted, if_pos]
        omega
      · have hrest := ih (alive.remove c.draft.name)
        simp only [List.countP_cons, List.length_cons, haccepted, if_pos]
        simp only [Bool.false_eq_true, if_false]
        omega
    · rename_i hdropped
      have hrest := ih alive
      simp only [List.countP_cons, hdropped]
      omega

namespace ReferenceCheck

def start (ds : List Draft) : ReferenceCheck :=
  ⟨.ofDrafts ds, ds.map (⟨·, true⟩), []⟩

def pass (ctx : ExtractionContext) (s : ReferenceCheck) : ReferenceCheck :=
  sweep ctx s.alive s.candidates

def accepted (s : ReferenceCheck) : List Draft :=
  acceptedDrafts s.candidates

/-- Passes until one of them drops nothing. -/
def settle (ctx : ExtractionContext) (s : ReferenceCheck) : List Draft × List Diagnostic :=
  match _h : (s.pass ctx).findings with
  | [] => ((s.pass ctx).accepted, [])
  | finding :: findings =>
    let (accepted, more) := settle ctx (s.pass ctx)
    (accepted, finding :: findings ++ more)
  termination_by s.candidates.countP (·.accepted)
  decreasing_by
    have hcount := sweep_countP ctx s.alive s.candidates
    rw [show (sweep ctx s.alive s.candidates).findings = finding :: findings from _h] at hcount
    simp only [List.length_cons] at hcount
    exact Nat.lt_of_lt_of_eq (Nat.lt_add_of_pos_right (Nat.succ_pos _)) hcount

end ReferenceCheck

/-- The drafts that are left when no further one has to be dropped. -/
def checkReferences (ctx : ExtractionContext) (ds : List Draft) :
    List Draft × List Diagnostic :=
  (ReferenceCheck.start ds).settle ctx

end TopdownMetrics
