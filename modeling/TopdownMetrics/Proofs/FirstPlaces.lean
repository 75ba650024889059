import Mathlib.Data.List.Infix
import TopdownMetrics.Text.Substring

/-!
# The first place of a text

A scan runs through a text and stops at the first place of the kind that it looks for.  A place
divides the text into what stands in front of it and what stands behind it, and its kind may depend
on both.  The scans of the library differ in what they remember of the front: nothing, its last
character and its length, or all of it in reverse.  Each of them is the scan that is given here,
with what it remembers worked out from the front.
-/

namespace TopdownMetrics.Text

/-- The first place of the kind `p` divides the text into these two parts. -/
structure IsFirstPlace (p : List Char → List Char → Prop) (cs before behind : List Char) :
    Prop where
  divides : before ++ behind = cs
  kind : p before behind
  first : ∀ front back, front ++ back = cs → p front back → before <+: front

/-- The scan of what is behind `front`. -/
def firstPlace? (p : List Char → List Char → Prop) [DecidableRel p] (front : List Char) :
    List Char → Option (List Char × List Char)
  | [] => if p front [] then some (front, []) else none
  | c :: cs => if p front (c :: cs) then some (front, c :: cs) else firstPlace? p (front ++ [c]) cs

variable {p q : List Char → List Char → Prop} {cs before behind : List Char} {c : Char}

namespace IsFirstPlace

theorem unique {front back : List Char} (h : IsFirstPlace p cs before behind)
    (h' : IsFirstPlace p cs front back) : before = front ∧ behind = back := by
  have hle := (h.first front back h'.divides h'.kind).length_le
  have hfront := h'.first before behind h.divides h.kind
  have heq : before = front := (hfront.eq_of_length_le hle).symm
  have hdivides := h.divides.trans h'.divides.symm
  rw [heq, List.append_cancel_left_eq] at hdivides
  exact ⟨heq, hdivides⟩

theorem congr (h : IsFirstPlace p cs before behind)
    (hpq : ∀ front back, front ++ back = cs → (p front back ↔ q front back)) :
    IsFirstPlace q cs before behind where
  divides := h.divides
  kind := (hpq _ _ h.divides).1 h.kind
  first front back hcs hq := h.first front back hcs ((hpq front back hcs).2 hq)

end IsFirstPlace

theorem isFirstPlace_start_iff (h : p [] cs) :
    IsFirstPlace p cs before behind ↔ before = [] ∧ behind = cs := by
  constructor
  · intro hfirst
    have hnil : before = [] := List.prefix_nil.1 (hfirst.first [] cs rfl h)
    have hdivides := hfirst.divides
    rw [hnil, List.nil_append] at hdivides
    exact ⟨hnil, hdivides⟩
  · rintro ⟨rfl, rfl⟩
    exact ⟨rfl, h, fun front _ _ _ => List.nil_prefix⟩

/-- If the text does not start at such a place, then the scan goes on behind its first character. -/
theorem isFirstPlace_cons_iff (h : ¬ p [] (c :: cs)) :
    IsFirstPlace p (c :: cs) before behind ↔
      ∃ rest, before = c :: rest ∧ IsFirstPlace (fun front => p (c :: front)) cs rest behind := by
  constructor
  · intro hfirst
    rcases List.append_eq_cons_iff.1 hfirst.divides with ⟨rfl, rfl⟩ | ⟨rest, rfl, hrest⟩
    · exact absurd hfirst.kind h
    · refine ⟨rest, rfl, hrest.symm, hfirst.kind, fun front back hdivides hkind => ?_⟩
      have hprefix := hfirst.first (c :: front) back (by rw [List.cons_append, hdivides]) hkind
      exact (List.cons_prefix_cons.1 hprefix).2
  · rintro ⟨rest, rfl, hrest⟩
    refine ⟨by rw [List.cons_append, hrest.divides], hrest.kind, ?_⟩
    intro front back hdivides hkind
    rcases List.append_eq_cons_iff.1 hdivides with ⟨rfl, rfl⟩ | ⟨front, rfl, hfront⟩
    · exact absurd hkind h
    · exact List.cons_prefix_cons.2 ⟨rfl, hrest.first front back hfront.symm hkind⟩

section

variable [DecidableRel p] {front : List Char}

theorem firstPlace?_of_start (h : p front cs) : firstPlace? p front cs = some (front, cs) := by
  cases cs <;> exact if_pos h

theorem firstPlace?_cons_of_not (h : ¬ p front (c :: cs)) :
    firstPlace? p front (c :: cs) = firstPlace? p (front ++ [c]) cs :=
  if_neg h

theorem firstPlace?_eq_some_iff_from :
    firstPlace? p front cs = some (before, behind) ↔
      ∃ rest, before = front ++ rest ∧ IsFirstPlace (fun b => p (front ++ b)) cs rest behind := by
  have hfound {front cs : List Char} (hp : p front cs) :
      firstPlace? p front cs = some (before, behind) ↔
        ∃ rest, before = front ++ rest ∧ IsFirstPlace (fun b => p (front ++ b)) cs rest behind := by
    have hstart : p (front ++ []) cs := by rwa [List.append_nil]
    simp [firstPlace?_of_start hp, isFirstPlace_start_iff (p := fun b => p (front ++ b)) hstart,
      eq_comm]
  induction cs generalizing front with
  | nil =>
    by_cases hp : p front []
    · exact hfound hp
    · simp only [firstPlace?, if_neg hp, reduceCtorEq, false_iff]
      rintro ⟨rest, -, hrest⟩
      obtain ⟨rfl, rfl⟩ := List.append_eq_nil_iff.1 hrest.divides
      have hkind := hrest.kind
      rw [List.append_nil] at hkind
      exact hp hkind
  | cons c cs ih =>
    by_cases hp : p front (c :: cs)
    · exact hfound hp
    · have hstart : ¬ p (front ++ []) (c :: cs) := by rwa [List.append_nil]
      simp only [firstPlace?_cons_of_not hp, ih, List.append_assoc, List.singleton_append,
        isFirstPlace_cons_iff (p := fun b => p (front ++ b)) hstart]
      constructor
      · rintro ⟨rest, rfl, hrest⟩
        exact ⟨c :: rest, rfl, rest, rfl, hrest⟩
      · rintro ⟨_, rfl, rest, rfl, hrest⟩
        exact ⟨rest, rfl, hrest⟩

theorem firstPlace?_eq_some_iff :
    firstPlace? p [] cs = some (before, behind) ↔ IsFirstPlace p cs before behind := by
  simp [firstPlace?_eq_some_iff_from]

theorem firstPlace?_eq_none_iff_from :
    firstPlace? p front cs = none ↔ ∀ before behind, before ++ behind = cs →
      ¬ p (front ++ before) behind := by
  induction cs generalizing front with
  | nil =>
    by_cases hp : p front []
    · simp [firstPlace?, hp]
    · simp [firstPlace?, hp]
  | cons c cs ih =>
    by_cases hp : p front (c :: cs)
    · rw [firstPlace?_of_start hp]
      simp only [reduceCtorEq, false_iff, not_forall, not_not]
      exact ⟨[], c :: cs, rfl, by rwa [List.append_nil]⟩
    · rw [firstPlace?_cons_of_not hp, ih]
      constructor
      · intro hnone before behind hdivides
        rcases List.append_eq_cons_iff.1 hdivides with ⟨rfl, rfl⟩ | ⟨rest, rfl, hrest⟩
        · rwa [List.append_nil]
        · have hbehind := hnone rest behind hrest.symm
          rwa [List.append_assoc] at hbehind
      · intro hnone before behind hdivides
        rw [List.append_assoc]
        exact hnone (c :: before) behind (by rw [List.cons_append, hdivides])

theorem firstPlace?_eq_none_iff :
    firstPlace? p [] cs = none ↔ ∀ before behind, before ++ behind = cs → ¬ p before behind := by
  simp [firstPlace?_eq_none_iff_from]

end

/-! ## The first occurrence of a pattern -/

/-- The pattern stands behind the place, whatever is in front. -/
def Occurs (pattern _front behind : List Char) : Prop :=
  pattern <+: behind

instance (pattern : List Char) : DecidableRel (Occurs pattern) :=
  fun _ behind => inferInstanceAs (Decidable (pattern <+: behind))

theorem firstPlace?_occurs (pattern front cs : List Char) :
    firstPlace? (Occurs pattern) front cs =
      (cut? pattern cs).map fun (before, behind) => (front ++ before, pattern ++ behind) := by
  induction cs generalizing front with
  | nil =>
    cases pattern with
    | nil => simp [firstPlace?, cut?, Occurs]
    | cons c pattern => simp [firstPlace?, cut?, Occurs]
  | cons c cs ih =>
    by_cases hoccurs : Occurs pattern front (c :: cs)
    · have hcut : pattern ++ (c :: cs).drop pattern.length = c :: cs :=
        (List.prefix_append_drop hoccurs).symm
      rw [firstPlace?_of_start hoccurs, cut?, if_pos (List.isPrefixOf_iff_prefix.2 hoccurs)]
      simp [hcut]
    · rw [firstPlace?_cons_of_not hoccurs, ih, cut?,
        if_neg (mt List.isPrefixOf_iff_prefix.1 hoccurs), Option.map_map]
      simp [Function.comp_def]

theorem cut?_eq_some_iff {pattern : List Char} :
    cut? pattern cs = some (before, behind) ↔
      IsFirstPlace (Occurs pattern) cs before (pattern ++ behind) := by
  rw [← firstPlace?_eq_some_iff, firstPlace?_occurs]
  simp

theorem cut?_eq_none_iff {pattern : List Char} : cut? pattern cs = none ↔ ¬ pattern <:+: cs := by
  have hnone : firstPlace? (Occurs pattern) [] cs = none ↔ _ := firstPlace?_eq_none_iff
  rw [firstPlace?_occurs, Option.map_eq_none_iff] at hnone
  rw [hnone]
  constructor
  · rintro hno ⟨before, behind, hcs⟩
    exact hno before (pattern ++ behind) (by rw [← hcs, List.append_assoc])
      (List.prefix_append pattern behind)
  · rintro hno before _ hcs ⟨behind, rfl⟩
    exact hno ⟨before, behind, by rw [List.append_assoc, hcs]⟩

end TopdownMetrics.Text
