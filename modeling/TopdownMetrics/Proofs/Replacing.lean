import Mathlib.Data.List.Infix
import TopdownMetrics.Text.Substring

/-!
# Replacing a pattern

A text is replaced from left to right.  An occurrence of the pattern at the start is replaced apart
from what stands behind it; what no occurrence can start in stays as it is.
-/

namespace TopdownMetrics.Text

theorem replaceFrom_eq_drop (pattern replacement : List Char) (skip : Nat) (cs : List Char) :
    replaceFrom pattern replacement skip cs =
      replaceFrom pattern replacement 0 (cs.drop skip) := by
  induction cs generalizing skip with
  | nil => cases skip <;> rfl
  | cons c cs ih =>
    cases skip with
    | zero => rfl
    | succ skip => exact ih skip

theorem replaceFrom_pattern_append {pattern : List Char} (hne : pattern ≠ [])
    (replacement cs : List Char) :
    replaceFrom pattern replacement 0 (pattern ++ cs) =
      replacement ++ replaceFrom pattern replacement 0 cs := by
  obtain ⟨c, rest, rfl⟩ := List.exists_cons_of_ne_nil hne
  have hstart : (c :: rest).isPrefixOf (c :: (rest ++ cs)) = true :=
    List.isPrefixOf_iff_prefix.2 (List.prefix_append (c :: rest) cs)
  rw [List.cons_append, replaceFrom, if_pos hstart, replaceFrom_eq_drop]
  simp

theorem replaceFrom_cons {pattern cs : List Char} {c : Char} (h : ¬ pattern <+: c :: cs)
    (replacement : List Char) :
    replaceFrom pattern replacement 0 (c :: cs) = c :: replaceFrom pattern replacement 0 cs := by
  rw [replaceFrom, if_neg fun hstart => h (List.isPrefixOf_iff_prefix.1 hstart)]

theorem mem_of_mem_replaceFrom {pattern replacement cs : List Char} {skip : Nat} {c : Char}
    (h : c ∈ replaceFrom pattern replacement skip cs) : c ∈ replacement ∨ c ∈ cs := by
  induction cs generalizing skip with
  | nil =>
    cases skip with
    | zero => simp [replaceFrom] at h
    | succ skip => simp [replaceFrom] at h
  | cons d cs ih =>
    cases skip with
    | zero =>
      unfold replaceFrom at h
      split at h
      · rcases List.mem_append.1 h with h | h
        · exact .inl h
        · exact (ih h).imp_right (List.mem_cons_of_mem _)
      · rcases List.mem_cons.1 h with rfl | h
        · exact .inr List.mem_cons_self
        · exact (ih h).imp_right (List.mem_cons_of_mem _)
    | succ skip => exact (ih h).imp_right (List.mem_cons_of_mem _)

theorem replaceAll_singleton (c : Char) (replacement cs : List Char) :
    replaceAll [c] replacement cs = cs.flatMap fun d => if d = c then replacement else [d] := by
  rw [replaceAll, if_neg (by simp)]
  induction cs with
  | nil => rfl
  | cons d cs ih =>
    rw [List.flatMap_cons, ← ih]
    by_cases hd : d = c
    · simp [replaceFrom, hd]
    · simp [replaceFrom, hd, Ne.symm hd]

/-- No occurrence of the pattern starts in `front`, whatever stands behind it. -/
def IsApart (pattern front : List Char) : Prop :=
  ∀ rest ∈ front.tails, rest ≠ [] → ¬ pattern <+: rest ∧ ¬ rest <+: pattern

instance (pattern front : List Char) : Decidable (IsApart pattern front) :=
  inferInstanceAs (Decidable (∀ rest ∈ front.tails, rest ≠ [] → _))

theorem IsApart.tail {pattern front : List Char} {c : Char} (h : IsApart pattern (c :: front)) :
    IsApart pattern front := by
  intro rest hmem
  exact h rest (by simp [(List.mem_tails rest front).1 hmem])

theorem IsApart.not_prefix {pattern front cs : List Char} {c : Char}
    (h : IsApart pattern (c :: front)) : ¬ pattern <+: c :: (front ++ cs) := by
  intro hpattern
  have hfirst := h (c :: front) (by simp) (List.cons_ne_nil c front)
  rcases List.prefix_or_prefix_of_prefix hpattern (List.prefix_append (c :: front) cs) with
    hinside | hover
  · exact hfirst.1 hinside
  · exact hfirst.2 hover

theorem replaceFrom_append {pattern front : List Char} (h : IsApart pattern front)
    (replacement cs : List Char) :
    replaceFrom pattern replacement 0 (front ++ cs) =
      front ++ replaceFrom pattern replacement 0 cs := by
  induction front with
  | nil => rfl
  | cons c front ih =>
    rw [List.cons_append, replaceFrom_cons h.not_prefix, ih h.tail, List.cons_append]

theorem infix_of_infix_append {pattern front cs : List Char} (h : IsApart pattern front)
    (hoccurs : pattern <:+: front ++ cs) : pattern <:+: cs := by
  induction front with
  | nil => exact hoccurs
  | cons c front ih =>
    rcases List.infix_cons_iff.1 hoccurs with hstart | hbehind
    · exact absurd hstart h.not_prefix
    · exact ih h.tail hbehind

theorem replace_append {front pattern : String} (hne : pattern.toList ≠ [])
    (h : IsApart pattern.toList front.toList) (text replacement : String) :
    replace (front ++ text) pattern replacement = front ++ replace text pattern replacement := by
  simp only [replace, replaceAll, if_neg hne, String.toList_append, replaceFrom_append h]
  rw [String.ofList_append, String.ofList_toList]

theorem replaceFrom_of_notMem {pattern cs : List Char} {c : Char} (hpattern : c ∈ pattern)
    (hcs : c ∉ cs) (replacement : List Char) : replaceFrom pattern replacement 0 cs = cs := by
  induction cs with
  | nil => rfl
  | cons d cs ih =>
    have hnone : ¬ pattern <+: d :: cs := fun hstart => hcs (hstart.subset hpattern)
    rw [replaceFrom_cons hnone, ih (List.not_mem_of_not_mem_cons hcs)]

theorem replace_of_notMem {pattern text : String} {c : Char} (hpattern : c ∈ pattern.toList)
    (htext : c ∉ text.toList) (replacement : String) :
    replace text pattern replacement = text := by
  rw [replace, replaceAll, if_neg (List.ne_nil_of_mem hpattern),
    replaceFrom_of_notMem hpattern htext, String.ofList_toList]

/-- A replacement that starts with another character does not bring about an occurrence. -/
theorem prefix_of_prefix_replaceFrom {pattern replacement query cs : List Char} {c : Char}
    (hc : replacement.head? = some c) (hquery : c ∉ query)
    (h : query <+: replaceFrom pattern replacement 0 cs) : query <+: cs := by
  induction cs generalizing query with
  | nil => exact h
  | cons d cs ih =>
    cases query with
    | nil => exact List.nil_prefix
    | cons e query =>
      rw [replaceFrom] at h
      split at h
      · obtain ⟨rest, rfl⟩ := List.head?_eq_some_iff.1 hc
        rw [List.cons_append, List.cons_prefix_cons] at h
        exact absurd List.mem_cons_self (h.1 ▸ hquery)
      · rw [List.cons_prefix_cons] at h ⊢
        exact ⟨h.1, ih (List.not_mem_of_not_mem_cons hquery) h.2⟩

end TopdownMetrics.Text
