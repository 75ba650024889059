import TopdownMetrics.Metrics.Draft
import TopdownMetrics.Proofs.FirstPlaces

/-!
# First sentences

The short form of a description is its first sentence.  A sentence ends in front of a point with a
blank behind it, unless that is the point at the end of `i.e.`; the search for it keeps what is in
front in reverse.  The long form is the whole description, so that nothing is lost, and there is
none where the short form is all of it.
-/

namespace TopdownMetrics

/-- A point and a blank stand behind the place, and `i.e` does not stand in front. -/
def EndsSentence (before behind : List Char) : Prop :=
  ". ".toList <+: behind ∧ ¬ "i.e".toList <:+ before

instance : DecidableRel EndsSentence :=
  fun _ _ => inferInstanceAs (Decidable (_ ∧ _))

/-- The sentence is the text up to the first place at which one ends, or all of it. -/
inductive IsFirstSentence (text sentence : List Char) : Prop
  | cut (behind : List Char) (h : Text.IsFirstPlace EndsSentence text sentence behind)
  | whole (heq : sentence = text)
      (h : ∀ before behind, before ++ behind = text → ¬ EndsSentence before behind)

variable {text sentence : List Char}

theorem IsFirstSentence.isPrefix (h : IsFirstSentence text sentence) : sentence <+: text := by
  cases h with
  | cut behind h => exact ⟨behind, h.divides⟩
  | whole heq => rw [heq]

/-- No sentence ends inside the first one, so that a point with a blank belongs to `i.e.` there. -/
theorem IsFirstSentence.follows (h : IsFirstSentence text sentence)
    {before behind : List Char} (hdivides : before ++ behind = sentence)
    (hpoint : ". ".toList <+: behind) : "i.e".toList <:+ before := by
  obtain ⟨rest, hrest⟩ := h.isPrefix
  have hplace : before ++ (behind ++ rest) = text := by
    rw [← List.append_assoc, hdivides, hrest]
  have hbehind : ". ".toList <+: behind ++ rest := hpoint.trans (List.prefix_append behind rest)
  by_contra hfront
  cases h with
  | cut _ hfirst =>
    -- The sentence would end before its own end.
    have hle := (hfirst.first before _ hplace ⟨hbehind, hfront⟩).length_le
    have hpos := hpoint.length_le
    rw [← hdivides, List.length_append] at hle
    simp at hpos
    omega
  | whole _ hnone => exact hnone before _ hplace ⟨hbehind, hfront⟩

/-! ## The search -/

theorem endsSentence_cons_iff {front cs : List Char} {c : Char} :
    EndsSentence front (c :: cs) ↔
      c = '.' ∧ cs.head? = some ' ' ∧ ¬ ['e', '.', 'i'].isPrefixOf front.reverse := by
  have hpoint : ". ".toList <+: c :: cs ↔ c = '.' ∧ cs.head? = some ' ' := by
    change ['.', ' '] <+: c :: cs ↔ _
    rw [List.cons_prefix_cons, eq_comm]
    cases cs with
    | nil => simp
    | cons d cs => simp [List.cons_prefix_cons, eq_comm]
  have hfront : "i.e".toList <:+ front ↔ ['e', '.', 'i'].isPrefixOf front.reverse := by
    rw [List.isPrefixOf_iff_prefix, ← List.reverse_prefix]
    rfl
  rw [EndsSentence, hpoint, hfront, and_assoc]

theorem firstSentence?_eq (front cs : List Char) :
    firstSentence? front.reverse cs = (Text.firstPlace? EndsSentence front cs).map Prod.fst := by
  induction cs generalizing front with
  | nil => simp [firstSentence?, Text.firstPlace?, EndsSentence]
  | cons c cs ih =>
    by_cases hends : EndsSentence front (c :: cs)
    · rw [firstSentence?, if_pos (endsSentence_cons_iff.1 hends), List.reverse_reverse,
        Text.firstPlace?_of_start hends]
      rfl
    · rw [firstSentence?, if_neg (mt endsSentence_cons_iff.2 hends),
        Text.firstPlace?_cons_of_not hends, ← ih, List.reverse_concat]

theorem isFirstSentence_of_firstSentence? (h : firstSentence? [] text = some sentence) :
    IsFirstSentence text sentence ∧ sentence ≠ text := by
  have hplace := firstSentence?_eq [] text
  rw [List.reverse_nil, h] at hplace
  obtain ⟨⟨before, behind⟩, hfirst, rfl⟩ := Option.map_eq_some_iff.1 hplace.symm
  have hplace := Text.firstPlace?_eq_some_iff.1 hfirst
  refine ⟨.cut behind hplace, fun heq => ?_⟩
  have hempty : behind = [] := List.append_right_eq_self.1 (hplace.divides.trans heq.symm)
  have hkind := hplace.kind.1
  rw [hempty] at hkind
  exact absurd (List.prefix_nil.1 hkind) (by decide)

theorem isFirstSentence_of_firstSentence?_eq_none (h : firstSentence? [] text = none) :
    IsFirstSentence text text := by
  have hplace := firstSentence?_eq [] text
  rw [List.reverse_nil, h] at hplace
  exact .whole rfl (Text.firstPlace?_eq_none_iff.1 (Option.map_eq_none_iff.1 hplace.symm))

/-! ## The two forms of a description -/

/-- A description stays as it is or is cut behind its first sentence. -/
theorem splitDescription_cases (description : String) :
    splitDescription description = (description, none) ∧
        (1 < description.toList.count '.' →
          IsFirstSentence description.toList description.toList) ∨
      ∃ brief, splitDescription description = (brief, some description) ∧
        1 < description.toList.count '.' ∧
        IsFirstSentence description.toList brief.toList ∧ brief ≠ description := by
  unfold splitDescription
  by_cases hcount : description.toList.count '.' ≤ 1
  · rw [if_pos hcount]
    exact .inl ⟨rfl, fun hmore => absurd hcount (not_le.2 hmore)⟩
  · rw [if_neg hcount]
    cases hsearch : firstSentence? [] description.toList with
    | none => exact .inl ⟨rfl, fun _ => isFirstSentence_of_firstSentence?_eq_none hsearch⟩
    | some sentence =>
      obtain ⟨hfirst, hne⟩ := isFirstSentence_of_firstSentence? hsearch
      refine .inr ⟨String.ofList sentence, rfl, not_le.1 hcount, ?_, ?_⟩
      · rwa [String.toList_ofList]
      · rintro rfl
        exact hne String.toList_ofList.symm

/-- The long form has all of the text.  Of a description with several points, the short form is the
first sentence; any other description is left as it is. -/
theorem splitDescription_cuts_first_sentence (description : String) :
    ∃ brief long, splitDescription description = (brief, long) ∧
      long.getD brief = description ∧
      (long = none ↔ brief = description) ∧
      brief.toList <+: description.toList ∧
      (description.toList.count '.' ≤ 1 → brief = description) ∧
      (1 < description.toList.count '.' →
        IsFirstSentence description.toList brief.toList ∧
          ∀ before behind, before ++ behind = brief.toList → ". ".toList <+: behind →
            "i.e".toList <:+ before) := by
  rcases splitDescription_cases description with
    ⟨hsplit, hwhole⟩ | ⟨brief, hsplit, hcount, hfirst, hne⟩
  · refine ⟨description, none, hsplit, rfl, by simp, List.prefix_rfl, fun _ => rfl, fun hmore => ?_⟩
    exact ⟨hwhole hmore, fun _ _ hdivides => (hwhole hmore).follows hdivides⟩
  · refine ⟨brief, some description, hsplit, rfl, by simp [hne], hfirst.isPrefix, ?_, fun _ => ?_⟩
    · exact fun hfew => absurd hcount (not_lt.2 hfew)
    · exact ⟨hfirst, fun _ _ hdivides => hfirst.follows hdivides⟩

example : splitDescription "Cycles i.e. clocks. More text." =
    ("Cycles i.e. clocks", some "Cycles i.e. clocks. More text.") := by
  decide +kernel

end TopdownMetrics
