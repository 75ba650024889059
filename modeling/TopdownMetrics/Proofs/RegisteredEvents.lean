import Mathlib.Data.Finset.Card
import TopdownMetrics.Proofs.SelfConsistency

/-!
# What a catalog remembers

A catalog keeps its events in one map and the first name for each name in capitals in
another.  Both maps can be told from the list of the events that were registered: each
holds the first event of the list that fits.  A second event of a name fits nowhere,
because the name in capitals was taken together with the name.
-/

namespace TopdownMetrics.EventCatalog

/-- Both maps of the catalog hold the first of the events that fit, and nothing else. -/
structure Remembers (c : EventCatalog) (es : List Event) : Prop where
  events (name : String) : c.events[name]? = es.find? (·.name == name)
  capitals (word : String) :
    c.capitals[word]? = (es.find? (Text.upper ·.name == word)).map (·.name)
  size : c.size = (es.map (·.name)).toFinset.card

variable {c : EventCatalog} {es : List Event} {e : Event}

theorem remembers_empty : ({} : EventCatalog).Remembers [] where
  events _ := Std.TreeMap.getElem?_emptyc
  capitals _ := Std.TreeMap.getElem?_emptyc
  size := Std.TreeMap.size_emptyc

namespace Remembers

theorem contains_iff (h : c.Remembers es) (name : String) :
    c.events.contains name = true ↔ name ∈ es.map (·.name) := by
  rw [Std.TreeMap.contains_eq_isSome_getElem?, h.events, List.find?_isSome]
  simp

/-- An event whose name is taken changes nothing. -/
theorem concat_of_mem (h : c.Remembers es) (hmem : e.name ∈ es.map (·.name)) :
    c.Remembers (es ++ [e]) := by
  obtain ⟨earlier, hearlier, hname⟩ := List.mem_map.1 hmem
  constructor
  · intro name
    rw [h.events, List.find?_append]
    by_cases heq : e.name = name
    · have hfound : (es.find? (·.name == name)).isSome = true :=
        List.find?_isSome.2 ⟨earlier, hearlier, by simp [hname, heq]⟩
      rw [Option.or_of_isSome hfound]
    · simp [heq]
  · intro word
    rw [h.capitals, List.find?_append]
    by_cases heq : Text.upper e.name = word
    · have hfound : (es.find? (Text.upper ·.name == word)).isSome = true :=
        List.find?_isSome.2 ⟨earlier, hearlier, by simp [hname, heq]⟩
      rw [Option.or_of_isSome hfound]
    · simp [heq]
  · rw [h.size, List.map_append, List.toFinset_append]
    have hsubset : [e.name].toFinset ⊆ (es.map (·.name)).toFinset := by
      simpa using hmem
    rw [List.map_singleton, Finset.union_eq_left.2 hsubset]

/-- An event with a new name is found under it, and in capitals unless they are taken. -/
theorem concat_of_notMem (h : c.Remembers es) (hnew : e.name ∉ es.map (·.name)) :
    Remembers ⟨c.events.insert e.name e, c.capitals.insertIfNew (Text.upper e.name) e.name⟩
      (es ++ [e]) := by
  have hfree : c.events.contains e.name = false := by
    rw [Bool.eq_false_iff]
    exact fun htaken => hnew ((h.contains_iff e.name).1 htaken)
  constructor
  · intro name
    rw [Std.TreeMap.getElem?_insert, h.events, List.find?_append]
    by_cases heq : e.name = name
    · have hnone : es.find? (·.name == name) = none := by
        rw [← heq, ← h.events, ← Option.not_isSome_iff_eq_none,
          ← Std.TreeMap.contains_eq_isSome_getElem?, hfree]
        exact Bool.false_ne_true
      simp [heq, hnone]
    · simp [heq]
  · intro word
    rw [Std.TreeMap.getElem?_insertIfNew, h.capitals, List.find?_append]
    by_cases heq : Text.upper e.name = word
    · subst heq
      have htaken : Text.upper e.name ∈ c.capitals ↔
          (es.find? (Text.upper ·.name == Text.upper e.name)).isSome = true := by
        rw [Std.TreeMap.mem_iff_isSome_getElem?, h.capitals, Option.isSome_map]
      cases hfirst : es.find? (Text.upper ·.name == Text.upper e.name) with
      | none => simp [htaken, hfirst]
      | some first => simp [htaken, hfirst]
    · simp [heq]
  · have hsize : (c.events.insert e.name e).size = c.size + 1 := by
      rw [Std.TreeMap.size_insert, if_neg (by simp [hfree])]
      rfl
    show (c.events.insert e.name e).size = _
    rw [hsize, h.size, List.map_append, List.toFinset_append, List.map_singleton,
      List.toFinset_cons, List.toFinset_nil, Finset.union_comm, insert_empty_eq,
      Finset.singleton_union, Finset.card_insert_of_notMem (by simpa using hnew)]

theorem register (h : c.Remembers es) (e : Event) :
    (c.register e).1.Remembers (es ++ [e]) ∧
      ((c.register e).2 = true ↔ e.name ∉ es.map (·.name)) := by
  unfold EventCatalog.register
  by_cases htaken : c.events.contains e.name = true
  · have hmem := (h.contains_iff e.name).1 htaken
    rw [if_pos htaken]
    exact ⟨h.concat_of_mem hmem, by simp [hmem]⟩
  · have hnew : e.name ∉ es.map (·.name) := fun hmem => htaken ((h.contains_iff e.name).2 hmem)
    rw [if_neg htaken]
    exact ⟨h.concat_of_notMem hnew, by simp [hnew]⟩

theorem registerAll (h : c.Remembers es) (later : List Event) :
    (c.registerAll later).Remembers (es ++ later) := by
  induction later generalizing c es with
  | nil => simpa [EventCatalog.registerAll] using h
  | cons e later ih =>
    have hrest := ih (h.register e).1
    rwa [List.append_assoc] at hrest

theorem lookupAnyCase?_eq (h : c.Remembers es) (name : String) :
    c.lookupAnyCase? name = (es.find? (·.name == name)).or
      (es.find? (Text.upper ·.name == Text.upper name)) := by
  unfold lookupAnyCase? lookup?
  rw [h.events, h.capitals]
  congr 1
  cases hfirst : es.find? (Text.upper ·.name == Text.upper name) with
  | none => rfl
  | some first =>
    -- The first event in capitals is also the first of its exact name.
    obtain ⟨hupper, before, after, rfl, hbefore⟩ := List.find?_eq_some_iff_append.1 hfirst
    have hexact : (before ++ first :: after).find? (·.name == first.name) = some first := by
      refine List.find?_eq_some_iff_append.2 ⟨beq_self_eq_true _, before, after, rfl, ?_⟩
      intro other hother
      have hdiffer := hbefore other hother
      simp only [Bool.not_eq_true', beq_eq_false_iff_ne, ne_eq, beq_iff_eq] at hdiffer hupper ⊢
      exact fun hname => hdiffer (hname ▸ hupper)
    rw [Option.map_some, Option.bind_some, h.events, hexact]

theorem contains_iff_upper (h : c.Remembers es) (name : String) :
    c.contains name = true ↔ ∃ e ∈ es, Text.upper e.name = Text.upper name := by
  unfold EventCatalog.contains
  rw [h.lookupAnyCase?_eq, Option.isSome_or, Bool.or_eq_true, List.find?_isSome,
    List.find?_isSome]
  simp only [beq_iff_eq]
  constructor
  · rintro (⟨e, he, rfl⟩ | hcapitals)
    · exact ⟨e, he, rfl⟩
    · exact hcapitals
  · exact .inr

end Remembers

/-- After any registrations the catalog answers from the first of the events that fit: an
event is added exactly if no earlier one has its name, and what is found under a name, in any
case or exactly, is the first event of that name. -/
theorem registerAll_remembers_first (es : List Event) :
    let c := ({} : EventCatalog).registerAll es
    (∀ i : Fin es.length,
      ((({} : EventCatalog).registerAll (es.take i)).register es[i]).2 = true ↔
        es[i].name ∉ (es.take i).map (·.name)) ∧
    (∀ name, c.lookup? name = es.find? (·.name == name)) ∧
    (∀ name, c.lookupAnyCase? name = (es.find? (·.name == name)).or
      (es.find? (Text.upper ·.name == Text.upper name))) ∧
    (∀ name, c.contains name = true ↔ ∃ e ∈ es, Text.upper e.name = Text.upper name) ∧
    c.size = (es.map (·.name)).toFinset.card := by
  have hrun (later : List Event) : (({} : EventCatalog).registerAll later).Remembers later :=
    remembers_empty.registerAll later
  refine ⟨?_, (hrun es).events, (hrun es).lookupAnyCase?_eq, (hrun es).contains_iff_upper,
    (hrun es).size⟩
  intro i
  exact ((hrun (es.take i)).register es[i]).2

end TopdownMetrics.EventCatalog
