import TopdownMetrics.Proofs.IdentifierPatterns
import TopdownMetrics.Proofs.StagedGeneration

/-!
# Common prefixes of identifiers

What identifiers have in common is measured in bytes, but they are cut between characters.
Shared bytes that end between two characters of one identifier end so in all of them; the
characters in front are then the longest common prefix, and each identifier is cut behind it.
The shared bytes end inside a character exactly if the identifiers part there: behind a common
prefix all go on with the same byte, but not with the same character.
-/

namespace TopdownMetrics

namespace Pattern

open Text

variable {first second text : String} {rest texts : List String} {start other : List Char}

/-! ## Shared bytes -/

theorem bytes_eq (text : String) : bytes text = encode text.toList :=
  rfl

theorem length_bytes (text : String) : (bytes text).length = text.utf8ByteSize := by
  rw [bytes_eq, length_encode, ← String.utf8ByteSize_ofList, String.ofList_toList]

/-- The bytes that all texts start with. -/
def sharedBytes (first : String) (rest : List String) : List UInt8 :=
  (bytes first).take (commonLength first rest)

theorem length_sharedBytes : (sharedBytes first rest).length = commonLength first rest := by
  rw [sharedBytes, List.length_take, length_bytes]
  exact Nat.min_eq_left (le_commonLength_iff.1 le_rfl).1

theorem prefix_sharedBytes_iff {bs : List UInt8} :
    bs <+: sharedBytes first rest ↔ ∀ text ∈ first :: rest, bs <+: bytes text := by
  rw [List.forall_mem_cons]
  constructor
  · intro hbs
    have hshared := (le_commonLength_iff.1 (le_refl (commonLength first rest))).2
    exact ⟨hbs.trans (List.take_prefix _ _),
      fun text hmem => hbs.trans (le_sharedLength_iff.1 (hshared text hmem)).2⟩
  · rintro ⟨hfirst, hrest⟩
    have htake : (bytes first).take bs.length = bs := (List.prefix_iff_eq_take.1 hfirst).symm
    have hle : bs.length ≤ commonLength first rest := by
      rw [le_commonLength_iff, ← length_bytes]
      refine ⟨hfirst.length_le, fun text hmem => le_sharedLength_iff.2 ⟨hfirst.length_le, ?_⟩⟩
      rw [htake]
      exact hrest text hmem
    rw [← htake]
    exact List.take_prefix_take_left hle

theorem commonLength_le_shortestLength : commonLength first rest ≤ shortestLength first rest := by
  rw [le_shortestLength_iff]
  intro text hmem
  rw [← length_bytes, ← length_sharedBytes]
  exact (prefix_sharedBytes_iff.1 List.prefix_rfl text hmem).length_le

/-! ## The common prefix -/

/-- What all texts start with, if it ends between two characters. -/
def commonPrefix? (first : String) (rest : List String) : Option (List Char) :=
  takeBytes? (commonLength first rest) first.toList

theorem commonPrefix?_eq_some_iff :
    commonPrefix? first rest = some start ↔ encode start = sharedBytes first rest := by
  rw [commonPrefix?, takeBytes?_eq_some_iff, ← length_encode, sharedBytes, bytes_eq]
  constructor
  · rintro ⟨hfirst, hlength⟩
    rw [← hlength]
    exact List.prefix_iff_eq_take.1 (encode_prefix_iff.2 hfirst)
  · intro hshared
    refine ⟨encode_prefix_iff.1 ?_, ?_⟩
    · rw [hshared]
      exact List.take_prefix _ _
    · rw [hshared]
      exact length_sharedBytes

/-- The common prefix is the longest one. -/
theorem prefix_commonPrefix_iff (h : commonPrefix? first rest = some start) :
    other <+: start ↔ ∀ text ∈ first :: rest, other <+: text.toList := by
  rw [← encode_prefix_iff, commonPrefix?_eq_some_iff.1 h, prefix_sharedBytes_iff]
  simp only [bytes_eq, encode_prefix_iff]

example : commonPrefix? "6-è1" ["6-è2", "6-è"] = some ['6', '-', 'è'] := by decide +kernel

/-- All texts are cut where the first one is. -/
theorem dropBytes?_of_commonPrefix (h : commonPrefix? first rest = some start)
    (hmem : text ∈ first :: rest) :
    ∃ ending, text.toList = start ++ ending ∧
      dropBytes? (commonLength first rest) text.toList = some ending := by
  obtain ⟨ending, hending⟩ := (prefix_commonPrefix_iff h).1 List.prefix_rfl text hmem
  refine ⟨ending, hending.symm, ?_⟩
  rw [← hending, ← (takeBytes?_eq_some_iff.1 h).2, dropBytes?_append]

theorem commonPrefix?_single (text : String) : commonPrefix? text [] = some text.toList := by
  rw [commonPrefix?_eq_some_iff, sharedBytes, List.take_of_length_le, bytes_eq]
  exact (length_bytes text).le

/-! ## Texts that part inside a character -/

/-- Behind a common prefix all texts go on with the same byte, but not with the same
character. -/
def PartInside (texts : List String) : Prop :=
  ∃ start lead, (∀ text ∈ texts, encode start ++ [lead] <+: bytes text) ∧
    ¬ ∃ c, ∀ text ∈ texts, start ++ [c] <+: text.toList

theorem partInside_of_commonPrefix (h : commonPrefix? first rest = none) :
    PartInside (first :: rest) := by
  have hshared : sharedBytes first rest <+: encode first.toList :=
    prefix_sharedBytes_iff.1 List.prefix_rfl first List.mem_cons_self
  obtain ⟨start, hstart⟩ | ⟨start, c, lead, hfirst, hlead, hc⟩ := prefix_encode_cases hshared
  · rw [commonPrefix?_eq_some_iff.2 hstart] at h
    cases h
  · refine ⟨start, lead, prefix_sharedBytes_iff.1 hlead, ?_⟩
    rintro ⟨d, hd⟩
    -- A character that all texts have behind the start is the one of the first.
    have hsame : start ++ [d] = start ++ [c] :=
      (List.prefix_of_prefix_length_le (hd first List.mem_cons_self) hfirst
        (by simp)).eq_of_length (by simp)
    rw [hsame] at hd
    exact hc (prefix_sharedBytes_iff.2 fun text hmem => encode_prefix_iff.2 (hd text hmem))

theorem PartInside.commonPrefix?_eq_none (h : PartInside (first :: rest)) :
    commonPrefix? first rest = none := by
  obtain ⟨start, lead, hlead, hparts⟩ := h
  rw [Option.eq_none_iff_forall_ne_some]
  intro whole hwhole
  have hlonger : encode start ++ [lead] <+: encode whole := by
    rw [commonPrefix?_eq_some_iff.1 hwhole]
    exact prefix_sharedBytes_iff.2 hlead
  obtain ⟨behind, rfl⟩ : start <+: whole :=
    encode_prefix_iff.1 ((List.prefix_append _ _).trans hlonger)
  cases behind with
  | nil =>
    have hle := hlonger.length_le
    simp at hle
  | cons c behind =>
    refine hparts ⟨c, (prefix_commonPrefix_iff hwhole).1 ⟨behind, ?_⟩⟩
    rw [List.append_assoc, List.singleton_append]

theorem commonPrefix?_eq_none_iff :
    commonPrefix? first rest = none ↔ PartInside (first :: rest) :=
  ⟨partInside_of_commonPrefix, PartInside.commonPrefix?_eq_none⟩

/-! ## Patterns -/

theorem mapM_dropBytes?_of_commonPrefix (h : commonPrefix? first rest = some start) :
    (first :: rest).mapM (fun text =>
        (dropBytes? (commonLength first rest) text.toList).map String.ofList) =
      some ((first :: rest).map fun text => String.ofList (text.toList.drop start.length)) := by
  refine mapM_eq_some_map fun text hmem => ?_
  obtain ⟨ending, htext, hdrop⟩ := dropBytes?_of_commonPrefix h hmem
  rw [hdrop, htext, List.drop_left, Option.map_some]

theorem exists_ofList?_of_commonPrefix (h : commonPrefix? first (second :: rest) = some start) :
    ∃ pattern, ofList? (first :: second :: rest) = some pattern := by
  have hendings := mapM_dropBytes?_of_commonPrefix h
  rw [commonPrefix?] at h
  simp only [ofList?, h, hendings, Option.bind_eq_bind, Option.bind_some]
  split
  · exact ⟨_, rfl⟩
  · exact ⟨_, rfl⟩

theorem ofList?_eq_none_of_commonPrefix (h : commonPrefix? first (second :: rest) = none) :
    ofList? (first :: second :: rest) = none := by
  rw [commonPrefix?] at h
  simp only [ofList?, h, Option.bind_eq_bind, Option.bind_none]

/-- Texts have a pattern unless they part inside a character. -/
theorem ofList?_eq_none_iff : ofList? texts = none ↔ PartInside texts := by
  match texts with
  | [] =>
    refine iff_of_false nofun ?_
    rintro ⟨start, lead, -, hparts⟩
    exact hparts ⟨'0', nofun⟩
  | [text] =>
    rw [← commonPrefix?_eq_none_iff, commonPrefix?_single]
    exact iff_of_false nofun nofun
  | first :: second :: rest =>
    rw [← commonPrefix?_eq_none_iff]
    cases hstart : commonPrefix? first (second :: rest) with
    | none => exact iff_of_true (ofList?_eq_none_of_commonPrefix hstart) rfl
    | some start =>
      obtain ⟨pattern, hpattern⟩ := exists_ofList?_of_commonPrefix hstart
      rw [hpattern]
      exact iff_of_false nofun nofun

end Pattern

namespace Model

open Pattern

variable {first : String} {rest : List String} {start : List Char}

theorem mapLine?_eq_none_iff (m : Model) : m.mapLine? = none ↔ PartInside m.identifiers := by
  rw [mapLine?, Option.map_eq_none_iff, ofList?_eq_none_iff]

/-- Identifiers are cut behind their longest common prefix, which is found and ends between two
characters of each, and a model with these identifiers has a line. -/
structure CutsWhole (first : String) (rest : List String) (start : List Char) : Prop where
  found : commonPrefix? first rest = some start
  longest : ∀ other, other <+: start ↔ ∀ text ∈ first :: rest, other <+: text.toList
  cut : ∀ text ∈ first :: rest, ∃ ending, text.toList = start ++ ending ∧
    Text.dropBytes? (commonLength first rest) text.toList = some ending
  /-- The length of the common prefix is subtracted from that of the shortest text. -/
  within : commonLength first rest ≤ shortestLength first rest
  line : ∀ m : Model, m.identifiers = first :: rest → ∃ line, m.mapLine? = some line

theorem cutsWhole_of_commonPrefix (h : commonPrefix? first rest = some start) :
    CutsWhole first rest start := by
  constructor
  case found => exact h
  case longest => exact fun other => prefix_commonPrefix_iff h
  case cut => exact fun text hmem => dropBytes?_of_commonPrefix h hmem
  case within => exact commonLength_le_shortestLength
  case line =>
    intro m hm
    rw [← Option.ne_none_iff_exists', Ne, mapLine?_eq_none_iff, hm, ← commonPrefix?_eq_none_iff, h]
    nofun

/-- Identifiers are cut behind their longest common prefix exactly if they do not part inside a
character.  If they do, no common prefix is found; and the models without a line are those whose
identifiers part so. -/
theorem exists_cutsWhole_iff (first : String) (rest : List String) :
    ((∃ start, CutsWhole first rest start) ↔ ¬ PartInside (first :: rest)) ∧
      (commonPrefix? first rest = none ↔ PartInside (first :: rest)) ∧
      ∀ m : Model, m.mapLine? = none ↔ PartInside m.identifiers := by
  refine ⟨?_, commonPrefix?_eq_none_iff, mapLine?_eq_none_iff⟩
  rw [← commonPrefix?_eq_none_iff, ← Ne, Option.ne_none_iff_exists']
  constructor
  · rintro ⟨start, hcuts⟩
    exact ⟨start, hcuts.found⟩
  · rintro ⟨start, hstart⟩
    exact ⟨start, cutsWhole_of_commonPrefix hstart⟩

/-- Accented letters share the first of their bytes. -/
theorem not_cutsWhole_accented :
    (¬ ∃ start, CutsWhole "6-è" ["6-é"] start) ∧
      (build "SKX" "Skylakex" "V1" ["6-è", "6-é"] ∅).mapLine? = none := by
  refine ⟨?_, by decide +kernel⟩
  rintro ⟨start, hcuts⟩
  have hnone : commonPrefix? "6-è" ["6-é"] = none := by decide +kernel
  have hfound := hcuts.found
  rw [hnone] at hfound
  cases hfound

end Model

/-- The map of a release has a text unless the identifiers of a model part inside a character. -/
theorem Release.exists_mapText_iff_not_partInside {ms : List Model} :
    (∃ text, mapText ms = .ok text) ↔ ∀ model ∈ ms, ¬ Pattern.PartInside model.identifiers := by
  rw [exists_mapText_iff]
  refine forall₂_congr fun model _ => ?_
  rw [← model.mapLine?_eq_none_iff, Option.isSome_iff_ne_none]

end TopdownMetrics
