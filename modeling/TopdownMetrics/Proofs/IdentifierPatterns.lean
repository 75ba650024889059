import Mathlib.Data.List.Infix
import TopdownMetrics.Proofs.ByteCuts
import TopdownMetrics.Proofs.MapfileModels
import TopdownMetrics.Proofs.PatternReading

/-!
# Patterns for identifiers

The pattern of a model is read back as a regular expression.  Its form is chosen by the
shortest identifier alone: as a group of alternatives it is right, while as a class it is
right only if all identifiers have one character behind what they share, since a class
matches nothing longer and nothing shorter.
-/

namespace TopdownMetrics

namespace Pattern

/-! ## What texts share at their start -/

theorem le_sharedLength_iff {as bs : List UInt8} {n : Nat} :
    n ≤ sharedLength as bs ↔ n ≤ as.length ∧ as.take n <+: bs := by
  induction as generalizing bs n with
  | nil => cases bs <;> simp +contextual [sharedLength]
  | cons a as ih =>
    cases n with
    | zero => simp
    | succ n =>
      cases bs with
      | nil => simp [sharedLength]
      | cons b bs =>
        by_cases hab : a = b
        · simp [sharedLength, hab, ih, List.cons_prefix_cons]
        · simp [sharedLength, hab, List.cons_prefix_cons]

theorem le_foldl_min_iff {α : Type} {f : α → Nat} {l : List α} {k n : Nat} :
    n ≤ l.foldl (fun k a => min k (f a)) k ↔ n ≤ k ∧ ∀ a ∈ l, n ≤ f a := by
  induction l generalizing k with
  | nil => simp
  | cons a l ih => simp [ih, and_assoc]

theorem le_commonLength_iff {first : String} {rest : List String} {n : Nat} :
    n ≤ commonLength first rest ↔
      n ≤ first.utf8ByteSize ∧ ∀ text ∈ rest, n ≤ sharedLength (bytes first) (bytes text) :=
  le_foldl_min_iff

theorem le_shortestLength_iff {first : String} {rest : List String} {n : Nat} :
    n ≤ shortestLength first rest ↔ ∀ text ∈ first :: rest, n ≤ text.utf8ByteSize := by
  rw [List.forall_mem_cons]
  exact le_foldl_min_iff

/-! ## Identifiers -/

def IsIdentifierChar (c : Char) : Prop :=
  c.isAlphanum = true ∨ c = '-'

/-- Identifiers consist of letters, digits and hyphens. -/
def IsIdentifier (text : String) : Prop :=
  ∀ c ∈ text.toList, IsIdentifierChar c

instance (c : Char) : Decidable (IsIdentifierChar c) :=
  inferInstanceAs (Decidable (c.isAlphanum = true ∨ c = '-'))

instance : DecidablePred IsIdentifier := fun text =>
  List.decidableBAll IsIdentifierChar text.toList

theorem toNat_of_isAlphanum {c : Char} (hc : c.isAlphanum = true) :
    48 ≤ c.toNat ∧ c.toNat < 128 := by
  -- upper case, lower case, digits: the three ranges of the character's number
  change (decide (65 ≤ c.val ∧ c.val ≤ 90) ||
    decide (97 ≤ c.val) && decide (c.val ≤ 122) ||
    decide (48 ≤ c.val) && decide (c.val ≤ 57)) = true at hc
  simp only [Bool.or_eq_true, Bool.and_eq_true, decide_eq_true_eq, UInt32.le_iff_toNat_le] at hc
  change 48 ≤ c.val.toNat ∧ c.val.toNat < 128
  rcases hc with (⟨hlo, hhi⟩ | ⟨hlo, hhi⟩) | ⟨hlo, hhi⟩
  · exact ⟨Nat.le_trans (by decide) hlo, Nat.lt_of_le_of_lt hhi (by decide)⟩
  · exact ⟨Nat.le_trans (by decide) hlo, Nat.lt_of_le_of_lt hhi (by decide)⟩
  · exact ⟨hlo, Nat.lt_of_le_of_lt hhi (by decide)⟩

theorem IsIdentifierChar.toNat_lt {c : Char} (hc : IsIdentifierChar c) : c.toNat < 128 := by
  rcases hc with hc | rfl
  · exact (toNat_of_isAlphanum hc).2
  · decide

theorem IsIdentifierChar.isLiteral {c : Char} (hc : IsIdentifierChar c) : isLiteral c = true := by
  have hspecial :
      ("[]()|*+?.^$\\\x7b\x7d".toList.all fun d => !d.isAlphanum && d != '-') = true := by
    decide
  rw [Pattern.isLiteral, Bool.not_eq_true', ← Bool.not_eq_true, List.contains_iff_mem]
  intro hmem
  have hother : c.isAlphanum = false ∧ c ≠ '-' := by
    simpa using List.all_eq_true.1 hspecial c hmem
  rcases hc with hc | hc
  · exact absurd hc (by simp [hother.1])
  · exact hother.2 hc

theorem IsIdentifierChar.utf8Size {c : Char} (hc : IsIdentifierChar c) : c.utf8Size = 1 := by
  rw [Char.utf8Size_eq_one_iff, UInt32.le_iff_toNat_le]
  exact Nat.le_of_lt_succ hc.toNat_lt

/-- Hyphens come before all other characters of identifiers. -/
theorem IsIdentifierChar.hyphen_lt {c : Char} (hc : IsIdentifierChar c) (hne : c ≠ '-') :
    '-' < c := by
  rw [Char.lt_def, UInt32.lt_iff_toNat_lt]
  exact Nat.lt_of_lt_of_le (by decide) (toNat_of_isAlphanum (hc.resolve_right hne)).1

/-! ## Identifiers are cut between characters -/

section

variable {text other : String} {cs : List Char} {n : Nat}

theorem IsIdentifier.bytes_eq (h : IsIdentifier text) :
    bytes text = text.toList.map fun c => c.val.toUInt8 := by
  rw [bytes, List.map_eq_flatMap]
  exact List.flatMap_congr fun c hc => String.utf8EncodeChar_eq_singleton (h c hc).utf8Size

theorem utf8Len_of_identifier (h : ∀ c ∈ cs, IsIdentifierChar c) :
    String.utf8Len cs = cs.length := by
  induction cs with
  | nil => rfl
  | cons c cs ih =>
    rw [List.forall_mem_cons] at h
    rw [String.utf8Len_cons, ih h.2, h.1.utf8Size, List.length_cons]

theorem IsIdentifier.utf8ByteSize_eq (h : IsIdentifier text) :
    text.utf8ByteSize = text.toList.length := by
  rw [← utf8Len_of_identifier h, ← String.utf8ByteSize_ofList, String.ofList_toList]

theorem ofNat_toUInt8 {c : Char} (hc : IsIdentifierChar c) :
    Char.ofNat c.val.toUInt8.toNat = c := by
  have hlt : c.val.toNat < 256 := hc.toNat_lt.trans (by decide)
  rw [UInt32.toNat_toUInt8, Nat.mod_eq_of_lt hlt]
  exact Char.ofNat_toNat c

/-- The bytes of identifiers share what their characters share. -/
theorem IsIdentifier.take_prefix_iff (h : IsIdentifier text) (hother : IsIdentifier other) :
    (bytes text).take n <+: bytes other ↔ text.toList.take n <+: other.toList := by
  rw [h.bytes_eq, hother.bytes_eq, ← List.map_take]
  have hback {cs : List Char} (hcs : ∀ c ∈ cs, IsIdentifierChar c) :
      (cs.map fun c => c.val.toUInt8).map (fun b => Char.ofNat b.toNat) = cs := by
    rw [List.map_map]
    exact (List.map_congr_left fun c hc => ofNat_toUInt8 (hcs c hc)).trans (List.map_id' cs)
  constructor
  · intro hextends
    have := hextends.map fun b => Char.ofNat b.toNat
    rwa [hback fun c hc => h c (List.mem_of_mem_take hc), hback hother] at this
  · intro hextends
    exact hextends.map _

theorem utf8Len_take_of_identifier (h : ∀ c ∈ cs, IsIdentifierChar c) (hn : n ≤ cs.length) :
    String.utf8Len (cs.take n) = n := by
  rw [utf8Len_of_identifier fun c hc => h c (List.mem_of_mem_take hc), List.length_take]
  exact Nat.min_eq_left hn

theorem takeBytes?_of_identifier (h : ∀ c ∈ cs, IsIdentifierChar c) (hn : n ≤ cs.length) :
    Text.takeBytes? n cs = some (cs.take n) :=
  Text.takeBytes?_eq_some_iff.2 ⟨List.take_prefix n cs, utf8Len_take_of_identifier h hn⟩

theorem dropBytes?_of_identifier (h : ∀ c ∈ cs, IsIdentifierChar c) (hn : n ≤ cs.length) :
    Text.dropBytes? n cs = some (cs.drop n) := by
  have hdrop := @Text.dropBytes?_append (cs.take n) (cs.drop n)
  rwa [utf8Len_take_of_identifier h hn, List.take_append_drop] at hdrop

end

/-! ## The form of a pattern -/

theorem mapM_eq_some_map {α β : Type} {f : α → Option β} {g : α → β} {l : List α}
    (h : ∀ a ∈ l, f a = some (g a)) : l.mapM f = some (l.map g) := by
  induction l with
  | nil => rfl
  | cons a l ih =>
    rw [List.forall_mem_cons] at h
    rw [List.mapM_cons, h.1, ih h.2]
    rfl

/-- What the first of some identifiers shares with all others. -/
def commonStart (first : String) (rest : List String) : List Char :=
  first.toList.take (commonLength first rest)

/-- What stands behind a common start. -/
def endings (start : List Char) (identifiers : List String) : List (List Char) :=
  identifiers.map fun identifier => identifier.toList.drop start.length

section

variable {first second : String} {rest : List String}

theorem le_commonLength_of_identifiers
    (h : ∀ identifier ∈ first :: rest, IsIdentifier identifier) {n : Nat} :
    n ≤ commonLength first rest ↔ n ≤ first.toList.length ∧
      ∀ identifier ∈ rest, first.toList.take n <+: identifier.toList := by
  rw [List.forall_mem_cons] at h
  have hbytes : (bytes first).length = first.toList.length := by
    rw [h.1.bytes_eq, List.length_map]
  rw [le_commonLength_iff, h.1.utf8ByteSize_eq]
  refine and_congr_right fun hn => forall₂_congr fun identifier hmem => ?_
  rw [le_sharedLength_iff, hbytes, and_iff_right hn, h.1.take_prefix_iff (h.2 identifier hmem)]

theorem length_commonStart (h : ∀ identifier ∈ first :: rest, IsIdentifier identifier) :
    (commonStart first rest).length = commonLength first rest := by
  rw [commonStart, List.length_take]
  exact Nat.min_eq_left ((le_commonLength_of_identifiers h).1 le_rfl).1

/-- The common start is the longest one. -/
theorem prefix_commonStart_iff (h : ∀ identifier ∈ first :: rest, IsIdentifier identifier)
    {other : List Char} :
    other <+: commonStart first rest ↔
      ∀ identifier ∈ first :: rest, other <+: identifier.toList := by
  rw [List.forall_mem_cons]
  constructor
  · intro hother
    have hshared := ((le_commonLength_of_identifiers h).1 le_rfl).2
    exact ⟨hother.trans (List.take_prefix _ _),
      fun identifier hmem => hother.trans (hshared identifier hmem)⟩
  · rintro ⟨hfirst, hrest⟩
    have htake : first.toList.take other.length = other :=
      (List.prefix_iff_eq_take.1 hfirst).symm
    have hle : other.length ≤ commonLength first rest := by
      rw [le_commonLength_of_identifiers h, htake]
      exact ⟨hfirst.length_le, hrest⟩
    rw [← htake]
    exact List.take_prefix_take_left hle

theorem ofList?_of_identifiers
    (h : ∀ identifier ∈ first :: second :: rest, IsIdentifier identifier) :
    let start := commonStart first (second :: rest)
    let words := endings start (first :: second :: rest)
    ofList? (first :: second :: rest) = some (String.ofList
      (if ∀ identifier ∈ first :: second :: rest, start.length + 1 < identifier.length then
        start ++ '(' :: (['|'].intercalate words ++ [')'])
      else start ++ '[' :: (words.flatten ++ [']']))) := by
  intro start words
  have hlength := length_commonStart h
  have hextends := (prefix_commonStart_iff h).1 List.prefix_rfl
  have hstart : Text.takeBytes? (commonLength first (second :: rest)) first.toList = some start :=
    takeBytes?_of_identifier (h first List.mem_cons_self)
      ((le_commonLength_of_identifiers h).1 le_rfl).1
  have hendings : (first :: second :: rest).mapM (fun text =>
      (Text.dropBytes? (commonLength first (second :: rest)) text.toList).map String.ofList) =
        some (words.map String.ofList) := by
    simp only [words, endings, List.map_map]
    refine mapM_eq_some_map fun identifier hmem => ?_
    have hle := (hextends identifier hmem).length_le
    rw [← hlength, dropBytes?_of_identifier (h identifier hmem) hle]
    rfl
  have hform : 1 < shortestLength first (second :: rest) - commonLength first (second :: rest) ↔
      ∀ identifier ∈ first :: second :: rest, start.length + 1 < identifier.length := by
    rw [Nat.lt_sub_iff_add_lt, Nat.add_comm, ← Nat.succ_le_iff, le_shortestLength_iff, ← hlength]
    refine forall₂_congr fun identifier hmem => ?_
    rw [(h identifier hmem).utf8ByteSize_eq, String.length_toList]
    exact Nat.succ_le_iff
  simp only [ofList?, hstart, hendings, Option.bind_eq_bind, Option.bind_some, gt_iff_lt, hform]
  split
  · refine congrArg some (String.toList_injective ?_)
    simp [List.map_map]
  · refine congrArg some (String.toList_injective ?_)
    simp [List.flatMap_map]

/-! ## What a pattern denotes -/

theorem mem_endings_iff {start text : List Char} {identifiers : List String}
    (hextends : ∀ identifier ∈ identifiers, start <+: identifier.toList) :
    (∃ word ∈ endings start identifiers, text = start ++ word) ↔
      ∃ identifier ∈ identifiers, identifier.toList = text := by
  have hsplit (identifier : String) (hmem : identifier ∈ identifiers) :
      identifier.toList = start ++ identifier.toList.drop start.length :=
    List.prefix_append_drop (hextends identifier hmem)
  constructor
  · rintro ⟨word, hword, rfl⟩
    obtain ⟨identifier, hmem, rfl⟩ := List.mem_map.1 hword
    exact ⟨identifier, hmem, hsplit identifier hmem⟩
  · rintro ⟨identifier, hmem, rfl⟩
    exact ⟨_, List.mem_map_of_mem hmem, hsplit identifier hmem⟩

theorem isIdentifierChar_of_mem_endings {start word : List Char} {identifiers : List String}
    (h : ∀ identifier ∈ identifiers, IsIdentifier identifier)
    (hword : word ∈ endings start identifiers) {c : Char} (hc : c ∈ word) :
    IsIdentifierChar c := by
  obtain ⟨identifier, hmem, rfl⟩ := List.mem_map.1 hword
  exact h identifier hmem c (List.mem_of_mem_drop hc)

/-- The last character of an identifier that is longer by one than its start. -/
theorem exists_eq_append_singleton {start : List Char} {identifier : String}
    (hextends : start <+: identifier.toList) (hlength : identifier.length = start.length + 1) :
    ∃ c, identifier.toList = start ++ [c] := by
  obtain ⟨word, hword⟩ := hextends
  have hone : word.length = 1 := by
    have hlengths := congrArg List.length hword
    rw [List.length_append, String.length_toList, hlength] at hlengths
    omega
  obtain ⟨c, rfl⟩ := List.length_eq_one_iff.1 hone
  exact ⟨c, hword.symm⟩

/-- In a sorted list of identifiers with one character behind their start, only the first can
have a hyphen there. -/
theorem hyphen_notMem_endings {start : List Char}
    (h : ∀ identifier ∈ first :: rest, IsIdentifier identifier)
    (hsorted : (first :: rest).Pairwise (· < ·))
    (hextends : ∀ identifier ∈ first :: rest, start <+: identifier.toList)
    (hlength : ∀ identifier ∈ first :: rest, identifier.length = start.length + 1) :
    '-' ∉ (endings start rest).flatten := by
  intro hmem
  obtain ⟨word, hword, hhyphen⟩ := List.mem_flatten.1 hmem
  obtain ⟨identifier, hidentifier, rfl⟩ := List.mem_map.1 hword
  have htail : identifier ∈ first :: rest := List.mem_cons_of_mem first hidentifier
  obtain ⟨d, hd⟩ := exists_eq_append_singleton (hextends identifier htail)
    (hlength identifier htail)
  obtain ⟨c, hc⟩ := exists_eq_append_singleton (hextends first List.mem_cons_self)
    (hlength first List.mem_cons_self)
  rw [hd, List.drop_left, List.mem_singleton] at hhyphen
  have hlt : first < identifier := List.rel_of_pairwise_cons hsorted hidentifier
  rw [String.lt_iff_toList_lt, hc, hd, ← hhyphen] at hlt
  have hne : c ≠ '-' := by
    rintro rfl
    exact lt_irrefl _ hlt
  have hidentifierChar : IsIdentifierChar c :=
    h first List.mem_cons_self c (hc ▸ List.mem_append_right _ List.mem_cons_self)
  have hgt : ['-'] < [c] := List.Lex.rel (hidentifierChar.hyphen_lt hne)
  exact lt_asymm hlt (List.append_left_lt hgt)

/-- As alternatives, identifiers are denoted by their pattern. -/
theorem denotes_of_alternatives {start : List Char} {identifiers : List String}
    (hne : identifiers ≠ []) (h : ∀ identifier ∈ identifiers, IsIdentifier identifier)
    (hextends : ∀ identifier ∈ identifiers, start <+: identifier.toList)
    (hstart : ∀ c ∈ start, IsIdentifierChar c) :
    Denotes (String.ofList
      (start ++ '(' :: (['|'].intercalate (endings start identifiers) ++ [')']))) identifiers := by
  obtain ⟨e, hread, hmatches⟩ := @denotes_alternatives start (endings start identifiers)
    (by simpa [endings] using hne) (fun c hc => (hstart c hc).isLiteral)
    fun word hword c hc => (isIdentifierChar_of_mem_endings h hword hc).isLiteral
  refine ⟨e, by rw [expression?, String.toList_ofList, hread], fun text => ?_⟩
  rw [hmatches, mem_endings_iff hextends]
  constructor
  · rintro ⟨identifier, hmem, hsame⟩
    exact String.toList_injective hsame ▸ hmem
  · exact fun hmem => ⟨text, hmem, rfl⟩

/-- As a class, identifiers are denoted by their pattern exactly if all have one character
behind the start. -/
theorem denotes_class_iff {start : List Char}
    (h : ∀ identifier ∈ first :: second :: rest, IsIdentifier identifier)
    (hsorted : (first :: second :: rest).Pairwise (· < ·))
    (hextends : ∀ identifier ∈ first :: second :: rest, start <+: identifier.toList) :
    Denotes (String.ofList
        (start ++ '[' :: ((endings start (first :: second :: rest)).flatten ++ [']'])))
        (first :: second :: rest) ↔
      ∀ identifier ∈ first :: second :: rest, identifier.length = start.length + 1 := by
  have hstart (c : Char) (hc : c ∈ start) : isLiteral c = true :=
    (h first List.mem_cons_self c ((hextends first List.mem_cons_self).subset hc)).isLiteral
  have hword (c : Char) (hc : c ∈ (endings start (first :: second :: rest)).flatten) :
      isLiteral c = true := by
    obtain ⟨word, hword, hmem⟩ := List.mem_flatten.1 hc
    exact (isIdentifierChar_of_mem_endings h hword hmem).isLiteral
  -- Of two different identifiers one is longer than the start.
  have hne : (endings start (first :: second :: rest)).flatten ≠ [] := by
    intro hnil
    have hsame (identifier : String) (hmem : identifier ∈ first :: second :: rest) :
        identifier.toList = start := by
      have hdrop := List.flatten_eq_nil_iff.1 hnil _ (List.mem_map_of_mem hmem)
      simpa [hdrop] using List.prefix_append_drop (hextends identifier hmem)
    have hlt : first < second := List.rel_of_pairwise_cons hsorted List.mem_cons_self
    refine hlt.ne (String.toList_injective ?_)
    rw [hsame first List.mem_cons_self, hsame second (by simp)]
  constructor
  · rintro ⟨e, he, hmatches⟩ identifier hmem
    rw [expression?, String.toList_ofList] at he
    rw [← String.length_toList]
    exact length_of_mem_classPattern hstart hword hne he ((hmatches identifier).2 hmem)
  · intro hlength
    have hhyphen : '-' ∉ (endings start (first :: second :: rest)).flatten.tail := by
      obtain ⟨c, hc⟩ := exists_eq_append_singleton (hextends first List.mem_cons_self)
        (hlength first List.mem_cons_self)
      rw [endings, List.map_cons, hc, List.drop_left]
      exact hyphen_notMem_endings h hsorted hextends hlength
    obtain ⟨e, he, hmatches⟩ := denotes_class hstart hword hne hhyphen
    refine ⟨e, by rw [expression?, String.toList_ofList, he], fun text => ?_⟩
    rw [hmatches]
    constructor
    · rintro ⟨c, hc, htext⟩
      obtain ⟨word, hword, hmem⟩ := List.mem_flatten.1 hc
      obtain ⟨identifier, hidentifier, rfl⟩ := List.mem_map.1 hword
      obtain ⟨d, hd⟩ := exists_eq_append_singleton (hextends identifier hidentifier)
        (hlength identifier hidentifier)
      rw [hd, List.drop_left, List.mem_singleton] at hmem
      rw [String.toList_injective (htext.trans (hmem ▸ hd.symm))]
      exact hidentifier
    · intro hmem
      obtain ⟨c, hc⟩ := exists_eq_append_singleton (hextends text hmem) (hlength text hmem)
      refine ⟨c, List.mem_flatten.2 ⟨_, List.mem_map_of_mem hmem, ?_⟩, hc⟩
      rw [hc, List.drop_left]
      exact List.mem_singleton_self c

/-- The pattern of a sorted list of identifiers denotes them exactly if all of them or none of
them have more than one character behind what they share. -/
theorem exists_denotes_iff (h : ∀ identifier ∈ first :: second :: rest, IsIdentifier identifier)
    (hsorted : (first :: second :: rest).Pairwise (· < ·)) :
    let start := commonStart first (second :: rest)
    ∃ pattern, ofList? (first :: second :: rest) = some pattern ∧
      (Denotes pattern (first :: second :: rest) ↔
        (∀ identifier ∈ first :: second :: rest, start.length + 1 < identifier.length) ∨
          ∀ identifier ∈ first :: second :: rest, identifier.length = start.length + 1) := by
  intro start
  have hextends := (prefix_commonStart_iff h).1 List.prefix_rfl
  have hstart (c : Char) (hc : c ∈ start) : IsIdentifierChar c :=
    h first List.mem_cons_self c ((hextends first List.mem_cons_self).subset hc)
  refine ⟨_, ofList?_of_identifiers h, ?_⟩
  split
  · rename_i hlong
    exact iff_of_true
      (denotes_of_alternatives (List.cons_ne_nil _ _) h hextends hstart) (.inl hlong)
  · rename_i hshort
    rw [denotes_class_iff h hsorted hextends, or_iff_right hshort]

end

end Pattern

namespace Model

open Pattern

variable {identifiers : List String}

theorem exists_distinctSorted_eq_cons_cons
    (htwo : ∃ a ∈ identifiers, ∃ b ∈ identifiers, a ≠ b) :
    ∃ first second rest, Text.distinctSorted identifiers = first :: second :: rest := by
  obtain ⟨a, ha, b, hb, hne⟩ := htwo
  rw [← Text.mem_distinctSorted] at ha hb
  cases hnames : Text.distinctSorted identifiers with
  | nil => simp [hnames] at ha
  | cons first names =>
    cases names with
    | nil =>
      rw [hnames, List.mem_singleton] at ha hb
      exact absurd (ha.trans hb.symm) hne
    | cons second rest => exact ⟨first, second, rest, rfl⟩

/-- A model with several identifiers has a line in the map of identifiers.  Its pattern denotes
the identifiers exactly if all of them or none of them have more than one character behind the
start that they share. -/
theorem exists_mapLine_denotes_iff (shortname longname version : String)
    (files : Std.TreeMap String String) (h : ∀ identifier ∈ identifiers, IsIdentifier identifier)
    (htwo : ∃ a ∈ identifiers, ∃ b ∈ identifiers, a ≠ b) :
    ∃ start pattern,
      (∀ other, other <+: start ↔ ∀ identifier ∈ identifiers, other <+: identifier.toList) ∧
      (build shortname longname version identifiers files).mapLine? =
        some (pattern ++ "," ++ Text.lower version ++ "," ++ Text.lower longname ++ ",core") ∧
      (Denotes pattern identifiers ↔
        (∀ identifier ∈ identifiers, start.length + 1 < identifier.length) ∨
          ∀ identifier ∈ identifiers, identifier.length = start.length + 1) := by
  obtain ⟨first, second, rest, hnames⟩ := exists_distinctSorted_eq_cons_cons htwo
  have hmem (identifier : String) :
      identifier ∈ identifiers ↔ identifier ∈ first :: second :: rest := by
    rw [← hnames, Text.mem_distinctSorted]
  have hsorted : (first :: second :: rest).Pairwise (· < ·) :=
    hnames ▸ Text.pairwise_distinctSorted
  simp only [hmem] at h ⊢
  obtain ⟨pattern, hpattern, hdenotes⟩ := exists_denotes_iff h hsorted
  refine ⟨_, pattern, fun other => prefix_commonStart_iff h, ?_, ?_⟩
  · simp only [mapLine?, build, hnames, hpattern, Option.map_some]
  · rw [denotes_congr hmem, hdenotes]

/-- Identifiers that differ in their last two characters are denoted by alternatives. -/
theorem exists_denotes_skylake :
    ∃ pattern, (build "SKL" "Skylake" "V57" ["6-4E", "6-A5"] ∅).mapLine? =
        some (pattern ++ "," ++ Text.lower "V57" ++ "," ++ Text.lower "Skylake" ++ ",core") ∧
      Denotes pattern ["6-4E", "6-A5"] := by
  obtain ⟨start, pattern, hstart, hline, hdenotes⟩ := @exists_mapLine_denotes_iff
    ["6-4E", "6-A5"] "SKL" "Skylake" "V57" ∅ (by decide) ⟨"6-4E", by simp, "6-A5", by simp⟩
  refine ⟨pattern, hline, hdenotes.2 (.inl fun identifier hmem => ?_)⟩
  have hextends := (hstart start).1 List.prefix_rfl
  have hshared : ∀ s ∈ "6-4E".toList.inits, s ∈ "6-A5".toList.inits → s.length ≤ 2 := by
    decide
  have hle := hshared start ((List.mem_inits _ _).2 (hextends _ (by simp)))
    ((List.mem_inits _ _).2 (hextends _ (by simp)))
  have hlength : ∀ identifier ∈ ["6-4E", "6-A5"], identifier.length = 4 := by decide
  rw [hlength identifier hmem]
  exact Nat.lt_of_le_of_lt (Nat.add_le_add_right hle 1) (by decide)

/-- An ending of one character makes a class of all endings, which does not match the longer
ones. -/
theorem not_denotes_shortEnding :
    (build "SKL" "Skylake" "V57" ["6-3", "6-45"] ∅).mapLine? =
        some "6-[345],v57,skylake,core" ∧
      ¬ Denotes "6-[345]" ["6-3", "6-45"] := by
  refine ⟨by decide +kernel, ?_⟩
  rintro ⟨e, he, hmatches⟩
  have hmatch : (expression? "6-[345]").all fun e => e.rmatch "6-4".toList := by decide +kernel
  rw [he, Option.all_some, RegularExpression.rmatch_iff_matches', hmatches] at hmatch
  revert hmatch
  decide

end Model

end TopdownMetrics
