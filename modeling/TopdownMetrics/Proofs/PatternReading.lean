import Mathlib.Computability.RegularExpressions
import Mathlib.Data.String.Basic
import TopdownMetrics.Models.Pattern

/-!
# Reading patterns as regular expressions

A pattern is an extended regular expression for whole identifiers.  The reader here knows
plain characters, groups of alternatives and classes of characters with ranges; a pattern with
any other operator has no reading.  It keeps the groups that are open on a stack, so that it
passes over a pattern once, and the lemmas say what each piece of a pattern adds to the group
it stands in.
-/

namespace TopdownMetrics.Pattern

/-! ## The reader -/

/-- What has been read of a group: the alternatives that are complete, and the last one. -/
structure Group where
  complete : RegularExpression Char
  last : RegularExpression Char

namespace Group

def start : Group := ⟨0, 1⟩

def append (g : Group) (e : RegularExpression Char) : Group :=
  { g with last := g.last * e }

/-- The group with a new alternative. -/
def next (g : Group) : Group := ⟨g.complete + g.last, 1⟩

def expression (g : Group) : RegularExpression Char := g.complete + g.last

end Group

/-- Characters that stand for themselves outside of classes. -/
def isLiteral (c : Char) : Bool :=
  !"[]()|*+?.^$\\\x7b\x7d".toList.contains c

def between (a b : Char) : List Char :=
  (List.range' a.toNat (b.toNat + 1 - a.toNat)).map Char.ofNat

/-- The members of a class.  A hyphen between two characters makes a range of them. -/
def members? : List Char → Option (List Char)
  | a :: '-' :: b :: rest => if a ≤ b then (members? rest).map (between a b ++ ·) else none
  | a :: rest => (members? rest).map (a :: ·)
  | [] => some []

/-- The expression for one character of a class. -/
def class? (text : List Char) : Option (RegularExpression Char) :=
  if text.any fun c => c = '^' || c = '[' || c = '\\' then none
  else (members? text).map fun members =>
    members.foldr (fun c e => .char c + e) 0

/-- Reads the rest of a pattern in a group inside of others.  In a class, its characters so far
are kept in reverse. -/
def readFrom (outer : List Group) (group : Group) (inClass : Option (List Char)) :
    List Char → Option (RegularExpression Char)
  | [] => if outer.isEmpty && inClass.isNone then some group.expression else none
  | c :: cs =>
    match inClass with
    | some before =>
      if c = ']' ∧ before ≠ [] then do
        let e ← class? before.reverse
        readFrom outer (group.append e) none cs
      else
        readFrom outer group (some (c :: before)) cs
    | none =>
      if c = '(' then readFrom (group :: outer) .start none cs
      else if c = '|' then readFrom outer group.next none cs
      else if c = ')' then
        match outer with
        | [] => none
        | enclosing :: outer => readFrom outer (enclosing.append group.expression) none cs
      else if c = '[' then readFrom outer group (some []) cs
      else if isLiteral c then readFrom outer (group.append (.char c)) none cs
      else none

def expression? (pattern : String) : Option (RegularExpression Char) :=
  readFrom [] .start none pattern.toList

/-- The pattern matches the given texts and no others. -/
def Denotes (pattern : String) (texts : List String) : Prop :=
  ∃ e, expression? pattern = some e ∧ ∀ text : String, text.toList ∈ e.matches' ↔ text ∈ texts

theorem denotes_congr {pattern : String} {texts others : List String}
    (h : ∀ text, text ∈ texts ↔ text ∈ others) :
    Denotes pattern texts ↔ Denotes pattern others := by
  simp only [Denotes, h]

example : (expression? "6-([CF]|4[0-9])").map (fun e => ["6-C", "6-47", "6-4"].map fun text =>
    e.rmatch text.toList) = some [true, true, false] := by
  decide +kernel

/-! ## Plain characters -/

variable {outer : List Group} {group : Group} {word cs : List Char}

/-- The group with plain characters behind it. -/
def Group.appendWord (g : Group) (word : List Char) : Group :=
  word.foldl (fun g c => g.append (.char c)) g

theorem Group.complete_appendWord (g : Group) (word : List Char) :
    (g.appendWord word).complete = g.complete := by
  induction word generalizing g with
  | nil => rfl
  | cons c word ih => exact ih (g.append (.char c))

theorem Group.mem_last_appendWord {g : Group} {text : List Char} :
    text ∈ (g.appendWord word).last.matches' ↔ ∃ front ∈ g.last.matches', text = front ++ word := by
  induction word generalizing g with
  | nil => simp [appendWord]
  | cons c word ih =>
    refine ih.trans ?_
    simp only [append, RegularExpression.matches'_mul, RegularExpression.matches'_char,
      Language.mem_mul]
    constructor
    · rintro ⟨_, ⟨front, hfront, _, rfl, rfl⟩, rfl⟩
      exact ⟨front, hfront, by simp⟩
    · rintro ⟨front, hfront, rfl⟩
      exact ⟨front ++ [c], ⟨front, hfront, [c], rfl, rfl⟩, by simp⟩

theorem ne_of_isLiteral {c d : Char} (hc : isLiteral c = true) (hd : isLiteral d = false) :
    c ≠ d := by
  rintro rfl
  rw [hc] at hd
  cases hd

theorem readFrom_literal {c : Char} (hc : isLiteral c = true) :
    readFrom outer group none (c :: cs) = readFrom outer (group.append (.char c)) none cs := by
  have hne {d : Char} (hd : isLiteral d = false) : c ≠ d := ne_of_isLiteral hc hd
  simp only [readFrom]
  rw [if_neg (hne (by decide)), if_neg (hne (by decide)), if_neg (hne (by decide)),
    if_neg (hne (by decide)), if_pos hc]

theorem readFrom_literals (h : ∀ c ∈ word, isLiteral c = true) :
    readFrom outer group none (word ++ cs) = readFrom outer (group.appendWord word) none cs := by
  induction word generalizing group with
  | nil => rfl
  | cons c word ih =>
    rw [List.forall_mem_cons] at h
    rw [List.cons_append, readFrom_literal h.1, ih h.2]
    rfl

/-- A group with a common start and one expression behind it. -/
theorem mem_append_appendWord_start {start text : List Char} {e : RegularExpression Char} :
    text ∈ ((Group.start.appendWord start).append e).expression.matches' ↔
      ∃ word ∈ e.matches', text = start ++ word := by
  rw [Group.expression, RegularExpression.matches'_add, Language.mem_add, Group.append,
    Group.complete_appendWord, RegularExpression.matches'_mul, Language.mem_mul]
  simp only [Group.start, RegularExpression.matches'_zero, Group.mem_last_appendWord,
    RegularExpression.matches'_epsilon, Language.mem_one, Language.notMem_zero, false_or]
  constructor
  · rintro ⟨_, ⟨_, rfl, rfl⟩, word, hword, rfl⟩
    exact ⟨word, hword, by simp⟩
  · rintro ⟨word, hword, rfl⟩
    exact ⟨start, ⟨[], rfl, rfl⟩, word, hword, rfl⟩

/-! ## Groups of alternatives -/

/-- Alternatives of plain characters are added to those that are complete. -/
theorem exists_readFrom_alternatives {words : List (List Char)}
    {complete : RegularExpression Char} (hne : words ≠ [])
    (h : ∀ word ∈ words, ∀ c ∈ word, isLiteral c = true) :
    ∃ g : Group, readFrom outer ⟨complete, 1⟩ none (['|'].intercalate words ++ cs) =
        readFrom outer g none cs ∧
      ∀ text, text ∈ g.expression.matches' ↔ text ∈ complete.matches' ∨ text ∈ words := by
  induction words generalizing complete with
  | nil => exact absurd rfl hne
  | cons word words ih =>
    rw [List.forall_mem_cons] at h
    have hword (text : List Char) :
        text ∈ ((⟨complete, 1⟩ : Group).appendWord word).expression.matches' ↔
          text ∈ complete.matches' ∨ text = word := by
      rw [Group.expression, RegularExpression.matches'_add, Language.mem_add,
        Group.complete_appendWord, Group.mem_last_appendWord]
      simp [Language.mem_one]
    cases words with
    | nil =>
      refine ⟨_, ?_, fun text => (hword text).trans (by simp)⟩
      rw [List.intercalate_singleton, readFrom_literals h.1]
    | cons second words =>
      obtain ⟨g, hread, hg⟩ := @ih
        ((⟨complete, 1⟩ : Group).appendWord word).expression (List.cons_ne_nil _ _) h.2
      refine ⟨g, ?_, fun text => ?_⟩
      · rw [List.intercalate_cons_cons, List.append_assoc, List.append_assoc,
          readFrom_literals h.1, ← hread]
        rfl
      · rw [hg, hword, or_assoc, ← List.mem_cons]

/-- A pattern of alternatives matches each of them behind the common start. -/
theorem denotes_alternatives {start : List Char} {words : List (List Char)} (hne : words ≠ [])
    (hstart : ∀ c ∈ start, isLiteral c = true)
    (hwords : ∀ word ∈ words, ∀ c ∈ word, isLiteral c = true) :
    ∃ e, readFrom [] .start none (start ++ '(' :: (['|'].intercalate words ++ [')'])) = some e ∧
      ∀ text, text ∈ e.matches' ↔ ∃ word ∈ words, text = start ++ word := by
  obtain ⟨g, hread, hg⟩ := @exists_readFrom_alternatives
    [Group.start.appendWord start] [')'] words 0 hne hwords
  refine ⟨((Group.start.appendWord start).append g.expression).expression, ?_, fun text => ?_⟩
  · rw [readFrom_literals hstart]
    exact hread
  · rw [mem_append_appendWord_start]
    simp only [hg, RegularExpression.matches'_zero, Language.notMem_zero, false_or]

/-! ## Classes -/

theorem mem_foldr_char {members text : List Char} :
    text ∈ (members.foldr (fun c e => .char c + e) (0 : RegularExpression Char)).matches' ↔
      ∃ c ∈ members, text = [c] := by
  induction members with
  | nil => simp
  | cons c members ih =>
    rw [List.foldr_cons, RegularExpression.matches'_add, Language.mem_add, ih,
      List.exists_mem_cons_iff]
    rfl

theorem class?_eq_some_iff {text : List Char} {e : RegularExpression Char} :
    class? text = some e ↔ (∀ c ∈ text, c ≠ '^' ∧ c ≠ '[' ∧ c ≠ '\\') ∧
      ∃ members, members? text = some members ∧
        members.foldr (fun c e => .char c + e) 0 = e := by
  unfold class?
  by_cases h : text.any fun c => c = '^' || c = '[' || c = '\\'
  · rw [if_pos h]
    refine iff_of_false nofun ?_
    rintro ⟨hplain, -⟩
    obtain ⟨c, hc, hany⟩ := List.any_eq_true.1 h
    simp [hplain c hc] at hany
  · rw [if_neg h, Option.map_eq_some_iff]
    refine (and_iff_right fun c hc => ?_).symm
    simpa [and_assoc] using List.any_eq_false.1 (Bool.eq_false_iff.2 h) c hc

/-- Without a hyphen behind the first character there are no ranges. -/
theorem members?_of_notMem_tail {text : List Char} (h : '-' ∉ text.tail) :
    members? text = some text := by
  induction text with
  | nil => rfl
  | cons a text ih =>
    have htail : members? text = some text := ih fun hmem => h (List.mem_of_mem_tail hmem)
    rw [members?, htail]
    · rfl
    · rintro b rest rfl
      exact h List.mem_cons_self

theorem readFrom_class {before : List Char} (hword : ']' ∉ word)
    (hne : before.reverse ++ word ≠ []) :
    readFrom outer group (some before) (word ++ ']' :: cs) =
      (class? (before.reverse ++ word)).bind fun e => readFrom outer (group.append e) none cs := by
  induction word generalizing before with
  | nil =>
    have hbefore : before ≠ [] := by simpa using hne
    rw [List.nil_append, readFrom, List.append_nil]
    exact if_pos ⟨rfl, hbefore⟩
  | cons c word ih =>
    rw [List.mem_cons, not_or] at hword
    have hsplit : before.reverse ++ c :: word = (c :: before).reverse ++ word := by simp
    rw [hsplit, ← ih hword.2 (by simp), List.cons_append, readFrom]
    exact if_neg fun h => hword.1 h.1.symm

theorem readFrom_classPattern {start : List Char} (hstart : ∀ c ∈ start, isLiteral c = true)
    (hword : ∀ c ∈ word, isLiteral c = true) (hne : word ≠ []) :
    readFrom [] .start none (start ++ '[' :: (word ++ [']'])) =
      (class? word).map fun e => ((Group.start.appendWord start).append e).expression := by
  have hclosing : ']' ∉ word := fun hmem => ne_of_isLiteral (hword _ hmem) (by decide) rfl
  have hread : readFrom [] (Group.start.appendWord start) (some []) (word ++ [']']) =
      (class? word).bind fun e =>
        readFrom [] ((Group.start.appendWord start).append e) none [] :=
    @readFrom_class [] _ word [] [] hclosing hne
  rw [readFrom_literals hstart]
  refine hread.trans ?_
  cases class? word <;> rfl

/-- A pattern with a class matches no text but those with one character behind the start. -/
theorem length_of_mem_classPattern {start text : List Char} {e : RegularExpression Char}
    (hstart : ∀ c ∈ start, isLiteral c = true) (hword : ∀ c ∈ word, isLiteral c = true)
    (hne : word ≠ []) (he : readFrom [] .start none (start ++ '[' :: (word ++ [']'])) = some e)
    (htext : text ∈ e.matches') : text.length = start.length + 1 := by
  rw [readFrom_classPattern hstart hword hne, Option.map_eq_some_iff] at he
  obtain ⟨oneOf, hclass, rfl⟩ := he
  obtain ⟨-, members, -, rfl⟩ := class?_eq_some_iff.1 hclass
  obtain ⟨_, hmember, rfl⟩ := mem_append_appendWord_start.1 htext
  obtain ⟨c, -, rfl⟩ := mem_foldr_char.1 hmember
  rw [List.length_append, List.length_singleton]

/-- A pattern with a class without ranges matches each of its characters behind the start. -/
theorem denotes_class {start : List Char} (hstart : ∀ c ∈ start, isLiteral c = true)
    (hword : ∀ c ∈ word, isLiteral c = true) (hne : word ≠ []) (hhyphen : '-' ∉ word.tail) :
    ∃ e, readFrom [] .start none (start ++ '[' :: (word ++ [']'])) = some e ∧
      ∀ text, text ∈ e.matches' ↔ ∃ c ∈ word, text = start ++ [c] := by
  have hclass : class? word = some (word.foldr (fun c e => .char c + e) 0) :=
    class?_eq_some_iff.2 ⟨fun c hc => ⟨ne_of_isLiteral (hword c hc) (by decide),
      ne_of_isLiteral (hword c hc) (by decide), ne_of_isLiteral (hword c hc) (by decide)⟩,
      word, members?_of_notMem_tail hhyphen, rfl⟩
  have hread := readFrom_classPattern hstart hword hne
  rw [hclass] at hread
  refine ⟨_, hread, fun text => ?_⟩
  rw [mem_append_appendWord_start]
  constructor
  · rintro ⟨_, hmember, rfl⟩
    obtain ⟨c, hc, rfl⟩ := mem_foldr_char.1 hmember
    exact ⟨c, hc, rfl⟩
  · rintro ⟨c, hc, rfl⟩
    exact ⟨[c], mem_foldr_char.2 ⟨c, hc, rfl⟩, rfl⟩

end TopdownMetrics.Pattern
