import TopdownMetrics.Proofs.Lexing
import TopdownMetrics.Table.SymbolTable

/-!
# Tables filled by their add operations

The names of nodes and of their children end up in formulas, so they have to be names
that the lexer reads as such.  A table is `Filled` if it is made by the add operations
with such names; then every name that it contributes to a formula can be read back.
-/

namespace TopdownMetrics

open Formula

namespace Text

/-! ## Lower case of words -/

theorem toNat_lt_of_isWordChar {c : Char} (hc : isWordChar c = true) : c.toNat < 128 := by
  have hbelow {bound : UInt32} (hle : c.val ≤ bound) (hbound : bound.toNat < 128) :
      c.toNat < 128 :=
    (UInt32.le_iff_toNat_le.1 hle).trans_lt hbound
  obtain (halphanum | hunderscore) | hpoint := (Bool.or_eq_true_iff.1 hc).imp_left
    Bool.or_eq_true_iff.1
  · obtain (hupper | hlower) | hdigit := (Bool.or_eq_true_iff.1 halphanum).imp_left
      Bool.or_eq_true_iff.1
    · exact hbelow (of_decide_eq_true hupper).2 (by decide)
    · exact hbelow (of_decide_eq_true (Bool.and_eq_true_iff.1 hlower).2) (by decide)
    · exact hbelow (of_decide_eq_true (Bool.and_eq_true_iff.1 hdigit).2) (by decide)
  · exact beq_iff_eq.1 hunderscore ▸ by decide
  · exact beq_iff_eq.1 hpoint ▸ by decide

theorem isWordChar_toLower {c : Char} (hc : isWordChar c = true) :
    isWordChar c.toLower = true := by
  have hall : ∀ n < 128, isWordChar (Char.ofNat n) = true →
      isWordChar (Char.ofNat n).toLower = true := by decide
  have hofNat : Char.ofNat c.toNat = c := Char.ofNat_toNat c
  rw [← hofNat] at hc ⊢
  exact hall c.toNat (toNat_lt_of_isWordChar (hofNat ▸ hc)) hc

theorem lowerChar_of_isWordChar {c : Char} (hc : isWordChar c = true) :
    lowerChar c = [c.toLower] :=
  if_pos (toNat_lt_of_isWordChar hc)

theorem wordChars_lowerFrom {cs : List Char} (h : WordChars cs) (before : List Char) :
    WordChars (lowerFrom before cs) := by
  induction h generalizing before with
  | nil => exact .nil
  | @char c cs hc _ ih =>
    have hsigma : c ≠ 'Σ' := by
      rintro rfl
      exact absurd (toNat_lt_of_isWordChar hc) (by decide)
    rw [lowerFrom, if_neg hsigma, lowerChar_of_isWordChar hc]
    exact .char (isWordChar_toLower hc) (ih _)
  | hyphen _ ih => exact .hyphen (ih _)

end Text

/-! ## Names of nodes -/

namespace SymbolTable

/-- What starts with the prefix of emitted nodes is neither a number nor reserved. -/
theorem isName_nodeMetricName {name : String} (h : IsWord name.toList) :
    IsName (nodeMetricName name).toList := by
  have htext : (nodeMetricName name).toList =
      't' :: 'm' :: 'a' :: '_' :: Text.lowerFrom [] name.toList := by
    simp [nodeMetricName, Text.lower]
  have hword : WordChars ('t' :: 'm' :: 'a' :: '_' :: Text.lowerFrom [] name.toList) :=
    .char (by decide) (.char (by decide) (.char (by decide) (.char (by decide)
      (Text.wordChars_lowerFrom h.wordChars []))))
  rw [htext]
  refine ⟨⟨List.cons_ne_nil _ _, takeWord_eq_self_iff.2 hword⟩, ?_, ?_⟩
  · simp [isNumeral, isHexNumeral, isDecimalNumeral, isExponentPart]
  · simp [keyword?]

/-- Tables that are made by the add operations, where nodes and children have names
that can stand in a formula. -/
inductive Filled : SymbolTable → Prop where
  | empty : Filled {}
  | node {t : SymbolTable} {name : String} (h : Filled t) (hname : IsName name.toList)
      (formula : String) : Filled (t.addNode name formula)
  | info {t : SymbolTable} (h : Filled t) (name formula : String) : Filled (t.addInfo name formula)
  | aux {t : SymbolTable} (h : Filled t) (name formula : String) : Filled (t.addAux name formula)
  | child {t : SymbolTable} {parent child : String} (h : Filled t)
      (hparent : IsName parent.toList) (hchild : IsName child.toList) :
      Filled (t.addChild parent child)
  /-- The chain of ancestors is kept beside the names. -/
  | enter {t : SymbolTable} (h : Filled t) (ancestors : List String) :
      Filled { t with ancestors := ancestors }

variable {t : SymbolTable}

theorem mem_childrenOf_addChild_iff {parent child other c : String} :
    c ∈ (t.addChild parent child).childrenOf other ↔
      (parent = other ∧ c = child) ∨ c ∈ t.childrenOf other := by
  unfold childrenOf addChild
  rw [Std.TreeSet.mem_toList, Std.TreeSet.mem_toList, Std.TreeMap.getD_insert]
  split_ifs with heq
  · obtain rfl := Std.compare_eq_iff_eq.1 heq
    rw [Std.TreeSet.mem_insert, Std.compare_eq_iff_eq]
    simp [eq_comm]
  · have hne : parent ≠ other := fun h => heq (Std.compare_eq_iff_eq.2 h)
    simp [hne]

/-- A node with children, and each of its children, has a name that can stand in a
formula. -/
theorem Filled.isName_of_mem_childrenOf (h : t.Filled) {parent c : String}
    (hc : c ∈ t.childrenOf parent) : IsName parent.toList ∧ IsName c.toList := by
  induction h with
  | empty => simp [childrenOf] at hc
  | node _ _ _ ih => exact ih hc
  | info _ _ _ ih => exact ih hc
  | aux _ _ _ ih => exact ih hc
  | child _ hparent hchild ih =>
    rcases mem_childrenOf_addChild_iff.1 hc with ⟨rfl, rfl⟩ | hc
    · exact ⟨hparent, hchild⟩
    · exact ih hc
  | enter _ _ ih => exact ih hc

theorem Filled.isName_canonicalName (h : t.Filled) {name : String}
    (hname : IsName name.toList) : IsName (t.canonicalName name).toList := by
  induction h with
  | empty => simpa [canonicalName] using hname
  | info _ _ _ ih => exact ih
  | aux _ _ _ ih => exact ih
  | child _ _ _ ih => exact ih
  | enter _ _ ih => exact ih
  | node _ hnode _ ih =>
    unfold canonicalName addNode
    rw [Std.TreeMap.getD_insert]
    split_ifs
    · exact isName_nodeMetricName hnode.1
    · exact ih

end SymbolTable

end TopdownMetrics
