import TopdownMetrics.Formula.Token
import TopdownMetrics.Formula.Error

/-!
# From text to tokens

A lexeme splits the text in front of it from the text behind it, and says so in
its type; that the scan ends follows from the split.  Words are runs of letters,
digits, `_`, `.` and the pair `\-`.  A word without a mark that is a numeral is a
number, a reserved word is a keyword, and anything else is a symbol, so
`4K_Aliasing` is a name.
-/

namespace TopdownMetrics.Formula

/-- A token at the start of `text`. -/
structure Lexeme (text : List Char) where
  token : Token
  /-- The characters of the token. -/
  source : List Char
  /-- The characters behind the token. -/
  rest : List Char
  source_ne_nil : source ≠ []
  split : source ++ rest = text

theorem Lexeme.length_rest_lt {text : List Char} (l : Lexeme text) :
    l.rest.length < text.length := by
  have hpos := List.length_pos_iff.2 l.source_ne_nil
  have hlen := congrArg List.length l.split
  simp only [List.length_append] at hlen
  omega

def byteLength : List Char → Nat
  | [] => 0
  | c :: cs => c.utf8Size + byteLength cs

/-- Operators, parentheses and the comma. -/
def punctuation? : (text : List Char) → Option (Lexeme text)
  | '+' :: rest => some ⟨.operator .add, ['+'], rest, by simp, rfl⟩
  | '-' :: rest => some ⟨.operator .sub, ['-'], rest, by simp, rfl⟩
  | '*' :: rest => some ⟨.operator .mul, ['*'], rest, by simp, rfl⟩
  | '/' :: rest => some ⟨.operator .div, ['/'], rest, by simp, rfl⟩
  | '%' :: rest => some ⟨.operator .mod, ['%'], rest, by simp, rfl⟩
  | '(' :: rest => some ⟨.leftParen, ['('], rest, by simp, rfl⟩
  | ')' :: rest => some ⟨.rightParen, [')'], rest, by simp, rfl⟩
  | ',' :: rest => some ⟨.comma, [','], rest, by simp, rfl⟩
  | '&' :: rest => some ⟨.operator .and, ['&'], rest, by simp, rfl⟩
  | '|' :: rest => some ⟨.operator .or, ['|'], rest, by simp, rfl⟩
  | '<' :: '=' :: rest => some ⟨.operator .le, ['<', '='], rest, by simp, rfl⟩
  | '<' :: rest => some ⟨.operator .lt, ['<'], rest, by simp, rfl⟩
  | '>' :: '=' :: rest => some ⟨.operator .ge, ['>', '='], rest, by simp, rfl⟩
  | '>' :: rest => some ⟨.operator .gt, ['>'], rest, by simp, rfl⟩
  | '=' :: '=' :: rest => some ⟨.operator .eq, ['=', '='], rest, by simp, rfl⟩
  | '!' :: '=' :: rest => some ⟨.operator .ne, ['!', '='], rest, by simp, rfl⟩
  | _ => none

def takeSigil : List Char → Sigil × List Char
  | '#' :: '#' :: '?' :: rest => (.aggregate, rest)
  | '#' :: '#' :: rest => (.sum, rest)
  | '#' :: rest => (.hash, rest)
  | rest => (.bare, rest)

theorem takeSigil_append (cs : List Char) :
    (takeSigil cs).1.text.toList ++ (takeSigil cs).2 = cs := by
  unfold takeSigil
  split <;> simp [Sigil.text]

def takeWord : List Char → List Char × List Char
  | [] => ([], [])
  | [c] => if isWordChar c then ([c], []) else ([], [c])
  | c :: d :: rest =>
    if isWordChar c then
      let (word, rest) := takeWord (d :: rest)
      (c :: word, rest)
    else if c = '\\' ∧ d = '-' then
      let (word, rest) := takeWord rest
      (c :: d :: word, rest)
    else
      ([], c :: d :: rest)

theorem takeWord_append (cs : List Char) : (takeWord cs).1 ++ (takeWord cs).2 = cs := by
  fun_induction takeWord cs <;> simp_all

/-- The modifiers at the start of the text.  A colon without a modifier character
behind it is left alone. -/
def takeModifiers : List Char → List (List Char) × List Char
  | ':' :: c :: rest =>
    if isModifierChar c then
      let (modifiers, rest') := takeModifiers (rest.dropWhile isModifierChar)
      ((c :: rest.takeWhile isModifierChar) :: modifiers, rest')
    else
      ([], ':' :: c :: rest)
  | cs => ([], cs)
  termination_by cs => cs.length
  decreasing_by
    have := (List.dropWhile_suffix isModifierChar (l := rest)).length_le
    simp only [List.length_cons]
    omega

theorem takeModifiers_append (cs : List Char) :
    (takeModifiers cs).1.flatMap (':' :: ·) ++ (takeModifiers cs).2 = cs := by
  fun_induction takeModifiers cs with
  | case1 c rest hc modifiers rest' heq ih =>
    simp only [heq] at ih
    simp [ih, List.takeWhile_append_dropWhile]
  | case2 => simp
  | case3 => simp

/-- The term group between two `@` at the start of the text.  The error is that
nothing closes it. -/
def takeTerms : List Char → Except Unit (Option (List Char) × List Char)
  | '@' :: cs =>
    match cs.dropWhile (· ≠ '@') with
    | [] => .error ()
    | _ :: rest => .ok (some (cs.takeWhile (· ≠ '@')), rest)
  | cs => .ok (none, cs)

def termsSource : Option (List Char) → List Char
  | none => []
  | some group => '@' :: (group ++ ['@'])

theorem takeTerms_append {cs rest : List Char} {group : Option (List Char)}
    (h : takeTerms cs = .ok (group, rest)) : termsSource group ++ rest = cs := by
  unfold takeTerms at h
  split at h
  · rename_i cs
    split at h
    · cases h
    · rename_i c tail hdrop
      cases h
      have hc : c = '@' := by
        have := List.head?_dropWhile_not (· ≠ '@') cs
        rw [hdrop] at this
        simpa using this
      have hsplit := List.takeWhile_append_dropWhile (p := (· ≠ '@')) (l := cs)
      rw [hdrop, hc] at hsplit
      simp only [termsSource, List.cons_append, List.append_assoc, List.nil_append]
      rw [hsplit]
  · cases h
    rfl

/-- A number, keyword or symbol at the start of the text, which begins at byte
`offset`. -/
def wordLexeme (offset : Nat) (first : Char) (text : List Char) :
    Except SyntaxError (Lexeme text) :=
  match hs : takeSigil text with
  | (sigil, afterSigil) =>
    match hw : takeWord afterSigil with
    | ([], _) =>
      let start := offset + sigil.text.utf8ByteSize
      .error (.unexpectedChar (afterSigil.head?.getD first) start)
    | (c :: cs, afterWord) =>
      let word := c :: cs
      have hword : sigil.text.toList ++ (word ++ afterWord) = text := by
        have h₁ := takeSigil_append text
        have h₂ := takeWord_append afterSigil
        rw [hs] at h₁
        rw [hw] at h₂
        rw [h₂]
        exact h₁
      let reserved : Option Token :=
        if sigil ≠ .bare then none
        else if isNumeral word then some (.num (String.ofList word))
        else keyword? word
      match reserved with
      | some token =>
        .ok ⟨token, sigil.text.toList ++ word, afterWord, by simp [word], by simpa using hword⟩
      | none =>
        match hm : takeModifiers afterWord with
        | (modifiers, afterModifiers) =>
          let modifierSource := modifiers.flatMap (':' :: ·)
          let source := sigil.text.toList ++ (word ++ modifierSource)
          match ht : takeTerms afterModifiers with
          | .error () => .error (.unterminatedTerms (offset + byteLength source))
          | .ok (group, rest) =>
            let symbol : Symbol :=
              ⟨sigil, String.ofList word, modifiers.map String.ofList,
                group.map String.ofList⟩
            .ok ⟨.symbol symbol, source ++ termsSource group, rest, by simp [source, word], by
              have h₁ := takeModifiers_append afterWord
              have h₂ := takeTerms_append ht
              rw [hm] at h₁
              simp only at h₁
              simp only [source, modifierSource, List.append_assoc, h₂, h₁]
              exact hword⟩

/-- The token at the start of a text that starts with `first`. -/
def lexeme (offset : Nat) (first : Char) (text : List Char) :
    Except SyntaxError (Lexeme text) :=
  match punctuation? text with
  | some l => .ok l
  | none => wordLexeme offset first text

/-- The tokens of a text that begins at byte `offset`. -/
def scan (offset : Nat) : List Char → Except SyntaxError (List PlacedToken)
  | [] => .ok []
  | c :: cs =>
    if isBlank c then
      scan (offset + c.utf8Size) cs
    else
      match lexeme offset c (c :: cs) with
      | .error e => .error e
      | .ok l =>
        match scan (offset + byteLength l.source) l.rest with
        | .error e => .error e
        | .ok tokens => .ok (⟨l.token, offset⟩ :: tokens)
  termination_by text => text.length
  decreasing_by
    · simp
    · exact l.length_rest_lt

def tokenize (text : String) : Except SyntaxError (List PlacedToken) :=
  scan 0 text.toList

end TopdownMetrics.Formula
