import Mathlib.Tactic.SplitIfs
import TopdownMetrics.Json.Printer
import TopdownMetrics.Json.Reader

/-!
# Strings in JSON

A string is written between quotes with a sign for each character that may not stand there by
itself.  The reader takes runs of plain characters and single signs in turn; since a sign starts
with a character that is not plain, the runs it finds are those of the string that was written.
-/

namespace TopdownMetrics

namespace Scanner

variable {α β : Type} {x : Scanner α} {f : α → Scanner β} {a : α} {b : β}

/-- The scanner reads `text` wherever it stands, and yields `a`. -/
def Reads (x : Scanner α) (text : List Char) (a : α) : Prop :=
  ∀ rest, x (text ++ rest) = some (a, rest)

theorem bind_apply {cs rest : List Char} (h : x cs = some (a, rest)) : (x >>= f) cs = f a rest := by
  show (x cs).bind (fun p => f p.1 p.2) = _
  rw [h]
  rfl

theorem Reads.bind {text text' : List Char} (hx : x.Reads text a) (hf : (f a).Reads text' b) :
    (x >>= f).Reads (text ++ text') b := by
  intro rest
  rw [List.append_assoc, bind_apply (hx _)]
  exact hf rest

theorem Reads.pure_bind {text : List Char} (hx : x.Reads text a) (g : α → β) :
    (x >>= fun a => pure (g a)).Reads text (g a) := by
  intro rest
  rw [bind_apply (hx rest)]
  rfl

theorem Reads.map {text : List Char} (hx : x.Reads text a) (g : α → β) :
    (g <$> x).Reads text (g a) := by
  intro rest
  show (x (text ++ rest)).bind (fun p => some (g p.1, p.2)) = _
  rw [hx rest]
  rfl

theorem reads_char (c : Char) : (char c).Reads [c] () := by
  intro rest
  have hsatisfying : satisfying (· == c) (c :: rest) = some (c, rest) := by simp [satisfying]
  show (satisfying (· == c) >>= fun _ => pure ()) (c :: rest) = _
  exact bind_apply hsatisfying

theorem reads_char_bind {f : Unit → Scanner β} {c : Char} {text : List Char}
    (h : (f ()).Reads text b) : (char c >>= f).Reads (c :: text) b :=
  (reads_char c).bind h

theorem get_bind {f : List Char → Scanner β} {cs : List Char} :
    ((get : Scanner (List Char)) >>= f) cs = f cs cs :=
  rfl

theorem peek_bind {f : Option Char → Scanner β} {c : Char} {cs : List Char} :
    (peek? >>= f) (c :: cs) = f (some c) (c :: cs) :=
  rfl

theorem stepsOnto_of_step {step : Scanner (Option α)} {cs rest : List Char}
    (h : step cs = some (some a, rest)) (found : List α) (fuel : Nat) :
    stepsOnto found (fuel + 1) step cs = stepsOnto (a :: found) fuel step rest :=
  bind_apply h

theorem stepsOnto_of_end {step : Scanner (Option α)} {cs : List Char}
    (h : step cs = some (none, cs)) (found : List α) (fuel : Nat) :
    stepsOnto found fuel step cs = some (found.reverse, cs) := by
  cases fuel with
  | zero => rfl
  | succ fuel => exact bind_apply h

end Scanner

namespace Json

open Scanner

/-! ## Escaped characters -/

theorem isPlain_iff {c : Char} : isPlain c = true ↔ c ≠ '"' ∧ c ≠ '\\' ∧ 0x20 ≤ c.toNat := by
  simp [isPlain, and_assoc]

theorem escapeChar_of_isPlain {c : Char} (h : isPlain c = true) : escapeChar c = [c] := by
  obtain ⟨hquote, hbackslash, hlow⟩ := isPlain_iff.1 h
  have hne : ∀ d : Char, d.toNat < 0x20 → c ≠ d := by
    rintro d hd rfl
    omega
  simp [escapeChar, hquote, hbackslash, hlow, hne '\x08' (by decide), hne '\x0c' (by decide),
    hne '\n' (by decide), hne '\r' (by decide), hne '\t' (by decide)]

/-- The four digits of a control character. -/
def controlDigits (n : Nat) : List Char :=
  List.replicate (4 - (Nat.toDigits 16 n).length) '0' ++ Nat.toDigits 16 n

theorem controlDigits_spec : ∀ n < 0x20, (controlDigits n).length = 4 ∧
    ((controlDigits n).mapM hexDigit?).map (·.foldl (fun n d => 16 * n + d) 0) = some n := by
  decide

theorem codeUnit_reads {digits : List Char} {ds : List Nat} (hlength : digits.length = 4)
    (hds : digits.mapM hexDigit? = some ds) :
    codeUnit.Reads digits (ds.foldl (fun n d => 16 * n + d) 0) := by
  intro rest
  have htake : (digits ++ rest).take 4 = digits := List.take_left' hlength
  have hdrop : (digits ++ rest).drop 4 = rest := List.drop_left' hlength
  have hguard : (guard (digits.length = 4) : Scanner Unit) = pure () := if_pos hlength
  unfold codeUnit
  rw [get_bind, htake, hguard, hds]
  show some (_, (digits ++ rest).drop 4) = _
  rw [hdrop]

theorem unicodeEscape_reads {digits : List Char} {n : Nat} (h : codeUnit.Reads digits n)
    (hn : n < 0xD800) : (unicodeEscape .keep).Reads digits (Char.ofNat n) := by
  intro rest
  have hguard : (guard ¬(0xDC00 ≤ n ∧ n < 0xE000) : Scanner Unit) = pure () :=
    if_pos (by omega)
  unfold unicodeEscape
  rw [bind_apply (h rest), if_neg (by decide), if_neg (by omega), hguard]
  rfl

/-- A character that is not plain is written as a sign that stands for it. -/
theorem exists_escapeChar_eq {c : Char} (h : isPlain c = false) :
    ∃ more, escapeChar c = '\\' :: more ∧ (escape .keep).Reads more c := by
  unfold escapeChar
  split_ifs with hquote hbackslash hbackspace hformfeed hnewline hreturn htab hlow
  · exact ⟨['"'], rfl, fun rest => by subst hquote; rfl⟩
  · exact ⟨['\\'], rfl, fun rest => by subst hbackslash; rfl⟩
  · exact ⟨['b'], rfl, fun rest => by subst hbackspace; rfl⟩
  · exact ⟨['f'], rfl, fun rest => by subst hformfeed; rfl⟩
  · exact ⟨['n'], rfl, fun rest => by subst hnewline; rfl⟩
  · exact ⟨['r'], rfl, fun rest => by subst hreturn; rfl⟩
  · exact ⟨['t'], rfl, fun rest => by subst htab; rfl⟩
  · refine ⟨'u' :: controlDigits c.toNat, rfl, fun rest => ?_⟩
    obtain ⟨hlength, hread⟩ := controlDigits_spec c.toNat hlow
    obtain ⟨ds, hds, hvalue⟩ := Option.map_eq_some_iff.1 hread
    have hunit := unicodeEscape_reads (codeUnit_reads hlength hds) (by omega)
    rw [hvalue, Char.ofNat_toNat] at hunit
    exact hunit rest
  · exact absurd (isPlain_iff.2 ⟨hquote, hbackslash, by omega⟩) (by simp [h])

/-! ## Runs of plain characters -/

theorem takeWhile_isPlain (cs rest : List Char) :
    (cs.flatMap escapeChar ++ '"' :: rest).takeWhile isPlain = cs.takeWhile isPlain ∧
      (cs.flatMap escapeChar ++ '"' :: rest).dropWhile isPlain =
        (cs.dropWhile isPlain).flatMap escapeChar ++ '"' :: rest := by
  induction cs with
  | nil => exact ⟨rfl, rfl⟩
  | cons c cs ih =>
    cases hplain : isPlain c with
    | true =>
      rw [List.flatMap_cons, escapeChar_of_isPlain hplain]
      simp [hplain, ih.1, ih.2]
    | false =>
      obtain ⟨more, hmore, -⟩ := exists_escapeChar_eq hplain
      have hbackslash : isPlain '\\' = false := rfl
      rw [List.flatMap_cons, hmore]
      simp [hplain, hbackslash, hmore]

/-- What the reader of a string takes at once. -/
def piece (purpose : Purpose) : Scanner (Option (List Char)) := do
  match ← peek? with
  | some '\\' => char '\\'; return some [← escape purpose]
  | some c => if isPlain c then return some (← run isPlain) else return none
  | none => return none

theorem stringRest_eq (purpose : Purpose) (fuel : Nat) :
    stringRest purpose fuel = do
      let pieces ← steps fuel (piece purpose)
      char '"'
      return String.ofList pieces.flatten :=
  rfl

theorem piece_of_isPlain {c : Char} (h : isPlain c = true) (cs : List Char) :
    piece .keep (c :: cs) =
      some (some ((c :: cs).takeWhile isPlain), (c :: cs).dropWhile isPlain) := by
  have hbackslash : c ≠ '\\' := (isPlain_iff.1 h).2.1
  unfold piece
  rw [peek_bind]
  refine congrFun (?_ : _ = run isPlain >>= fun plain => pure (some plain)) (c :: cs)
  split
  · rename_i heq
    exact absurd (Option.some.inj heq) hbackslash
  · rename_i heq
    obtain rfl := Option.some.inj heq
    exact if_pos h
  · rename_i heq
    cases heq

theorem piece_of_escape {more : List Char} {c : Char} (h : (escape .keep).Reads more c)
    (rest : List Char) : piece .keep ('\\' :: more ++ rest) = some (some [c], rest) := by
  have hsign : (char '\\' >>= fun _ => escape .keep >>= fun c => pure (some [c])).Reads
      ('\\' :: more) (some [c]) :=
    reads_char_bind (h.pure_bind fun c => some [c])
  exact hsign rest

theorem piece_of_quote (rest : List Char) : piece .keep ('"' :: rest) = some (none, '"' :: rest) :=
  rfl

theorem stepsOnto_piece (cs rest : List Char) (found : List (List Char)) {fuel : Nat}
    (hfuel : cs.length ≤ fuel) :
    ∃ pieces, stepsOnto found fuel (piece .keep) (cs.flatMap escapeChar ++ '"' :: rest) =
        some (found.reverse ++ pieces, '"' :: rest) ∧ pieces.flatten = cs := by
  -- Each step takes at least one character, so the fuel lasts.
  induction fuel generalizing cs found with
  | zero =>
    obtain rfl := List.length_eq_zero_iff.1 (Nat.le_zero.1 hfuel)
    exact ⟨[], by simp [stepsOnto_of_end (piece_of_quote rest)], rfl⟩
  | succ fuel ih =>
    cases cs with
    | nil => exact ⟨[], by simp [stepsOnto_of_end (piece_of_quote rest)], rfl⟩
    | cons c cs =>
      rw [List.length_cons] at hfuel
      cases hplain : isPlain c with
      | true =>
        have hpiece := piece_of_isPlain hplain (cs.flatMap escapeChar ++ '"' :: rest)
        obtain ⟨htake, hdrop⟩ := takeWhile_isPlain (c :: cs) rest
        rw [List.flatMap_cons, escapeChar_of_isPlain hplain] at htake hdrop ⊢
        rw [List.singleton_append, List.cons_append] at htake hdrop ⊢
        rw [htake, hdrop] at hpiece
        have hle : ((c :: cs).dropWhile isPlain).length ≤ fuel := by
          rw [List.dropWhile_cons_of_pos hplain]
          exact Nat.le_trans (List.dropWhile_suffix isPlain).length_le (by omega)
        obtain ⟨pieces, hsteps, hpieces⟩ :=
          ih ((c :: cs).dropWhile isPlain) ((c :: cs).takeWhile isPlain :: found) hle
        refine ⟨(c :: cs).takeWhile isPlain :: pieces, ?_, ?_⟩
        · rw [stepsOnto_of_step hpiece, hsteps]
          simp
        · rw [List.flatten_cons, hpieces, List.takeWhile_append_dropWhile]
      | false =>
        obtain ⟨more, hmore, hreads⟩ := exists_escapeChar_eq hplain
        obtain ⟨pieces, hsteps, hpieces⟩ := ih cs ([c] :: found) (by omega)
        refine ⟨[c] :: pieces, ?_, by simp [hpieces]⟩
        rw [List.flatMap_cons, hmore, List.append_assoc,
          stepsOnto_of_step (piece_of_escape hreads _), hsteps]
        simp

/-- A written string is read back from behind its first quote. -/
theorem stringRest_reads {s : String} {fuel : Nat} (hfuel : s.length ≤ fuel) :
    (stringRest .keep fuel).Reads (s.toList.flatMap escapeChar ++ ['"']) s := by
  intro rest
  obtain ⟨pieces, hsteps, hpieces⟩ := stepsOnto_piece s.toList rest [] hfuel
  rw [stringRest_eq, List.append_assoc, List.singleton_append]
  have hclose : char '"' ('"' :: rest) = some ((), rest) := reads_char '"' rest
  unfold steps
  rw [bind_apply hsteps, bind_apply hclose, List.reverse_nil, List.nil_append, hpieces,
    String.ofList_toList]
  rfl

theorem toList_quote (s : String) :
    (quote s).toList = '"' :: (s.toList.flatMap escapeChar ++ ['"']) := by
  simp [quote]

theorem valueWith_reads_quote {s : String} {fuel : Nat} (hfuel : s.length ≤ fuel)
    (nested : Option (Scanner Json)) :
    (valueWith .keep fuel nested).Reads (quote s).toList (.string s) := by
  have hquoted :
      (char '"' >>= fun _ => stringRest .keep fuel >>= fun s => pure (Json.string s)).Reads
        ('"' :: (s.toList.flatMap escapeChar ++ ['"'])) (Json.string s) :=
    reads_char_bind ((stringRest_reads hfuel).pure_bind Json.string)
  rw [toList_quote]
  intro rest
  exact hquoted rest

theorem value_reads_quote {s : String} {fuel : Nat} (hfuel : s.length ≤ fuel) (depth : Nat) :
    (value .keep fuel depth).Reads (quote s).toList (.string s) := by
  cases depth with
  | zero => exact valueWith_reads_quote hfuel none
  | succ depth => exact valueWith_reads_quote hfuel (some (value .keep fuel depth))

theorem one_le_length_escapeChar (c : Char) : 1 ≤ (escapeChar c).length := by
  cases hplain : isPlain c with
  | true => rw [escapeChar_of_isPlain hplain]; exact Nat.le_refl 1
  | false =>
    obtain ⟨more, hmore, -⟩ := exists_escapeChar_eq hplain
    rw [hmore]
    exact Nat.succ_pos _

theorem length_le_length_quote (s : String) : s.length ≤ (quote s).toList.length := by
  have hescaped : ∀ cs : List Char, cs.length ≤ (cs.flatMap escapeChar).length := by
    intro cs
    induction cs with
    | nil => exact Nat.le_refl 0
    | cons c cs ih =>
      have hone := one_le_length_escapeChar c
      rw [List.flatMap_cons, List.length_append, List.length_cons]
      omega
  have hle := hescaped s.toList
  rw [String.length_toList] at hle
  rw [toList_quote, List.length_cons, List.length_append]
  omega

end Json

end TopdownMetrics
