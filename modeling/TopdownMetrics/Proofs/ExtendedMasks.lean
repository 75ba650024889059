import Mathlib.Tactic.Ring
import TopdownMetrics.Proofs.CleanedValues

/-!
# Unit masks with an extension

The extension of a unit mask counts in units of 256.  It is put in front of the mask as a text: the
first two characters of the mask are taken for the mark of a hexadecimal number and cut off, and
what is left follows the digits of the extension.  So the extension is moved up by as many digits as
are left.  The sum of the two comes out if there are two of them, whatever the numbers are, and
otherwise only if the extension is zero.
-/

namespace TopdownMetrics

open Json (hexDigit?)

/-! ## Hexadecimal numerals -/

def AllHex (cs : List Char) : Prop :=
  ∀ c ∈ cs, (hexDigit? c).isSome = true

instance : DecidablePred AllHex := fun cs =>
  decidable_of_iff (cs.all fun c => (hexDigit? c).isSome) List.all_eq_true

def hexValue (cs : List Char) : Nat :=
  cs.foldl (fun n c => 16 * n + (hexDigit? c).getD 0) 0

/-- The text without the mark of a hexadecimal number. -/
def hexDigits : List Char → List Char
  | '0' :: 'x' :: cs => cs
  | cs => cs

/-- The text is a hexadecimal numeral for the number, with or without its mark and with any zeros
in front. -/
structure IsHexNumeral (cs : List Char) (n : Nat) : Prop where
  ne_nil : hexDigits cs ≠ []
  allHex : AllHex (hexDigits cs)
  value : hexValue (hexDigits cs) = n

instance (cs : List Char) (n : Nat) : Decidable (IsHexNumeral cs n) :=
  decidable_of_iff
    (hexDigits cs ≠ [] ∧ AllHex (hexDigits cs) ∧ hexValue (hexDigits cs) = n)
    ⟨fun ⟨hne, hall, hvalue⟩ => ⟨hne, hall, hvalue⟩, fun h => ⟨h.ne_nil, h.allHex, h.value⟩⟩

theorem AllHex.append {cs ds : List Char} (h : AllHex cs) (h' : AllHex ds) : AllHex (cs ++ ds) :=
  List.forall_mem_append.2 ⟨h, h'⟩

theorem hexDigits_of_allHex {cs : List Char} (h : AllHex cs) : hexDigits cs = cs := by
  unfold hexDigits
  split
  · exact absurd (h 'x' (by simp)) (by decide)
  · rfl

theorem hexDigits_cases (cs : List Char) :
    (∃ ds, cs = '0' :: 'x' :: ds ∧ hexDigits cs = ds) ∨ hexDigits cs = cs := by
  unfold hexDigits
  split
  · exact .inl ⟨_, rfl, rfl⟩
  · exact .inr rfl

theorem foldl_hex_eq (cs : List Char) (n : Nat) :
    cs.foldl (fun n c => 16 * n + (hexDigit? c).getD 0) n = n * 16 ^ cs.length + hexValue cs := by
  unfold hexValue
  induction cs generalizing n with
  | nil => simp
  | cons c cs ih =>
    rw [List.foldl_cons, List.foldl_cons, ih, ih (16 * 0 + _), List.length_cons]
    ring

theorem hexValue_append (cs ds : List Char) :
    hexValue (cs ++ ds) = hexValue cs * 16 ^ ds.length + hexValue ds := by
  rw [hexValue, List.foldl_append, foldl_hex_eq]
  rfl

theorem hexValue_cons (c : Char) (cs : List Char) :
    hexValue (c :: cs) = (hexDigit? c).getD 0 * 16 ^ cs.length + hexValue cs := by
  rw [hexValue, List.foldl_cons, foldl_hex_eq]
  simp

theorem hexDigit?_bounds {c : Char} {d : Nat} (h : hexDigit? c = some d) :
    d < 16 ∧ c.toNat < 128 := by
  unfold hexDigit? at h
  simp only [Char.isDigit, Char.le_def, UInt32.le_iff_toNat_le, Bool.and_eq_true,
    decide_eq_true_eq] at h
  split_ifs at h with hdigit hlower hupper
  · change 48 ≤ c.toNat ∧ c.toNat ≤ 57 at hdigit
    change some (c.toNat - 48) = some d at h
    have hd := Option.some.inj h
    omega
  · change 97 ≤ c.toNat ∧ c.toNat ≤ 102 at hlower
    change some (c.toNat - 97 + 10) = some d at h
    have hd := Option.some.inj h
    omega
  · change 65 ≤ c.toNat ∧ c.toNat ≤ 70 at hupper
    change some (c.toNat - 65 + 10) = some d at h
    have hd := Option.some.inj h
    omega

theorem hexValue_lt (cs : List Char) : hexValue cs < 16 ^ cs.length := by
  induction cs with
  | nil => decide
  | cons c cs ih =>
    have hdigit : (hexDigit? c).getD 0 ≤ 15 := by
      cases hc : hexDigit? c with
      | none => decide
      | some d => exact Nat.le_of_lt_succ (hexDigit?_bounds hc).1
    have hfront := Nat.mul_le_mul_right (16 ^ cs.length) hdigit
    rw [hexValue_cons, List.length_cons, pow_succ]
    omega

namespace IsHexNumeral

variable {cs : List Char} {n m : Nat}

theorem unique (h : IsHexNumeral cs n) (h' : IsHexNumeral cs m) : n = m :=
  h.value.symm.trans h'.value

theorem append (h : IsHexNumeral cs n) {ds : List Char} (hds : AllHex ds) :
    IsHexNumeral (cs ++ ds) (n * 16 ^ ds.length + hexValue ds) := by
  have hdigits : hexDigits (cs ++ ds) = hexDigits cs ++ ds := by
    rcases hexDigits_cases cs with ⟨es, rfl, hes⟩ | hcs
    · rw [hes]
      rfl
    · have hall := h.allHex
      rw [hcs] at hall ⊢
      exact hexDigits_of_allHex (hall.append hds)
  constructor
  · rw [hdigits]
    exact List.append_ne_nil_of_left_ne_nil h.ne_nil ds
  · rw [hdigits]
    exact h.allHex.append hds
  · rw [hdigits, hexValue_append, h.value]

/-- The digits behind the place of the mark. -/
theorem allHex_drop_two (h : IsHexNumeral cs n) : AllHex (cs.drop 2) := by
  rcases hexDigits_cases cs with ⟨ds, rfl, hds⟩ | hcs
  · have hall := h.allHex
    rwa [hds] at hall
  · have hall := h.allHex
    rw [hcs] at hall
    exact fun c hc => hall c (List.mem_of_mem_drop hc)

end IsHexNumeral

/-! ## The canonical form -/

theorem hexDigit?_digitChar : ∀ d < 16, hexDigit? d.digitChar = some d := by
  decide

theorem allHex_toDigits (n : Nat) :
    AllHex (Nat.toDigits 16 n) ∧ hexValue (Nat.toDigits 16 n) = n := by
  induction n using Nat.strong_induction_on with
  | h n ih =>
    have hsingle (d : Nat) (hd : d < 16) : AllHex [d.digitChar] ∧ hexValue [d.digitChar] = d := by
      simp [AllHex, hexValue, hexDigit?_digitChar d hd]
    by_cases hn : n < 16
    · rw [Nat.toDigits_of_lt_base hn]
      exact hsingle n hn
    · obtain ⟨hall, hvalue⟩ := ih (n / 16) (by omega)
      obtain ⟨hlast, hdigit⟩ := hsingle (n % 16) (by omega)
      rw [Nat.toDigits_of_base_le (by decide) (by omega), hexValue_append, hvalue, hdigit]
      refine ⟨hall.append hlast, ?_⟩
      rw [List.length_singleton, pow_one]
      omega

theorem isHexNumeral_hexText (n : Nat) : IsHexNumeral (hexText n).toList n := by
  have hdigits : hexDigits (hexText n).toList = Nat.toDigits 16 n := by
    simp only [hexText, String.toList_append, String.toList_ofList]
    rfl
  obtain ⟨hall, hvalue⟩ := allHex_toDigits n
  constructor
  · rw [hdigits]
    exact Nat.toDigits_ne_nil
  · rwa [hdigits]
  · rwa [hdigits]

theorem dropRepeated_of_notMem {c d : Char} {cs : List Char} (h : d ∉ cs) (fuel : Nat) :
    Text.dropRepeated [c, d] fuel cs = cs := by
  cases fuel with
  | zero => rfl
  | succ fuel =>
    rw [Text.dropRepeated, if_neg]
    rw [List.isPrefixOf_iff_prefix]
    exact fun hfront => h (hfront.subset (by simp))

theorem AllHex.dropRepeated {cs : List Char} (h : AllHex cs) {c d : Char} (hd : hexDigit? d = none)
    (fuel : Nat) : Text.dropRepeated [c, d] fuel cs = cs := by
  apply dropRepeated_of_notMem
  intro hmem
  have hsome := h d hmem
  rw [hd] at hsome
  cases hsome

theorem IsHexNumeral.dropRepeated {cs : List Char} {n : Nat} (h : IsHexNumeral cs n) :
    Text.dropRepeated ['0', 'x'] cs.length cs = hexDigits cs := by
  have hall := h.allHex
  rcases hexDigits_cases cs with ⟨ds, rfl, hds⟩ | hcs
  · rw [hds] at hall ⊢
    exact hall.dropRepeated (by decide) _
  · rw [hcs] at hall ⊢
    exact hall.dropRepeated (by decide) _

theorem hexWord?_of_allHex {cs : List Char} (h : AllHex cs) (hne : cs ≠ []) :
    hexWord? cs = if hexValue cs < UInt64.size then some (hexValue cs) else none := by
  have hdigits : cs.mapM hexDigit? = some (cs.map fun c => (hexDigit? c).getD 0) := by
    clear hne
    induction cs with
    | nil => rfl
    | cons c cs ih =>
      obtain ⟨hc, hcs⟩ := List.forall_mem_cons.1 h
      obtain ⟨d, hd⟩ := Option.isSome_iff_exists.1 hc
      simp [List.mapM_cons, hd, ih hcs]
  unfold hexWord?
  split
  · exact absurd (h '+' List.mem_cons_self) (by decide)
  · dsimp only
    rw [if_neg hne, hdigits]
    dsimp only
    rw [List.foldl_map]
    rfl

theorem canonicalHex_of_isHexNumeral {text : String} {n : Nat} (h : IsHexNumeral text.toList n) :
    canonicalHex text = if n < UInt64.size then hexText n else text := by
  unfold canonicalHex
  dsimp only
  rw [h.dropRepeated, h.allHex.dropRepeated (by decide), hexWord?_of_allHex h.allHex h.ne_nil,
    h.value]
  by_cases hn : n < UInt64.size
  · rw [if_pos hn, if_pos hn]
  · rw [if_neg hn, if_neg hn]

theorem canonicalHex_eq_hexText_iff {text : String} {n m : Nat} (h : IsHexNumeral text.toList n)
    (hm : m < UInt64.size) : canonicalHex text = hexText m ↔ n = m := by
  rw [canonicalHex_of_isHexNumeral h]
  constructor
  · intro heq
    split at heq
    · have hn := isHexNumeral_hexText n
      rw [heq] at hn
      exact hn.unique (isHexNumeral_hexText m)
    · rw [heq] at h
      exact h.unique (isHexNumeral_hexText m)
  · rintro rfl
    rw [if_pos hm]

/-! ## The mask behind its extension -/

theorem Text.getD_dropBytes?_of_ascii {cs : List Char} (h : ∀ c ∈ cs, c.utf8Size = 1) (k : Nat) :
    (dropBytes? k cs).getD [] = cs.drop k := by
  induction cs generalizing k with
  | nil =>
    cases k <;> simp [dropBytes?]
  | cons c cs ih =>
    obtain ⟨hc, hcs⟩ := List.forall_mem_cons.1 h
    cases k with
    | zero => simp [dropBytes?]
    | succ k =>
      rw [dropBytes?, hc, if_pos (by omega), Nat.add_sub_cancel, ih hcs, List.drop_succ_cons]

namespace IsHexNumeral

variable {cs : List Char} {n m : Nat}

theorem utf8Size_eq_one (h : IsHexNumeral cs n) : ∀ c ∈ cs, c.utf8Size = 1 := by
  have hdigit {c : Char} (hc : (hexDigit? c).isSome = true) : c.utf8Size = 1 := by
    obtain ⟨d, hd⟩ := Option.isSome_iff_exists.1 hc
    have hascii : c.val ≤ 127 :=
      UInt32.le_iff_toNat_le.2 (Nat.le_of_lt_succ (hexDigit?_bounds hd).2)
    exact if_pos hascii
  have hall := h.allHex
  rcases hexDigits_cases cs with ⟨ds, rfl, hds⟩ | hcs
  · rw [hds] at hall
    intro c hc
    rcases List.mem_cons.1 hc with rfl | hc
    · decide
    · rcases List.mem_cons.1 hc with rfl | hc
      · decide
      · exact hdigit (hall c hc)
  · rw [hcs] at hall
    exact fun c hc => hdigit (hall c hc)

/-- A numeral of four characters has two digits behind the place of the mark, and these make up
every number below 256. -/
theorem hexValue_drop_two (h : IsHexNumeral cs n) (hn : n < 256) (hlength : cs.length = 4) :
    hexValue (cs.drop 2) = n := by
  have hvalue := h.value
  rcases hexDigits_cases cs with ⟨ds, rfl, hds⟩ | hcs
  · rwa [hds] at hvalue
  · have hbehind : (cs.drop 2).length = 2 := by
      rw [List.length_drop]
      omega
    rw [hcs, ← List.take_append_drop 2 cs, hexValue_append, hbehind] at hvalue
    omega

/-- Moving a number up by some digits is moving it up by two only for two digits. -/
theorem glued_eq_iff (h : IsHexNumeral cs n) (hn : n < 256) (x : Nat) :
    x * 16 ^ (cs.drop 2).length + hexValue (cs.drop 2) = x * 256 + n ↔
      if x = 0 then hexValue (cs.drop 2) = n else cs.length = 4 := by
  by_cases hx : x = 0
  · simp [hx]
  · rw [if_neg hx]
    constructor
    · intro hsum
      have hlength : (cs.drop 2).length = cs.length - 2 := List.length_drop
      have hbehind := hexValue_lt (cs.drop 2)
      rcases Nat.lt_trichotomy (cs.drop 2).length 2 with hshort | htwo | hlong
      · have hpow : 16 ^ (cs.drop 2).length ≤ 16 ^ 1 := Nat.pow_le_pow_right (by decide) (by omega)
        have hup := Nat.mul_le_mul_left x hpow
        omega
      · omega
      · have hpow : 16 ^ 3 ≤ 16 ^ (cs.drop 2).length := Nat.pow_le_pow_right (by decide) hlong
        have hup := Nat.mul_le_mul_left x hpow
        omega
    · intro hlength
      have hbehind : (cs.drop 2).length = 2 := by
        rw [List.length_drop]
        omega
      rw [hbehind, h.hexValue_drop_two hn hlength]
      norm_num

end IsHexNumeral

namespace Event

/-- The cell of a unit mask up to its first comma, cleaned. -/
def maskCell (text : String) : List Char :=
  Text.trimChars ((cleanMarks (Text.trim text)).toList.takeWhile (· ≠ ','))

def extensionCell (text : String) : List Char :=
  (cleanMarks (Text.trim text)).toList

theorem umask_of_ofMembers? {raw : Json.Members} {e : Event} (h : ofMembers? raw = some e)
    (hunit : e.unit ≠ some "PCU") (hfixed : isFixed raw = false) : e.umask = umask? raw := by
  unfold ofMembers? at h
  cases hname : clean? raw "EventName" with
  | none => simp [hname] at h
  | some name =>
    simp only [hname, Option.bind_eq_bind, Option.bind_some, Option.pure_def] at h
    obtain rfl := Option.some.inj h
    have hother : (unit? raw (fixName name) == some "PCU") = false := beq_false_of_ne hunit
    simp only [hfixed, hother, Bool.or_false, Bool.false_eq_true, if_false]

section

variable {raw : Json.Members} {text extension : String} {u x : Nat}

theorem eq_zero_of_placeholder (hx : IsHexNumeral (extensionCell extension) x)
    (hunset : extension ∈ unsetValues) : x = 0 := by
  have hvalues : ∀ value ∈ unsetValues, AllHex (hexDigits (extensionCell value)) →
      hexValue (hexDigits (extensionCell value)) = 0 := by decide +kernel
  exact hx.value.symm.trans (hvalues extension hunset hx.allHex)

/-- The mask as a text, before it is brought into canonical form. -/
theorem umask?_eq (htext : text? raw "UMask" = some text)
    (hextension : text? raw "UMaskExt" = some extension) (hu : IsHexNumeral (maskCell text) u)
    (hx : IsHexNumeral (extensionCell extension) x) :
    umask? raw = if text ∈ unsetValues then none
      else some (canonicalHex (String.ofList (if extension ∈ unsetValues then maskCell text
        else extensionCell extension ++ (maskCell text).drop 2))) := by
  have hne : text ≠ "" := by
    rintro rfl
    exact hu.ne_nil (by decide)
  have hne' : extension ≠ "" := by
    rintro rfl
    exact hx.ne_nil (by decide)
  have hbehind := Text.getD_dropBytes?_of_ascii hu.utf8Size_eq_one 2
  unfold umask?
  rw [clean?_eq, clean?_eq, htext, hextension]
  simp only [Option.bind_some, hne, hne', false_or]
  by_cases hunset : text ∈ unsetValues
  · rw [if_pos hunset, if_pos hunset]
    rfl
  · rw [if_neg hunset, if_neg hunset]
    by_cases hunset' : extension ∈ unsetValues
    · simp only [if_pos hunset', Option.bind_eq_bind, Option.bind_some]
      rfl
    · simp only [if_neg hunset', Option.bind_eq_bind, Option.bind_some, Option.pure_def]
      rw [← maskCell, hbehind]
      simp [extensionCell]

/-- Below 256 and 2^56 the mask and its extension have a sum of 64 bits. -/
theorem umask?_eq_sum_iff (htext : text? raw "UMask" = some text)
    (hextension : text? raw "UMaskExt" = some extension) (hu : IsHexNumeral (maskCell text) u)
    (hu' : u < 256) (hx : IsHexNumeral (extensionCell extension) x) (hx' : x < 2 ^ 56) :
    umask? raw = some (hexText (x * 256 + u)) ↔
      text ∉ unsetValues ∧ (extension ∉ unsetValues →
        if x = 0 then hexValue ((maskCell text).drop 2) = u else (maskCell text).length = 4) := by
  have hsum : x * 256 + u < UInt64.size := by
    have hsize : UInt64.size = 2 ^ 56 * 256 := by decide
    omega
  rw [umask?_eq htext hextension hu hx]
  by_cases hunset : text ∈ unsetValues
  · simp [hunset]
  · rw [if_neg hunset, Option.some.injEq]
    by_cases hunset' : extension ∈ unsetValues
    · have hzero := eq_zero_of_placeholder hx hunset'
      have hmask : IsHexNumeral (String.ofList (maskCell text)).toList u := by
        rw [String.toList_ofList]
        exact hu
      rw [if_pos hunset', canonicalHex_eq_hexText_iff hmask hsum]
      simp [hunset, hunset', hzero]
    · have hglued : IsHexNumeral (String.ofList (extensionCell extension ++
          (maskCell text).drop 2)).toList
          (x * 16 ^ ((maskCell text).drop 2).length + hexValue ((maskCell text).drop 2)) := by
        rw [String.toList_ofList]
        exact hx.append hu.allHex_drop_two
      rw [if_neg hunset', canonicalHex_eq_hexText_iff hglued hsum, hu.glued_eq_iff hu']
      simp [hunset, hunset']

end

/-- The mask of an event and its extension are added up, with the extension counted in units of
256, if and only if the mask is no placeholder and, in front of an extension that is none either,
four characters long; for an extension of zero the digits behind its first two characters have to be
all of it.  So a mask of two digits behind `0x` is right with every extension, but `0x00` is lost
with its extension. -/
theorem umask_is_sum_iff {raw : Json.Members} {e : Event} {text extension : String} {u x : Nat}
    (h : ofMembers? raw = some e) (hunit : e.unit ≠ some "PCU") (hfixed : isFixed raw = false)
    (htext : text? raw "UMask" = some text) (hextension : text? raw "UMaskExt" = some extension)
    (hu : IsHexNumeral (maskCell text) u) (hu' : u < 256)
    (hx : IsHexNumeral (extensionCell extension) x) (hx' : x < 2 ^ 56) :
    (e.umask = some (hexText (x * 256 + u)) ↔
      text ∉ unsetValues ∧ (extension ∉ unsetValues →
        if x = 0 then hexValue ((maskCell text).drop 2) = u else (maskCell text).length = 4)) ∧
      ((maskCell text).length = 4 → text ∉ unsetValues →
        e.umask = some (hexText (x * 256 + u))) ∧
      (text ∈ unsetValues → e.umask = none) := by
  have hiff := umask?_eq_sum_iff htext hextension hu hu' hx hx'
  rw [umask_of_ofMembers? h hunit hfixed]
  refine ⟨hiff, fun hlength hunset => hiff.2 ⟨hunset, fun _ => ?_⟩, fun hunset => ?_⟩
  · split
    · exact hu.hexValue_drop_two hu' hlength
    · exact hlength
  · rw [umask?_eq htext hextension hu hx, if_pos hunset]

/-- Only the first part of the mask counts, and the extension has no mark of its own. -/
def insertsMembers : Json.Members :=
  [("EventName", .string "UNC_CHA_TOR_INSERTS.IA"), ("Unit", .string "CHA"),
    ("UMask", .string "0x01,0x02"), ("UMaskExt", .string "00C001FE")]

theorem umask_insertsMembers :
    ∃ e, ofMembers? insertsMembers = some e ∧ e.umask = some (hexText (0xC001FE * 256 + 1)) ∧
      hexText (0xC001FE * 256 + 1) = "0xc001fe01" := by
  have hsome : (ofMembers? insertsMembers).map (·.unit) = some (some "CHA") := by decide +kernel
  obtain ⟨e, he, hunit⟩ := Option.map_eq_some_iff.1 hsome
  have hcpu : e.unit ≠ some "PCU" := by simp [hunit]
  have htext : text? insertsMembers "UMask" = some "0x01,0x02" := by decide +kernel
  have hextension : text? insertsMembers "UMaskExt" = some "00C001FE" := by decide +kernel
  have hu : IsHexNumeral (maskCell "0x01,0x02") 1 := by decide +kernel
  have hx : IsHexNumeral (extensionCell "00C001FE") 0xC001FE := by decide +kernel
  have hsum := umask_is_sum_iff he hcpu (by decide +kernel) htext hextension hu (by decide) hx
    (by decide)
  exact ⟨e, he, hsum.2.1 (by decide +kernel) (by decide), by decide +kernel⟩

def narrowMembers : Json.Members :=
  [("EventName", .string "A"), ("UMask", .string "0x2"), ("UMaskExt", .string "0x10")]

def zeroMembers : Json.Members :=
  [("EventName", .string "A"), ("UMask", .string "0x00"), ("UMaskExt", .string "0x10")]

/-- One digit too few moves the extension up by one digit only, and a mask of zero takes its
extension with it. -/
theorem umask_narrowMembers :
    (ofMembers? narrowMembers).map (·.umask) = some (some "0x102") ∧
      IsHexNumeral (maskCell "0x2") 2 ∧ IsHexNumeral (extensionCell "0x10") 0x10 ∧
      hexText (0x10 * 256 + 2) = "0x1002" ∧
      (ofMembers? zeroMembers).map (·.umask) = some none ∧ IsHexNumeral (maskCell "0x00") 0 ∧
      hexText (0x10 * 256) = "0x1000" := by
  decide +kernel

end Event

end TopdownMetrics
