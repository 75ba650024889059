import Mathlib.Data.String.Basic
import TopdownMetrics.Text.Substring

/-!
# Cuts at a number of bytes

A text that is cut at a number of bytes has to end a character there.  The bytes of a text tell
its characters one after the other, so that two texts which share bytes share the characters
that end in them; bytes at the start of a text end between two of its characters or inside of
one.
-/

namespace TopdownMetrics.Text

/-! ## Characters and their bytes -/

def encode (cs : List Char) : List UInt8 :=
  cs.flatMap String.utf8EncodeChar

section

variable {cs front ending : List Char} {c : Char} {bs : List UInt8}

theorem encode_cons : encode (c :: cs) = String.utf8EncodeChar c ++ encode cs :=
  List.flatMap_cons

theorem encode_append : encode (front ++ ending) = encode front ++ encode ending :=
  List.flatMap_append

theorem length_encode : (encode cs).length = String.utf8Len cs := by
  induction cs with
  | nil => rfl
  | cons c cs ih =>
    rw [encode_cons, List.length_append, String.length_utf8EncodeChar, ih, String.utf8Len_cons,
      Nat.add_comm]

theorem encode_prefix_iff : encode front <+: encode cs ↔ front <+: cs := by
  constructor
  · rintro ⟨bs, hbs⟩
    refine List.isPrefix_of_utf8Encode_append_eq_utf8Encode bs.toByteArray ?_
    rw [List.utf8Encode, List.utf8Encode, ← List.toByteArray_append]
    exact congrArg List.toByteArray hbs
  · rintro ⟨ending, rfl⟩
    exact ⟨encode ending, encode_append.symm⟩

/-- Bytes at the start of a text end between two of its characters, or inside of one: then they
have its first byte, but not all of them. -/
theorem prefix_encode_cases (h : bs <+: encode cs) :
    (∃ front, encode front = bs) ∨
      ∃ front c lead, front ++ [c] <+: cs ∧ encode front ++ [lead] <+: bs ∧
        ¬ encode (front ++ [c]) <+: bs := by
  induction cs generalizing bs with
  | nil => exact .inl ⟨[], (List.prefix_nil.1 h).symm⟩
  | cons c cs ih =>
    rw [encode_cons] at h
    by_cases hwhole : String.utf8EncodeChar c <+: bs
    · obtain ⟨bs, rfl⟩ := hwhole
      rw [List.prefix_append_right_inj] at h
      obtain ⟨front, rfl⟩ | ⟨front, d, lead, hfront, hlead, hd⟩ := ih h
      · exact .inl ⟨c :: front, encode_cons⟩
      · refine .inr ⟨c :: front, d, lead, List.cons_prefix_cons.2 ⟨rfl, hfront⟩, ?_, ?_⟩
        · rwa [encode_cons, List.append_assoc, List.prefix_append_right_inj]
        · rwa [List.cons_append, encode_cons, List.prefix_append_right_inj]
    · cases bs with
      | nil => exact .inl ⟨[], rfl⟩
      | cons lead bs =>
        refine .inr ⟨[], c, lead, List.prefix_append [c] cs, List.prefix_append [lead] bs, ?_⟩
        rwa [List.nil_append, encode_cons, encode, List.flatMap_nil, List.append_nil]

end

/-! ## Cuts -/

section

variable {cs front ending : List Char} {c : Char} {n : Nat}

theorem takeBytes?_cons :
    takeBytes? (n + c.utf8Size) (c :: cs) = (takeBytes? n cs).map (c :: ·) := by
  obtain ⟨k, hk⟩ := Nat.exists_eq_add_one.2 (Nat.add_pos_right n c.utf8Size_pos)
  rw [hk, takeBytes?, ← hk, if_pos (Nat.le_add_left _ _), Nat.add_sub_cancel]

theorem dropBytes?_cons : dropBytes? (n + c.utf8Size) (c :: cs) = dropBytes? n cs := by
  obtain ⟨k, hk⟩ := Nat.exists_eq_add_one.2 (Nat.add_pos_right n c.utf8Size_pos)
  rw [hk, dropBytes?, ← hk, if_pos (Nat.le_add_left _ _), Nat.add_sub_cancel]

theorem takeBytes?_append : takeBytes? (String.utf8Len front) (front ++ ending) = some front := by
  induction front with
  | nil => rw [String.utf8Len_nil, takeBytes?]
  | cons c front ih =>
    rw [String.utf8Len_cons, List.cons_append, takeBytes?_cons, ih, Option.map_some]

theorem dropBytes?_append : dropBytes? (String.utf8Len front) (front ++ ending) = some ending := by
  induction front with
  | nil => rw [String.utf8Len_nil, List.nil_append, dropBytes?]
  | cons c front ih => rw [String.utf8Len_cons, List.cons_append, dropBytes?_cons, ih]

theorem prefix_of_takeBytes? (h : takeBytes? n cs = some front) :
    front <+: cs ∧ String.utf8Len front = n := by
  fun_induction takeBytes? n cs generalizing front with
  | case1 cs =>
    obtain rfl := Option.some.inj h
    exact ⟨List.nil_prefix, String.utf8Len_nil⟩
  | case2 => cases h
  | case3 n c cs hle ih =>
    obtain ⟨front, hfront, rfl⟩ := Option.map_eq_some_iff.1 h
    obtain ⟨hextends, hlength⟩ := ih hfront
    refine ⟨List.cons_prefix_cons.2 ⟨rfl, hextends⟩, ?_⟩
    rw [String.utf8Len_cons, hlength, Nat.sub_add_cancel hle]
  | case4 => cases h

theorem takeBytes?_eq_some_iff :
    takeBytes? n cs = some front ↔ front <+: cs ∧ String.utf8Len front = n := by
  constructor
  · exact prefix_of_takeBytes?
  · rintro ⟨⟨ending, rfl⟩, rfl⟩
    exact takeBytes?_append

end

end TopdownMetrics.Text
