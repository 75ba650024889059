import Mathlib.Data.List.Induction
import Mathlib.Data.List.Pairwise
import Mathlib.Data.List.Sort
import Mathlib.Data.Prod.Lex
import Mathlib.Data.String.Basic
import TopdownMetrics.Models.Mapfile

/-!
# The models of a mapfile

The rows of a mapfile are gathered one after the other, and a row is refused if it disagrees
with what is already there.  What is there says no more than the set of the rows: which of two
rows that disagree comes first makes no difference, and neither does the order of rows that
agree.  Models with the same long name are in the order of their short names because the sort
by long names is stable.
-/

namespace TopdownMetrics

/-! ## Sorted lists -/

section

variable {α : Type} {le : α → α → Bool} {R : α → α → Prop} {l : List α}

theorem rel_of_mem_zipIdx (h : l.Pairwise R) {p q : α × Nat} (hp : p ∈ l.zipIdx)
    (hq : q ∈ l.zipIdx) (hlt : p.2 < q.2) : R p.1 q.1 := by
  obtain ⟨hpl, hpeq⟩ := List.getElem?_eq_some_iff.1 (List.mem_zipIdx_iff_getElem?.1 hp)
  obtain ⟨hql, hqeq⟩ := List.getElem?_eq_some_iff.1 (List.mem_zipIdx_iff_getElem?.1 hq)
  rw [← hpeq, ← hqeq]
  exact List.pairwise_iff_getElem.1 h p.2 q.2 hpl hql hlt

/-- A stable sort leaves those that it does not tell apart in their order. -/
theorem pairwise_mergeSort_of_pairwise (htrans : ∀ a b c, le a b → le b c → le a c)
    (htotal : ∀ a b, le a b || le b a) (h : l.Pairwise R) :
    (l.mergeSort le).Pairwise fun a b => le a b ∧ (le b a → R a b) := by
  have hsorted := List.pairwise_mergeSort (List.zipIdxLE_trans htrans)
    (List.zipIdxLE_total htotal) l.zipIdx
  have hperm := List.mergeSort_perm l.zipIdx (List.zipIdxLE le)
  have hnodup : ((l.zipIdx.mergeSort (List.zipIdxLE le)).map (·.2)).Nodup := by
    rw [(hperm.map _).nodup_iff, List.zipIdx_map_snd]
    exact List.nodup_range'
  -- Each element is sorted with its place in the list, by which ties are broken.
  rw [← List.mergeSort_zipIdx, List.pairwise_map]
  refine (hsorted.and (List.pairwise_map.1 hnodup)).imp_of_mem ?_
  rintro p q hp hq ⟨hle, hne⟩
  unfold List.zipIdxLE at hle
  by_cases hpq : le p.1 q.1
  · refine ⟨hpq, fun hqp => ?_⟩
    have hlt : p.2 < q.2 := by
      simp only [hpq, hqp, if_true, decide_eq_true_eq] at hle
      omega
    exact rel_of_mem_zipIdx h (hperm.mem_iff.1 hp) (hperm.mem_iff.1 hq) hlt
  · simp [hpq] at hle

end

/-- A sorted list is told by what is in it. -/
theorem eq_of_pairwise_lt {α β : Type} [LinearOrder β] {key : α → β} {l l' : List α}
    (h : l.Pairwise fun a b => key a < key b) (h' : l'.Pairwise fun a b => key a < key b)
    (hmem : ∀ a, a ∈ l ↔ a ∈ l') : l = l' := by
  have hirrefl : Std.Irrefl fun a b => key a < key b := ⟨fun a => lt_irrefl (key a)⟩
  have hantisymm : Std.Antisymm fun a b => key a < key b :=
    ⟨fun _ _ hab hba => absurd hba hab.asymm⟩
  exact List.Pairwise.eq_of_mem_iff h h' hmem

theorem compare_string_eq_lt_iff {a b : String} : compare a b = .lt ↔ a < b :=
  compareOfLessAndEq_eq_lt

theorem isLE_compare_string_iff {a b : String} : (compare a b).isLE ↔ a ≤ b :=
  isLE_compareOfLessAndEq String.le_antisymm String.not_le String.le_total

namespace Text

variable {names : List String} {name : String}

theorem mem_distinctSorted : name ∈ distinctSorted names ↔ name ∈ names := by
  simp [distinctSorted]

theorem pairwise_distinctSorted : (distinctSorted names).Pairwise (· < ·) :=
  Std.TreeSet.ordered_toList.imp compare_string_eq_lt_iff.1

end Text

/-- A text that is put together is read part by part. -/
theorem Csv.rows_join (parts : List String) :
    Csv.rows (String.join parts) =
      ((match parts.flatMap String.toList with
        | '\ufeff' :: cs => cs
        | cs => cs).foldl Csv.Progress.step .start).finish := by
  rw [← String.toList_join]
  rfl

/-! ## Rows of one model -/

/-- Two rows of one model agree. -/
structure MapfileRow.Agrees (row other : MapfileRow) : Prop where
  longname : row.longname = other.longname
  version : row.version = other.version
  path : row.kind = other.kind → row.path = other.path

/-- Rows of one model agree, unless it is Knights Mill. -/
def MapfileRow.Compatible (row other : MapfileRow) : Prop :=
  row.shortname = other.shortname → row.shortname ≠ "KNM" → row.Agrees other

instance (row other : MapfileRow) : Decidable (row.Agrees other) :=
  decidable_of_iff (row.longname = other.longname ∧ row.version = other.version ∧
      (row.kind = other.kind → row.path = other.path))
    ⟨fun ⟨hlongname, hversion, hpath⟩ => ⟨hlongname, hversion, hpath⟩,
      fun ⟨hlongname, hversion, hpath⟩ => ⟨hlongname, hversion, hpath⟩⟩

instance (row other : MapfileRow) : Decidable (row.Compatible other) :=
  inferInstanceAs (Decidable (row.shortname = other.shortname → _ → _))

namespace MapfileRow.Compatible

instance : Std.Symm MapfileRow.Compatible where
  symm _ _ h hname hknm := by
    obtain ⟨hlongname, hversion, hpath⟩ := h hname.symm (hname ▸ hknm)
    exact ⟨hlongname.symm, hversion.symm, fun hkind => (hpath hkind.symm).symm⟩

theorem refl (row : MapfileRow) : row.Compatible row :=
  fun _ _ => ⟨rfl, rfl, fun _ => rfl⟩

end MapfileRow.Compatible

def MapfileRow.Consistent (rows : List MapfileRow) : Prop :=
  ∀ row ∈ rows, ∀ other ∈ rows, row.Compatible other

instance (rows : List MapfileRow) : Decidable (MapfileRow.Consistent rows) :=
  inferInstanceAs (Decidable (∀ row ∈ rows, ∀ other ∈ rows, row.Compatible other))

theorem MapfileRow.consistent_iff_pairwise {rows : List MapfileRow} :
    Consistent rows ↔ rows.Pairwise Compatible := by
  constructor
  · intro h
    exact List.pairwise_of_forall_mem_list fun row hrow other hother => h row hrow other hother
  · intro h row hrow other hother
    exact h.forall_of_forall (fun row _ => .refl row) hrow hother

/-! ## Gathering rows -/

/-- The rows of one model. -/
def MapfileRow.ofModel (shortname : String) (rows : List MapfileRow) : List MapfileRow :=
  rows.filter (·.shortname == shortname)

theorem MapfileRow.mem_ofModel {shortname : String} {rows : List MapfileRow} {row : MapfileRow} :
    row ∈ ofModel shortname rows ↔ row ∈ rows ∧ row.shortname = shortname := by
  simp [ofModel]

theorem MapfileRow.mem_identifiers_iff {shortname identifier : String}
    {rows : List MapfileRow} :
    identifier ∈ ((ofModel shortname rows).map (·.identifier)).reverse ↔
      ∃ row ∈ rows, row.shortname = shortname ∧ row.identifier = identifier := by
  simp [mem_ofModel, and_assoc]

theorem MapfileRow.ofModel_concat (shortname : String) (rows : List MapfileRow)
    (row : MapfileRow) :
    ofModel shortname (rows ++ [row]) =
      ofModel shortname rows ++ if row.shortname = shortname then [row] else [] := by
  by_cases hname : row.shortname = shortname
  · simp [ofModel, hname]
  · simp [ofModel, hname]

/-- An entry says what the rows of its model say. -/
structure ModelEntry.Collects (entry : ModelEntry) (base : String) (rows : List MapfileRow) :
    Prop where
  longname : ∀ row ∈ rows, entry.longname = row.longname
  version : ∀ row ∈ rows, entry.version = row.version
  identifiers : entry.identifiers = (rows.map (·.identifier)).reverse
  files : ∀ kind url, entry.files[kind]? = some url ↔
    ∃ row ∈ rows, row.kind = kind ∧ base ++ row.path = url

namespace MapfileEntries

/-- Entries say what the rows say, and have a model for each short name but Knights Mill. -/
structure Gathers (entries : MapfileEntries) (base : String) (rows : List MapfileRow) :
    Prop where
  collects : ∀ shortname (entry : ModelEntry), entries.models[shortname]? = some entry →
    entry.Collects base (MapfileRow.ofModel shortname rows)
  mem_models : ∀ shortname, shortname ∈ entries.models ↔
    shortname ≠ "KNM" ∧ ∃ row ∈ rows, row.shortname = shortname
  adopted : entries.adopted = ((MapfileRow.ofModel "KNM" rows).map (·.identifier)).reverse

section

variable {entries entries' : MapfileEntries} {entry entry' : ModelEntry} {base : String}
  {row : MapfileRow} {rows : List MapfileRow}

theorem addTo_eq_ok_iff :
    addTo base row entry = .ok entry' ↔
      (entry.longname = row.longname ∧ entry.version = row.version ∧
        entry.files.getD row.kind (base ++ row.path) = base ++ row.path) ∧
      entry' = { entry with
        identifiers := row.identifier :: entry.identifiers
        files := entry.files.insert row.kind (base ++ row.path) } := by
  unfold addTo
  by_cases hlongname : entry.longname = row.longname
  · by_cases hversion : entry.version = row.version
    · by_cases hlisted : entry.files.getD row.kind (base ++ row.path) = base ++ row.path
      · simp [hlongname, hversion, hlisted, eq_comm]
      · simp [hlongname, hversion, hlisted]
    · simp [hlongname, hversion]
  · simp [hlongname]

theorem collects_blankEntry (row : MapfileRow) : (blankEntry row).Collects base [] where
  longname := by simp
  version := by simp
  identifiers := rfl
  files := by simp [blankEntry]

theorem url_eq_iff {path path' : String} : base ++ path = base ++ path' ↔ path = path' :=
  String.append_right_inj base

/-- An entry takes a row exactly if all earlier rows of the model agree with it. -/
theorem accepts_iff (h : entry.Collects base rows) (hnew : rows = [] → entry = blankEntry row) :
    (entry.longname = row.longname ∧ entry.version = row.version ∧
        entry.files.getD row.kind (base ++ row.path) = base ++ row.path) ↔
      ∀ earlier ∈ rows, earlier.Agrees row := by
  rw [Std.TreeMap.getD_eq_getD_getElem?]
  constructor
  · rintro ⟨hlongname, hversion, hlisted⟩ earlier hearlier
    refine ⟨(h.longname earlier hearlier).symm.trans hlongname,
      (h.version earlier hearlier).symm.trans hversion, fun hkind => ?_⟩
    rw [(h.files row.kind _).2 ⟨earlier, hearlier, hkind, rfl⟩] at hlisted
    exact url_eq_iff.1 hlisted
  · intro hagrees
    have hfirst : entry.longname = row.longname ∧ entry.version = row.version := by
      cases rows with
      | nil =>
        rw [hnew rfl]
        exact ⟨rfl, rfl⟩
      | cons earlier rows =>
        have hearlier := hagrees earlier List.mem_cons_self
        exact ⟨(h.longname earlier List.mem_cons_self).trans hearlier.longname,
          (h.version earlier List.mem_cons_self).trans hearlier.version⟩
    refine ⟨hfirst.1, hfirst.2, ?_⟩
    cases hlisted : entry.files[row.kind]? with
    | none => rfl
    | some url =>
      obtain ⟨earlier, hearlier, hkind, rfl⟩ := (h.files row.kind url).1 hlisted
      exact url_eq_iff.2 ((hagrees earlier hearlier).path hkind)

theorem collects_concat (h : entry.Collects base rows)
    (hnew : rows = [] → entry = blankEntry row) (hok : addTo base row entry = .ok entry') :
    entry'.Collects base (rows ++ [row]) := by
  obtain ⟨haccepts, rfl⟩ := addTo_eq_ok_iff.1 hok
  have hagrees := (accepts_iff h hnew).1 haccepts
  obtain ⟨hlongname, hversion, -⟩ := haccepts
  constructor
  case longname => simpa [or_imp, forall_and] using ⟨h.longname, hlongname⟩
  case version => simpa [or_imp, forall_and] using ⟨h.version, hversion⟩
  case identifiers => simp [h.identifiers]
  case files =>
    intro kind url
    rw [Std.TreeMap.getElem?_insert]
    by_cases hkind : row.kind = kind
    · subst hkind
      simp only [Std.ReflCmp.compare_self, if_true, Option.some.injEq]
      constructor
      · rintro rfl
        exact ⟨row, List.mem_append_right _ List.mem_cons_self, rfl, rfl⟩
      · rintro ⟨other, hother, hkind, rfl⟩
        rcases List.mem_append.1 hother with hother | hother
        · exact url_eq_iff.2 ((hagrees other hother).path hkind).symm
        · rw [List.mem_singleton.1 hother]
    · have hcompare : compare row.kind kind ≠ .eq := by simpa using hkind
      simp [hcompare, h.files, hkind, or_and_right, exists_or]

theorem addRow_of_knightsMill (hknm : row.shortname = "KNM") :
    addRow base entries row = .ok { entries with adopted := row.identifier :: entries.adopted } := by
  unfold addRow
  rw [if_pos hknm]

theorem addRow_eq_ok_iff (hknm : row.shortname ≠ "KNM") :
    addRow base entries row = .ok entries' ↔
      ∃ entry, addTo base row (entries.models.getD row.shortname (blankEntry row)) = .ok entry ∧
        entries' = { entries with models := entries.models.insert row.shortname entry } := by
  unfold addRow
  rw [if_neg hknm]
  cases addTo base row (entries.models.getD row.shortname (blankEntry row)) with
  | error => simp [bind, Except.bind]
  | ok entry => simp [bind, Except.bind, pure, Except.pure, eq_comm]

namespace Gathers

theorem empty : ({} : MapfileEntries).Gathers base [] where
  collects := by simp
  mem_models := by simp
  adopted := rfl

theorem exists_row (h : entries.Gathers base rows) {shortname : String}
    (hentry : entries.models[shortname]? = some entry) :
    shortname ≠ "KNM" ∧ ∃ row ∈ rows, row.shortname = shortname :=
  (h.mem_models shortname).1
    (Std.TreeMap.mem_iff_isSome_getElem?.2 (Option.isSome_of_mem hentry))

/-- The entry to which a row is added: that of the earlier rows of its model. -/
theorem collects_getD (h : entries.Gathers base rows) (hknm : row.shortname ≠ "KNM") :
    (entries.models.getD row.shortname (blankEntry row)).Collects base
        (MapfileRow.ofModel row.shortname rows) ∧
      (MapfileRow.ofModel row.shortname rows = [] →
        entries.models.getD row.shortname (blankEntry row) = blankEntry row) := by
  rw [Std.TreeMap.getD_eq_getD_getElem?]
  cases hentry : entries.models[row.shortname]? with
  | none =>
    have hmem : row.shortname ∉ entries.models := by
      simp [Std.TreeMap.mem_iff_isSome_getElem?, hentry]
    have hnone : MapfileRow.ofModel row.shortname rows = [] := by
      rw [List.eq_nil_iff_forall_not_mem]
      intro earlier hearlier
      exact hmem ((h.mem_models row.shortname).2 ⟨hknm, earlier, MapfileRow.mem_ofModel.1 hearlier⟩)
    rw [hnone]
    exact ⟨collects_blankEntry row, fun _ => rfl⟩
  | some entry =>
    refine ⟨h.collects row.shortname entry hentry, fun hnone => ?_⟩
    obtain ⟨-, earlier, hearlier⟩ := h.exists_row hentry
    rw [← MapfileRow.mem_ofModel, hnone] at hearlier
    cases hearlier

theorem addRow_accepts_iff (h : entries.Gathers base rows) :
    (∃ entries', addRow base entries row = .ok entries') ↔
      ∀ earlier ∈ rows, earlier.Compatible row := by
  by_cases hknm : row.shortname = "KNM"
  · refine iff_of_true ⟨_, addRow_of_knightsMill hknm⟩ ?_
    intro earlier _ hname hne
    exact absurd (hname.trans hknm) hne
  · obtain ⟨hcollects, hnew⟩ := h.collects_getD hknm
    have hcompatible : (∀ earlier ∈ rows, earlier.Compatible row) ↔
        ∀ earlier ∈ MapfileRow.ofModel row.shortname rows, earlier.Agrees row := by
      constructor
      · intro hrows earlier hearlier
        obtain ⟨hmem, hname⟩ := MapfileRow.mem_ofModel.1 hearlier
        exact hrows earlier hmem hname (hname ▸ hknm)
      · intro hrows earlier hmem hname _
        exact hrows earlier (MapfileRow.mem_ofModel.2 ⟨hmem, hname⟩)
    rw [hcompatible, ← accepts_iff hcollects hnew]
    constructor
    · rintro ⟨entries', hok⟩
      obtain ⟨entry, hadd, -⟩ := (addRow_eq_ok_iff hknm).1 hok
      exact (addTo_eq_ok_iff.1 hadd).1
    · intro haccepts
      exact ⟨_, (addRow_eq_ok_iff hknm).2 ⟨_, addTo_eq_ok_iff.2 ⟨haccepts, rfl⟩, rfl⟩⟩

theorem concat (h : entries.Gathers base rows)
    (hok : addRow base entries row = .ok entries') :
    entries'.Gathers base (rows ++ [row]) := by
  by_cases hknm : row.shortname = "KNM"
  · rw [addRow_of_knightsMill hknm] at hok
    obtain rfl := Except.ok.inj hok
    constructor
    case collects =>
      intro shortname entry hentry
      have hne : row.shortname ≠ shortname := fun heq =>
        (h.exists_row hentry).1 (heq ▸ hknm)
      simpa [MapfileRow.ofModel_concat, hne] using h.collects shortname entry hentry
    case mem_models =>
      intro shortname
      rw [h.mem_models]
      by_cases hname : row.shortname = shortname
      · simp [← hname, hknm]
      · simp [hname, or_and_right, exists_or]
    case adopted => simp [MapfileRow.ofModel_concat, hknm, h.adopted]
  · obtain ⟨entry, hadd, rfl⟩ := (addRow_eq_ok_iff hknm).1 hok
    obtain ⟨hcollects, hnew⟩ := h.collects_getD hknm
    constructor
    case collects =>
      intro shortname other hother
      rw [Std.TreeMap.getElem?_insert] at hother
      rw [MapfileRow.ofModel_concat]
      by_cases hname : row.shortname = shortname
      · subst hname
        simp only [Std.ReflCmp.compare_self, if_true, Option.some.injEq] at hother
        rw [if_pos rfl, ← hother]
        exact collects_concat hcollects hnew hadd
      · have hcompare : compare row.shortname shortname ≠ .eq := by simpa using hname
        rw [if_neg hcompare] at hother
        rw [if_neg hname, List.append_nil]
        exact h.collects shortname other hother
    case mem_models =>
      intro shortname
      rw [Std.TreeMap.mem_insert, h.mem_models]
      by_cases hname : row.shortname = shortname
      · subst hname
        simp [hknm, or_and_right, exists_or]
      · simp [hname, or_and_right, exists_or]
    case adopted => simp [MapfileRow.ofModel_concat, hknm, h.adopted]

end Gathers

/-- Rows are gathered exactly if they are consistent, and nothing of them is lost. -/
theorem gathers_ofRows (base : String) (rows : List MapfileRow) :
    ((∃ entries, ofRows base rows = .ok entries) ↔ MapfileRow.Consistent rows) ∧
      ∀ entries, ofRows base rows = .ok entries → entries.Gathers base rows := by
  rw [MapfileRow.consistent_iff_pairwise]
  induction rows using List.reverseRecOn with
  | nil =>
    refine ⟨iff_of_true ⟨_, rfl⟩ .nil, fun entries hok => ?_⟩
    obtain rfl := Except.ok.inj hok
    exact .empty
  | append_singleton rows row ih =>
    obtain ⟨ihok, ihgathers⟩ := ih
    have hrun (entries' : MapfileEntries) : ofRows base (rows ++ [row]) = .ok entries' ↔
        ∃ entries, ofRows base rows = .ok entries ∧ addRow base entries row = .ok entries' := by
      unfold ofRows
      simp only [List.foldlM_append, List.foldlM_cons, List.foldlM_nil, bind_pure]
      cases rows.foldlM (addRow base) {} with
      | error => simp [bind, Except.bind]
      | ok entries => simp [bind, Except.bind]
    constructor
    · simp only [hrun, List.pairwise_append, List.pairwise_singleton, true_and,
        List.mem_singleton, forall_eq]
      constructor
      · rintro ⟨entries', entries, hok, hadd⟩
        exact ⟨ihok.1 ⟨entries, hok⟩,
          (ihgathers entries hok).addRow_accepts_iff.1 ⟨entries', hadd⟩⟩
      · rintro ⟨hpairwise, hlast⟩
        obtain ⟨entries, hok⟩ := ihok.2 hpairwise
        obtain ⟨entries', hadd⟩ := (ihgathers entries hok).addRow_accepts_iff.2 hlast
        exact ⟨entries', entries, hok, hadd⟩
    · intro entries' hok'
      obtain ⟨entries, hok, hadd⟩ := (hrun entries').1 hok'
      exact (ihgathers entries hok).concat hadd

/-! ## Models -/

/-- The models in the order of their short names. -/
def modelsByShortname (entries : MapfileEntries) (base : String) (available : String → Bool) :
    List Model :=
  entries.models.toList.map fun p => entries.modelOf base available p.1 p.2

theorem toModels_eq (entries : MapfileEntries) (base : String) (available : String → Bool) :
    entries.toModels base available = (entries.modelsByShortname base available).mergeSort
      fun m other => (compare m.longname other.longname).isLE :=
  rfl

theorem map_shortname_modelsByShortname (entries : MapfileEntries) (base : String)
    (available : String → Bool) :
    (entries.modelsByShortname base available).map (·.shortname) = entries.models.keys := by
  rw [modelsByShortname, List.map_map]
  exact Std.TreeMap.map_fst_toList_eq_keys

theorem mem_toModels_iff {available : String → Bool} {m : Model} :
    m ∈ entries.toModels base available ↔ ∃ shortname entry,
      entries.models[shortname]? = some entry ∧
        entries.modelOf base available shortname entry = m := by
  simp [toModels_eq, modelsByShortname]

theorem map_shortname_perm (entries : MapfileEntries) (base : String)
    (available : String → Bool) :
    ((entries.toModels base available).map (·.shortname)).Perm entries.models.keys := by
  rw [toModels_eq, ← entries.map_shortname_modelsByShortname base available]
  exact (List.mergeSort_perm _ _).map _

end

end MapfileEntries

/-- Models stand in the order of their long names, then of their short ones. -/
def Model.Precedes (m other : Model) : Prop :=
  m.longname < other.longname ∨ m.longname = other.longname ∧ m.shortname < other.shortname

theorem MapfileEntries.pairwise_toModels (entries : MapfileEntries) (base : String)
    (available : String → Bool) :
    (entries.toModels base available).Pairwise Model.Precedes := by
  have hshortnames : ((entries.modelsByShortname base available).map (·.shortname)).Pairwise
      (· < ·) := by
    rw [map_shortname_modelsByShortname]
    exact entries.models.ordered_keys.imp compare_string_eq_lt_iff.1
  have htotal (m other : Model) : (compare m.longname other.longname).isLE ||
      (compare other.longname m.longname).isLE := by
    rw [Bool.or_eq_true, isLE_compare_string_iff, isLE_compare_string_iff]
    exact le_total m.longname other.longname
  refine (pairwise_mergeSort_of_pairwise (fun _ _ _ => Std.TransCmp.isLE_trans) htotal
    (List.pairwise_map.1 hshortnames)).imp ?_
  rintro m other ⟨hle, hties⟩
  rw [isLE_compare_string_iff] at hle hties
  rcases hle.lt_or_eq with hlt | heq
  · exact .inl hlt
  · exact .inr ⟨heq, hties heq.ge⟩

/-- All that is known of a model. -/
def Model.contents (m : Model) :
    (String × String) × String × List String × List (String × String) :=
  ((m.longname, m.shortname), m.version, m.identifiers, m.files.toList)

/-- What the rows of a mapfile say about a model. -/
structure Model.Gathers (m : Model) (base : String) (rows : List MapfileRow) : Prop where
  longname : ∀ row ∈ rows, row.shortname = m.shortname → m.longname = Text.lower row.longname
  version : ∀ row ∈ rows, row.shortname = m.shortname → m.version = row.version
  sorted : m.identifiers.Pairwise (· < ·)
  /-- Knights Landing takes the identifiers of Knights Mill. -/
  identifiers : ∀ identifier, identifier ∈ m.identifiers ↔ ∃ row ∈ rows,
    row.identifier = identifier ∧
      (row.shortname = m.shortname ∨ row.shortname = "KNM" ∧ m.shortname = "KNL")
  files : ∀ kind, (∀ file : AuxiliaryFile, file.kind ≠ kind) → ∀ url,
    m.files[kind]? = some url ↔
      ∃ row ∈ rows, row.shortname = m.shortname ∧ row.kind = kind ∧ base ++ row.path = url

namespace MapfileEntries

variable {entries entries' : MapfileEntries} {entry entry' : ModelEntry} {base : String}
  {available : String → Bool} {shortname : String} {rows rows' : List MapfileRow}

/-- Adds an auxiliary file if it is present. -/
def addIf (files : Std.TreeMap String String) (present : Bool) (file : AuxiliaryFile)
    (url : String) : Std.TreeMap String String :=
  if present then files.insert file.kind url else files

/-- The files of a model that do not depend on the kinds of its other files. -/
def tableFiles (base : String) (available : String → Bool) (shortname : String)
    (entry : ModelEntry) : Std.TreeMap String String :=
  let rewrites := uncoreRewritesUrl base shortname
  addIf (addIf entry.files (available rewrites) .uncoreRewrites rewrites) true .metricTable
    (base ++ "/TMA_Metrics-full.csv")

theorem filesOf_eq :
    filesOf base available shortname entry =
      let extra := extraMetricsUrl base shortname
      let files := tableFiles base available shortname entry
      addIf (addIf files (files.contains "atom") .efficientMetricTable
        (base ++ "/E-core_TMA_Metrics.csv")) (available extra) .extraMetrics extra :=
  rfl

section

variable {files files' : Std.TreeMap String String} {present : Bool} {file : AuxiliaryFile}
  {url kind : String}

theorem getElem?_addIf (h : file.kind ≠ kind) :
    (addIf files present file url)[kind]? = files[kind]? := by
  unfold addIf
  split
  · rw [Std.TreeMap.getElem?_insert, if_neg (by simpa using h)]
  · rfl

theorem getElem?_addIf_self : (addIf files true file url)[file.kind]? = some url := by
  simp [addIf]

theorem addIf_equiv (h : files.Equiv files') :
    (addIf files present file url).Equiv (addIf files' present file url) := by
  unfold addIf
  split
  · exact h.insert file.kind url
  · exact h

end

theorem getElem?_filesOf {kind : String} (h : ∀ file : AuxiliaryFile, file.kind ≠ kind) :
    (filesOf base available shortname entry)[kind]? = entry.files[kind]? := by
  simp only [filesOf_eq, tableFiles, getElem?_addIf (h _)]

theorem filesOf_equiv (h : entry.files.Equiv entry'.files) :
    (filesOf base available shortname entry).Equiv
      (filesOf base available shortname entry') := by
  have htables : (tableFiles base available shortname entry).Equiv
      (tableFiles base available shortname entry') :=
    addIf_equiv (addIf_equiv h)
  simp only [filesOf_eq, htables.contains_eq]
  exact addIf_equiv (addIf_equiv htables)

theorem Gathers.mem_identifiers_modelOf (h : entries.Gathers base rows)
    (hentry : entries.models[shortname]? = some entry) {identifier : String} :
    identifier ∈ (entries.modelOf base available shortname entry).identifiers ↔
      ∃ row ∈ rows, row.identifier = identifier ∧
        (row.shortname = shortname ∨ row.shortname = "KNM" ∧ shortname = "KNL") := by
  have hcollects := h.collects shortname entry hentry
  have hadopted : identifier ∈ (if shortname = "KNL" then entries.adopted else []) ↔
      ∃ row ∈ rows, row.identifier = identifier ∧ row.shortname = "KNM" ∧ shortname = "KNL" := by
    by_cases hknl : shortname = "KNL"
    · rw [if_pos hknl, h.adopted, MapfileRow.mem_identifiers_iff]
      simp [hknl, and_comm]
    · simp [hknl]
  unfold modelOf Model.build
  rw [Text.mem_distinctSorted, List.mem_append, hadopted, hcollects.identifiers,
    MapfileRow.mem_identifiers_iff, ← exists_or]
  grind

theorem Gathers.model (h : entries.Gathers base rows)
    (hentry : entries.models[shortname]? = some entry) :
    (entries.modelOf base available shortname entry).Gathers base rows := by
  have hcollects := h.collects shortname entry hentry
  constructor
  case longname =>
    intro row hrow hname
    exact congrArg Text.lower (hcollects.longname row (MapfileRow.mem_ofModel.2 ⟨hrow, hname⟩))
  case version =>
    intro row hrow hname
    exact hcollects.version row (MapfileRow.mem_ofModel.2 ⟨hrow, hname⟩)
  case sorted => exact Text.pairwise_distinctSorted
  case identifiers => exact fun identifier => h.mem_identifiers_modelOf hentry
  case files =>
    intro kind hkind url
    refine (Eq.congr_left (getElem?_filesOf hkind)).trans ((hcollects.files kind url).trans ?_)
    simp only [MapfileRow.mem_ofModel, and_assoc]
    rfl

theorem Gathers.files_equiv (h : entries.Gathers base rows) (h' : entries'.Gathers base rows')
    (hrows : ∀ row, row ∈ rows ↔ row ∈ rows')
    (hentry : entries.models[shortname]? = some entry)
    (hentry' : entries'.models[shortname]? = some entry') : entry.files.Equiv entry'.files := by
  apply Std.TreeMap.Equiv.of_forall_constGet?_eq
  intro kind
  apply Option.ext
  intro url
  rw [(h.collects shortname entry hentry).files, (h'.collects shortname entry' hentry').files]
  simp only [MapfileRow.mem_ofModel, hrows]

/-- The same rows make the same model. -/
theorem Gathers.contents_modelOf (h : entries.Gathers base rows)
    (h' : entries'.Gathers base rows') (hrows : ∀ row, row ∈ rows ↔ row ∈ rows')
    (hentry : entries.models[shortname]? = some entry)
    (hentry' : entries'.models[shortname]? = some entry') :
    (entries.modelOf base available shortname entry).contents =
      (entries'.modelOf base available shortname entry').contents := by
  obtain ⟨-, row, hmem, hname⟩ := h.exists_row hentry
  have hrow : row ∈ MapfileRow.ofModel shortname rows := MapfileRow.mem_ofModel.2 ⟨hmem, hname⟩
  have hrow' : row ∈ MapfileRow.ofModel shortname rows' :=
    MapfileRow.mem_ofModel.2 ⟨(hrows row).1 hmem, hname⟩
  have hcollects := h.collects shortname entry hentry
  have hcollects' := h'.collects shortname entry' hentry'
  have hlongname : entry.longname = entry'.longname :=
    (hcollects.longname row hrow).trans (hcollects'.longname row hrow').symm
  have hversion : entry.version = entry'.version :=
    (hcollects.version row hrow).trans (hcollects'.version row hrow').symm
  have hidentifiers : (entries.modelOf base available shortname entry).identifiers =
      (entries'.modelOf base available shortname entry').identifiers := by
    apply List.Pairwise.eq_of_mem_iff (h.model hentry).sorted (h'.model hentry').sorted
    intro identifier
    rw [h.mem_identifiers_modelOf hentry, h'.mem_identifiers_modelOf hentry']
    simp only [hrows]
  have hfiles : (filesOf base available shortname entry).toList =
      (filesOf base available shortname entry').toList :=
    (filesOf_equiv (h.files_equiv h' hrows hentry hentry')).toList_eq
  unfold Model.contents
  rw [hidentifiers]
  simp only [modelOf, Model.build, hlongname, hversion, hfiles]

theorem Gathers.contents_subset (h : entries.Gathers base rows)
    (h' : entries'.Gathers base rows') (hrows : ∀ row, row ∈ rows ↔ row ∈ rows') :
    (entries.toModels base available).map Model.contents ⊆
      (entries'.toModels base available).map Model.contents := by
  intro c hc
  obtain ⟨m, hm, rfl⟩ := List.mem_map.1 hc
  obtain ⟨shortname, entry, hentry, rfl⟩ := mem_toModels_iff.1 hm
  have hmem : shortname ∈ entries'.models := by
    rw [h'.mem_models]
    simpa only [hrows] using h.exists_row hentry
  obtain ⟨entry', hentry'⟩ := Option.isSome_iff_exists.1
    (Std.TreeMap.mem_iff_isSome_getElem?.1 hmem)
  rw [h.contents_modelOf h' hrows hentry hentry']
  exact List.mem_map_of_mem (mem_toModels_iff.2 ⟨shortname, entry', hentry', rfl⟩)

/-- Rows in another order make the same list of models. -/
theorem Gathers.map_contents_toModels (h : entries.Gathers base rows)
    (h' : entries'.Gathers base rows') (hrows : ∀ row, row ∈ rows ↔ row ∈ rows') :
    (entries.toModels base available).map Model.contents =
      (entries'.toModels base available).map Model.contents := by
  have hsorted (entries : MapfileEntries) :
      ((entries.toModels base available).map Model.contents).Pairwise
        fun c c' => toLex c.1 < toLex c'.1 := by
    rw [List.pairwise_map]
    exact (entries.pairwise_toModels base available).imp Prod.Lex.toLex_lt_toLex.2
  exact eq_of_pairwise_lt (hsorted entries) (hsorted entries') fun c =>
    ⟨fun hc => h.contents_subset h' hrows hc,
      fun hc => h'.contents_subset h (fun row => (hrows row).symm) hc⟩

end MapfileEntries

namespace Model

variable {text : String} {header : List String} {rows : List (List String)} {base : String}
  {available : String → Bool}

theorem listOfMapfile_eq (htext : Csv.rows text = header :: rows)
    (hheader : MapfileEntries.checkHeader header = .ok ()) :
    listOfMapfile text base available =
      (MapfileEntries.ofRows base (rows.map MapfileRow.ofCells)).map
        (·.toModels base available) := by
  unfold listOfMapfile MapfileEntries.ofText
  rw [htext]
  simp [hheader, bind, Except.bind]

theorem listOfMapfile_eq_ok_iff (htext : Csv.rows text = header :: rows)
    (hheader : MapfileEntries.checkHeader header = .ok ()) {ms : List Model} :
    listOfMapfile text base available = .ok ms ↔
      ∃ entries, MapfileEntries.ofRows base (rows.map MapfileRow.ofCells) = .ok entries ∧
        entries.toModels base available = ms := by
  rw [listOfMapfile_eq htext hheader]
  cases MapfileEntries.ofRows base (rows.map MapfileRow.ofCells) with
  | error => simp [Except.map]
  | ok entries => simp [Except.map]

/-- Rows in another order make the same models, or none as well. -/
theorem listOfMapfile_perm {text' : String} {rows' : List (List String)}
    (htext : Csv.rows text = header :: rows) (htext' : Csv.rows text' = header :: rows')
    (hheader : MapfileEntries.checkHeader header = .ok ()) (hperm : rows.Perm rows') :
    (listOfMapfile text base available).toOption.map (·.map contents) =
      (listOfMapfile text' base available).toOption.map (·.map contents) := by
  have hrows (row : MapfileRow) :
      row ∈ rows.map MapfileRow.ofCells ↔ row ∈ rows'.map MapfileRow.ofCells :=
    (hperm.map MapfileRow.ofCells).mem_iff
  obtain ⟨hok, hgathers⟩ := MapfileEntries.gathers_ofRows base (rows.map MapfileRow.ofCells)
  obtain ⟨hok', hgathers'⟩ := MapfileEntries.gathers_ofRows base (rows'.map MapfileRow.ofCells)
  have hboth : (∃ entries, MapfileEntries.ofRows base (rows.map MapfileRow.ofCells) =
        .ok entries) ↔
      ∃ entries, MapfileEntries.ofRows base (rows'.map MapfileRow.ofCells) = .ok entries := by
    rw [hok, hok']
    simp only [MapfileRow.Consistent, hrows]
  rw [listOfMapfile_eq htext hheader, listOfMapfile_eq htext' hheader]
  cases hrun : MapfileEntries.ofRows base (rows.map MapfileRow.ofCells) with
  | error =>
    cases hrun' : MapfileEntries.ofRows base (rows'.map MapfileRow.ofCells) with
    | error => rfl
    | ok entries' => simp [hrun, hrun'] at hboth
  | ok entries =>
    cases hrun' : MapfileEntries.ofRows base (rows'.map MapfileRow.ofCells) with
    | error => simp [hrun, hrun'] at hboth
    | ok entries' =>
      exact congrArg some ((hgathers entries hrun).map_contents_toModels
        (hgathers' entries' hrun') hrows)

/-- The rows of a mapfile make models exactly if those of each model agree; then each model is
listed once and says what its rows say.  The order of the rows makes no difference. -/
theorem listOfMapfile_gathers_rows (htext : Csv.rows text = header :: rows)
    (hheader : MapfileEntries.checkHeader header = .ok ()) (base : String)
    (available : String → Bool) :
    let data := rows.map MapfileRow.ofCells
    ((∃ ms, listOfMapfile text base available = .ok ms) ↔ MapfileRow.Consistent data) ∧
    (∀ ms, listOfMapfile text base available = .ok ms →
      ms.Pairwise Precedes ∧ (ms.map (·.shortname)).Nodup ∧
      (∀ shortname, shortname ∈ ms.map (·.shortname) ↔
        shortname ≠ "KNM" ∧ ∃ row ∈ data, row.shortname = shortname) ∧
      ∀ m ∈ ms, m.Gathers base data) ∧
    (∀ text' rows', Csv.rows text' = header :: rows' → rows.Perm rows' →
      (listOfMapfile text base available).toOption.map (·.map contents) =
        (listOfMapfile text' base available).toOption.map (·.map contents)) := by
  intro data
  obtain ⟨hok, hgathers⟩ := MapfileEntries.gathers_ofRows base data
  refine ⟨?_, fun ms hms => ?_, fun text' rows' htext' hperm =>
    listOfMapfile_perm htext htext' hheader hperm⟩
  · rw [← hok]
    simp only [listOfMapfile_eq_ok_iff htext hheader]
    constructor
    · rintro ⟨_, entries, hentries, -⟩
      exact ⟨entries, hentries⟩
    · rintro ⟨entries, hentries⟩
      exact ⟨_, entries, hentries, rfl⟩
  · obtain ⟨entries, hentries, rfl⟩ := (listOfMapfile_eq_ok_iff htext hheader).1 hms
    have h := hgathers entries hentries
    have hnames := entries.map_shortname_perm base available
    refine ⟨entries.pairwise_toModels base available, ?_, fun shortname => ?_, fun m hm => ?_⟩
    · exact hnames.nodup_iff.2 Std.TreeMap.nodup_keys
    · rw [hnames.mem_iff, Std.TreeMap.mem_keys, h.mem_models]
    · obtain ⟨shortname, entry, hentry, rfl⟩ := MapfileEntries.mem_toModels_iff.1 hm
      exact h.model hentry

/-- A mapfile with Knights Mill in front of Knights Landing.  Of Alder Lake it has the efficient
cores first, listed as if they were ordinary ones, then both kinds by their roles. -/
def knightsAndLakeText : String :=
  String.join [
    "Family-model,Version,Filename,EventType,Core Type,Native Model ID,Core Role Name\n",
    "6-85,V9,/KNM/events/phi_core.json,core\n",
    "6-57,V9,/KNL/events/phi_core.json,core\n",
    "6-BE,V1,/ADL/events/lake_mont.json,core\n",
    "6-97,V1,/ADL/events/lake_cove.json,hybridcore,,,Core\n",
    "6-97,V1,/ADL/events/lake_mont.json,hybridcore,,,Atom\n"]

def knightsAndLakeRows : List (List String) :=
  [["6-85", "V9", "/KNM/events/phi_core.json", "core"],
    ["6-57", "V9", "/KNL/events/phi_core.json", "core"],
    ["6-BE", "V1", "/ADL/events/lake_mont.json", "core"],
    ["6-97", "V1", "/ADL/events/lake_cove.json", "hybridcore", "", "", "Core"],
    ["6-97", "V1", "/ADL/events/lake_mont.json", "hybridcore", "", "", "Atom"]]

/-- What the rows say: the file that Alder Lake lists as `core` is that of its efficient cores,
which has the role `Atom` as well. -/
def knightsAndLakeData : List MapfileRow :=
  [⟨"6-85", "V9", "/KNM/events/phi_core.json", "core"⟩,
    ⟨"6-57", "V9", "/KNL/events/phi_core.json", "core"⟩,
    ⟨"6-BE", "V1", "/ADL/events/lake_mont.json", "atom"⟩,
    ⟨"6-97", "V1", "/ADL/events/lake_cove.json", "core"⟩,
    ⟨"6-97", "V1", "/ADL/events/lake_mont.json", "atom"⟩]

theorem rows_knightsAndLakeText :
    Csv.rows knightsAndLakeText = mapfileColumns :: knightsAndLakeRows ∧
      knightsAndLakeRows.map MapfileRow.ofCells = knightsAndLakeData ∧
      MapfileRow.Consistent knightsAndLakeData := by
  refine ⟨(Csv.rows_join _).trans ?_, ?_, ?_⟩
  · decide +kernel
  · decide +kernel
  · decide +kernel

/-- Knights Landing is listed with the identifier of Knights Mill, which comes first, and Alder
Lake with a file for each kind of its cores. -/
theorem listOfMapfile_knightsAndLakeText :
    Csv.rows knightsAndLakeText = mapfileColumns :: knightsAndLakeRows ∧
      MapfileEntries.checkHeader mapfileColumns = .ok () ∧
      ∃ ms, listOfMapfile knightsAndLakeText "/repo" (fun _ => false) = .ok ms ∧
        "KNM" ∉ ms.map (·.shortname) ∧
        (∃ m ∈ ms, m.shortname = "KNL" ∧ m.longname = "phi" ∧ "6-85" ∈ m.identifiers ∧
          m.files["core"]? = some "/repo/KNL/events/phi_core.json") ∧
        ∃ m ∈ ms, m.shortname = "ADL" ∧
          m.files["core"]? = some "/repo/ADL/events/lake_cove.json" ∧
          m.files["atom"]? = some "/repo/ADL/events/lake_mont.json" := by
  obtain ⟨hrows, hdata, hconsistent⟩ := rows_knightsAndLakeText
  obtain ⟨hok, hmodels, -⟩ := listOfMapfile_gathers_rows hrows rfl "/repo" (fun _ => false)
  rw [hdata] at hok hmodels
  obtain ⟨ms, hms⟩ := hok.2 hconsistent
  obtain ⟨-, -, hnames, hgathers⟩ := hmodels ms hms
  have hlisted (shortname : String) (hne : shortname ≠ "KNM")
      (hrow : ∃ row ∈ knightsAndLakeData, row.shortname = shortname) :
      ∃ m ∈ ms, m.shortname = shortname :=
    List.mem_map.1 ((hnames shortname).2 ⟨hne, hrow⟩)
  have hplain (kind : String) (h : kind = "core" ∨ kind = "atom") (file : AuxiliaryFile) :
      file.kind ≠ kind := by
    rcases h with rfl | rfl <;> cases file <;> decide
  refine ⟨hrows, rfl, ms, hms, fun hmem => ((hnames "KNM").1 hmem).1 rfl,
    ?_, ?_⟩
  · obtain ⟨m, hm, hname⟩ := hlisted "KNL" (by decide) (by decide +kernel)
    have h := hgathers m hm
    refine ⟨m, hm, hname, ?_, ?_, ?_⟩
    · rw [h.longname ⟨"6-57", "V9", "/KNL/events/phi_core.json", "core"⟩ (by decide)
        (hname ▸ by decide +kernel)]
      decide +kernel
    · rw [h.identifiers, hname]
      decide +kernel
    · rw [h.files "core" (hplain "core" (.inl rfl)), hname]
      decide +kernel
  · obtain ⟨m, hm, hname⟩ := hlisted "ADL" (by decide) (by decide +kernel)
    have h := hgathers m hm
    refine ⟨m, hm, hname, ?_, ?_⟩
    · rw [h.files "core" (hplain "core" (.inl rfl)), hname]
      decide +kernel
    · rw [h.files "atom" (hplain "atom" (.inr rfl)), hname]
      decide +kernel

end Model

end TopdownMetrics
