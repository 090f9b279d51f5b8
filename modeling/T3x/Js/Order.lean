import T3x.Js.Json

/-!
# Orders on strings and sorted objects

Strings are compared by code points or by code units. Both comparisons are
total orders, so an object whose members are sorted by name has one text for
all orders of its members.
-/

namespace Js

/-- Compare two strings by UTF-16 code units, as `<` does. -/
def compareCodeUnits (a b : JsString) : Int :=
  comparePoints (a.map UInt16.toNat) (b.map UInt16.toNat)

/-- The code units of one code point. -/
def pointUnits (p : ℕ) : JsString :=
  if p < 0x10000 then [p.toUInt16]
  else [(0xD800 + (p - 0x10000) / 0x400).toUInt16, (0xDC00 + (p - 0x10000) % 0x400).toUInt16]

/-- Only equal sequences compare as equal. -/
theorem comparePoints_eq_zero {as bs : List ℕ} : comparePoints as bs = 0 ↔ as = bs := by
  induction as generalizing bs with
  | nil => cases bs <;> simp [comparePoints]
  | cons a as ih =>
    cases bs with
    | nil => simp [comparePoints]
    | cons b bs =>
      unfold comparePoints
      split_ifs with h hlt
      · simp [h, ih]
      · simp [h]
      · simp [h]

/-- Exchanging the sequences negates the comparison. -/
theorem comparePoints_swap (as bs : List ℕ) : comparePoints bs as = -comparePoints as bs := by
  induction as generalizing bs with
  | nil => cases bs <;> simp [comparePoints]
  | cons a as ih =>
    cases bs with
    | nil => simp [comparePoints]
    | cons b bs =>
      unfold comparePoints
      rcases Nat.lt_trichotomy a b with h | h | h
      · have h1 : ¬ b = a := by omega
        have h2 : ¬ b < a := by omega
        have h3 : ¬ a = b := by omega
        simp [h, h1, h2, h3]
      · simp [h, ih]
      · have h1 : ¬ b = a := by omega
        have h2 : ¬ a < b := by omega
        have h3 : ¬ a = b := by omega
        simp [h, h1, h2, h3]

/-- The comparison is transitive. -/
theorem comparePoints_trans {as bs cs : List ℕ} (h1 : comparePoints as bs ≤ 0)
    (h2 : comparePoints bs cs ≤ 0) : comparePoints as cs ≤ 0 := by
  induction as generalizing bs cs with
  | nil => cases cs <;> simp [comparePoints]
  | cons a as ih =>
    cases bs with
    | nil => simp [comparePoints] at h1
    | cons b bs =>
      cases cs with
      | nil => simp [comparePoints] at h2
      | cons c cs =>
        unfold comparePoints at h1 h2 ⊢
        split_ifs at h1 h2 ⊢ <;> try omega
        exact ih h1 h2

/-- The code points of a string determine it. -/
theorem flatMap_pointUnits_codePoints (s : JsString) : (codePoints s).flatMap pointUnits = s := by
  have hsingle : ∀ u : UInt16, pointUnits u.toNat = [u] := by
    intro u
    have hu : u.toNat < 0x10000 := u.toNat_lt
    rw [pointUnits, if_pos hu]
    exact congrArg (fun v => [v]) UInt16.ofNat_toNat
  induction s using codePoints.induct with
  | case1 => rfl
  | case2 u => simp [codePoints, hsingle]
  | case3 u v s hpair ih =>
    have hbounds : (0xD800 ≤ u.toNat ∧ u.toNat ≤ 0xDBFF) ∧
        0xDC00 ≤ v.toNat ∧ v.toNat ≤ 0xDFFF := by
      simp only [isHighSurrogate, isLowSurrogate, Bool.and_eq_true, decide_eq_true_eq,
        UInt16.le_iff_toNat_le] at hpair
      exact hpair
    obtain ⟨⟨hu1, hu2⟩, hv1, hv2⟩ := hbounds
    have hhigh : (0xD800 + (0x10000 + (u.toNat - 0xD800) * 0x400 + (v.toNat - 0xDC00) - 0x10000) /
        0x400) = u.toNat := by omega
    have hlow : (0xDC00 + (0x10000 + (u.toNat - 0xD800) * 0x400 + (v.toNat - 0xDC00) - 0x10000) %
        0x400) = v.toNat := by omega
    rw [codePoints, if_pos hpair, List.flatMap_cons, ih, pointUnits, if_neg (by omega), hhigh, hlow]
    simp only [List.cons_append, List.nil_append]
    exact congrArg₂ (fun x y => x :: y :: s) UInt16.ofNat_toNat UInt16.ofNat_toNat
  | case4 u v s hpair ih =>
    rw [codePoints, if_neg hpair, List.flatMap_cons, ih, hsingle]
    rfl

/-- A comparison of strings that is a total order. -/
structure IsStringOrder (compare : JsString → JsString → Int) : Prop where
  /-- Only equal strings compare as equal. -/
  eq_zero : ∀ a b, compare a b = 0 ↔ a = b
  /-- Exchanging the strings negates the comparison. -/
  swap : ∀ a b, compare b a = -compare a b
  /-- The comparison is transitive. -/
  trans : ∀ a b c, compare a b ≤ 0 → compare b c ≤ 0 → compare a c ≤ 0

/-- The comparison by code points is a total order. -/
theorem isStringOrder_compareCodepoints : IsStringOrder compareCodepoints where
  eq_zero a b := by
    unfold compareCodepoints
    rw [comparePoints_eq_zero]
    refine ⟨fun h => ?_, fun h => by rw [h]⟩
    rw [← flatMap_pointUnits_codePoints a, h, flatMap_pointUnits_codePoints]
  swap a b := comparePoints_swap _ _
  trans a b c := comparePoints_trans

/-- The comparison by code units is a total order. -/
theorem isStringOrder_compareCodeUnits : IsStringOrder compareCodeUnits where
  eq_zero a b := by
    unfold compareCodeUnits
    rw [comparePoints_eq_zero, List.map_inj_right fun x y => UInt16.toNat_inj.mp]
  swap a b := comparePoints_swap _ _
  trans a b c := comparePoints_trans

/-- `list.sort(compare)`: a stable sort. -/
def sortBy {T : Type} (compare : T → T → Int) (items : List T) : List T :=
  items.mergeSort fun a b => decide (compare a b ≤ 0)

/-- Sorting permutes. -/
theorem sortBy_perm {T : Type} (compare : T → T → Int) (items : List T) :
    (sortBy compare items).Perm items :=
  List.mergeSort_perm _ _

/-- A comparison that is a total preorder: items that compare as equal need not be equal. -/
structure IsComparison {T : Type} (compare : T → T → Int) : Prop where
  /-- Exchanging the items negates the comparison. -/
  swap : ∀ a b, compare b a = -compare a b
  /-- The comparison is transitive. -/
  trans : ∀ a b c, compare a b ≤ 0 → compare b c ≤ 0 → compare a c ≤ 0

namespace IsComparison

variable {T S : Type} {compare : T → T → Int}

/-- Every item compares as equal to itself. -/
theorem refl (hc : IsComparison compare) (a : T) : compare a a = 0 := by
  have hswap := hc.swap a a
  omega

/-- Of two items one comes first. -/
theorem total (hc : IsComparison compare) (a b : T) : compare a b ≤ 0 ∨ compare b a ≤ 0 := by
  have hswap := hc.swap a b
  omega

/-- The comparison is transitive where it is strict. -/
theorem lt_trans (hc : IsComparison compare) {a b c : T} (hab : compare a b < 0)
    (hbc : compare b c < 0) : compare a c < 0 := by
  have hac := hc.trans a b c (by omega) (by omega)
  have hca := hc.swap a c
  have hcb := hc.swap b c
  have hback := hc.trans c a b
  omega

/-- Comparing by a part of the items. -/
theorem comap (hc : IsComparison compare) (f : S → T) :
    IsComparison fun a b => compare (f a) (f b) :=
  ⟨fun a b => hc.swap (f a) (f b), fun a b c => hc.trans (f a) (f b) (f c)⟩

/-- The descending order. -/
theorem neg (hc : IsComparison compare) : IsComparison fun a b => -compare a b where
  swap a b := by rw [hc.swap a b]
  trans a b c hab hbc := by
    have hba := hc.swap a b
    have hcb := hc.swap b c
    have hca := hc.swap a c
    have hle := hc.trans c b a (by omega) (by omega)
    omega

/-- Sorting puts the items in ascending order. -/
theorem sortBy_pairwise (hc : IsComparison compare) (items : List T) :
    (sortBy compare items).Pairwise fun a b => compare a b ≤ 0 := by
  refine List.Pairwise.imp ?_ (List.pairwise_mergeSort ?_ ?_ items)
  · intro a b h
    exact of_decide_eq_true h
  · intro a b c hab hbc
    exact decide_eq_true (hc.trans a b c (of_decide_eq_true hab) (of_decide_eq_true hbc))
  · intro a b
    rcases hc.total a b with h | h <;> simp [h]

end IsComparison

/-- Numbers are compared by their difference. -/
theorem isComparison_sub : IsComparison fun a b : ℕ => (a : ℤ) - b where
  swap a b := by omega
  trans a b c hab hbc := by omega

/-- A total order is a comparison. -/
theorem IsStringOrder.isComparison {compare : JsString → JsString → Int}
    (hc : IsStringOrder compare) : IsComparison compare :=
  ⟨hc.swap, hc.trans⟩

/-- Sorting by a total order puts the items in ascending order. -/
theorem sortBy_pairwise {compare : JsString → JsString → Int} (hc : IsStringOrder compare)
    {T : Type} (name : T → JsString) (items : List T) :
    (sortBy (fun a b => compare (name a) (name b)) items).Pairwise
      fun a b => compare (name a) (name b) ≤ 0 :=
  (hc.isComparison.comap name).sortBy_pairwise items

/-- Sorting by a number puts the items in ascending order of it. -/
theorem sortBy_pairwise_sub {T : Type} (measure : T → ℕ) (items : List T) :
    (sortBy (fun a b => (measure a : ℤ) - measure b) items).Pairwise
      fun a b => measure a ≤ measure b := by
  refine ((isComparison_sub.comap measure).sortBy_pairwise items).imp fun {a b} h => ?_
  omega

namespace Record

variable {V : Type}

/-- The members of a record sorted by name. -/
def sorted (compare : JsString → JsString → Int) (m : Record V) : Record V :=
  sortBy (fun a b => compare a.1 b.1) (entries m)

/-- Sorting the members permutes the entries that count. -/
theorem sorted_perm (compare : JsString → JsString → Int) (m : Record V) :
    (sorted compare m).Perm (entries m) :=
  sortBy_perm _ _

/-- Two records that read alike have the same entries. -/
theorem entries_perm {m m' : Record V} (h : ∀ key, get m key = get m' key) :
    (entries m).Perm (entries m') := by
  have hnodup : ∀ m : Record V, (entries m).Nodup := fun m => List.Nodup.of_map _ (keys_nodup m)
  rw [List.perm_ext_iff_of_nodup (hnodup m) (hnodup m')]
  rintro ⟨key, v⟩
  rw [mem_entries, mem_entries, h]

/-- Two records that read alike are one record when sorted. -/
theorem sorted_congr {compare : JsString → JsString → Int} (hc : IsStringOrder compare)
    {m m' : Record V} (h : ∀ key, get m key = get m' key) : sorted compare m = sorted compare m' := by
  have hperm : (sorted compare m).Perm (sorted compare m') :=
    ((sorted_perm compare m).trans (entries_perm h)).trans (sorted_perm compare m').symm
  refine List.Perm.eq_of_pairwise ?_ (sortBy_pairwise hc Prod.fst _) (sortBy_pairwise hc Prod.fst _)
    hperm
  rintro ⟨k, v⟩ ⟨k', v'⟩ hmem hmem' hle hge
  have hswap := hc.swap k k'
  have hk : k = k' := (hc.eq_zero k k').mp (by simp only at hle hge; omega)
  subst hk
  have hv := mem_entries.mp ((sorted_perm compare m).mem_iff.mp hmem)
  have hv' := mem_entries.mp ((sorted_perm compare m').mem_iff.mp hmem')
  rw [h, hv'] at hv
  rw [Option.some.inj hv]

end Record

/-- The texts of two values, members sorted by name, are equal exactly when the
values are equal up to the order of members and the sign of zero. -/
theorem JsValue.encode_sorted_eq_iff {compare : JsString → JsString → Int}
    (hc : IsStringOrder compare) {a b : JsValue} :
    a.encode (Record.sorted compare) = b.encode (Record.sorted compare) ↔
      a.denote JsNumber.dropZeroSign = b.denote JsNumber.dropZeroSign := by
  refine ⟨denote_eq_of_encode_eq (Record.sorted_perm compare), fold_congr ?_ ?_⟩
  · exact fun x y => JsNumber.toText_eq_iff.mpr
  · intro m m' hm
    simp only [Record.sorted_congr hc hm]

end Js
