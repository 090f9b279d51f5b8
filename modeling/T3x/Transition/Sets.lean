import T3x.Transition.Kinds

/-!
# Arrays that stand for sets

Some arrays of the protocol stand for sets: the subjects of a Statement, what a
Decision considers, the evidence of a claim, and the inputs of an Effect. The
parsers ask that the members of the first three ascend by their canonical bytes
and those of the last by their roles. As both orders are total and members that
are canonically equal stand at one place of them, an accepted array has no
member twice, and no other accepted array has the same members.
-/

namespace T3x.Transition

open Js Independent

/-! ## Ascending lists -/

/-- What holds of the arrays that stand for a set: no member stands twice, and the members
decide the array. -/
structure OneArray {T : Type} (same : T → T → Prop) (accepted : List T → Prop) : Prop where
  /-- No two members are the same. -/
  distinct : ∀ values, accepted values → values.Pairwise fun a b => ¬ same a b
  /-- Two arrays whose members are the same have the same members at the same places. -/
  sameArray : ∀ values values', accepted values → accepted values' →
    (∀ a ∈ values, ∃ b ∈ values', same a b) → (∀ b ∈ values', ∃ a ∈ values, same a b) →
      List.Forall₂ same values values'
  /-- Two arrays with one membership are one array. -/
  oneArray : ∀ values values', accepted values → accepted values' →
    (∀ a, a ∈ values ↔ a ∈ values') → values = values'

section Ascending

variable {T K : Type} {compare : K → K → Int} {key : T → K} {same : T → T → Prop}

/-- The members of a list that ascend by a key, and so stand before one another by it. -/
def Ascends (compare : K → K → Int) (key : T → K) (values : List T) : Prop :=
  values.Pairwise fun a b => compare (key a) (key b) < 0

/-- Ascending by a key that is the same for the same members, the members decide the list. -/
theorem Ascends.forall₂ (hc : IsComparison compare)
    (hkey : ∀ a b, same a b → key a = key b) {values values' : List T}
    (h : Ascends compare key values) (h' : Ascends compare key values')
    (hmem : ∀ a ∈ values, ∃ b ∈ values', same a b)
    (hmem' : ∀ b ∈ values', ∃ a ∈ values, same a b) : List.Forall₂ same values values' := by
  induction values generalizing values' with
  | nil =>
    cases values' with
    | nil => exact .nil
    | cons b _ => simpa using hmem' b List.mem_cons_self
  | cons a values ih =>
    cases values' with
    | nil => simpa using hmem a List.mem_cons_self
    | cons b values' =>
      obtain ⟨hfirst, hrest⟩ := List.pairwise_cons.mp h
      obtain ⟨hfirst', hrest'⟩ := List.pairwise_cons.mp h'
      -- the first members have one key: each has a partner that is not before the other
      have hhead : same a b := by
        obtain ⟨b', hb', hab'⟩ := hmem a List.mem_cons_self
        obtain ⟨a', ha', hab⟩ := hmem' b List.mem_cons_self
        rcases List.mem_cons.mp hb' with rfl | hb'
        · exact hab'
        rcases List.mem_cons.mp ha' with rfl | ha'
        · exact hab
        have hbefore := hfirst a' ha'
        have hbefore' := hfirst' b' hb'
        rw [hkey a' b hab] at hbefore
        rw [← hkey a b' hab', hc.swap] at hbefore'
        omega
      have hne : ∀ x ∈ values, key x ≠ key a := by
        intro x hx heq
        have hlt := hfirst x hx
        rw [heq, hc.refl] at hlt
        exact lt_irrefl _ hlt
      have hne' : ∀ y ∈ values', key y ≠ key b := by
        intro y hy heq
        have hlt := hfirst' y hy
        rw [heq, hc.refl] at hlt
        exact lt_irrefl _ hlt
      refine .cons hhead (ih hrest hrest' (fun x hx => ?_) fun y hy => ?_)
      · obtain ⟨y, hy, hxy⟩ := hmem x (List.mem_cons_of_mem _ hx)
        rcases List.mem_cons.mp hy with rfl | hy
        · exact absurd ((hkey x _ hxy).trans (hkey a _ hhead).symm) (hne x hx)
        · exact ⟨y, hy, hxy⟩
      · obtain ⟨x, hx, hxy⟩ := hmem' y (List.mem_cons_of_mem _ hy)
        rcases List.mem_cons.mp hx with rfl | hx
        · exact absurd ((hkey _ y hxy).symm.trans (hkey _ b hhead)) (hne' y hy)
        · exact ⟨x, hx, hxy⟩

/-- Arrays that ascend by a key that is the same for the same members stand for sets. -/
theorem oneArray_of_ascends (hc : IsComparison compare)
    (hkey : ∀ a b, same a b → key a = key b) {accepted : List T → Prop}
    (h : ∀ values, accepted values → Ascends compare key values) : OneArray same accepted where
  distinct values hvalues := by
    refine (h values hvalues).imp fun {a b} hlt hsame => ?_
    rw [hkey a b hsame, hc.refl] at hlt
    exact lt_irrefl _ hlt
  sameArray values values' hvalues hvalues' hmem hmem' :=
    (h values hvalues).forall₂ hc hkey (h values' hvalues') hmem hmem'
  oneArray values values' hvalues hvalues' hmem := by
    refine List.forall₂_eq_eq_eq ▸ (h values hvalues).forall₂ hc (fun a b heq => heq ▸ rfl)
      (h values' hvalues') (fun a ha => ⟨a, (hmem a).mp ha, rfl⟩) fun b hb =>
        ⟨b, (hmem b).mpr hb, rfl⟩

end Ascending

/-! ## The order of canonical bytes -/

/-- A value has canonical bytes. -/
def Canonicalizable (a : JsValue) : Prop :=
  ∃ bytes, canonicalProtocolBytes a = .ok bytes

/-- Two values have the same canonical bytes. -/
def CanonicallyEqual (a b : JsValue) : Prop :=
  ∃ bytes, canonicalProtocolBytes a = .ok bytes ∧ canonicalProtocolBytes b = .ok bytes

/-- The canonical bytes of a value, if it has any. -/
def bytesOf (a : JsValue) : List UInt8 :=
  match canonicalProtocolBytes a with
  | .ok bytes => bytes
  | .error _ => []

/-- Values are canonically equal when they are the same up to the order of members and the
sign of zero. -/
theorem canonicallyEqual_iff {a b : JsValue} :
    CanonicallyEqual a b ↔ Canonicalizable a ∧ JsValue.Same a b := by
  constructor
  · rintro ⟨bytes, ha, hb⟩
    obtain ⟨text, htext, rfl⟩ := canonicalProtocolBytes_eq_ok_iff.mp ha
    exact ⟨⟨_, ha⟩, (denote_eq_of_canonicalBytes hb htext).symm⟩
  · rintro ⟨⟨bytes, ha⟩, hsame⟩
    obtain ⟨bytes', hb, rfl⟩ := (canonicalProtocolBytes_agree hsame).of_ok ha
    exact ⟨_, ha, hb⟩

/-- Canonically equal values have one text. -/
theorem bytesOf_eq {a b : JsValue} (h : CanonicallyEqual a b) : bytesOf a = bytesOf b := by
  obtain ⟨bytes, ha, hb⟩ := h
  rw [bytesOf, bytesOf, ha, hb]

/-- Exchanging two byte strings negates their comparison. -/
theorem compareBytes_swap (a b : List UInt8) : compareBytes b a = -compareBytes a b := by
  induction a generalizing b with
  | nil => cases b <;> simp [compareBytes]
  | cons x a ih =>
    cases b with
    | nil => simp [compareBytes]
    | cons y b =>
      rw [compareBytes, compareBytes]
      by_cases heq : x = y
      · rw [if_pos heq, if_pos heq.symm, ih]
      · rw [if_neg heq, if_neg fun h => heq h.symm]
        omega

/-- Byte strings that compare as equal are equal. -/
theorem compareBytes_eq_zero_iff {a b : List UInt8} : compareBytes a b = 0 ↔ a = b := by
  induction a generalizing b with
  | nil =>
    cases b with
    | nil => simp [compareBytes]
    | cons y b => simp [compareBytes]; omega
  | cons x a ih =>
    cases b with
    | nil => simp [compareBytes]; omega
    | cons y b =>
      rw [compareBytes]
      by_cases heq : x = y
      · rw [if_pos heq, ih, heq, List.cons.injEq, eq_self_iff_true, true_and]
      · have hne : x.toNat ≠ y.toNat := fun h => heq (UInt8.toNat_inj.mp h)
        rw [if_neg heq]
        simp only [List.cons.injEq, heq, false_and, iff_false]
        omega

/-- The comparison of byte strings is transitive. -/
theorem compareBytes_trans (a b c : List UInt8) (h : compareBytes a b ≤ 0)
    (h' : compareBytes b c ≤ 0) : compareBytes a c ≤ 0 := by
  induction a generalizing b c with
  | nil => cases c <;> simp [compareBytes]
  | cons x a ih =>
    cases b with
    | nil => simp [compareBytes] at h; omega
    | cons y b =>
      cases c with
      | nil => simp [compareBytes] at h'; omega
      | cons z c =>
        rw [compareBytes] at h h' ⊢
        by_cases hxy : x = y
        · subst hxy
          rw [if_pos rfl] at h
          by_cases hxz : x = z
          · rw [if_pos hxz] at h' ⊢
            exact ih b c h h'
          · rw [if_neg hxz] at h' ⊢
            exact h'
        · rw [if_neg hxy] at h
          have hne : x.toNat ≠ y.toNat := fun heq => hxy (UInt8.toNat_inj.mp heq)
          by_cases hyz : y = z
          · rw [if_neg (hyz ▸ hxy), ← hyz]
            exact h
          · rw [if_neg hyz] at h'
            have hxz : x ≠ z := fun heq => by subst heq; omega
            rw [if_neg hxz]
            omega

/-- The comparison of byte strings is a total order. -/
theorem isComparison_compareBytes : IsComparison compareBytes :=
  ⟨compareBytes_swap, compareBytes_trans⟩

/-- Comparing two values compares their canonical bytes. -/
theorem compareCanonicalValues_eq_ok_iff {a b : JsValue} {comparison : ℤ} :
    compareCanonicalValues a b = .ok comparison ↔
      Canonicalizable a ∧ Canonicalizable b ∧
        compareBytes (bytesOf a) (bytesOf b) = comparison := by
  constructor
  · intro h
    obtain ⟨bytes, ha, h⟩ := bind_eq_ok_iff.mp h
    obtain ⟨bytes', hb, h⟩ := bind_eq_ok_iff.mp h
    refine ⟨⟨_, ha⟩, ⟨_, hb⟩, ?_⟩
    rw [bytesOf, bytesOf, ha, hb]
    exact Except.ok.inj h
  · rintro ⟨⟨bytes, ha⟩, ⟨bytes', hb⟩, rfl⟩
    rw [bytesOf, bytesOf, ha, hb]
    exact bind_eq_ok_iff.mpr ⟨_, ha, bind_eq_ok_iff.mpr ⟨_, hb, rfl⟩⟩

/-- The comparison of canonicalizable values is a total order of them, up to canonical
equality. -/
structure OrdersCanonically : Prop where
  /-- Any two of the values can be compared. -/
  defined : ∀ a b, Canonicalizable a → Canonicalizable b →
    ∃ comparison, compareCanonicalValues a b = .ok comparison
  /-- They compare as equal exactly when they are canonically equal. -/
  zero : ∀ a b, compareCanonicalValues a b = .ok 0 ↔ CanonicallyEqual a b
  /-- Exchanging them negates the comparison. -/
  swap : ∀ a b comparison, compareCanonicalValues a b = .ok comparison →
    compareCanonicalValues b a = .ok (-comparison)
  /-- The comparison is transitive. -/
  trans : ∀ a b c first second, compareCanonicalValues a b = .ok first → first ≤ 0 →
    compareCanonicalValues b c = .ok second → second ≤ 0 →
      ∃ third, compareCanonicalValues a c = .ok third ∧ third ≤ 0

/-- `compareCanonicalValues` orders the canonicalizable values. -/
theorem ordersCanonically : OrdersCanonically where
  defined a b ha hb := ⟨_, compareCanonicalValues_eq_ok_iff.mpr ⟨ha, hb, rfl⟩⟩
  zero a b := by
    rw [compareCanonicalValues_eq_ok_iff, compareBytes_eq_zero_iff]
    constructor
    · rintro ⟨⟨bytes, ha⟩, ⟨bytes', hb⟩, heq⟩
      rw [bytesOf, bytesOf, ha, hb] at heq
      obtain rfl : bytes = bytes' := heq
      exact ⟨_, ha, hb⟩
    · intro h
      obtain ⟨bytes, ha, hb⟩ := id h
      exact ⟨⟨_, ha⟩, ⟨_, hb⟩, bytesOf_eq h⟩
  swap a b comparison h := by
    obtain ⟨ha, hb, rfl⟩ := compareCanonicalValues_eq_ok_iff.mp h
    exact compareCanonicalValues_eq_ok_iff.mpr ⟨hb, ha, compareBytes_swap _ _⟩
  trans a b c first second h hfirst h' hsecond := by
    obtain ⟨ha, -, rfl⟩ := compareCanonicalValues_eq_ok_iff.mp h
    obtain ⟨-, hc, rfl⟩ := compareCanonicalValues_eq_ok_iff.mp h'
    exact ⟨_, compareCanonicalValues_eq_ok_iff.mpr ⟨ha, hc, rfl⟩,
      isComparison_compareBytes.trans _ _ _ hfirst hsecond⟩

/-- A canonical set ascends by canonical bytes. -/
theorem ascends_of_canonicalSet {values : List JsValue} {path : JsString}
    (h : canonicalSet path values = .ok ()) : Ascends compareBytes bytesOf values := by
  have htrans : IsTrans JsValue fun a b => compareBytes (bytesOf a) (bytesOf b) < 0 :=
    ⟨fun a b c => isComparison_compareBytes.lt_trans⟩
  refine List.isChain_iff_pairwise.mp ?_
  induction values with
  | nil => exact .nil
  | cons a values ih =>
    cases values with
    | nil => exact .singleton a
    | cons b values =>
      obtain ⟨comparison, hcomparison, h⟩ := bind_eq_ok_iff.mp h
      obtain ⟨hduplicate, h⟩ := refuse_eq_ok_iff.mp h
      obtain ⟨horder, h⟩ := refuse_eq_ok_iff.mp h
      obtain ⟨-, -, hbytes⟩ := compareCanonicalValues_eq_ok_iff.mp hcomparison
      exact .cons_cons (by omega) (ih h)

/-- Canonicalizable values that ascend by canonical bytes are a canonical set. -/
theorem canonicalSet_of_ascends {values : List JsValue} {path : JsString}
    (hvalues : ∀ value ∈ values, Canonicalizable value)
    (h : Ascends compareBytes bytesOf values) : canonicalSet path values = .ok () := by
  induction values with
  | nil => rfl
  | cons a values ih =>
    obtain ⟨hfirst, hrest⟩ := List.pairwise_cons.mp h
    obtain ⟨ha, hvalues⟩ := List.forall_mem_cons.mp hvalues
    cases values with
    | nil => rfl
    | cons b values =>
      have hlt := hfirst b List.mem_cons_self
      have hcomparison := compareCanonicalValues_eq_ok_iff.mpr
        ⟨ha, hvalues b List.mem_cons_self, rfl⟩
      exact bind_eq_ok_iff.mpr ⟨_, hcomparison, refuse_eq_ok_iff.mpr
        ⟨by omega, refuse_eq_ok_iff.mpr ⟨by omega, ih hvalues hrest⟩⟩⟩

/-! ## The arrays that the parsers check -/

/-- An accepted Statement has the schema of Statements. -/
theorem schema_of_parseStatement {value : JsValue} (h : parseStatement value = .ok value) :
    part value "schema" = .str statementSchema := by
  obtain ⟨_, -, h⟩ := bind_eq_ok_iff.mp h
  obtain ⟨record, hrecord, h⟩ := bind_eq_ok_iff.mp h
  obtain ⟨_, hliteral, -⟩ := bind_eq_ok_iff.mp h
  rw [(closedRecord_eq_ok_iff.mp hrecord).1]
  exact literal_eq_ok_iff.mp hliteral

/-- The collections of an accepted Statement are in order. -/
theorem inOrder_of_accepted {value : JsValue} (h : parseStatement value = .ok value) :
    InOrder value :=
  inOrder_of_parseStatement h (schema_of_parseStatement h)

/-- The role of an input of an Effect. -/
def roleOf (input : JsValue) : JsString :=
  match part input "role" with
  | .str role => role
  | _ => []

/-- Inputs that stand for a set: those of an accepted Effect or Effect definition. -/
inductive AcceptedInputs : List JsValue → Prop
  /-- The inputs of an Effect. -/
  | effect {value : JsValue} (h : parseEffect value = .ok value) :
      AcceptedInputs (parts value "inputs")
  /-- The inputs of an Effect definition. -/
  | definition {value : JsValue} (h : parseEffectDefinition value = .ok value) :
      AcceptedInputs (parts value "inputs")

/-- The sets of an accepted Statement. -/
inductive AcceptedSet : List JsValue → Prop
  /-- The subjects. -/
  | subjects {value : JsValue} (h : parseStatement value = .ok value) :
      AcceptedSet (parts value "subjects")
  /-- What a Decision considers. -/
  | considered {value : JsValue} (h : parseStatement value = .ok value)
      (hdecision : part value "predicateType" = .str decisionPredicateType) :
      AcceptedSet (parts (part value "predicate") "considered")
  /-- The evidence of the rationale of a Decision. -/
  | reasons {value : JsValue} (h : parseStatement value = .ok value)
      (hdecision : part value "predicateType" = .str decisionPredicateType) :
      AcceptedSet (parts (part (part value "predicate") "rationale") "evidence")
  /-- The evidence of a claim of a Proposal. -/
  | evidence {value : JsValue} (h : parseStatement value = .ok value)
      (hproposal : part value "predicateType" = .str proposalPredicateType) {claim : String}
      (hclaim : claim ∈ ["intent", "rationale"]) :
      AcceptedSet (parts (part (part value "predicate") claim) "evidence")

/-- The sets of an accepted Statement ascend by canonical bytes. -/
theorem AcceptedSet.ascends {values : List JsValue} (h : AcceptedSet values) :
    Ascends compareBytes bytesOf values := by
  cases h with
  | subjects h =>
    exact ascends_of_canonicalSet ((inOrder_of_accepted h).subjects (schema_of_parseStatement h))
  | considered h hdecision =>
    exact ascends_of_canonicalSet
      ((inOrder_of_accepted h).decision (schema_of_parseStatement h) hdecision).1
  | reasons h hdecision =>
    exact ascends_of_canonicalSet
      ((inOrder_of_accepted h).decision (schema_of_parseStatement h) hdecision).2
  | evidence h hproposal hclaim =>
    exact ascends_of_canonicalSet
      ((inOrder_of_accepted h).proposal (schema_of_parseStatement h) hproposal _ hclaim)

/-- The inputs of an accepted Effect ascend by their roles. -/
theorem AcceptedInputs.ascends {values : List JsValue} (h : AcceptedInputs values) :
    Ascends compareCodeUnits roleOf values := by
  have hroles : (values.map roleOf).IsChain fun a b => compareCodeUnits a b < 0 := by
    cases h with
    | effect h => exact isChain_of_parseEffect h
    | definition h => exact isChain_of_parseEffectDefinition h
  have htrans : IsTrans JsString fun a b => compareCodeUnits a b < 0 :=
    ⟨fun a b c => isStringOrder_compareCodeUnits.isComparison.lt_trans⟩
  exact List.pairwise_map.mp (List.isChain_iff_pairwise.mp hroles)

/-- The parts of the same values are the same. -/
theorem part_same {a b : JsValue} (h : JsValue.Same a b) (key : String) :
    JsValue.Same (part a key) (part b key) := by
  cases h.cases with
  | leaf _ => exact .refl _
  | num n n' => exact .refl _
  | arr _ => exact .refl _
  | obj hmembers => exact field_same hmembers key

/-- Canonically equal inputs have one role. -/
theorem roleOf_eq {a b : JsValue} (h : CanonicallyEqual a b) : roleOf a = roleOf b := by
  have hpart := part_same (canonicallyEqual_iff.mp h).2 "role"
  unfold roleOf
  cases hrole : part a "role" with
  | str role => rw [hpart.eq_str_iff.mp hrole]
  | _ =>
    cases hrole' : part b "role" with
    | str role => simp [hpart.eq_str_iff.mpr hrole'] at hrole
    | _ => rfl

/-- The sets of accepted Statements have one array each. -/
theorem oneArray_acceptedSet : OneArray CanonicallyEqual AcceptedSet := by
  refine oneArray_of_ascends isComparison_compareBytes ?_ fun values h => AcceptedSet.ascends h
  intro a b h
  exact bytesOf_eq h

/-- The inputs of accepted Effects have one array each. -/
theorem oneArray_acceptedInputs : OneArray CanonicallyEqual AcceptedInputs := by
  refine oneArray_of_ascends isStringOrder_compareCodeUnits.isComparison ?_
    fun values h => AcceptedInputs.ascends h
  intro a b h
  exact roleOf_eq h

/-- The comparison by canonical bytes is a total order of canonicalizable values up to
canonical equality, and the arrays of the protocol that stand for sets have one
representation each: no accepted array has two members that are canonically equal, and
accepted arrays with the same members are the same array. -/
theorem sets_have_one_array :
    OrdersCanonically ∧ OneArray CanonicallyEqual AcceptedSet ∧
      OneArray CanonicallyEqual AcceptedInputs :=
  ⟨ordersCanonically, oneArray_acceptedSet, oneArray_acceptedInputs⟩

end T3x.Transition
