import T3x.Transition.Independent

/-!
# The two verifiers agree

Where the packages of the independent verifier have the canonical form and the grammar
of the protocol, both verifiers resolve the same objects, and they accept the same
commits but for one reference: the independent verifier never looks for the inputs of
the Effect.
-/

namespace T3x.Transition.Independent

open Js T3x.Transition

/-! ## Reading texts -/

/-- A string that the strict parser reads is read. -/
theorem scanText_of_parseString {size : ℕ} {path text : JsString} {r : JsString × JsString}
    (h : parseString size path text = .ok r) : scanText text = some r := by
  rw [parseString] at h
  rw [scanText]
  cases hscan : scanString size path (text.drop 1) with
  | error e =>
    rw [hscan] at h
    cases h
  | ok scanned =>
    obtain ⟨body, rest⟩ := scanned
    obtain ⟨htext, s, hbody⟩ := scanString_sound hscan
    rw [hscan] at h
    rw [htext, scanString_of_isStringBody hbody rest]
    simp only at h ⊢
    cases hvalue : unescape body with
    | none =>
      rw [hvalue] at h
      cases h
    | some value =>
      rw [hvalue] at h
      simp only at h
      split at h
      · cases h
      · rw [← Except.ok.inj h]
        rfl

/-- A number that the strict parser reads is read. -/
theorem scanNumber_of_parseNumber {size : ℕ} {path text : JsString} {r : JsNumber × JsString}
    (h : parseNumber size path text = .ok r) : scanNumber text = some r := by
  rw [parseNumber] at h
  rw [scanNumber]
  split at h
  · cases h
  · rename_i token rest hmatch
    rw [hmatch, Option.bind_some]
    split at h
    · cases h
    · rename_i value hvalue
      rw [hvalue, ← Except.ok.inj h]
      rfl

/-- A word that the strict parser reads is read. -/
theorem scanWord_of_parseLiteral {size : ℕ} {word path text : JsString} {value : JsValue}
    {r : JsValue × JsString} (h : parseLiteral size word value path text = .ok r) :
    scanWord word value text = some r := by
  rw [parseLiteral] at h
  rw [scanWord]
  split at h
  · cases h
  · rename_i hword
    rw [if_pos (not_not.mp hword), ← Except.ok.inj h]

/-- A pair behind others closes where its name is new. -/
theorem closedPairs_append {pairs : List (JsString × JsValue)} {result : Record JsValue}
    {key : JsString} {value : JsValue} :
    closedPairs result (pairs ++ [(key, value)]) = (closedPairs result pairs).bind fun closed =>
      if Record.has closed key then none else some (Record.setOwn closed key value) := by
  induction pairs generalizing result with
  | nil => simp only [List.nil_append, closedPairs, Option.bind_some]
  | cons pair pairs ih =>
    obtain ⟨k, v⟩ := pair
    rw [List.cons_append, closedPairs, closedPairs]
    split
    · rfl
    · exact ih

/-- With fuel, what the strict parser reads is read. -/
structure ReadsStrict (fuel : ℕ) : Prop where
  /-- Values. -/
  value : ∀ size path text r, parseValue size fuel path text = .ok r → scanValue fuel text = some r
  /-- Members, after pairs that close. -/
  members : ∀ size path pairs result text r, closedPairs [] pairs = some result →
    parseMembers size fuel path result text = .ok r → scanPairs fuel pairs text = some r
  /-- Items. -/
  items : ∀ size path items text r, parseItems size fuel path items text = .ok r →
    scanList fuel items text = some r

/-- Items are read with more fuel. -/
theorem ReadsStrict.items_succ {fuel size : ℕ} (hall : ReadsStrict fuel) {path text : JsString}
    {items : List JsValue} {r : JsValue × JsString}
    (h : parseItems size (fuel + 1) path items text = .ok r) :
    scanList (fuel + 1) items text = some r := by
  rw [parseItems] at h
  rw [scanList]
  split at h
  · cases h
  · rename_i value rest hvalue
    rw [hall.value _ _ _ _ hvalue]
    simp only
    cases hclose : consume (unit ']') (skipWhitespace rest) with
    | some behind =>
      rw [hclose] at h
      rw [← Except.ok.inj h]
    | none =>
      rw [hclose] at h
      cases hcomma : consume (unit ',') (skipWhitespace rest) with
      | none =>
        rw [hcomma] at h
        cases h
      | some behind =>
        rw [hcomma] at h
        exact hall.items _ _ _ _ _ h

/-- Members are read with more fuel. -/
theorem ReadsStrict.members_succ {fuel size : ℕ} (hall : ReadsStrict fuel) {path text : JsString}
    {pairs : List (JsString × JsValue)} {result : Record JsValue} {r : JsValue × JsString}
    (hclosed : closedPairs [] pairs = some result)
    (h : parseMembers size (fuel + 1) path result text = .ok r) :
    scanPairs (fuel + 1) pairs text = some r := by
  rw [parseMembers] at h
  rw [scanPairs]
  split at h
  · cases h
  · rename_i hhead
    rw [if_neg hhead]
    split at h
    · cases h
    · rename_i key rest hkey
      rw [scanText_of_parseString hkey]
      simp only
      split at h
      · cases h
      · rename_i hnew
        cases hcolon : consume (unit ':') (skipWhitespace rest) with
        | none =>
          rw [hcolon] at h
          cases h
        | some behind =>
          rw [hcolon] at h
          simp only at h ⊢
          split at h
          · cases h
          · rename_i value rest' hvalue
            have hpairs : closedPairs [] (pairs ++ [(key, value)]) =
                some (Record.setOwn result key value) := by
              rw [closedPairs_append, hclosed, Option.bind_some, if_neg hnew]
            rw [hall.value _ _ _ _ hvalue]
            simp only
            cases hclose : consume (unit '}') (skipWhitespace rest') with
            | some behind' =>
              rw [hclose] at h
              simp only at h ⊢
              rw [hpairs, ← Except.ok.inj h]
              rfl
            | none =>
              rw [hclose] at h
              cases hcomma : consume (unit ',') (skipWhitespace rest') with
              | none =>
                rw [hcomma] at h
                cases h
              | some behind' =>
                rw [hcomma] at h
                exact hall.members _ _ _ _ _ _ hpairs h

/-- Values are read with more fuel. -/
theorem ReadsStrict.value_succ {fuel size : ℕ} (hall : ReadsStrict fuel) {path text : JsString}
    {r : JsValue × JsString} (h : parseValue size (fuel + 1) path text = .ok r) :
    scanValue (fuel + 1) text = some r := by
  cases text with
  | nil => simp [parseValue] at h
  | cons character rest =>
    rw [parseValue] at h
    rw [scanValue]
    split_ifs at h ⊢ with hquote hbrace hbracket htrue hfalse hnull hnumber
    · obtain ⟨s, hs, rfl⟩ := map_eq_ok_iff.mp h
      rw [scanText_of_parseString hs]
      rfl
    · cases hclose : consume (unit '}') (skipWhitespace rest) with
      | some behind =>
        rw [hclose] at h
        rw [← Except.ok.inj h]
      | none =>
        rw [hclose] at h
        exact hall.members _ _ _ _ _ _ rfl h
    · cases hclose : consume (unit ']') (skipWhitespace rest) with
      | some behind =>
        rw [hclose] at h
        rw [← Except.ok.inj h]
      | none =>
        rw [hclose] at h
        exact hall.items _ _ _ _ _ h
    · exact scanWord_of_parseLiteral h
    · exact scanWord_of_parseLiteral h
    · exact scanWord_of_parseLiteral h
    · obtain ⟨n, hn, rfl⟩ := map_eq_ok_iff.mp h
      rw [scanNumber_of_parseNumber hn]
      rfl

/-- What the strict parser reads is read, whatever the fuel. -/
theorem readsStrict (fuel : ℕ) : ReadsStrict fuel := by
  induction fuel with
  | zero =>
    refine ⟨fun _ _ _ _ h => ?_, fun _ _ _ _ _ _ _ h => ?_, fun _ _ _ _ _ h => ?_⟩
    · rw [parseValue] at h
      cases h
    · rw [parseMembers] at h
      cases h
    · rw [parseItems] at h
      cases h
  | succ fuel ih =>
    exact ⟨fun _ _ _ _ => ih.value_succ, fun _ _ _ _ _ _ => ih.members_succ,
      fun _ _ _ _ _ => ih.items_succ⟩

/-- A text that the strict parser reads is read. -/
theorem jsonLoads_of_parse {source : JsString} {value : JsValue}
    (h : parseProtocolJson source = .ok value) : jsonLoads source = some value := by
  rw [parseProtocolJson] at h
  rw [jsonLoads]
  split at h
  · cases h
  · rename_i v rest hvalue
    rw [(readsStrict _).value _ _ _ _ hvalue]
    simp only
    split at h
    · cases h
    · rename_i hend
      rw [if_pos (not_not.mp hend), Except.ok.inj h]

/-! ## The order of collections -/

/-- The first difference decides the order of bytes, as it does for `<`. -/
theorem compareBytes_neg_iff {a b : List UInt8} : compareBytes a b < 0 ↔ a < b := by
  induction a generalizing b with
  | nil =>
    cases b with
    | nil => simp [compareBytes]
    | cons y b => simp [compareBytes]; omega
  | cons x a ih =>
    cases b with
    | nil => simp [compareBytes]; omega
    | cons y b =>
      rw [compareBytes, List.cons_lt_cons_iff]
      split
      · rename_i heq
        simp [heq, ih]
      · rename_i hne
        have hlt : ((x.toNat : ℤ) - y.toNat < 0) ↔ x < y := by
          rw [UInt8.lt_iff_toNat_lt]
          omega
        simp [hlt, hne]

/-- The key of a string orders strings as their code units do. -/
theorem utf16Key_lt_iff {a b : JsString} :
    utf16Key a < utf16Key b ↔ compareCodeUnits a b < 0 := by
  rw [compareCodeUnits]
  induction a generalizing b with
  | nil =>
    cases b with
    | nil => simp [utf16Key, comparePoints]
    | cons v b => simp [utf16Key, comparePoints]
  | cons u a ih =>
    cases b with
    | nil => simp [utf16Key, comparePoints]
    | cons v b =>
      have hkey : ∀ w (s : JsString), utf16Key (w :: s) =
          (w.toNat / 256).toUInt8 :: (w.toNat % 256).toUInt8 :: utf16Key s := fun _ _ => rfl
      have hu := u.toNat_lt
      have hv := v.toNat_lt
      rw [hkey, hkey, List.cons_lt_cons_iff, List.cons_lt_cons_iff, ih, List.map_cons,
        List.map_cons, comparePoints, UInt8.lt_iff_toNat_lt, UInt8.lt_iff_toNat_lt,
        ← UInt8.toNat_inj, ← UInt8.toNat_inj, toNat_toUInt8 (by omega), toNat_toUInt8 (by omega),
        toNat_toUInt8 (by omega), toNat_toUInt8 (by omega)]
      split_ifs with heq hlt
      · rw [heq]
        simp
      · simp only [Int.reduceNeg, Int.reduceLT, iff_true]
        omega
      · simp only [Int.reduceLT, iff_false, not_or, not_and]
        omega

/-- The roles that are sorted and unique are those in ascending order. -/
theorem sortedRoles_iff {roles : List JsString} :
    (roles = sortedRoles roles ∧ roles.Nodup) ↔
      roles.IsChain fun a b => compareCodeUnits a b < 0 := by
  have hle : ∀ {a b : JsString}, utf16Key a ≤ utf16Key b ↔ compareCodeUnits a b ≤ 0 := by
    intro a b
    rw [← List.not_lt, utf16Key_lt_iff, isStringOrder_compareCodeUnits.swap b a]
    omega
  have htrans : Trans (fun a b : JsString => compareCodeUnits a b < 0)
      (fun a b => compareCodeUnits a b < 0) (fun a b => compareCodeUnits a b < 0) := by
    refine ⟨fun {a b c} hab hbc => ?_⟩
    have hac := isStringOrder_compareCodeUnits.trans a b c (le_of_lt hab) (le_of_lt hbc)
    refine lt_of_le_of_ne hac fun heq => ?_
    rw [compareCodeUnits, comparePoints_eq_zero] at heq
    rw [compareCodeUnits, comparePoints_swap, ← heq] at hbc
    rw [compareCodeUnits] at hab
    omega
  rw [List.isChain_iff_pairwise]
  constructor
  · rintro ⟨hsorted, hnodup⟩
    have hpairwise : roles.Pairwise fun a b => compareCodeUnits a b ≤ 0 := by
      rw [hsorted]
      have heq : sortedRoles roles = sortBy compareCodeUnits roles := by
        rw [sortedRoles, sortBy]
        simp only [hle]
      rw [heq]
      exact sortBy_pairwise isStringOrder_compareCodeUnits id roles
    refine (List.pairwise_and_iff.mpr ⟨hpairwise, hnodup⟩).imp fun {a b} h => ?_
    refine lt_of_le_of_ne h.1 fun heq => h.2 ?_
    rw [compareCodeUnits, comparePoints_eq_zero] at heq
    exact List.map_injective_iff.mpr (fun _ _ => UInt16.toNat_inj.mp) heq
  · intro hpairwise
    refine ⟨?_, hpairwise.imp fun {a b} h heq => ?_⟩
    · refine (List.mergeSort_of_pairwise (hpairwise.imp fun {a b} h => ?_)).symm
      exact decide_eq_true (hle.mpr (le_of_lt h))
    · rw [heq, compareCodeUnits, comparePoints_eq_zero.mpr rfl] at h
      exact lt_irrefl _ h

/-- The collections of an object are in the order that the protocol asks for. -/
structure InOrder (value : JsValue) : Prop where
  /-- The roles of the inputs of an Effect ascend. -/
  roles : part value "schema" = .str effectSchema →
    (inputRoles value).IsChain fun a b => compareCodeUnits a b < 0
  /-- The subjects of a Statement are a canonical set. -/
  subjects : part value "schema" = .str statementSchema →
    canonicalSet (js "$.subjects") (parts value "subjects") = .ok ()
  /-- The evidence of the claims of a Proposal is a canonical set. -/
  proposal : part value "schema" = .str statementSchema →
    part value "predicateType" = .str proposalPredicateType →
      ∀ claim ∈ ["intent", "rationale"], canonicalSet (fieldPath (js "$.predicate") claim)
        (parts (part (part value "predicate") claim) "evidence") = .ok ()
  /-- What a Decision considers is a canonical set, and so is its evidence. -/
  decision : part value "schema" = .str statementSchema →
    part value "predicateType" = .str decisionPredicateType →
      canonicalSet (js "$.predicate.considered")
          (parts (part value "predicate") "considered") = .ok () ∧
        canonicalSet (js "$.predicate.rationale")
          (parts (part (part value "predicate") "rationale") "evidence") = .ok ()

section Packages

variable {dumps : JsValue → Except JsString (List UInt8)} {schemaError : JsValue → Option JsString}

/-- The packages have the canonical form of the protocol and the grammar of its objects;
the order of collections is not part of a grammar. -/
structure PackagesAgree (dumps : JsValue → Except JsString (List UInt8))
    (schemaError : JsValue → Option JsString) : Prop where
  /-- `rfc8785` gives the canonical bytes. -/
  canonical : ∀ value bytes, dumps value = .ok bytes ↔ canonicalProtocolBytes value = .ok bytes
  /-- `jsonschema` finds no error in the objects of the protocol, and in nothing else whose
  collections are in order. -/
  grammar : ∀ value, parseProtocolObject value = .ok value ↔
    schemaError value = none ∧ InOrder value

variable (hpackages : PackagesAgree dumps schemaError)

include hpackages

/-- The bytes of a value are its canonical bytes. -/
theorem canonicalBytes_eq_ok_iff {value : JsValue} {bytes : List UInt8} :
    canonicalBytes dumps value = .ok bytes ↔ canonicalProtocolBytes value = .ok bytes := by
  rw [← hpackages.canonical, canonicalBytes]
  split <;> simp [*]

/-- A strict canonical set is a canonical set. -/
theorem canonicalSet_of_encoded {values : List JsValue} {encoded : List (List UInt8)}
    (path : JsString)
    (h : List.Forall₂ (fun v b => canonicalBytes dumps v = .ok b) values encoded) :
    canonicalSet path values = .ok () ↔ ascends encoded = true := by
  induction h with
  | nil => exact ⟨fun _ => rfl, fun _ => rfl⟩
  | @cons a b values encoded hab hrest ih =>
    cases hrest with
    | nil => exact ⟨fun _ => rfl, fun _ => rfl⟩
    | @cons a' b' values encoded hab' hrest =>
      rw [canonicalBytes_eq_ok_iff hpackages] at hab hab'
      have hcompare : compareCanonicalValues a a' = .ok (compareBytes b b') :=
        bind_eq_ok_iff.mpr ⟨b, hab, bind_eq_ok_iff.mpr ⟨b', hab', rfl⟩⟩
      rw [canonicalSet, ascends, Bool.and_eq_true, decide_eq_true_eq, ← ih,
        ← compareBytes_neg_iff, hcompare]
      change (if compareBytes b b' = 0 then _ else _) = _ ↔ _
      rw [refuse_eq_ok_iff, refuse_eq_ok_iff, ← and_assoc]
      refine and_congr_left fun _ => ?_
      omega

/-- The strict canonical sets are the canonical sets of values that have bytes. -/
theorem strictCanonicalSet_eq_ok_iff {values : List JsValue} {path : JsString}
    (path' : JsString) : strictCanonicalSet dumps values path = .ok () ↔
      (∀ v ∈ values, v.isUnicode = true) ∧ canonicalSet path' values = .ok () := by
  have hbytes : ∀ v : JsValue, (∃ b, canonicalBytes dumps v = .ok b) ↔ v.isUnicode = true := by
    intro v
    simp only [canonicalBytes_eq_ok_iff hpackages, canonicalProtocolBytes_eq_ok_iff]
    have htexts := @exists_canonicalJson_iff v (js "$")
    rw [← htexts]
    exact ⟨fun ⟨_, text, htext, _⟩ => ⟨text, htext⟩, fun ⟨text, htext⟩ => ⟨_, text, htext, rfl⟩⟩
  simp only [← hbytes]
  rw [← exists_mapM_iff, strictCanonicalSet, bind_eq_ok_iff]
  constructor
  · rintro ⟨encoded, hencoded, h⟩
    obtain ⟨hascends, -⟩ := throw_else_eq_ok_iff.mp h
    exact ⟨⟨encoded, hencoded⟩, (canonicalSet_of_encoded hpackages path'
      (mapM_eq_ok_iff.mp hencoded)).mpr (Bool.not_eq_false _ ▸ hascends)⟩
  · rintro ⟨⟨encoded, hencoded⟩, hset⟩
    refine ⟨encoded, hencoded, throw_else_eq_ok_iff.mpr ⟨?_, rfl⟩⟩
    rw [(canonicalSet_of_encoded hpackages path' (mapM_eq_ok_iff.mp hencoded)).mp hset]
    simp

/-- The evidence of a claim is a strict canonical set if it is one that has bytes. -/
theorem validateClaimEvidence_eq_ok_iff {claim : JsValue} {path : JsString} (path' : JsString) :
    validateClaimEvidence dumps claim path = .ok () ↔
      (∀ v ∈ parts claim "evidence", v.isUnicode = true) ∧
        canonicalSet path' (parts claim "evidence") = .ok () := by
  have hnone : parts claim "evidence" = [] → ((∀ v ∈ parts claim "evidence", v.isUnicode = true) ∧
      canonicalSet path' (parts claim "evidence") = .ok ()) := by
    intro h
    rw [h]
    exact ⟨fun _ hv => absurd hv List.not_mem_nil, rfl⟩
  unfold validateClaimEvidence
  split
  · rename_i record
    split
    · exact strictCanonicalSet_eq_ok_iff hpackages path'
    · rename_i hmissing
      refine ⟨fun _ => hnone ?_, fun _ => rfl⟩
      rw [Bool.not_eq_true, Record.has_eq_false] at hmissing
      simp [parts, part, field, hmissing]
  · rename_i hclaim
    refine ⟨fun _ => hnone ?_, fun _ => rfl⟩
    cases claim with
    | obj record => exact absurd rfl (hclaim record)
    | _ => rfl

/-- Collections that are checked are in order. -/
theorem inOrder_of_validateCollections {value : JsValue}
    (h : validateCollections dumps value = .ok ()) : InOrder value := by
  rw [validateCollections] at h
  obtain ⟨hroles, h⟩ := refuse_eq_ok_iff.mp h
  have hascend : part value "schema" = .str effectSchema →
      (inputRoles value).IsChain fun a b => compareCodeUnits a b < 0 := by
    intro hschema
    by_contra hchain
    exact hroles ⟨hschema, fun hsorted => hchain (sortedRoles_iff.mp hsorted)⟩
  split at h
  · rename_i hschema
    exact ⟨hascend, fun hs => absurd hs hschema, fun hs => absurd hs hschema,
      fun hs => absurd hs hschema⟩
  · obtain ⟨_, hsubjects, h⟩ := bind_eq_ok_iff.mp h
    have hset := ((strictCanonicalSet_eq_ok_iff hpackages (js "$.subjects")).mp hsubjects).2
    have hdiffer : JsValue.str proposalPredicateType ≠ .str decisionPredicateType := by decide
    split at h
    · rename_i hproposal
      obtain ⟨_, hintent, hrationale⟩ := bind_eq_ok_iff.mp h
      refine ⟨hascend, fun _ => hset, fun _ _ claim hclaim => ?_,
        fun _ hdecision => absurd (hproposal.symm.trans hdecision) hdiffer⟩
      rcases List.mem_cons.mp hclaim with rfl | hclaim
      · exact ((validateClaimEvidence_eq_ok_iff hpackages _).mp hintent).2
      · obtain rfl := List.mem_singleton.mp hclaim
        exact ((validateClaimEvidence_eq_ok_iff hpackages _).mp hrationale).2
    · rename_i hproposal
      split at h
      · obtain ⟨_, hconsidered, hrationale⟩ := bind_eq_ok_iff.mp h
        exact ⟨hascend, fun _ => hset, fun _ hp => absurd hp hproposal, fun _ _ =>
          ⟨((strictCanonicalSet_eq_ok_iff hpackages _).mp hconsidered).2,
            ((validateClaimEvidence_eq_ok_iff hpackages _).mp hrationale).2⟩⟩
      · rename_i hdecision
        exact ⟨hascend, fun _ => hset, fun _ hp => absurd hp hproposal,
          fun _ hd => absurd hd hdecision⟩

omit hpackages in
/-- The parts of a value without lone surrogates have none. -/
theorem isUnicode_part {value : JsValue} (h : value.isUnicode = true) (key : String) :
    (part value key).isUnicode = true := by
  cases value with
  | obj record =>
    rw [part, field]
    cases hget : Record.get record (js key) with
    | none => rfl
    | some v => exact ((JsValue.isUnicode_obj.mp h) _ _ hget).2
  | _ => rfl

omit hpackages in
/-- The items of a part of a value without lone surrogates have none. -/
theorem isUnicode_parts {value : JsValue} (h : value.isUnicode = true) (key : String) :
    ∀ v ∈ parts value key, v.isUnicode = true := by
  have hpart := isUnicode_part h key
  rw [parts]
  split
  · rename_i items hitems
    rw [hitems, JsValue.isUnicode_arr] at hpart
    exact hpart
  · exact fun _ hv => absurd hv List.not_mem_nil

/-- Collections in order pass the check. -/
theorem validateCollections_of_inOrder {value : JsValue} (hunicode : value.isUnicode = true)
    (h : InOrder value) : validateCollections dumps value = .ok () := by
  have hpredicate := isUnicode_part hunicode "predicate"
  rw [validateCollections]
  refine refuse_eq_ok_iff.mpr ⟨fun hbad => hbad.2 (sortedRoles_iff.mpr (h.roles hbad.1)), ?_⟩
  split
  · rfl
  · rename_i hschema
    rw [not_not] at hschema
    refine bind_eq_ok_iff.mpr ⟨(), (strictCanonicalSet_eq_ok_iff hpackages _).mpr
      ⟨isUnicode_parts hunicode _, h.subjects hschema⟩, ?_⟩
    split
    · rename_i hproposal
      have hclaims := h.proposal hschema hproposal
      refine bind_eq_ok_iff.mpr ⟨(), ?_, ?_⟩
      · exact (validateClaimEvidence_eq_ok_iff hpackages _).mpr
          ⟨isUnicode_parts (isUnicode_part hpredicate _) _, hclaims _ (by simp)⟩
      · exact (validateClaimEvidence_eq_ok_iff hpackages _).mpr
          ⟨isUnicode_parts (isUnicode_part hpredicate _) _, hclaims _ (by simp)⟩
    · split
      · rename_i hdecision
        obtain ⟨hconsidered, hrationale⟩ := h.decision hschema hdecision
        refine bind_eq_ok_iff.mpr ⟨(), ?_, ?_⟩
        · exact (strictCanonicalSet_eq_ok_iff hpackages _).mpr
            ⟨isUnicode_parts hpredicate _, hconsidered⟩
        · exact (validateClaimEvidence_eq_ok_iff hpackages _).mpr
            ⟨isUnicode_parts (isUnicode_part hpredicate _) _, hrationale⟩
      · rfl

omit hpackages in
/-- An object has no lone surrogates. -/
theorem isUnicode_of_parse {value : JsValue} (h : parseProtocolObject value = .ok value) :
    value.isUnicode = true := by
  obtain ⟨_, hdomain, -⟩ := bind_eq_ok_iff.mp h
  exact isUnicode_of_assertProtocolDomain hdomain

/-- Both verifiers take the same values for objects. -/
theorem validateObject_eq_ok_iff {value result : JsValue} :
    validateObject dumps schemaError value = .ok result ↔
      result = value ∧ parseProtocolObject value = .ok value := by
  rw [hpackages.grammar]
  unfold validateObject
  constructor
  · intro h
    split at h
    · cases h
    · rename_i hschema
      split at h
      · obtain ⟨_, hcollections, h⟩ := bind_eq_ok_iff.mp h
        exact ⟨(Except.ok.inj h).symm, hschema,
          inOrder_of_validateCollections hpackages hcollections⟩
      · cases h
  · rintro ⟨rfl, hschema, horder⟩
    have hparse := (hpackages.grammar _).mpr ⟨hschema, horder⟩
    obtain ⟨_, -, hclosed⟩ := bind_eq_ok_iff.mp hparse
    obtain ⟨record, hrecord, -⟩ := bind_eq_ok_iff.mp hclosed
    obtain ⟨rfl, -⟩ := closedRecord_eq_ok_iff.mp hrecord
    rw [hschema]
    exact bind_eq_ok_iff.mpr
      ⟨(), validateCollections_of_inOrder hpackages (isUnicode_of_parse hparse) horder, rfl⟩

/-! ## Resolving -/

omit hpackages in
/-- A string that is checked is a string that matches its pattern. -/
theorem stringValue_eq_ok {value : JsValue} {path s : JsString} {options : StringOptions}
    (h : stringValue value path options = .ok s) : value = .str s ∧ options.pattern s = true := by
  rw [stringValue.eq_def] at h
  split at h
  · split_ifs at h with hmin hmax hpattern
    obtain rfl := Except.ok.inj h
    exact ⟨rfl, by simpa using hpattern⟩
  · cases h

omit hpackages in
/-- A schema is that of a kind exactly when it is the one that the kind expects. -/
theorem schemaToKind_eq_some_iff {schema : JsString} {kind : ObjectKind} :
    schemaToKind schema = some kind ↔ schema = expectedSchema kind := by
  constructor
  · intro h
    unfold schemaToKind at h
    split_ifs at h with hs hs hs hs <;> obtain rfl := Option.some.inj h <;> exact hs
  · rintro rfl
    cases kind <;> decide

omit hpackages in
/-- The kind of an object is that of its schema. -/
theorem kindForSchema_eq_some_iff {value : JsValue} {kind : ObjectKind} {schema : JsString} :
    kindForSchema value = some (kind, schema) ↔
      part value "schema" = .str schema ∧ schemaToKind schema = some kind := by
  cases value with
  | obj record =>
    unfold part kindForSchema schemaToKind
    dsimp only
    constructor
    · intro h
      split_ifs at h with hs hs hs hs <;>
        obtain ⟨rfl, rfl⟩ := Prod.mk.inj (Option.some.inj h) <;> exact ⟨hs, by decide⟩
    · rintro ⟨hs, h⟩
      rw [hs]
      split_ifs at h with heq heq heq heq <;>
        obtain rfl := Option.some.inj h <;> rw [heq] <;> decide
  | _ =>
    rw [part]
    · simp [kindForSchema]
    · simp

omit hpackages in
/-- A word of a kind is the one word of the kind. -/
theorem descriptorSchema_eq_ok_iff {word : JsString} {kind : ObjectKind} :
    descriptorSchema word = .ok kind ↔ word = kind.text := by
  constructor
  · intro h
    unfold descriptorSchema at h
    split_ifs at h with hw hw hw hw <;> obtain rfl := Except.ok.inj h <;> exact hw
  · rintro rfl
    cases kind <;> decide

omit hpackages in
/-- The member of a descriptor that both verifiers take. -/
theorem isUnicode_of_members {record : Record JsValue} {kind : ObjectKind} {digest : JsString}
    (hallowed : ∀ key ∈ Record.keys record, key ∈ [js "kind", js "schema", js "digest"])
    (hkind : field record "kind" = .str kind.text)
    (hschema : field record "schema" = .str (expectedSchema kind))
    (hdigest : field record "digest" = .str digest) (hpattern : digestPattern digest = true) :
    JsValue.isUnicode (.obj record) = true := by
  refine JsValue.isUnicode_obj.mpr fun key v hv => ?_
  have hmem := hallowed key (Record.mem_keys.mpr (Record.has_eq_true.mpr ⟨v, hv⟩))
  simp only [List.mem_cons, List.not_mem_nil, or_false] at hmem
  rcases hmem with rfl | rfl | rfl
  · rw [field, hv, Option.getD_some] at hkind
    subst hkind
    exact ⟨by decide, by cases kind <;> decide⟩
  · rw [field, hv, Option.getD_some] at hschema
    subst hschema
    exact ⟨by decide, by cases kind <;> decide⟩
  · rw [field, hv, Option.getD_some] at hdigest
    subst hdigest
    refine ⟨by decide, ?_⟩
    simp only [digestPattern, Bool.and_eq_true, decide_eq_true_eq, List.all_eq_true] at hpattern
    rw [JsValue.isUnicode, ← List.take_append_drop 7 digest, hpattern.1.1]
    exact isWellFormed_digest ⟨hpattern.1.2, hpattern.2⟩

omit hpackages in
/-- Both verifiers take the same descriptors. -/
theorem parseDescriptor_eq_ok_iff {value : JsValue} {path : JsString} {d : ObjectDescriptor} :
    parseDescriptor value = .ok d ↔ parseObjectDescriptor value path = .ok d := by
  constructor
  · intro h
    unfold parseDescriptor raise at h
    dsimp only at h
    split at h
    · rename_i record
      split_ifs at h with hclosed
      split at h
      · rename_i schema digest hschema hdigest
        split at h
        · rename_i kind hkind
          split_ifs at h with hword hpattern
          obtain rfl := Except.ok.inj h
          obtain rfl := schemaToKind_eq_some_iff.mp hkind
          rw [not_not] at hword
          rw [Bool.not_eq_false] at hpattern
          simp only [List.all_eq_true, List.contains_iff_mem] at hclosed
          refine bind_eq_ok_iff.mpr ⟨(), assertProtocolDomain_of_isUnicode
            (isUnicode_of_members hclosed.1 hword hschema hdigest hpattern), ?_⟩
          refine bind_eq_ok_iff.mpr ⟨record, closedRecord_eq_ok_iff.mpr ⟨rfl, hclosed⟩, ?_⟩
          refine bind_eq_ok_iff.mpr ⟨kind.text, hword ▸ stringValue_str rfl, ?_⟩
          refine bind_eq_ok_iff.mpr ⟨kind, descriptorSchema_eq_ok_iff.mpr rfl, ?_⟩
          refine bind_eq_ok_iff.mpr ⟨(), literal_eq_ok_iff.mpr hschema, ?_⟩
          exact bind_eq_ok_iff.mpr ⟨digest, hdigest ▸ stringValue_str hpattern, rfl⟩
        · cases h
      · cases h
    · cases h
  · intro h
    obtain ⟨_, -, hclosed⟩ := bind_eq_ok_iff.mp h
    obtain ⟨record, hrecord, hmembers⟩ := bind_eq_ok_iff.mp hclosed
    obtain ⟨rfl, hallowed, hrequired⟩ := closedRecord_eq_ok_iff.mp hrecord
    obtain ⟨word, hword, h⟩ := bind_eq_ok_iff.mp hmembers
    obtain ⟨kind, hkind, h⟩ := bind_eq_ok_iff.mp h
    obtain ⟨_, hschema, h⟩ := bind_eq_ok_iff.mp h
    obtain ⟨hash, hhash, h⟩ := bind_eq_ok_iff.mp h
    obtain rfl := Except.ok.inj h
    rw [literal_eq_ok_iff] at hschema
    obtain ⟨hdigest, hpattern⟩ := stringValue_eq_ok hhash
    have hkindWord := (stringValue_eq_ok hword).1
    rw [descriptorSchema_eq_ok_iff.mp hkind] at hkindWord
    have hnames : ((Record.keys record).all fun key =>
        [js "kind", js "schema", js "digest"].contains key) ∧
        [js "kind", js "schema", js "digest"].all fun key => Record.has record key :=
      ⟨List.all_eq_true.mpr fun key hkey => List.contains_iff_mem.mpr (hallowed key hkey),
        List.all_eq_true.mpr hrequired⟩
    unfold parseDescriptor
    dsimp only
    rw [if_pos hnames]
    simp only [hschema, hdigest, schemaToKind_eq_some_iff.mpr rfl, hkindWord, ne_eq,
      not_true_eq_false, if_false]
    exact if_neg (Bool.not_eq_false _ ▸ hpattern)

variable {sha256 : List UInt8 → JsString} {store : Record (List UInt8)}

omit hpackages in
/-- A digest is taken of an object of the kind of the schema. -/
theorem digestCanonicalBytes_eq {kind : ObjectKind} {schema : JsString} {data : List UInt8}
    (h : schema = expectedSchema kind) : digestCanonicalBytes sha256 kind schema data =
      .ok (js "sha256:" ++ sha256 (digestInput kind schema data)) := by
  rw [digestCanonicalBytes, if_neg (not_not.mpr (schemaToKind_eq_some_iff.mpr h))]

/-- Both verifiers describe an object in the same way. -/
theorem descriptor_eq_ok_iff {value : JsValue} {d : ObjectDescriptor} :
    descriptor dumps schemaError sha256 value = .ok d ↔
      describeProtocolObject sha256 value = .ok d := by
  rw [describeProtocolObject_eq_ok_iff]
  simp only [canonicalProtocolObjectBytes_eq_ok_iff, kindForSchema_eq_some_iff]
  constructor
  · intro h
    obtain ⟨parsed, hparsed, hrest⟩ := bind_eq_ok_iff.mp h
    obtain ⟨rfl, hparse⟩ := (validateObject_eq_ok_iff hpackages).mp hparsed
    split at hrest
    · rename_i schema hschema
      split at hrest
      · rename_i kind hkind
        obtain ⟨bytes, hbytes, hrest⟩ := bind_eq_ok_iff.mp hrest
        obtain ⟨digest, hdigest, hrest⟩ := bind_eq_ok_iff.mp hrest
        obtain rfl := Except.ok.inj hrest
        rw [digestCanonicalBytes_eq (schemaToKind_eq_some_iff.mp hkind)] at hdigest
        exact ⟨bytes, ⟨hparse, (canonicalBytes_eq_ok_iff hpackages).mp hbytes⟩,
          ⟨hschema, hkind⟩, (Except.ok.inj hdigest).symm⟩
      · cases hrest
    · cases hrest
  · rintro ⟨bytes, ⟨hparse, hbytes⟩, ⟨hschema, hkind⟩, hdigest⟩
    refine bind_eq_ok_iff.mpr
      ⟨value, (validateObject_eq_ok_iff hpackages).mpr ⟨rfl, hparse⟩, ?_⟩
    simp only [hschema, hkind]
    refine bind_eq_ok_iff.mpr ⟨bytes, (canonicalBytes_eq_ok_iff hpackages).mpr hbytes, ?_⟩
    rw [digestCanonicalBytes_eq (schemaToKind_eq_some_iff.mp hkind), ← hdigest]
    rfl

omit hpackages in
/-- The bytes of an object are read alike. -/
theorem loadsProtocolJson_of_canonical {value back : JsValue} {bytes : List UInt8}
    (h : canonicalProtocolObjectBytes value = .ok bytes) :
    parseProtocolBytes bytes = .ok back ↔ loadsProtocolJson bytes = .ok back := by
  obtain ⟨hparse, hbytes⟩ := canonicalProtocolObjectBytes_eq_ok_iff.mp h
  obtain ⟨text, htext, rfl⟩ := canonicalProtocolBytes_eq_ok_iff.mp hbytes
  obtain ⟨read, hread, hsame⟩ := parse_canonical htext
  have hunicode : read.isUnicode = true := by
    rw [JsValue.isUnicode_congr hsame]
    exact isUnicode_of_parse hparse
  obtain ⟨read', hparse', -⟩ := (parseProtocolObject_agree (show JsValue.Same value read from
    hsame.symm)).of_ok hparse
  obtain rfl := parseProtocolObject_returns read read' hparse'
  have hstrict : parseProtocolBytes (encodeUtf8 text) = .ok read' :=
    bind_eq_ok_iff.mpr ⟨read', (parse_encodeUtf8 htext).trans hread, hparse'⟩
  have hloads : loadsProtocolJson (encodeUtf8 text) = .ok read' := by
    rw [loadsProtocolJson, decodePoints_encodeUtf8 (isWellFormed_canonical htext)]
    simp only [flatMap_pointUnits_codePoints, jsonLoads_of_parse hread, hunicode, if_true]
  rw [hstrict, hloads, Except.ok.injEq, Except.ok.injEq]

/-- What a request resolves to is the same for both verifiers. -/
theorem resolve_eq_ok_iff {requested value : JsValue} :
    resolve dumps schemaError sha256 store requested = .ok value ↔
      resolveProtocolObject sha256 (getObject store) requested = .ok value := by
  rw [resolveProtocolObject_eq_ok_iff]
  constructor
  · intro h
    obtain ⟨d, hd, h⟩ := bind_eq_ok_iff.mp h
    cases hget : Record.get store (descriptorKey d) with
    | none =>
      rw [hget] at h
      cases h
    | some data =>
      rw [hget] at h
      obtain ⟨_, -, h⟩ := bind_eq_ok_iff.mp h
      obtain ⟨-, h⟩ := refuse_eq_ok_iff.mp h
      obtain ⟨found, hfound, h⟩ := bind_eq_ok_iff.mp h
      obtain ⟨actual, hactual, h⟩ := bind_eq_ok_iff.mp h
      obtain ⟨hkind, h⟩ := refuse_eq_ok_iff.mp h
      obtain ⟨hdigest, h⟩ := refuse_eq_ok_iff.mp h
      obtain ⟨canonical, hcanonical, h⟩ := bind_eq_ok_iff.mp h
      obtain ⟨hbytes, h⟩ := refuse_eq_ok_iff.mp h
      obtain rfl := Except.ok.inj h
      obtain rfl := not_not.mp hbytes
      obtain ⟨read, hread, hvalid⟩ := bind_eq_ok_iff.mp hfound
      obtain ⟨rfl, hparse⟩ := (validateObject_eq_ok_iff hpackages).mp hvalid
      have hobject := canonicalProtocolObjectBytes_eq_ok_iff.mpr
        ⟨hparse, (canonicalBytes_eq_ok_iff hpackages).mp hcanonical⟩
      obtain rfl : actual = d := by
        obtain ⟨kind, schema, hash⟩ := actual
        obtain ⟨kind', schema', hash'⟩ := d
        simp only [ne_eq, not_not, not_or] at hkind hdigest
        rw [hkind.1, hkind.2, hdigest]
      exact ⟨actual, canonical, parseDescriptor_eq_ok_iff.mp hd, hget,
        ⟨(descriptor_eq_ok_iff hpackages).mp hactual, hobject⟩,
        (loadsProtocolJson_of_canonical hobject).mpr hread⟩
  · rintro ⟨d, bytes, hd, hget, hstored, hparsed⟩
    obtain ⟨hschema, hdigest⟩ := describe_schema hstored
    obtain ⟨hparse, hbytes⟩ := canonicalProtocolObjectBytes_eq_ok_iff.mp hstored.2
    refine bind_eq_ok_iff.mpr ⟨d, parseDescriptor_eq_ok_iff.mpr hd, ?_⟩
    rw [getObject] at hget
    rw [hget]
    refine bind_eq_ok_iff.mpr ⟨_, digestCanonicalBytes_eq hschema, ?_⟩
    refine refuse_eq_ok_iff.mpr ⟨not_not.mpr hdigest.symm, ?_⟩
    refine bind_eq_ok_iff.mpr ⟨value, ?_, bind_eq_ok_iff.mpr
      ⟨d, (descriptor_eq_ok_iff hpackages).mpr hstored.1, ?_⟩⟩
    · exact bind_eq_ok_iff.mpr ⟨value, (loadsProtocolJson_of_canonical hstored.2).mp hparsed,
        (validateObject_eq_ok_iff hpackages).mpr ⟨rfl, hparse⟩⟩
    · refine refuse_eq_ok_iff.mpr ⟨by simp, refuse_eq_ok_iff.mpr ⟨not_not.mpr rfl, ?_⟩⟩
      refine bind_eq_ok_iff.mpr ⟨bytes, (canonicalBytes_eq_ok_iff hpackages).mpr hbytes, ?_⟩
      exact refuse_eq_ok_iff.mpr ⟨not_not.mpr rfl, rfl⟩

end Packages

end T3x.Transition.Independent
