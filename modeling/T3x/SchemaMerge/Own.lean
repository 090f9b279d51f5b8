import T3x.SchemaMerge.Merge

/-!
# The merge of own members

What the merge of definitions does as long as nothing inherited is compared: the
comparisons decide whether two values have one canonical form, and the merge
settles, descends or reports a conflict by own members alone.
-/

namespace T3x.SchemaMerge

open Js T3x.Transition ThreeWay

/-- What counts of an optional value: all but the order of members and the sign of zero. -/
abbrev form (value : Option JsValue) : Option Doc := reading JsNumber.dropZeroSign value

/-! ## Comparisons -/

/-- Two values that can be compared: a value is compared with another one only if both have
no lone surrogates. -/
def Comparable (left right : Option JsValue) : Prop :=
  ∀ v ∈ left, ∀ w ∈ right, v.isUnicode = true ∧ w.isUnicode = true

/-- Exchanging the values that are compared. -/
theorem Comparable.swap {left right : Option JsValue} (h : Comparable left right) :
    Comparable right left := fun v hv w hw => (h w hw v hv).symm

namespace Read

/-- Reading a value or nothing. -/
@[simp] theorem own_ofOption (value : Option JsValue) : (ofOption value).own = value := by
  cases value <;> rfl

/-- The own value of a member is the member of the own value. -/
@[simp] theorem own_member (read : Read) (key : JsString) :
    (read.member key).own = Js.member read.own key := by
  unfold member
  split
  · rename_i record
    rw [own, member_obj]
    cases Record.get record key with
    | some v => rfl
    | none =>
      dsimp only
      split_ifs <;> rfl
  · rename_i hread
    cases read with
    | value v =>
      cases v with
      | obj record => exact absurd rfl (hread record)
      | _ => rfl
    | _ => rfl

/-- The texts of two values are equal exactly when the values have one form. -/
theorem equal_ofOption {left right : Option JsValue} (h : Comparable left right) :
    (ofOption left).equal (ofOption right) = .ok (decide (form left = form right)) := by
  cases left with
  | none => cases right <;> simp [ofOption, equal, reading]
  | some v =>
    cases right with
    | none => simp [ofOption, equal, reading]
    | some w =>
      obtain ⟨hv, hw⟩ := h v rfl w rfl
      obtain ⟨text, htext⟩ := exists_canonicalJson_iff.mpr hv
      obtain ⟨text', htext'⟩ := exists_canonicalJson_iff.mpr hw
      have hiff : text = text' ↔ form (some v) = form (some w) := by
        constructor
        · rintro rfl
          exact congrArg some (denote_eq_of_canonical htext htext')
        · intro hform
          have hsame := canonicalizeProtocolValue_congr (Option.some.inj hform) htext
          exact Except.ok.inj (hsame.symm.trans htext')
      refine bind_eq_ok_iff.mpr ⟨text, htext, bind_eq_ok_iff.mpr ⟨text', htext', ?_⟩⟩
      simp only [hiff]
      rfl

/-- What is compared without an exception can be compared. -/
theorem comparable_of_equal {left right : Option JsValue} {b : Bool}
    (h : (ofOption left).equal (ofOption right) = .ok b) : Comparable left right := by
  rintro v rfl w rfl
  obtain ⟨text, htext, h⟩ := bind_eq_ok_iff.mp h
  obtain ⟨text', htext', -⟩ := bind_eq_ok_iff.mp h
  exact ⟨exists_canonicalJson_iff.mp ⟨text, htext⟩, exists_canonicalJson_iff.mp ⟨text', htext'⟩⟩

/-- What is inherited is not compared with a value. -/
theorem not_equal_inherited {name : JsString} {read : Read} (hread : read ≠ .undefined) {b : Bool} :
    (Read.inherited name).equal read ≠ .ok b ∧ read.equal (.inherited name) ≠ .ok b := by
  have hcanonical : ∀ text, (Read.inherited name).canonical ≠ .ok text := by
    intro text h
    unfold canonical at h
    dsimp only at h
    split_ifs at h
  constructor
  · intro h
    cases read with
    | undefined => exact hread rfl
    | _ =>
      obtain ⟨text, htext, -⟩ := bind_eq_ok_iff.mp h
      exact hcanonical text htext
  · intro h
    cases read with
    | undefined => exact hread rfl
    | _ =>
      obtain ⟨_, -, h⟩ := bind_eq_ok_iff.mp h
      obtain ⟨text, htext, -⟩ := bind_eq_ok_iff.mp h
      exact hcanonical text htext

end Read

/-! ## The recursion -/

variable {choices : Record Choice}

/-- Whether the merge descends into values that nothing settles. -/
def Descendable (before incoming current : Option JsValue) : Prop :=
  (before = none ∨ isObj before = true) ∧ isObj incoming = true ∧ isObj current = true

/-- The merge of a name of three mappings. -/
def mergeMember (choices : Record Choice) (before incoming current : Read) (path key : JsString) :
    Except ProtocolError (JsString × Merged) := do
  let part ← merge choices (before.member key) (incoming.member key) (current.member key)
    (childPath path key)
  return (key, part)

/-- What stands behind the comparisons of the merge. -/
def mergeRest (choices : Record Choice) (before incoming current : Read) (path : JsString) :
    Except ProtocolError Merged :=
  match before, incoming, current with
  | .undefined, .value (.obj _), .value (.obj _)
  | .value (.obj _), .value (.obj _), .value (.obj _) => do
    let keys := Reconciliation.unionKeys before.keys incoming.keys current.keys
    let parts ← keys.mapM (mergeMember choices before incoming current path)
    return collect parts
  | _, _, _ => .ok (conflict choices before.own incoming.own current.own path)

/-- The merges of the members are the merges of their values. -/
theorem mergeMembers_eq_mapValues (members : Record JsValue) :
    mergeMembers choices members = Record.mapValues (mergeValue choices) members := by
  induction members with
  | nil => rfl
  | cons e members ih =>
    obtain ⟨key, value⟩ := e
    rw [mergeMembers, ih]
    rfl

/-- The merge of an incoming member. -/
theorem merge_member (members : Record JsValue) (key : JsString) (before current : Read)
    (path : JsString) :
    ((Record.get (mergeMembers choices members) key).getD (mergeLeaf choices (absent key)))
      before current path =
      merge choices before ((Read.value (.obj members)).member key) current path := by
  rw [mergeMembers_eq_mapValues, Record.get_mapValues]
  unfold Read.member
  dsimp only
  cases hget : Record.get members key with
  | some v => rfl
  | none =>
    unfold absent Read.member
    dsimp only [Option.map_none, Option.getD_none]
    rw [show Record.get ([] : Record JsValue) key = none from rfl]
    dsimp only
    split_ifs <;> rfl

/-- Without an incoming mapping the merge does not descend. -/
theorem mergeRest_leaf {incoming : Read} (h : isObj incoming.own = false) (before current : Read)
    (path : JsString) : mergeRest choices before incoming current path =
      .ok (conflict choices before.own incoming.own current.own path) := by
  unfold mergeRest
  split
  · simp [Read.own, isObj] at h
  · simp [Read.own, isObj] at h
  · rfl

/-- The merges of the members of an incoming mapping are the merges of the names. -/
theorem mapM_mergeMember (choices : Record Choice) (before current : Read)
    (incoming : Record JsValue) (path : JsString) :
    ((Reconciliation.unionKeys before.keys (Record.keys (mergeMembers choices incoming))
        current.keys).mapM fun key => do
      let part ← ((Record.get (mergeMembers choices incoming) key).getD
        (mergeLeaf choices (absent key))) (before.member key) (current.member key)
        (childPath path key)
      return (key, part)) =
      (Reconciliation.unionKeys before.keys (Read.value (.obj incoming)).keys current.keys).mapM
        (mergeMember choices before (.value (.obj incoming)) current path) := by
  simp only [merge_member]
  rw [mergeMembers_eq_mapValues, Record.keys_mapValues]
  rfl

/-- The recursion of the merge: settle the value, else descend, else report a conflict. -/
theorem merge_eq (before incoming current : Read) (path : JsString) :
    merge choices before incoming current path =
      settleOr before incoming current (mergeRest choices before incoming current path) := by
  cases incoming with
  | undefined =>
    rw [mergeRest_leaf rfl]
    rfl
  | inherited name =>
    rw [mergeRest_leaf rfl]
    rfl
  | value v =>
    cases v with
    | obj members =>
      have hparts := fun (before current : Read) =>
        congrArg (fun parts => parts >>= fun parts => Except.ok (collect parts))
          (mapM_mergeMember choices before current members path)
      rw [merge, mergeValue.eq_def]
      dsimp only
      congr 1
      rcases before with _ | (_ | _ | _ | _ | _ | _) | _ <;>
        rcases current with _ | (_ | _ | _ | _ | _ | _) | _ <;>
        first
        | rfl
        | exact hparts _ _
    | _ =>
      rw [mergeRest_leaf rfl]
      rfl

/-! ## Own values -/

variable {before incoming current : Option JsValue}

/-- The merge of own values. -/
abbrev mergeAt (choices : Record Choice) (before incoming current : Option JsValue)
    (path : JsString) : Except ProtocolError Merged :=
  merge choices (.ofOption before) (.ofOption incoming) (.ofOption current) path

/-- The comparisons that the merge of own values makes can be made. -/
def Sound (before incoming current : Option JsValue) : Prop :=
  Comparable incoming current ∧ (form incoming ≠ form current →
    Comparable incoming before ∧ (form incoming ≠ form before → Comparable current before))

/-- A side on which the merge settles because the other one is unchanged or the same. -/
def Settled (before incoming current value : Option JsValue) : Prop :=
  (form incoming = form current ∧ value = incoming) ∨
    (form incoming = form before ∧ value = current) ∨
    (form current = form before ∧ value = incoming)

/-- What the comparisons at the head of the merge lead to. -/
theorem settleOr_eq_ok {rest : Except ProtocolError Merged} {merged : Merged}
    (h : settleOr (.ofOption before) (.ofOption incoming) (.ofOption current) rest = .ok merged) :
    Sound before incoming current ∧
      ((∃ value, Settled before incoming current value ∧ merged = { value := value }) ∨
        (Differ form before incoming current ∧ rest = .ok merged)) := by
  obtain ⟨b, hb, h⟩ := bind_eq_ok_iff.mp h
  have hic := Read.comparable_of_equal hb
  rw [Read.equal_ofOption hic] at hb
  obtain rfl := Except.ok.inj hb
  by_cases hsame : form incoming = form current
  · rw [decide_eq_true hsame, if_pos rfl] at h
    obtain rfl := Except.ok.inj h
    exact ⟨⟨hic, fun hne => absurd hsame hne⟩, .inl ⟨incoming, .inl ⟨hsame, rfl⟩, by simp⟩⟩
  rw [decide_eq_false hsame, if_neg (by simp)] at h
  obtain ⟨b, hb, h⟩ := bind_eq_ok_iff.mp h
  have hib := Read.comparable_of_equal hb
  rw [Read.equal_ofOption hib] at hb
  obtain rfl := Except.ok.inj hb
  by_cases hincoming : form incoming = form before
  · rw [decide_eq_true hincoming, if_pos rfl] at h
    obtain rfl := Except.ok.inj h
    exact ⟨⟨hic, fun _ => ⟨hib, fun hne => absurd hincoming hne⟩⟩,
      .inl ⟨current, .inr (.inl ⟨hincoming, rfl⟩), by simp⟩⟩
  rw [decide_eq_false hincoming, if_neg (by simp)] at h
  obtain ⟨b, hb, h⟩ := bind_eq_ok_iff.mp h
  have hcb := Read.comparable_of_equal hb
  rw [Read.equal_ofOption hcb] at hb
  obtain rfl := Except.ok.inj hb
  refine ⟨⟨hic, fun _ => ⟨hib, fun _ => hcb⟩⟩, ?_⟩
  by_cases hcurrent : form current = form before
  · rw [decide_eq_true hcurrent, if_pos rfl] at h
    obtain rfl := Except.ok.inj h
    exact .inl ⟨incoming, .inr (.inr ⟨hcurrent, rfl⟩), by simp⟩
  · rw [decide_eq_false hcurrent, if_neg (by simp)] at h
    exact .inr ⟨⟨hincoming, hcurrent, hsame⟩, h⟩

/-- Sound comparisons settle on a side or lead to what stands behind them. -/
theorem settleOr_of_sound (h : Sound before incoming current)
    (rest : Except ProtocolError Merged) :
    (∃ value, Settled before incoming current value ∧
      settleOr (.ofOption before) (.ofOption incoming) (.ofOption current) rest =
        .ok { value := value }) ∨
    (Differ form before incoming current ∧
      settleOr (.ofOption before) (.ofOption incoming) (.ofOption current) rest = rest) := by
  unfold settleOr
  rw [Read.equal_ofOption h.1]
  simp only [Read.own_ofOption]
  by_cases hsame : form incoming = form current
  · refine .inl ⟨incoming, .inl ⟨hsame, rfl⟩, ?_⟩
    rw [decide_eq_true hsame]
    rfl
  obtain ⟨hib, hrest⟩ := h.2 hsame
  rw [Read.equal_ofOption hib, decide_eq_false hsame]
  by_cases hincoming : form incoming = form before
  · refine .inl ⟨current, .inr (.inl ⟨hincoming, rfl⟩), ?_⟩
    rw [decide_eq_true hincoming]
    rfl
  rw [Read.equal_ofOption (hrest hincoming), decide_eq_false hincoming]
  by_cases hcurrent : form current = form before
  · refine .inl ⟨incoming, .inr (.inr ⟨hcurrent, rfl⟩), ?_⟩
    rw [decide_eq_true hcurrent]
    rfl
  · refine .inr ⟨⟨hincoming, hcurrent, hsame⟩, ?_⟩
    rw [decide_eq_false hcurrent]
    rfl

/-- The names of the members of an optional value. -/
def namesOf (value : Option JsValue) : List JsString := (Read.ofOption value).keys

/-- A name is one of a value exactly when the value has a member under it. -/
theorem mem_namesOf {value : Option JsValue} {key : JsString} :
    key ∈ namesOf value ↔ (member value key).isSome = true := by
  rcases value with _ | (_ | _ | _ | _ | _ | record)
  case some.obj => exact Record.mem_keys
  all_goals exact iff_of_false List.not_mem_nil (by simp [member])

/-- The names that are merged. -/
def memberKeys (before incoming current : Option JsValue) : List JsString :=
  Reconciliation.unionKeys (namesOf before) (namesOf incoming) (namesOf current)

/-- A name is merged exactly when one of the values has a member under it. -/
theorem mem_memberKeys {key : JsString} : key ∈ memberKeys before incoming current ↔
    (member before key).isSome = true ∨ (member incoming key).isSome = true ∨
      (member current key).isSome = true := by
  unfold memberKeys Reconciliation.unionKeys
  rw [(sortBy_perm _ _).mem_iff, List.mem_dedup]
  simp only [List.mem_append, mem_namesOf, or_assoc]

/-- The parts that the merge of three mappings puts together. -/
def partsOf (before incoming current : Option JsValue) (part : JsString → Merged) :
    List (JsString × Merged) :=
  (memberKeys before incoming current).map fun key => (key, part key)

/-- A name that the merge of the members reads on own members alone: what is inherited is
read on no side, and in the base only where the sides are the same. -/
def ReadsOwn (before incoming current : Option JsValue) (key : JsString) : Prop :=
  key ∈ prototypeNames → key ∈ memberKeys before incoming current →
    (member incoming key).isSome = true ∧ (member current key).isSome = true ∧
      (isObj before = true → member before key = none →
        form (member incoming key) = form (member current key))

/-- The member of an object, if it is not an inherited one. -/
theorem member_ofOption {value : Option JsValue} {key : JsString}
    (h : (member value key).isSome = true ∨ key ∉ prototypeNames ∨ isObj value = false) :
    (Read.ofOption value).member key = .ofOption (member value key) := by
  rcases value with _ | (_ | _ | _ | _ | _ | record)
  case some.obj =>
    unfold Read.ofOption Read.member
    rw [member_obj] at h ⊢
    dsimp only
    cases hget : Record.get record key with
    | some v => rfl
    | none =>
      simp only [hget, Option.isSome_none, Bool.false_eq_true, isObj, Bool.true_eq_false,
        or_false, false_or] at h
      dsimp only
      rw [if_neg h]
  all_goals rfl

/-- The member of an object that is an inherited one. -/
theorem member_inherited {value : Option JsValue} {key : JsString} (hobj : isObj value = true)
    (hname : key ∈ prototypeNames) (hnone : member value key = none) :
    (Read.ofOption value).member key = .inherited key := by
  obtain ⟨record, rfl⟩ := isObj_iff.mp hobj
  unfold Read.ofOption Read.member
  rw [member_obj] at hnone
  dsimp only
  rw [hnone]
  exact if_pos hname

/-- The members of values that descend can be compared. -/
theorem Sound.member (h : Sound before incoming current)
    (hdiffer : Differ form before incoming current)
    (hdescend : Descendable before incoming current) (key : JsString) :
    Sound (Js.member before key) (Js.member incoming key) (Js.member current key) := by
  obtain ⟨hbefore, hincoming, hcurrent⟩ := hdescend
  obtain ⟨incoming, rfl⟩ := isObj_iff.mp hincoming
  obtain ⟨current, rfl⟩ := isObj_iff.mp hcurrent
  obtain ⟨hib, hcb⟩ := h.2 hdiffer.ne
  have hmembers : ∀ members : Record JsValue, (JsValue.obj members).isUnicode = true →
      ∀ v ∈ Record.get members key, v.isUnicode = true :=
    fun members hm v hv => (JsValue.isUnicode_obj.mp hm key v hv).2
  obtain ⟨hi, hc⟩ := h.1 _ rfl _ rfl
  have hb : ∀ v ∈ Js.member before key, v.isUnicode = true := by
    rcases hbefore with rfl | hbefore
    · simp
    · obtain ⟨before, rfl⟩ := isObj_iff.mp hbefore
      exact hmembers before (hib _ rfl _ rfl).2
  exact ⟨fun v hv w hw => ⟨hmembers incoming hi v hv, hmembers current hc w hw⟩,
    fun _ => ⟨fun v hv w hw => ⟨hmembers incoming hi v hv, hb w hw⟩,
      fun _ v hv w hw => ⟨hmembers current hc v hv, hb w hw⟩⟩⟩

/-- Nothing on all three sides merges to nothing. -/
theorem mergeAt_none (path : JsString) : mergeAt choices none none none path =
    .ok { value := none } := rfl

/-- A name that is read on own members alone merges as the own members do. -/
theorem merge_member_of_readsOwn {key : JsString}
    (hsound : Sound (member before key) (member incoming key) (member current key))
    (hkey : key ∈ memberKeys before incoming current)
    (h : ReadsOwn before incoming current key) (path : JsString) :
    merge choices ((Read.ofOption before).member key) ((Read.ofOption incoming).member key)
      ((Read.ofOption current).member key) path =
      mergeAt choices (member before key) (member incoming key) (member current key) path := by
  by_cases hname : key ∈ prototypeNames
  · obtain ⟨hi, hc, hb⟩ := h hname hkey
    rw [member_ofOption (.inl hi), member_ofOption (.inl hc)]
    by_cases hbefore : isObj before = true ∧ member before key = none
    · -- The base is not looked at, since the sides are the same.
      rw [member_inherited hbefore.1 hname hbefore.2, mergeAt, merge_eq, merge_eq]
      have hsame := hb hbefore.1 hbefore.2
      unfold settleOr
      rw [Read.equal_ofOption hsound.1, decide_eq_true hsame]
      rfl
    · rw [member_ofOption ?_]
      by_cases hobj : isObj before = true
      · exact .inl (Option.isSome_iff_ne_none.mpr fun hnone => hbefore ⟨hobj, hnone⟩)
      · exact .inr (.inr (Bool.not_eq_true _ ▸ hobj))
  · rw [member_ofOption (.inr (.inl hname)), member_ofOption (.inr (.inl hname)),
      member_ofOption (.inr (.inl hname))]

/-- A name whose merge returns is read on own members alone. -/
theorem readsOwn_of_merge {key path : JsString} {merged : Merged}
    (hdescend : Descendable before incoming current)
    (h : merge choices ((Read.ofOption before).member key) ((Read.ofOption incoming).member key)
      ((Read.ofOption current).member key) path = .ok merged) :
    ReadsOwn before incoming current key := by
  intro hname _
  rw [merge_eq] at h
  obtain ⟨b, hb, h⟩ := bind_eq_ok_iff.mp h
  -- A side that is an object has a value under the name, or the inherited one.
  have hside : ∀ {side : Option JsValue}, isObj side = true →
      (Read.ofOption side).member key ≠ .undefined := by
    intro side hobj hundefined
    cases hmember : member side key with
    | none =>
      rw [member_inherited hobj hname hmember] at hundefined
      cases hundefined
    | some v =>
      rw [member_ofOption (.inl (by rw [hmember]; rfl)), hmember] at hundefined
      cases hundefined
  have hincoming : (member incoming key).isSome = true := by
    by_contra hnone
    rw [Bool.not_eq_true, Option.isSome_eq_false_iff, Option.isNone_iff_eq_none] at hnone
    rw [member_inherited hdescend.2.1 hname hnone] at hb
    exact (Read.not_equal_inherited (hside hdescend.2.2)).1 hb
  have hcurrent : (member current key).isSome = true := by
    by_contra hnone
    rw [Bool.not_eq_true, Option.isSome_eq_false_iff, Option.isNone_iff_eq_none] at hnone
    rw [member_inherited hdescend.2.2 hname hnone] at hb
    exact (Read.not_equal_inherited (hside hdescend.2.1)).2 hb
  refine ⟨hincoming, hcurrent, fun hobj hnone => ?_⟩
  by_contra hne
  rw [member_inherited hobj hname hnone] at h
  rw [member_ofOption (.inl hincoming), member_ofOption (.inl hcurrent)] at hb
  rw [Read.equal_ofOption (Read.comparable_of_equal hb)] at hb
  obtain rfl := Except.ok.inj hb
  rw [decide_eq_false hne, if_neg (by simp)] at h
  obtain ⟨b, hb, -⟩ := bind_eq_ok_iff.mp h
  exact (Read.not_equal_inherited (hside hdescend.2.1)).2 hb

/-- What stands behind the comparisons where the merge descends. -/
theorem mergeRest_of_descendable (hdescend : Descendable before incoming current)
    (path : JsString) :
    mergeRest choices (.ofOption before) (.ofOption incoming) (.ofOption current) path = (do
      let parts ← (memberKeys before incoming current).mapM
        (mergeMember choices (.ofOption before) (.ofOption incoming) (.ofOption current) path)
      return collect parts) := by
  obtain ⟨hbefore, hincoming, hcurrent⟩ := hdescend
  obtain ⟨incoming, rfl⟩ := isObj_iff.mp hincoming
  obtain ⟨current, rfl⟩ := isObj_iff.mp hcurrent
  rcases hbefore with rfl | hbefore
  · rfl
  · obtain ⟨before, rfl⟩ := isObj_iff.mp hbefore
    rfl

/-- What stands behind the comparisons where the merge does not descend. -/
theorem mergeRest_of_not_descendable (hdescend : ¬ Descendable before incoming current)
    (path : JsString) :
    mergeRest choices (.ofOption before) (.ofOption incoming) (.ofOption current) path =
      .ok (conflict choices before incoming current path) := by
  have hrest : ∀ b i c : Read, ¬ Descendable b.own i.own c.own →
      mergeRest choices b i c path = .ok (conflict choices b.own i.own c.own path) := by
    intro b i c h
    unfold mergeRest
    split
    · exact absurd ⟨.inl rfl, rfl, rfl⟩ h
    · exact absurd ⟨.inr rfl, rfl, rfl⟩ h
    · rfl
  have h := hrest (.ofOption before) (.ofOption incoming) (.ofOption current)
  simp only [Read.own_ofOption] at h
  exact h hdescend

/-- The merges of the names return parts exactly when they are read on own members alone and
the merges of the own members return them. -/
theorem mapM_mergeMember_eq_ok_iff (hsound : Sound before incoming current)
    (hdiffer : Differ form before incoming current)
    (hdescend : Descendable before incoming current) {path : JsString}
    {parts : List (JsString × Merged)} : (memberKeys before incoming current).mapM
        (mergeMember choices (.ofOption before) (.ofOption incoming) (.ofOption current) path) =
          .ok parts ↔
      (∀ key, ReadsOwn before incoming current key) ∧ ∃ part : JsString → Merged,
        (∀ key, mergeAt choices (member before key) (member incoming key) (member current key)
          (childPath path key) = .ok (part key)) ∧
        parts = partsOf before incoming current part := by
  have hmember : ∀ key part, ReadsOwn before incoming current key →
      key ∈ memberKeys before incoming current →
      (mergeMember choices (.ofOption before) (.ofOption incoming) (.ofOption current) path key =
        .ok part ↔ ∃ merged, mergeAt choices (member before key) (member incoming key)
          (member current key) (childPath path key) = .ok merged ∧ part = (key, merged)) := by
    intro key part hown hkey
    rw [mergeMember, bind_eq_ok_iff, merge_member_of_readsOwn (hsound.member hdiffer hdescend key)
      hkey hown]
    exact exists_congr fun merged => and_congr_right fun _ =>
      ⟨fun h => (Except.ok.inj h).symm, fun h => h ▸ rfl⟩
  have hall : ∀ part : JsString → Merged, (∀ key, ReadsOwn before incoming current key) →
      (∀ key, mergeAt choices (member before key) (member incoming key) (member current key)
        (childPath path key) = .ok (part key)) → (memberKeys before incoming current).mapM
        (mergeMember choices (.ofOption before) (.ofOption incoming) (.ofOption current) path) =
          .ok (partsOf before incoming current part) := by
    intro part hown hpart
    refine mapM_eq_ok_iff.mpr (List.forall₂_map_right_iff.mpr (List.forall₂_same.mpr ?_))
    exact fun key hkey => (hmember key _ (hown key) hkey).mpr ⟨part key, hpart key, rfl⟩
  constructor
  · intro h
    have hown : ∀ key, ReadsOwn before incoming current key := by
      intro key hname hkey
      obtain ⟨_, hpart⟩ := exists_mapM_iff.mp ⟨parts, h⟩ key hkey
      obtain ⟨_, hmerge, -⟩ := bind_eq_ok_iff.mp hpart
      exact readsOwn_of_merge hdescend hmerge hname hkey
    have hmerged : ∀ key, ∃ merged, mergeAt choices (member before key) (member incoming key)
        (member current key) (childPath path key) = .ok merged := by
      intro key
      by_cases hkey : key ∈ memberKeys before incoming current
      · obtain ⟨_, hpart⟩ := exists_mapM_iff.mp ⟨parts, h⟩ key hkey
        obtain ⟨merged, hmerge, -⟩ := (hmember key _ (hown key) hkey).mp hpart
        exact ⟨merged, hmerge⟩
      · simp only [mem_memberKeys, not_or, Option.not_isSome_iff_eq_none] at hkey
        rw [hkey.1, hkey.2.1, hkey.2.2]
        exact ⟨_, mergeAt_none _⟩
    choose part hpart using hmerged
    exact ⟨hown, part, hpart, Except.ok.inj (h.symm.trans (hall part hown hpart))⟩
  · rintro ⟨hown, part, hpart, rfl⟩
    exact hall part hown hpart

/-- What a merge of own values that returns does: it settles on a side, it descends and reads
own members alone, or it reports a conflict. -/
theorem mergeAt_cases {path : JsString} {merged : Merged}
    (h : mergeAt choices before incoming current path = .ok merged) :
    Sound before incoming current ∧
      ((∃ value, Settled before incoming current value ∧ merged = { value := value }) ∨
      (Differ form before incoming current ∧ Descendable before incoming current ∧
        (∀ key, ReadsOwn before incoming current key) ∧ ∃ part : JsString → Merged,
          (∀ key, mergeAt choices (member before key) (member incoming key) (member current key)
            (childPath path key) = .ok (part key)) ∧
          merged = collect (partsOf before incoming current part)) ∨
      (Differ form before incoming current ∧ ¬ Descendable before incoming current ∧
        merged = conflict choices before incoming current path)) := by
  rw [mergeAt, merge_eq] at h
  obtain ⟨hsound, hsettled | ⟨hdiffer, h⟩⟩ := settleOr_eq_ok h
  · exact ⟨hsound, .inl hsettled⟩
  refine ⟨hsound, .inr ?_⟩
  by_cases hdescend : Descendable before incoming current
  · rw [mergeRest_of_descendable hdescend] at h
    obtain ⟨parts, hparts, h⟩ := bind_eq_ok_iff.mp h
    obtain ⟨hown, part, hpart, rfl⟩ :=
      (mapM_mergeMember_eq_ok_iff hsound hdiffer hdescend).mp hparts
    exact .inl ⟨hdiffer, hdescend, hown, part, hpart, (Except.ok.inj h).symm⟩
  · rw [mergeRest_of_not_descendable hdescend] at h
    exact .inr ⟨hdiffer, hdescend, (Except.ok.inj h).symm⟩

/-- The merge of own values returns exactly when its comparisons can be made and, where it
descends, it reads own members alone and the merges of the members return. -/
theorem exists_mergeAt_iff {path : JsString} :
    (∃ merged, mergeAt choices before incoming current path = .ok merged) ↔
      Sound before incoming current ∧ (Differ form before incoming current →
        Descendable before incoming current → ∀ key, ReadsOwn before incoming current key ∧
          ∃ merged, mergeAt choices (member before key) (member incoming key) (member current key)
            (childPath path key) = .ok merged) := by
  constructor
  · rintro ⟨merged, h⟩
    obtain ⟨hsound, hcases⟩ := mergeAt_cases h
    refine ⟨hsound, fun hdiffer hdescend key => ?_⟩
    rcases hcases with ⟨value, hsettled, -⟩ | ⟨-, -, hown, part, hpart, -⟩ | ⟨-, hnot, -⟩
    · rcases hsettled with ⟨heq, -⟩ | ⟨heq, -⟩ | ⟨heq, -⟩
      · exact absurd heq hdiffer.ne
      · exact absurd heq hdiffer.ours_ne
      · exact absurd heq hdiffer.theirs_ne
    · exact ⟨hown key, part key, hpart key⟩
    · exact absurd hdescend hnot
  · rintro ⟨hsound, hmembers⟩
    rw [mergeAt, merge_eq]
    rcases settleOr_of_sound hsound (mergeRest choices (.ofOption before) (.ofOption incoming)
      (.ofOption current) path) with ⟨value, -, hsettle⟩ | ⟨hdiffer, hrest⟩
    · exact ⟨_, hsettle⟩
    rw [hrest]
    by_cases hdescend : Descendable before incoming current
    · choose hown part hpart using hmembers hdiffer hdescend
      rw [mergeRest_of_descendable hdescend]
      exact ⟨_, bind_eq_ok_iff.mpr ⟨_, (mapM_mergeMember_eq_ok_iff hsound hdiffer hdescend).mpr
        ⟨hown, part, hpart, rfl⟩, rfl⟩⟩
    · exact ⟨_, mergeRest_of_not_descendable hdescend path⟩

end T3x.SchemaMerge
