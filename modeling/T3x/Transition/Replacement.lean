import T3x.Transition.YopsStates

/-!
# Replacements are exact

Each step of a replacement brings one root key from the Base to the target, so
the run of all steps gives the target. It goes through where no root key is
empty or holds a slash, which the adapter refuses, and where the path parser
reads every root key that changes as that key.
-/

namespace T3x.Transition

open Js Yops T3x.Run

/-! ## The steps -/

/-- A text without a slash that begins with neither a quotation mark nor a bracket is read as one
key. -/
theorem isRootKey_of_head {key : JsString} (hne : key ≠ []) (hslash : unit '/' ∉ key)
    (hquote : key.head? ≠ some (unit '"')) (hbracket : key.head? ≠ some (unit '[')) :
    IsRootKey key := by
  obtain ⟨u, rest, rfl⟩ := List.exists_cons_of_ne_nil hne
  have hu : u ≠ unit '"' := fun h => hquote (congrArg some h)
  have htake : (u :: rest).takeWhile (· ≠ unit '/') = u :: rest :=
    List.takeWhile_eq_self_iff.mpr fun v hv => decide_eq_true fun h => hslash (h ▸ hv)
  have hdrop : (u :: rest).dropWhile (· ≠ unit '/') = [] :=
    List.dropWhile_eq_nil_iff.mpr fun v hv => decide_eq_true fun h => hslash (h ▸ hv)
  have hread : readSegment (u :: rest).length (u :: rest) = .ok (.key (u :: rest), []) := by
    unfold readSegment
    simp only [if_neg hu, htake, hdrop, classifyStrictRawSegment, if_neg hbracket]
    rfl
  rw [IsRootKey, tryParsePath, if_neg hne]
  simp only [parseSegments, hread]
  rfl

/-- Whether two values in the domain of the protocol are the same. -/
theorem sameProtocolValue_of_isUnicode {left right : JsValue} (hleft : left.isUnicode = true)
    (hright : right.isUnicode = true) :
    ∃ same, sameProtocolValue left right = .ok same ∧
      (same = true ↔ JsValue.Same left right) := by
  obtain ⟨leftText, hleftText⟩ := exists_canonicalJson_iff.mpr hleft
  obtain ⟨rightText, hrightText⟩ := exists_canonicalJson_iff.mpr hright
  refine ⟨decide (leftText = rightText), bind_eq_ok_iff.mpr ⟨leftText, hleftText,
    bind_eq_ok_iff.mpr ⟨rightText, hrightText, rfl⟩⟩, ?_⟩
  rw [decide_eq_true_iff]
  constructor
  · rintro rfl
    exact denote_eq_of_canonical hleftText hrightText
  · intro hsame
    have hcongr := canonicalizeProtocolValue_congr hsame hleftText
    exact Except.ok.inj (hcongr.symm.trans hrightText)

section

variable {base target : Record JsValue}

/-- The root keys of the Base and the target can be replaced: the adapter refuses none of them,
and those that change begin with neither a quotation mark nor a bracket. -/
structure Replaceable (base target : Record JsValue) : Prop where
  /-- No root key is empty or holds a slash. -/
  named : ∀ key, Record.has base key = true ∨ Record.has target key = true →
    key ≠ [] ∧ unit '/' ∉ key
  /-- No root key that changes begins with a quotation mark or a bracket. -/
  addressed : ∀ key, ¬ReadsAlike base target key →
    key.head? ≠ some (unit '"') ∧ key.head? ≠ some (unit '[')

/-- The step for a root key: no operation where nothing changes, else the edit of the key. -/
inductive IsStep (base target : Record JsValue) (key : JsString) : List JsValue → Prop
  | unchanged (h : ReadsAlike base target key) : IsStep base target key []
  | edit (h : ¬ReadsAlike base target key) :
    IsStep base target key (rootEdit (Record.get base key) (Record.get target key) key)

/-- The step for a root key that is not refused. -/
theorem exists_replacementStep (h : Replaceable base target)
    (hbase : (JsValue.obj base).isUnicode = true) (htarget : (JsValue.obj target).isUnicode = true)
    {key : JsString} (hhas : Record.has base key = true ∨ Record.has target key = true) :
    ∃ ops, replacementStep base target key = .ok ops ∧ IsStep base target key ops := by
  obtain ⟨hne, hslash⟩ := h.named key hhas
  unfold replacementStep
  rw [if_neg (not_or.mpr ⟨hne, hslash⟩)]
  cases hbefore : Record.get base key with
  | none =>
    cases hafter : Record.get target key with
    | none => simp [Record.has, hbefore, hafter] at hhas
    | some after =>
      refine ⟨_, rfl, ?_⟩
      rw [← hbefore, ← hafter]
      exact .edit (by simp [ReadsAlike, hbefore, hafter])
  | some before =>
    cases hafter : Record.get target key with
    | none =>
      refine ⟨_, rfl, ?_⟩
      rw [← hbefore, ← hafter]
      exact .edit (by simp [ReadsAlike, hbefore, hafter])
    | some after =>
      obtain ⟨same, hsame, hiff⟩ := sameProtocolValue_of_isUnicode
        (JsValue.isUnicode_obj.mp hbase key before hbefore).2
        (JsValue.isUnicode_obj.mp htarget key after hafter).2
      have halike : same = true ↔ ReadsAlike base target key := by
        rw [hiff, ReadsAlike, hbefore, hafter, Option.map_some, Option.map_some, Option.some.injEq]
        rfl
      cases same with
      | true => exact ⟨[], bind_eq_ok_iff.mpr ⟨true, hsame, rfl⟩, .unchanged (halike.mp rfl)⟩
      | false =>
        refine ⟨_, bind_eq_ok_iff.mpr ⟨false, hsame, rfl⟩, ?_⟩
        rw [← hbefore, ← hafter]
        exact .edit fun h => by cases halike.mpr h

/-- Forms of the steps of distinct root keys bring a document that reads alike with the Base under
them, and with the target elsewhere, to the target. -/
theorem run_steps (issueMessage : JsValue → JsString) (h : Replaceable base target)
    {keys : List JsString} {steps : List (List JsValue)} {forms : List JsValue}
    {map : Record JsValue} (hkeys : keys.Nodup)
    (hhas : ∀ key ∈ keys, Record.has base key = true ∨ Record.has target key = true)
    (hsteps : List.Forall₂ (IsStep base target) keys steps)
    (hforms : List.Forall₂ JsValue.Same forms steps.flatten)
    (hmap : ∀ key, ReadsAlike map (if key ∈ keys then base else target) key) :
    ∃ map', run (applyStep issueMessage) (.obj map) forms = some (.obj map') ∧
      Record.Same map' target := by
  induction hsteps generalizing forms map with
  | nil =>
    obtain rfl := List.forall₂_nil_right_iff.mp hforms
    refine ⟨map, rfl, fun key => ?_⟩
    have hread := hmap key
    rwa [if_neg List.not_mem_nil] at hread
  | @cons key ops keys steps hstep _ ih =>
    obtain ⟨hnot, hnodup⟩ := List.nodup_cons.mp hkeys
    have hlater : ∀ key ∈ keys, Record.has base key = true ∨ Record.has target key = true :=
      fun key hkey => hhas key (List.mem_cons_of_mem _ hkey)
    have hbefore : ReadsAlike map base key := by simpa using hmap key
    -- Elsewhere the document reads as before the step, under the key it reads as the target.
    have hafter : ∀ map' : Record JsValue, ReadsAlike map' target key →
        (∀ other, other ≠ key → Record.get map' other = Record.get map other) →
        ∀ other, ReadsAlike map' (if other ∈ keys then base else target) other := by
      intro map' htarget hothers other
      by_cases hother : other = key
      · subst hother
        rwa [if_neg hnot]
      · have hread := hmap other
        simp only [List.mem_cons, hother, false_or] at hread
        rw [ReadsAlike, hothers other hother]
        exact hread
    cases hstep with
    | unchanged hsame =>
      exact ih hnodup hlater hforms (hafter map (hbefore.trans hsame) fun _ _ => rfl)
    | edit hchanged =>
      rw [List.flatten_cons] at hforms
      obtain ⟨hne, hslash⟩ := h.named key (hhas key List.mem_cons_self)
      obtain ⟨hquote, hbracket⟩ := h.addressed key hchanged
      obtain ⟨map', hrun, htarget, hothers⟩ := run_rootEdit issueMessage
        (isRootKey_of_head hne hslash hquote hbracket) (hhas key List.mem_cons_self)
        (List.forall₂_take_append _ _ _ hforms) hbefore
      obtain ⟨last, hlast, hlastSame⟩ := ih hnodup hlater
        (List.forall₂_drop_append _ _ _ hforms) (hafter map' htarget hothers)
      refine ⟨last, ?_, hlastSame⟩
      rw [← List.take_append_drop (rootEdit (Record.get base key) (Record.get target key) key).length
        forms, run_append, hrun]
      exact hlast

/-! ## The operations -/

/-- An operation that the adapter takes in every form, as it is. -/
structure IsPrimitive (op : JsValue) : Prop where
  /-- No form of it carries a source. -/
  unsourced : ∀ form, JsValue.Same form op → form.hasMember "source" = false
  /-- The schema takes every form. -/
  accepted : ∀ form, JsValue.Same form op → yOpSchema form = true
  /-- No recipe is made for a form of it. -/
  retained : ∀ form, JsValue.Same form op → ∀ doc, expansionOf doc form = none

/-- A form of an operation with one key has no other. -/
theorem hasMember_of_same {name : String} {payload : Record JsValue} {form : JsValue}
    (hname : js name ≠ js "source") (h : JsValue.Same form (.obj [(js name, .obj payload)])) :
    form.hasMember "source" = false := by
  obtain ⟨op, -, rfl, hkeys, -, -⟩ := exists_payload_of_same h
  rw [Bool.eq_false_iff]
  intro hhas
  exact hname (hkeys _ (Record.mem_keys.mpr hhas)).symm

/-- The operations of the edit of a root key are primitive. -/
theorem isPrimitive_rootEdit {before after : Option JsValue} {key : JsString} {op : JsValue}
    (hkey : IsRootKey key) (hop : op ∈ rootEdit before after key) : IsPrimitive op := by
  have hretained : ∀ form, JsValue.Same form op → ∀ doc, expansionOf doc form = none :=
    fun _ h doc => expansionOf_rootEdit hop h doc
  rw [rootEdit, List.mem_cons, List.mem_singleton] at hop
  have message : JsValue → JsString := fun _ => []
  rcases hop with rfl | rfl
  · cases before with
    | none => exact ⟨fun _ h => hasMember_of_same (by decide) h,
        fun _ h => (calls_assertAbsent message hkey.ne_nil hkey h).accepted, hretained⟩
    | some before => exact ⟨fun _ h => hasMember_of_same (by decide) h,
        fun _ h => (calls_assertEquals message hkey.ne_nil hkey h).accepted, hretained⟩
  · cases after with
    | none => exact ⟨fun _ h => hasMember_of_same (by decide) h,
        fun _ h => (calls_unsetKey message hkey.ne_nil hkey h).accepted, hretained⟩
    | some after => exact ⟨fun _ h => hasMember_of_same (by decide) h,
        fun _ h => (calls_setValue message hkey.ne_nil hkey h).accepted, hretained⟩

/-- The value of one member is in the domain if the name and what is under it are. -/
theorem isUnicode_member {name : String} {record : Record JsValue}
    (hname : isWellFormed (js name) = true) (hrecord : ∀ e ∈ record, isWellFormed e.1 = true ∧ e.2.isUnicode = true) :
    (JsValue.obj [(js name, .obj record)]).isUnicode = true := by
  refine JsValue.isUnicode_obj.mpr fun key v hv => ?_
  obtain ⟨rfl, rfl⟩ := Prod.mk.inj (List.mem_singleton.mp (Record.mem_of_get hv))
  exact ⟨hname, JsValue.isUnicode_obj.mpr fun key v hv => hrecord _ (Record.mem_of_get hv)⟩

/-- The operations of the edit of a root key are in the domain of the protocol. -/
theorem isUnicode_rootEdit {before after : Option JsValue} {key : JsString} {op : JsValue}
    (hkey : isWellFormed key = true) (hbefore : ∀ v ∈ before, v.isUnicode = true)
    (hafter : ∀ v ∈ after, v.isUnicode = true) (hop : op ∈ rootEdit before after key) :
    op.isUnicode = true := by
  have hpath : ∀ name : String, isWellFormed (js name) = true →
      isWellFormed (js name, JsValue.str key).1 = true ∧
        (js name, JsValue.str key).2.isUnicode = true := fun name hname => ⟨hname, hkey⟩
  have hequals : isWellFormed (js "equals") = true := by decide
  have hvalue : isWellFormed (js "value") = true := by decide
  rw [rootEdit, List.mem_cons, List.mem_singleton] at hop
  rcases hop with rfl | rfl
  · cases before with
    | none =>
      refine isUnicode_member (by decide) (List.forall_mem_cons.mpr ⟨hpath "path" (by decide), ?_⟩)
      exact List.forall_mem_singleton.mpr ⟨by decide, by decide⟩
    | some before =>
      refine isUnicode_member (by decide) (List.forall_mem_cons.mpr ⟨hpath "path" (by decide), ?_⟩)
      exact List.forall_mem_singleton.mpr ⟨hequals, hbefore before rfl⟩
  · cases after with
    | none =>
      exact isUnicode_member (by decide) (List.forall_mem_singleton.mpr (hpath "path" (by decide)))
    | some after =>
      refine isUnicode_member (by decide) (List.forall_mem_cons.mpr ⟨hpath "path" (by decide), ?_⟩)
      exact List.forall_mem_singleton.mpr ⟨hvalue, hafter after rfl⟩

/-- The names of a record in the domain of the protocol are in it. -/
theorem isWellFormed_of_has {record : Record JsValue} (h : (JsValue.obj record).isUnicode = true)
    {key : JsString} (hkey : Record.has record key = true) : isWellFormed key = true := by
  obtain ⟨v, hv⟩ := Record.has_eq_true.mp hkey
  exact (JsValue.isUnicode_obj.mp h key v hv).1

/-- The operations of a step are primitive and in the domain of the protocol. -/
theorem isPrimitive_of_isStep (h : Replaceable base target)
    (hbase : (JsValue.obj base).isUnicode = true) (htarget : (JsValue.obj target).isUnicode = true)
    {key : JsString} (hhas : Record.has base key = true ∨ Record.has target key = true)
    {ops : List JsValue} (hstep : IsStep base target key ops) :
    ∀ op ∈ ops, IsPrimitive op ∧ op.isUnicode = true := by
  intro op hop
  cases hstep with
  | unchanged => cases hop
  | edit hchanged =>
    obtain ⟨hne, hslash⟩ := h.named key hhas
    obtain ⟨hquote, hbracket⟩ := h.addressed key hchanged
    refine ⟨isPrimitive_rootEdit (isRootKey_of_head hne hslash hquote hbracket) hop, ?_⟩
    refine isUnicode_rootEdit ?_ (fun v hv => (JsValue.isUnicode_obj.mp hbase key v hv).2)
      (fun v hv => (JsValue.isUnicode_obj.mp htarget key v hv).2) hop
    exact hhas.elim (isWellFormed_of_has hbase) (isWellFormed_of_has htarget)

/-- The keys of a replacement are those of the Base and of the target, each once. -/
theorem mem_replacementKeys {key : JsString} : key ∈ replacementKeys base target ↔
    Record.has base key = true ∨ Record.has target key = true := by
  rw [replacementKeys, (sortBy_perm _ _).mem_iff, mem_distinct, List.mem_append, Record.mem_keys,
    Record.mem_keys]

/-- No key of a replacement comes twice. -/
theorem nodup_replacementKeys : (replacementKeys base target).Nodup :=
  (sortBy_perm _ _).nodup_iff.mpr (nodup_distinct _)

/-- What is related on the right of two lists is related to something. -/
theorem exists_of_forall₂_mem {α β : Type} {R : α → β → Prop} {as : List α} {bs : List β}
    (h : List.Forall₂ R as bs) {b : β} (hb : b ∈ bs) : ∃ a, R a b := by
  induction h with
  | nil => cases hb
  | cons hab _ ih => exact (List.mem_cons.mp hb).elim (fun h => ⟨_, h ▸ hab⟩) ih

/-- The operations of a replacement that is not refused: those of its steps. -/
theorem exists_replacementOperations (h : Replaceable base target)
    (hbase : (JsValue.obj base).isUnicode = true)
    (htarget : (JsValue.obj target).isUnicode = true) :
    ∃ steps, replacementOperations base target = .ok steps.flatten ∧
      List.Forall₂ (IsStep base target) (replacementKeys base target) steps ∧
      ∀ op ∈ steps.flatten, IsPrimitive op ∧ op.isUnicode = true := by
  have hstep : ∀ key ∈ replacementKeys base target, ∃ ops,
      replacementStep base target key = .ok ops ∧ IsStep base target key ops := fun key hkey =>
    exists_replacementStep h hbase htarget (mem_replacementKeys.mp hkey)
  obtain ⟨steps, hsteps⟩ := exists_mapM_iff.mpr fun key hkey =>
    (hstep key hkey).imp fun _ hops => hops.1
  have hisStep : List.Forall₂ (fun key ops => key ∈ replacementKeys base target ∧
      IsStep base target key ops) (replacementKeys base target) steps := by
    refine ((List.forall₂_and_left _ _).mpr ⟨fun key hkey => hkey, mapM_eq_ok_iff.mp hsteps⟩).imp ?_
    rintro key ops ⟨hkey, hops⟩
    obtain ⟨ops', hops', his⟩ := hstep key hkey
    rw [hops] at hops'
    exact ⟨hkey, Except.ok.inj hops' ▸ his⟩
  refine ⟨steps, bind_eq_ok_iff.mpr ⟨steps, hsteps, rfl⟩, hisStep.imp fun _ _ h => h.2, ?_⟩
  intro op hop
  obtain ⟨ops, hops, hop⟩ := List.mem_flatten.mp hop
  obtain ⟨key, ⟨hkey, his⟩⟩ := exists_of_forall₂_mem hisStep hops
  exact isPrimitive_of_isStep h hbase htarget (mem_replacementKeys.mp hkey) his op hop

end

end T3x.Transition
