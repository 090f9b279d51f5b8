import T3x.Yops.Alignment
import T3x.Yops.Sequential

/-!
# What the validator flags in vain

Operations that were applied pass every check of the validator but one. The
validator splits a path anew, and there a quotation mark opens a quoted part
anywhere, where for the parser it does so at the start of a segment only. A piece
that the validator cuts out in this way may begin with a bracket that it takes for
malformed, although no segment of the path does.
-/

namespace T3x.Yops

open Js T3x.Run

/-- The pieces of the path, cut at the slashes outside of quotes with quotes opening anywhere,
begin with no bracket that is neither an index nor a match. -/
def OpensNoBracketInVain (path : JsString) : Prop :=
  ∀ raw ∈ splitRawSegments path, isMalformedBracket raw = false

instance (path : JsString) : Decidable (OpensNoBracketInVain path) :=
  inferInstanceAs (Decidable (∀ raw ∈ splitRawSegments path, isMalformedBracket raw = false))

/-- A source that the schema takes has the members that have to be there. -/
theorem coreSourceSchema_of_sourceSchema {value : JsValue} (h : sourceSchema value = true) :
    coreSourceSchema value = true := by
  cases value with
  | obj source =>
    simp only [sourceSchema, llmSourceSchema, humanSourceSchema, coreSourceSchema, Shape.anyOf,
      Shape.object, List.any_cons, List.any_nil, List.all_cons, List.all_nil, Bool.or_false,
      Bool.and_true, Bool.or_eq_true, Bool.and_eq_true] at h ⊢
    rcases h with ⟨htype, -, -, hturn⟩ | ⟨htype, hauthor, -⟩
    · exact .inl ⟨htype, hturn⟩
    · exact .inr ⟨htype, hauthor⟩
  | _ => simp [sourceSchema, Shape.anyOf, llmSourceSchema, humanSourceSchema, Shape.object] at h

/-- An operation that the schema takes is right but perhaps for its source. -/
theorem unionSchema_coreSourceSchema {rawOp : JsValue} (h : yOpSchema rawOp = true) :
    unionSchema coreSourceSchema rawOp = true := by
  obtain ⟨op, spec, payload, rfl, hfits⟩ := unionSchema_iff.mp h
  refine unionSchema_iff.mpr ⟨op, spec, payload, rfl, hfits.known, hfits.name, hfits.keys,
    hfits.body, hfits.right, fun value hvalue => ?_⟩
  exact coreSourceSchema_of_sourceSchema (hfits.origin value hvalue)

/-- Every operation of a run that succeeds passes the checks before its handler. -/
theorem passes_of_run {issueMessage : JsValue → JsString} {doc next : JsValue}
    {ops : List JsValue} (h : run (applyStep issueMessage) doc ops = some next) :
    ∀ rawOp ∈ ops, yOpSchema rawOp = true ∧
      ∀ path ∈ getOpPaths rawOp, ∃ segments, tryParsePath path = .ok segments := by
  induction ops generalizing doc with
  | nil => exact fun _ hmem => absurd hmem List.not_mem_nil
  | cons op ops ih =>
    obtain ⟨middle, hstep, hrest⟩ := Option.bind_eq_some_iff.mp h
    refine List.forall_mem_cons.mpr ⟨?_, ih hrest⟩
    have hop := applyOp_of_applyStep 0 hstep
    rw [applyOp_eq_checkUpFront] at hop
    obtain ⟨call, hcall, -⟩ := bind_eq_ok_iff.mp hop
    exact (checkUpFront_ok_iff issueMessage 0).mp ⟨call, hcall⟩

/-- Of operations that were applied to some document the validator reports no error exactly
when no path among theirs opens a bracket in vain. -/
theorem validateYOpsOps_clean_iff {issueMessage : JsValue → JsString} {doc : JsValue}
    {ops : List JsValue} (h : (applyYOps issueMessage doc ops).ok = true) :
    (∃ found, validateYOpsOps ops = .ok found ∧ Clean found) ↔
      ∀ rawOp ∈ ops, ∀ path ∈ getOpPaths rawOp, OpensNoBracketInVain path := by
  have hpass := passes_of_run (run_of_applyYOps h)
  have hinherited : ∀ rawOp ∈ ops, ¬ GoesByInheritedName rawOp := fun rawOp hmem hgoes =>
    yOpSchema_of_inherited hgoes (hpass rawOp hmem).1
  obtain ⟨found, hfound, hfrom⟩ := (validateFrom_spec 0 ops).2 hinherited
  -- the validator is silent on an operation that was applied when its paths are clean
  have hop : ∀ rawOp ∈ ops, ∀ index, ∃ more, validateOp rawOp index = .ok more ∧
      (Clean more ↔ ∀ path ∈ getOpPaths rawOp, OpensNoBracketInVain path) := by
    intro rawOp hmem index
    obtain ⟨hschema, hparse⟩ := hpass rawOp hmem
    obtain ⟨more, hmore, hclean⟩ := validateOp_clean_iff index (hinherited rawOp hmem)
    refine ⟨more, hmore, hclean.trans ⟨fun hright path hpath => (hright.2 path hpath).2, ?_⟩⟩
    exact fun hpaths => ⟨unionSchema_coreSourceSchema hschema,
      fun path hpath => ⟨hparse path hpath, hpaths path hpath⟩⟩
  constructor
  · rintro ⟨found', hfound', hclean⟩ rawOp hmem
    obtain rfl := Except.ok.inj (hfound.symm.trans hfound')
    obtain ⟨index, hindex⟩ := List.mem_iff_getElem?.mp hmem
    obtain ⟨more, hmore, hiff⟩ := hop rawOp hmem (0 + index)
    refine hiff.mp fun d hd => ?_
    exact hclean d ((hfrom d).mpr ⟨index, rawOp, more, hindex, hmore, hd⟩)
  · intro hpaths
    refine ⟨found, hfound, fun d hd => ?_⟩
    obtain ⟨index, rawOp, more, hindex, hmore, hdmore⟩ := (hfrom d).mp hd
    have hmem : rawOp ∈ ops := List.mem_of_getElem? hindex
    obtain ⟨more', hmore', hiff⟩ := hop rawOp hmem (0 + index)
    obtain rfl := Except.ok.inj (hmore.symm.trans hmore')
    exact hiff.mpr (hpaths rawOp hmem) d hdmore

/-- The item whose member `k` is `v"`, and below it the member `b`: a quotation mark inside
a match. -/
def quotedMatchPath : JsString := js "[k=v\"]/b"

/-- The operation that sets what stands at the path. -/
def setQuotedMatch : JsValue :=
  .obj [(js "set", .obj [(js "path", .str quotedMatchPath), (js "value", .null)])]

/-- A sequence with the item. -/
def quotedMatchDoc : JsValue := .arr [.obj [(js "k", .str (js "v\""))]]

/-- The engine applies the operation, and the validator reports an error of its path. -/
theorem validateYOpsOps_flags :
    (applyYOps (fun _ => js "Invalid input") quotedMatchDoc [setQuotedMatch]).ok = true ∧
      ¬ ∃ found, validateYOpsOps [setQuotedMatch] = .ok found ∧ Clean found := by
  have hflags : (validateYOpsOps [setQuotedMatch]).toOption.map (List.map Diagnostic.severity) =
      some ["error"] := by decide +kernel
  refine ⟨by decide, ?_⟩
  rintro ⟨found, hfound, hclean⟩
  rw [hfound] at hflags
  cases found with
  | nil => cases hflags
  | cons d found =>
    have hseverity := Option.some.inj hflags
    exact hclean d List.mem_cons_self (List.cons.inj hseverity).1

/-- Setting a member of the root is not flagged. -/
theorem validateYOpsOps_clean_root :
    ∃ found, validateYOpsOps
      [.obj [(js "set", .obj [(js "path", .str (js "a")), (js "value", .null)])]] = .ok found ∧
        Clean found := by
  have hok : (applyYOps (fun _ => []) (.obj []) [.obj [(js "set", .obj [(js "path", .str (js "a")),
      (js "value", .null)])]]).ok = true := by decide
  exact (validateYOpsOps_clean_iff hok).mpr (by decide)

end T3x.Yops
