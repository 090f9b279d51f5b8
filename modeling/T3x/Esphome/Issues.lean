import T3x.Esphome.SourceInputs

/-!
# The order of issues

Issues are told apart by their keys, and a key tells the code. The issues of a result are
sorted by key, so the order in which issues with keys of their own were found is lost.
-/

namespace T3x.Esphome

open Js

/-! ## Keys -/

/-- The text of a code has no separator. -/
theorem zero_not_mem_text (code : EspHomeSourceInputIssueCode) : (0 : UInt16) ∉ code.text := by
  cases code <;> decide

/-- The codes. -/
def issueCodes : List EspHomeSourceInputIssueCode :=
  [.includeCycle, .missingResource, .missingSecret, .sourceDependencyScanFailed,
    .unsupportedDynamicInclude, .unsupportedIncludeDirectory, .unsupportedIncludeShape,
    .unsupportedRemotePackage, .unsupportedTag, .unusedResource]

/-- The text of a code tells the code. -/
theorem text_injective {code code' : EspHomeSourceInputIssueCode} (h : code.text = code'.text) :
    code = code' := by
  have hfind : ∀ code : EspHomeSourceInputIssueCode,
      issueCodes.find? (fun other => other.text == code.text) = some code := by
    intro code
    cases code <;> decide
  have hcode := hfind code
  rw [h, hfind code'] at hcode
  exact (Option.some.inj hcode).symm

/-- A key begins with the code and the separator. -/
theorem issueKey_eq (issue : EspHomeSourceInputIssue) : issueKey issue =
    issue.code.text ++ 0 :: join 0 [issue.sourcePath, issue.reference.getD [], issue.message] :=
  join_cons_cons _ _ _ _

/-- Issues of one key have one code. -/
theorem code_eq_of_issueKey {issue issue' : EspHomeSourceInputIssue}
    (h : issueKey issue = issueKey issue') : issue.code = issue'.code := by
  have htake : ∀ issue : EspHomeSourceInputIssue,
      (issueKey issue).takeWhile (fun u => decide (u ≠ 0)) = issue.code.text := by
    intro issue
    have hall : ∀ u ∈ issue.code.text, decide (u ≠ 0) = true := fun u hu =>
      decide_eq_true fun heq => zero_not_mem_text issue.code (heq ▸ hu)
    rw [issueKey_eq, List.takeWhile_append_of_pos hall]
    simp
  apply text_injective
  rw [← htake, h, htake]

/-- The issues of unused resources are told apart by their paths. -/
theorem issueKey_unusedIssue_injective {rootPath path path' : JsString}
    (h : issueKey (unusedIssue rootPath path) = issueKey (unusedIssue rootPath path')) :
    path = path' := by
  have hkey : ∀ path, issueKey (unusedIssue rootPath path) =
      js "UNUSED_RESOURCE" ++ 0 :: (path ++ 0 :: (path ++ 0 :: (js "Supplied source resource " ++
        path ++ js " is not reachable from " ++ rootPath))) := by
    intro path
    rw [issueKey_eq, join_cons_cons, join_cons_cons, join_singleton]
    rfl
  rw [hkey, hkey] at h
  have hlength := congrArg List.length h
  simp only [List.length_append, List.length_cons] at hlength
  have hrest := List.cons.inj (List.append_cancel_left h)
  exact (List.append_inj hrest.2 (by omega)).1

/-! ## Issues by key -/

/-- The last issue of a key counts. -/
theorem get_uniqueIssues (issues : List EspHomeSourceInputIssue) (key : JsString) :
    Record.get (uniqueIssues issues) key =
      Record.get (issues.map fun issue => (issueKey issue, issue)).reverse key := by
  unfold uniqueIssues
  induction issues using List.reverseRecOn with
  | nil => rfl
  | append_singleton issues issue ih =>
    simp only [List.foldl_append, List.foldl_cons, List.foldl_nil, Record.get_mapSet, ih,
      List.map_append, List.map_cons, List.map_nil, List.reverse_append, List.reverse_cons,
      List.reverse_nil, List.nil_append, List.cons_append, Record.get]
    by_cases hkey : key = issueKey issue
    · rw [if_pos hkey, if_pos hkey.symm]
    · rw [if_neg hkey, if_neg (Ne.symm hkey)]

/-- No key is repeated. -/
theorem nodup_uniqueIssues (issues : List EspHomeSourceInputIssue) :
    ((uniqueIssues issues).map Prod.fst).Nodup := by
  unfold uniqueIssues
  induction issues using List.reverseRecOn with
  | nil => exact List.nodup_nil
  | append_singleton issues issue ih =>
    rw [List.foldl_append]
    exact Record.nodup_mapSet ih _ _

/-- What stands under a key is an issue of that key. -/
theorem of_get_uniqueIssues {issues : List EspHomeSourceInputIssue} {key : JsString}
    {issue : EspHomeSourceInputIssue} (h : Record.get (uniqueIssues issues) key = some issue) :
    issue ∈ issues ∧ issueKey issue = key := by
  rw [get_uniqueIssues] at h
  obtain ⟨other, hother, heq⟩ := List.mem_map.mp (List.mem_reverse.mp (Record.mem_of_get h))
  obtain ⟨rfl, rfl⟩ := Prod.mk.inj heq
  exact ⟨hother, rfl⟩

/-- The sorted issues are those that stand under their keys. -/
theorem mem_sortedIssues {issues : List EspHomeSourceInputIssue}
    {issue : EspHomeSourceInputIssue} : issue ∈ sortedIssues issues ↔
      Record.get (uniqueIssues issues) (issueKey issue) = some issue := by
  unfold sortedIssues
  rw [(sortBy_perm _ _).mem_iff, List.mem_map]
  constructor
  · rintro ⟨⟨key, other⟩, hmem, rfl⟩
    have hget := Record.get_eq_some_of_mem (nodup_uniqueIssues issues) hmem
    simp only at hget ⊢
    rw [(of_get_uniqueIssues hget).2, hget]
  · intro h
    exact ⟨_, Record.mem_of_get h, rfl⟩

/-- Every issue has one of its key among the sorted issues. -/
theorem exists_mem_sortedIssues {issues : List EspHomeSourceInputIssue}
    {issue : EspHomeSourceInputIssue} (h : issue ∈ issues) :
    ∃ other ∈ sortedIssues issues, other.code = issue.code := by
  have hhas : Record.has (issues.map fun issue => (issueKey issue, issue)).reverse
      (issueKey issue) = true := by
    by_contra hnot
    have hget := Record.has_eq_false.mp (Bool.eq_false_iff.mpr hnot)
    have hmem : (issueKey issue, issue) ∈
        (issues.map fun issue => (issueKey issue, issue)).reverse :=
      List.mem_reverse.mpr (List.mem_map.mpr ⟨issue, h, rfl⟩)
    rw [Record.get_eq_none_iff] at hget
    exact hget (List.mem_map.mpr ⟨_, hmem, rfl⟩)
  obtain ⟨other, hother⟩ := Record.has_eq_true.mp hhas
  rw [← get_uniqueIssues] at hother
  have hkey := (of_get_uniqueIssues hother).2
  refine ⟨other, mem_sortedIssues.mpr ?_, code_eq_of_issueKey hkey⟩
  rw [hkey, hother]

/-- A sorted issue is one of the issues. -/
theorem mem_of_mem_sortedIssues {issues : List EspHomeSourceInputIssue}
    {issue : EspHomeSourceInputIssue} (h : issue ∈ sortedIssues issues) : issue ∈ issues :=
  (of_get_uniqueIssues (mem_sortedIssues.mp h)).1

/-- Some sorted issue has a code exactly when some issue has it. -/
theorem exists_code_sortedIssues {issues : List EspHomeSourceInputIssue}
    {p : EspHomeSourceInputIssueCode → Prop} :
    (∃ issue ∈ sortedIssues issues, p issue.code) ↔ ∃ issue ∈ issues, p issue.code := by
  constructor
  · rintro ⟨issue, hissue, hp⟩
    exact ⟨issue, mem_of_mem_sortedIssues hissue, hp⟩
  · rintro ⟨issue, hissue, hp⟩
    obtain ⟨other, hother, hcode⟩ := exists_mem_sortedIssues hissue
    exact ⟨other, hother, hcode ▸ hp⟩

/-- There are no sorted issues exactly when there are no issues. -/
theorem sortedIssues_eq_nil_iff {issues : List EspHomeSourceInputIssue} :
    sortedIssues issues = [] ↔ issues = [] := by
  rw [List.eq_nil_iff_forall_not_mem, List.eq_nil_iff_forall_not_mem]
  constructor
  · intro h issue hissue
    obtain ⟨other, hother, -⟩ := exists_mem_sortedIssues hissue
    exact h other hother
  · exact fun h issue hissue => h issue (mem_of_mem_sortedIssues hissue)

/-- Issues that stand alike under their keys are sorted alike. -/
theorem sortedIssues_congr {issues issues' : List EspHomeSourceInputIssue}
    (h : ∀ key, Record.get (uniqueIssues issues) key = Record.get (uniqueIssues issues') key) :
    sortedIssues issues = sortedIssues issues' := by
  have hc := isStringOrder_compareCodeUnits
  have hnodup : ∀ issues, (sortedIssues issues).Nodup := by
    intro issues
    unfold sortedIssues
    rw [(sortBy_perm _ _).nodup_iff]
    refine List.Nodup.map_on ?_ (List.Nodup.of_map _ (nodup_uniqueIssues issues))
    rintro ⟨key, issue⟩ hmem ⟨key', issue'⟩ hmem' heq
    have hkey := of_get_uniqueIssues (Record.get_eq_some_of_mem (nodup_uniqueIssues issues) hmem)
    have hkey' := of_get_uniqueIssues (Record.get_eq_some_of_mem (nodup_uniqueIssues issues) hmem')
    obtain rfl : issue = issue' := heq
    rw [← hkey.2, hkey'.2]
  have hperm : (sortedIssues issues).Perm (sortedIssues issues') := by
    rw [List.perm_ext_iff_of_nodup (hnodup issues) (hnodup issues')]
    intro issue
    rw [mem_sortedIssues, mem_sortedIssues, h]
  refine List.Perm.eq_of_pairwise ?_ (sortBy_pairwise hc issueKey _) (sortBy_pairwise hc issueKey _)
    hperm
  intro issue issue' hmem hmem' hle hge
  have hswap := hc.swap (issueKey issue) (issueKey issue')
  have hkey := (hc.eq_zero _ _).mp (by omega : compareCodeUnits (issueKey issue) (issueKey issue') = 0)
  have hget := mem_sortedIssues.mp hmem
  have hget' := mem_sortedIssues.mp hmem'
  rw [hkey, h, hget'] at hget
  exact (Option.some.inj hget).symm

/-- Issues with keys of their own can be found in any order among others. -/
theorem sortedIssues_perm {before unused unused' after : List EspHomeSourceInputIssue}
    (h : unused.Perm unused') (hkeys : (unused.map issueKey).Nodup) :
    sortedIssues (before ++ unused ++ after) = sortedIssues (before ++ unused' ++ after) := by
  refine sortedIssues_congr fun key => ?_
  have hmap : ((unused.map fun issue => (issueKey issue, issue)).reverse.map Prod.fst).Nodup := by
    rw [List.map_reverse, List.nodup_reverse, List.map_map]
    exact hkeys
  have hperm := ((List.reverse_perm _).trans (h.map fun issue => (issueKey issue, issue))).trans
    (List.reverse_perm _).symm
  rw [get_uniqueIssues, get_uniqueIssues]
  simp only [List.map_append, List.reverse_append, Record.get_append]
  rw [Record.get_perm hmap hperm]

end T3x.Esphome
