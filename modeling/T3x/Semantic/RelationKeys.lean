import T3x.Semantic.Diff
import T3x.Semantic.Execute

/-!
# The identity of relations

Two relations are one when they lead from one path to one path and have one
type. Diffs and merges compare a text of the three parts joined by bars instead,
which is right as long as no relations of different parts share their text.
-/

namespace T3x.Semantic

open Js

/-- The parts by which relations are told apart. -/
def Relation.triple (r : Relation) : JsString × JsString × JsString :=
  (r.fromPath, r.toPath, r.type)

/-- The identities of some relations. -/
def triples (relations : List Relation) : List (JsString × JsString × JsString) :=
  relations.map Relation.triple

/-- The keys of some relations. -/
def relKeys (relations : List Relation) : List JsString := relations.map relKey

/-- Relations of one identity have one key. -/
theorem relKey_of_triple {r r' : Relation} (h : r.triple = r'.triple) : relKey r = relKey r' := by
  simp only [Relation.triple, Prod.mk.injEq] at h
  simp only [relKey, h.1, h.2.1, h.2.2]

/-- The key of a relation is among the keys when its identity is. -/
theorem relKey_mem_of_triple {r : Relation} {relations : List Relation}
    (h : r.triple ∈ triples relations) : relKey r ∈ relKeys relations := by
  obtain ⟨r', hr', heq⟩ := List.mem_map.mp h
  exact List.mem_map.mpr ⟨r', hr', relKey_of_triple heq⟩

/-- A relation is told from others: it shares its key with one only if it is there. -/
def KeyTells (r : Relation) (others : List Relation) : Prop :=
  relKey r ∈ relKeys others → r.triple ∈ triples others

/-- A relation that is told from others is among them exactly when its key is. -/
theorem KeyTells.iff {r : Relation} {others : List Relation} (h : KeyTells r others) :
    relKey r ∈ relKeys others ↔ r.triple ∈ triples others :=
  ⟨h, relKey_mem_of_triple⟩

variable {W : Type} {wordDiffFn : Option (JsString → JsString → W)}
  {base source target : SemanticContent}

/-- The relations that a diff lists as added. -/
theorem mem_relationsAdded {r : Relation} :
    r ∈ (diffCommits wordDiffFn source target).relationsAdded ↔
      r ∈ target.relations ∧ relKey r ∉ relKeys source.relations := by
  simp [diffCommits, relKeys]

/-- The relations that a diff lists as removed. -/
theorem mem_relationsRemoved {r : Relation} :
    r ∈ (diffCommits wordDiffFn source target).relationsRemoved ↔
      r ∈ source.relations ∧ relKey r ∉ relKeys target.relations := by
  simp [diffCommits, relKeys]

/-- What a merge returns has the relations that the decisions keep. -/
theorem relations_of_executeMerge {prepared : MergeResult} {decisions : MergeDecision}
    {merged : SemanticContent}
    (h : executeMerge base source target prepared decisions = .ok merged) :
    merged.relations = mergedRelations prepared decisions := by
  unfold executeMerge at h
  split at h
  · cases h
  · obtain rfl := Except.ok.inj h
    rfl

/-- The relations of a merge that keeps them all. -/
theorem mem_mergedRelations {decisions : MergeDecision}
    (hsource : decisions.keepRelationsFromSource = true)
    (htarget : decisions.keepRelationsFromTarget = true) {r : Relation} :
    r ∈ mergedRelations (prepareMerge base source target) decisions ↔
      (r ∈ source.relations ∧
        (relKey r ∈ relKeys target.relations ∨ relKey r ∉ relKeys base.relations)) ∨
      (r ∈ target.relations ∧ relKey r ∉ relKeys source.relations ∧
        relKey r ∉ relKeys base.relations) := by
  simp only [mergedRelations, prepareMerge, hsource, htarget, if_true, List.mem_append,
    List.mem_filter, List.contains_iff_mem, Bool.and_eq_true, Bool.not_eq_true',
    ← Bool.not_eq_true, relKeys]
  tauto

/-- Diffs and merges compare relations by their identities. -/
structure ComparesByIdentity (wordDiffFn : Option (JsString → JsString → W))
    (base source target : SemanticContent) : Prop where
  /-- A diff lists as added the relations of the target that the source does not have. -/
  added : ∀ r, r ∈ (diffCommits wordDiffFn source target).relationsAdded ↔
    r ∈ target.relations ∧ r.triple ∉ triples source.relations
  /-- A diff lists as removed the relations of the source that the target does not have. -/
  removed : ∀ r, r ∈ (diffCommits wordDiffFn source target).relationsRemoved ↔
    r ∈ source.relations ∧ r.triple ∉ triples target.relations
  /-- A merge that keeps all relations has those of both sides and those that a side added
  to the base. -/
  merged : ∀ decisions : MergeDecision, decisions.keepRelationsFromSource = true →
    decisions.keepRelationsFromTarget = true → ∀ merged,
    executeMerge base source target (prepareMerge base source target) decisions = .ok merged →
    ∀ t, t ∈ triples merged.relations ↔
      (t ∈ triples source.relations ∧ t ∈ triples target.relations) ∨
      ((t ∈ triples source.relations ∨ t ∈ triples target.relations) ∧
        t ∉ triples base.relations)

/-- The keys of three contents tell the relations apart: those of a side from those of
the other side, and those that one side alone has from those of the base. -/
structure KeysTell (base source target : SemanticContent) : Prop where
  /-- A relation of the source is told from those of the target. -/
  source_target : ∀ r ∈ source.relations, KeyTells r target.relations
  /-- A relation of the target is told from those of the source. -/
  target_source : ∀ r ∈ target.relations, KeyTells r source.relations
  /-- A relation that only the source has is told from those of the base. -/
  source_base : ∀ r ∈ source.relations, r.triple ∉ triples target.relations →
    KeyTells r base.relations
  /-- A relation that only the target has is told from those of the base. -/
  target_base : ∀ r ∈ target.relations, r.triple ∉ triples source.relations →
    KeyTells r base.relations

/-- A merge that resolves no conflict by an edit and keeps all relations. -/
def keepRelations : MergeDecision where
  conflictResolutions := []
  keepFromSource := []
  keepFromTarget := []
  keepRelationsFromSource := true
  keepRelationsFromTarget := true

/-- A merge that keeps all relations returns. -/
theorem exists_executeMerge_keepRelations (base source target : SemanticContent) :
    ∃ merged, executeMerge base source target (prepareMerge base source target) keepRelations =
      .ok merged := by
  refine ⟨_, executeMerge_of_editFree fun c _ tree => ?_⟩
  by_cases hpath : c.path ∈ inheritedNames <;>
    simp [MergeDecision.resolution, keepRelations, Record.get, hpath]

/-- The identities of the relations of a merge that keeps them all. -/
theorem mem_triples_merged {decisions : MergeDecision}
    (hsource : decisions.keepRelationsFromSource = true)
    (htarget : decisions.keepRelationsFromTarget = true) {merged : SemanticContent}
    (h : executeMerge base source target (prepareMerge base source target) decisions =
      .ok merged) {t : JsString × JsString × JsString} :
    t ∈ triples merged.relations ↔
      (∃ r ∈ source.relations, r.triple = t ∧
        (relKey r ∈ relKeys target.relations ∨ relKey r ∉ relKeys base.relations)) ∨
      ∃ r ∈ target.relations, r.triple = t ∧ relKey r ∉ relKeys source.relations ∧
        relKey r ∉ relKeys base.relations := by
  rw [triples, List.mem_map, relations_of_executeMerge h]
  constructor
  · rintro ⟨r, hr, rfl⟩
    rcases (mem_mergedRelations hsource htarget).mp hr with ⟨hmem, hkeys⟩ | ⟨hmem, hkeys⟩
    · exact .inl ⟨r, hmem, rfl, hkeys⟩
    · exact .inr ⟨r, hmem, rfl, hkeys⟩
  · rintro (⟨r, hmem, rfl, hkeys⟩ | ⟨r, hmem, rfl, hkeys⟩)
    · exact ⟨r, (mem_mergedRelations hsource htarget).mpr (.inl ⟨hmem, hkeys⟩), rfl⟩
    · exact ⟨r, (mem_mergedRelations hsource htarget).mpr (.inr ⟨hmem, hkeys⟩), rfl⟩

/-- A merge that keeps all relations has the right ones when the keys tell them apart. -/
theorem merged_of_keysTell (h : KeysTell base source target) {decisions : MergeDecision}
    (hsource : decisions.keepRelationsFromSource = true)
    (htarget : decisions.keepRelationsFromTarget = true) {merged : SemanticContent}
    (hmerge : executeMerge base source target (prepareMerge base source target) decisions =
      .ok merged) (t : JsString × JsString × JsString) :
    t ∈ triples merged.relations ↔
      (t ∈ triples source.relations ∧ t ∈ triples target.relations) ∨
      ((t ∈ triples source.relations ∨ t ∈ triples target.relations) ∧
        t ∉ triples base.relations) := by
  rw [mem_triples_merged hsource htarget hmerge]
  constructor
  · rintro (⟨r, hr, rfl, hkeys⟩ | ⟨r, hr, rfl, -, hbase⟩)
    · have hmem : r.triple ∈ triples source.relations := List.mem_map_of_mem hr
      rcases hkeys with hkey | hkey
      · exact .inl ⟨hmem, h.source_target r hr hkey⟩
      · exact .inr ⟨.inl hmem, fun hbase => hkey (relKey_mem_of_triple hbase)⟩
    · exact .inr ⟨.inr (List.mem_map_of_mem hr), fun hmem => hbase (relKey_mem_of_triple hmem)⟩
  · -- a relation that both sides have is taken from the source
    have hboth : ∀ t, t ∈ triples source.relations → t ∈ triples target.relations →
        ∃ r ∈ source.relations, r.triple = t ∧ relKey r ∈ relKeys target.relations := by
      rintro t hs ht
      obtain ⟨r, hr, rfl⟩ := List.mem_map.mp hs
      exact ⟨r, hr, rfl, relKey_mem_of_triple ht⟩
    rintro (⟨hs, ht⟩ | ⟨hs | ht, hbase⟩)
    · obtain ⟨r, hr, heq, hkey⟩ := hboth t hs ht
      exact .inl ⟨r, hr, heq, .inl hkey⟩
    · obtain ⟨r, hr, rfl⟩ := List.mem_map.mp hs
      refine .inl ⟨r, hr, rfl, ?_⟩
      by_cases ht : r.triple ∈ triples target.relations
      · exact .inl (relKey_mem_of_triple ht)
      · exact .inr fun hkey => hbase (h.source_base r hr ht hkey)
    · by_cases hs : t ∈ triples source.relations
      · obtain ⟨r, hr, heq, hkey⟩ := hboth t hs ht
        exact .inl ⟨r, hr, heq, .inl hkey⟩
      · obtain ⟨r, hr, rfl⟩ := List.mem_map.mp ht
        exact .inr ⟨r, hr, rfl, fun hkey => hs (h.target_source r hr hkey),
          fun hkey => hbase (h.target_base r hr hs hkey)⟩

/-- Diffs and merges compare relations by their identities exactly when the keys tell the
relations apart. -/
theorem comparesByIdentity_iff :
    ComparesByIdentity wordDiffFn base source target ↔ KeysTell base source target := by
  constructor
  · intro h
    have hst : ∀ r ∈ source.relations, KeyTells r target.relations := by
      intro r hr hkey
      by_contra hnot
      exact (mem_relationsRemoved.mp ((h.removed r).mpr ⟨hr, hnot⟩)).2 hkey
    have hts : ∀ r ∈ target.relations, KeyTells r source.relations := by
      intro r hr hkey
      by_contra hnot
      exact (mem_relationsAdded.mp ((h.added r).mpr ⟨hr, hnot⟩)).2 hkey
    obtain ⟨merged, hmerge⟩ := exists_executeMerge_keepRelations base source target
    refine ⟨hst, hts, fun r hr honly hkey => ?_, fun r hr honly hkey => ?_⟩
    · by_contra hbase
      have hmem := (h.merged _ rfl rfl merged hmerge r.triple).mpr
        (.inr ⟨.inl (List.mem_map_of_mem hr), hbase⟩)
      rcases (mem_triples_merged rfl rfl hmerge).mp hmem with
        ⟨r', hr', heq, hkeys⟩ | ⟨r', hr', heq, -⟩
      · rw [relKey_of_triple heq] at hkeys
        rcases hkeys with hkey' | hkey'
        · exact honly (hst r hr hkey')
        · exact hkey' hkey
      · exact honly (heq ▸ List.mem_map_of_mem hr')
    · by_contra hbase
      have hmem := (h.merged _ rfl rfl merged hmerge r.triple).mpr
        (.inr ⟨.inr (List.mem_map_of_mem hr), hbase⟩)
      rcases (mem_triples_merged rfl rfl hmerge).mp hmem with
        ⟨r', hr', heq, -⟩ | ⟨r', hr', heq, -, hkey'⟩
      · exact honly (heq ▸ List.mem_map_of_mem hr')
      · exact hkey' (relKey_of_triple heq ▸ hkey)
  · intro h
    refine ⟨fun r => ?_, fun r => ?_, fun _ hs ht _ hmerge => merged_of_keysTell h hs ht hmerge⟩
    · rw [mem_relationsAdded]
      exact and_congr_right fun hr => not_congr (KeyTells.iff (h.target_source r hr))
    · rw [mem_relationsRemoved]
      exact and_congr_right fun hr => not_congr (KeyTells.iff (h.source_target r hr))

/-- A content without topics and with one relation. -/
def relationContent (fromPath toPath type : JsString) : SemanticContent :=
  ⟨[], [⟨fromPath, toPath, type, none, none⟩]⟩

/-- Relations of different parts with one key: a diff takes them for one relation. -/
theorem diffCommits_bar_not_by_identity :
    ¬ ComparesByIdentity (none : Option (JsString → JsString → JsString)) ⟨[], []⟩
      (relationContent (js "a") (js "b|c") (js "d"))
      (relationContent (js "a|b") (js "c") (js "d")) := by
  intro h
  have hmem := (h.added ⟨js "a|b", js "c", js "d", none, none⟩).mpr
    ⟨List.mem_singleton.mpr rfl, by decide⟩
  exact absurd hmem (by
    rw [mem_relationsAdded]
    decide)

end T3x.Semantic
