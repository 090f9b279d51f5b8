import T3x.Sources.Quotes

/-!
# The index map of the projection

The positions of a projection increase and lie in the raw text, and each is the
position of its character there. A text that is found in the projection
therefore comes out of one slice of the raw text, markers at its ends included.
-/

namespace T3x.Sources

open Js

/-- The entries of a character hold of the raw text: its position is one of the text, an
opening marker begins no later and a closing marker ends later, still in the text. -/
structure ProjectedChar.Places (raw : JsString) (c : ProjectedChar) : Prop where
  /-- The character stands at its position. -/
  char : raw[c.rawIndex]? = some c.char
  /-- The opening marker begins no later. -/
  openMarker : ∀ start ∈ c.openMarker, start ≤ c.rawIndex
  /-- The closing marker ends later, and in the text. -/
  closeMarkerEnd : ∀ stop ∈ c.closeMarkerEnd, c.rawIndex < stop ∧ stop ≤ raw.length

/-- The position of a character is one of the raw text. -/
theorem ProjectedChar.Places.rawIndex_lt {raw : JsString} {c : ProjectedChar}
    (h : c.Places raw) : c.rawIndex < raw.length :=
  (List.getElem?_eq_some_iff.mp h.char).1

/-- A position within a text holds the unit that is read there. -/
theorem getElem?_eq_getD {raw : JsString} {k : ℕ} (hk : k < raw.length) :
    raw[k]? = some (raw.getD k 0) := by
  rw [List.getD_eq_getElem?_getD, List.getElem?_eq_getElem hk, Option.getD_some]

/-- A character between the markers of a pair has its place. -/
theorem innerChar_places {raw marker : JsString} {i closeIdx spanId k : ℕ}
    (hk : k < closeIdx) (hclose : closeIdx + marker.length ≤ raw.length) :
    (innerChar raw marker i closeIdx spanId k).Places raw where
  char := getElem?_eq_getD (show k < raw.length by omega)
  openMarker start hstart := by
    simp only [innerChar, Option.mem_def, Option.ite_none_right_eq_some, Option.some.injEq] at hstart
    simp only [innerChar]
    omega
  closeMarkerEnd stop hstop := by
    simp only [innerChar, Option.mem_def, Option.ite_none_right_eq_some, Option.some.injEq] at hstop
    simp only [innerChar]
    omega

/-- A character outside any pair has its place. -/
theorem plainChar_places {raw : JsString} {i : ℕ} (hi : i < raw.length) :
    (plainChar raw i).Places raw where
  char := getElem?_eq_getD hi
  openMarker _ h := nomatch h
  closeMarkerEnd _ h := nomatch h

/-! ## The scan -/

/-- A scan goes on behind a pair that it meets. -/
theorem projectFrom_of_pair {raw marker : JsString} {i closeIdx : ℕ} (spanId : ℕ)
    (h : matchedPair raw i = some (marker, closeIdx)) :
    projectFrom raw i spanId =
      (List.range' (i + marker.length) (closeIdx - (i + marker.length))).map
          (innerChar raw marker i closeIdx spanId) ++
        projectFrom raw (closeIdx + marker.length) (spanId + 1) := by
  have hspec := matchedPair_spec h
  rw [projectFrom, if_pos (by omega)]
  split
  · rename_i hpair
    rw [h] at hpair
    cases hpair
    rfl
  · rename_i hnone
    rw [h] at hnone
    cases hnone

/-- A scan takes a character that opens no pair as it is. -/
theorem projectFrom_of_none {raw : JsString} {i : ℕ} (spanId : ℕ) (hi : i < raw.length)
    (h : matchedPair raw i = none) :
    projectFrom raw i spanId = plainChar raw i :: projectFrom raw (i + 1) spanId := by
  rw [projectFrom, if_pos hi]
  split
  · rename_i hpair
    rw [h] at hpair
    cases hpair
  · rfl

/-- Every character that a scan yields comes no earlier than its start and has its place. -/
theorem projectFrom_places (raw : JsString) (i spanId : ℕ) :
    ∀ c ∈ projectFrom raw i spanId, i ≤ c.rawIndex ∧ c.Places raw := by
  induction i, spanId using projectFrom.induct raw with
  | case1 i spanId _ marker closeIdx hpair ih =>
    have hspec := matchedPair_spec hpair
    rw [projectFrom_of_pair spanId hpair]
    intro c hc
    rcases List.mem_append.mp hc with hinner | hlater
    · obtain ⟨k, hk, rfl⟩ := List.mem_map.mp hinner
      rw [List.mem_range'_1] at hk
      exact ⟨show i ≤ k by omega, innerChar_places (by omega) hspec.2⟩
    · obtain ⟨hle, hplaces⟩ := ih c hlater
      exact ⟨by omega, hplaces⟩
  | case2 i spanId hi hnone ih =>
    rw [projectFrom_of_none spanId hi hnone]
    intro c hc
    rcases List.mem_cons.mp hc with rfl | hlater
    · exact ⟨le_rfl, plainChar_places hi⟩
    · obtain ⟨hle, hplaces⟩ := ih c hlater
      exact ⟨by omega, hplaces⟩
  | case3 i spanId hi =>
    rw [projectFrom, if_neg hi]
    intro c hc
    cases hc

/-- The positions of a scan increase. -/
theorem projectFrom_increasing (raw : JsString) (i spanId : ℕ) :
    (projectFrom raw i spanId).Pairwise fun c d => c.rawIndex < d.rawIndex := by
  induction i, spanId using projectFrom.induct raw with
  | case1 i spanId _ marker closeIdx hpair ih =>
    have hspec := matchedPair_spec hpair
    rw [projectFrom_of_pair spanId hpair, List.pairwise_append]
    refine ⟨List.pairwise_map.mpr List.pairwise_lt_range', ih, ?_⟩
    intro c hc d hd
    obtain ⟨k, hk, rfl⟩ := List.mem_map.mp hc
    have hlater := (projectFrom_places raw _ _ d hd).1
    rw [List.mem_range'_1] at hk
    exact show k < d.rawIndex by omega
  | case2 i spanId hi hnone ih =>
    rw [projectFrom_of_none spanId hi hnone]
    refine List.pairwise_cons.mpr ⟨fun d hd => ?_, ih⟩
    exact (projectFrom_places raw _ _ d hd).1
  | case3 i spanId hi =>
    rw [projectFrom, if_neg hi]
    exact List.Pairwise.nil

/-- The index map of a projection: its positions increase, and each is the position of its
character in the raw text. -/
structure IndexMap (raw : JsString) (projection : List ProjectedChar) : Prop where
  /-- The positions increase. -/
  increasing : (projection.map (·.rawIndex)).Pairwise (· < ·)
  /-- The positions lie in the raw text. -/
  inRange : ∀ c ∈ projection, c.rawIndex < raw.length
  /-- Each character stands at its position. -/
  exact : ∀ c ∈ projection, raw[c.rawIndex]? = some c.char

/-- The projection of a text carries an index map into it. -/
theorem indexMap_projectMarkdownToRaw (raw : JsString) :
    IndexMap raw (projectMarkdownToRaw raw) where
  increasing := List.pairwise_map.mpr (projectFrom_increasing raw 0 0)
  inRange c hc := (projectFrom_places raw 0 0 c hc).2.rawIndex_lt
  exact c hc := (projectFrom_places raw 0 0 c hc).2.char

/-! ## The repaired span -/

/-- The characters of a projection that come out of a span of the raw text. -/
def within (start stop : ℕ) (projection : List ProjectedChar) : JsString :=
  stripped (projection.filter fun c => decide (start ≤ c.rawIndex ∧ c.rawIndex < stop))

/-- A text is a span of the raw text, with something in it, whose projection contains a
quote. -/
def IsSpanOf (raw quote span : JsString) : Prop :=
  ∃ start stop, start < stop ∧ stop ≤ raw.length ∧ span = slice raw start stop ∧
    quote <:+: within start stop (projectMarkdownToRaw raw)

/-- Positions that increase are ordered as their entries stand. -/
theorem rawIndex_le {projection : List ProjectedChar} {j k : ℕ} {c d : ProjectedChar}
    (hincreasing : projection.Pairwise fun c d => c.rawIndex < d.rawIndex)
    (hc : projection[j]? = some c) (hd : projection[k]? = some d) (hjk : j ≤ k) :
    c.rawIndex ≤ d.rawIndex := by
  obtain ⟨hj, rfl⟩ := List.getElem?_eq_some_iff.mp hc
  obtain ⟨hk, rfl⟩ := List.getElem?_eq_some_iff.mp hd
  rcases Nat.eq_or_lt_of_le hjk with rfl | hlt
  · exact le_rfl
  · exact (List.pairwise_iff_getElem.mp hincreasing j k hj hk hlt).le

/-- What stands between two entries of a projection comes out of every span around their
positions. -/
theorem isInfix_within {projection : List ProjectedChar} {hit length start stop : ℕ}
    {first last : ProjectedChar}
    (hincreasing : projection.Pairwise fun c d => c.rawIndex < d.rawIndex)
    (hfirst : projection[hit]? = some first)
    (hlast : projection[hit + length - 1]? = some last)
    (hstart : start ≤ first.rawIndex) (hstop : last.rawIndex < stop) :
    stripped ((projection.drop hit).take length) <:+: within start stop projection := by
  have hinside : ∀ c ∈ (projection.drop hit).take length,
      start ≤ c.rawIndex ∧ c.rawIndex < stop := by
    intro c hc
    obtain ⟨k, hk, hget⟩ := List.getElem_of_mem hc
    rw [List.length_take] at hk
    rw [List.getElem_take, List.getElem_drop] at hget
    have hat : projection[hit + k]? = some c := List.getElem?_eq_some_iff.mpr ⟨_, hget⟩
    have hge := rawIndex_le hincreasing hfirst hat (by omega)
    have hle := rawIndex_le hincreasing hat hlast (by omega)
    omega
  have hkept := List.filter_eq_self.mpr fun c hc => decide_eq_true (hinside c hc)
  have hparts : projection = projection.take hit ++
      ((projection.drop hit).take length ++ (projection.drop hit).drop length) := by
    rw [List.take_append_drop, List.take_append_drop]
  unfold within stripped
  conv_rhs => rw [hparts, List.filter_append, List.filter_append, hkept]
  rw [List.map_append, List.map_append]
  exact ⟨_, _, List.append_assoc _ _ _⟩

/-- A quote that is found in a projection is what stands at the hit. -/
theorem stripped_take_drop {projection : List ProjectedChar} {quote : JsString} {hit : ℕ}
    (h : indexOf (stripped projection) quote 0 = some hit) :
    stripped ((projection.drop hit).take quote.length) = quote := by
  obtain ⟨-, hprefix⟩ := isPrefix_of_indexOf h
  have htake := List.prefix_iff_eq_take.mp hprefix
  unfold stripped at htake ⊢
  rw [List.map_take, List.map_drop]
  exact htake.symm

/-- The span of a match stands around its ends, within the raw text. -/
theorem rawSpan_spec {raw : JsString} {first last : ProjectedChar} (hfirst : first.Places raw)
    (hlast : last.Places raw) :
    (rawSpan first last).1 ≤ first.rawIndex ∧ last.rawIndex < (rawSpan first last).2 ∧
      (rawSpan first last).2 ≤ raw.length := by
  have hin := hlast.rawIndex_lt
  unfold rawSpan
  split
  · refine ⟨?_, ?_⟩
    · cases hopen : first.openMarker with
      | none => exact le_rfl
      | some start => exact hfirst.openMarker start hopen
    · cases hclose : last.closeMarkerEnd with
      | none => exact ⟨Nat.lt_succ_self _, hin⟩
      | some stop => exact hlast.closeMarkerEnd stop hclose
  · exact ⟨le_rfl, Nat.lt_succ_self _, hin⟩

/-- What the projection repairs a quote to is a span of the raw text whose projection contains
the quote. -/
theorem isSpanOf_of_repair {raw quote span : JsString}
    (h : repairFromMarkdownProjection raw quote = some span) : IsSpanOf raw quote span := by
  unfold repairFromMarkdownProjection at h
  split at h
  · cases h
  · rename_i hquote
    rw [not_or] at hquote
    obtain ⟨hit, hhit, h⟩ := Option.bind_eq_some_iff.mp h
    obtain ⟨first, hfirst, h⟩ := Option.bind_eq_some_iff.mp h
    obtain ⟨last, hlast, h⟩ := Option.bind_eq_some_iff.mp h
    rw [Option.ite_none_right_eq_some, Option.some.injEq] at h
    obtain ⟨-, rfl⟩ := h
    have hincreasing : (projectMarkdownToRaw raw).Pairwise fun c d => c.rawIndex < d.rawIndex :=
      projectFrom_increasing raw 0 0
    have hpos := List.length_pos_iff.mpr hquote.1
    have horder := rawIndex_le hincreasing hfirst hlast (by omega)
    obtain ⟨hstart, hstop, hin⟩ := rawSpan_spec
      (projectFrom_places raw 0 0 first (List.mem_of_getElem? hfirst)).2
      (projectFrom_places raw 0 0 last (List.mem_of_getElem? hlast)).2
    refine ⟨_, _, (hstart.trans horder).trans_lt hstop, hin, rfl, ?_⟩
    have hinfix := isInfix_within hincreasing hfirst hlast hstart hstop
    rwa [stripped_take_drop hhit] at hinfix

/-- A span holds something and is a part of the raw text. -/
theorem IsSpanOf.isInfix {raw quote span : JsString} (h : IsSpanOf raw quote span) :
    span ≠ [] ∧ span <:+: raw := by
  obtain ⟨start, stop, hlt, hstop, rfl, -⟩ := h
  exact ⟨slice_ne_nil hlt (hlt.trans_le hstop), slice_isInfix raw start stop⟩

end T3x.Sources
