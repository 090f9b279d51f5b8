import T3x.Sources.Repair

/-!
# Repairs invent no evidence

Every repaired quote is a part of its turn. It is also no empty one, except
that the search of a keyword may answer with a position behind the end of the
turn. A quote that is a part of its turn is left as it is, so a second repair
finds nothing to do.
-/

namespace T3x.Sources

open Js

/-! ## Evidence -/

/-- A text that can stand as evidence in a content: a part of it that is not empty. -/
def IsEvidence (content quote : JsString) : Prop := quote ≠ [] ∧ quote <:+: content

/-- A candidate that is tried as it is yields evidence. -/
theorem isEvidence_of_tryExactQuote {content candidate quote : JsString}
    (h : tryExactQuote content candidate = some quote) : IsEvidence content quote := by
  obtain ⟨⟨hne, hpart⟩, hquote⟩ := Option.ite_none_right_eq_some.mp h
  cases hquote
  exact ⟨hne, of_decide_eq_true hpart⟩

/-- Candidates yield evidence. -/
theorem isEvidence_of_candidateQuote {content quote repaired : JsString}
    (h : candidateQuote content quote = some repaired) : IsEvidence content repaired := by
  rcases Option.or_eq_some_iff.mp h with hdirect | ⟨-, hprojected⟩
  · obtain ⟨candidate, -, hexact⟩ := List.exists_of_findSome?_eq_some hdirect
    exact isEvidence_of_tryExactQuote hexact
  · obtain ⟨candidate, -, hspan⟩ := List.exists_of_findSome?_eq_some hprojected
    exact (isSpanOf_of_repair (Option.filter_eq_some_iff.mp hspan).1).isInfix

/-- A value yields evidence. -/
theorem isEvidence_of_valueQuote {content repaired : JsString} {value : JsValue}
    (h : valueQuote content value = some repaired) : IsEvidence content repaired := by
  cases value with
  | str s =>
    obtain ⟨⟨hlength, hpart⟩, hs⟩ := Option.ite_none_right_eq_some.mp h
    cases hs
    exact ⟨List.ne_nil_of_length_pos (by omega), of_decide_eq_true hpart⟩
  | _ => cases h

/-- What an operation writes yields evidence. -/
theorem isEvidence_of_scalarQuote {content repaired : JsString} {op : JsValue}
    (h : scalarQuote op content = some repaired) : IsEvidence content repaired := by
  rcases Option.or_eq_some_iff.mp h with hset | ⟨-, hpopulate⟩
  · exact isEvidence_of_valueQuote hset
  · obtain ⟨scalar, -, hvalue⟩ := Option.bind_eq_some_iff.mp hpopulate
    exact isEvidence_of_valueQuote hvalue

section

variable (toLowerCase : JsString → JsString) (turns : List ValidationTurn)

/-- Nothing but the keyword of the definition answers for an operation without a quote, and
the keyword is found behind the end of the content. -/
def FoundPastEnd (op : SourcedYOp) : Prop :=
  ∃ content keyword idx, op.content turns = some content ∧ op.quote = none ∧
    scalarQuote op.op content = none ∧ defineKeyword op.op = some keyword ∧
    keywordIndex toLowerCase content keyword = some idx ∧ content.length ≤ idx

/-- A quote of a kind that is a part of its turn is left as it is, with the whole operation. -/
def Keeps (Kind : JsString → Prop) (before after : SourcedYOp) : Prop :=
  ∀ content quote, before.content turns = some content → before.quote = some quote →
    Kind quote → quote <:+: content → after = before

/-- An operation that changes has another quote and nothing else: a part of its turn that is
not empty, where the keyword is not found past the end. -/
def Evidences (before after : SourcedYOp) : Prop :=
  after ≠ before → ∃ content quote, before.content turns = some content ∧
    after = before.withQuote quote ∧ quote <:+: content ∧
    (¬FoundPastEnd toLowerCase turns before → quote ≠ [])

variable {toLowerCase turns}

/-- What a quote is repaired to is evidence, unless the keyword is found past the end. -/
theorem repairedQuote_spec {op : JsValue} {content repaired : JsString} {quote : Option JsString}
    (h : repairedQuote toLowerCase op content quote = some repaired) :
    IsEvidence content repaired ∨
      (quote.filter (fun quote => decide (quote ≠ [])) = none ∧ scalarQuote op content = none ∧
        ∃ keyword idx, defineKeyword op = some keyword ∧
          keywordIndex toLowerCase content keyword = some idx ∧ content.length ≤ idx ∧
          repaired = []) := by
  unfold repairedQuote at h
  split at h
  · rw [Option.ite_none_left_eq_some] at h
    rcases Option.or_eq_some_iff.mp h.2 with hcandidate | ⟨-, hscalar⟩
    · exact .inl (isEvidence_of_candidateQuote hcandidate)
    · exact .inl (isEvidence_of_scalarQuote hscalar)
  · rename_i hquote
    rcases Option.or_eq_some_iff.mp h with hscalar | ⟨hscalar, hkeyword⟩
    · exact .inl (isEvidence_of_scalarQuote hscalar)
    · obtain ⟨keyword, hdefine, hkeyword⟩ := Option.bind_eq_some_iff.mp hkeyword
      obtain ⟨idx, hidx, hslice⟩ := Option.bind_eq_some_iff.mp hkeyword
      cases hslice
      have hlong : 3 ≤ keyword.length := (Option.ite_none_right_eq_some.mp hidx).1
      by_cases hin : idx < content.length
      · exact .inl ⟨slice_ne_nil (by omega) hin, slice_isInfix _ _ _⟩
      · refine .inr ⟨hquote, hscalar, keyword, idx, hdefine, hidx, by omega, ?_⟩
        exact List.drop_eq_nil_of_le (by rw [List.length_take]; omega)

/-! ## Putting a quote -/

/-- A quote that is put leaves the turn of an operation. -/
theorem content_withQuote (quote : JsString) (op : SourcedYOp) :
    (op.withQuote quote).content turns = op.content turns := by
  obtain ⟨_, _ | ⟨_, _ | _⟩⟩ := op <;> rfl

/-- An operation whose turn is known has the quote that is put. -/
theorem quote_withQuote {op : SourcedYOp} {content : JsString} (quote : JsString)
    (h : op.content turns = some content) : (op.withQuote quote).quote = some quote := by
  obtain ⟨_, _ | ⟨type, _ | _⟩⟩ := op
  · cases h
  · unfold SourcedYOp.content at h
    simp only [Option.bind_eq_bind, Option.bind_some, Option.bind_none, ite_self,
      reduceCtorEq] at h
  · rfl

/-- Putting the quote that an operation has changes nothing. -/
theorem withQuote_eq_self {op : SourcedYOp} {quote : JsString} (h : op.quote = some quote) :
    op.withQuote quote = op := by
  obtain ⟨_, _ | ⟨_, _ | ⟨_, _⟩⟩⟩ := op
  · rfl
  · rfl
  · cases h
    rfl

/-- The last quote that is put counts. -/
theorem withQuote_withQuote (first second : JsString) (op : SourcedYOp) :
    (op.withQuote first).withQuote second = op.withQuote second := by
  obtain ⟨_, _ | ⟨_, _ | _⟩⟩ := op <;> rfl

/-! ## One operation -/

/-- A repair leaves an operation or puts a repaired quote. -/
theorem repairOp_cases (toLowerCase : JsString → JsString) (turns : List ValidationTurn)
    (op : SourcedYOp) :
    repairOp toLowerCase turns op = op ∨ ∃ content quote, op.content turns = some content ∧
      repairedQuote toLowerCase op.op content op.quote = some quote ∧
      repairOp toLowerCase turns op = op.withQuote quote := by
  unfold repairOp
  split
  · rename_i quote hquote
    obtain ⟨content, hcontent, hrepaired⟩ := Option.bind_eq_some_iff.mp hquote
    exact .inr ⟨content, quote, hcontent, hrepaired, rfl⟩
  · exact .inl rfl

/-- An operation whose repaired quote is known has it put. -/
theorem repairOp_of_some {op : SourcedYOp} {content quote : JsString}
    (hcontent : op.content turns = some content)
    (hquote : repairedQuote toLowerCase op.op content op.quote = some quote) :
    repairOp toLowerCase turns op = op.withQuote quote := by
  unfold repairOp
  rw [hcontent, Option.bind_some, hquote]

/-- No quote replaces one that is a part of its turn and not empty. -/
theorem repairedQuote_of_isEvidence {op : JsValue} {content quote : JsString}
    (h : IsEvidence content quote) :
    repairedQuote toLowerCase op content (some quote) = none := by
  have hkept : (some quote).filter (fun quote => decide (quote ≠ [])) = some quote :=
    Option.filter_eq_some_iff.mpr ⟨rfl, decide_eq_true h.1⟩
  unfold repairedQuote
  rw [hkept]
  exact if_pos (decide_eq_true h.2)

/-- An operation with evidence for a quote is left as it is. -/
theorem repairOp_of_isEvidence {op : SourcedYOp} {content quote : JsString}
    (hcontent : op.content turns = some content) (hquote : op.quote = some quote)
    (h : IsEvidence content quote) : repairOp toLowerCase turns op = op := by
  unfold repairOp
  rw [hcontent, Option.bind_some, hquote, repairedQuote_of_isEvidence h]

/-- A repair keeps what is evidence already. -/
theorem keeps_repairOp (op : SourcedYOp) :
    Keeps turns (· ≠ []) op (repairOp toLowerCase turns op) :=
  fun _ _ hcontent hquote hne hpart => repairOp_of_isEvidence hcontent hquote ⟨hne, hpart⟩

/-- A repair that changes an operation puts evidence. -/
theorem evidences_repairOp (op : SourcedYOp) :
    Evidences toLowerCase turns op (repairOp toLowerCase turns op) := by
  intro hchanged
  rcases repairOp_cases toLowerCase turns op with hsame | ⟨content, quote, hcontent, hquote, hop⟩
  · exact absurd hsame hchanged
  · refine ⟨content, quote, hcontent, hop, ?_⟩
    rcases repairedQuote_spec hquote with hevidence | ⟨hempty, hscalar, keyword, idx, hdefine,
      hidx, hpast, hnil⟩
    · exact ⟨hevidence.2, fun _ => hevidence.1⟩
    · refine ⟨hnil ▸ List.nil_infix, fun hnot => ?_⟩
      cases hgiven : op.quote with
      | none =>
        exact absurd ⟨content, keyword, idx, hcontent, hgiven, hscalar, hdefine, hidx, hpast⟩ hnot
      | some given =>
        -- An empty quote is repaired to itself then.
        rw [hgiven] at hempty
        have hgivenNil : given = [] := by
          by_contra hne
          rw [Option.filter_some, decide_eq_true hne] at hempty
          cases hempty
        rw [hnil, ← hgivenNil, withQuote_eq_self hgiven] at hop
        exact absurd hop hchanged

/-- A second repair of an operation changes nothing. -/
theorem repairOp_repairOp (toLowerCase : JsString → JsString) (turns : List ValidationTurn)
    (op : SourcedYOp) :
    repairOp toLowerCase turns (repairOp toLowerCase turns op) = repairOp toLowerCase turns op := by
  rcases repairOp_cases toLowerCase turns op with hsame | ⟨content, quote, hcontent, hquote, hop⟩
  · rw [hsame, hsame]
  · have hcontent' := (content_withQuote quote op).trans hcontent
    have hquote' := quote_withQuote quote hcontent
    rw [hop]
    rcases repairedQuote_spec hquote with hevidence | ⟨hempty, -, -, -, -, -, -, hnil⟩
    · exact repairOp_of_isEvidence hcontent' hquote' hevidence
    · have hagain : repairedQuote toLowerCase (op.withQuote quote).op content
          (op.withQuote quote).quote = some quote := by
        rw [hquote', hnil]
        rw [hnil] at hquote
        unfold repairedQuote at hquote ⊢
        rw [hempty] at hquote
        exact hquote
      rw [repairOp_of_some hcontent' hagain, withQuote_withQuote]

end

/-! ## All operations -/

/-- Quotes that are evidence stay, quotes that change become evidence, a second repair changes
nothing, and a repair through the projection answers with the span that projects to the quote. -/
theorem repairOpQuotes_invents_nothing (toLowerCase : JsString → JsString)
    (turns : List ValidationTurn) (ops : List SourcedYOp) :
    List.Forall₂ (fun before after =>
        Keeps turns (· ≠ []) before after ∧ Evidences toLowerCase turns before after)
      ops (repairOpQuotes toLowerCase ops turns) ∧
    repairOpQuotes toLowerCase (repairOpQuotes toLowerCase ops turns) turns =
      repairOpQuotes toLowerCase ops turns ∧
    ∀ raw, IndexMap raw (projectMarkdownToRaw raw) ∧
      ∀ quote span, repairFromMarkdownProjection raw quote = some span →
        IsSpanOf raw quote span := by
  refine ⟨?_, ?_, fun raw => ⟨indexMap_projectMarkdownToRaw raw, fun _ _ => isSpanOf_of_repair⟩⟩
  · refine List.forall₂_map_right_iff.mpr (List.forall₂_same.mpr fun op _ => ?_)
    exact ⟨keeps_repairOp op, evidences_repairOp op⟩
  · unfold repairOpQuotes
    rw [List.map_map]
    exact List.map_congr_left fun op _ => repairOp_repairOp toLowerCase turns op

/-- An operation that sets `hello`, with an empty quote. -/
def emptyQuoteOp : SourcedYOp where
  op := .obj [(js "set", .obj [(js "path", .str (js "a")), (js "value", .str (js "hello"))])]
  source := some
    { type := some (js "llm"), turnRef := some { turnHash := some (js "h"), quote := some [] } }

/-- A turn that the value of the operation is a part of. -/
def helloTurn : ValidationTurn where
  turnHash := js "h"
  content := js "hello world"

/-- An empty quote is a part of every turn, and it is replaced by the value that is set. -/
theorem not_keeps_emptyQuote :
    ¬List.Forall₂ (Keeps [helloTurn] fun _ => True) [emptyQuoteOp]
      (repairOpQuotes (fun s => s) [emptyQuoteOp] [helloTurn]) := by
  intro h
  have hkept := (List.forall₂_cons.mp h).1 (js "hello world") [] (by decide) (by decide) trivial
    List.nil_infix
  have hquote : (repairOp (fun s => s) [helloTurn] emptyQuoteOp).quote = some (js "hello") := by
    decide
  rw [hkept] at hquote
  exact absurd hquote (by decide)

end T3x.Sources
