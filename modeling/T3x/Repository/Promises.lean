import T3x.Repository.Evolution

/-!
# The calls keep their promises

What a call writes is consistent with what it read before, however the other sessions
act between: what it read is only added to, or is spared because the call holds the
lock of the project. One lemma for each write says what the step does, and one for each
call that its steps are such writes.
-/

namespace T3x.Repository

open Js T3x.Transition T3x.Storage Interleave

variable {sha256 : List UInt8 → JsString} {entries : JsString → InsertYOpsLogInput}
  {session : ℕ} {projectId refName : JsString} {s t u : Store} {α β : Type}

/-! ## Rules -/

/-- A query keeps the promise that the rest keeps from where it reads. -/
theorem promises_query {read : Store → β} {rest : β → Call α} (hs : Consistent sha256 entries s)
    (h : ∀ t, Relies sha256 entries session s t → Consistent sha256 entries t →
      Promises sha256 entries session (rest (read t)) t) :
    Promises sha256 entries session (Prog.query read >>= rest) s :=
  meets_query fun t ht => ⟨.refl (ht hs).1, h t ht (ht hs).1⟩

/-- The form of the result does not matter to the promise. -/
theorem Promises.mapResult {p : Call α} {f : α → β} (h : Promises sha256 entries session p s) :
    Promises sha256 entries session (p.mapResult f) s := by
  unfold Promises
  exact Meets.mapResult h

/-- A call that is undone releases its locks. -/
theorem promises_abort {error : StorageError} (hs : Consistent sha256 entries s) :
    Promises sha256 entries session (abort session error : Call α) s := fun _ ht _ _ =>
  ⟨(Does.refl (ht hs).1).release, fun _ _ => trivial⟩

/-- A statement that succeeds keeps the promise that the rest keeps. -/
theorem promises_statement {read : Store → Except StorageError β} {rest : β → Call α}
    (hs : Consistent sha256 entries s)
    (h : ∀ t b, Relies sha256 entries session s t → Consistent sha256 entries t →
      read t = .ok b → Promises sha256 entries session (rest b) t) :
    Promises sha256 entries session (statement session read >>= rest) s := by
  intro t ht _ _
  refine ⟨.refl (ht hs).1, ?_⟩
  dsimp only
  cases hread : read t with
  | ok b => exact h t b ht (ht hs).1 hread
  | error e => exact promises_abort (ht hs).1

/-- A transaction whose write is one step of the session keeps its promise. -/
theorem promises_commit {write : Store → Except StorageError (α × Store)}
    (hs : Consistent sha256 entries s)
    (h : ∀ t a u, Relies sha256 entries session s t → Consistent sha256 entries t →
      write t = .ok (a, u) → Does sha256 entries session t u) :
    Promises sha256 entries session (commit session write) s := by
  intro t ht _ _
  refine ⟨?_, fun _ _ => trivial⟩
  dsimp only
  cases hwrite : write t with
  | ok result => exact (h t result.1 result.2 ht (ht hs).1 hwrite).release
  | error e => exact (Does.refl (ht hs).1).release

/-- A session that takes a free lock spares the others. -/
theorem does_acquire (hs : Consistent sha256 entries s) (hfree : ∀ lock ∈ s.locks,
    lock.1 = projectId → lock.2 = session) : Does sha256 entries session s
      { s with locks := s.locks ++ [(projectId, session)] } where
  consistent := {
    graph := hs.graph.keeps (.besides s _ _ _) rfl rfl rfl
    decisions := hs.decisions.of_eq rfl rfl
    log := hs.log.keeps (.besides s _ _ _) rfl rfl
    locks := by
      intro lock hlock other hother hsame
      rcases List.mem_append.mp hlock with hlock | hlock <;>
        rcases List.mem_append.mp hother with hother | hother
      · exact hs.locks lock hlock other hother hsame
      · obtain rfl := List.mem_singleton.mp hother
        exact hfree lock hlock hsame
      · obtain rfl := List.mem_singleton.mp hlock
        exact (hfree other hother hsame.symm).symm
      · rw [List.mem_singleton.mp hlock, List.mem_singleton.mp hother] }
  keeps := .besides s _ _ _
  refs := refsFollow_of_eq rfl rfl
  log := logFollows_of_eq hs.log.ids rfl
  spares _ _ _ hheld :=
    ⟨List.mem_append_left _ hheld, fun _ hrow _ => hrow, fun _ hrow _ => hrow⟩

/-- The rest of a call goes on with the lock. -/
theorem promises_acquire {rest : Unit → Call α} (hs : Consistent sha256 entries s)
    (h : ∀ t u, Relies sha256 entries session s t → Keeps t u →
      Consistent sha256 entries u → (projectId, session) ∈ u.locks →
      Promises sha256 entries session (rest ()) u) :
    Promises sha256 entries session (acquireProjectSupersedeLock session projectId >>= rest) s := by
  intro t ht hready _
  have hfree : ∀ lock ∈ t.locks, lock.1 = projectId → lock.2 = session := by
    simpa only [List.all_eq_true, Bool.or_eq_true, decide_eq_true_eq, ne_eq,
      ← imp_iff_not_or] using hready
  have hdoes := does_acquire (ht hs).1 hfree
  exact ⟨hdoes, h t _ ht hdoes.keeps hdoes.consistent
    (List.mem_append_right _ (List.mem_singleton_self _))⟩

/-! ## Writes to the log -/

/-- A sound log that follows the one before, and keeps the rows of projects that other sessions
hold, is a step. -/
theorem does_log {log : List YOpsLogRow} (hs : Consistent sha256 entries s)
    (hsound : LogSound entries { s with yopsLog := log })
    (hfollows : LogFollows s { s with yopsLog := log })
    (hspares : ∀ row ∈ s.yopsLog, ∀ holder, holder ≠ session →
      (row.projectId, holder) ∈ s.locks → row ∈ log) :
    Does sha256 entries session s { s with yopsLog := log } where
  consistent := {
    graph := hs.graph.keeps (.besides s _ _ _) rfl rfl rfl
    decisions := hs.decisions.of_eq rfl rfl
    log := hsound
    locks := hs.locks }
  keeps := .besides s _ _ _
  refs := refsFollow_of_eq rfl rfl
  log := hfollows
  spares _ holder hne hheld :=
    ⟨hheld, fun row hrow hproject => hspares row hrow holder hne (hproject ▸ hheld),
      fun _ hrow _ => hrow⟩

/-- An entry is inserted whose identifier is free and that belongs to its conversation. -/
theorem does_insert {row : YOpsLogRow} (hs : Consistent sha256 entries s)
    (hfree : ∀ old ∈ s.yopsLog, old.id ≠ row.id) (hcontent : row.toInsertYOpsLogInput = entries row.id)
    (hproject : conversationProject s row.conversationId = some row.projectId) :
    Does sha256 entries session s { s with yopsLog := s.yopsLog ++ [row] } := by
  refine does_log hs ⟨hs.log.ids.append hfree, ?_, ?_, hs.log.once, hs.log.commits, ?_⟩ ?_ ?_
  · exact List.forall_mem_append.mpr ⟨hs.log.content, List.forall_mem_singleton.mpr hcontent⟩
  · exact List.forall_mem_append.mpr ⟨hs.log.projects, List.forall_mem_singleton.mpr hproject⟩
  · intro consumption hconsumption
    obtain ⟨old, hold, hsame⟩ := hs.log.consumed consumption hconsumption
    exact ⟨old, List.mem_append_left _ hold, hsame⟩
  · intro old hold row' hrow' hid
    rcases List.mem_append.mp hrow' with hrow' | hrow'
    · exact .inl (hs.log.ids.eq hrow' hold hid)
    · rw [List.mem_singleton.mp hrow'] at hid
      exact absurd hid.symm (hfree old hold)
  · exact fun old hold _ _ _ => List.mem_append_left _ hold

/-- An entry of a held project that no commit consumed is deleted. -/
theorem does_delete {id : JsString} (hs : Consistent sha256 entries s)
    (hheld : (projectId, session) ∈ s.locks)
    (hproject : ∀ row ∈ s.yopsLog, row.id = id → row.projectId = projectId)
    (hfree : ∀ row ∈ s.consumptions, row.projectId = projectId → row.yopsLogId ≠ id) :
    Does sha256 entries session s { s with
      yopsLog := s.yopsLog.filter fun row => decide (row.id ≠ id) } := by
  have hsub : ∀ row ∈ s.yopsLog.filter fun row => decide (row.id ≠ id), row ∈ s.yopsLog :=
    fun row hrow => (List.mem_filter.mp hrow).1
  have hstays : ∀ row ∈ s.yopsLog, row.id ≠ id →
      row ∈ s.yopsLog.filter fun row => decide (row.id ≠ id) := fun row hrow hne =>
    List.mem_filter.mpr ⟨hrow, decide_eq_true hne⟩
  refine does_log hs ⟨hs.log.ids.sublist (List.filter_sublist.map _), ?_, ?_, hs.log.once,
    hs.log.commits, ?_⟩ ?_ ?_
  · exact fun row hrow => hs.log.content row (hsub row hrow)
  · exact fun row hrow => hs.log.projects row (hsub row hrow)
  · intro consumption hconsumption
    obtain ⟨row, hrow, hid, hsame, hactive⟩ := hs.log.consumed consumption hconsumption
    refine ⟨row, hstays row hrow fun heq => ?_, hid, hsame, hactive⟩
    exact hfree consumption hconsumption (hsame ▸ hproject row hrow heq) (hid ▸ heq)
  · exact fun row hrow row' hrow' hid => .inl (hs.log.ids.eq (hsub row' hrow') hrow hid)
  · intro row hrow holder hne hother
    refine hstays row hrow fun heq => hne ?_
    exact hs.locks _ hother _ hheld (hproject row hrow heq)

/-- Active entries of a held project that no commit consumed are superseded. -/
theorem does_supersede {now : ℤ} {ids : List JsString} (hs : Consistent sha256 entries s)
    (hheld : (projectId, session) ∈ s.locks)
    (hactive : ∀ row ∈ s.yopsLog, row.id ∈ ids →
      row.projectId = projectId ∧ row.supersededAt = none)
    (hfree : ∀ row ∈ s.consumptions, row.projectId = projectId → row.yopsLogId ∉ ids) :
    Does sha256 entries session s (supersede now ids s) := by
  have hwrite : ∀ row ∈ (supersede now ids s).yopsLog, ∃ old ∈ s.yopsLog,
      (row = old ∨ old.id ∈ ids ∧ row = { old with supersededAt := some now }) ∧
        row.id = old.id ∧ row.toInsertYOpsLogInput = old.toInsertYOpsLogInput := by
    intro row hrow
    obtain ⟨old, hold, rfl⟩ := Table.mem_update.mp hrow
    refine ⟨old, hold, ?_⟩
    split_ifs with hcond
    · exact ⟨.inr ⟨of_decide_eq_true hcond, rfl⟩, rfl, rfl⟩
    · exact ⟨.inl rfl, rfl, rfl⟩
  have hstays : ∀ row ∈ s.yopsLog, row.id ∉ ids → row ∈ (supersede now ids s).yopsLog :=
    fun row hrow hid => Table.mem_update_of_not hrow (decide_eq_false hid)
  refine does_log hs ⟨hs.log.ids.update fun _ _ => rfl, ?_, ?_, hs.log.once, hs.log.commits, ?_⟩
    ?_ ?_
  · intro row hrow
    obtain ⟨old, hold, -, hid, hcontent⟩ := hwrite row hrow
    rw [hcontent, hid]
    exact hs.log.content old hold
  · intro row hrow
    obtain ⟨old, hold, -, -, hcontent⟩ := hwrite row hrow
    rw [hcontent]
    exact hs.log.projects old hold
  · intro consumption hconsumption
    obtain ⟨row, hrow, hid, hsame, hnone⟩ := hs.log.consumed consumption hconsumption
    refine ⟨row, hstays row hrow fun hmem => ?_, hid, hsame, hnone⟩
    exact hfree consumption hconsumption (hsame ▸ (hactive row hrow hmem).1) (hid ▸ hmem)
  · intro row hrow row' hrow' hid
    obtain ⟨old, hold, hsame, hidOld, -⟩ := hwrite row' hrow'
    obtain rfl := hs.log.ids.eq hold hrow (hidOld.symm.trans hid)
    rcases hsame with rfl | ⟨hmem, rfl⟩
    · exact .inl rfl
    · exact .inr ⟨(hactive old hold hmem).2, now, rfl⟩
  · intro row hrow holder hne hother
    refine hstays row hrow fun hmem => hne ?_
    exact hs.locks _ hother _ hheld (hactive row hrow hmem).1

/-! ## Calls on the log -/

/-- An identifier belongs to one project for ever. -/
theorem projectId_eq_of_id {row row' : YOpsLogRow} (hs : LogSound entries s) (ht : LogSound entries t)
    (hrow : row ∈ s.yopsLog) (hrow' : row' ∈ t.yopsLog) (hid : row'.id = row.id) :
    row'.projectId = row.projectId := by
  rw [ht.content row' hrow', hs.content row hrow, hid]

/-- An entry that is found has the identifier. -/
theorem mem_of_getYOpsLogEntry {id : JsString} {row : YOpsLogRow}
    (h : getYOpsLogEntry s id = some row) : row ∈ s.yopsLog ∧ row.id = id :=
  ⟨List.mem_of_find?_eq_some h, by simpa using List.find?_some h⟩

/-- An entry is free when no commit of the project consumed it. -/
theorem isConsumed_eq_false_iff {id : JsString} : isConsumed s projectId id = false ↔
    ∀ row ∈ s.consumptions, row.projectId = projectId → row.yopsLogId ≠ id := by
  simp [isConsumed]

/-- An entry that is free under the lock stays free. -/
theorem isConsumed_eq_false_of_relies {id : JsString} (hs : Consistent sha256 entries s)
    (hheld : (projectId, session) ∈ s.locks) (hrely : Relies sha256 entries session s t)
    (h : isConsumed s projectId id = false) : isConsumed t projectId id = false := by
  rw [isConsumed_eq_false_iff] at h ⊢
  exact fun row hrow hproject =>
    h row (((hrely hs).2.2 projectId hheld).consumptions row hrow hproject) hproject

/-- Entries that were active and free under the lock are superseded. -/
theorem does_supersede_of_relies {now : ℤ} {ids : List JsString} (hs : Consistent sha256 entries s)
    (hheld : (projectId, session) ∈ s.locks) (hrely : Relies sha256 entries session s t)
    (hids : ∀ id ∈ ids, isConsumed s projectId id = false ∧ ∃ row ∈ s.yopsLog,
      row.id = id ∧ row.projectId = projectId ∧ row.supersededAt = none) :
    Does sha256 entries session t (supersede now ids t) := by
  obtain ⟨ht, -, hspares⟩ := hrely hs
  have hspared := hspares projectId hheld
  refine does_supersede ht hspared.held ?_ ?_
  · intro row hrow hid
    obtain ⟨-, old, hold, hsame, hproject, hactive⟩ := hids row.id hid
    obtain rfl := ht.log.ids.eq (hspared.rows old hold hproject) hrow hsame
    exact ⟨hproject, hactive⟩
  · intro row hrow hproject hid
    have hfree := isConsumed_eq_false_of_relies hs hheld hrely (hids _ hid).1
    exact isConsumed_eq_false_iff.mp hfree row hrow hproject rfl

/-- The insertion of an entry keeps its promise. -/
theorem promises_insertYOpsLogEntry {id : JsString} {input : InsertYOpsLogInput}
    (hs : Consistent sha256 entries s) (hentry : entries id = input)
    (hfits : ∀ project, conversationProject s input.conversationId = some project →
      project = input.projectId) :
    Promises sha256 entries session (insertYOpsLogEntry session id input) s := by
  refine promises_commit hs fun t row u hrely ht hwrite => ?_
  dsimp only at hwrite
  split_ifs at hwrite with hnone hkey
  obtain ⟨rfl, rfl⟩ := Prod.mk.inj (Except.ok.inj hwrite)
  refine does_insert ht ?_ hentry.symm ?_
  · simpa [Table.hasKey] using hkey
  · rw [Bool.not_eq_true, Option.isNone_eq_false_iff, Option.isSome_iff_exists] at hnone
    obtain ⟨project, hproject⟩ := hnone
    rw [conversationProject, (hrely hs).2.1.conversations] at hproject
    rw [conversationProject, (hrely hs).2.1.conversations, ← hfits project hproject]
    exact hproject

/-- The deletion of an entry keeps its promise. -/
theorem promises_deleteYOpsLogEntry {id : JsString} (hs : Consistent sha256 entries s) :
    Promises sha256 entries session (deleteYOpsLogEntry session id) s := by
  refine promises_query hs fun t _ ht => ?_
  cases hentry : getYOpsLogEntry t id with
  | none => exact fun _ _ => trivial
  | some entry =>
    obtain ⟨hmem, hid⟩ := mem_of_getYOpsLogEntry hentry
    refine promises_acquire ht fun u v _ _ hv hheld => promises_query hv fun w hw hwc => ?_
    have hheld' := ((hw hv).2.2 _ hheld).held
    split_ifs with hconsumed
    · exact promises_commit hwc fun x a y _ hx hwrite => by
        obtain ⟨rfl, rfl⟩ := Prod.mk.inj (Except.ok.inj hwrite)
        exact .refl hx
    · refine promises_query hwc fun x hwx hx => promises_commit hx fun y a z hxy hy hwrite => ?_
      obtain ⟨rfl, rfl⟩ := Prod.mk.inj (Except.ok.inj hwrite)
      have hfree := isConsumed_eq_false_of_relies hwc hheld' (hwx.trans hxy)
        (Bool.eq_false_of_not_eq_true hconsumed)
      have hheldEnd := (((hwx.trans hxy) hwc).2.2 _ hheld').held
      refine does_delete hy hheldEnd (fun row hrow hsame => ?_)
        (isConsumed_eq_false_iff.mp hfree)
      exact projectId_eq_of_id ht.log hy.log hmem hrow (hsame.trans hid.symm)

/-- The archival of an entry keeps its promise. -/
theorem promises_archiveYOpsLogEntryForUndo {now : ℤ} {id : JsString}
    (hs : Consistent sha256 entries s) :
    Promises sha256 entries session (archiveYOpsLogEntryForUndo session now id) s := by
  refine promises_query hs fun t _ ht => ?_
  cases hentry : getYOpsLogEntry t id with
  | none => exact fun _ _ => trivial
  | some entry =>
    obtain ⟨hmem, hid⟩ := mem_of_getYOpsLogEntry hentry
    refine promises_acquire ht fun u v _ _ hv hheld => promises_query hv fun w hw hwc => ?_
    have hheld' := ((hw hv).2.2 _ hheld).held
    have hnoop : ∀ (found : Option YOpsLogRow), Promises sha256 entries session
        (commit session fun s => .ok (found, s)) w := fun found =>
      promises_commit hwc fun x a y _ hx hwrite => by
        obtain ⟨rfl, rfl⟩ := Prod.mk.inj (Except.ok.inj hwrite)
        exact .refl hx
    split_ifs with hconsumed hsuperseded
    · exact hnoop none
    · exact hnoop (some entry)
    · refine promises_query hwc fun x hwx hx => promises_commit hx fun y a z hxy hy hwrite => ?_
      obtain ⟨rfl, rfl⟩ := Prod.mk.inj (Except.ok.inj hwrite)
      have hheldNow := ((hwx hwc).2.2 _ hheld').held
      refine does_supersede_of_relies hx hheldNow hxy fun id' hid' => ?_
      obtain ⟨row, hrow, rfl⟩ := List.mem_map.mp hid'
      obtain ⟨hrow, hcond⟩ := List.mem_filter.mp hrow
      simp only [Bool.and_eq_true, decide_eq_true_eq, Option.isNone_iff_eq_none] at hcond
      have hfree := isConsumed_eq_false_of_relies hwc hheld' hwx
        (Bool.eq_false_of_not_eq_true hconsumed)
      exact ⟨hcond.1 ▸ hfree, row, hrow, rfl,
        projectId_eq_of_id ht.log hx.log hmem hrow (hcond.1.trans hid.symm), hcond.2⟩

/-- Entries of a conversation that are selected among the active and free ones are superseded. -/
theorem promises_supersedeSelected {now : ℤ} {conversationId : JsString}
    {selected : Store → YOpsLogRow → Bool} (hs : Consistent sha256 entries s)
    (hproject : conversationProject s conversationId = some projectId)
    (hselected : ∀ t row, selected t row = true →
      isActiveUncommitted t projectId conversationId row = true) :
    Promises sha256 entries session (supersedeSelected session now projectId selected) s := by
  refine promises_acquire hs fun t u ht hkeeps hu hheld => promises_query hu fun v hv hvc =>
    promises_commit hvc fun w a x hvw hw hwrite => ?_
  obtain ⟨rfl, rfl⟩ := Prod.mk.inj (Except.ok.inj hwrite)
  have hconversations : v.conversations = s.conversations :=
    ((hv hu).2.1.conversations.trans hkeeps.conversations).trans (ht hs).2.1.conversations
  refine does_supersede_of_relies hvc ((hv hu).2.2 _ hheld).held hvw fun id hid => ?_
  obtain ⟨row, hrow, rfl⟩ := List.mem_map.mp hid
  obtain ⟨hrow, hcond⟩ := List.mem_filter.mp hrow
  have hactive := hselected v row hcond
  simp only [isActiveUncommitted, Bool.and_eq_true, decide_eq_true_eq, Option.isNone_iff_eq_none,
    Bool.not_eq_true'] at hactive
  obtain ⟨⟨hconversation, hactive⟩, hfree⟩ := hactive
  have hsame := hvc.log.projects row hrow
  rw [hconversation, conversationProject, hconversations] at hsame
  exact ⟨hfree, row, hrow, rfl, Option.some.inj (hsame.symm.trans hproject), hactive⟩

/-- The replacement of the suggestions of the model keeps its promise. -/
theorem promises_supersedeActiveLLMSuggestions {now : ℤ} {conversationId : JsString}
    (hs : Consistent sha256 entries s) : Promises sha256 entries session
      (supersedeActiveLLMSuggestions session now conversationId) s := by
  refine promises_query hs fun t _ ht => ?_
  cases hproject : conversationProject t conversationId with
  | none => exact fun _ _ => trivial
  | some project =>
    exact promises_supersedeSelected ht hproject fun u row h => (Bool.and_eq_true_iff.mp h).1

/-- The replacement of the active entries keeps its promise. -/
theorem promises_supersedeActiveUncommittedYOpsLogEntries {now : ℤ} {conversationId : JsString}
    (hs : Consistent sha256 entries s) : Promises sha256 entries session
      (supersedeActiveUncommittedYOpsLogEntries session now conversationId) s := by
  refine promises_query hs fun t _ ht => ?_
  cases hproject : conversationProject t conversationId with
  | none => exact fun _ _ => trivial
  | some project => exact promises_supersedeSelected ht hproject fun _ _ h => h

/-- The repair of a log keeps its promise. -/
theorem promises_supersedeYOpsLogEntryForRepair {now : ℤ} {conversationId yopsLogId : JsString}
    (hs : Consistent sha256 entries s) : Promises sha256 entries session
      (supersedeYOpsLogEntryForRepair session now conversationId yopsLogId) s := by
  refine promises_query hs fun t _ ht => ?_
  cases htarget : t.yopsLog.find? fun row =>
      decide (row.id = yopsLogId) && decide (row.conversationId = conversationId) with
  | none => exact fun _ _ => trivial
  | some target =>
    have hfound := List.find?_some htarget
    simp only [Bool.and_eq_true, decide_eq_true_eq] at hfound
    have hproject := ht.log.projects target (List.mem_of_find?_eq_some htarget)
    rw [hfound.2] at hproject
    exact promises_supersedeSelected ht hproject fun u row h => (Bool.and_eq_true_iff.mp h).1

end T3x.Repository
