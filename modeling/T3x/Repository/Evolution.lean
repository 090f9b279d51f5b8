import T3x.Repository.LogEntries
import T3x.Transition.Requests

/-!
# What the transactions keep

Objects, memberships, authorizations, consumptions and events are only added. A ref
moves along its events. Rows of the log that belong to a project change under the lock
of the project only: while a session holds it, the other sessions spare them. What a
session does within this is what the others rely on.
-/

namespace T3x.Repository

open Js T3x.Transition T3x.Storage Interleave

/-! ## Consistent stores -/

/-- The object with its descriptor is stored under its digest. -/
def Holds (sha256 : List UInt8 → JsString) (s : Store) (d : ObjectDescriptor) (object : JsValue) :
    Prop :=
  ∃ row, findObject s.objects d.digest = some row ∧
    Stored sha256 object d (encodeUtf8 row.canonicalJson)

/-- The descriptor of a commit with the digest. -/
def commitDescriptor (digest : JsString) : ObjectDescriptor := ⟨.commit, commitV2Schema, digest⟩

/-- The objects resolve by their digests, in whatever project. -/
def plainResolver (objects : List ObjectRow) : ObjectResolver := fun descriptor =>
  (findObject objects descriptor.digest).map fun row => encodeUtf8 row.canonicalJson

/-- A membership of a commit that was verified, after its parents. -/
structure Recorded (sha256 : List UInt8 → JsString) (s : Store) (before : List CommitRow)
    (row : CommitRow) (commit : JsValue) : Prop where
  /-- The media type is that of commits. -/
  mediaType : row.mediaType = commitV2MediaType
  /-- The commit is stored. -/
  holds : Holds sha256 s (commitDescriptor row.digest) commit
  /-- The parents are earlier members. -/
  parents : ∀ parent ∈ parentDigests commit,
    ∃ old ∈ before, old.projectId = row.projectId ∧ old.digest = parent
  /-- The objects verify the commit. -/
  verified : ∃ verified, verifyCommitIntegrity sha256 (plainResolver s.objects) commit = .ok verified

/-- An event is that of a member commit on the head before, with an authorized Decision. -/
structure Advanced (sha256 : List UInt8 → JsString) (s : Store) (event : BranchAdvancedEvent)
    (commit : JsValue) : Prop where
  /-- The head after is a member. -/
  member : isMember s event.projectId event.head = true
  /-- The commit is stored. -/
  holds : Holds sha256 s (commitDescriptor event.head) commit
  /-- Its first parent is the head before. -/
  previous : firstParent commit = event.previousHead
  /-- Its Decision is authorized for the ref. -/
  authorized : ∃ facts ∈ s.authorizations, facts.projectId = event.projectId ∧
    facts.refName = event.refName ∧ facts.decisionDigest = digestOf (part commit "decision")

/-- The commits, the refs that point to them and the events of the refs. -/
structure GraphSound (sha256 : List UInt8 → JsString) (s : Store) : Prop where
  /-- A ref has one row. -/
  branches : Table.Unique (fun row : BranchRow => (row.projectId, row.name)) s.branches
  /-- A head is a member of the project. -/
  heads : ∀ row ∈ s.branches, ∀ head, row.headCommitHash = some head →
    isMember s row.projectId head = true
  /-- A membership was verified after its parents. -/
  commits : ∀ before row after, s.commits = before ++ row :: after →
    ∃ commit, Recorded sha256 s before row commit
  /-- An event has a commit. -/
  events : ∀ event ∈ s.events, ∃ commit, Advanced sha256 s event commit

/-- The recorded Decisions. -/
structure DecisionsSound (s : Store) : Prop where
  /-- A Decision has one record. -/
  ledger : Table.Unique StoredDecisionFacts.decisionDigest s.ledger
  /-- What is authorized is recorded. -/
  authorizations : ∀ facts ∈ s.authorizations, facts ∈ s.ledger

/-- The log, where the identifier of an entry is that of its content. -/
structure LogSound (entries : JsString → InsertYOpsLogInput) (s : Store) : Prop where
  /-- An identifier names one row. -/
  ids : Table.Unique (fun row : YOpsLogRow => row.id) s.yopsLog
  /-- A row has the content that its identifier was made for. -/
  content : ∀ row ∈ s.yopsLog, row.toInsertYOpsLogInput = entries row.id
  /-- A row belongs to the project of its conversation. -/
  projects : ∀ row ∈ s.yopsLog, conversationProject s row.conversationId = some row.projectId
  /-- A row is consumed once. -/
  once : Table.Unique (fun row : ConsumptionRow => (row.projectId, row.yopsLogId)) s.consumptions
  /-- A consumption is that of a member commit. -/
  commits : ∀ row ∈ s.consumptions, isMember s row.projectId row.commitDigest = true
  /-- A consumed row is there, in its project, and not superseded. -/
  consumed : ∀ consumption ∈ s.consumptions, ∃ row ∈ s.yopsLog, row.id = consumption.yopsLogId ∧
    row.projectId = consumption.projectId ∧ row.supersededAt = none

/-- A store that the transactions keep. -/
structure Consistent (sha256 : List UInt8 → JsString) (entries : JsString → InsertYOpsLogInput)
    (s : Store) : Prop where
  /-- The commits and refs. -/
  graph : GraphSound sha256 s
  /-- The Decisions. -/
  decisions : DecisionsSound s
  /-- The log. -/
  log : LogSound entries s
  /-- A lock is held by one session. -/
  locks : ∀ lock ∈ s.locks, ∀ other ∈ s.locks, lock.1 = other.1 → lock.2 = other.2

/-! ## Steps -/

/-- What is only added. -/
structure Keeps (s t : Store) : Prop where
  /-- The objects. -/
  objects : s.objects <+: t.objects
  /-- The memberships. -/
  commits : s.commits <+: t.commits
  /-- The recorded Decisions. -/
  ledger : s.ledger <+: t.ledger
  /-- The authorizations. -/
  authorizations : s.authorizations <+: t.authorizations
  /-- The consumptions. -/
  consumptions : s.consumptions <+: t.consumptions
  /-- The events. -/
  events : s.events <+: t.events
  /-- The conversations stay as they are. -/
  conversations : t.conversations = s.conversations

/-- The events lead from one head to the other. -/
def Leads : Option JsString → List BranchAdvancedEvent → Option JsString → Prop
  | head, [], head' => head' = head
  | head, event :: events, head' => event.previousHead = head ∧ Leads (some event.head) events head'

/-- The events of a ref. -/
def eventsOf (projectId refName : JsString) (events : List BranchAdvancedEvent) :
    List BranchAdvancedEvent :=
  events.filter fun event => decide (event.projectId = projectId) &&
    decide (event.refName = refName)

/-- The events that were added. -/
def newEvents (s t : Store) : List BranchAdvancedEvent := t.events.drop s.events.length

/-- A ref that stays moves along its new events. -/
def RefsFollow (s t : Store) : Prop :=
  ∀ projectId refName head head', refHead s projectId refName = some head →
    refHead t projectId refName = some head' →
    Leads head (eventsOf projectId refName (newEvents s t)) head'

/-- A row of the log that stays is left as it is, or superseded for the first time. -/
def LogFollows (s t : Store) : Prop :=
  ∀ row ∈ s.yopsLog, ∀ row' ∈ t.yopsLog, row'.id = row.id → row' = row ∨
    row.supersededAt = none ∧ ∃ now, row' = { row with supersededAt := some now }

/-- What a session that holds the lock of the project sees of the steps of others. -/
structure Spares (projectId : JsString) (holder : ℕ) (s t : Store) : Prop where
  /-- The lock is held on. -/
  held : (projectId, holder) ∈ t.locks
  /-- The rows of the project stay. -/
  rows : ∀ row ∈ s.yopsLog, row.projectId = projectId → row ∈ t.yopsLog
  /-- No row of the project is consumed. -/
  consumptions : ∀ row ∈ t.consumptions, row.projectId = projectId → row ∈ s.consumptions

section

variable (sha256 : List UInt8 → JsString) (entries : JsString → InsertYOpsLogInput)

/-- What a session relies on. -/
def Relies (session : ℕ) (s t : Store) : Prop :=
  Consistent sha256 entries s → Consistent sha256 entries t ∧ Keeps s t ∧
    ∀ projectId, (projectId, session) ∈ s.locks → Spares projectId session s t

/-- What a session does in one step. -/
structure Does (session : ℕ) (s t : Store) : Prop where
  /-- The store stays consistent. -/
  consistent : Consistent sha256 entries t
  /-- What is only added. -/
  keeps : Keeps s t
  /-- The refs move along their events. -/
  refs : RefsFollow s t
  /-- The rows of the log are superseded once. -/
  log : LogFollows s t
  /-- The locks of others are respected. -/
  spares : ∀ projectId holder, holder ≠ session → (projectId, holder) ∈ s.locks →
    Spares projectId holder s t

/-- The call keeps its promise from the store on. -/
def Promises {α : Type} (session : ℕ) (p : Call α) (s : Store) : Prop :=
  Meets (fun _ _ => True) (Relies sha256 entries session) (Does sha256 entries session)
    (fun _ _ => True) p s

end

variable {sha256 : List UInt8 → JsString} {entries : JsString → InsertYOpsLogInput}
  {session holder : ℕ} {projectId : JsString} {s t u : Store}

/-! ## Relations -/

/-- A store keeps its own rows. -/
theorem Keeps.refl (s : Store) : Keeps s s :=
  ⟨List.prefix_rfl, List.prefix_rfl, List.prefix_rfl, List.prefix_rfl, List.prefix_rfl,
    List.prefix_rfl, rfl⟩

/-- A store keeps its rows under other branches, another log and other locks. -/
theorem Keeps.besides (s : Store) (branches : List BranchRow) (yopsLog : List YOpsLogRow)
    (locks : List (JsString × ℕ)) : Keeps s { s with
      branches := branches
      yopsLog := yopsLog
      locks := locks } :=
  ⟨List.prefix_rfl, List.prefix_rfl, List.prefix_rfl, List.prefix_rfl, List.prefix_rfl,
    List.prefix_rfl, rfl⟩

/-- What is kept twice is kept. -/
theorem Keeps.trans (h : Keeps s t) (h' : Keeps t u) : Keeps s u where
  objects := h.objects.trans h'.objects
  commits := h.commits.trans h'.commits
  ledger := h.ledger.trans h'.ledger
  authorizations := h.authorizations.trans h'.authorizations
  consumptions := h.consumptions.trans h'.consumptions
  events := h.events.trans h'.events
  conversations := h'.conversations.trans h.conversations

/-- What is spared twice is spared. -/
theorem Spares.trans (h : Spares projectId holder s t) (h' : Spares projectId holder t u) :
    Spares projectId holder s u where
  held := h'.held
  rows row hrow hproject := h'.rows row (h.rows row hrow hproject) hproject
  consumptions row hrow hproject := h.consumptions row (h'.consumptions row hrow hproject) hproject

/-- No step is relied on. -/
theorem Relies.refl (s : Store) : Relies sha256 entries session s s := fun hs =>
  ⟨hs, .refl s, fun _ hheld => ⟨hheld, fun _ h _ => h, fun _ h _ => h⟩⟩

/-- Steps that are relied on follow one another. -/
theorem Relies.trans (h : Relies sha256 entries session s t)
    (h' : Relies sha256 entries session t u) : Relies sha256 entries session s u := by
  intro hs
  obtain ⟨ht, hkeeps, hspares⟩ := h hs
  obtain ⟨hu, hkeeps', hspares'⟩ := h' ht
  exact ⟨hu, hkeeps.trans hkeeps', fun p hp =>
    (hspares p hp).trans (hspares' p (hspares p hp).held)⟩

/-- What one session does is what another relies on. -/
theorem Does.relies {other : ℕ} (hne : session ≠ other) (h : Does sha256 entries session s t) :
    Relies sha256 entries other s t := fun _ =>
  ⟨h.consistent, h.keeps, fun p hp => h.spares p other hne.symm hp⟩

/-- An object that is found is found among more. -/
theorem findObject_of_added {objects objects' : List ObjectRow} {digest : JsString}
    {row : ObjectRow} (hobjects : objects <+: objects') (h : findObject objects digest = some row) :
    findObject objects' digest = some row := by
  obtain ⟨added, rfl⟩ := hobjects
  rw [findObject] at h ⊢
  rw [List.find?_append, h]
  rfl

/-- A stored object stays. -/
theorem Holds.keeps {d : ObjectDescriptor} {object : JsValue} (h : Holds sha256 s d object)
    (hobjects : s.objects <+: t.objects) : Holds sha256 t d object :=
  h.imp fun _ hrow => ⟨findObject_of_added hobjects hrow.1, hrow.2⟩

/-- A member stays one. -/
theorem isMember_of_keeps {digest : JsString} (h : isMember s projectId digest = true)
    (hcommits : s.commits <+: t.commits) : isMember t projectId digest = true := by
  rw [isMember, List.any_eq_true] at h ⊢
  obtain ⟨row, hrow, hsame⟩ := h
  exact ⟨row, hcommits.subset hrow, hsame⟩

/-- A member has a row. -/
theorem isMember_eq_true_iff {digest : JsString} : isMember s projectId digest = true ↔
    ∃ row ∈ s.commits, row.projectId = projectId ∧ row.digest = digest := by
  simp [isMember]

/-- What resolves stays. -/
theorem plainResolver_of_added {objects objects' : List ObjectRow} {d : ObjectDescriptor}
    {bytes : List UInt8} (hobjects : objects <+: objects')
    (h : plainResolver objects d = some bytes) : plainResolver objects' d = some bytes := by
  obtain ⟨row, hfind, rfl⟩ := Option.map_eq_some_iff.mp h
  exact Option.map_eq_some_iff.mpr ⟨row, findObject_of_added hobjects hfind, rfl⟩

/-- A recorded membership stays recorded when objects are added. -/
theorem Recorded.keeps {before : List CommitRow} {row : CommitRow} {commit : JsValue}
    (h : Recorded sha256 s before row commit) (hobjects : s.objects <+: t.objects) :
    Recorded sha256 t before row commit where
  mediaType := h.mediaType
  holds := h.holds.keeps hobjects
  parents := h.parents
  verified := by
    obtain ⟨verified, hverified⟩ := h.verified
    exact ⟨verified, (verifyCommitIntegrity_of_requests hverified fun _ _ _ hresolve =>
      resolveProtocolObject_of_imp hresolve fun _ _ _ => plainResolver_of_added hobjects).1⟩

/-- An event stays that of its commit. -/
theorem Advanced.keeps {event : BranchAdvancedEvent} {commit : JsValue}
    (h : Advanced sha256 s event commit) (hkeeps : Keeps s t) : Advanced sha256 t event commit where
  member := isMember_of_keeps h.member hkeeps.commits
  holds := h.holds.keeps hkeeps.objects
  previous := h.previous
  authorized := by
    obtain ⟨facts, hfacts, hauthorized⟩ := h.authorized
    exact ⟨facts, hkeeps.authorizations.subset hfacts, hauthorized⟩

/-! ## What stays as it is -/

/-- Commits, refs and events that stay are sound while objects and authorizations are added. -/
theorem GraphSound.keeps (h : GraphSound sha256 s) (hkeeps : Keeps s t)
    (hcommits : t.commits = s.commits) (hbranches : t.branches = s.branches)
    (hevents : t.events = s.events) : GraphSound sha256 t where
  branches := hbranches ▸ h.branches
  heads row hrow head hhead := isMember_of_keeps (h.heads row (hbranches ▸ hrow) head hhead)
    hkeeps.commits
  commits before row after hsplit := by
    obtain ⟨commit, hcommit⟩ := h.commits before row after (hcommits ▸ hsplit)
    exact ⟨commit, hcommit.keeps hkeeps.objects⟩
  events event hevent := by
    obtain ⟨commit, hcommit⟩ := h.events event (hevents ▸ hevent)
    exact ⟨commit, hcommit.keeps hkeeps⟩

/-- Decisions that stay are sound. -/
theorem DecisionsSound.of_eq (h : DecisionsSound s) (hledger : t.ledger = s.ledger)
    (hauthorizations : t.authorizations = s.authorizations) : DecisionsSound t where
  ledger := hledger ▸ h.ledger
  authorizations facts hfacts := hledger ▸ h.authorizations facts (hauthorizations ▸ hfacts)

/-- A log that stays is sound while commits are added. -/
theorem LogSound.keeps (h : LogSound entries s) (hkeeps : Keeps s t)
    (hlog : t.yopsLog = s.yopsLog) (hconsumptions : t.consumptions = s.consumptions) :
    LogSound entries t where
  ids := hlog ▸ h.ids
  content row hrow := h.content row (hlog ▸ hrow)
  projects row hrow := by
    rw [conversationProject, hkeeps.conversations]
    exact h.projects row (hlog ▸ hrow)
  once := hconsumptions ▸ h.once
  commits row hrow := isMember_of_keeps (h.commits row (hconsumptions ▸ hrow)) hkeeps.commits
  consumed consumption hconsumption := hlog ▸ h.consumed consumption (hconsumptions ▸ hconsumption)

/-- No events are new where the events stay. -/
theorem newEvents_of_eq (h : t.events = s.events) : newEvents s t = [] := by
  rw [newEvents, h, List.drop_length]

/-- The events that are added are new. -/
theorem newEvents_of_append {added : List BranchAdvancedEvent} (h : t.events = s.events ++ added) :
    newEvents s t = added := by
  rw [newEvents, h, List.drop_left]

/-- Refs that stay move along no events. -/
theorem refsFollow_of_heads (hevents : t.events = s.events)
    (hheads : ∀ projectId refName head head', refHead s projectId refName = some head →
      refHead t projectId refName = some head' → head' = head) : RefsFollow s t := by
  intro projectId refName head head' hhead hhead'
  rw [newEvents_of_eq hevents]
  exact hheads projectId refName head head' hhead hhead'

/-- Branches and events that stay are refs that follow. -/
theorem refsFollow_of_eq (hevents : t.events = s.events) (hbranches : t.branches = s.branches) :
    RefsFollow s t := refsFollow_of_heads hevents fun projectId refName head head' hhead hhead' => by
  rw [refHead, findBranchByName, hbranches] at hhead'
  exact Option.some.inj (hhead'.symm.trans hhead)

/-- A log that stays follows itself. -/
theorem logFollows_of_eq (hids : Table.Unique (fun row : YOpsLogRow => row.id) s.yopsLog)
    (hlog : t.yopsLog = s.yopsLog) : LogFollows s t := fun _ hrow _ hrow' hid =>
  .inl (hids.eq (hlog ▸ hrow') hrow hid)

/-- Locks and a log that stay spare every project. -/
theorem spares_of_eq (hheld : (projectId, holder) ∈ s.locks) (hlocks : t.locks = s.locks)
    (hlog : t.yopsLog = s.yopsLog) (hconsumptions : t.consumptions = s.consumptions) :
    Spares projectId holder s t where
  held := hlocks ▸ hheld
  rows _ hrow _ := hlog ▸ hrow
  consumptions _ hrow _ := hconsumptions ▸ hrow

/-- No step does nothing. -/
theorem Does.refl (h : Consistent sha256 entries s) : Does sha256 entries session s s where
  consistent := h
  keeps := .refl s
  refs := refsFollow_of_eq rfl rfl
  log := logFollows_of_eq h.log.ids rfl
  spares _ _ _ hheld := spares_of_eq hheld rfl rfl rfl

/-- A step that ends a transaction releases its locks. -/
theorem Does.release (h : Does sha256 entries session s t) :
    Does sha256 entries session s (t.release session) where
  consistent := {
    graph := h.consistent.graph.keeps (.besides t _ _ _) rfl rfl rfl
    decisions := h.consistent.decisions.of_eq rfl rfl
    log := h.consistent.log.keeps (.besides t _ _ _) rfl rfl
    locks := fun lock hlock other hother => h.consistent.locks lock (List.mem_filter.mp hlock).1
      other (List.mem_filter.mp hother).1 }
  keeps := h.keeps.trans (.besides t _ _ _)
  refs := h.refs
  log := h.log
  spares p holder hne hheld :=
    have hspares := h.spares p holder hne hheld
    ⟨List.mem_filter.mpr ⟨hspares.held, decide_eq_true hne⟩, hspares.rows, hspares.consumptions⟩

/-! ## Refs -/

/-- The branch of a ref that is unique is found. -/
theorem refHead_eq_some_iff {refName : JsString} {head : Option JsString}
    (hunique : Table.Unique (fun row : BranchRow => (row.projectId, row.name)) s.branches) :
    refHead s projectId refName = some head ↔ ∃ row ∈ s.branches,
      row.projectId = projectId ∧ row.name = refName ∧ row.headCommitHash = head := by
  rw [refHead, findBranchByName, Option.map_eq_some_iff]
  constructor
  · rintro ⟨row, hfind, rfl⟩
    have hrow := List.find?_some hfind
    simp only [Bool.and_eq_true, decide_eq_true_eq] at hrow
    exact ⟨row, List.mem_of_find?_eq_some hfind, hrow.1, hrow.2, rfl⟩
  · rintro ⟨row, hrow, rfl, rfl, rfl⟩
    refine ⟨row, ?_, rfl⟩
    rw [← hunique.find?_eq hrow]
    congr 1
    funext other
    rw [← Bool.decide_and]
    simp only [Prod.mk.injEq]

end T3x.Repository
