import T3x.Js.Shape
import T3x.Storage.Turns
import T3x.Table
import T3x.Transition.RoundTrip
import Mathlib.Logic.Relation

/-!
# The chain of the turns

The turns of a conversation are meant to be one chain. They are while each turn,
when it is committed, still finds the turn it took as its parent to be the last,
and comes after it by its clock and hash. Nothing in a transaction sees to that:
two that read the same last turn fork the chain.
-/

namespace T3x.Storage

open Js Interleave Table

/-! ## Chains -/

/-- A turn goes on from the turns: its parent is the last of them, and it comes after it. -/
def Continues (turns : List Turn) (turn : Turn) : Prop :=
  turn.parentTurnHash = (turns.foldl laterTurn none).map Turn.turnHash ∧
    ∀ last, turns.foldl laterTurn none = some last → isLater turn last = true

/-- Turns each of which goes on from those before it. -/
inductive Chained : List Turn → Prop
  /-- No turns. -/
  | nil : Chained []
  /-- One more turn. -/
  | append {turns : List Turn} {turn : Turn} (h : Chained turns)
      (hcontinues : Continues turns turn) : Chained (turns ++ [turn])

variable {turns : List Turn} {turn last : Turn} {conversationId : JsString}

/-- The last turn of a chain is the one that was committed last. -/
theorem lastTurn_append (hcontinues : Continues turns turn) :
    (turns ++ [turn]).foldl laterTurn none = some turn := by
  rw [List.foldl_append, List.foldl_cons, List.foldl_nil]
  cases hlast : turns.foldl laterTurn none with
  | none => rfl
  | some last => rw [laterTurn, if_pos (hcontinues.2 last hlast)]

/-- A chain without a last turn is empty. -/
theorem Chained.eq_nil (h : Chained turns) (hlast : turns.foldl laterTurn none = none) :
    turns = [] := by
  cases h with
  | nil => rfl
  | append h hcontinues =>
    rw [lastTurn_append hcontinues] at hlast
    cases hlast

/-- A chain with a last turn ends with it. -/
theorem Chained.exists_append (h : Chained turns)
    (hlast : turns.foldl laterTurn none = some last) :
    ∃ before, turns = before ++ [last] ∧ Chained before ∧ Continues before last := by
  cases h with
  | nil => cases hlast
  | append h hcontinues =>
    rw [lastTurn_append hcontinues] at hlast
    obtain rfl := Option.some.inj hlast
    exact ⟨_, rfl, h, hcontinues⟩

/-- Only the first turn of a chain has no parent. -/
theorem Chained.root (h : Chained turns) (hne : turns ≠ []) :
    ∃ turn ∈ turns, turn.parentTurnHash = none ∧
      ∀ other ∈ turns, other.parentTurnHash = none → other = turn := by
  induction h with
  | nil => exact absurd rfl hne
  | @append turns turn h hcontinues ih =>
    by_cases hempty : turns = []
    · subst hempty
      refine ⟨turn, by simp, hcontinues.1, fun other hother _ => ?_⟩
      simpa using hother
    · obtain ⟨root, hroot, hnone, honly⟩ := ih hempty
      refine ⟨root, List.mem_append_left _ hroot, hnone, fun other hother hparent => ?_⟩
      rcases List.mem_append.mp hother with hother | hother
      · exact honly other hother hparent
      · rw [List.mem_singleton.mp hother, hcontinues.1] at hparent
        exact absurd (h.eq_nil (Option.map_eq_none_iff.mp hparent)) hempty

/-- The parent of a turn of a chain is a turn before it. -/
theorem Chained.exists_parent (h : Chained turns) {child : Turn} {parentHash : JsString}
    (hchild : child ∈ turns) (hparent : child.parentTurnHash = some parentHash) :
    ∃ parent ∈ turns, parent.turnHash = parentHash := by
  induction h with
  | nil => cases hchild
  | @append turns turn h hcontinues ih =>
    rcases List.mem_append.mp hchild with hchild | hchild
    · obtain ⟨parent, hmem, hhash⟩ := ih hchild
      exact ⟨parent, List.mem_append_left _ hmem, hhash⟩
    · rw [List.mem_singleton.mp hchild, hcontinues.1] at hparent
      obtain ⟨last, hlast, hhash⟩ := Option.map_eq_some_iff.mp hparent
      obtain ⟨before, rfl, -, -⟩ := h.exists_append hlast
      exact ⟨last, by simp, hhash⟩

/-- No turn of a chain has two children. -/
theorem Chained.child_unique (h : Chained turns) (hunique : Unique Turn.turnHash turns)
    {child other : Turn} {parentHash : JsString} (hchild : child ∈ turns) (hother : other ∈ turns)
    (hparent : child.parentTurnHash = some parentHash)
    (hparent' : other.parentTurnHash = some parentHash) : child = other := by
  induction h with
  | nil => cases hchild
  | @append turns turn h hcontinues ih =>
    rw [Table.Unique, List.map_append, List.nodup_append] at hunique
    obtain ⟨hbefore, -, -⟩ := hunique
    -- The parent of the new turn is the last before it, which has no child before it.
    have hfresh : ∀ child ∈ turns, child.parentTurnHash ≠ turn.parentTurnHash := by
      intro child hchild hsame
      rw [hcontinues.1] at hsame
      cases hlast : turns.foldl laterTurn none with
      | none =>
        rw [h.eq_nil hlast] at hchild
        cases hchild
      | some last =>
        obtain ⟨before, rfl, hchained, hlastContinues⟩ := h.exists_append hlast
        rw [hlast] at hsame
        rw [List.map_append, List.nodup_append] at hbefore
        obtain ⟨-, -, hdisjoint⟩ := hbefore
        have hparentOf : ∃ parent ∈ before, parent.turnHash = last.turnHash := by
          rcases List.mem_append.mp hchild with hchild | hchild
          · exact hchained.exists_parent hchild hsame
          · rw [List.mem_singleton.mp hchild, hlastContinues.1] at hsame
            obtain ⟨parent, hparent, hhash⟩ := Option.map_eq_some_iff.mp hsame
            obtain ⟨earlier, rfl, -, -⟩ := hchained.exists_append hparent
            exact ⟨parent, by simp, hhash⟩
        obtain ⟨parent, hmem, hhash⟩ := hparentOf
        exact hdisjoint _ (List.mem_map_of_mem hmem) _ (by simp) hhash
    rcases List.mem_append.mp hchild with hchild | hchild <;>
      rcases List.mem_append.mp hother with hother | hother
    · exact ih hbefore hchild hother
    · rw [List.mem_singleton.mp hother] at hparent'
      exact absurd (hparent.trans hparent'.symm) (hfresh child hchild)
    · rw [List.mem_singleton.mp hchild] at hparent
      exact absurd (hparent'.trans hparent.symm) (hfresh other hother)
    · rw [List.mem_singleton.mp hchild, List.mem_singleton.mp hother]

/-! ## Walks -/

/-- One turn is the parent of the other. -/
def HasParent (rows : List Turn) (child parent : Turn) : Prop :=
  parent ∈ rows ∧ child.parentTurnHash = some parent.turnHash

/-- The parents lead from the last turn of a chain to all of its turns. -/
theorem Chained.visits (h : Chained turns) (hlast : turns.foldl laterTurn none = some last)
    (hturn : turn ∈ turns) : Relation.ReflTransGen (HasParent turns) last turn := by
  induction h generalizing last with
  | nil => cases hturn
  | @append turns new h hcontinues ih =>
    rw [lastTurn_append hcontinues] at hlast
    obtain rfl := Option.some.inj hlast
    rcases List.mem_append.mp hturn with hturn | hturn
    · cases hbefore : turns.foldl laterTurn none with
      | none =>
        rw [h.eq_nil hbefore] at hturn
        cases hturn
      | some parent =>
        obtain ⟨before, rfl, -, -⟩ := h.exists_append hbefore
        have hstep : HasParent ((before ++ [parent]) ++ [new]) new parent := by
          refine ⟨by simp, ?_⟩
          rw [hcontinues.1, hbefore]
          rfl
        have hmore : ∀ child ancestor, HasParent (before ++ [parent]) child ancestor →
            HasParent (before ++ [parent] ++ [new]) child ancestor :=
          fun _ _ ⟨hmem, hparent⟩ => ⟨List.mem_append_left _ hmem, hparent⟩
        exact .head hstep (Relation.ReflTransGen.mono hmore _ _ (ih hbefore hturn))
    · rw [List.mem_singleton.mp hturn]

/-- The walk from the last turn of a chain collects the chain in order. -/
theorem Chained.walk (h : Chained turns) (find : JsString → Option Turn)
    (hfind : ∀ turn ∈ turns, turn.turnHash ≠ [] ∧ find turn.turnHash = some turn)
    {room : ℕ} (hroom : turns.length ≤ room) (chain : List Turn) :
    walkParents find room ((turns.foldl laterTurn none).map Turn.turnHash) chain =
      turns ++ chain := by
  induction h generalizing room chain with
  | nil =>
    cases room <;> rfl
  | @append turns turn h hcontinues ih =>
    obtain ⟨hne, hturn⟩ := hfind turn (by simp)
    obtain ⟨rest, rfl⟩ : ∃ rest, room = rest + 1 := by
      rw [List.length_append, List.length_singleton] at hroom
      exact ⟨room - 1, by omega⟩
    rw [List.length_append, List.length_singleton] at hroom
    rw [lastTurn_append hcontinues, Option.map_some, walkParents, if_neg hne, hturn]
    dsimp only
    rw [hcontinues.1, ih (fun other hother => hfind other (List.mem_append_left _ hother))
      (by omega), List.append_assoc]
    rfl

/-- The map of rows with distinct hashes finds each of them. -/
theorem byHash_eq {rows : List Turn} (hunique : Unique Turn.turnHash rows)
    (hturn : turn ∈ rows) : byHash rows turn.turnHash = some turn := by
  have hreverse : Unique Turn.turnHash rows.reverse := by
    rw [Table.Unique, List.map_reverse, List.nodup_reverse]
    exact hunique
  exact hreverse.find?_eq (List.mem_reverse.mpr hturn)

/-! ## One chain in every state -/

/-- The turns of a conversation are one chain: one root, no forks, and every walk from the last
turn is complete. -/
structure OneChain (turns : List Turn) (conversationId : JsString) : Prop where
  /-- Exactly one turn has no parent. -/
  root : inConversation turns conversationId ≠ [] →
    ∃ turn ∈ inConversation turns conversationId, turn.parentTurnHash = none ∧
      ∀ other ∈ inConversation turns conversationId, other.parentTurnHash = none → other = turn
  /-- A turn is the parent of at most one. -/
  noFork : ∀ parent ∈ inConversation turns conversationId,
    ∀ child ∈ inConversation turns conversationId,
    ∀ other ∈ inConversation turns conversationId,
      child.parentTurnHash = some parent.turnHash →
      other.parentTurnHash = some parent.turnHash → child = other
  /-- The parents lead from the last turn to all of them. -/
  visits : ∀ last, findLastTurnInConversation turns conversationId = some last →
    ∀ turn ∈ inConversation turns conversationId,
      Relation.ReflTransGen (HasParent (inConversation turns conversationId)) last turn
  /-- The chain that is read from the last turn is all of them, in the order of the commits. -/
  chain : ∀ last fetch limit, findLastTurnInConversation turns conversationId = some last →
    (∀ rows, AnswersUpTo 10000 rows (fetch rows)) →
    (inConversation turns conversationId).length ≤ 10000 →
    (inConversation turns conversationId).length ≤ limit →
    findTurnChain turns fetch last.turnHash limit = inConversation turns conversationId

/-- What keeps the turns of a conversation one chain. -/
structure KeepsChain (turns : List Turn) (conversationId : JsString) : Prop where
  /-- The hash is a key. -/
  unique : Unique Turn.turnHash turns
  /-- The hashes are texts that say something. -/
  nonempty : ∀ turn ∈ inConversation turns conversationId, turn.turnHash ≠ []
  /-- The turns go on from one another. -/
  chained : Chained (inConversation turns conversationId)

/-- Turns that go on from one another are one chain. -/
theorem KeepsChain.oneChain (h : KeepsChain turns conversationId) :
    OneChain turns conversationId := by
  have hunique : Unique Turn.turnHash (inConversation turns conversationId) :=
    h.unique.sublist (List.filter_sublist.map _)
  refine ⟨h.chained.root, ?_, fun last hlast turn hturn => h.chained.visits hlast hturn, ?_⟩
  · intro parent _ child hchild other hother hparent hparent'
    exact h.chained.child_unique hunique hchild hother hparent hparent'
  · intro last fetch limit hlast hfetch hfew hlimit
    obtain ⟨before, hrows, -, -⟩ := h.chained.exists_append hlast
    have hmem : last ∈ inConversation turns conversationId := by simp [hrows]
    obtain ⟨hlastMem, hconversation⟩ := List.mem_filter.mp hmem
    have hfound : findTurnByHash turns last.turnHash = some last := h.unique.find?_eq hlastMem
    rw [findTurnChain, hfound]
    dsimp only
    rw [of_decide_eq_true hconversation]
    obtain ⟨hsub, hlength⟩ := hfetch (inConversation turns conversationId)
    -- Up to ten thousand rows, the database answers all of them.
    have hperm : (fetch (inConversation turns conversationId)).Perm
        (inConversation turns conversationId) :=
      hsub.perm_of_length_le (by omega)
    have hwalk := h.chained.walk (byHash (fetch (inConversation turns conversationId)))
      (fun turn hturn => ⟨h.nonempty turn hturn,
        byHash_eq ((hperm.map _).nodup_iff.mpr hunique) (hperm.mem_iff.mpr hturn)⟩)
      hlimit []
    rw [findLastTurnInConversation] at hlast
    rw [hlast] at hwalk
    simpa using hwalk

/-! ## Runs -/

variable {sha256OfJcs : JsValue → JsString} {ι : Type} [DecidableEq ι]

/-- The condition on a step: a turn of the conversation that is committed still finds its parent
to be the last turn, and comes after it. -/
def CommitsInOrder (conversationId : JsString) (p : Prog (TurnStore ι) InsertTurnError Turn)
    (s : TurnStore ι) : Prop :=
  ∀ tx turn, p = commitTurn tx turn → turn.conversationId = conversationId →
    Continues (inConversation s.turns conversationId) turn

/-- The turns of the conversation before a step and after it. -/
def ChainStep (conversationId : JsString) (s t : TurnStore ι) : Prop :=
  KeepsChain s.turns conversationId → KeepsChain t.turns conversationId

omit [DecidableEq ι] in
/-- A turn that is not refused keeps the chain, where it goes on from the turns. -/
theorem KeepsChain.append {s : TurnStore ι} (h : KeepsChain s.turns conversationId)
    (haccepted : insertRefusal s turn = none) (hne : turn.turnHash ≠ [])
    (hcontinues : turn.conversationId = conversationId →
      Continues (inConversation s.turns conversationId) turn) :
    KeepsChain (s.turns ++ [turn]) conversationId := by
  have hfree : ∀ old ∈ s.turns, old.turnHash ≠ turn.turnHash := by
    intro old hold hhash
    rw [insertRefusal, if_pos (List.any_eq_true.mpr ⟨old, hold, decide_eq_true hhash⟩)]
      at haccepted
    cases haccepted
  by_cases hconversation : turn.conversationId = conversationId
  · have hrows : inConversation (s.turns ++ [turn]) conversationId =
        inConversation s.turns conversationId ++ [turn] := by
      simp [inConversation, hconversation]
    refine ⟨h.unique.append hfree, fun old hold => ?_, ?_⟩
    · rw [hrows] at hold
      rcases List.mem_append.mp hold with hold | hold
      · exact h.nonempty old hold
      · rw [List.mem_singleton.mp hold]
        exact hne
    · rw [hrows]
      exact h.chained.append (hcontinues hconversation)
  · have hrows : inConversation (s.turns ++ [turn]) conversationId =
        inConversation s.turns conversationId := by
      simp [inConversation, hconversation]
    refine ⟨h.unique.append hfree, ?_, ?_⟩ <;> rw [hrows]
    · exact h.nonempty
    · exact h.chained

/-- A new turn has a hash. -/
theorem newTurn_turnHash_ne {createdAt : ℤ} {input : CreateTurnInput} {lastTurn : Option Turn} :
    (newTurn sha256OfJcs createdAt input lastTurn).turnHash ≠ [] := by
  intro h
  exact absurd (List.append_eq_nil_iff.mp h).1 (by decide)

/-- An insertion whose commit is in order keeps the chain. -/
theorem meets_insertTurn {tx : ι} {createdAt : ℤ} {input : CreateTurnInput} {s : TurnStore ι} :
    Meets (CommitsInOrder conversationId) (fun _ _ => True) (ChainStep conversationId)
      (fun _ _ => True) (insertTurn sha256OfJcs tx createdAt input) s := by
  intro opened _ _ _
  refine ⟨id, meets_query fun read _ => ⟨id, ?_⟩⟩
  intro inserted _ _ _
  refine ⟨fun h => ?_, ?_⟩
  · dsimp only
    split
    · exact h
    · exact h
  · dsimp only
    split
    · exact fun _ _ => trivial
    · intro committed _ _ hallowed
      refine ⟨fun h => ?_, ?_⟩
      · dsimp only
        split
        · exact h
        · rename_i haccepted
          exact h.append haccepted newTurn_turnHash_ne (hallowed tx _ rfl)
      · dsimp only
        split <;> exact fun _ _ => trivial

/-- In every run whose commits are in order, the turns of the conversation are one chain in
every state. -/
theorem oneChain_of_run {store : TurnStore ι} (hunique : Unique Turn.turnHash store.turns)
    (hempty : inConversation store.turns conversationId = [])
    {clock : ι → ℤ} {input : ι → CreateTurnInput} {w : World (TurnStore ι) InsertTurnError Turn ι}
    (hrun : Reaches (CommitsInOrder conversationId)
      ⟨store, fun tx => insertTurn sha256OfJcs tx (clock tx) (input tx)⟩ w) :
    OneChain w.state.turns conversationId := by
  have hmeets := hrun.meets (fun _ _ _ => True) (fun _ => ChainStep conversationId)
    (fun _ _ _ => True) (ChainStep conversationId) (fun _ _ => trivial) (fun _ _ => trivial)
    (fun _ _ => trivial) id (fun _ => id) (fun h h' => h' ∘ h) (fun _ => meets_insertTurn)
  refine (hmeets.1 ⟨hunique, ?_, ?_⟩).oneChain
  · rw [hempty]
    exact fun _ h => nomatch h
  · rw [hempty]
    exact .nil

/-! ## One transaction after the other -/

/-- A commit names the turn that it commits. -/
theorem commitTurn_inj {tx tx' : ι} {turn' : Turn} (h : commitTurn tx turn = commitTurn tx' turn') :
    turn = turn' := by
  let rows : List (Conversation ι) :=
    [⟨[], turn.conversationId, none, none⟩, ⟨[], turn'.conversationId, none, none⟩]
  have hnext := congrFun (Prog.act.inj h).2.2 ⟨rows, []⟩
  have haccepted : insertRefusal ⟨rows, []⟩ turn = none := by simp [insertRefusal, rows]
  have haccepted' : insertRefusal ⟨rows, []⟩ turn' = none := by simp [insertRefusal, rows]
  simpa only [haccepted, haccepted', Prog.done.injEq, Except.ok.injEq] using hnext

/-- A commit is in order when its turn goes on from the turns. -/
theorem commitsInOrder_commitTurn {tx : ι} {s : TurnStore ι}
    (h : Continues (inConversation s.turns conversationId) turn) :
    CommitsInOrder conversationId (commitTurn tx turn) s := by
  intro tx' turn' hsame _
  rw [← commitTurn_inj hsame]
  exact h

/-- What is allowed of an action that another may follow. -/
def AllowsOthers (allowed : Prog (TurnStore ι) InsertTurnError Turn → TurnStore ι → Prop) : Prop :=
  ∀ ready write next s t, (∀ result, next t ≠ .done result) → allowed (.act ready write next) s

/-- An action that another may follow is no commit. -/
theorem allowsOthers_commitsInOrder :
    AllowsOthers (CommitsInOrder (ι := ι) conversationId) := by
  intro ready write next s t h tx turn hsame _
  have hnext := congrFun (Prog.act.inj hsame).2.2 t
  split at hnext
  · exact absurd hnext (h _)
  · exact absurd hnext (h _)

/-- The conversations after the update of the tracking window. -/
def lockUntracked (tx : ι) (input : CreateTurnInput) (s : TurnStore ι) : TurnStore ι :=
  { s with
    conversations := s.conversations.map fun row =>
      if isUntracked input row then { row with lockedBy := some tx } else row }

omit [DecidableEq ι] in
/-- Locks do not matter to whether a turn is refused. -/
theorem insertRefusal_lockUntracked {tx : ι} {input : CreateTurnInput} {s : TurnStore ι} :
    insertRefusal (lockUntracked tx input s) turn = insertRefusal s turn := by
  have hid : ∀ row : Conversation ι, (if isUntracked input row then
      { row with lockedBy := some tx } else row).conversationId = row.conversationId := by
    intro row
    split <;> rfl
  simp only [insertRefusal, lockUntracked, List.all_map, Function.comp_def, hid]

section alone

variable {allowed : Prog (TurnStore ι) InsertTurnError Turn → TurnStore ι → Prop}

/-- Where no transaction has locked a conversation, an insertion comes to read the last turn. -/
theorem alone_read (hothers : AllowsOthers allowed) (s : TurnStore ι) (tx : ι) (createdAt : ℤ)
    (input : CreateTurnInput) (hunlocked : ∀ row ∈ s.conversations, row.lockedBy = none)
    (hturn : turn = newTurn sha256OfJcs createdAt input
      (findLastTurnInConversation s.turns input.conversationId)) :
    Alone allowed (insertTurn sha256OfJcs tx createdAt input) s
      (insertRow tx turn >>= fun _ => commitTurn tx turn) (lockUntracked tx input s) := by
  have hready : s.conversations.all (fun row =>
      !isUntracked input row || row.lockedBy.all fun other => other = tx) = true := by
    rw [List.all_eq_true]
    intro row hrow
    rw [hunlocked row hrow, Option.all_none, Bool.or_true]
  subst hturn
  refine .act hready (hothers _ _ _ _ s fun _ => nofun) ?_
  exact .act rfl (hothers _ _ _ _ s fun _ => nofun) .refl

/-- A turn that is not refused is inserted and committed. -/
theorem alone_insertRow (hothers : AllowsOthers allowed) {s : TurnStore ι} {tx : ι}
    (haccepted : insertRefusal s turn = none) (hallowed : allowed (commitTurn tx turn) s) :
    Alone allowed (insertRow tx turn >>= fun _ => commitTurn tx turn) s (.done (.ok turn))
      ⟨commitTracking tx turn.createdAt s.conversations, s.turns ++ [turn]⟩ := by
  have hcommit : Alone allowed (commitTurn tx turn) s (.done (.ok turn))
      ⟨commitTracking tx turn.createdAt s.conversations, s.turns ++ [turn]⟩ := by
    refine .act rfl hallowed ?_
    simp only [haccepted]
    exact .refl
  refine .act rfl (hothers _ _ _ s s fun result h => ?_) ?_
  · simp only [haccepted] at h
    exact nomatch h
  · simp only [haccepted]
    exact hcommit

end alone

/-- Where no transaction has locked a conversation, and the clock has moved on since the last turn,
an insertion that nothing interrupts commits its turn in order. -/
theorem alone_insertTurn (s : TurnStore ι) (tx : ι) (createdAt : ℤ) (input : CreateTurnInput)
    (hunlocked : ∀ row ∈ s.conversations, row.lockedBy = none)
    (hturn : turn = newTurn sha256OfJcs createdAt input
      (findLastTurnInConversation s.turns input.conversationId))
    (haccepted : insertRefusal s turn = none)
    (hlater : ∀ last, findLastTurnInConversation s.turns input.conversationId = some last →
      isLater turn last = true) :
    Alone (CommitsInOrder input.conversationId) (insertTurn sha256OfJcs tx createdAt input) s
      (.done (.ok turn))
      ⟨commitTracking tx turn.createdAt (lockUntracked tx input s).conversations,
        s.turns ++ [turn]⟩ :=
  (alone_read allowsOthers_commitsInOrder s tx createdAt input hunlocked hturn).trans
    (alone_insertRow allowsOthers_commitsInOrder (insertRefusal_lockUntracked.trans haccepted)
      (commitsInOrder_commitTurn ⟨hturn ▸ rfl, hlater⟩))

/-! ## Two transactions -/

/-- A project with one conversation, whose window is open, and no turn. -/
def emptyConversation : TurnStore Bool :=
  { conversations := [⟨js "p", js "c", some 0, none⟩]
    turns := [] }

/-- What a user says there. -/
def saying (content : String) : CreateTurnInput :=
  { projectId := js "p"
    conversationId := js "c"
    role := js "user"
    content := js content
    language := none
    rings := none
    content_blocks := none }

/-- Two messages, sent at different times. -/
def twoCalls (sha256OfJcs : JsValue → JsString) (tx : Bool) :
    Prog (TurnStore Bool) InsertTurnError Turn :=
  insertTurn sha256OfJcs tx (if tx then 2 else 1) (saying (if tx then "b" else "a"))

/-- Two transactions, one after the other, leave a chain of two turns. -/
theorem oneChain_of_run_two : ∃ w : World (TurnStore Bool) InsertTurnError Turn Bool,
    w.state.turns.map (fun turn => turn.content) = [js "a", js "b"] ∧
      OneChain w.state.turns (js "c") := by
  let hash : JsValue → JsString := fun data => (data.member "content").text
  let first := newTurn hash 1 (saying "a") none
  let second := newTurn hash 2 (saying "b") (some first)
  have hfirst : Alone (CommitsInOrder (js "c")) (insertTurn hash false 1 (saying "a"))
      emptyConversation (.done (.ok first)) ⟨emptyConversation.conversations, [first]⟩ :=
    alone_insertTurn emptyConversation false 1 (saying "a") (by decide) rfl (by decide)
      (fun _ h => nomatch h)
  have hsecond : Alone (CommitsInOrder (js "c")) (insertTurn hash true 2 (saying "b"))
      ⟨emptyConversation.conversations, [first]⟩ (.done (.ok second))
      ⟨emptyConversation.conversations, [first, second]⟩ :=
    alone_insertTurn ⟨emptyConversation.conversations, [first]⟩ true 2 (saying "b") (by decide)
      rfl (by decide) (fun last h => by
        obtain rfl := Option.some.inj h
        decide)
  have hunique : Unique Turn.turnHash emptyConversation.turns := List.nodup_nil
  have hrun : Reaches (CommitsInOrder (js "c")) ⟨emptyConversation, fun tx =>
      insertTurn hash tx (if tx then 2 else 1) (saying (if tx then "b" else "a"))⟩ _ :=
    (hfirst.reaches false rfl rfl).trans (hsecond.reaches true rfl rfl)
  exact ⟨_, by decide, oneChain_of_run hunique rfl hrun⟩

/-- Hashes of different data differ, where the data are text that has bytes. -/
def DistinctHashes (sha256OfJcs : JsValue → JsString) : Prop :=
  ∀ v w : JsValue, v.isUnicode = true → w.isUnicode = true → sha256OfJcs v = sha256OfJcs w →
    v.denote JsNumber.dropZeroSign = w.denote JsNumber.dropZeroSign

/-- Two transactions that read before either commits leave two turns without a parent. -/
theorem turns_fork {sha256OfJcs : JsValue → JsString} (hdistinct : DistinctHashes sha256OfJcs) :
    ∃ w : World (TurnStore Bool) InsertTurnError Turn Bool,
      Reaches (fun _ _ => True) ⟨emptyConversation, twoCalls sha256OfJcs⟩ w ∧
      w.state.turns = [newTurn sha256OfJcs 1 (saying "a") none,
        newTurn sha256OfJcs 2 (saying "b") none] := by
  have hne : (newTurn sha256OfJcs 1 (saying "a") none).turnHash ≠
      (newTurn sha256OfJcs 2 (saying "b") none).turnHash := by
    intro hsame
    have hdata := hdistinct _ _ (by decide) (by decide) (List.append_cancel_left hsame)
    exact absurd hdata (by decide)
  let first := newTurn sha256OfJcs 1 (saying "a") none
  let second := newTurn sha256OfJcs 2 (saying "b") none
  have haccepted : insertRefusal ⟨emptyConversation.conversations, [first]⟩ second = none := by
    have hfree : ([first].any fun old => old.turnHash = second.turnHash) = false := by
      rw [List.any_cons, decide_eq_false hne]
      rfl
    rw [insertRefusal]
    simp only [hfree]
    rfl
  have hothers : AllowsOthers (ι := Bool) fun _ _ => True := fun _ _ _ _ _ _ => trivial
  have hread (tx : Bool) (createdAt : ℤ) (content : String) :
      Alone (fun _ _ => True) (insertTurn sha256OfJcs tx createdAt (saying content))
        emptyConversation _ _ :=
    alone_read hothers emptyConversation tx createdAt (saying content) (by decide) rfl
  have hrun : Reaches (fun _ _ => True) ⟨emptyConversation, twoCalls sha256OfJcs⟩ _ :=
    ((((hread false 1 "a").reaches false rfl rfl).trans
      ((hread true 2 "b").reaches true rfl rfl)).trans
      ((alone_insertRow hothers rfl trivial).reaches false rfl rfl)).trans
      ((alone_insertRow hothers haccepted trivial).reaches true rfl rfl)
  exact ⟨_, hrun, rfl⟩

/-- The turns of a conversation need not be one chain: the transaction does not keep another
from reading the same last turn. -/
theorem turns_forked : ¬ ∀ sha256OfJcs : JsValue → JsString, DistinctHashes sha256OfJcs →
    ∀ (store : TurnStore Bool) (conversationId : JsString) (clock : Bool → ℤ)
      (input : Bool → CreateTurnInput) (w : World (TurnStore Bool) InsertTurnError Turn Bool),
      Unique Turn.turnHash store.turns → inConversation store.turns conversationId = [] →
      Reaches (fun _ _ => True)
        ⟨store, fun tx => insertTurn sha256OfJcs tx (clock tx) (input tx)⟩ w →
      OneChain w.state.turns conversationId := by
  intro h
  obtain ⟨hash, hdistinct⟩ : ∃ hash, DistinctHashes hash :=
    ⟨JsValue.encode (Record.sorted compareCodeUnits), fun _ _ _ _ hsame =>
      (JsValue.encode_sorted_eq_iff isStringOrder_compareCodeUnits).mp hsame⟩
  obtain ⟨w, hrun, hturns⟩ := turns_fork hdistinct
  have hchain := h _ hdistinct emptyConversation (js "c") (fun tx => if tx then 2 else 1)
    (fun tx => saying (if tx then "b" else "a")) w List.nodup_nil rfl hrun
  rw [hturns] at hchain
  obtain ⟨root, _, _, honly⟩ := hchain.root (by simp [inConversation, newTurn, saying])
  have hfirst := honly (newTurn hash 1 (saying "a") none)
    (by simp [inConversation, newTurn, saying]) rfl
  have hsecond := honly (newTurn hash 2 (saying "b") none)
    (by simp [inConversation, newTurn, saying]) rfl
  have hcontent := congrArg Turn.content (hfirst.trans hsecond.symm)
  exact absurd (show js "a" = js "b" from hcontent) (by decide)

end T3x.Storage
