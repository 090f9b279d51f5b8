import T3x.Storage.Pagination

/-!
# Listings are walked once

The places of rows are ordered strictly by the direction of the listing. A cursor
stands for the row at the end of its page, and what the query finds behind it is
what is left of the sorted rows. So the pages are the pieces of the sorted rows.
-/

namespace T3x.Storage

open Js

section

variable {T : Type} {order : KeyOrder} {columns : Columns T} {descending : Bool}
variable {readOther : JsString → Option ℤ}

/-! ## The order of places -/

/-- The rows after a place, in the ascending order. -/
theorem isAfter_iff {cursor place : ℤ × JsString} :
    isAfter order descending cursor place = true ↔
      if descending then
        place.1 < cursor.1 ∨ place.1 = cursor.1 ∧ order.lt place.2 cursor.2 = true
      else cursor.1 < place.1 ∨ place.1 = cursor.1 ∧ order.lt cursor.2 place.2 = true := by
  unfold isAfter
  split_ifs <;> simp only [Bool.or_eq_true, Bool.and_eq_true, decide_eq_true_eq]

/-- No place is after itself. -/
theorem isAfter_irrefl (place : ℤ × JsString) : isAfter order descending place place = false := by
  rw [Bool.eq_false_iff, Ne, isAfter_iff, order.irrefl]
  split_ifs <;> simp

/-- What is after what is after a place is after the place. -/
theorem isAfter_trans {p q r : ℤ × JsString} (hpq : isAfter order descending p q = true)
    (hqr : isAfter order descending q r = true) : isAfter order descending p r = true := by
  rw [isAfter_iff] at *
  split_ifs at * with hdir
  · rcases hpq with hpq | ⟨hpq, hlt⟩
    · rcases hqr with hqr | ⟨hqr, -⟩
      · exact Or.inl (by omega)
      · exact Or.inl (by omega)
    · rcases hqr with hqr | ⟨hqr, hlt'⟩
      · exact Or.inl (by omega)
      · exact Or.inr ⟨by omega, order.trans _ _ _ hlt' hlt⟩
  · rcases hpq with hpq | ⟨hpq, hlt⟩
    · rcases hqr with hqr | ⟨hqr, -⟩
      · exact Or.inl (by omega)
      · exact Or.inl (by omega)
    · rcases hqr with hqr | ⟨hqr, hlt'⟩
      · exact Or.inl (by omega)
      · exact Or.inr ⟨by omega, order.trans _ _ _ hlt hlt'⟩

/-- Of two places only one is after the other. -/
theorem isAfter_asymm {p q : ℤ × JsString} (h : isAfter order descending p q = true) :
    isAfter order descending q p = false := by
  rw [Bool.eq_false_iff]
  intro hback
  have hloop := isAfter_trans h hback
  rw [isAfter_irrefl] at hloop
  cases hloop

/-- Of two places one is after the other. -/
theorem isAfter_total (order : KeyOrder) (descending : Bool) (p q : ℤ × JsString) :
    p = q ∨ isAfter order descending p q = true ∨ isAfter order descending q p = true := by
  rw [isAfter_iff, isAfter_iff]
  have hkeys := order.total p.2 q.2
  rcases lt_trichotomy p.1 q.1 with hlt | heq | hgt
  · split_ifs
    · exact Or.inr (Or.inr (Or.inl hlt))
    · exact Or.inr (Or.inl (Or.inl hlt))
  · rcases hkeys with hkey | hkey | hkey
    · exact Or.inl (Prod.ext heq hkey)
    · split_ifs
      · exact Or.inr (Or.inr (Or.inr ⟨heq, hkey⟩))
      · exact Or.inr (Or.inl (Or.inr ⟨heq.symm, hkey⟩))
    · split_ifs
      · exact Or.inr (Or.inl (Or.inr ⟨heq.symm, hkey⟩))
      · exact Or.inr (Or.inr (Or.inr ⟨heq, hkey⟩))
  · split_ifs
    · exact Or.inr (Or.inl (Or.inl hgt))
    · exact Or.inr (Or.inr (Or.inl hgt))

/-- The order of the query is total. -/
instance : Std.Total (InOrder order columns descending) where
  total row other := by
    by_cases h : isAfter order descending (columns.place other) (columns.place row) = true
    · exact Or.inr (isAfter_asymm h)
    · exact Or.inl (Bool.eq_false_iff.mpr h)

/-- The order of the query is transitive. -/
instance : IsTrans T (InOrder order columns descending) where
  trans a b c hab hbc := by
    unfold InOrder at *
    rw [Bool.eq_false_iff]
    intro hca
    rcases isAfter_total order descending (columns.place a) (columns.place b) with heq | hafter | hafter
    · rw [heq] at hca
      rw [hca] at hbc
      cases hbc
    · rw [isAfter_trans hca hafter] at hbc
      cases hbc
    · rw [hafter] at hab
      cases hab

/-! ## The sorted rows -/

variable (order columns descending)

/-- The rows of a parent, sorted. -/
def sortedRows (table : List T) (parent : JsString) : List T :=
  (table.filter fun row => decide (columns.parent row = parent)).insertionSort
    (InOrder order columns descending)

variable {order columns descending} {table : List T} {parent : JsString}

/-- The sorted rows are the rows. -/
theorem sortedRows_perm : (sortedRows order columns descending table parent).Perm
    (table.filter fun row => decide (columns.parent row = parent)) :=
  List.perm_insertionSort _ _

variable (hkeys : ((table.filter fun row => decide (columns.parent row = parent)).map
  columns.key).Nodup)

include hkeys

/-- Rows of one place are one row. -/
theorem eq_of_inOrder : ∀ a ∈ table.filter fun row => decide (columns.parent row = parent),
    ∀ b ∈ table.filter fun row => decide (columns.parent row = parent),
      InOrder order columns descending a b → InOrder order columns descending b a → a = b := by
  intro a ha b hb hab hba
  unfold InOrder at hab hba
  rcases isAfter_total order descending (columns.place a) (columns.place b) with
    heq | hafter | hafter
  · exact List.inj_on_of_nodup_map hkeys ha hb (congrArg Prod.snd heq)
  · rw [hafter] at hba
    cases hba
  · rw [hafter] at hab
    cases hab

/-- The sorted rows are in strict order. -/
theorem sortedRows_pairwise : (sortedRows order columns descending table parent).Pairwise
    fun row other => isAfter order descending (columns.place row) (columns.place other) = true := by
  have hsorted := List.pairwise_insertionSort (InOrder order columns descending)
    (table.filter fun row => decide (columns.parent row = parent))
  have hnodup : (sortedRows order columns descending table parent).Nodup :=
    sortedRows_perm.nodup_iff.mpr (List.Nodup.of_map _ hkeys)
  refine (hsorted.and hnodup).imp_of_mem fun {a b} ha hb ⟨hab, hne⟩ => ?_
  have ha' := sortedRows_perm.mem_iff.mp ha
  have hb' := sortedRows_perm.mem_iff.mp hb
  by_contra hafter
  exact hne (eq_of_inOrder hkeys a ha' b hb' hab (Bool.eq_false_iff.mpr hafter))

/-- The rows after one of the sorted rows are those behind it, and they are found sorted. -/
theorem sorted_after {front rest : List T} {x : T}
    (hrows : sortedRows order columns descending table parent = front ++ x :: rest) :
    (table.filter fun row => decide (columns.parent row = parent) &&
        isAfter order descending (columns.place x) (columns.place row)).insertionSort
      (InOrder order columns descending) = rest := by
  have hpairwise : (sortedRows order columns descending table parent).Pairwise fun row other =>
      isAfter order descending (columns.place row) (columns.place other) = true :=
    sortedRows_pairwise hkeys
  have hsplit : (table.filter fun row => decide (columns.parent row = parent) &&
      isAfter order descending (columns.place x) (columns.place row)) =
      (table.filter fun row => decide (columns.parent row = parent)).filter
        fun row => isAfter order descending (columns.place x) (columns.place row) := by
    rw [List.filter_filter]
    exact List.filter_congr fun row _ => Bool.and_comm _ _
  rw [hsplit, Keyset.insertionSort_filter _ (eq_of_inOrder hkeys)]
  change (sortedRows order columns descending table parent).filter _ = rest
  rw [hrows] at hpairwise ⊢
  exact Keyset.filter_after (fun row other =>
    isAfter order descending (columns.place row) (columns.place other))
    (fun _ => isAfter_irrefl _) (fun _ _ => isAfter_asymm) hpairwise

/-! ## Pages -/

omit hkeys

/-- The page of rows of which one more than its length was read. -/
theorem toCursorPage_take (rest : List T) {limit : ℕ} (hlimit : 1 ≤ limit)
    (extractCursor : T → JsString × JsString) :
    (rest.length ≤ limit ∧
      toCursorPage (rest.take (limit + 1)) limit extractCursor = ⟨rest, none, false⟩) ∨
    ∃ front x behind, rest = front ++ x :: behind ∧ front.length + 1 = limit ∧ behind ≠ [] ∧
      toCursorPage (rest.take (limit + 1)) limit extractCursor =
        ⟨front ++ [x], some (encodeCursor (extractCursor x).1 (extractCursor x).2), true⟩ := by
  by_cases hfits : rest.length ≤ limit
  · refine Or.inl ⟨hfits, ?_⟩
    have htake : rest.take (limit + 1) = rest := List.take_of_length_le (by omega)
    unfold toCursorPage
    simp only [htake, decide_eq_false (show ¬ limit < rest.length by omega), Bool.false_eq_true,
      if_false]
  · have hlt : limit - 1 < rest.length := by omega
    have hlast : limit - 1 + 1 = limit := by omega
    have htake : rest.take limit = rest.take (limit - 1) ++ [rest[limit - 1]] := by
      rw [List.take_append_getElem hlt, hlast]
    have hsplit : rest = rest.take (limit - 1) ++ rest[limit - 1] :: rest.drop limit := by
      conv_lhs => rw [← List.take_append_drop limit rest, htake]
      rw [List.append_assoc, List.singleton_append]
    refine Or.inr ⟨rest.take (limit - 1), rest[limit - 1], rest.drop limit, hsplit, ?_, ?_, ?_⟩
    · rw [List.length_take]
      omega
    · rw [Ne, List.drop_eq_nil_iff]
      exact hfits
    · have hmore : limit < (rest.take (limit + 1)).length := by
        rw [List.length_take]
        omega
      have hitems : (rest.take (limit + 1)).take limit =
          rest.take (limit - 1) ++ [rest[limit - 1]] := by
        rw [List.take_take, Nat.min_eq_left (by omega), htake]
      unfold toCursorPage
      simp only [hmore, decide_true, if_true, hitems, List.getLast?_concat]

/-- What a cursor says of a row. -/
def Columns.cursorOf (columns : Columns T) (row : T) : JsString × JsString :=
  (toISOString (columns.createdAt row), columns.key row)

/-- The first page begins at the first of the sorted rows. -/
theorem findPage_first (limit : ℕ) :
    findPage order columns descending readOther table parent [] limit =
      .ok (toCursorPage ((sortedRows order columns descending table parent).take (limit + 1)) limit
        columns.cursorOf) := by
  unfold findPage sortedRows
  rw [if_neg (not_not_intro rfl)]
  simp only [pure_bind, Bool.and_true]
  rfl

/-- The page behind a row begins at what stands behind it. -/
theorem findPage_next (hkeys : ((table.filter fun row =>
      decide (columns.parent row = parent)).map columns.key).Nodup) {front rest : List T} {x : T}
    (hrows : sortedRows order columns descending table parent = front ++ x :: rest)
    (hdate : inRange (columns.createdAt x)) (limit : ℕ) :
    findPage order columns descending readOther table parent
        (encodeCursor (columns.cursorOf x).1 (columns.cursorOf x).2) limit =
      .ok (toCursorPage (rest.take (limit + 1)) limit columns.cursorOf) := by
  have hparse : dateParse readOther (columns.cursorOf x).1 = some (columns.createdAt x) :=
    dateParse_toISOString readOther hdate
  have hdecode : decodeCursor readOther
      (encodeCursor (columns.cursorOf x).1 (columns.cursorOf x).2) =
        .ok ((columns.cursorOf x).1, (columns.cursorOf x).2) :=
    decodeCursor_encodeCursor readOther (by rw [hparse]; exact Option.some_ne_none _)
  have hafter := sorted_after hkeys hrows
  unfold findPage
  rw [if_pos (encodeCursor_ne_nil _ _), hdecode]
  dsimp only [bind, Except.bind, pure, Except.pure]
  rw [hparse, Option.getD_some]
  change Except.ok (toCursorPage (List.take (limit + 1) (List.insertionSort _ (List.filter
    (fun row => decide (columns.parent row = parent) &&
      isAfter order descending (columns.place x) (columns.place row)) table))) limit
    columns.cursorOf) = _
  rw [hafter]

/-- Following the cursors lists the rows that are left, piece by piece. -/
theorem followPages_rest (hkeys : ((table.filter fun row =>
      decide (columns.parent row = parent)).map columns.key).Nodup)
    (hdates : ∀ row ∈ table, inRange (columns.createdAt row)) {limit : ℕ} (hlimit : 1 ≤ limit)
    {fuel : ℕ} {cursor : JsString} {front rest : List T}
    (hrows : sortedRows order columns descending table parent = front ++ rest)
    (hpage : findPage order columns descending readOther table parent cursor limit =
      .ok (toCursorPage (rest.take (limit + 1)) limit columns.cursorOf))
    (hfuel : Keyset.pageCount limit rest.length ≤ fuel) :
    ∃ pages, followPages (fun cursor =>
        findPage order columns descending readOther table parent cursor limit) fuel cursor =
          .ok (some pages) ∧
      pages.map CursorPage.items = Keyset.pages limit fuel rest := by
  induction fuel generalizing cursor front rest with
  | zero =>
    unfold Keyset.pageCount at hfuel
    omega
  | succ fuel ih =>
    rw [followPages, hpage, Keyset.pages]
    rcases toCursorPage_take rest hlimit columns.cursorOf with
      ⟨hfits, hlast⟩ | ⟨front', x, behind, rfl, hlength, hbehind, hmore⟩
    · refine ⟨[⟨rest, none, false⟩], ?_, ?_⟩
      · rw [hlast]
        rfl
      · rw [if_pos hfits]
        rfl
    · have hlong : limit < (front' ++ x :: behind).length := by
        have hpos := List.length_pos_of_ne_nil hbehind
        rw [List.length_append, List.length_cons]
        omega
      have htake : (front' ++ x :: behind).take limit = front' ++ [x] := by
        rw [List.append_cons, List.take_left' (by simpa using hlength)]
      have hdrop : (front' ++ x :: behind).drop limit = behind := by
        rw [List.append_cons, List.drop_left' (by simpa using hlength)]
      rw [Keyset.pageCount_of_lt hlimit hlong, ← List.length_drop, hdrop] at hfuel
      have hx : x ∈ table := by
        have hmem : x ∈ sortedRows order columns descending table parent := by
          rw [hrows]
          simp
        exact (List.mem_filter.mp (sortedRows_perm.mem_iff.mp hmem)).1
      have hrows' : sortedRows order columns descending table parent =
          (front ++ front') ++ x :: behind := by rw [hrows, List.append_assoc]
      obtain ⟨pages, hpages, hitems⟩ := ih
        (hrows'.trans (List.append_cons _ _ _))
        (findPage_next hkeys hrows' (hdates x hx) limit) (by omega)
      refine ⟨⟨front' ++ [x], some (encodeCursor (columns.cursorOf x).1 (columns.cursorOf x).2),
        true⟩ :: pages, ?_, ?_⟩
      · rw [hmore]
        change (do
          let others ← followPages _ fuel _
          pure (others.map (_ :: ·)) : Except JsString _) = _
        rw [hpages]
        rfl
      · rw [if_neg (by omega), htake, hdrop, List.map_cons, hitems]

/-- Following the cursors from the first page lists every row once, in the order of the listing,
in as few pages as the length of a page allows. -/
theorem followPages_spec (hkeys : ((table.filter fun row =>
      decide (columns.parent row = parent)).map columns.key).Nodup)
    (hdates : ∀ row ∈ table, inRange (columns.createdAt row)) {limit fuel : ℕ} (hlimit : 1 ≤ limit)
    (hfuel : Keyset.pageCount limit
      (table.filter fun row => decide (columns.parent row = parent)).length ≤ fuel) :
    ∃ pages, followPages (fun cursor =>
        findPage order columns descending readOther table parent cursor limit) fuel [] =
          .ok (some pages) ∧
      pages.length = Keyset.pageCount limit
        (table.filter fun row => decide (columns.parent row = parent)).length ∧
      (pages.flatMap CursorPage.items).Perm
        (table.filter fun row => decide (columns.parent row = parent)) ∧
      (pages.flatMap CursorPage.items).Pairwise fun row other =>
        isAfter order descending (columns.place row) (columns.place other) = true := by
  have hperm : (sortedRows order columns descending table parent).Perm
      (table.filter fun row => decide (columns.parent row = parent)) := sortedRows_perm
  have hrows : sortedRows order columns descending table parent =
      [] ++ sortedRows order columns descending table parent := rfl
  rw [← hperm.length_eq] at hfuel ⊢
  obtain ⟨pages, hpages, hitems⟩ := followPages_rest hkeys hdates hlimit hrows
    (findPage_first limit) hfuel
  obtain ⟨hflatten, hlength⟩ := Keyset.pages_spec hlimit hfuel
  have hall : pages.flatMap CursorPage.items =
      sortedRows order columns descending table parent := by
    rw [List.flatMap_def, hitems, hflatten]
  refine ⟨pages, hpages, ?_, ?_, ?_⟩
  · rw [← hlength, ← hitems, List.length_map]
  · rw [hall]
    exact hperm
  · rw [hall]
    exact sortedRows_pairwise hkeys

end

/-! ## Turns and conversations -/

/-- Following the cursors of a listing from the first page on lists the rows once, in the order of
the listing, in as few pages as the length of a page allows. -/
def Exhausts {T : Type} (order : KeyOrder) (columns : Columns T) (descending : Bool) (limit : ℕ)
    (find : JsString → Except JsString (CursorPage T)) (rows : List T) : Prop :=
  ∃ pages, followPages find (Keyset.pageCount limit rows.length) [] = .ok (some pages) ∧
    pages.length = Keyset.pageCount limit rows.length ∧
    (pages.flatMap CursorPage.items).Perm rows ∧
    (pages.flatMap CursorPage.items).Pairwise fun row other =>
      isAfter order descending (columns.place row) (columns.place other) = true

/-- The listings of turns and of conversations list every row once and in order. -/
theorem listings_exhaust (order : KeyOrder) (readOther : JsString → Option ℤ) {limit : Option ℕ}
    (hlimit : 1 ≤ limit.getD 100) :
    (∀ (turns : List TurnRow) (conversationId : JsString) (orderDir : Option OrderDir),
      (turns.map (·.turnHash)).Nodup → (∀ turn ∈ turns, inRange turn.createdAt) →
        Exhausts order turnColumns (decide (orderDir.getD .asc = .desc)) (limit.getD 100)
          (findTurnsByConversation order readOther turns conversationId limit orderDir)
          (turns.filter fun turn => decide (turn.conversationId = conversationId))) ∧
    ∀ (conversations : List ConversationRow) (projectId : JsString),
      (conversations.map (·.conversationId)).Nodup →
      (∀ conversation ∈ conversations, inRange conversation.createdAt) →
        Exhausts order conversationColumns true (limit.getD 100)
          (findConversationsByProject order readOther conversations projectId limit)
          (conversations.filter fun conversation =>
            decide (conversation.projectId = projectId)) := by
  constructor
  · intro turns conversationId orderDir hkeys hdates
    have hlisted : ((turns.filter fun row =>
        decide (turnColumns.parent row = conversationId)).map turnColumns.key).Nodup :=
      hkeys.sublist (List.filter_sublist.map _)
    exact followPages_spec hlisted hdates hlimit le_rfl
  · intro conversations projectId hkeys hdates
    have hlisted : ((conversations.filter fun row =>
        decide (conversationColumns.parent row = projectId)).map conversationColumns.key).Nodup :=
      hkeys.sublist (List.filter_sublist.map _)
    exact followPages_spec hlisted hdates hlimit le_rfl

/-- The order of code points. -/
def codepointOrder : KeyOrder where
  lt a b := decide (compareCodepoints a b < 0)
  irrefl key := by
    rw [decide_eq_false_iff_not, (isStringOrder_compareCodepoints.eq_zero key key).mpr rfl]
    omega
  trans a b c hab hbc := by
    rw [decide_eq_true_eq] at *
    exact isStringOrder_compareCodepoints.isComparison.lt_trans hab hbc
  total a b := by
    rw [decide_eq_true_eq, decide_eq_true_eq, isStringOrder_compareCodepoints.swap a b,
      ← isStringOrder_compareCodepoints.eq_zero]
    omega

/-- Three turns, two of one time, in pages of two. -/
theorem listings_exhaust_tie : Exhausts codepointOrder turnColumns false 2
    (findTurnsByConversation codepointOrder (fun _ => none)
      [⟨js "c", 5, js "b"⟩, ⟨js "c", 5, js "a"⟩, ⟨js "c", 3, js "z"⟩] (js "c") (some 2) none)
    ([⟨js "c", 5, js "b"⟩, ⟨js "c", 5, js "a"⟩, ⟨js "c", 3, js "z"⟩].filter
      fun turn => decide (turn.conversationId = js "c")) :=
  (listings_exhaust codepointOrder (fun _ => none) (by decide : 1 ≤ (some 2).getD 100)).1
    [⟨js "c", 5, js "b"⟩, ⟨js "c", 5, js "a"⟩, ⟨js "c", 3, js "z"⟩] (js "c") none (by decide)
    (by decide)

end T3x.Storage
