import T3x.Storage.RateLimits
import T3x.Run

/-!
# Runs of the rate limiter

Calls and cleanups of any number of processes share one clock and one table.
Each reads the clock in one step and changes the table in a later one. A call
that is late for its window meets a new row if a cleanup has deleted the row of
the window, and then it is counted as the first. Where no cleanup deletes the
row of a call in flight, each window allows exactly its first calls.
-/

namespace T3x.Storage

open Js T3x.Run

/-! ## States and steps -/

/-- The limit and the window of a namespace. -/
structure RateLimitPolicy where
  /-- The calls that a window allows. -/
  limit : ℤ
  /-- The length of a window. -/
  windowMs : ℤ

/-- A call that has read the clock. -/
structure RateLimitCall where
  /-- The namespace of the policy. -/
  scope : JsString
  /-- The hash of the caller's identity. -/
  keyHash : JsString
  /-- The clock that it read. -/
  now : ℕ
  deriving DecidableEq

/-- A call that has ended, with its answer. -/
structure RateLimitAnswer where
  /-- The call. -/
  call : RateLimitCall
  /-- What it returned, or why it threw. -/
  result : Except RateLimitError ConsumeRateLimitResult

/-- Whether a call is answered allowed. -/
def RateLimitAnswer.allowed (answer : RateLimitAnswer) : Bool :=
  match answer.result with
  | .ok result => result.allowed
  | .error _ => false

/-- The state that the processes share, and the calls and cleanups in flight. -/
structure LimiterState where
  /-- The clock, in milliseconds. -/
  clock : ℕ
  /-- The table. -/
  buckets : List RateLimitBucket
  /-- The calls that have read the clock and not reached the table. -/
  calls : List RateLimitCall
  /-- The clocks that the cleanups have read that have not reached the table. -/
  cleanups : List ℕ
  /-- The calls that have ended, in the order of their upserts. -/
  answers : List RateLimitAnswer

/-- The state at a time, before any call. -/
def LimiterState.initial (clock : ℕ) : LimiterState := ⟨clock, [], [], [], []⟩

/-- A step. -/
inductive LimiterStep where
  /-- Time passes. -/
  | tick (milliseconds : ℕ)
  /-- A call checks its input and reads the clock. -/
  | readClock (scope keyHash : JsString)
  /-- A call in flight reaches the table. -/
  | upsert (call : ℕ)
  /-- A cleanup reads the clock. -/
  | readCleanupClock
  /-- A cleanup in flight reaches the table. -/
  | cleanup (cleanup : ℕ)

section

variable (policyOf : JsString → RateLimitPolicy)

/-- The input of a call in a namespace. -/
def inputOf (scope keyHash : JsString) : ConsumeRateLimitInput where
  scope := scope
  keyHash := keyHash
  limit := (policyOf scope).limit
  windowMs := (policyOf scope).windowMs

/-- The row that a call inserts. -/
def RateLimitCall.row (call : RateLimitCall) : RateLimitBucket :=
  newBucket (inputOf policyOf call.scope call.keyHash) call.now

/-- The state after a step. -/
def applyLimiter (s : LimiterState) : LimiterStep → LimiterState
  | .tick milliseconds => { s with clock := s.clock + milliseconds }
  | .readClock scope keyHash =>
    let input := inputOf policyOf scope keyHash
    match checkRateLimitInput input with
    | .error _ => s
    | .ok () => { s with calls := s.calls ++ [⟨scope, keyHash, input.now.getD s.clock⟩] }
  | .upsert i =>
    match s.calls[i]? with
    | none => s
    | some call =>
      match consumeAt (inputOf policyOf call.scope call.keyHash) call.now s.buckets with
      | .error error =>
        { s with calls := s.calls.eraseIdx i, answers := s.answers ++ [⟨call, .error error⟩] }
      | .ok (result, buckets) =>
        { s with
          buckets := buckets
          calls := s.calls.eraseIdx i
          answers := s.answers ++ [⟨call, .ok result⟩] }
  | .readCleanupClock => { s with cleanups := s.cleanups ++ [s.clock] }
  | .cleanup i =>
    match s.cleanups[i]? with
    | none => s
    | some now =>
      { s with
        buckets := (cleanupExpiredRateLimitBuckets now s.buckets).2
        cleanups := s.cleanups.eraseIdx i }

/-! ## The limits -/

/-- The answers to the calls whose clock reading falls in a window, under a key. -/
def answersOf (s : LimiterState) (key : BucketKey) : List RateLimitAnswer :=
  s.answers.filter fun answer => decide ((answer.call.row policyOf).key = key)

/-- Of the calls in a window at most as many as the limit are allowed, and the first ones are. -/
def NeverOverAdmits (s : LimiterState) : Prop :=
  ∀ key : BucketKey,
    (answersOf policyOf s key).countP (·.allowed) ≤ (policyOf key.1).limit.toNat ∧
    ∀ answer ∈ (answersOf policyOf s key).take (policyOf key.1).limit.toNat, answer.allowed = true

/-- A step is orderly in a state. A call reaches the table while the end of its window is a date and
its count, if it may still be allowed, is not at its greatest. A cleanup deletes the row of no call
in flight. -/
def LimiterStep.Orderly (s : LimiterState) : LimiterStep → Prop
  | .upsert i => ∀ call ∈ s.calls[i]?, (call.row policyOf).expiresAt ≤ maxDate ∧
      ((policyOf call.scope).limit ≤ maxInteger ∨
        countOf s.buckets (call.row policyOf).key < maxInteger)
  | .cleanup i => ∀ now ∈ s.cleanups[i]?, ∀ bucket ∈ s.buckets, bucket.expiresAt ≤ now →
      ∀ call ∈ s.calls, (call.row policyOf).key ≠ bucket.key
  | _ => True

/-- A window has ended, and no call in it is in flight. -/
def Closed (s : LimiterState) (key : BucketKey) : Prop :=
  key.2.2 + (policyOf key.1).windowMs.toNat ≤ s.clock ∧
    ∀ call ∈ s.calls, (call.row policyOf).key ≠ key

/-- The invariant of orderly runs. -/
structure LimiterInv (s : LimiterState) : Prop where
  /-- The calls in flight have read the clock, and have a window. -/
  calls : ∀ call ∈ s.calls, call.now ≤ s.clock ∧ 0 < (policyOf call.scope).windowMs
  /-- The cleanups in flight have read the clock. -/
  cleanups : ∀ now ∈ s.cleanups, now ≤ s.clock
  /-- The rows end with their windows. -/
  rows : ∀ bucket ∈ s.buckets,
    bucket.expiresAt = bucket.windowStart + (policyOf bucket.scope).windowMs.toNat
  /-- The first calls in a window are allowed, up to the limit, and no others. -/
  answers : ∀ key : BucketKey, (answersOf policyOf s key).map (·.allowed) =
    (List.range (answersOf policyOf s key).length).map fun i =>
      decide (i < (policyOf key.1).limit.toNat)
  /-- The row of a window that is not closed counts the calls in it. -/
  counts : ∀ key : BucketKey,
    countOf s.buckets key = min (answersOf policyOf s key).length maxInteger ∨
      Closed policyOf s key

variable {policyOf} {s : LimiterState}

/-- Of the first numbers, those below a bound are counted. -/
theorem countP_range_lt (n bound : ℕ) :
    (List.range n).countP (fun i => decide (i < bound)) = min n bound := by
  induction n with
  | zero => simp
  | succ n ih =>
    rw [List.range_succ, List.countP_append, ih, List.countP_singleton]
    by_cases h : n < bound
    · rw [decide_eq_true h, if_pos rfl]
      omega
    · rw [decide_eq_false h, if_neg Bool.false_ne_true]
      omega

/-- The invariant gives the limits. -/
theorem LimiterInv.neverOverAdmits (h : LimiterInv policyOf s) : NeverOverAdmits policyOf s := by
  intro key
  have hanswers := h.answers key
  generalize answersOf policyOf s key = answers at hanswers
  generalize (policyOf key.1).limit.toNat = limit at hanswers
  have hallowed : ∀ i (hi : i < answers.length), answers[i].allowed = decide (i < limit) := by
    intro i hi
    have hget := congrArg (fun l => l[i]?) hanswers
    simpa [hi] using hget
  constructor
  · have hcount : answers.countP (·.allowed) = (answers.map (·.allowed)).countP id := by
      rw [List.countP_map]
      rfl
    rw [hcount, hanswers, List.countP_map]
    exact (countP_range_lt answers.length limit).le.trans (min_le_right _ _)
  · intro answer hanswer
    obtain ⟨i, hi, rfl⟩ := List.mem_take_iff_getElem.mp hanswer
    rw [hallowed i (by omega)]
    exact decide_eq_true (by omega)

/-- Runs start in the invariant. -/
theorem limiterInv_initial (clock : ℕ) : LimiterInv policyOf (LimiterState.initial clock) where
  calls _ h := absurd h List.not_mem_nil
  cleanups _ h := absurd h List.not_mem_nil
  rows _ h := absurd h List.not_mem_nil
  answers _ := rfl
  counts _ := .inl rfl

/-! ## The steps keep the invariant -/

/-- Time that passes keeps the invariant. -/
theorem LimiterInv.tick (h : LimiterInv policyOf s) (milliseconds : ℕ) :
    LimiterInv policyOf { s with clock := s.clock + milliseconds } where
  calls call hcall := ⟨(h.calls call hcall).1.trans (Nat.le_add_right _ _), (h.calls call hcall).2⟩
  cleanups now hnow := (h.cleanups now hnow).trans (Nat.le_add_right _ _)
  rows := h.rows
  answers := h.answers
  counts key := (h.counts key).imp id fun hclosed =>
    ⟨hclosed.1.trans (Nat.le_add_right _ _), hclosed.2⟩

/-- A window holds the times in it. -/
theorem lt_windowEnd {windowMs : ℤ} (h : 0 < windowMs) (now : ℕ) :
    now < windowStartMs windowMs now + windowMs.toNat := by
  have hpos : 0 < windowMs.toNat := by omega
  have hdiv := Nat.div_add_mod now windowMs.toNat
  have hmod := Nat.mod_lt now hpos
  rw [windowStartMs, mul_comm]
  omega

/-- A call that reads the clock is in a window that has not ended. -/
theorem LimiterInv.readClock (h : LimiterInv policyOf s) {scope keyHash : JsString}
    (hwindow : 0 < (policyOf scope).windowMs) :
    LimiterInv policyOf { s with calls := s.calls ++ [⟨scope, keyHash, s.clock⟩] } where
  calls call hcall := by
    rcases List.mem_append.mp hcall with hcall | hcall
    · exact h.calls call hcall
    · rw [List.mem_singleton.mp hcall]
      exact ⟨le_rfl, hwindow⟩
  cleanups := h.cleanups
  rows := h.rows
  answers := h.answers
  counts key := by
    refine (h.counts key).imp id fun hclosed => ⟨hclosed.1, fun call hcall => ?_⟩
    rcases List.mem_append.mp hcall with hcall | hcall
    · exact hclosed.2 call hcall
    · rw [List.mem_singleton.mp hcall]
      rintro rfl
      exact absurd hclosed.1 (not_le.mpr (lt_windowEnd hwindow s.clock))

/-- A cleanup that reads the clock keeps the invariant. -/
theorem LimiterInv.readCleanupClock (h : LimiterInv policyOf s) :
    LimiterInv policyOf { s with cleanups := s.cleanups ++ [s.clock] } where
  calls := h.calls
  cleanups now hnow := by
    rcases List.mem_append.mp hnow with hnow | hnow
    · exact h.cleanups now hnow
    · exact (List.mem_singleton.mp hnow).le
  rows := h.rows
  answers := h.answers
  counts := h.counts

/-- A cleanup that deletes the row of no call in flight closes the windows whose rows it deletes. -/
theorem LimiterInv.cleanup (h : LimiterInv policyOf s) {i now : ℕ} (hnow : s.cleanups[i]? = some now)
    (horderly : ∀ bucket ∈ s.buckets, bucket.expiresAt ≤ now →
      ∀ call ∈ s.calls, (call.row policyOf).key ≠ bucket.key) :
    LimiterInv policyOf { s with
      buckets := (cleanupExpiredRateLimitBuckets now s.buckets).2
      cleanups := s.cleanups.eraseIdx i } where
  calls := h.calls
  cleanups other hother := h.cleanups other (List.mem_of_mem_eraseIdx hother)
  rows bucket hbucket := h.rows bucket (List.mem_filter.mp hbucket).1
  answers := h.answers
  counts key := by
    have hends : ∀ bucket ∈ s.buckets, bucket.key = key →
        bucket.expiresAt = key.2.2 + (policyOf key.1).windowMs.toNat := by
      rintro bucket hbucket rfl
      exact h.rows bucket hbucket
    rw [countOf_cleanup hends]
    split_ifs with hended
    · by_cases hrow : ∃ bucket ∈ s.buckets, bucket.key = key
      · obtain ⟨bucket, hbucket, hkey⟩ := hrow
        refine .inr ⟨hended.trans (h.cleanups now (List.mem_of_getElem? hnow)), ?_⟩
        intro call hcall
        rw [← hkey]
        exact horderly bucket hbucket ((hends bucket hbucket hkey).le.trans hended) call hcall
      · -- Without a row there is nothing to delete.
        have hnone : countOf s.buckets key = 0 := by
          rw [countOf, List.find?_eq_none.mpr]
          · rfl
          · intro bucket hbucket hkey
            exact hrow ⟨bucket, hbucket, of_decide_eq_true hkey⟩
        rw [← hnone]
        exact h.counts key
    · exact h.counts key

/-- The answers under a key after one more call. -/
theorem answersOf_append (s : LimiterState) (key : BucketKey) (answer : RateLimitAnswer)
    {t : LimiterState} (ht : t.answers = s.answers ++ [answer]) :
    answersOf policyOf t key = answersOf policyOf s key ++
      if (answer.call.row policyOf).key = key then [answer] else [] := by
  rw [answersOf, ht, List.filter_append, answersOf, List.filter_singleton]
  by_cases hkey : (answer.call.row policyOf).key = key <;> simp [hkey]

/-- What a call in flight does to the table, in terms of its row. -/
theorem consumeAt_row {call : RateLimitCall} (hdate : (call.row policyOf).expiresAt ≤ maxDate)
    (buckets : List RateLimitBucket) :
    (countOf buckets (call.row policyOf).key < maxInteger ∧ ∃ result next,
      consumeAt (inputOf policyOf call.scope call.keyHash) call.now buckets =
        .ok (result, next) ∧
      result.allowed =
        decide (countOf buckets (call.row policyOf).key < (policyOf call.scope).limit.toNat) ∧
      (∀ key, countOf next key = if key = (call.row policyOf).key then countOf buckets key + 1
        else countOf buckets key) ∧
      ∀ bucket ∈ next, bucket ∈ buckets ∨ bucket.key = (call.row policyOf).key ∧
        bucket.expiresAt = (call.row policyOf).expiresAt) ∨
    (consumeAt (inputOf policyOf call.scope call.keyHash) call.now buckets =
        .error .integerOutOfRange ∧
      maxInteger ≤ countOf buckets (call.row policyOf).key) :=
  consumeAt_cases hdate buckets

/-- A call in flight that ends keeps the invariant if it is allowed as its place among the calls in
its window says, and is counted. -/
theorem LimiterInv.answered (h : LimiterInv policyOf s) (i : ℕ) {call : RateLimitCall}
    {result : Except RateLimitError ConsumeRateLimitResult} {next : List RateLimitBucket}
    (hallowed : (RateLimitAnswer.mk call result).allowed =
      decide ((answersOf policyOf s (call.row policyOf).key).length <
        (policyOf call.scope).limit.toNat))
    (hrows : ∀ bucket ∈ next, bucket ∈ s.buckets ∨ bucket.key = (call.row policyOf).key ∧
      bucket.expiresAt = (call.row policyOf).expiresAt)
    (hcounts : ∀ key, countOf next key = if key = (call.row policyOf).key then
      min ((answersOf policyOf s key).length + 1) maxInteger else countOf s.buckets key) :
    LimiterInv policyOf { s with
      buckets := next
      calls := s.calls.eraseIdx i
      answers := s.answers ++ [⟨call, result⟩] } where
  calls other hother := h.calls other (List.mem_of_mem_eraseIdx hother)
  cleanups := h.cleanups
  rows bucket hbucket := by
    rcases hrows bucket hbucket with hbucket | ⟨hkey, hexpires⟩
    · exact h.rows bucket hbucket
    · obtain ⟨hscope, hrest⟩ := Prod.mk.inj hkey
      obtain ⟨-, hstart⟩ := Prod.mk.inj hrest
      rw [hexpires, hscope, hstart]
      rfl
  answers key := by
    rw [answersOf_append s key ⟨call, result⟩ rfl]
    split_ifs with hkey
    · subst hkey
      rw [List.map_append, h.answers, List.length_append, List.length_singleton, List.range_succ,
        List.map_append, List.map_singleton, List.map_singleton, hallowed]
      rfl
    · rw [List.append_nil]
      exact h.answers key
  counts key := by
    rw [answersOf_append s key ⟨call, result⟩ rfl, hcounts]
    by_cases hkey : (call.row policyOf).key = key
    · left
      rw [if_pos hkey.symm, if_pos hkey, List.length_append, List.length_singleton]
    · rw [if_neg (Ne.symm hkey), if_neg hkey, List.append_nil]
      exact (h.counts key).imp id fun hclosed =>
        ⟨hclosed.1, fun other hother => hclosed.2 other (List.mem_of_mem_eraseIdx hother)⟩

/-- A call that reaches the table in orderly fashion keeps the invariant. -/
theorem LimiterInv.upsert (h : LimiterInv policyOf s) {i : ℕ}
    (horderly : (LimiterStep.upsert i).Orderly policyOf s) :
    LimiterInv policyOf (applyLimiter policyOf s (.upsert i)) := by
  rw [applyLimiter]
  split
  · exact h
  · next call hcall =>
    obtain ⟨hdate, hlimit⟩ := horderly call hcall
    have hcount : countOf s.buckets (call.row policyOf).key =
        min (answersOf policyOf s (call.row policyOf).key).length maxInteger :=
      (h.counts _).resolve_right fun hclosed =>
        hclosed.2 call (List.mem_of_getElem? hcall) rfl
    have hothers : ∀ key, key ≠ (call.row policyOf).key → countOf s.buckets key =
        if key = (call.row policyOf).key then
          min ((answersOf policyOf s key).length + 1) maxInteger else countOf s.buckets key :=
      fun key hkey => (if_neg hkey).symm
    rcases consumeAt_row hdate s.buckets with
      ⟨hfree, result, next, hok, hallowed, hcounts, hrows⟩ | ⟨herror, hfull⟩
    · rw [hok]
      refine h.answered i ?_ hrows fun key => ?_
      · rw [RateLimitAnswer.allowed]
        dsimp only
        rw [hallowed, decide_eq_decide]
        omega
      · rw [hcounts]
        by_cases hkey : key = (call.row policyOf).key
        · subst hkey
          rw [if_pos rfl, if_pos rfl]
          omega
        · exact (if_neg hkey).trans (hothers key hkey)
    · rw [herror]
      refine h.answered i ?_ (fun bucket hbucket => .inl hbucket) fun key => ?_
      · rw [RateLimitAnswer.allowed]
        refine (decide_eq_false ?_).symm
        omega
      · by_cases hkey : key = (call.row policyOf).key
        · subst hkey
          rw [if_pos rfl]
          omega
        · exact hothers key hkey

/-- Every orderly step keeps the invariant. -/
theorem LimiterInv.apply (h : LimiterInv policyOf s) {step : LimiterStep}
    (horderly : step.Orderly policyOf s) : LimiterInv policyOf (applyLimiter policyOf s step) := by
  cases step with
  | tick milliseconds => exact h.tick milliseconds
  | readClock scope keyHash =>
    rw [applyLimiter]
    split
    · exact h
    · next hcheck =>
      refine h.readClock ?_
      rw [checkRateLimitInput] at hcheck
      split_ifs at hcheck with _ _ hwindow
      exact not_le.mp (not_or.mp hwindow).2
  | upsert i => exact h.upsert horderly
  | readCleanupClock => exact h.readCleanupClock
  | cleanup i =>
    rw [applyLimiter]
    split
    · exact h
    · next now hnow => exact h.cleanup hnow (horderly now hnow)

end

/-- One call in a second, in every namespace. -/
def oneInASecond : JsString → RateLimitPolicy := fun _ => ⟨1, 1000⟩

end T3x.Storage
