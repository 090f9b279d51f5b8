import T3x.Js.Str
import T3x.Table

/-!
# Rate limits

Calls under a key are counted in fixed windows of time, one row of a table for
each key and window. A call reads the clock, which gives its window, and then
counts itself in one upsert. A cleanup reads the clock too, and then deletes the
rows whose windows have ended.
-/

namespace T3x.Storage

open Js

/-! ## Rows -/

/-- A row of `rate_limit_buckets`. Times are in milliseconds. -/
structure RateLimitBucket where
  /-- The namespace of the policy. -/
  scope : JsString
  /-- The hash of the caller's identity. -/
  keyHash : JsString
  /-- When the window starts. -/
  windowStart : ℕ
  /-- The calls that are counted. -/
  count : ℕ
  /-- When the window ends. -/
  expiresAt : ℕ
  /-- The clock of the last call that was counted. -/
  updatedAt : ℕ
  deriving DecidableEq

/-- The primary key: the namespace, the identity and the window. -/
abbrev BucketKey := JsString × JsString × ℕ

/-- The primary key of a row. -/
def RateLimitBucket.key (bucket : RateLimitBucket) : BucketKey :=
  (bucket.scope, bucket.keyHash, bucket.windowStart)

/-- The greatest value of a column of type `integer`. -/
def maxInteger : ℕ := 2 ^ 31 - 1

/-- The greatest time of a `Date`. -/
def maxDate : ℕ := 8640000000000000

/-! ## Calls -/

/-- `ConsumeRateLimitInput`. -/
structure ConsumeRateLimitInput where
  /-- The namespace of the policy. -/
  scope : JsString
  /-- The hash of the caller's identity. -/
  keyHash : JsString
  /-- The calls that a window allows. -/
  limit : ℤ
  /-- The length of a window. -/
  windowMs : ℤ
  /-- The time of the call, if it is not read off the clock. -/
  now : Option ℕ := none
  deriving DecidableEq

/-- `ConsumeRateLimitResult`. -/
structure ConsumeRateLimitResult where
  /-- Whether the call is allowed. -/
  allowed : Bool
  /-- The calls that are counted in the window. -/
  count : ℕ
  /-- The calls that the window still allows. -/
  remaining : ℤ
  /-- When the window ends. -/
  resetAt : ℕ
  deriving DecidableEq

/-- Why a call throws. -/
inductive RateLimitError where
  /-- `Rate-limit scope and keyHash are required`. -/
  | keyRequired
  /-- `Rate-limit limit must be a positive integer`. -/
  | limitInvalid
  /-- `Rate-limit windowMs must be a positive integer`. -/
  | windowInvalid
  /-- A `Date` that is out of range. -/
  | invalidDate
  /-- A count that is out of the range of its column. -/
  | integerOutOfRange
  deriving DecidableEq

/-- `Number.isSafeInteger(n)` for an integer. -/
def isSafeInteger (n : ℤ) : Bool := decide (-(2 ^ 53 - 1) ≤ n ∧ n ≤ 2 ^ 53 - 1)

/-- The checks of `consumeRateLimit`. -/
def checkRateLimitInput (input : ConsumeRateLimitInput) : Except RateLimitError Unit :=
  if input.scope = [] ∨ input.keyHash = [] then .error .keyRequired
  else if isSafeInteger input.limit = false ∨ input.limit ≤ 0 then .error .limitInvalid
  else if isSafeInteger input.windowMs = false ∨ input.windowMs ≤ 0 then .error .windowInvalid
  else .ok ()

/-- The start of the window of a time. -/
def windowStartMs (windowMs : ℤ) (now : ℕ) : ℕ := now / windowMs.toNat * windowMs.toNat

/-- The row of a call at a time, as it is inserted. -/
def newBucket (input : ConsumeRateLimitInput) (now : ℕ) : RateLimitBucket where
  scope := input.scope
  keyHash := input.keyHash
  windowStart := windowStartMs input.windowMs now
  count := 1
  expiresAt := windowStartMs input.windowMs now + input.windowMs.toNat
  updatedAt := now

/-- The row of a key with one more call, at the time of the row that was to be inserted. -/
def recount (row bucket : RateLimitBucket) : RateLimitBucket :=
  { bucket with
    count := bucket.count + 1, expiresAt := row.expiresAt, updatedAt := row.updatedAt }

/-- The upsert: a new row is inserted, or one more call is counted in the row of the key. It gives
the count that is returned. -/
def upsertBucket (row : RateLimitBucket) (buckets : List RateLimitBucket) :
    Except RateLimitError (ℕ × List RateLimitBucket) :=
  match buckets.find? fun bucket => decide (bucket.key = row.key) with
  | none => .ok (row.count, buckets ++ [row])
  | some bucket =>
    if maxInteger ≤ bucket.count then .error .integerOutOfRange
    else .ok (bucket.count + 1,
      Table.update (fun bucket => decide (bucket.key = row.key)) (recount row) buckets)

/-- What `consumeRateLimit` does once it has the time: the upsert and the answer. -/
def consumeAt (input : ConsumeRateLimitInput) (now : ℕ) (buckets : List RateLimitBucket) :
    Except RateLimitError (ConsumeRateLimitResult × List RateLimitBucket) :=
  let row := newBucket input now
  if maxDate < row.expiresAt then .error .invalidDate
  else (upsertBucket row buckets).map fun (count, buckets) =>
    ({ allowed := decide ((count : ℤ) ≤ input.limit)
       count := count
       remaining := max 0 (input.limit - count)
       resetAt := row.expiresAt }, buckets)

/-- `cleanupExpiredRateLimitBuckets(db, now)`: the number of rows that are deleted, and the rest. -/
def cleanupExpiredRateLimitBuckets (now : ℕ) (buckets : List RateLimitBucket) :
    ℕ × List RateLimitBucket :=
  (buckets.countP fun bucket => decide (bucket.expiresAt ≤ now),
    buckets.filter fun bucket => !decide (bucket.expiresAt ≤ now))

/-! ## The count of a window -/

/-- The count in the row of a key, zero where there is none. -/
def countOf (buckets : List RateLimitBucket) (key : BucketKey) : ℕ :=
  ((buckets.find? fun bucket => decide (bucket.key = key)).map (·.count)).getD 0

/-- The first row of a key among rows some of which are counted once more. -/
theorem find?_recount (row : RateLimitBucket) (cond : RateLimitBucket → Bool) (key : BucketKey)
    (buckets : List RateLimitBucket) :
    (Table.update cond (recount row) buckets).find? (fun bucket => decide (bucket.key = key)) =
      (buckets.find? fun bucket => decide (bucket.key = key)).map fun bucket =>
        if cond bucket then recount row bucket else bucket := by
  rw [Table.update, List.find?_map]
  have hkey : ((fun bucket : RateLimitBucket => decide (bucket.key = key)) ∘ fun bucket =>
      if cond bucket then recount row bucket else bucket) =
        fun bucket => decide (bucket.key = key) := by
    funext bucket
    simp only [Function.comp_apply]
    split_ifs <;> rfl
  rw [hkey]

/-- An upsert counts one more call under its key, and none under others. It fails only where the
count is at its greatest. -/
theorem upsertBucket_cases {row : RateLimitBucket} (hrow : row.count = 1)
    (buckets : List RateLimitBucket) :
    (countOf buckets row.key < maxInteger ∧
      ∃ next, upsertBucket row buckets = .ok (countOf buckets row.key + 1, next) ∧
      (∀ key, countOf next key = if key = row.key then countOf buckets key + 1
        else countOf buckets key) ∧
      ∀ bucket ∈ next, bucket ∈ buckets ∨
        bucket.key = row.key ∧ bucket.expiresAt = row.expiresAt) ∨
    (upsertBucket row buckets = .error .integerOutOfRange ∧
      maxInteger ≤ countOf buckets row.key) := by
  unfold upsertBucket
  split
  · next hnone =>
    have hcount : countOf buckets row.key = 0 := by rw [countOf, hnone]; rfl
    have hmax : 0 < maxInteger := by decide
    refine .inl ⟨hcount ▸ hmax, _, by rw [hcount, hrow], fun key => ?_, fun bucket hbucket => ?_⟩
    · simp only [countOf, List.find?_append]
      by_cases hkey : key = row.key
      · subst hkey
        simp [hnone, hrow]
      · simp [hkey, Ne.symm hkey]
    · rcases List.mem_append.mp hbucket with hbucket | hbucket
      · exact .inl hbucket
      · rw [List.mem_singleton.mp hbucket]
        exact .inr ⟨rfl, rfl⟩
  · next bucket hbucket =>
    have hcount : countOf buckets row.key = bucket.count := by rw [countOf, hbucket]; rfl
    split_ifs with hfull
    · exact .inr ⟨rfl, hcount ▸ hfull⟩
    · refine .inl ⟨hcount ▸ not_le.mp hfull, _, by rw [hcount], fun key => ?_,
        fun other hother => ?_⟩
      · rw [countOf, find?_recount, Option.map_map]
        by_cases hkey : key = row.key
        · subst hkey
          rw [hbucket, if_pos rfl, hcount]
          have hbucketKey : bucket.key = row.key := by simpa using List.find?_some hbucket
          simp [hbucketKey, recount]
        · rw [if_neg hkey, countOf]
          cases hother : buckets.find? fun bucket => decide (bucket.key = key) with
          | none => rfl
          | some other =>
            have hotherKey : other.key = key := by simpa using List.find?_some hother
            simp [hotherKey, hkey]
      · obtain ⟨old, hold, rfl⟩ := Table.mem_update.mp hother
        split_ifs with hkey
        · exact .inr ⟨of_decide_eq_true hkey, rfl⟩
        · exact .inl hold

/-- A call at a time whose window ends within the range of dates counts itself, and is allowed if
the count is within the limit. It fails only where the count is at its greatest. -/
theorem consumeAt_cases {input : ConsumeRateLimitInput} {now : ℕ}
    (hdate : (newBucket input now).expiresAt ≤ maxDate) (buckets : List RateLimitBucket) :
    (countOf buckets (newBucket input now).key < maxInteger ∧
      ∃ result next, consumeAt input now buckets = .ok (result, next) ∧
      result.allowed = decide (countOf buckets (newBucket input now).key < input.limit.toNat) ∧
      (∀ key, countOf next key = if key = (newBucket input now).key then countOf buckets key + 1
        else countOf buckets key) ∧
      ∀ bucket ∈ next, bucket ∈ buckets ∨ bucket.key = (newBucket input now).key ∧
        bucket.expiresAt = (newBucket input now).expiresAt) ∨
    (consumeAt input now buckets = .error .integerOutOfRange ∧
      maxInteger ≤ countOf buckets (newBucket input now).key) := by
  unfold consumeAt
  dsimp only
  rw [if_neg (not_lt.mpr hdate)]
  rcases upsertBucket_cases (show (newBucket input now).count = 1 from rfl) buckets with
    ⟨hfree, next, hnext, hcounts, hrows⟩ | ⟨herror, hfull⟩
  · refine .inl ⟨hfree, _, next, by rw [hnext]; rfl, ?_, hcounts, hrows⟩
    rw [decide_eq_decide]
    push_cast
    omega
  · exact .inr ⟨by rw [herror]; rfl, hfull⟩

/-- A cleanup keeps the count of a key whose row does not end by the time, and leaves none where
the row does. -/
theorem countOf_cleanup {buckets : List RateLimitBucket} {now : ℕ} {key : BucketKey} {ends : ℕ}
    (hends : ∀ bucket ∈ buckets, bucket.key = key → bucket.expiresAt = ends) :
    countOf (cleanupExpiredRateLimitBuckets now buckets).2 key =
      if ends ≤ now then 0 else countOf buckets key := by
  rw [countOf, cleanupExpiredRateLimitBuckets, List.find?_filter]
  split_ifs with hended
  · rw [List.find?_eq_none.mpr]
    · rfl
    · intro bucket hbucket hkey
      simp only [Bool.not_eq_true', decide_eq_false_iff_not, decide_eq_true_iff] at hkey
      exact hkey.1 ((hends bucket hbucket hkey.2).le.trans hended)
  · rw [countOf]
    congr 2
    refine List.find?_congr fun bucket hbucket => ?_
    by_cases hkey : bucket.key = key
    · simp [hkey, hends bucket hbucket hkey, hended]
    · simp [hkey]

end T3x.Storage
