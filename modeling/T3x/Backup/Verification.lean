import T3x.Backup.Records

/-!
# Verifying a project archive

Every payload is read chunk by chunk, within bounds on the bytes of an entry
and of all entries. Its length, its digest and its records are checked. An entry
that fails leaves the later ones to be checked, but behind one that is over the
bounds nothing is read.
-/

namespace T3x.Backup

open Js

/-! ## Limits -/

/-- `ProjectArchiveVerificationLimits`. -/
structure ProjectArchiveVerificationLimits where
  /-- The most bytes of an entry. -/
  maxEntryBytes : Option JsNumber := none
  /-- The most bytes of all entries. -/
  maxTotalBytes : Option JsNumber := none
  /-- The most bytes of a record. -/
  maxRecordBytes : Option JsNumber := none

/-- The limits of a verification, with the defaults put in. -/
structure Bounds where
  /-- `maxEntryBytes`. -/
  maxEntryBytes : ℕ
  /-- `maxTotalBytes`. -/
  maxTotalBytes : ℕ
  /-- `maxRecordBytes`. -/
  maxRecordBytes : ℕ

/-- A limit or its default, if it is a positive safe integer. -/
def limitOf (value : Option JsNumber) (default : ℕ) : Option ℕ :=
  match value with
  | none => some default
  | some n =>
    if isPositiveSafeInteger (some (.num n)) = true then some (countOf (.num n)) else none

/-- The bounds that limits stand for. -/
def boundsOf (limits : ProjectArchiveVerificationLimits) : Option Bounds :=
  match limitOf limits.maxEntryBytes (256 * 1024 * 1024),
    limitOf limits.maxTotalBytes (1024 * 1024 * 1024),
    limitOf limits.maxRecordBytes (4 * 1024 * 1024) with
  | some maxEntryBytes, some maxTotalBytes, some maxRecordBytes =>
    some ⟨maxEntryBytes, maxTotalBytes, maxRecordBytes⟩
  | _, _, _ => none

/-! ## Verification -/

/-- The variables of the loop over the chunks of an entry. -/
structure EntryReading where
  /-- The bytes that `digest` was updated with. -/
  hashed : List UInt8
  /-- `entryBytes`. -/
  entryBytes : ℕ
  /-- `records`. -/
  records : RecordState
  /-- `recordError`. -/
  recordError : Option JsString

/-- The variables of the loop over the entries. -/
structure VerificationState where
  /-- `verifiedEntries`. -/
  verifiedEntries : ℕ
  /-- `totalBytes`. -/
  totalBytes : ℕ
  /-- `errors`. -/
  errors : List JsString

/-- `ProjectArchiveVerificationResult`. -/
structure ProjectArchiveVerificationResult where
  /-- Nothing was found wrong. -/
  valid : Bool
  /-- What was found wrong. -/
  errors : List JsString
  /-- The manifest, if it is valid. -/
  manifest : Option ProjectArchiveManifestV1
  /-- How many entries were verified. -/
  verifiedEntries : ℕ
  /-- How many bytes were read. -/
  totalBytes : ℕ

/-- The records are written a chunk until there is an error. -/
def EntryReading.writeRecords (reading : EntryReading) (entry : ProjectArchiveEntryDescriptor)
    (maxRecordBytes : ℕ) (chunk : List UInt8) : EntryReading :=
  match reading.recordError with
  | some _ => reading
  | none =>
    match write entry maxRecordBytes reading.records chunk with
    | .ok records => { reading with records }
    | .error message => { reading with recordError := some message }

/-- The loop over the chunks of an entry. -/
def readChunks (entry : ProjectArchiveEntryDescriptor) (bounds : Bounds) (reading : EntryReading) :
    List (List UInt8) → Except JsString EntryReading
  | [] => .ok reading
  | chunk :: chunks =>
    let entryBytes := reading.entryBytes + chunk.length
    if entryBytes > entry.bytes ∨ entryBytes > bounds.maxEntryBytes then
      .error (js "entry exceeds its declared or configured byte bound")
    else
      let read := { reading with hashed := reading.hashed ++ chunk, entryBytes }
      readChunks entry bounds (read.writeRecords entry bounds.maxRecordBytes chunk) chunks

/-- An error at an entry. -/
def VerificationState.fail (state : VerificationState) (entry : ProjectArchiveEntryDescriptor)
    (message : JsString) : VerificationState :=
  { state with errors := state.errors ++ [js entry.kind.path ++ message] }

/-- What the loop over the entries does with one that is within the bounds. -/
def verifyEntry (sha256 : List UInt8 → JsString) (bounds : Bounds) (chunks : List (List UInt8))
    (state : VerificationState) (entry : ProjectArchiveEntryDescriptor) : VerificationState :=
  match readChunks entry bounds ⟨[], 0, .fresh 0, none⟩ chunks with
  | .error message => state.fail entry (js ": " ++ message)
  | .ok reading =>
    let state := { state with totalBytes := state.totalBytes + reading.entryBytes }
    if reading.entryBytes ≠ entry.bytes then
      state.fail entry (js ": byte length does not match the manifest")
    else if sha256 reading.hashed ≠ entry.hex then
      state.fail entry (js ": SHA-256 digest does not match the manifest")
    else
      match reading.recordError with
      | some message => state.fail entry (js ": " ++ message)
      | none =>
        match finish entry reading.records with
        | .error message => state.fail entry (js ": " ++ message)
        | .ok () => { state with verifiedEntries := state.verifiedEntries + 1 }

/-- Whether an entry is over the bounds, behind so many bytes. -/
def Exceeds (bounds : Bounds) (totalBytes : ℕ) (entry : ProjectArchiveEntryDescriptor) : Prop :=
  entry.bytes > bounds.maxEntryBytes ∨ totalBytes + entry.bytes > bounds.maxTotalBytes

instance (bounds : Bounds) (totalBytes : ℕ) (entry : ProjectArchiveEntryDescriptor) :
    Decidable (Exceeds bounds totalBytes entry) := by unfold Exceeds; infer_instance

/-- The loop over the entries, which ends at the first over the bounds. -/
def verifyEntries (sha256 : List UInt8 → JsString) (readEntry : JsString → List (List UInt8))
    (bounds : Bounds) (state : VerificationState) :
    List ProjectArchiveEntryDescriptor → VerificationState
  | [] => state
  | entry :: entries =>
    if Exceeds bounds state.totalBytes entry then
      state.fail entry (js " exceeds the configured verification bounds")
    else
      verifyEntries sha256 readEntry bounds
        (verifyEntry sha256 bounds (readEntry (js entry.kind.path)) state entry) entries

/-- `verifyProjectArchive(input, readEntry, limits)`. The reader gives the chunks of a payload. -/
def verifyProjectArchive (sha256 : List UInt8 → JsString) (readOther : JsString → Option ℤ)
    (input : JsValue) (readEntry : JsString → List (List UInt8))
    (limits : ProjectArchiveVerificationLimits) : ProjectArchiveVerificationResult :=
  match validateProjectArchiveManifest sha256 readOther input with
  | .error errors => ⟨false, errors, none, 0, 0⟩
  | .ok manifest =>
    match boundsOf limits with
    | none => ⟨false, [js "verification limits must be positive safe integers"], none, 0, 0⟩
    | some bounds =>
      let state := verifyEntries sha256 readEntry bounds ⟨0, 0, []⟩ manifest.entries
      ⟨state.errors.isEmpty, state.errors, some manifest, state.verifiedEntries, state.totalBytes⟩

/-! ## One entry -/

section

variable {sha256 : List UInt8 → JsString} {bounds : Bounds} {entry : ProjectArchiveEntryDescriptor}

/-- The records of a reading, if nothing was wrong with them. -/
def EntryReading.recordsRead (reading : EntryReading) : Option RecordState :=
  match reading.recordError with
  | some _ => none
  | none => some reading.records

/-- A chunk is written if nothing was wrong before. -/
theorem EntryReading.recordsRead_writeRecords (reading : EntryReading)
    (entry : ProjectArchiveEntryDescriptor) (maxRecordBytes : ℕ) (chunk : List UInt8) :
    (reading.writeRecords entry maxRecordBytes chunk).recordsRead =
      reading.recordsRead.bind fun state => (write entry maxRecordBytes state chunk).toOption := by
  unfold writeRecords
  cases herror : reading.recordError with
  | some message => simp [recordsRead, herror]
  | none =>
    cases hwrite : write entry maxRecordBytes reading.records chunk with
    | error message => simp [recordsRead, herror, hwrite, Except.toOption]
    | ok records => simp [recordsRead, herror, hwrite, Except.toOption]

/-- Writing the records leaves what else was read. -/
theorem EntryReading.writeRecords_frame (reading : EntryReading)
    (entry : ProjectArchiveEntryDescriptor) (maxRecordBytes : ℕ) (chunk : List UInt8) :
    (reading.writeRecords entry maxRecordBytes chunk).hashed =
      reading.hashed ∧
        (reading.writeRecords entry maxRecordBytes chunk).entryBytes = reading.entryBytes := by
  unfold writeRecords
  split
  · exact ⟨rfl, rfl⟩
  · split <;> exact ⟨rfl, rfl⟩

/-- Chunks that are too long together are not read to the end. -/
theorem readChunks_of_exceeds {reading : EntryReading} {chunks : List (List UInt8)}
    (hstart : reading.entryBytes ≤ entry.bytes)
    (h : reading.entryBytes + chunks.flatten.length > entry.bytes) :
    ∃ message, readChunks entry bounds reading chunks = .error message := by
  induction chunks generalizing reading with
  | nil => simp at h; omega
  | cons chunk chunks ih =>
    rw [List.flatten_cons, List.length_append] at h
    unfold readChunks
    dsimp only
    split_ifs with hbound
    · exact ⟨_, rfl⟩
    · refine ih ?_ ?_ <;>
      · rw [(EntryReading.writeRecords_frame _ entry bounds.maxRecordBytes chunk).2]
        dsimp only
        omega

/-- Chunks that are within the bounds are read to the end, as all their bytes in one. -/
theorem readChunks_of_le {reading : EntryReading} {chunks : List (List UInt8)}
    (hentry : reading.entryBytes + chunks.flatten.length ≤ entry.bytes)
    (hbound : entry.bytes ≤ bounds.maxEntryBytes)
    (hrecord : ∀ state ∈ reading.recordsRead, state.bytes ≤ bounds.maxRecordBytes) :
    ∃ read, readChunks entry bounds reading chunks = .ok read ∧
      read.hashed = reading.hashed ++ chunks.flatten ∧
      read.entryBytes = reading.entryBytes + chunks.flatten.length ∧
      read.recordsRead = reading.recordsRead.bind fun state =>
        (write entry bounds.maxRecordBytes state chunks.flatten).toOption := by
  induction chunks generalizing reading with
  | nil =>
    refine ⟨reading, rfl, by simp, by simp, ?_⟩
    cases hread : reading.recordsRead with
    | none => rfl
    | some state => simp [write_nil (hrecord state hread), Except.toOption]
  | cons chunk chunks ih =>
    rw [List.flatten_cons, List.length_append] at hentry
    unfold readChunks
    dsimp only
    rw [if_neg (by omega)]
    generalize hread : ({ reading with
      hashed := reading.hashed ++ chunk
      entryBytes := reading.entryBytes + chunk.length } : EntryReading) = read
    have hrecords : read.recordsRead = reading.recordsRead := by
      rw [← hread]
      rfl
    obtain ⟨hhashed, hbytes⟩ := read.writeRecords_frame entry bounds.maxRecordBytes chunk
    have hwritten := read.recordsRead_writeRecords entry bounds.maxRecordBytes chunk
    have hkept : read.entryBytes = reading.entryBytes + chunk.length := by rw [← hread]
    have hwithin : ∀ state ∈ (read.writeRecords entry bounds.maxRecordBytes chunk).recordsRead,
        state.bytes ≤ bounds.maxRecordBytes := by
      intro state hstate
      rw [hwritten, Option.mem_def] at hstate
      obtain ⟨before, -, hwrite⟩ := Option.bind_eq_some_iff.mp hstate
      cases hok : write entry bounds.maxRecordBytes before chunk with
      | error message =>
        rw [hok] at hwrite
        cases hwrite
      | ok next =>
        rw [hok] at hwrite
        obtain rfl := Option.some.inj hwrite
        exact bytes_of_write hok
    obtain ⟨final, hfinal, hhash, hcount, hfinish⟩ := ih (by rw [hbytes, hkept]; omega) hwithin
    refine ⟨final, hfinal, ?_, ?_, ?_⟩
    · rw [hhash, hhashed, ← hread, List.flatten_cons, List.append_assoc]
    · rw [hcount, hbytes, hkept, List.flatten_cons, List.length_append, Nat.add_assoc]
    · rw [hfinish, hwritten, hrecords, Option.bind_assoc]
      simp only [write_append, List.flatten_cons]

/-- What the payload of an entry has to be: of the length, the digest and the records that the
entry declares. -/
structure IsPayload (sha256 : List UInt8 → JsString) (maxRecordBytes : ℕ)
    (entry : ProjectArchiveEntryDescriptor) (content : List UInt8) : Prop where
  /-- The length. -/
  length : content.length = entry.bytes
  /-- The digest. -/
  digest : sha256 content = entry.hex
  /-- The records. -/
  records : AreRecords entry maxRecordBytes content

/-- The bytes of an entry that are counted: those of a payload that is not too long. -/
def countedBytes (entry : ProjectArchiveEntryDescriptor) (content : List UInt8) : ℕ :=
  if content.length ≤ entry.bytes then content.length else 0

/-- What the verification of an entry changes. -/
structure Verifies (isPayload : Prop) (counted : ℕ) (before after : VerificationState) : Prop where
  /-- A payload is counted as verified. -/
  verified : isPayload → after.verifiedEntries = before.verifiedEntries + 1
  /-- Nothing else is. -/
  unverified : ¬ isPayload → after.verifiedEntries = before.verifiedEntries
  /-- The bytes are counted. -/
  totalBytes : after.totalBytes = before.totalBytes + counted
  /-- There are errors if there were some, or if it is no payload. -/
  errors : after.errors = [] ↔ before.errors = [] ∧ isPayload

/-- An entry at which there is an error is not verified. -/
theorem Verifies.fail {isPayload : Prop} (hnot : ¬ isPayload) (state : VerificationState)
    (counted : ℕ) (message : JsString) :
    Verifies isPayload counted state
      (VerificationState.fail { state with totalBytes := state.totalBytes + counted } entry
        message) where
  verified h := absurd h hnot
  unverified _ := rfl
  totalBytes := rfl
  errors := by simp [VerificationState.fail, hnot]

/-- An entry within the bound is verified exactly if it has its payload, and the chunks do not
matter. -/
theorem verifies_verifyEntry (hbound : entry.bytes ≤ bounds.maxEntryBytes)
    (chunks : List (List UInt8)) (state : VerificationState) :
    Verifies (IsPayload sha256 bounds.maxRecordBytes entry chunks.flatten)
      (countedBytes entry chunks.flatten) state
      (verifyEntry sha256 bounds chunks state entry) := by
  unfold verifyEntry countedBytes
  by_cases hlong : chunks.flatten.length ≤ entry.bytes
  · have hstart : ∀ state ∈ (⟨[], 0, .fresh 0, none⟩ : EntryReading).recordsRead,
        state.bytes ≤ bounds.maxRecordBytes := by
      intro state hstate
      obtain rfl := Option.some.inj hstate
      exact Nat.zero_le _
    obtain ⟨reading, hread, hhashed, hbytes, hrecords⟩ :=
      readChunks_of_le (by simpa using hlong) hbound hstart
    rw [hread, if_pos hlong]
    dsimp only
    rw [hbytes, hhashed, Nat.zero_add, List.nil_append]
    by_cases hlength : chunks.flatten.length = entry.bytes
    · rw [if_neg (not_not.mpr hlength)]
      by_cases hdigest : sha256 chunks.flatten = entry.hex
      · rw [if_neg (not_not.mpr hdigest)]
        have hfinish : (∃ records, reading.recordsRead = some records ∧
            finish entry records = .ok ()) ↔
              IsPayload sha256 bounds.maxRecordBytes entry chunks.flatten := by
          have hiff : IsPayload sha256 bounds.maxRecordBytes entry chunks.flatten ↔
              AreRecords entry bounds.maxRecordBytes chunks.flatten :=
            ⟨IsPayload.records, fun h => ⟨hlength, hdigest, h⟩⟩
          rw [hiff, ← areRecords_iff, hrecords]
          exact exists_congr fun records => and_congr_left fun _ => toOption_eq_some_iff
        cases herror : reading.recordError with
        | some message =>
          refine .fail (fun h => ?_) state _ _
          obtain ⟨records, hread, -⟩ := hfinish.mpr h
          simp [EntryReading.recordsRead, herror] at hread
        | none =>
          have hrecordsRead : reading.recordsRead = some reading.records := by
            simp [EntryReading.recordsRead, herror]
          dsimp only
          cases hdone : finish entry reading.records with
          | error message =>
            refine .fail (fun h => ?_) state _ _
            obtain ⟨records, hread, hok⟩ := hfinish.mpr h
            obtain rfl := Option.some.inj (hrecordsRead.symm.trans hread)
            cases hdone.symm.trans hok
          | ok _ =>
            have hpayload := hfinish.mp ⟨reading.records, hrecordsRead, hdone⟩
            exact ⟨fun _ => rfl, fun h => absurd hpayload h, rfl, (and_iff_left hpayload).symm⟩
      · rw [if_pos hdigest]
        exact .fail (fun h => hdigest h.digest) state _ _
    · rw [if_pos hlength]
      exact .fail (fun h => hlength h.length) state _ _
  · obtain ⟨message, hread⟩ : ∃ message, readChunks entry bounds ⟨[], 0, .fresh 0, none⟩ chunks =
        .error message := readChunks_of_exceeds (Nat.zero_le _) (by simpa using hlong)
    rw [hread, if_neg hlong]
    exact .fail (fun h => hlong h.length.le) state 0 _

end

/-! ## All entries -/

section

variable {sha256 : List UInt8 → JsString} {readEntry : JsString → List (List UInt8)}
  {bounds : Bounds}

/-- The bytes that a reader gives for an entry. -/
def contentOf (readEntry : JsString → List (List UInt8)) (entry : ProjectArchiveEntryDescriptor) :
    List UInt8 :=
  (readEntry (js entry.kind.path)).flatten

/-- The entries that are within the bounds, up to the first that is not, behind so many bytes. -/
def entriesWithin (bounds : Bounds) (content : ProjectArchiveEntryDescriptor → List UInt8) :
    ℕ → List ProjectArchiveEntryDescriptor → List ProjectArchiveEntryDescriptor
  | _, [] => []
  | totalBytes, entry :: entries =>
    if Exceeds bounds totalBytes entry then []
    else entry :: entriesWithin bounds content (totalBytes + countedBytes entry (content entry)) entries

open Classical in
/-- What the verification of all entries changes: the entries within the bounds are verified one by
one, and an entry over them is an error. -/
structure VerifiesAll (sha256 : List UInt8 → JsString) (bounds : Bounds)
    (content : ProjectArchiveEntryDescriptor → List UInt8)
    (entries : List ProjectArchiveEntryDescriptor) (before after : VerificationState) : Prop where
  /-- The payloads among the entries within the bounds are counted as verified. -/
  verified : after.verifiedEntries = before.verifiedEntries +
    (entriesWithin bounds content before.totalBytes entries).countP fun entry =>
      decide (IsPayload sha256 bounds.maxRecordBytes entry (content entry))
  /-- The bytes of the entries within the bounds are counted. -/
  totalBytes : after.totalBytes = before.totalBytes +
    ((entriesWithin bounds content before.totalBytes entries).map fun entry =>
      countedBytes entry (content entry)).sum
  /-- There are no errors if there were none, and every entry is a payload within the bounds. -/
  errors : after.errors = [] ↔ before.errors = [] ∧
    entriesWithin bounds content before.totalBytes entries = entries ∧
      ∀ entry ∈ entries, IsPayload sha256 bounds.maxRecordBytes entry (content entry)

/-- All entries are verified up to the first over the bounds, and the chunks do not matter. -/
theorem verifiesAll_verifyEntries (entries : List ProjectArchiveEntryDescriptor)
    (state : VerificationState) :
    VerifiesAll sha256 bounds (contentOf readEntry) entries state
      (verifyEntries sha256 readEntry bounds state entries) := by
  induction entries generalizing state with
  | nil => exact ⟨rfl, rfl, by simp [verifyEntries, entriesWithin]⟩
  | cons entry entries ih =>
    by_cases hexceeds : Exceeds bounds state.totalBytes entry
    · have hwithin : entriesWithin bounds (contentOf readEntry) state.totalBytes
          (entry :: entries) = [] := if_pos hexceeds
      rw [verifyEntries, if_pos hexceeds]
      refine ⟨?_, ?_, ?_⟩
      · rw [hwithin]
        rfl
      · rw [hwithin]
        rfl
      · simp [hwithin, VerificationState.fail]
    · have hone : Verifies (IsPayload sha256 bounds.maxRecordBytes entry (contentOf readEntry entry))
          (countedBytes entry (contentOf readEntry entry)) state
          (verifyEntry sha256 bounds (readEntry (js entry.kind.path)) state entry) :=
        verifies_verifyEntry (not_lt.mp fun h => hexceeds (.inl h)) _ state
      have hall := ih (verifyEntry sha256 bounds (readEntry (js entry.kind.path)) state entry)
      have hwithin : entriesWithin bounds (contentOf readEntry) state.totalBytes
          (entry :: entries) = entry :: entriesWithin bounds (contentOf readEntry)
            (verifyEntry sha256 bounds (readEntry (js entry.kind.path)) state entry).totalBytes
            entries := by
        rw [entriesWithin, if_neg hexceeds, hone.totalBytes]
      rw [verifyEntries, if_neg hexceeds]
      refine ⟨?_, ?_, ?_⟩
      · rw [hall.verified, hwithin, List.countP_cons]
        by_cases hpayload : IsPayload sha256 bounds.maxRecordBytes entry (contentOf readEntry entry)
        · simp only [hone.verified hpayload, hpayload, decide_true, if_true]
          omega
        · simp [hone.unverified hpayload, hpayload]
      · rw [hall.totalBytes, hwithin, hone.totalBytes, List.map_cons, List.sum_cons, Nat.add_assoc]
      · rw [hall.errors, hone.errors, hwithin, List.cons_inj_right, List.forall_mem_cons]
        tauto

/-- Each entry within the bounds is verified behind those before it. -/
theorem verifies_of_entriesWithin {entries before after : List ProjectArchiveEntryDescriptor}
    {entry : ProjectArchiveEntryDescriptor} {state : VerificationState}
    (h : entriesWithin bounds (contentOf readEntry) state.totalBytes entries =
      before ++ entry :: after) :
    Verifies (IsPayload sha256 bounds.maxRecordBytes entry (contentOf readEntry entry))
      (countedBytes entry (contentOf readEntry entry))
      (verifyEntries sha256 readEntry bounds state before)
      (verifyEntries sha256 readEntry bounds state (before ++ [entry])) := by
  induction entries generalizing state before with
  | nil => simp [entriesWithin] at h
  | cons first entries ih =>
    by_cases hexceeds : Exceeds bounds state.totalBytes first
    · rw [entriesWithin, if_pos hexceeds] at h
      simp at h
    · have hone : Verifies (IsPayload sha256 bounds.maxRecordBytes first (contentOf readEntry first))
          (countedBytes first (contentOf readEntry first)) state
          (verifyEntry sha256 bounds (readEntry (js first.kind.path)) state first) :=
        verifies_verifyEntry (not_lt.mp fun h => hexceeds (.inl h)) _ state
      rw [entriesWithin, if_neg hexceeds, ← hone.totalBytes] at h
      cases before with
      | nil =>
        obtain ⟨rfl, -⟩ := List.cons.inj h
        simpa [verifyEntries, hexceeds] using hone
      | cons other before =>
        obtain ⟨rfl, hrest⟩ := List.cons.inj h
        simpa [verifyEntries, hexceeds] using ih hrest

end

/-! ## The archive -/

/-- What the verification of an archive comes to is the same. -/
structure SameVerification (a b : ProjectArchiveVerificationResult) : Prop where
  /-- The archives are both valid, or neither is. -/
  valid : a.valid = b.valid
  /-- As many entries are verified. -/
  verifiedEntries : a.verifiedEntries = b.verifiedEntries
  /-- As many bytes are counted. -/
  totalBytes : a.totalBytes = b.totalBytes

/-- The variables of the verification at its end. -/
def ProjectArchiveVerificationResult.state (result : ProjectArchiveVerificationResult) :
    VerificationState :=
  ⟨result.verifiedEntries, result.totalBytes, result.errors⟩

/-- The variables of the verification at its start. -/
def VerificationState.start : VerificationState := ⟨0, 0, []⟩

/-- The verification of an archive with a valid manifest. -/
structure VerifiesArchive (sha256 : List UInt8 → JsString)
    (readEntry : JsString → List (List UInt8)) (bounds : Bounds)
    (manifest : ProjectArchiveManifestV1) (result : ProjectArchiveVerificationResult) : Prop where
  /-- All entries within the bounds are verified. -/
  all : VerifiesAll sha256 bounds (contentOf readEntry) manifest.entries .start result.state
  /-- Each of them is verified exactly if it has its payload. -/
  each : ∀ before entry after, entriesWithin bounds (contentOf readEntry) 0 manifest.entries =
    before ++ entry :: after →
      Verifies (IsPayload sha256 bounds.maxRecordBytes entry (contentOf readEntry entry))
        (countedBytes entry (contentOf readEntry entry))
        (verifyEntries sha256 readEntry bounds .start before)
        (verifyEntries sha256 readEntry bounds .start (before ++ [entry]))
  /-- The archive is valid if there are no errors. -/
  valid : result.valid = true ↔ result.errors = []

/-- An archive with a valid manifest is verified entry by entry. -/
theorem verifiesArchive_verifyProjectArchive {sha256 : List UInt8 → JsString}
    {readOther : JsString → Option ℤ} {input : JsValue} {readEntry : JsString → List (List UInt8)}
    {limits : ProjectArchiveVerificationLimits} {manifest : ProjectArchiveManifestV1}
    {bounds : Bounds}
    (hmanifest : validateProjectArchiveManifest sha256 readOther input = .ok manifest)
    (hbounds : boundsOf limits = some bounds) :
    VerifiesArchive sha256 readEntry bounds manifest
      (verifyProjectArchive sha256 readOther input readEntry limits) := by
  unfold verifyProjectArchive
  rw [hmanifest]
  dsimp only
  rw [hbounds]
  refine ⟨verifiesAll_verifyEntries manifest.entries _, fun before entry after h => ?_, ?_⟩
  · exact verifies_of_entriesWithin h
  · exact List.isEmpty_iff

/-- The verification of all entries depends on what is read only. -/
theorem VerifiesAll.same {sha256 : List UInt8 → JsString} {bounds : Bounds}
    {content : ProjectArchiveEntryDescriptor → List UInt8}
    {entries : List ProjectArchiveEntryDescriptor} {before after after' : VerificationState}
    (h : VerifiesAll sha256 bounds content entries before after)
    (h' : VerifiesAll sha256 bounds content entries before after') :
    after.verifiedEntries = after'.verifiedEntries ∧ after.totalBytes = after'.totalBytes ∧
      (after.errors = [] ↔ after'.errors = []) :=
  ⟨h.verified.trans h'.verified.symm, h.totalBytes.trans h'.totalBytes.symm,
    h.errors.trans h'.errors.symm⟩

/-- What comes of the verification of an archive does not depend on the chunks. With a valid
manifest and limits it verifies, up to the first entry over the bounds, each entry that has its
payload. -/
theorem verifyProjectArchive_exact (sha256 : List UInt8 → JsString)
    (readOther : JsString → Option ℤ) (input : JsValue)
    (readEntry : JsString → List (List UInt8)) (limits : ProjectArchiveVerificationLimits) :
    (∀ readEntry', (∀ path, (readEntry' path).flatten = (readEntry path).flatten) →
      SameVerification (verifyProjectArchive sha256 readOther input readEntry' limits)
        (verifyProjectArchive sha256 readOther input readEntry limits)) ∧
      ∀ manifest bounds, validateProjectArchiveManifest sha256 readOther input = .ok manifest →
        boundsOf limits = some bounds →
          VerifiesArchive sha256 readEntry bounds manifest
            (verifyProjectArchive sha256 readOther input readEntry limits) := by
  refine ⟨fun readEntry' hread => ?_, fun manifest bounds hmanifest hbounds =>
    verifiesArchive_verifyProjectArchive hmanifest hbounds⟩
  cases hmanifest : validateProjectArchiveManifest sha256 readOther input with
  | error errors =>
    unfold verifyProjectArchive
    rw [hmanifest]
    exact ⟨rfl, rfl, rfl⟩
  | ok manifest =>
    cases hbounds : boundsOf limits with
    | none =>
      unfold verifyProjectArchive
      rw [hmanifest]
      dsimp only
      rw [hbounds]
      exact ⟨rfl, rfl, rfl⟩
    | some bounds =>
      have hcontent : contentOf readEntry' = contentOf readEntry :=
        funext fun entry => hread (js entry.kind.path)
      have hverified : VerifiesArchive sha256 readEntry bounds manifest _ :=
        verifiesArchive_verifyProjectArchive hmanifest hbounds
      have hverified' : VerifiesArchive sha256 readEntry' bounds manifest _ :=
        verifiesArchive_verifyProjectArchive hmanifest hbounds
      have hall := hverified'.all
      rw [hcontent] at hall
      obtain ⟨hcount, hbytes, herrors⟩ := hall.same hverified.all
      refine ⟨?_, hcount, hbytes⟩
      rw [Bool.eq_iff_iff, hverified'.valid, hverified.valid]
      exact herrors

/-! ## An archive whose metadata is declared to be two records -/

/-- The digits of the digest of no bytes. -/
def emptyHex : JsString := js "e3b0c44298fc1c149afbf4c8996fb92427ae41e4649b934ca495991b7852b855"

/-- The digits of the digest of the text of an empty object. -/
def objectHex : JsString := js "44136fa355b3678a1146ad16f7e8649e94fb4fc21fe77e8310c060f61caaff8a"

/-- The bytes of the text of an empty object. -/
def objectBytes : List UInt8 := [0x7B, 0x7D]

/-- An archive without anything but its metadata, which is an empty object. -/
def twoRecordsManifest : ProjectArchiveManifestV1 where
  exportedAt := toISOString 0
  projectId := js "project"
  projectName := js "Project"
  coreSchemaVersion := 1
  entries := [⟨.projectMetadata, 2, 2, objectHex⟩, ⟨.sourceEvidence, 0, 0, emptyHex⟩,
    ⟨.repositoryGraph, 0, 0, emptyHex⟩, ⟨.governanceEvidence, 0, 0, emptyHex⟩,
    ⟨.workspaceState, 0, 0, emptyHex⟩, ⟨.outputs, 0, 0, emptyHex⟩]
  archiveDigest := js "b6b74a80c54ccdd73da9ecb76c44d2870c2e0305c01f9401a4fb7090808a7938"

/-- The digests of what is hashed in its verification. -/
def archiveHash (bytes : List UInt8) : JsString :=
  if bytes = [] then emptyHex else if bytes = objectBytes then objectHex
  else twoRecordsManifest.archiveDigest

/-- Its payloads. -/
def archiveContent (path : JsString) : List (List UInt8) :=
  if path = js "project/metadata.json" then [objectBytes] else []

/-- The manifest is well-formed. -/
theorem isWellFormed_twoRecordsManifest : twoRecordsManifest.IsWellFormed where
  exportedAt := ⟨0, by decide, rfl⟩
  projectId := by decide
  projectName := by decide
  coreSchemaVersion := le_rfl
  safeVersion := by decide
  kinds := rfl
  safeCounts := by decide
  digests := by decide
  archiveDigest := by decide

/-- The manifest is valid. -/
theorem validate_twoRecordsManifest (readOther : JsString → Option ℤ) :
    validateProjectArchiveManifest archiveHash readOther twoRecordsManifest.value =
      .ok twoRecordsManifest := by
  have htake : (encodeUtf8 (archiveDigestPayload twoRecordsManifest)).take 2 = [0x7B, 0x22] := by
    rfl
  refine validateProjectArchiveManifest_value isWellFormed_twoRecordsManifest ?_
  unfold archiveHash
  rw [if_neg, if_neg]
  · intro h
    rw [h] at htake
    cases htake
  · intro h
    rw [h] at htake
    cases htake

/-- The default bounds. -/
def defaultBounds : Bounds := ⟨256 * 1024 * 1024, 1024 * 1024 * 1024, 4 * 1024 * 1024⟩

/-- All entries are within the default bounds. -/
theorem entriesWithin_default : entriesWithin defaultBounds (contentOf archiveContent) 0
    twoRecordsManifest.entries = twoRecordsManifest.entries := by
  decide

/-- An entry that declares nothing, and of which nothing is read, has its payload. -/
theorem isPayload_empty {entry : ProjectArchiveEntryDescriptor}
    (h : entry ∈ twoRecordsManifest.entries.tail) (maxRecordBytes : ℕ) :
    IsPayload archiveHash maxRecordBytes entry (contentOf archiveContent entry) := by
  have hall : ∀ entry ∈ twoRecordsManifest.entries.tail, entry.kind ≠ .projectMetadata ∧
      entry.bytes = 0 ∧ entry.records = 0 ∧ entry.hex = emptyHex ∧
        contentOf archiveContent entry = [] := forall_mem_of_all (by decide)
  obtain ⟨hkind, hbytes, hrecords, hhex, hcontent⟩ := hall entry h
  rw [hcontent]
  refine ⟨hbytes.symm, (if_pos rfl).trans hhex.symm, ?_⟩
  rw [AreRecords, if_neg hkind, hrecords]
  exact ⟨[], rfl, by simp, .inl rfl⟩

/-- The text of an empty object is one. -/
theorem isObjectText_objectBytes : IsObjectText defaultBounds.maxRecordBytes objectBytes :=
  ⟨by decide, [0x7B, 0x7D], by decide, .obj [], rfl, rfl⟩

/-- The first entry does not have its payload: it declares two records. -/
theorem not_isPayload_metadata (maxRecordBytes : ℕ) (content : List UInt8) :
    ¬ IsPayload archiveHash maxRecordBytes ⟨.projectMetadata, 2, 2, objectHex⟩ content := by
  intro h
  have hrecords := h.records
  rw [AreRecords, if_pos rfl] at hrecords
  exact absurd hrecords.2 (by decide)

/-- The entries of the archive that are payloads are those behind the first. -/
theorem countP_isPayload {p : ProjectArchiveEntryDescriptor → Bool} {maxRecordBytes : ℕ}
    (hp : ∀ entry, p entry = true ↔
      IsPayload archiveHash maxRecordBytes entry (contentOf archiveContent entry)) :
    twoRecordsManifest.entries.countP p = 5 := by
  have hfirst : ¬ p ⟨.projectMetadata, 2, 2, objectHex⟩ = true := fun h =>
    not_isPayload_metadata _ _ ((hp _).mp h)
  have hrest : twoRecordsManifest.entries.tail.countP p = twoRecordsManifest.entries.tail.length :=
    List.countP_eq_length.mpr fun entry h => (hp entry).mpr (isPayload_empty h maxRecordBytes)
  have hsplit : twoRecordsManifest.entries =
      ⟨.projectMetadata, 2, 2, objectHex⟩ :: twoRecordsManifest.entries.tail := rfl
  rw [hsplit, List.countP_cons_of_neg hfirst, hrest]
  rfl

/-- The archive is verified entry by entry. -/
theorem verifiesArchive_twoRecords :
    validateProjectArchiveManifest archiveHash (fun _ => none) twoRecordsManifest.value =
      .ok twoRecordsManifest ∧ boundsOf {} = some defaultBounds ∧
        VerifiesArchive archiveHash archiveContent defaultBounds twoRecordsManifest
          (verifyProjectArchive archiveHash (fun _ => none) twoRecordsManifest.value archiveContent
            {}) :=
  ⟨validate_twoRecordsManifest _, rfl, (verifyProjectArchive_exact archiveHash (fun _ => none)
    twoRecordsManifest.value archiveContent {}).2 _ _ (validate_twoRecordsManifest _) rfl⟩

/-- All bounds at their defaults but for that of an entry. -/
def oneByteLimits : ProjectArchiveVerificationLimits := { maxEntryBytes := some (countNumber 1) }

/-- The bounds that these limits stand for. -/
def oneByteBounds : Bounds := { defaultBounds with maxEntryBytes := 1 }

/-- The limits are positive safe integers. -/
theorem boundsOf_oneByteLimits : boundsOf oneByteLimits = some oneByteBounds := by
  have hsafe : isPositiveSafeInteger (some (.num (countNumber 1))) = true :=
    integer_countNumber (by decide) le_rfl
  have hlimit : ∀ default, limitOf (some (countNumber 1)) default = some 1 := fun default => by
    rw [limitOf, if_pos hsafe, countOf_countNumber (by decide)]
  unfold boundsOf oneByteLimits
  rw [hlimit]
  rfl

/-- An empty object as the metadata is not verified if two records are declared; and behind an
entry over the bounds no payload is, though it is within them. -/
theorem not_verified_twoRecords :
    validateProjectArchiveManifest archiveHash (fun _ => none) twoRecordsManifest.value =
      .ok twoRecordsManifest ∧
    (boundsOf {} = some defaultBounds ∧
      entriesWithin defaultBounds (contentOf archiveContent) 0 twoRecordsManifest.entries =
        twoRecordsManifest.entries ∧
      (∀ entry ∈ twoRecordsManifest.entries,
        (contentOf archiveContent entry).length = entry.bytes ∧
          archiveHash (contentOf archiveContent entry) = entry.hex ∧
            (AreLines defaultBounds.maxRecordBytes entry.records (contentOf archiveContent entry) ∨
              entry.kind = .projectMetadata ∧
                IsObjectText defaultBounds.maxRecordBytes (contentOf archiveContent entry))) ∧
      (verifyProjectArchive archiveHash (fun _ => none) twoRecordsManifest.value archiveContent
        {}).verifiedEntries < twoRecordsManifest.entries.length) ∧
    (boundsOf oneByteLimits = some oneByteBounds ∧
      (∀ entry ∈ twoRecordsManifest.entries.tail, ¬ Exceeds oneByteBounds 0 entry ∧
        IsPayload archiveHash oneByteBounds.maxRecordBytes entry (contentOf archiveContent entry)) ∧
      (verifyProjectArchive archiveHash (fun _ => none) twoRecordsManifest.value archiveContent
        oneByteLimits).verifiedEntries = 0) := by
  have hvalid := validate_twoRecordsManifest fun _ => none
  refine ⟨hvalid, ⟨rfl, entriesWithin_default, ?_, ?_⟩, boundsOf_oneByteLimits, ?_, ?_⟩
  · have hsplit : twoRecordsManifest.entries =
        ⟨.projectMetadata, 2, 2, objectHex⟩ :: twoRecordsManifest.entries.tail := rfl
    rw [hsplit, List.forall_mem_cons]
    refine ⟨⟨by decide, rfl, .inr ⟨rfl, isObjectText_objectBytes⟩⟩, fun entry h => ?_⟩
    have hpayload := isPayload_empty h defaultBounds.maxRecordBytes
    have hkinds : ∀ entry ∈ twoRecordsManifest.entries.tail, entry.kind ≠ .projectMetadata :=
      forall_mem_of_all (by decide)
    have hkind := hkinds entry h
    have hrecords := hpayload.records
    rw [AreRecords, if_neg hkind] at hrecords
    exact ⟨hpayload.length, hpayload.digest, .inl hrecords⟩
  · have hverified : VerifiesArchive archiveHash archiveContent defaultBounds twoRecordsManifest
        (verifyProjectArchive archiveHash (fun _ => none) twoRecordsManifest.value archiveContent
          {}) := verifiesArchive_verifyProjectArchive hvalid rfl
    have hcount := hverified.all.verified
    change _ = 0 + (entriesWithin defaultBounds (contentOf archiveContent) 0
      twoRecordsManifest.entries).countP _ at hcount
    rw [entriesWithin_default, Nat.zero_add] at hcount
    classical
    have hfive := countP_isPayload fun entry => decide_eq_true_iff
      (p := IsPayload archiveHash defaultBounds.maxRecordBytes entry (contentOf archiveContent entry))
    exact lt_of_eq_of_lt (hcount.trans hfive) (by decide)
  · have hbounds : ∀ entry ∈ twoRecordsManifest.entries.tail, ¬ Exceeds oneByteBounds 0 entry :=
      forall_mem_of_all (by decide)
    exact fun entry h => ⟨hbounds entry h, isPayload_empty h _⟩
  · have hverified : VerifiesArchive archiveHash archiveContent oneByteBounds twoRecordsManifest
        (verifyProjectArchive archiveHash (fun _ => none) twoRecordsManifest.value archiveContent
          oneByteLimits) := verifiesArchive_verifyProjectArchive hvalid boundsOf_oneByteLimits
    exact hverified.all.verified

end T3x.Backup
