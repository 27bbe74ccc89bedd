/-
Jobworkerp/StreamError.lean

The error that ends a result stream (`stream_error.rs`).

The trailer of a stream carries the error in a typed field and, for older
readers, as JSON under a reserved metadata key; plugins use a second reserved
key for the bare message.  Metadata comes from the caller, so both keys are
removed before anything is written.  A JSON value of more than 4096 bytes is
not read, so the message is cut until its encoding fits.

`encode_bounded_v1` indexes a vector at `fitting - 1`; the models of it and of
its callers are partial for that reason, and `normalize_eq` shows that they
always return.

* `encodeBoundedV1_eq`: the cut message is the longest prefix whose encoding fits.
* `normalize_bounded`: the limits of a normalized error.
* `reserved_keys_authentic`: the reserved keys tell what the producer wrote,
  whatever the caller's metadata holds.
* `relayed_error_preserved`: a relay that drops the typed field loses nothing
  of code, message and origin.
-/
import Jobworkerp.Proto
import Jobworkerp.Text.Json
import Mathlib.Data.List.AList

namespace Jobworkerp

open Text String List Option

/-! ### Code names -/

def StreamErrorCode.asStrName : StreamErrorCode → String
  | unspecified => "STREAM_ERROR_CODE_UNSPECIFIED"
  | executionFailed => "STREAM_ERROR_CODE_EXECUTION_FAILED"
  | timeout => "STREAM_ERROR_CODE_TIMEOUT"
  | cancelled => "STREAM_ERROR_CODE_CANCELLED"
  | transportFailed => "STREAM_ERROR_CODE_TRANSPORT_FAILED"
  | invalidArgument => "STREAM_ERROR_CODE_INVALID_ARGUMENT"
  | providerStreamFailed => "STREAM_ERROR_CODE_PROVIDER_STREAM_FAILED"

def StreamErrorCode.all : List StreamErrorCode :=
  [unspecified, executionFailed, timeout, cancelled, transportFailed, invalidArgument,
    providerStreamFailed]

def StreamErrorCode.tryFrom (n : ℤ) : Option StreamErrorCode := all.find? (·.toI32 = n)

def StreamErrorCode.fromStrName (name : String) : Option StreamErrorCode :=
  all.find? (·.asStrName = name)

def codeNamePrefix : String := "STREAM_ERROR_CODE_"

/-- `str::strip_prefix`. -/
def stripPrefix (start s : String) : Option String :=
  (start.toList.isPrefixOf? s.toList).map .ofList

def codeToJsonStr (code : ℤ) : String :=
  let code := (StreamErrorCode.tryFrom code).getD .unspecified
  (stripPrefix codeNamePrefix code.asStrName).getD "UNSPECIFIED"

def codeFromJsonStr (name : String) : StreamErrorCode :=
  (StreamErrorCode.fromStrName (codeNamePrefix ++ name)).getD .unspecified

theorem codeFromJsonStr_codeToJsonStr (code : StreamErrorCode) :
    codeFromJsonStr (codeToJsonStr code.toI32) = code := by
  cases code <;> decide

/-- Every number has a name, and the names are short. -/
theorem codeToJsonStr_cases (code : ℤ) :
    ∃ c : StreamErrorCode, codeToJsonStr code = codeToJsonStr c.toI32 := by
  cases h : StreamErrorCode.tryFrom code with
  | none =>
    refine ⟨.unspecified, ?_⟩
    unfold codeToJsonStr
    rw [h]
    rfl
  | some c =>
    refine ⟨c, ?_⟩
    have hc : c.toI32 = code := by simpa using List.find?_some h
    rw [hc]

theorem codeToJsonStr_ne_empty (code : ℤ) : codeToJsonStr code ≠ "" := by
  obtain ⟨c, hc⟩ := codeToJsonStr_cases code
  rw [hc]
  cases c <;> decide

theorem utf8Len_codeToJsonStr_le (code : ℤ) : utf8Len (codeToJsonStr code).toList ≤ 22 := by
  obtain ⟨c, hc⟩ := codeToJsonStr_cases code
  rw [hc]
  cases c <;> decide

/-! ### Bounded texts -/

/-- Maximum size of the v1 JSON value, and so of the message. -/
def maxStreamErrorBytes : ℕ := 4096

/-- Maximum size of an origin. -/
def maxStreamErrorOriginBytes : ℕ := 256

/-- Origin substituted when a producer passes an empty origin. -/
def unknownOrigin : String := "UNKNOWN"

/-- Origin of an End that only carries the legacy plugin key. -/
def legacyPluginOrigin : String := "PLUGIN"

/-- `s.truncate(s.floor_char_boundary(n))`; for a boundary `n` also `s[..n]`. -/
def truncateBytes (s : String) (n : ℕ) : String := .ofList (takeBytes n s.toList)

@[simp] theorem toList_truncateBytes (s : String) (n : ℕ) :
    (truncateBytes s n).toList = takeBytes n s.toList :=
  String.toList_ofList

theorem truncateBytes_zero (s : String) : truncateBytes s 0 = "" := by
  unfold truncateBytes
  rw [takeBytes_zero]

def normalizeOrigin (origin : String) : String :=
  if origin.isEmpty then unknownOrigin else truncateBytes origin maxStreamErrorOriginBytes

theorem normalizeOrigin_ne_empty (origin : String) : normalizeOrigin origin ≠ "" := by
  unfold normalizeOrigin
  split_ifs with h
  · decide
  · intro hempty
    have hnil : takeBytes maxStreamErrorOriginBytes origin.toList = [] := by
      rw [← toList_truncateBytes, hempty]
      rfl
    refine takeBytes_ne_nil (by decide) ?_ hnil
    intro horigin
    exact h (by simpa using horigin)

theorem utf8Len_normalizeOrigin_le (origin : String) :
    utf8Len (normalizeOrigin origin).toList ≤ maxStreamErrorOriginBytes := by
  unfold normalizeOrigin
  split_ifs
  · decide
  · rw [toList_truncateBytes]
    exact utf8Len_takeBytes_le _ _

/-! ### The v1 JSON value -/

/-- `encode_v1`: the object of version, code, message and origin. -/
def encodeV1 (code message origin : String) : String :=
  .ofList ("\x7b\"version\":1,\"code\":\"".toList ++ (escape code.toList ++
    ("\",\"message\":\"".toList ++ (escape message.toList ++
      ("\",\"origin\":\"".toList ++ (escape origin.toList ++ "\"\x7d".toList))))))

theorem utf8ByteSize_encodeV1 (code message origin : String) :
    (encodeV1 code message origin).utf8ByteSize =
      utf8Len (escape code.toList) + utf8Len (escape message.toList) +
        utf8Len (escape origin.toList) + 48 := by
  unfold encodeV1
  rw [utf8ByteSize_ofList]
  simp only [utf8Len_append]
  have h1 : utf8Len "\x7b\"version\":1,\"code\":\"".toList = 21 := by decide
  have h2 : utf8Len "\",\"message\":\"".toList = 13 := by decide
  have h3 : utf8Len "\",\"origin\":\"".toList = 12 := by decide
  have h4 : utf8Len "\"\x7d".toList = 2 := by decide
  omega

/-- Code and origin are bounded, so that the empty message always fits. -/
theorem encodeV1_empty_fits (code : ℤ) (origin : String) :
    (encodeV1 (codeToJsonStr code) "" (normalizeOrigin origin)).utf8ByteSize ≤
      maxStreamErrorBytes := by
  have hcode := utf8Len_escape_le (codeToJsonStr code).toList
  have horigin := utf8Len_escape_le (normalizeOrigin origin).toList
  have hcode' := utf8Len_codeToJsonStr_le code
  have horigin' := utf8Len_normalizeOrigin_le origin
  have hempty : utf8Len (escape "".toList) = 0 := by decide
  rw [utf8ByteSize_encodeV1, hempty]
  unfold maxStreamErrorOriginBytes at horigin'
  unfold maxStreamErrorBytes
  omega

/-- `partition_point`: how many leading elements satisfy the predicate. -/
def partitionPoint {α : Type*} (p : α → Bool) (xs : List α) : ℕ := (xs.takeWhile p).length

variable {α : Type*} {trailer : Trailer} {error : StreamError} {key : String}

/-- In a sorted list, with a predicate that smaller elements share, the element
before the partition point is the largest that satisfies it. -/
theorem partitionPoint_last (hp : ∀ x y, x ≤ y → p y = true → p x = true) {xs : List ℕ}
    (hxs : (x :: xs).Pairwise (· < ·)) (hx : p x = true) :
    ∃ y, (x :: xs)[partitionPoint p (x :: xs) - 1]? = some y ∧ p y = true ∧
      ∀ z ∈ x :: xs, p z = true → z ≤ y := by
  induction xs generalizing x with
  | nil => exact ⟨x, by simp [partitionPoint, hx], hx, by simp⟩
  | cons x' xs ih =>
    obtain ⟨hlt, hxs⟩ := pairwise_cons.mp hxs
    by_cases hx' : p x' = true
    · obtain ⟨y, hy, hpy, hmax⟩ := ih hxs hx'
      refine ⟨y, ?_, hpy, forall_mem_cons.mpr ⟨fun _ => ?_, hmax⟩⟩
      · simpa [partitionPoint, hx, hx'] using hy
      · exact (hlt x' mem_cons_self).le.trans (hmax x' mem_cons_self hx')
    · refine ⟨x, by simp [partitionPoint, hx, hx'], hx, fun z hz hpz => ?_⟩
      rcases mem_cons.mp hz with rfl | hz
      · exact le_rfl
      · refine absurd (hp x' z ?_ hpz) hx'
        rcases mem_cons.mp hz with rfl | hz
        · exact le_rfl
        · exact ((pairwise_cons.mp hxs).1 z hz).le

theorem partitionPoint_pos (p : α → Bool) (xs : List α)
    (h : p x = true) : 0 < partitionPoint p (x :: xs) := by
  unfold partitionPoint
  rw [takeWhile_cons_of_pos h]
  exact Nat.succ_pos _

/-- `encode_bounded_v1`: the JSON value with the longest message that fits.
`none` where the index `fitting - 1` would be out of range. -/
def encodeBoundedV1 (code message origin : String) : Option (String × String) :=
  let encoded := encodeV1 code message origin
  if encoded.utf8ByteSize ≤ maxStreamErrorBytes then some (encoded, message)
  else
    let boundaries := (List.range (min message.utf8ByteSize maxStreamErrorBytes + 1)).filter
      (isBoundary message.toList)
    let fitting := partitionPoint
      (fun stop =>
        (encodeV1 code (truncateBytes message stop) origin).utf8ByteSize ≤ maxStreamErrorBytes)
      boundaries
    if fitting = 0 then none
    else
      (boundaries[fitting - 1]?).map fun stop =>
        let message := truncateBytes message stop
        (encodeV1 code message origin, message)

theorem utf8ByteSize_encodeV1_le
    (h : cut.toList <+: message.toList) :
    (encodeV1 code cut origin).utf8ByteSize ≤ (encodeV1 code message origin).utf8ByteSize := by
  obtain ⟨rest, hrest⟩ := h
  simp only [utf8ByteSize_encodeV1, ← hrest, escape, flatMap_append, utf8Len_append]
  omega

/-- The message is part of the encoding. -/
theorem utf8Len_le_encodeV1 (code message origin : String) :
    utf8Len message.toList ≤ (encodeV1 code message origin).utf8ByteSize := by
  have hescape := utf8Len_le_escape message.toList
  rw [utf8ByteSize_encodeV1]
  omega

/-- **The message is cut to the longest prefix that fits.** -/
theorem encodeBoundedV1_eq {code origin : String} (message : String)
    (hempty : (encodeV1 code "" origin).utf8ByteSize ≤ maxStreamErrorBytes) :
    ∃ cut : String, cut.toList <+: message.toList ∧
      (encodeV1 code cut origin).utf8ByteSize ≤ maxStreamErrorBytes ∧
      (∀ shorter : String, shorter.toList <+: message.toList →
        (encodeV1 code shorter origin).utf8ByteSize ≤ maxStreamErrorBytes →
        shorter.toList <+: cut.toList) ∧
      encodeBoundedV1 code message origin = some (encodeV1 code cut origin, cut) := by
  unfold encodeBoundedV1
  by_cases hfits : (encodeV1 code message origin).utf8ByteSize ≤ maxStreamErrorBytes
  · exact ⟨message, prefix_refl _, hfits, fun _ h _ => h, if_pos hfits⟩
  · -- offset 0 is the first boundary, and the empty message fits
    obtain ⟨stops, hstops⟩ : ∃ stops, (List.range (min message.utf8ByteSize
        maxStreamErrorBytes + 1)).filter (isBoundary message.toList) = 0 :: stops := by
      rw [range_succ_eq_map, filter_cons_of_pos (by cases message.toList <;> rfl)]
      exact ⟨_, rfl⟩
    let fits : ℕ → Bool := fun stop =>
      (encodeV1 code (truncateBytes message stop) origin).utf8ByteSize ≤ maxStreamErrorBytes
    have hmono : ∀ m n, m ≤ n → fits n = true → fits m = true := by
      intro m n hmn hn
      refine decide_eq_true ((utf8ByteSize_encodeV1_le ?_).trans (of_decide_eq_true hn))
      simp only [toList_truncateBytes]
      exact isPrefix_takeBytes (takeBytes_isPrefix m _) ((utf8Len_takeBytes_le m _).trans hmn)
    have hsorted : (0 :: stops).Pairwise (· < ·) := hstops ▸ pairwise_lt_range.filter _
    have hzero : fits 0 = true := by
      rw [decide_eq_true_iff, truncateBytes_zero]
      exact hempty
    obtain ⟨stop, hstop, hfit, hmax⟩ := partitionPoint_last hmono hsorted hzero
    simp only [if_neg hfits, hstops]
    refine ⟨truncateBytes message stop, ?_, of_decide_eq_true hfit, fun shorter hshorter hs => ?_, ?_⟩
    · rw [toList_truncateBytes]
      exact takeBytes_isPrefix _ _
    · -- a prefix that fits ends at one of the boundaries
      obtain ⟨hends, htake⟩ := boundary_of_isPrefix hshorter
      have hmem : utf8Len shorter.toList ∈ 0 :: stops := by
        have hlen := (utf8Len_le_encodeV1 code shorter origin).trans hs
        have hsize : message.utf8ByteSize = utf8Len message.toList := by
          rw [← utf8ByteSize_ofList, ofList_toList]
        obtain ⟨rest, hrest⟩ := hshorter
        rw [← hrest, utf8Len_append] at hsize
        rw [← hstops, mem_filter, mem_range]
        exact ⟨by omega, hends⟩
      have hcut : truncateBytes message (utf8Len shorter.toList) = shorter := by
        rw [truncateBytes, htake, ofList_toList]
      rw [toList_truncateBytes]
      exact isPrefix_takeBytes hshorter (hmax _ hmem (decide_eq_true (hcut.symm ▸ hs)))
    · rw [if_neg (partitionPoint_pos fits stops hzero).ne', hstop]
      rfl

/-- `normalize`: the bounded error and its JSON value. -/
def normalize (error : StreamError) : Option (StreamError × String) :=
  let origin := normalizeOrigin error.origin
  let message := truncateBytes error.message maxStreamErrorBytes
  (encodeBoundedV1 (codeToJsonStr error.code) message origin).map fun (json, message) =>
    ({ error with
        origin := origin
        message := message
        problem := error.problem.map fun problem =>
          { problem with
            detail := problem.detail.map (truncateBytes · maxStreamErrorBytes) } },
      json)

/-- `normalize` returns; the JSON value tells code, message and origin of the
bounded error, and can be read. -/
theorem normalize_eq (error : StreamError) : ∃ bounded : StreamError,
      normalize error = some (bounded,
        encodeV1 (codeToJsonStr bounded.code) bounded.message bounded.origin) ∧
      bounded.code = error.code ∧ bounded.origin = normalizeOrigin error.origin ∧
      bounded.message.toList <+: error.message.toList ∧
      (encodeV1 (codeToJsonStr bounded.code) bounded.message bounded.origin).utf8ByteSize ≤
        maxStreamErrorBytes := by
  obtain ⟨cut, hcut, hfits, -, henc⟩ := encodeBoundedV1_eq
    (truncateBytes error.message maxStreamErrorBytes)
    (encodeV1_empty_fits error.code error.origin)
  simp only [normalize, henc, Option.map_some]
  refine ⟨_, rfl, rfl, rfl, ?_, hfits⟩
  rw [toList_truncateBytes] at hcut
  exact hcut.trans (takeBytes_isPrefix _ _)

theorem truncateBytes_of_le (h : utf8Len s.toList ≤ n) : truncateBytes s n = s := by
  rw [truncateBytes, takeBytes_of_le h, ofList_toList]

theorem truncateBytes_truncateBytes (s : String) (n : ℕ) :
    truncateBytes (truncateBytes s n) n = truncateBytes s n :=
  truncateBytes_of_le (by rw [toList_truncateBytes]; exact utf8Len_takeBytes_le _ _)

theorem normalizeOrigin_normalizeOrigin (origin : String) :
    normalizeOrigin (normalizeOrigin origin) = normalizeOrigin origin := by
  have hne := normalizeOrigin_ne_empty origin
  rw [normalizeOrigin, if_neg (by simpa using hne)]
  exact truncateBytes_of_le (utf8Len_normalizeOrigin_le origin)

/-- **A normalized error keeps its limits**: its JSON value fits, its message is
the longest prefix of the message with which it does, its origin is bounded and
not empty, and it is normal already. -/
theorem normalize_bounded (error : StreamError) :
    ∃ bounded json, normalize error = some (bounded, json) ∧
      json = encodeV1 (codeToJsonStr error.code) bounded.message bounded.origin ∧
      json.utf8ByteSize ≤ maxStreamErrorBytes ∧
      bounded.message.toList <+: error.message.toList ∧
      utf8Len bounded.message.toList ≤ maxStreamErrorBytes ∧
      (∀ message : String, message.toList <+: error.message.toList →
        (encodeV1 (codeToJsonStr error.code) message bounded.origin).utf8ByteSize ≤
          maxStreamErrorBytes → message.toList <+: bounded.message.toList) ∧
      bounded.origin ≠ "" ∧ utf8Len bounded.origin.toList ≤ maxStreamErrorOriginBytes ∧
      normalize bounded = some (bounded, json) := by
  obtain ⟨cut, hcut, hfits, hmax, henc⟩ := encodeBoundedV1_eq
    (truncateBytes error.message maxStreamErrorBytes)
    (encodeV1_empty_fits error.code error.origin)
  have hlen := (utf8Len_le_encodeV1 _ cut _).trans hfits
  rw [toList_truncateBytes] at hcut hmax
  simp only [normalize, henc, Option.map_some]
  refine ⟨_, _, rfl, rfl, hfits, hcut.trans (takeBytes_isPrefix _ _), hlen, fun message h hs => ?_,
    normalizeOrigin_ne_empty _, utf8Len_normalizeOrigin_le _, ?_⟩
  · exact hmax message (isPrefix_takeBytes h ((utf8Len_le_encodeV1 _ _ _).trans hs)) hs
  · simp only [normalizeOrigin_normalizeOrigin, truncateBytes_of_le hlen, encodeBoundedV1,
      if_pos hfits, Option.map_map, Option.map_some, Function.comp_def,
      truncateBytes_truncateBytes]

/-! ### Reading the JSON value -/

/-- Why a JSON value is not a valid stream error. -/
inductive ParseError
  | oversize | invalidJson | notObject | unversioned | unsupportedVersion
  | missingCode | invalidCode | emptyCode | missingMessage | invalidMessage
  | missingOrigin | invalidOrigin | emptyOrigin
  deriving DecidableEq, Repr

/-- The derived `Debug` text. -/
def ParseError.debug : ParseError → String
  | oversize => "Oversize"
  | invalidJson => "InvalidJson"
  | notObject => "NotObject"
  | unversioned => "Unversioned"
  | unsupportedVersion => "UnsupportedVersion"
  | missingCode => "MissingCode"
  | invalidCode => "InvalidCode"
  | emptyCode => "EmptyCode"
  | missingMessage => "MissingMessage"
  | invalidMessage => "InvalidMessage"
  | missingOrigin => "MissingOrigin"
  | invalidOrigin => "InvalidOrigin"
  | emptyOrigin => "EmptyOrigin"

/-- A JSON reader that reads back what `encode_v1` writes, in whatever order it
keeps the fields of an object. -/
structure JsonCodec where
  fromStr : String → Option Json
  reads : ∀ code message origin, ∃ fields,
    fromStr (encodeV1 code message origin) = some (.object fields) ∧
    fields.lookup "version" = some (.number (some 1)) ∧
    fields.lookup "code" = some (.string code) ∧
    fields.lookup "message" = some (.string message) ∧
    fields.lookup "origin" = some (.string origin)

def requiredStr (value : Option Json) (missing invalid : ParseError) :
    Except ParseError String :=
  match value with
  | none => .error missing
  | some value =>
    match value.asStr with
    | none => .error invalid
    | some text => .ok text

def checkVersion (version : Option Json) : Except ParseError Unit :=
  match version with
  | none => .error .unversioned
  | some version => if version.asU64 = some 1 then .ok () else .error .unsupportedVersion

variable (codec : JsonCodec)

def parseV1 (encoded : String) : Except ParseError StreamError := do
  if encoded.utf8ByteSize > maxStreamErrorBytes then throw .oversize
  let value ← (codec.fromStr encoded).elim (throw .invalidJson) pure
  let fields ← value.asObject.elim (throw .notObject) pure
  checkVersion (fields.lookup "version")
  let code ← requiredStr (fields.lookup "code") .missingCode .invalidCode
  if code.isEmpty then throw .emptyCode
  let message ← requiredStr (fields.lookup "message") .missingMessage .invalidMessage
  let origin ← requiredStr (fields.lookup "origin") .missingOrigin .invalidOrigin
  if origin.isEmpty then throw .emptyOrigin
  return ⟨(codeFromJsonStr code).toI32, message, origin, none⟩

/-- What was written within the bound is read back. -/
theorem parseV1_encodeV1
    (hsize : (encodeV1 code message origin).utf8ByteSize ≤ maxStreamErrorBytes)
    (hcode : code ≠ "") (horigin : origin ≠ "") :
    parseV1 codec (encodeV1 code message origin) =
      .ok ⟨(codeFromJsonStr code).toI32, message, origin, none⟩ := by
  obtain ⟨fields, hread, hversion, hcodeField, hmessageField, horiginField⟩ :=
    codec.reads code message origin
  -- every check passes, so that each step hands its value on
  have hparse : parseV1 codec (encodeV1 code message origin) = (do
      if code.isEmpty then throw .emptyCode
      if origin.isEmpty then throw .emptyOrigin
      return ⟨(codeFromJsonStr code).toI32, message, origin, none⟩) := by
    unfold parseV1
    rw [if_neg (Nat.not_lt.mpr hsize), hread]
    simp only [elim_some, Json.asObject, pure_bind, hversion, hcodeField, hmessageField,
      horiginField]
    rfl
  rw [hparse, if_neg (by simpa using hcode), if_neg (by simpa using horigin)]
  rfl

/-! ### Trailers -/

/-- Metadata of a trailer: one value for each key. -/
abbrev TrailerMetadata := AList fun _ : String => String

structure Trailer where
  metadata : TrailerMetadata
  error : Option StreamError

def streamErrorMetadataKey : String := "stream_error"

def legacyPluginStreamErrorKey : String := "jobworkerp.plugin.run_stream_error"

def reservedKeys : List String := [streamErrorMetadataKey, legacyPluginStreamErrorKey]

def stripReservedKeys (metadata : TrailerMetadata) : TrailerMetadata :=
  reservedKeys.foldl (fun metadata key => metadata.erase key) metadata

def unboundedError (code : StreamErrorCode) (message origin : String) : StreamError :=
  ⟨code.toI32, message, origin, none⟩

/-- `error_trailer_from`.  Its assertion that the code is classified is one of
debug builds. -/
def errorTrailerFrom (metadata : TrailerMetadata) (error : StreamError) : Option Trailer :=
  (normalize error).map fun (error, json) =>
    ⟨(stripReservedKeys metadata).insert streamErrorMetadataKey json, some error⟩

def errorTrailer (metadata : TrailerMetadata) (code : StreamErrorCode)
    (message origin : String) : Option Trailer :=
  errorTrailerFrom metadata (unboundedError code message origin)

/-- `error_trailer_with_legacy_key`; `none` also where its `expect` would
fail. -/
def errorTrailerWithLegacyKey (metadata : TrailerMetadata) (code : StreamErrorCode)
    (message origin : String) : Option Trailer := do
  let trailer ← errorTrailer metadata code message origin
  let error ← trailer.error
  return { trailer with
    metadata := trailer.metadata.insert legacyPluginStreamErrorKey error.message }

def normalTrailer (metadata : TrailerMetadata) : Trailer := ⟨stripReservedKeys metadata, none⟩

inductive StreamErrorOutcome
  | success
  | failed (error : StreamError)
  deriving DecidableEq, Repr

/-- The failure reported for a JSON value that cannot be read. -/
def malformedError (reason : ParseError) : StreamError :=
  ⟨StreamErrorCode.unspecified.toI32,
    "malformed " ++ streamErrorMetadataKey ++ " metadata: " ++ reason.debug, unknownOrigin, none⟩

/-- `inspect_end`: the typed field first, the compatibility keys after it. -/
def inspectEnd (trailer : Trailer) : StreamErrorOutcome :=
  match trailer.error with
  | some error => .failed error
  | none =>
    match trailer.metadata.lookup streamErrorMetadataKey with
    | some encoded =>
      match parseV1 codec encoded with
      | .ok error => .failed error
      | .error reason => .failed (malformedError reason)
    | none =>
      match trailer.metadata.lookup legacyPluginStreamErrorKey with
      | some message =>
        .failed ⟨StreamErrorCode.executionFailed.toI32, message, legacyPluginOrigin, none⟩
      | none => .success

theorem inspectEnd_of_error
    (h : trailer.error = some error) : inspectEnd codec trailer = .failed error := by
  unfold inspectEnd
  rw [h]

theorem inspectEnd_of_json (htyped : trailer.error = none)
    (hjson : trailer.metadata.lookup streamErrorMetadataKey = some encoded)
    (hparse : parseV1 codec encoded = .ok error) : inspectEnd codec trailer = .failed error := by
  unfold inspectEnd
  rw [htyped, hjson]
  simp only [hparse]

/-! ### Reserved keys -/

theorem lookup_stripReservedKeys_of_reserved (metadata : TrailerMetadata)
    (h : key ∈ reservedKeys) : (stripReservedKeys metadata).lookup key = none := by
  show ((metadata.erase streamErrorMetadataKey).erase legacyPluginStreamErrorKey).lookup key = none
  have hkey : key = streamErrorMetadataKey ∨ key = legacyPluginStreamErrorKey := by
    simpa [reservedKeys] using h
  rcases hkey with rfl | rfl
  · rw [AList.lookup_erase_ne (by decide), AList.lookup_erase]
  · rw [AList.lookup_erase]

theorem lookup_stripReservedKeys (metadata : TrailerMetadata) (h : key ∉ reservedKeys) :
    (stripReservedKeys metadata).lookup key = metadata.lookup key := by
  show ((metadata.erase streamErrorMetadataKey).erase legacyPluginStreamErrorKey).lookup key = _
  have hkey : key ≠ streamErrorMetadataKey ∧ key ≠ legacyPluginStreamErrorKey := by
    simpa [reservedKeys] using h
  rw [AList.lookup_erase_ne hkey.2, AList.lookup_erase_ne hkey.1]

/-- Two maps agree on everything that is not reserved. -/
def AgreeUnreserved (m₁ m₂ : TrailerMetadata) : Prop :=
  ∀ key ∉ reservedKeys, m₁.lookup key = m₂.lookup key

theorem agreeUnreserved_stripReservedKeys (metadata : TrailerMetadata) :
    AgreeUnreserved (stripReservedKeys metadata) metadata := by
  intro key hkey
  exact lookup_stripReservedKeys metadata hkey

/-- Writing a reserved key changes nothing else. -/
theorem AgreeUnreserved.insert (h : AgreeUnreserved m₁ m₂)
    (hkey : key ∈ reservedKeys) (value : String) : AgreeUnreserved (m₁.insert key value) m₂ := by
  intro other hother
  rw [AList.lookup_insert_ne (ne_of_mem_of_not_mem hkey hother).symm]
  exact h other hother

/-- The trailer of an error: the bounded error in the typed field, and its
encoding under the reserved key, whatever stood there. -/
theorem errorTrailerFrom_eq (metadata : TrailerMetadata) (error : StreamError) :
    ∃ (bounded : StreamError) (json : String) (trailer : Trailer),
      normalize error = some (bounded, json) ∧
      errorTrailerFrom metadata error = some trailer ∧
      trailer.error = some bounded ∧
      trailer.metadata.lookup streamErrorMetadataKey = some json ∧
      AgreeUnreserved trailer.metadata metadata := by
  obtain ⟨bounded, hnormalize, -⟩ := normalize_eq error
  refine ⟨bounded, _, ⟨(stripReservedKeys metadata).insert streamErrorMetadataKey _,
    some bounded⟩, hnormalize, ?_, rfl, AList.lookup_insert _, ?_⟩
  · unfold errorTrailerFrom
    rw [hnormalize]
    rfl
  · exact (agreeUnreserved_stripReservedKeys metadata).insert (by decide) _

theorem inspectEnd_normalTrailer (metadata : TrailerMetadata) :
    inspectEnd codec (normalTrailer metadata) = .success := by
  unfold inspectEnd normalTrailer
  simp only [lookup_stripReservedKeys_of_reserved metadata
      (show streamErrorMetadataKey ∈ reservedKeys by decide),
    lookup_stripReservedKeys_of_reserved metadata
      (show legacyPluginStreamErrorKey ∈ reservedKeys by decide)]

/-- **The reserved keys tell what the producer wrote.**  For every metadata of
the caller: a normal trailer is read as a success, the trailers of an error are
read as that error, bounded, and everything under other keys is as it was. -/
theorem reserved_keys_authentic (codec : JsonCodec) (metadata : TrailerMetadata) :
    (inspectEnd codec (normalTrailer metadata) = .success ∧
      AgreeUnreserved (normalTrailer metadata).metadata metadata) ∧
    (∀ error, ∃ bounded json trailer,
      normalize error = some (bounded, json) ∧
      errorTrailerFrom metadata error = some trailer ∧
      inspectEnd codec trailer = .failed bounded ∧
      AgreeUnreserved trailer.metadata metadata) ∧
    (∀ code message origin, ∃ bounded json trailer,
      normalize (unboundedError code message origin) = some (bounded, json) ∧
      errorTrailerWithLegacyKey metadata code message origin = some trailer ∧
      inspectEnd codec trailer = .failed bounded ∧
      AgreeUnreserved trailer.metadata metadata) := by
  refine ⟨⟨inspectEnd_normalTrailer codec metadata,
    agreeUnreserved_stripReservedKeys metadata⟩, ?_, ?_⟩
  · intro error
    obtain ⟨bounded, json, trailer, hnormalize, htrailer, htyped, -, hagree⟩ :=
      errorTrailerFrom_eq metadata error
    exact ⟨bounded, json, trailer, hnormalize, htrailer, inspectEnd_of_error codec htyped, hagree⟩
  · intro code message origin
    obtain ⟨bounded, json, trailer, hnormalize, htrailer, htyped, -, hagree⟩ :=
      errorTrailerFrom_eq metadata (unboundedError code message origin)
    refine ⟨bounded, json,
      ⟨trailer.metadata.insert legacyPluginStreamErrorKey bounded.message, trailer.error⟩,
      hnormalize, ?_, inspectEnd_of_error codec htyped, hagree.insert (by decide) _⟩
    unfold errorTrailerWithLegacyKey errorTrailer
    simp only [htrailer, bind_eq_bind, bind_some, htyped]
    rfl

/-! ### Relays that drop the typed field -/

/-- **The JSON value alone tells code, message and origin.**  For every
metadata and error of a known code, a trailer that lost its typed field on the
way is read as the same code, message and origin as the whole trailer. -/
theorem relayed_error_preserved (codec : JsonCodec) (metadata : TrailerMetadata)
    (code : StreamErrorCode) (message origin : String) (problem : Option ProblemDetails) :
    ∃ trailer full relayed,
      errorTrailerFrom metadata ⟨code.toI32, message, origin, problem⟩ = some trailer ∧
      inspectEnd codec trailer = .failed full ∧
      inspectEnd codec { trailer with error := none } = .failed relayed ∧
      relayed.code = full.code ∧ relayed.message = full.message ∧
      relayed.origin = full.origin := by
  obtain ⟨bounded, hnormalize, hcode, horigin, -, hfits⟩ :=
    normalize_eq ⟨code.toI32, message, origin, problem⟩
  obtain ⟨_, json, trailer, hnormalize', htrailer, htyped, hjson, -⟩ :=
    errorTrailerFrom_eq metadata ⟨code.toI32, message, origin, problem⟩
  rw [hnormalize, Option.some.injEq, Prod.mk.injEq] at hnormalize'
  obtain ⟨rfl, rfl⟩ := hnormalize'
  have horigin' : bounded.origin ≠ "" := by
    rw [horigin]
    exact normalizeOrigin_ne_empty origin
  have hparse := parseV1_encodeV1 codec hfits (codeToJsonStr_ne_empty bounded.code) horigin'
  refine ⟨trailer, bounded, _, htrailer, inspectEnd_of_error codec htyped,
    inspectEnd_of_json codec rfl hjson hparse, ?_, rfl, rfl⟩
  show (codeFromJsonStr (codeToJsonStr bounded.code)).toI32 = bounded.code
  rw [hcode, codeFromJsonStr_codeToJsonStr]

/-! ### A reader -/

theorem isPrefixOf?_append_self (cs ds : List Char) : cs.isPrefixOf? (cs ++ ds) = some ds := by
  induction cs with
  | nil => cases ds <;> rfl
  | cons c cs ih =>
    rw [cons_append, List.isPrefixOf?, if_pos (beq_self_eq_true c)]
    exact ih

/-- A reader of the documents that `encode_v1` writes, and of no others. -/
def readV1 (s : String) : Option Json := do
  let fuel := s.toList.length + 1
  let cs ← "\x7b\"version\":1,\"code\":\"".toList.isPrefixOf? s.toList
  let (code, cs) ← readString fuel cs
  let cs ← ",\"message\":\"".toList.isPrefixOf? cs
  let (message, cs) ← readString fuel cs
  let cs ← ",\"origin\":\"".toList.isPrefixOf? cs
  let (origin, _) ← readString fuel cs
  return .object [("version", .number (some 1)), ("code", .string (.ofList code)),
    ("message", .string (.ofList message)), ("origin", .string (.ofList origin))]

theorem readV1_encodeV1 (code message origin : String) :
    readV1 (encodeV1 code message origin) = some (.object [("version", .number (some 1)),
      ("code", .string code), ("message", .string message), ("origin", .string origin)]) := by
  have hcode := length_le_length_escape code.toList
  have hmessage := length_le_length_escape message.toList
  have horigin := length_le_length_escape origin.toList
  have htoList : (encodeV1 code message origin).toList =
      "\x7b\"version\":1,\"code\":\"".toList ++ (escape code.toList ++ '"' ::
        (",\"message\":\"".toList ++ (escape message.toList ++ '"' ::
          (",\"origin\":\"".toList ++ (escape origin.toList ++ '"' :: ['\x7d']))))) :=
    String.toList_ofList
  have hlen := congrArg List.length htoList
  simp only [List.length_append, length_cons] at hlen
  unfold readV1
  simp only [htoList, isPrefixOf?_append_self, bind_eq_bind, bind_some]
  rw [← htoList, readString_escape (by omega), bind_some]
  simp only [isPrefixOf?_append_self, bind_some]
  rw [readString_escape (by omega), bind_some]
  simp only [isPrefixOf?_append_self, bind_some]
  rw [readString_escape (by omega), bind_some]
  simp only [String.ofList_toList]
  rfl

/-- The requirement on a JSON reader can be met. -/
instance : Inhabited JsonCodec where
  default :=
    { fromStr := readV1
      reads := fun code message origin =>
        ⟨_, readV1_encodeV1 code message origin, rfl, rfl, rfl, rfl⟩ }

end Jobworkerp
