/-
Jobworkerp/Workflow/Secrets.lean

Secrets of a workflow (`execute/secret.rs`): how their values are kept out of
the texts a call returns.

A text is masked, decoded once, masked again, and so on for four decodings;
what percent-decoding does is left open.  Masking replaces the secrets one after
the other.

* `not_contains_maskSecretValues`: a masked text has no secret left.
* `masking_spec`: what the answers of `mask_encoded_secret_values` mean, and
  that error details show no secret.
-/
import Jobworkerp.Text.Substring
import Jobworkerp.Text.Utf8

namespace Jobworkerp.Workflow

open Text String List

/-! ### Masking -/

/-- A value to be masked. -/
structure Secret where
  text : List Char
  nonempty : text ≠ []
  deriving DecidableEq

def maskedValue : List Char := ['*', '*', '*']

def maxSecretDecodePasses : ℕ := 4

def containsSecretValue (text : List Char) (secrets : List Secret) : Bool :=
  secrets.any fun secret => secret.text <:+: text

def maskSecretValues (text : List Char) (secrets : List Secret) : List Char :=
  secrets.foldl (fun text secret => replaceAll secret.text maskedValue text) text

/-- The answer of `percent_decode_str`: `borrowed` if there was nothing to
decode. -/
inductive Decoded
  | borrowed
  | owned (text : List Char)
  deriving DecidableEq

/-- The decoded text. -/
def Decoded.get (text : List Char) : Decoded → List Char
  | borrowed => text
  | owned decoded => decoded

/-- A level of `mask_encoded_secret_values`: is there a secret, and the text
without it. -/
def maskLevel (secrets : List Secret) (current : List Char) : Bool × List Char :=
  if containsSecretValue current secrets then (true, maskSecretValues current secrets)
  else (false, current)

/-- The levels from here on: was there a secret, and the text behind them. -/
def maskLevels (decode : List Char → Decoded) (secrets : List Secret) :
    ℕ → List Char → Bool × List Char
  | 0, current => maskLevel secrets current
  | n + 1, current =>
    let (found, masked) := maskLevel secrets current
    match decode masked with
    | .borrowed =>
      let (again, masked) := maskLevel secrets masked
      (found || again, masked)
    | .owned decoded =>
      let (deeper, result) := maskLevels decode secrets n decoded
      (found || deeper, result)

def maskEncodedSecretValues (decode : List Char → Decoded) (text : List Char)
    (secrets : List Secret) : Option (List Char) :=
  if secrets.isEmpty then none
  else
    let (found, masked) := maskLevels decode secrets maxSecretDecodePasses text
    if found then some masked else none

/-! ### Error details -/

def errorDetailMaxBytes : ℕ := 64 * 1024

def truncatedMarker : List Char := "... (truncated)".toList

/-- What `truncate_error_detail` keeps of a text. -/
def keptDetail (detail : List Char) : List Char :=
  if utf8Len detail ≤ errorDetailMaxBytes then detail else takeBytes errorDetailMaxBytes detail

def truncateErrorDetail (detail : List Char) : List Char :=
  keptDetail detail ++ if utf8Len detail ≤ errorDetailMaxBytes then [] else truncatedMarker

def errorDetail (decode : List Char → Decoded) (text : List Char) (secrets : List Secret) :
    List Char :=
  truncateErrorDetail ((maskEncodedSecretValues decode text secrets).getD text)

/-! ### What is left of a secret -/

section Masking

variable {secrets : List Secret} {text : List Char} {decode : List Char → Decoded}

/-- No secret occurs in the text. -/
def Clear (secrets : List Secret) (text : List Char) : Prop :=
  ∀ secret ∈ secrets, ¬ secret.text <:+: text

/-- No secret has an asterisk in it. -/
def Starless (secrets : List Secret) : Prop := ∀ secret ∈ secrets, '*' ∉ secret.text

theorem containsSecretValue_eq_false : containsSecretValue text secrets = false ↔
    Clear secrets text := by
  simp [containsSecretValue, Clear]

theorem Clear.within (h : Clear secrets text) (hwithin : text' <:+: text) :
    Clear secrets text' :=
  fun secret hmem hsecret => h secret hmem (hsecret.trans hwithin)

/-- Masking hides every secret: masking one of them brings none of the others
back. -/
theorem clear_maskSecretValues (hstar : Starless secrets) (text : List Char) :
    Clear secrets (maskSecretValues text secrets) := by
  have hne : maskedValue ≠ [] := nofun
  have hmask : ∀ secret : Secret, '*' ∉ secret.text → ∀ c ∈ maskedValue, c ∉ secret.text := by
    intro secret hsecret c hc
    obtain rfl : c = '*' := by simpa [maskedValue] using hc
    exact hsecret
  -- what is masked later brings nothing back that was hidden before
  have hkeep : ∀ (more : List Secret) (secret : Secret) (text : List Char), '*' ∉ secret.text →
      ¬ secret.text <:+: text → ¬ secret.text <:+: maskSecretValues text more := by
    intro more secret
    induction more with
    | nil => exact fun text _ h => h
    | cons first more ih =>
      intro text hsecret hnot
      refine ih (replaceAll first.text maskedValue text) hsecret fun h => hnot ?_
      exact infix_of_infix_replaceAll first.nonempty hne (hmask secret hsecret) h
  induction secrets generalizing text with
  | nil => exact nofun
  | cons first more ih =>
    intro secret hmem
    rcases mem_cons.mp hmem with rfl | hmem
    · have hsecret := hstar secret mem_cons_self
      refine hkeep more secret _ hsecret ?_
      exact not_infix_replaceAll secret.nonempty hne (hmask secret hsecret) text
    · exact ih (fun s hs => hstar s (mem_cons_of_mem _ hs)) _ secret hmem

theorem clear_maskLevel (hstar : Starless secrets) (text : List Char) :
    Clear secrets (maskLevel secrets text).2 := by
  unfold maskLevel
  split
  · exact clear_maskSecretValues hstar text
  · rename_i hnot
    exact containsSecretValue_eq_false.mp (Bool.eq_false_iff.mpr hnot)

/-- **The text behind the levels has no secret in it.** -/
theorem clear_maskLevels (decode : List Char → Decoded) (hstar : Starless secrets) (n : ℕ)
    (text : List Char) : Clear secrets (maskLevels decode secrets n text).2 := by
  induction n generalizing text with
  | zero => exact clear_maskLevel hstar text
  | succ n ih =>
    unfold maskLevels
    rcases hdecode : decode (maskLevel secrets text).2 with - | decoded
    · simpa [hdecode] using clear_maskLevel hstar _
    · simpa [hdecode] using ih decoded

theorem maskLevel_eq_false : (maskLevel secrets text).1 = false ↔ Clear secrets text := by
  rw [← containsSecretValue_eq_false]
  unfold maskLevel
  split
  · rename_i h
    simp [h]
  · rename_i h
    simpa using h

theorem maskLevel_of_clear (h : Clear secrets text) : maskLevel secrets text = (false, text) := by
  rw [maskLevel, containsSecretValue_eq_false.mpr h]
  rfl

/-- Percent-decoding as a function. -/
def dec (decode : List Char → Decoded) (text : List Char) : List Char := (decode text).get text

/-- **A secret is found exactly if it occurs at some level.** -/
theorem maskLevels_eq_false (n : ℕ) (text : List Char) :
    (maskLevels decode secrets n text).1 = false ↔
      ∀ k ≤ n, Clear secrets ((dec decode)^[k] text) := by
  induction n generalizing text with
  | zero =>
    rw [show maskLevels decode secrets 0 text = maskLevel secrets text from rfl,
      maskLevel_eq_false]
    simp
  | succ n ih =>
    by_cases hclear : Clear secrets text
    · unfold maskLevels
      rw [maskLevel_of_clear hclear]
      rcases hdecode : decode text with - | decoded
      · -- nothing is decoded, and all levels are the same
        have hfix : ∀ k, (dec decode)^[k] text = text := by
          intro k
          refine Function.iterate_fixed ?_ k
          rw [dec, hdecode]
          rfl
        simp [hdecode, maskLevel_of_clear hclear, hfix, hclear]
      · have hdec : dec decode text = decoded := by
          rw [dec, hdecode]
          rfl
        have hsucc : (∀ k ≤ n + 1, Clear secrets ((dec decode)^[k] text)) ↔
            ∀ k ≤ n, Clear secrets ((dec decode)^[k] decoded) := by
          constructor
          · intro h k hk
            have hnext := h (k + 1) (by omega)
            rwa [Function.iterate_succ_apply, hdec] at hnext
          · intro h k hk
            cases k with
            | zero => exact hclear
            | succ k =>
              rw [Function.iterate_succ_apply, hdec]
              exact h k (by omega)
        simpa [hdecode, hsucc] using ih decoded
    · have hfound : (maskLevel secrets text).1 = true := by
        rw [← Bool.not_eq_false, maskLevel_eq_false]
        exact hclear
      have hleft : (maskLevels decode secrets (n + 1) text).1 = true := by
        unfold maskLevels
        rcases hdecode : decode (maskLevel secrets text).2 with - | decoded
        · simp [hdecode, hfound]
        · simp [hdecode, hfound]
      constructor
      · intro h
        rw [hleft] at h
        cases h
      · intro h
        exact absurd (h 0 (Nat.zero_le _)) hclear

/-! ### The answers -/

/-- The answer is `none` exactly if no secret occurs at any level. -/
theorem maskEncodedSecretValues_eq_none : maskEncodedSecretValues decode text secrets = none ↔
      ∀ k ≤ maxSecretDecodePasses, Clear secrets ((dec decode)^[k] text) := by
  rw [← maskLevels_eq_false]
  unfold maskEncodedSecretValues
  cases hempty : secrets.isEmpty with
  | true =>
    obtain rfl := isEmpty_iff.mp hempty
    have hclear : (maskLevels decode [] maxSecretDecodePasses text).1 = false :=
      (maskLevels_eq_false _ _).mpr fun _ _ => nofun
    simp [hclear]
  | false =>
    cases hfound : (maskLevels decode secrets maxSecretDecodePasses text).1 with
    | true | false => simp [hfound]

theorem clear_of_maskEncodedSecretValues (hstar : Starless secrets)
    (h : maskEncodedSecretValues decode text secrets = some m) : Clear secrets m := by
  have hclear := clear_maskLevels decode hstar maxSecretDecodePasses text
  unfold maskEncodedSecretValues at h
  rcases hlevels : maskLevels decode secrets maxSecretDecodePasses text with ⟨found, masked⟩
  rw [hlevels] at h hclear
  split at h
  · cases h
  · cases found with
    | true =>
      cases h
      exact hclear
    | false => cases h

theorem keptDetail_isPrefix (detail : List Char) : keptDetail detail <+: detail := by
  unfold keptDetail
  split
  · exact prefix_rfl
  · exact takeBytes_isPrefix _ _

/-- **Error texts show no secret**: a masked text has none, a text that is kept
has none at any level of decoding, and the details of an error have none in front
of the truncation marker. -/
theorem masking_spec (hstar : Starless secrets) (decode : List Char → Decoded)
    (text : List Char) :
    (∀ m, maskEncodedSecretValues decode text secrets = some m → Clear secrets m) ∧
    (maskEncodedSecretValues decode text secrets = none ↔
      ∀ k ≤ 4, Clear secrets ((dec decode)^[k] text)) ∧
    ∃ shown, (errorDetail decode text secrets = shown ∨
        errorDetail decode text secrets = shown ++ truncatedMarker) ∧ Clear secrets shown := by
  have hmasked : ∀ m, maskEncodedSecretValues decode text secrets = some m → Clear secrets m :=
    fun m => clear_of_maskEncodedSecretValues hstar
  refine ⟨hmasked, maskEncodedSecretValues_eq_none,
    keptDetail ((maskEncodedSecretValues decode text secrets).getD text), ?_, ?_⟩
  · unfold errorDetail truncateErrorDetail
    split
    · exact .inl (append_nil _)
    · exact .inr rfl
  · refine Clear.within ?_ (keptDetail_isPrefix _).isInfix
    cases hanswer : maskEncodedSecretValues decode text secrets with
    | some m => exact hmasked m hanswer
    | none => exact maskEncodedSecretValues_eq_none.mp hanswer 0 (Nat.zero_le _)

/-- A token that was encoded before it was put into the request. -/
theorem masking_spec_token :
    maskEncodedSecretValues (fun t => if t = ['%', '4', '1', '1'] then .owned ['A', '1'] else .borrowed)
        ['%', '4', '1', '1'] [⟨['A', '1'], nofun⟩] = some maskedValue ∧
      Clear [⟨['A', '1'], nofun⟩] maskedValue := by
  have hmasked : maskEncodedSecretValues
      (fun t => if t = ['%', '4', '1', '1'] then .owned ['A', '1'] else .borrowed)
      ['%', '4', '1', '1'] [⟨['A', '1'], nofun⟩] = some maskedValue := by decide
  refine ⟨hmasked, (masking_spec ?_ _ _).1 _ hmasked⟩
  intro secret hsecret
  obtain rfl := mem_singleton.mp hsecret
  decide

end Masking

end Jobworkerp.Workflow
