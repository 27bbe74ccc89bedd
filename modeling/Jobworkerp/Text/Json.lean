/-
Jobworkerp/Text/Json.lean

Strings in JSON.

`escape` writes a text as a JSON writer does: the quotation mark, the backslash
and the control characters are escaped, everything else stands for itself.
`readString` reads such a text up to its closing quotation mark.

* `readString_escape`: what was written is read back.
* `utf8Len_escape_le`: escaping makes a text at most six times as large.
-/
import Jobworkerp.Text.Utf8

namespace Text

open String

/-- A JSON value.  Of a number only its reading as an unsigned integer is
kept. -/
inductive Json
  | null
  | bool (value : Bool)
  | number (asU64 : Option ℕ)
  | string (value : String)
  | array (items : List Json)
  | object (fields : List (String × Json))
  deriving Inhabited

def Json.asObject : Json → Option (List (String × Json))
  | .object fields => some fields
  | _ => none

def Json.asStr : Json → Option String
  | .string value => some value
  | _ => none

def Json.asU64 : Json → Option ℕ
  | .number value => value
  | _ => none

/-! ### Writing -/

/-- A digit of a `\u` escape. -/
def hexDigit (n : ℕ) : Char := "0123456789abcdef".toList.getD n '0'

/-- The characters a character is written as. -/
def escapeChar (c : Char) : List Char :=
  if c = '"' then ['\\', '"']
  else if c = '\\' then ['\\', '\\']
  else if c = '\x08' then ['\\', 'b']
  else if c = '\t' then ['\\', 't']
  else if c = '\n' then ['\\', 'n']
  else if c = '\x0c' then ['\\', 'f']
  else if c = '\r' then ['\\', 'r']
  else if c.toNat < 32 then
    ['\\', 'u', '0', '0', hexDigit (c.toNat / 16), hexDigit (c.toNat % 16)]
  else [c]

/-- The contents of a JSON string. -/
def escape (cs : List Char) : List Char := cs.flatMap escapeChar

@[simp] theorem escape_nil : escape [] = [] := rfl

@[simp] theorem escape_cons (c : Char) (cs : List Char) :
    escape (c :: cs) = escapeChar c ++ escape cs := rfl

/-! ### Size -/

theorem utf8Size_hexDigit (h : n < 16) : (hexDigit n).utf8Size = 1 := by
  revert n
  decide

/-- One byte becomes at most the six of a `\u` escape. -/
theorem utf8Len_escapeChar_le (c : Char) : utf8Len (escapeChar c) ≤ 6 * c.utf8Size := by
  have hc := c.utf8Size_pos
  -- the escapes are of one-byte characters: two of them, or six for `\u`
  have htwo : ∀ d : Char, d.utf8Size = 1 → utf8Len ['\\', d] ≤ 6 * c.utf8Size := by
    intro d hd
    have hslash : utf8Len ['\\', d] = d.utf8Size + 1 := by
      simp only [utf8Len_cons, utf8Len_nil, Nat.zero_add]
      rfl
    omega
  unfold escapeChar
  split_ifs with h1 h2 h3 h4 h5 h6 h7 hcontrol
  · exact htwo '"' rfl
  · exact htwo '\\' rfl
  · exact htwo 'b' rfl
  · exact htwo 't' rfl
  · exact htwo 'n' rfl
  · exact htwo 'f' rfl
  · exact htwo 'r' rfl
  · have hsix : utf8Len ['\\', 'u', '0', '0', hexDigit (c.toNat / 16),
        hexDigit (c.toNat % 16)] = 6 := by
      simp only [utf8Len_cons, utf8Len_nil, utf8Size_hexDigit (Nat.mod_lt c.toNat (by decide)),
        utf8Size_hexDigit (show c.toNat / 16 < 16 by omega)]
      rfl
    omega
  · simp only [utf8Len_cons, utf8Len_nil]
    omega

/-- **Escaping makes a text at most six times as large.** -/
theorem utf8Len_escape_le (cs : List Char) : utf8Len (escape cs) ≤ 6 * utf8Len cs := by
  induction cs with
  | nil => simp
  | cons c cs ih =>
    have hc := utf8Len_escapeChar_le c
    rw [escape_cons, utf8Len_append, utf8Len_cons]
    omega

/-- Escaping does not make a text smaller. -/
theorem utf8Len_le_escape (cs : List Char) : utf8Len cs ≤ utf8Len (escape cs) := by
  have hchar : ∀ c, c.utf8Size ≤ utf8Len (escapeChar c) := by
    intro c
    unfold escapeChar
    split_ifs <;> first
      | (subst c; decide)
      | grind [utf8Len_cons, utf8Len_nil, Char.utf8Size_pos, Char.utf8Size_le_four]
  induction cs with
  | nil => simp
  | cons c cs ih =>
    have hc := hchar c
    rw [escape_cons, utf8Len_append, utf8Len_cons]
    omega

theorem length_le_length_escape (cs : List Char) : cs.length ≤ (escape cs).length := by
  induction cs with
  | nil => simp
  | cons c cs ih =>
    have hc : 0 < (escapeChar c).length := by
      unfold escapeChar
      split_ifs <;> exact Nat.succ_pos _
    rw [escape_cons, List.length_append, List.length_cons]
    omega

/-! ### Reading -/

/-- The value of a digit of a `\u` escape. -/
def hexValue (c : Char) : Option ℕ :=
  "0123456789abcdef".toList.findIdx? (· = c)

/-- The character an escape stands for.  Of the `\u` escapes only those below
256 are read, which are the ones `escapeChar` writes. -/
def readEscape : List Char → Option (Char × List Char)
  | '"' :: cs => some ('"', cs)
  | '\\' :: cs => some ('\\', cs)
  | 'b' :: cs => some ('\x08', cs)
  | 't' :: cs => some ('\t', cs)
  | 'n' :: cs => some ('\n', cs)
  | 'f' :: cs => some ('\x0c', cs)
  | 'r' :: cs => some ('\r', cs)
  | 'u' :: '0' :: '0' :: x :: y :: cs => do
      let hi ← hexValue x
      let lo ← hexValue y
      some (Char.ofNat (16 * hi + lo), cs)
  | _ => none

/-- Read the contents of a string of fewer than `fuel` characters, up to its
closing quotation mark. -/
def readString : ℕ → List Char → Option (List Char × List Char)
  | 0, _ => none
  | _ + 1, [] => none
  | fuel + 1, c :: cs =>
    if c = '"' then some ([], cs)
    else if c = '\\' then do
      let (d, cs) ← readEscape cs
      let (text, rest) ← readString fuel cs
      some (d :: text, rest)
    else do
      let (text, rest) ← readString fuel cs
      some (c :: text, rest)

theorem hexValue_hexDigit (h : n < 16) : hexValue (hexDigit n) = some n := by
  revert n
  decide

theorem readEscape_hex (hm : m < 16) (hn : n < 16) (cs : List Char) :
    readEscape ('u' :: '0' :: '0' :: hexDigit m :: hexDigit n :: cs) =
      some (Char.ofNat (16 * m + n), cs) := by
  simp [readEscape, hexValue_hexDigit hm, hexValue_hexDigit hn]

theorem readString_escaped (h : readEscape cs = some (d, ds)) :
    readString (fuel + 1) ('\\' :: cs) =
      (readString fuel ds).map fun (text, rest) => (d :: text, rest) := by
  rw [readString, if_neg (by decide), if_pos rfl, h]
  show (readString fuel ds).bind (fun (text, rest) => some (d :: text, rest)) = _
  cases readString fuel ds <;> rfl

/-- What a character was written as is read as that character. -/
theorem readString_escapeChar (fuel : ℕ) (c : Char) (cs : List Char) :
    readString (fuel + 1) (escapeChar c ++ cs) =
      (readString fuel cs).map fun (text, rest) => (c :: text, rest) := by
  unfold escapeChar
  split_ifs with h1 h2 h3 h4 h5 h6 h7 hcontrol
  · rw [h1]; exact readString_escaped rfl
  · rw [h2]; exact readString_escaped rfl
  · rw [h3]; exact readString_escaped rfl
  · rw [h4]; exact readString_escaped rfl
  · rw [h5]; exact readString_escaped rfl
  · rw [h6]; exact readString_escaped rfl
  · rw [h7]; exact readString_escaped rfl
  · -- the two digits are those of the character's number
    have hread := readEscape_hex (show c.toNat / 16 < 16 by omega)
      (Nat.mod_lt c.toNat (by decide)) cs
    rw [Nat.div_add_mod, Char.ofNat_toNat] at hread
    exact readString_escaped hread
  · rw [List.singleton_append, readString, if_neg h1, if_neg h2]
    cases readString fuel cs <;> rfl

/-- **What was written is read back.** -/
theorem readString_escape (h : cs.length < fuel) (rest : List Char) :
    readString fuel (escape cs ++ '"' :: rest) = some (cs, rest) := by
  induction cs generalizing fuel with
  | nil =>
    obtain ⟨fuel, rfl⟩ := Nat.exists_eq_add_one_of_ne_zero (Nat.ne_zero_of_lt h)
    rw [escape_nil, List.nil_append, readString, if_pos rfl]
  | cons c cs ih =>
    obtain ⟨fuel, rfl⟩ := Nat.exists_eq_add_one_of_ne_zero (Nat.ne_zero_of_lt h)
    rw [escape_cons, List.append_assoc, readString_escapeChar,
      ih (Nat.lt_of_succ_lt_succ h)]
    rfl

end Text
