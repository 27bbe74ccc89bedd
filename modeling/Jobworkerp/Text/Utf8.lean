/-
Jobworkerp/Text/Utf8.lean

Prefixes of a text that are measured in UTF-8 bytes.

A text is a list of characters, each of one to four bytes; `String.utf8Len` is
the size of the whole.  A byte offset is a boundary if a prefix ends there.

* `takeBytes n cs`: the longest prefix of at most `n` bytes.
* `utf8Len_takeBytes_le`, `takeBytes_isPrefix`, `isPrefix_takeBytes`: what it is.
-/
import Mathlib.Data.String.Basic

namespace Text

open String

/-- The longest prefix of at most `n` bytes. -/
def takeBytes : ℕ → List Char → List Char
  | _, [] => []
  | n, c :: cs => if c.utf8Size ≤ n then c :: takeBytes (n - c.utf8Size) cs else []

/-- Does a prefix end at this offset? -/
def isBoundary : List Char → ℕ → Bool
  | _, 0 => true
  | [], _ + 1 => false
  | c :: cs, n + 1 => c.utf8Size ≤ n + 1 && isBoundary cs (n + 1 - c.utf8Size)

variable {n : ℕ} {cs ds : List Char}

@[simp] theorem takeBytes_nil : takeBytes n [] = [] := by
  cases n <;> rfl

theorem takeBytes_cons_of_le (h : c.utf8Size ≤ n) :
    takeBytes n (c :: cs) = c :: takeBytes (n - c.utf8Size) cs := by
  rw [takeBytes, if_pos h]

theorem takeBytes_cons_of_not_le (h : ¬ c.utf8Size ≤ n) : takeBytes n (c :: cs) = [] := by
  rw [takeBytes, if_neg h]

theorem takeBytes_isPrefix (n : ℕ) (cs : List Char) : takeBytes n cs <+: cs := by
  induction cs generalizing n with
  | nil => simp
  | cons c cs ih =>
    by_cases h : c.utf8Size ≤ n
    · rw [takeBytes_cons_of_le h, List.cons_prefix_cons]
      exact ⟨rfl, ih _⟩
    · rw [takeBytes_cons_of_not_le h]
      exact List.nil_prefix

theorem utf8Len_takeBytes_le (n : ℕ) (cs : List Char) : utf8Len (takeBytes n cs) ≤ n := by
  induction cs generalizing n with
  | nil => simp
  | cons c cs ih =>
    by_cases h : c.utf8Size ≤ n
    · rw [takeBytes_cons_of_le h, utf8Len_cons]
      have hrest := ih (n - c.utf8Size)
      omega
    · rw [takeBytes_cons_of_not_le h, utf8Len_nil]
      exact Nat.zero_le n

/-- There is room for one character. -/
theorem takeBytes_ne_nil (h : 4 ≤ n) (hcs : cs ≠ []) : takeBytes n cs ≠ [] := by
  cases cs with
  | nil => exact absurd rfl hcs
  | cons c cs =>
    rw [takeBytes_cons_of_le (c.utf8Size_le_four.trans h)]
    exact List.cons_ne_nil _ _

/-- A prefix of at most `n` bytes is one of the longest. -/
theorem isPrefix_takeBytes (h : ds <+: cs) (hn : utf8Len ds ≤ n) : ds <+: takeBytes n cs := by
  induction ds generalizing n cs with
  | nil => exact List.nil_prefix
  | cons d ds ih =>
    obtain ⟨cs, rfl⟩ := h
    rw [utf8Len_cons] at hn
    rw [List.cons_append, takeBytes_cons_of_le (by omega), List.cons_prefix_cons]
    exact ⟨rfl, ih (List.prefix_append _ _) (by omega)⟩

theorem takeBytes_of_le (h : utf8Len cs ≤ n) : takeBytes n cs = cs :=
  (takeBytes_isPrefix n cs).eq_of_length_le (isPrefix_takeBytes List.prefix_rfl h).length_le

theorem takeBytes_zero (cs : List Char) : takeBytes 0 cs = [] := by
  cases cs with
  | nil => rfl
  | cons c cs => exact takeBytes_cons_of_not_le (Nat.not_le.mpr c.utf8Size_pos)

/-- A prefix ends at a boundary, and is what stands before it. -/
theorem boundary_of_isPrefix (h : ds <+: cs) :
    isBoundary cs (utf8Len ds) = true ∧ takeBytes (utf8Len ds) cs = ds := by
  induction ds generalizing cs with
  | nil => exact ⟨by cases cs <;> rfl, takeBytes_zero cs⟩
  | cons d ds ih =>
    obtain ⟨cs, rfl⟩ := h
    obtain ⟨hends, htake⟩ := ih (List.prefix_append ds cs)
    obtain ⟨k, hk⟩ : ∃ k, utf8Len ds + d.utf8Size = k + 1 :=
      Nat.exists_eq_add_one.mpr (Nat.add_pos_right _ d.utf8Size_pos)
    have hd : d.utf8Size ≤ k + 1 := by omega
    have hrest : k + 1 - d.utf8Size = utf8Len ds := by omega
    rw [utf8Len_cons, hk, List.cons_append, isBoundary, takeBytes_cons_of_le hd, hrest, hends,
      htake]
    simp [hd]

end Text
