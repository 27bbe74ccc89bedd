/-
Jobworkerp/Text/Substring.lean

Cutting and replacing parts of a text.

A text is a list over any alphabet; an occurrence of a text in another is an
infix.  The functions are those of a string library that looks for one text in
another from left to right.

* `dropPrefixes_append`, `dropSuffixes_append_iff`: repeated markers at an end.
* `notMem_of_mem_splitOn`, `eq_append_of_splitOn`: the parts between separators.
* `replaceAll_cases`: a replacement is about the leftmost occurrence and the
  rest behind it.
* `not_infix_replaceAll`, `infix_of_infix_replaceAll`: a replacement by a text
  of other characters removes what it replaces, and makes nothing new.
-/
import Mathlib.Data.List.DropRight
import Mathlib.Data.List.Infix

namespace Text

open List

variable {α : Type} [DecidableEq α]

/-! ### Markers at the ends -/

/-- The text without the copies of `p` it begins with; `n` bounds their number. -/
def dropPrefixesUpTo (p : List α) : ℕ → List α → List α
  | 0, t => t
  | n + 1, t =>
    match p.isPrefixOf? t with
    | some rest => dropPrefixesUpTo p n rest
    | none => t

/-- `trim_start_matches`: the text without the copies of `p` it begins with. -/
def dropPrefixes (p t : List α) : List α := dropPrefixesUpTo p t.length t

/-- `trim_end_matches`. -/
def dropSuffixes (p t : List α) : List α := (dropPrefixes p.reverse t.reverse).reverse

def stripSuffix (p t : List α) : Option (List α) :=
  (p.reverse.isPrefixOf? t.reverse).map List.reverse

theorem isPrefixOf?_append (p t : List α) : p.isPrefixOf? (p ++ t) = some t :=
  List.isPrefixOf?_eq_some_iff_append_eq.mpr rfl

theorem isPrefixOf?_eq_none {p t : List α} (h : ¬ p <+: t) : p.isPrefixOf? t = none := by
  refine Option.eq_none_iff_forall_ne_some.mpr fun rest hrest => h ?_
  exact ⟨rest, List.isPrefixOf?_eq_some_iff_append_eq.mp hrest⟩

theorem dropPrefixesUpTo_of_not_prefix {p t : List α} (h : ¬ p <+: t) (n : ℕ) :
    dropPrefixesUpTo p n t = t := by
  cases n with
  | zero => rfl
  | succ n => rw [dropPrefixesUpTo, isPrefixOf?_eq_none h]

/-- One marker in front of a text that does not begin with another. -/
theorem dropPrefixes_append {p t : List α} (hp : p ≠ []) (h : ¬ p <+: t) :
    dropPrefixes p (p ++ t) = t := by
  obtain ⟨n, hn⟩ : ∃ n, (p ++ t).length = n + 1 := by
    refine ⟨(p ++ t).length - 1, ?_⟩
    have hlength := length_pos_iff.mpr hp
    rw [length_append]
    omega
  rw [dropPrefixes, hn, dropPrefixesUpTo, isPrefixOf?_append]
  exact dropPrefixesUpTo_of_not_prefix h n

/-- What is left does not begin with a marker. -/
theorem not_prefix_dropPrefixes (hp : p ≠ []) (t : List α) : ¬ p <+: dropPrefixes p t := by
  have hgo : ∀ (n : ℕ) (t : List α), t.length ≤ n → ¬ p <+: dropPrefixesUpTo p n t := by
    intro n
    induction n with
    | zero =>
      intro t ht hprefix
      have hlength := hprefix.length_le
      rw [dropPrefixesUpTo] at hlength
      exact hp (length_eq_zero_iff.mp (by omega))
    | succ n ih =>
      intro t ht
      rcases hrest : p.isPrefixOf? t with - | rest
      · rw [dropPrefixesUpTo, hrest]
        rintro ⟨rest, rfl⟩
        rw [isPrefixOf?_append] at hrest
        cases hrest
      · obtain rfl := List.isPrefixOf?_eq_some_iff_append_eq.mp hrest
        rw [dropPrefixesUpTo, hrest]
        refine ih rest ?_
        have hlength := length_pos_iff.mpr hp
        rw [length_append] at ht
        omega
  exact hgo t.length t le_rfl

/-- **All markers at the end are dropped**, so one is dropped only if the text in
front of it does not end with another. -/
theorem dropSuffixes_append_iff {p : List α} (hp : p ≠ []) (t : List α) :
    dropSuffixes p (t ++ p) = t ↔ ¬ p <:+ t := by
  have hrev : p.reverse ≠ [] := by simpa using hp
  constructor
  · intro h hsuffix
    have hnot := not_prefix_dropPrefixes hrev (t ++ p).reverse
    have heq : dropPrefixes p.reverse (t ++ p).reverse = t.reverse :=
      reverse_eq_iff.mp h
    rw [heq] at hnot
    exact hnot ( reverse_prefix.mpr hsuffix)
  · intro h
    rw [dropSuffixes, reverse_append, dropPrefixes_append hrev, reverse_reverse]
    exact fun hprefix => h ( reverse_prefix.mp hprefix)

@[simp] theorem stripSuffix_append (p t : List α) : stripSuffix p (t ++ p) = some t := by
  rw [stripSuffix, reverse_append, isPrefixOf?_append, Option.map_some, reverse_reverse]

/-! ### Trimming -/

/-- The text without the characters at both ends that satisfy `white`. -/
def trim (white : α → Bool) (t : List α) : List α := (t.dropWhile white).rdropWhile white

omit [DecidableEq α] in
theorem dropWhile_append_of_all {white : α → Bool} {w : List α} (hw : ∀ c ∈ w, white c)
    {t : List α} (ht : ∀ c, t.head? = some c → ¬ white c) : (w ++ t).dropWhile white = t := by
  rw [dropWhile_append_of_pos hw]
  cases t with
  | nil => rfl
  | cons c t => exact dropWhile_cons_of_neg (ht c rfl)

omit [DecidableEq α] in
theorem rdropWhile_append_of_all {white : α → Bool} {w : List α} (hw : ∀ c ∈ w, white c)
    {t : List α} (ht : ∀ c, t.getLast? = some c → ¬ white c) : (t ++ w).rdropWhile white = t := by
  rw [List.rdropWhile, reverse_append, dropWhile_append_of_all, reverse_reverse]
  · exact fun c hc => hw c (mem_reverse.mp hc)
  · rw [List.head?_reverse]
    exact ht

omit [DecidableEq α] in
/-- White space around a text that begins and ends with other characters. -/
theorem trim_append {white : α → Bool} {w w' t : List α} (hw : ∀ c ∈ w, white c)
    (hw' : ∀ c ∈ w', white c) (hne : t ≠ []) (hhead : ∀ c, t.head? = some c → ¬ white c)
    (hlast : ∀ c, t.getLast? = some c → ¬ white c) : trim white (w ++ t ++ w') = t := by
  rw [trim, append_assoc, dropWhile_append_of_all hw, rdropWhile_append_of_all hw' hlast]
  rw [List.head?_append_of_ne_nil _ hne]
  exact hhead

/-! ### Splitting -/

theorem notMem_of_mem_splitOn {t part : List α} (h : part ∈ t.splitOn x) : x ∉ part := by
  induction t generalizing part with
  | nil =>
    rw [splitOn_nil, mem_singleton] at h
    simp [h]
  | cons c t ih =>
    rw [splitOn_cons_eq_if_modifyHead] at h
    split at h
    · rcases mem_cons.mp h with rfl | h
      · exact not_mem_nil
      · exact ih h
    · rename_i hc
      rcases hparts : t.splitOn x with - | ⟨first, parts⟩
      · exact absurd hparts (splitOn_ne_nil x t)
      · rw [hparts] at h ih
        rcases mem_cons.mp h with rfl | h
        · intro hmem
          rcases mem_cons.mp hmem with rfl | hmem
          · exact hc (beq_self_eq_true _)
          · exact ih mem_cons_self hmem
        · exact ih (mem_cons_of_mem _ h)

/-- The separators and the parts make up the text. -/
theorem eq_append_of_splitOn {t first : List α} {parts : List (List α)}
    (h : t.splitOn x = first :: parts) : t = first ++ parts.flatMap (x :: ·) := by
  have hjoin : [x].intercalate (t.splitOn x) = t := intercalate_splitOn x
  rw [h] at hjoin
  rw [← hjoin]
  clear h hjoin
  induction parts generalizing first with
  | nil => simp [List.intercalate]
  | cons part parts ih => rw [intercalate_cons_cons, ih]; simp

/-! ### Replacing -/

/-- The text with every occurrence of `pat` replaced by `rep`, from left to
right; `skip` characters belong to an occurrence that has been replaced. -/
def replaceFrom (pat rep : List α) : ℕ → List α → List α
  | _, [] => []
  | skip + 1, _ :: t => replaceFrom pat rep skip t
  | 0, c :: t =>
    if pat.isPrefixOf (c :: t) then rep ++ replaceFrom pat rep (pat.length - 1) t
    else c :: replaceFrom pat rep 0 t

/-- `replace`, for a `pat` that is not empty. -/
def replaceAll (pat rep t : List α) : List α := replaceFrom pat rep 0 t

variable {pat rep : List α}

theorem replaceFrom_eq_drop (skip : ℕ) (t : List α) :
    replaceFrom pat rep skip t = replaceFrom pat rep 0 (t.drop skip) := by
  induction t generalizing skip with
  | nil => simp [replaceFrom]
  | cons c t ih =>
    cases skip with
    | zero => rfl
    | succ skip => rw [replaceFrom, ih, drop_succ_cons]

theorem replaceAll_append (hpat : pat ≠ []) (t : List α) :
    replaceAll pat rep (pat ++ t) = rep ++ replaceAll pat rep t := by
  cases pat with
  | nil => exact absurd rfl hpat
  | cons c pat =>
    rw [replaceAll, cons_append, replaceFrom, if_pos, replaceFrom_eq_drop]
    · simp [replaceAll]
    · rw [ isPrefixOf_iff_prefix]
      exact prefix_append (c :: pat) t

theorem replaceAll_cons (h : ¬ pat <+: c :: t) :
    replaceAll pat rep (c :: t) = c :: replaceAll pat rep t := by
  rw [replaceAll, replaceFrom, if_neg]
  · rfl
  · rwa [ isPrefixOf_iff_prefix]

/-- **The leftmost occurrence is replaced, and then the rest**; without an
occurrence nothing is. -/
theorem replaceAll_cases (hpat : pat ≠ []) (rep t : List α) :
    (¬ pat <:+: t ∧ replaceAll pat rep t = t) ∨
      ∃ p r, t = p ++ pat ++ r ∧ ¬ pat <:+: p ∧
        replaceAll pat rep t = p ++ rep ++ replaceAll pat rep r := by
  induction t with
  | nil =>
    refine .inl ⟨fun h => hpat (infix_nil.mp h), rfl⟩
  | cons c t ih =>
    by_cases hprefix : pat <+: c :: t
    · obtain ⟨r, hr⟩ := hprefix
      refine .inr ⟨[], r, by simp [hr], fun h => hpat (infix_nil.mp h), ?_⟩
      rw [← hr, replaceAll_append hpat, nil_append]
    · rw [replaceAll_cons hprefix]
      rcases ih with ⟨hnot, heq⟩ | ⟨p, r, rfl, hnot, heq⟩
      · refine .inl ⟨fun h => ?_, by rw [heq]⟩
        exact (infix_cons_iff.mp h).elim hprefix hnot
      · refine .inr ⟨c :: p, r, by simp, fun h => ?_, by rw [heq]; simp⟩
        rcases infix_cons_iff.mp h with h | h
        · exact hprefix (h.trans ⟨pat ++ r, by simp⟩)
        · exact hnot h

omit [DecidableEq α] in
/-- An occurrence across a text of other characters lies on one side of it. -/
theorem infix_append_of_disjoint (hrep : rep ≠ []) (hq : ∀ c ∈ rep, c ∉ q)
    (h : q <:+: a ++ rep ++ b) : q <:+: a ∨ q <:+: b := by
  obtain ⟨x, y, hxy⟩ := h
  rw [append_assoc, append_assoc, append_eq_append_iff] at hxy
  rcases hxy with ⟨a', rfl, hq'⟩ | ⟨c', rfl, hrest⟩
  · -- the occurrence begins in `a`
    rcases append_eq_append_iff.mp hq' with ⟨z, rfl, -⟩ | ⟨z, rfl, hz⟩
    · exact .inl ⟨x, z, by simp⟩
    · cases z with
      | nil => exact .inl ⟨x, [], by simp⟩
      | cons d z =>
        obtain ⟨c, rep, rfl⟩ := exists_cons_of_ne_nil hrep
        obtain rfl : c = d := (List.cons.inj hz).1
        exact absurd (by simp) (hq c mem_cons_self)
  · -- it begins behind `a`
    rcases append_eq_append_iff.mp hrest with ⟨z, rfl, hz⟩ | ⟨z, rfl, hz⟩
    · exact .inr ⟨z, y, by simp [hz]⟩
    · cases z with
      | nil => exact .inr ⟨[], y, hz⟩
      | cons d z =>
        cases q with
        | nil => exact .inl nil_infix
        | cons c q =>
          obtain rfl : c = d := (List.cons.inj hz).1
          exact absurd mem_cons_self (hq c (by simp))

/-- **What is replaced is gone**, if the replacement has none of its
characters. -/
theorem not_infix_replaceAll (hpat : pat ≠ []) (hrep : rep ≠ []) (hq : ∀ c ∈ rep, c ∉ pat)
    (t : List α) : ¬ pat <:+: replaceAll pat rep t := by
  induction hn : t.length using Nat.strong_induction_on generalizing t with
  | _ n ih =>
    rcases replaceAll_cases hpat rep t with ⟨hnot, heq⟩ | ⟨p, r, rfl, hnot, heq⟩
    · rwa [heq]
    · rw [heq]
      intro h
      rcases infix_append_of_disjoint hrep hq h with h | h
      · exact hnot h
      · have hlength := length_pos_iff.mpr hpat
        exact ih r.length (by simp at hn; omega) r rfl h

/-- **A replacement makes no new occurrence** of a text with none of its
characters. -/
theorem infix_of_infix_replaceAll (hpat : pat ≠ []) (hrep : rep ≠ [])
    (hq : ∀ c ∈ rep, c ∉ q) (h : q <:+: replaceAll pat rep t) : q <:+: t := by
  induction hn : t.length using Nat.strong_induction_on generalizing t with
  | _ n ih =>
    rcases replaceAll_cases hpat rep t with ⟨-, heq⟩ | ⟨p, r, rfl, -, heq⟩
    · rwa [heq] at h
    · rw [heq] at h
      rcases infix_append_of_disjoint hrep hq h with h | h
      · exact h.trans ⟨[], pat ++ r, by simp⟩
      · have hlength := length_pos_iff.mpr hpat
        exact (ih r.length (by simp at hn; omega) h rfl).trans ⟨p ++ pat, [], by simp⟩

/-! ### The first occurrence -/

section Find

variable {x : α} {p t : List α}

/-- The text in front of the first occurrence of a pattern. -/
def findBefore (p : List α) : List α → Option (List α)
  | [] => if p.isEmpty then some [] else none
  | c :: rest =>
    if p.isPrefixOf (c :: rest) then some [] else (findBefore p rest).map (c :: ·)

/-- Text without the first letter of the pattern stands in front of it. -/
theorem findBefore_append (ht : x ∉ t) (rest : List α) :
    findBefore (x :: p) (t ++ (x :: p ++ rest)) = some t := by
  induction t with
  | nil => simp [findBefore]
  | cons c t ih =>
    have hc : x ≠ c := fun h => ht (h ▸ mem_cons_self)
    rw [cons_append, findBefore, ih fun h => ht (mem_cons_of_mem _ h)]
    simp [hc]

/-- Text without the first letter of the pattern is passed over. -/
theorem findBefore_append_of_notMem (hw : x ∉ w) (t : List α) :
    findBefore (x :: p) (w ++ t) = (findBefore (x :: p) t).map (w ++ ·) := by
  induction w with
  | nil => simp
  | cons c w ih =>
    have hc : x ≠ c := fun h => hw (h ▸ mem_cons_self)
    rw [cons_append, findBefore, ih fun h => hw (mem_cons_of_mem _ h)]
    simp [hc, Function.comp_def]

/-- From a place in front of the first occurrence the same occurrence is found. -/
theorem findBefore_drop {k : ℕ} (hk : ∀ b, findBefore p t = some b → k ≤ b.length) :
    findBefore p (t.drop k) = (findBefore p t).map (·.drop k) := by
  induction k generalizing t with
  | zero => simp
  | succ k ih =>
    cases t with
    | nil =>
      have := hk []
      cases p <;> simp_all [findBefore]
    | cons c t =>
      rw [drop_succ_cons]
      rw [findBefore] at hk ⊢
      split at hk
      · cases hk [] rfl
      · rename_i hprefix
        rw [if_neg hprefix, ih]
        · simp [Function.comp_def]
        · intro b hb
          simpa using hk (c :: b) (by simp [hb])

theorem eq_append_of_findBefore (h : findBefore p t = some b) : ∃ r, t = b ++ p ++ r := by
  induction t generalizing b with
  | nil =>
    unfold findBefore at h
    split at h <;> simp_all
  | cons c t ih =>
    rw [findBefore] at h
    split at h
    · rename_i hprefix
      obtain ⟨r, hr⟩ := isPrefixOf_iff_prefix.1 hprefix
      cases h
      exact ⟨r, by simp [hr]⟩
    · obtain ⟨b, hb, rfl⟩ := Option.map_eq_some_iff.1 h
      obtain ⟨r, rfl⟩ := ih hb
      exact ⟨r, by simp⟩

end Find

end Text
