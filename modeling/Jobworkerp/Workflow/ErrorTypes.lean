/-
Jobworkerp/Workflow/ErrorTypes.lean

The type filter of a catch (`definition/workflow/errors.rs`).

A filter is a URI template.  It is turned into a regular expression in which
every placeholder is `(.*)` and everything else stands for itself.  The base of
the standard error types has two spellings; template and error are both brought
to the current one before they are compared.

* `isMatch_iff`: a template matches the texts that it becomes when its
  placeholders are filled in.
* `typeMatches_iff`: the filter accepts the same errors under both spellings,
  except where a placeholder of the template covers a part of the legacy base.
-/
import Jobworkerp.Text.Substring
import Jobworkerp.Workflow.Definition

namespace Jobworkerp.Workflow

open List

/-! ### Templates -/

/-- A part of the regular expression: escaped text, or `(.*)`. -/
inductive Piece
  | literal (text : List Char)
  | any
  deriving DecidableEq, Repr

/-- The pieces of what follows a `{`, up to the next one. -/
def partPieces (part : List Char) : List Piece :=
  match part.dropWhile (· ≠ '\x7d') with
  | _ :: rest => [.any, .literal rest]
  | [] => [.literal ('\x7b' :: part)]

/-- The regular expression of a template. -/
def templatePieces (template : List Char) : List Piece :=
  match template.splitOn '\x7b' with
  | [] => []
  | first :: parts => .literal first :: parts.flatMap partPieces

/-- `Regex::is_match`, for the pieces between `^` and `$`. -/
def matchesPieces : List Piece → List Char → Bool
  | [], text => text.isEmpty
  | .literal l :: pieces, text =>
    match l.isPrefixOf? text with
    | some rest => matchesPieces pieces rest
    | none => false
  | .any :: pieces, text =>
    (List.range (text.length + 1)).any fun k =>
      (text.take k).all (· ≠ '\n') && matchesPieces pieces (text.drop k)

/-- `UriTemplate::is_match`. -/
def isMatch (template uri : List Char) : Bool := matchesPieces (templatePieces template) uri

/-! ### The two domains -/

def specUriBase : List Char := "https://open-workflow-specification.org/spec/".toList

def legacySpecUriBase : List Char := "https://serverlessworkflow.io/spec/".toList

def canonicalSpecUri (uri : List Char) : List Char :=
  match legacySpecUriBase.isPrefixOf? uri with
  | some rest => specUriBase ++ rest
  | none => uri

/-- `ErrorFilter::type_matches`. -/
def typeMatches (filterType errorType : List Char) : Bool :=
  isMatch (canonicalSpecUri filterType) (canonicalSpecUri errorType)

/-! ### Filling in placeholders

A placeholder is a pair of braces with no brace between them. -/

/-- A placeholder stands at the beginning of the text. -/
def StartsPlaceholder (template : List Char) : Prop :=
  ∃ var rest, template = '\x7b' :: (var ++ '\x7d' :: rest) ∧ '\x7b' ∉ var ∧ '\x7d' ∉ var

/-- `Fills template text`: some text in the place of every placeholder of
`template` gives `text`. -/
inductive Fills : List Char → List Char → Prop
  | nil : Fills [] []
  | char {c : Char} {template text : List Char} (hc : ¬ StartsPlaceholder (c :: template))
      (h : Fills template text) : Fills (c :: template) (c :: text)
  | placeholder {var template text : List Char} (value : List Char) (hopen : '\x7b' ∉ var)
      (hclose : '\x7d' ∉ var) (h : Fills template text) :
      Fills ('\x7b' :: (var ++ '\x7d' :: template)) (value ++ text)

section Fills

variable {template text l : List Char}

theorem not_startsPlaceholder (hc : c ≠ '\x7b') (template : List Char) :
    ¬ StartsPlaceholder (c :: template) := by
  rintro ⟨var, rest, heq, -⟩
  exact hc (List.cons.inj heq).1

theorem Fills.inv (h : Fills whole text) : (whole = [] ∧ text = []) ∨
    (∃ c template rest, whole = c :: template ∧ text = c :: rest ∧ ¬ StartsPlaceholder whole ∧
      Fills template rest) ∨
    ∃ var template value rest, whole = '\x7b' :: (var ++ '\x7d' :: template) ∧
      text = value ++ rest ∧ '\x7b' ∉ var ∧ '\x7d' ∉ var ∧ Fills template rest := by
  cases h with
  | nil => exact .inl ⟨rfl, rfl⟩
  | char hc h => exact .inr (.inl ⟨_, _, _, rfl, rfl, hc, h⟩)
  | placeholder value hopen hclose h =>
    exact .inr (.inr ⟨_, _, value, _, rfl, rfl, hopen, hclose, h⟩)

/-- A character that begins no placeholder stands for itself. -/
theorem fills_cons (hc : ¬ StartsPlaceholder (c :: template)) :
    Fills (c :: template) text ↔ ∃ rest, text = c :: rest ∧ Fills template rest := by
  constructor
  · intro h
    rcases h.inv with ⟨hnil, -⟩ | ⟨c', template', rest, heq, rfl, -, hrest⟩ |
      ⟨var, template', value, rest, heq, -, hopen, hclose, -⟩
    · cases hnil
    · obtain ⟨rfl, rfl⟩ := List.cons.inj heq
      exact ⟨rest, rfl, hrest⟩
    · exact absurd ⟨var, template', heq, hopen, hclose⟩ hc
  · rintro ⟨rest, rfl, hrest⟩
    exact .char hc hrest

/-- Text without an opening brace stands for itself. -/
theorem fills_append (hl : '\x7b' ∉ l) :
    Fills (l ++ template) text ↔ ∃ rest, text = l ++ rest ∧ Fills template rest := by
  induction l generalizing text with
  | nil => simp
  | cons c l ih =>
    have hc : c ≠ '\x7b' := fun h => hl (h ▸ mem_cons_self)
    have ih := fun text => @ih text fun h => hl (mem_cons_of_mem _ h)
    rw [cons_append, fills_cons (not_startsPlaceholder hc _)]
    constructor
    · rintro ⟨rest, rfl, h⟩
      obtain ⟨rest, rfl, hrest⟩ := (ih _).mp h
      exact ⟨rest, rfl, hrest⟩
    · rintro ⟨rest, rfl, hrest⟩
      exact ⟨l ++ rest, rfl, (ih _).mpr ⟨rest, rfl, hrest⟩⟩

theorem dropWhile_close (h : '\x7d' ∉ var) (rest : List Char) :
    (var ++ '\x7d' :: rest).dropWhile (· ≠ '\x7d') = '\x7d' :: rest := by
  refine Text.dropWhile_append_of_all (fun c hc => ?_) ?_
  · exact decide_eq_true fun heq => h (heq ▸ hc)
  · simp

/-- A placeholder stands for any text. -/
theorem fills_placeholder (hopen : '\x7b' ∉ var) (hclose : '\x7d' ∉ var) :
    Fills ('\x7b' :: (var ++ '\x7d' :: template)) text ↔
      ∃ value rest, text = value ++ rest ∧ Fills template rest := by
  constructor
  · intro h
    rcases h.inv with ⟨hnil, -⟩ | ⟨-, -, -, -, -, hnot, -⟩ |
      ⟨var', template', value, rest, heq, rfl, -, hclose', hrest⟩
    · cases hnil
    · exact absurd ⟨var, template, rfl, hopen, hclose⟩ hnot
    · have htail := congrArg (List.dropWhile (· ≠ '\x7d')) (List.cons.inj heq).2
      rw [dropWhile_close hclose, dropWhile_close hclose'] at htail
      obtain rfl := (List.cons.inj htail).2
      exact ⟨value, rest, rfl, hrest⟩
  · rintro ⟨value, rest, rfl, hrest⟩
    exact .placeholder value hopen hclose hrest

/-- An opening brace with no closing brace before the next one. -/
theorem not_startsPlaceholder_part (hpart : '\x7d' ∉ part)
    (hrest : ∀ c, rest.head? = some c → c = '\x7b') :
    ¬ StartsPlaceholder ('\x7b' :: (part ++ rest)) := by
  rintro ⟨var, rest', heq, hopen, -⟩
  rcases append_eq_append_iff.mp (List.cons.inj heq).2 with ⟨z, rfl, hz⟩ | ⟨z, rfl, hz⟩
  · -- the closing brace would lie behind the next opening one
    cases z with
    | nil =>
      rw [nil_append] at hz
      rw [hz] at hrest
      exact absurd (hrest _ rfl) (by decide)
    | cons c z =>
      rw [hz] at hrest
      obtain rfl := hrest c rfl
      exact hopen (by simp)
  · cases z with
    | nil =>
      rw [nil_append] at hz
      rw [← hz] at hrest
      exact absurd (hrest _ rfl) (by decide)
    | cons c z =>
      obtain rfl := (List.cons.inj hz).1
      exact hpart (by simp)

end Fills

/-! ### The regular expression -/

section Regex

variable {pieces : List Piece} {text : List Char}

theorem matchesPieces_literal : matchesPieces (.literal l :: pieces) text ↔
      ∃ rest, text = l ++ rest ∧ matchesPieces pieces rest := by
  constructor
  · intro h
    rw [matchesPieces] at h
    rcases hrest : l.isPrefixOf? text with - | rest
    · rw [hrest] at h
      cases h
    · rw [hrest] at h
      exact ⟨rest, (List.isPrefixOf?_eq_some_iff_append_eq.mp hrest).symm, h⟩
  · rintro ⟨rest, rfl, h⟩
    rw [matchesPieces, Text.isPrefixOf?_append]
    exact h

theorem matchesPieces_any (htext : '\n' ∉ text) : matchesPieces (.any :: pieces) text ↔
      ∃ value rest, text = value ++ rest ∧ matchesPieces pieces rest := by
  rw [matchesPieces, any_eq_true]
  constructor
  · rintro ⟨k, -, hk⟩
    rw [Bool.and_eq_true] at hk
    exact ⟨text.take k, text.drop k, (take_append_drop k text).symm, hk.2⟩
  · rintro ⟨value, rest, rfl, h⟩
    refine ⟨value.length, mem_range.mpr (by rw [length_append]; omega), ?_⟩
    have hvalue : ∀ c ∈ value, c ≠ '\n' := fun c hc heq =>
      htext (mem_append_left _ (heq ▸ hc))
    simpa [h] using hvalue

/-- **The pieces of the parts are the template.** -/
theorem matchesPieces_parts (parts : List (List Char)) (hparts : ∀ part ∈ parts, '\x7b' ∉ part)
    (htext : '\n' ∉ text) : matchesPieces (parts.flatMap partPieces) text ↔
      Fills (parts.flatMap ('\x7b' :: ·)) text := by
  induction parts generalizing text with
  | nil =>
    rw [flatMap_nil, matchesPieces, List.isEmpty_iff]
    constructor
    · rintro rfl
      exact .nil
    · intro h
      cases h
      rfl
  | cons part parts ih =>
    have ih := fun text (htext : '\n' ∉ text) => @ih text
      (fun p hp => hparts p (mem_cons_of_mem _ hp)) htext
    have hpart := hparts part mem_cons_self
    have hnext : ∀ c, (parts.flatMap ('\x7b' :: ·)).head? = some c → c = '\x7b' := by
      intro c hc
      cases parts with
      | nil => cases hc
      | cons next parts => exact (Option.some.inj hc).symm
    rw [flatMap_cons, flatMap_cons, cons_append]
    rcases hclose : part.dropWhile (· ≠ '\x7d') with - | ⟨d, rest⟩
    · -- no placeholder: the brace stands for itself
      have hnot : '\x7d' ∉ part := by
        intro hmem
        have hall := dropWhile_eq_nil_iff.mp hclose _ hmem
        simp at hall
      have hpieces : partPieces part = [.literal ('\x7b' :: part)] := by
        rw [partPieces, hclose]
      rw [hpieces, singleton_append, matchesPieces_literal,
        fills_cons (not_startsPlaceholder_part hnot hnext)]
      constructor
      · rintro ⟨rest, rfl, h⟩
        refine ⟨part ++ rest, rfl, (fills_append hpart).mpr ⟨rest, rfl, (ih rest ?_).mp h⟩⟩
        exact fun hmem => htext (mem_append_right _ hmem)
      · rintro ⟨rest, rfl, h⟩
        obtain ⟨rest', rfl, h'⟩ := (fills_append hpart).mp h
        refine ⟨rest', rfl, (ih rest' ?_).mpr h'⟩
        exact fun hmem => htext (mem_cons_of_mem _ (mem_append_right _ hmem))
    · obtain rfl : d = '\x7d' := by
        have hne : part.dropWhile (· ≠ '\x7d') ≠ [] := by
          rw [hclose]
          exact cons_ne_nil d rest
        have hd := head_dropWhile_not _ hne
        simp only [hclose, head_cons] at hd
        simpa using hd
      obtain ⟨var, rfl, hvar⟩ : ∃ var, part = var ++ '\x7d' :: rest ∧ '\x7d' ∉ var := by
        refine ⟨part.takeWhile (· ≠ '\x7d'), ?_, fun hmem => ?_⟩
        · rw [← hclose, takeWhile_append_dropWhile]
        · have hc := mem_takeWhile_imp hmem
          simp at hc
      have hopen : '\x7b' ∉ var := fun hmem => hpart (mem_append_left _ hmem)
      have hrest : '\x7b' ∉ rest := fun hmem =>
        hpart (mem_append_right _ (mem_cons_of_mem _ hmem))
      have hpieces : partPieces (var ++ '\x7d' :: rest) = [.any, .literal rest] := by
        rw [partPieces, hclose]
      have hassoc : var ++ '\x7d' :: rest ++ parts.flatMap ('\x7b' :: ·) =
        var ++ '\x7d' :: (rest ++ parts.flatMap ('\x7b' :: ·)) := by simp
      rw [hpieces, hassoc, fills_placeholder hopen hvar]
      show matchesPieces (.any :: .literal rest :: parts.flatMap partPieces) text ↔ _
      rw [matchesPieces_any htext]
      refine exists_congr fun value => exists_congr fun tail => and_congr_right ?_
      rintro rfl
      rw [matchesPieces_literal, fills_append hrest]
      refine exists_congr fun tail => and_congr_right ?_
      rintro rfl
      exact ih tail fun hmem =>
        htext (mem_append_right _ (mem_append_right _ hmem))

/-- **A template matches what it becomes when its placeholders are filled in.** -/
theorem isMatch_iff (template : List Char) (htext : '\n' ∉ text) :
    isMatch template text ↔ Fills template text := by
  rcases hsplit : template.splitOn '\x7b' with - | ⟨first, parts⟩
  · exact absurd hsplit (splitOn_ne_nil _ _)
  have hmem : ∀ part ∈ first :: parts, '\x7b' ∉ part := fun part hpart =>
    Text.notMem_of_mem_splitOn (hsplit ▸ hpart)
  have htemplate := Text.eq_append_of_splitOn hsplit
  rw [isMatch, templatePieces, hsplit, matchesPieces_literal, htemplate,
    fills_append (hmem first mem_cons_self)]
  refine exists_congr fun rest => and_congr_right ?_
  rintro rfl
  exact matchesPieces_parts parts (fun p hp => hmem p (mem_cons_of_mem _ hp))
    fun h => htext (mem_append_right _ h)

end Regex

/-! ### The two spellings -/

section Spellings

variable {t e : List Char}

/-- `uri'` is `uri`, or its spelling under the other domain. -/
def Spelling (uri uri' : List Char) : Prop :=
  uri' = uri ∨ ∃ rest, (uri = specUriBase ++ rest ∧ uri' = legacySpecUriBase ++ rest) ∨
    (uri = legacySpecUriBase ++ rest ∧ uri' = specUriBase ++ rest)

theorem not_legacy_spec (rest : List Char) : ¬ legacySpecUriBase <+: specUriBase ++ rest := by
  rintro ⟨rest', h⟩
  have htake := congrArg (List.take 9) h
  rw [take_append_of_le_length (by decide), take_append_of_le_length (by decide)] at htake
  exact absurd htake (by decide)

theorem canonicalSpecUri_legacy (rest : List Char) :
    canonicalSpecUri (legacySpecUriBase ++ rest) = specUriBase ++ rest := by
  rw [canonicalSpecUri, Text.isPrefixOf?_append]

theorem canonicalSpecUri_of_not_legacy (h : ¬ legacySpecUriBase <+: t) :
    canonicalSpecUri t = t := by
  rw [canonicalSpecUri, Text.isPrefixOf?_eq_none h]

theorem spelling_canonicalSpecUri (uri : List Char) : Spelling uri (canonicalSpecUri uri) := by
  by_cases h : legacySpecUriBase <+: uri
  · obtain ⟨rest, rfl⟩ := h
    exact .inr ⟨rest, .inr ⟨rfl, canonicalSpecUri_legacy rest⟩⟩
  · exact .inl (canonicalSpecUri_of_not_legacy h)

theorem open_notMem_specUriBase : '\x7b' ∉ specUriBase ∧ '\x7b' ∉ legacySpecUriBase := by decide

theorem newline_notMem_canonicalSpecUri (h : '\n' ∉ e) : '\n' ∉ canonicalSpecUri e := by
  have hbase : '\n' ∉ specUriBase := by decide
  by_cases hlegacy : legacySpecUriBase <+: e
  · obtain ⟨rest, rfl⟩ := hlegacy
    rw [canonicalSpecUri_legacy, mem_append, not_or]
    exact ⟨hbase, fun hmem => h (mem_append_right _ hmem)⟩
  · rwa [canonicalSpecUri_of_not_legacy hlegacy]

/-- A text and its canonical spelling, when it has two. -/
theorem canonicalSpecUri_of_spelling
    (h : e = specUriBase ++ rest ∨ e = legacySpecUriBase ++ rest) :
    canonicalSpecUri e = specUriBase ++ rest := by
  rcases h with rfl | rfl
  · exact canonicalSpecUri_of_not_legacy (not_legacy_spec rest)
  · exact canonicalSpecUri_legacy rest

theorem spec_append_ne_legacy (rest rest' : List Char) :
    specUriBase ++ rest ≠ legacySpecUriBase ++ rest' :=
  fun h => not_legacy_spec rest ⟨rest', h.symm⟩

/-- The spellings of a text that has two. -/
theorem Spelling.of_base
    (hbase : base = specUriBase ∨ base = legacySpecUriBase) (h : Spelling e (base ++ rest)) :
    e = specUriBase ++ rest ∨ e = legacySpecUriBase ++ rest := by
  rcases h with heq | ⟨rest', ⟨rfl, heq⟩ | ⟨rfl, heq⟩⟩
  · rcases hbase with rfl | rfl
    · exact .inl heq.symm
    · exact .inr heq.symm
  · rcases hbase with rfl | rfl
    · exact absurd heq (spec_append_ne_legacy _ _)
    · exact .inl (by rw [append_cancel_left heq])
  · rcases hbase with rfl | rfl
    · exact .inr (by rw [append_cancel_left heq])
    · exact absurd heq.symm (spec_append_ne_legacy _ _)

/-- A template with a base in front matches an error under the canonical
spelling of both, if it does so under some spelling. -/
theorem fills_canonical_of_base
    (hbase : base = specUriBase ∨ base = legacySpecUriBase) (he : Spelling e e')
    (h : Fills (base ++ rest) e') : Fills (specUriBase ++ rest) (canonicalSpecUri e) := by
  have hopen : '\x7b' ∉ base := by
    rcases hbase with rfl | rfl
    · exact open_notMem_specUriBase.1
    · exact open_notMem_specUriBase.2
  obtain ⟨tail, rfl, htail⟩ := (fills_append hopen).mp h
  rw [canonicalSpecUri_of_spelling (he.of_base hbase)]
  exact (fills_append open_notMem_specUriBase.1).mpr ⟨tail, rfl, htail⟩

/-- Under some spelling, the template can be filled in to the error. -/
def MatchesSomeSpelling (t e : List Char) : Prop :=
  ∃ t' e', Spelling t t' ∧ Spelling e e' ∧ Fills t' e'

/-- The template matches the legacy spelling of the error only if it begins with
the legacy base, or matches the current spelling as well. -/
def CoversNoLegacyBase (t e : List Char) : Prop :=
  ∀ rest, e = specUriBase ++ rest ∨ e = legacySpecUriBase ++ rest →
    Fills t (legacySpecUriBase ++ rest) → legacySpecUriBase <+: t ∨ Fills t (specUriBase ++ rest)

theorem fills_canonical (hcovers : CoversNoLegacyBase t e) (h : MatchesSomeSpelling t e) :
    Fills (canonicalSpecUri t) (canonicalSpecUri e) := by
  obtain ⟨t', e', ht, he, hfills⟩ := h
  by_cases hbase : ∃ rest, t = specUriBase ++ rest ∨ t = legacySpecUriBase ++ rest
  · -- both spellings of the template begin with a base
    obtain ⟨rest, hrest⟩ := hbase
    rw [canonicalSpecUri_of_spelling hrest]
    have ht' : t' = specUriBase ++ rest ∨ t' = legacySpecUriBase ++ rest := by
      rcases ht with rfl | ⟨rest', ⟨rfl, rfl⟩ | ⟨rfl, rfl⟩⟩
      · exact hrest
      · rcases hrest with heq | heq
        · exact .inr (by rw [append_cancel_left heq])
        · exact absurd heq (spec_append_ne_legacy _ _)
      · rcases hrest with heq | heq
        · exact absurd heq.symm (spec_append_ne_legacy _ _)
        · exact .inl (by rw [append_cancel_left heq])
    rcases ht' with rfl | rfl
    · exact fills_canonical_of_base (.inl rfl) he hfills
    · exact fills_canonical_of_base (.inr rfl) he hfills
  · have hlegacy : ¬ legacySpecUriBase <+: t := fun ⟨rest, hrest⟩ => hbase ⟨rest, .inr hrest.symm⟩
    obtain rfl : t' = t := by
      rcases ht with rfl | ⟨rest, ⟨rfl, -⟩ | ⟨rfl, -⟩⟩
      · rfl
      · exact absurd ⟨rest, .inl rfl⟩ hbase
      · exact absurd ⟨rest, .inr rfl⟩ hbase
    rw [canonicalSpecUri_of_not_legacy hlegacy]
    -- the spellings of the error
    rcases he with rfl | ⟨rest, ⟨rfl, rfl⟩ | ⟨rfl, rfl⟩⟩
    · by_cases heLegacy : legacySpecUriBase <+: e'
      · obtain ⟨rest, rfl⟩ := heLegacy
        rw [canonicalSpecUri_legacy]
        exact (hcovers rest (.inr rfl) hfills).resolve_left hlegacy
      · rwa [canonicalSpecUri_of_not_legacy heLegacy]
    · rw [canonicalSpecUri_of_spelling (.inl rfl)]
      exact (hcovers rest (.inl rfl) hfills).resolve_left hlegacy
    · rwa [canonicalSpecUri_legacy]

/-- **The filter accepts an error exactly if the template can be filled in to it
under some spelling of both, provided the template does not match the legacy
spelling alone**, by a placeholder in the place of its base. -/
theorem typeMatches_iff (he : '\n' ∉ e) :
    (typeMatches t e ↔ MatchesSomeSpelling t e) ↔ CoversNoLegacyBase t e := by
  rw [typeMatches, isMatch_iff _ (newline_notMem_canonicalSpecUri he)]
  constructor
  · intro hiff rest hrest hfills
    by_cases hlegacy : legacySpecUriBase <+: t
    · exact .inl hlegacy
    · have hspelling : Spelling e (legacySpecUriBase ++ rest) := by
        rcases hrest with rfl | rfl
        · exact .inr ⟨rest, .inl ⟨rfl, rfl⟩⟩
        · exact .inl rfl
      have hcode := hiff.mpr ⟨t, _, .inl rfl, hspelling, hfills⟩
      rw [canonicalSpecUri_of_not_legacy hlegacy, canonicalSpecUri_of_spelling hrest] at hcode
      exact .inr hcode
  · intro hcovers
    refine ⟨fun h => ?_, fun h => fills_canonical hcovers h⟩
    exact ⟨_, _, spelling_canonicalSpecUri t, spelling_canonicalSpecUri e, h⟩

/-- A filter of the legacy spelling, with a placeholder for the kind of error. -/
def legacyKindFilter : List Char := legacySpecUriBase ++ "1.0.0/errors/\x7bkind\x7d".toList

/-- A filter with a placeholder in the place of the base. -/
def legacyDomainFilter : List Char := "https://serverlessworkflow.io/\x7brest\x7d".toList

/-- The runtime error, under the current and the legacy spelling. -/
def runtimeType : List Char := specUriBase ++ "1.0.0/errors/runtime".toList
def legacyRuntimeType : List Char := legacySpecUriBase ++ "1.0.0/errors/runtime".toList

theorem typeMatches_legacyKindFilter :
    typeMatches legacyKindFilter runtimeType ∧ MatchesSomeSpelling legacyKindFilter runtimeType := by
  have haccepts : typeMatches legacyKindFilter runtimeType := by decide
  have hcovers : CoversNoLegacyBase legacyKindFilter runtimeType := fun _ _ _ =>
    .inl (prefix_append _ _)
  exact ⟨haccepts, ((typeMatches_iff (by decide)).mpr hcovers).mp haccepts⟩

/-- **A filter that can be filled in to an error does not accept it.** -/
theorem legacyDomainFilter_rejects :
    Fills legacyDomainFilter legacyRuntimeType ∧
      typeMatches legacyDomainFilter legacyRuntimeType = false :=
  ⟨(isMatch_iff _ (by decide)).mp (by decide), by decide⟩

end Spellings

end Jobworkerp.Workflow
