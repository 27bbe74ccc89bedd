/-
Jobworkerp/Workflow/SecretNames.lean

Which secrets an expression reads (`execute/secret.rs`).

Before a call is transformed, its payload is scanned for references to
`$secrets`.  A reference that is found must be declared and set, and its value
is put into the object the expression sees.  A reference that is not found reads
`null`.

The scan tells strings from code by a switch that every quotation mark turns; a
jq expression has code inside of strings as well, and comments.

* `mem_dotNotationNames`, `mem_bracketNames`: what the scan finds.
* `quoteAfter_eq_none_of_inCode`: without interpolation, comments and
  apostrophes the switch is right.
* `read_secret_resolved`: a secret that is read is found and resolved, if every
  place that reads one is code to the switch as well.
* `interpolated_secret_missed`: a secret in an interpolation is not found.
-/
import Jobworkerp.Workflow.Expressions

namespace Jobworkerp.Workflow

open Text List

/-! ### The scan -/

/-- Inside of which quotes a text ends, and whether after a backslash. -/
abbrev QuoteState := Option (Char × Bool)

def QuoteState.next : QuoteState → Char → QuoteState
  | some (quote, true), _ => some (quote, false)
  | some (quote, false), c =>
    if c = '\\' then some (quote, true) else if c = quote then none else some (quote, false)
  | none, c => if c = '"' ∨ c = '\'' then some (c, false) else none

/-- The state of the switch behind a text.  `is_inside_quoted_literal` asks
whether it is in quotes there. -/
def quoteAfter (text : List Char) : QuoteState := text.foldl .next none

/-- `without_quoted_literals`, from a state of the switch. -/
def blankQuoted : QuoteState → List Char → List Char
  | _, [] => []
  | state, c :: rest =>
    (if state = none ∧ c ≠ '"' ∧ c ≠ '\'' then c else ' ') :: blankQuoted (state.next c) rest

def withoutQuotedLiterals (text : List Char) : List Char := blankQuoted none text

def isNameChar (c : Char) : Bool := c.isAlphanum || c = '_'

/-- `has_secret_variable_boundary`, from the character in front. -/
def hasSecretVariableBoundary (previous : Option Char) : Bool :=
  previous.all fun c => !(isNameChar c || c = '.')

/-- A name is inserted unless it is empty. -/
def insertName (name : List Char) (names : List (List Char)) : List (List Char) :=
  if name.isEmpty then names else name :: names

/-- `collect_dot_notation_names`: `skip` characters belong to what was found
before. -/
def dotNotationNames (needle : List Char) (requireLeadingBoundary : Bool) :
    ℕ → Option Char → List Char → List (List Char)
  | _, _, [] => []
  | skip + 1, _, c :: rest => dotNotationNames needle requireLeadingBoundary skip (some c) rest
  | 0, previous, c :: rest =>
    if needle.isPrefixOf (c :: rest) then
      if requireLeadingBoundary && !hasSecretVariableBoundary previous then
        dotNotationNames needle requireLeadingBoundary (needle.length - 1) (some c) rest
      else
        let name := ((c :: rest).drop needle.length).takeWhile isNameChar
        insertName name (dotNotationNames needle requireLeadingBoundary
          (needle.length + name.length - 1) (some c) rest)
    else dotNotationNames needle requireLeadingBoundary 0 (some c) rest

/-- `collect_bracket_names`. -/
def bracketNames (opening closing : List Char) (requireLeadingBoundary : Bool) :
    ℕ → Option Char → QuoteState → List Char → List (List Char)
  | _, _, _, [] => []
  | skip + 1, _, state, c :: rest =>
    bracketNames opening closing requireLeadingBoundary skip (some c) (state.next c) rest
  | 0, previous, state, c :: rest =>
    if opening.isPrefixOf (c :: rest) then
      if state ≠ none ∨ (requireLeadingBoundary && !hasSecretVariableBoundary previous) then
        bracketNames opening closing requireLeadingBoundary (opening.length - 1) (some c)
          (state.next c) rest
      else
        match findBefore closing ((c :: rest).drop opening.length) with
        | none => []
        | some name =>
          insertName name (bracketNames opening closing requireLeadingBoundary
            (opening.length + name.length + closing.length - 1) (some c) (state.next c) rest)
    else
      bracketNames opening closing requireLeadingBoundary 0 (some c) (state.next c) rest

/-- The references of one text: `variable` with a dot, and in brackets with
either quotes. -/
def namesOf (variableName text : List Char) (requireLeadingBoundary : Bool) : List (List Char) :=
  dotNotationNames (variableName ++ ['.']) requireLeadingBoundary 0 none
      (withoutQuotedLiterals text) ++
    bracketNames (variableName ++ ['[', '\'']) ['\'', ']'] requireLeadingBoundary 0 none none
      text ++
    bracketNames (variableName ++ ['[', '"']) ['"', ']'] requireLeadingBoundary 0 none none text

def secretsVariable : List Char := "secrets".toList

/-- `collect_secret_names_from_string`; the tags of a Liquid template are found
by `tags`. -/
def secretNamesOfString (tags : List Char → List (List Char)) (text : List Char) :
    List (List Char) :=
  match transformExpressionBody text with
  | some (.jq span) => namesOf ('$' :: secretsVariable) span false
  | some (.liquid span) => (tags span).flatMap fun tag => namesOf secretsVariable tag true
  | none => []

/-- `collect_secret_names_from_value`. -/
def secretNamesOfValue (tags : List Char → List (List Char)) : Json → List (List Char)
  | .string text => secretNamesOfString tags text.toList
  | .array items => ofItems items
  | .object fields => ofFields fields
  | .null | .bool _ | .number _ => []
where
  ofItems : List Json → List (List Char)
    | [] => []
    | item :: items => secretNamesOfValue tags item ++ ofItems items
  ofFields : List (String × Json) → List (List Char)
    | [] => []
    | (_, value) :: fields => secretNamesOfValue tags value ++ ofFields fields

/-- `referenced_secret_names`; `parse` is the JSON reader. -/
def referencedSecretNames (tags : List Char → List (List Char)) (parse : List Char → Option Json)
    (serialized : List Char) : List (List Char) :=
  match parse serialized with
  | some value => secretNamesOfValue tags value
  | none => secretNamesOfString tags serialized

/-! ### Resolution -/

structure SecretAccessError where
  message : List Char
  deriving DecidableEq, Repr

def undeclaredSecret (name : List Char) : SecretAccessError :=
  ⟨"secret '".toList ++ name ++
    "' is not declared in use.secrets; declare it before referencing it".toList⟩

def unsetSecret (name envName : List Char) : SecretAccessError :=
  ⟨"secret '".toList ++ name ++ "' is not set; expected environment variable ".toList ++ envName⟩

def envVarName (secretName : List Char) : List Char :=
  "WORKFLOW_SECRET_".toList ++
    (secretName.map fun c => if c.isAlphanum then c else '_').map Char.toUpper

def resolveSecret (name : List Char) (declared : List (List Char))
    (getter : List Char → Option (List Char)) : Except SecretAccessError (List Char) :=
  if name ∈ declared then
    match getter (envVarName name) with
    | some value =>
      if value.isEmpty then .error (unsetSecret name (envVarName name)) else .ok value
    | none => .error (unsetSecret name (envVarName name))
  else .error (undeclaredSecret name)

/-- A resolved secret as a value: an object if it reads as one. -/
def secretValue (parse : List Char → Option Json) (raw : List Char) : Json :=
  if (raw.dropWhile isWhitespace).head? = some '\x7b' then
    (parse raw).getD (.string (.ofList raw))
  else .string (.ofList raw)

/-- `resolve_referenced_secrets`; `rest` are the declared names still to go
through. -/
def resolveReferencedSecrets (parse : List Char → Option Json)
    (getter : List Char → Option (List Char)) (declared referenced : List (List Char)) :
    List (List Char) → Except SecretAccessError (List (String × Json))
  | [] => .ok []
  | name :: rest =>
    if name ∈ referenced then do
      let raw ← resolveSecret name declared getter
      let map ← resolveReferencedSecrets parse getter declared referenced rest
      .ok ((.ofList name, secretValue parse raw) :: map)
    else resolveReferencedSecrets parse getter declared referenced rest

def rejectUndeclaredSecretReferences (declared : List (List Char)) :
    List (List Char) → Except SecretAccessError Unit
  | [] => .ok ()
  | name :: rest =>
    if name ∈ declared then rejectUndeclaredSecretReferences declared rest
    else .error (undeclaredSecret name)

def resolveSecretsFor (tags : List Char → List (List Char)) (parse : List Char → Option Json)
    (getter : List Char → Option (List Char)) (declared : List (List Char))
    (serialized : List Char) : Except SecretAccessError Json := do
  let referenced := referencedSecretNames tags parse serialized
  rejectUndeclaredSecretReferences declared referenced
  let map ← resolveReferencedSecrets parse getter declared referenced declared
  .ok (.object map)

/-! ### What the scan finds -/

section Scan

variable {x : Char} {needle pre suf t name rest : List Char} {skip : ℕ} {previous : Option Char}
  {state : QuoteState}

theorem mem_insertName (h : name ∈ names) (other : List Char) :
    name ∈ insertName other names := by
  unfold insertName
  split
  · exact h
  · exact mem_cons_of_mem _ h

theorem mem_insertName_self (h : name ≠ []) (names : List (List Char)) :
    name ∈ insertName name names := by
  unfold insertName
  rw [if_neg (fun h' => h (isEmpty_iff.mp h'))]
  exact mem_cons_self

/-- Two occurrences of a letter: the second is not in a part behind the first
that does not have the letter. -/
theorem length_le_of_notMem (hpart : x ∉ part)
    (h : part ++ rest = pre' ++ x :: suf) : part.length ≤ pre'.length := by
  by_contra hlt
  rw [not_le] at hlt
  have hget := congrArg (·[pre'.length]?) h
  rw [List.getElem?_append_left hlt, List.getElem?_append_right le_rfl, Nat.sub_self,
    List.getElem?_cons_zero] at hget
  exact hpart (mem_of_getElem? hget)

/-- **Every reference with a dot is found.**  No reference begins inside of
another, because the needle has its first character once. -/
theorem mem_dotNotationNames (hx : x ∉ needle) (hxname : isNameChar x = false)
    (hskip : skip ≤ pre.length) (hname : suf.takeWhile isNameChar ≠ []) : suf.takeWhile isNameChar ∈
      dotNotationNames (x :: needle) false skip previous (pre ++ (x :: needle ++ suf)) := by
  induction pre generalizing skip previous with
  | nil =>
    obtain rfl : skip = 0 := Nat.le_zero.mp hskip
    have hprefix : (x :: needle).isPrefixOf (x :: (needle ++ suf)) = true :=
      isPrefixOf_iff_prefix.mpr ⟨suf, rfl⟩
    rw [nil_append, cons_append, dotNotationNames, if_pos hprefix,
      if_neg (by simp)]
    have hdrop : (x :: (needle ++ suf)).drop (x :: needle).length = suf := by simp
    rw [hdrop]
    exact mem_insertName_self hname _
  | cons c pre ih =>
    rw [cons_append]
    cases skip with
    | succ skip =>
      rw [dotNotationNames]
      exact ih (Nat.le_of_succ_le_succ hskip)
    | zero =>
      rw [dotNotationNames]
      split_ifs with hprefix hboundary
      · cases hboundary
      · -- another reference in front of this one
        refine mem_insertName (ih ?_) _
        obtain ⟨after, hafter⟩ := isPrefixOf_iff_prefix.mp hprefix
        rw [cons_append] at hafter
        obtain ⟨rfl, htail⟩ := List.cons.inj hafter
        have hdrop : (x :: (pre ++ (x :: needle ++ suf))).drop (x :: needle).length = after := by
          rw [← htail]
          simp
        rw [hdrop]
        have hnot : x ∉ needle ++ after.takeWhile isNameChar := by
          rw [mem_append]
          rintro (h | h)
          · exact hx h
          · have hall := mem_takeWhile_imp h
            rw [hxname] at hall
            cases hall
        have hparts : needle ++ after.takeWhile isNameChar ++ after.dropWhile isNameChar =
            pre ++ x :: (needle ++ suf) := by
          rw [append_assoc, takeWhile_append_dropWhile, htail]
          rfl
        have hlength := length_le_of_notMem hnot hparts
        rw [length_append] at hlength
        rw [length_cons]
        omega
      · exact ih (Nat.zero_le _)

/-! ### The switch -/

theorem blankQuoted_append (a b : List Char) (state : QuoteState) :
    blankQuoted state (a ++ b) = blankQuoted state a ++ blankQuoted (a.foldl .next state) b := by
  induction a generalizing state with
  | nil => rfl
  | cons c a ih => rw [cons_append, blankQuoted, blankQuoted, ih, foldl_cons,
      cons_append]

/-- Text without quotes stays as it is, outside of quotes. -/
theorem blankQuoted_of_notMem (hdouble : '"' ∉ t) (hsingle : '\'' ∉ t) :
    blankQuoted none t = t ∧ t.foldl QuoteState.next none = none := by
  induction t with
  | nil => exact ⟨rfl, rfl⟩
  | cons c t ih =>
    obtain ⟨hblank, hstate⟩ := ih (fun h => hdouble (mem_cons_of_mem _ h))
      (fun h => hsingle (mem_cons_of_mem _ h))
    have hc : c ≠ '"' ∧ c ≠ '\'' :=
      ⟨fun h => hdouble (h ▸ mem_cons_self), fun h => hsingle (h ▸ mem_cons_self)⟩
    have hnext : QuoteState.next none c = none := if_neg (by tauto)
    rw [blankQuoted, if_pos ⟨rfl, hc⟩, hnext, hblank, foldl_cons, hnext, hstate]
    exact ⟨rfl, rfl⟩

/-- A name is not made longer by what is blanked behind it. -/
theorem takeWhile_blankQuoted (hname : ∀ c ∈ name, isNameChar c)
    (hend : ∀ c, t.head? = some c → isNameChar c = false) :
    (name ++ blankQuoted none t).takeWhile isNameChar = name := by
  rw [takeWhile_append_of_pos hname]
  cases t with
  | nil => rw [blankQuoted, takeWhile_nil, append_nil]
  | cons c t =>
    have hc := hend c rfl
    have hblank : isNameChar (if (none : QuoteState) = none ∧ c ≠ '"' ∧ c ≠ '\'' then c else ' ') =
        false := by
      split_ifs
      · exact hc
      · decide
    rw [blankQuoted, takeWhile_cons_of_neg (by rw [hblank]; exact Bool.false_ne_true),
      append_nil]

/-- Inside of double quotes it takes a quotation mark to get out. -/
theorem foldl_next_ne_none (ht : '"' ∉ t) :
    t.foldl QuoteState.next (some ('"', escaped)) ≠ none := by
  induction t generalizing escaped with
  | nil => exact nofun
  | cons c t ih =>
    have hc : c ≠ '"' := fun h => ht (h ▸ mem_cons_self)
    have hrest := fun b => @ih b fun h => ht (mem_cons_of_mem _ h)
    rw [foldl_cons]
    cases escaped with
    | true => exact hrest false
    | false =>
      rw [QuoteState.next]
      split_ifs
      · exact hrest true
      · exact hrest false

/-- An opening bracket with its quotation mark: its first character is in it
once. -/
structure IsOpening (x : Char) (opening : List Char) : Prop where
  eq : ∃ mid, opening = x :: (mid ++ ['"']) ∧ x ∉ mid ∧ '"' ∉ mid ∧ '\'' ∉ mid
  double : x ≠ '"'
  single : x ≠ '\''
  bracket : x ≠ ']'

variable {opening : List Char}

/-- Behind the opening bracket, the switch is inside of quotes. -/
theorem IsOpening.foldl_next (h : IsOpening x opening) :
    opening.foldl QuoteState.next none = some ('"', false) := by
  obtain ⟨mid, rfl, -, hdouble, hsingle⟩ := h.eq
  have hquote : '"' ∉ x :: mid := not_mem_cons_of_ne_of_not_mem h.double.symm hdouble
  have hapostrophe : '\'' ∉ x :: mid := not_mem_cons_of_ne_of_not_mem h.single.symm hsingle
  rw [← cons_append, foldl_append, (blankQuoted_of_notMem hquote hapostrophe).2]
  rfl

/-- A reference ends in front of the next one. -/
theorem IsOpening.length_le (h : IsOpening x opening)
    (heq : opening ++ rest = x :: (pre ++ x :: suf)) : opening.length - 1 ≤ pre.length := by
  obtain ⟨mid, rfl, hmid, -⟩ := h.eq
  have hnot : x ∉ mid ++ ['"'] := by
    simp only [mem_append, mem_singleton, not_or]
    exact ⟨hmid, h.double⟩
  exact length_le_of_notMem hnot (List.cons.inj heq).2

/-- Every place outside of quotes where the bracket opens is closed with one
literal. -/
def ClosedDirectly (opening : List Char) (state : QuoteState) (text : List Char) : Prop :=
  ∀ pre suf, text = pre ++ (opening ++ suf) → pre.foldl .next state = none →
    ∃ m rest, suf = m ++ ('"' :: ']' :: rest) ∧ '"' ∉ m

theorem ClosedDirectly.tail
    (h : ClosedDirectly opening state (c :: t)) : ClosedDirectly opening (state.next c) t := by
  rintro pre suf rfl hpre
  exact h (c :: pre) suf rfl hpre

/-- What is skipped behind an opening bracket outside of quotes does not reach a
later reference outside of quotes. -/
theorem IsOpening.literal_le {opening m pre : List Char} (h : IsOpening x opening) (hm : '"' ∉ m)
    (heq : opening ++ (m ++ ('"' :: ']' :: rest)) = x :: (pre ++ x :: suf))
    (hpre : (x :: pre).foldl QuoteState.next none = none) :
    opening.length + m.length + 1 ≤ pre.length := by
  have hopening := h.length_le heq
  rw [← cons_append] at heq
  -- the later reference is behind the opening bracket
  rcases append_eq_append_iff.mp heq with ⟨a, ha, hrest⟩ | ⟨b, hb, hrest⟩
  · rw [ha, foldl_append, h.foldl_next] at hpre
    rcases append_eq_append_iff.mp hrest with ⟨d, hd, hclose⟩ | ⟨d, hd, -⟩
    · -- it is not at the quotation mark, nor at the bracket that closes
      have hlength : 2 ≤ d.length := by
        rcases d with - | ⟨d1, - | ⟨d2, d⟩⟩
        · exact absurd (List.cons.inj hclose).1.symm h.double
        · exact absurd (List.cons.inj (List.cons.inj hclose).2).1.symm h.bracket
        · simp
      have := congrArg List.length ha
      rw [hd, length_cons, length_append, length_append] at this
      omega
    · -- inside of the literal the switch is inside of quotes
      have ha' : '"' ∉ a := fun hmem => hm (hd ▸ mem_append_left _ hmem)
      exact absurd hpre (foldl_next_ne_none ha')
  · have := congrArg List.length hb
    rw [length_append, length_cons] at this
    cases b with
    | nil =>
      rw [append_nil] at hb
      rw [← hb, h.foldl_next] at hpre
      cases hpre
    | cons c b =>
      rw [length_cons] at this
      omega

/-- **Every reference in brackets is found**, if none in front of it is closed
by something else than one literal. -/
theorem mem_bracketNames (h : IsOpening x opening) (hname : '"' ∉ name)
    (hne : name ≠ []) (hskip : skip ≤ pre.length) (hstate : pre.foldl .next state = none)
    (hclosed : ClosedDirectly opening state (pre ++ (opening ++ (name ++ ('"' :: ']' :: suf))))) :
    name ∈ bracketNames opening ['"', ']'] false skip previous state
      (pre ++ (opening ++ (name ++ ('"' :: ']' :: suf)))) := by
  obtain ⟨mid, hopening, -⟩ := h.eq
  induction pre generalizing skip previous state with
  | nil =>
    obtain rfl : skip = 0 := Nat.le_zero.mp hskip
    obtain rfl : state = none := hstate
    have hprefix : opening.isPrefixOf (opening ++ (name ++ ('"' :: ']' :: suf))) = true :=
      isPrefixOf_iff_prefix.mpr ⟨_, rfl⟩
    have hdrop : (opening ++ (name ++ ('"' :: ']' :: suf))).drop opening.length =
        name ++ (['"', ']'] ++ suf) := by simp
    rw [nil_append]
    rw [hopening] at hprefix hdrop ⊢
    rw [cons_append] at hprefix hdrop ⊢
    rw [bracketNames, if_pos hprefix, if_neg (by simp), hdrop, findBefore_append hname]
    exact mem_insertName_self hne _
  | cons c pre ih =>
    rw [cons_append] at hclosed ⊢
    cases skip with
    | succ skip =>
      rw [bracketNames]
      exact ih (Nat.le_of_succ_le_succ hskip) hstate hclosed.tail
    | zero =>
      rw [bracketNames]
      by_cases hprefix :
          opening.isPrefixOf (c :: (pre ++ (opening ++ (name ++ ('"' :: ']' :: suf))))) = true
      · -- another reference in front of this one
        obtain ⟨after, hafter⟩ := isPrefixOf_iff_prefix.mp hprefix
        have hc : c = x := by
          rw [hopening] at hafter
          exact (List.cons.inj hafter).1.symm
        subst hc
        have hsplit : opening ++ after =
            c :: (pre ++ c :: (mid ++ ['"'] ++ (name ++ ('"' :: ']' :: suf)))) := by
          rw [hafter]
          nth_rewrite 1 [hopening]
          rfl
        rw [if_pos hprefix]
        by_cases hquoted : state ≠ none
        · rw [if_pos (.inl hquoted)]
          exact ih (h.length_le hsplit) hstate hclosed.tail
        · rw [not_not] at hquoted
          subst hquoted
          obtain ⟨m, rest, rfl, hm⟩ := hclosed [] after hafter.symm rfl
          have hdrop : (c :: (pre ++ (opening ++ (name ++ ('"' :: ']' :: suf))))).drop
              opening.length = m ++ (['"', ']'] ++ rest) := by
            rw [← hafter]
            simp
          rw [if_neg (by simp), hdrop, findBefore_append hm]
          have hlength := h.literal_le hm hsplit hstate
          refine mem_insertName (ih ?_ hstate hclosed.tail) m
          simp only [length_cons, length_nil]
          omega
      · rw [if_neg hprefix]
        exact ih (Nat.zero_le _) hstate hclosed.tail

end Scan

/-! ### Code of a jq expression -/

/-- Where a jq expression stands: in code with some parentheses open, in a
string (maybe behind a backslash), or in a comment. -/
inductive JqFrame
  | code (depth : ℕ)
  | string (escaped : Bool)
  | comment
  deriving DecidableEq, Repr

/-- The innermost frame comes first.  `\(` in a string opens code, and its
closing parenthesis leads back into the string. -/
def jqNext : List JqFrame → Char → List JqFrame
  | .code depth :: outer, c =>
    if c = '"' then .string false :: .code depth :: outer
    else if c = '#' then .comment :: .code depth :: outer
    else if c = '(' then .code (depth + 1) :: outer
    else if c = ')' ∧ depth = 0 ∧ outer ≠ [] then outer
    else if c = ')' then .code (depth - 1) :: outer
    else .code depth :: outer
  | .string true :: outer, c =>
    if c = '(' then .code 0 :: .string false :: outer else .string false :: outer
  | .string false :: outer, c =>
    if c = '\\' then .string true :: outer
    else if c = '"' then outer
    else .string false :: outer
  | .comment :: outer, c => if c = '\n' then outer else .comment :: outer
  | [], _ => []

def jqAfter (text : List Char) : List JqFrame := text.foldl jqNext [.code 0]

/-- What follows the text is code. -/
def InCode (text : List Char) : Prop := ∃ depth outer, jqAfter text = .code depth :: outer

def dotNeedle : List Char := '$' :: secretsVariable ++ ['.']

def doubleOpening : List Char := '$' :: secretsVariable ++ ['[', '"']

/-- The text begins with a reference to the secret: `$secrets.name`, or
`$secrets["name"]` with a plain literal. -/
inductive Reference : List Char → List Char → Prop
  | dot {name rest : List Char} (hne : name ≠ []) (hname : ∀ c ∈ name, isNameChar c)
      (hend : ∀ c, rest.head? = some c → isNameChar c = false) :
      Reference name (dotNeedle ++ (name ++ rest))
  | bracket {name rest : List Char} (hne : name ≠ []) (hquote : '"' ∉ name)
      (hescape : '\\' ∉ name) : Reference name (doubleOpening ++ (name ++ ('"' :: ']' :: rest)))

/-- The expression reads the secret. -/
def ReadsSecret (span name : List Char) : Prop :=
  ∃ pre suf, span = pre ++ suf ∧ InCode pre ∧ Reference name suf

/-- The places that read a secret are outside of quotes for the switch as well,
and brackets have one literal. -/
structure Scannable (span : List Char) : Prop where
  unquoted : ∀ pre suf name, span = pre ++ suf → InCode pre → Reference name suf →
    quoteAfter pre = none
  closed : ClosedDirectly doubleOpening none span

/-- **A secret that is read is found.** -/
theorem mem_namesOf {span name : List Char} (h : Scannable span) (hread : ReadsSecret span name) :
    name ∈ namesOf ('$' :: secretsVariable) span false := by
  obtain ⟨pre, suf, rfl, hcode, href⟩ := hread
  have hstate := h.unquoted pre suf name rfl hcode href
  unfold namesOf
  cases href with
  | @dot rest hne hname hend =>
    have hquotes : '"' ∉ dotNeedle ++ name ∧ '\'' ∉ dotNeedle ++ name := by
      have hneedle : '"' ∉ dotNeedle ∧ '\'' ∉ dotNeedle := by decide
      have hquote (q : Char) (hq : isNameChar q = false) : q ∉ name := by
        intro hmem
        rw [hname q hmem] at hq
        cases hq
      simp only [mem_append, not_or]
      exact ⟨⟨hneedle.1, hquote _ (by decide)⟩, ⟨hneedle.2, hquote _ (by decide)⟩⟩
    have hblank := blankQuoted_of_notMem hquotes.1 hquotes.2
    have htext : withoutQuotedLiterals (pre ++ (dotNeedle ++ (name ++ rest))) =
        blankQuoted none pre ++ (dotNeedle ++ (name ++ blankQuoted none rest)) := by
      unfold withoutQuotedLiterals
      rw [blankQuoted_append, show pre.foldl QuoteState.next none = none from hstate,
        ← append_assoc, blankQuoted_append, hblank.1, hblank.2, append_assoc]
    have htake := takeWhile_blankQuoted hname hend
    refine mem_append_left _ (mem_append_left _ ?_)
    rw [htext]
    have hfound : (name ++ blankQuoted none rest).takeWhile isNameChar ∈
        dotNotationNames ('$' :: (secretsVariable ++ ['.'])) false 0 none (blankQuoted none pre ++
          ('$' :: (secretsVariable ++ ['.']) ++ (name ++ blankQuoted none rest))) :=
      mem_dotNotationNames (by decide) (by decide) (Nat.zero_le _) (by rwa [htake])
    rwa [htake] at hfound
  | @bracket rest hne hquote hescape =>
    refine mem_append_right _ ?_
    have hopening : IsOpening '$' doubleOpening :=
      ⟨⟨secretsVariable ++ ['['], rfl, by decide, by decide, by decide⟩, by decide, by decide,
        by decide⟩
    exact mem_bracketNames hopening hquote hne (Nat.zero_le _) hstate h.closed

/-! ### Expressions that the switch understands -/

/-- No apostrophe, no comment and no interpolation. -/
structure Plain (span : List Char) : Prop where
  apostrophe : '\'' ∉ span
  comment : '#' ∉ span
  interpolation : ¬ ['\\', '('] <:+: span

/-- The switch and the expression are both in code, or in the same string. -/
inductive Agree : QuoteState → List JqFrame → Prop
  | code (depth : ℕ) : Agree none [.code depth]
  | string (escaped : Bool) (depth : ℕ) :
      Agree (some ('"', escaped)) [.string escaped, .code depth]

variable {state : QuoteState}

theorem Agree.next {frames : List JqFrame} {c : Char}
    (h : Agree state frames) (hapostrophe : c ≠ '\'') (hcomment : c ≠ '#')
    (hescaped : state = some ('"', true) → c ≠ '(') : Agree (state.next c) (jqNext frames c) := by
  cases h with
  | code depth =>
    by_cases hquote : c = '"'
    · subst hquote
      exact .string false depth
    · have hstate : QuoteState.next none c = none := if_neg (by tauto)
      rw [hstate, jqNext, if_neg hquote, if_neg hcomment]
      split_ifs with hopen hclose hclose'
      · exact .code _
      · exact absurd rfl hclose.2.2
      · exact .code _
      · exact .code _
  | string escaped depth =>
    cases escaped with
    | true =>
      rw [QuoteState.next, jqNext, if_neg (hescaped rfl)]
      exact .string false depth
    | false =>
      rw [QuoteState.next, jqNext]
      split_ifs
      · exact .string true depth
      · exact .code depth
      · exact .string false depth

theorem QuoteState.eq_backslash_of_next
    (h : state.next c = some (quote, true)) : c = '\\' := by
  rcases state with - | ⟨q, escaped⟩
  · rw [QuoteState.next] at h
    split_ifs at h
    cases h
  · cases escaped with
    | true => cases h
    | false =>
      rw [QuoteState.next] at h
      split_ifs at h with hc
      · exact hc
      · cases h

/-- In a plain expression the switch agrees everywhere. -/
theorem Plain.agree {span pre : List Char} (h : Plain span) (hpre : pre <+: span) :
    Agree (quoteAfter pre) (jqAfter pre) ∧
      (quoteAfter pre = some ('"', true) → ∃ p, pre = p ++ ['\\']) := by
  induction pre using List.reverseRecOn with
  | nil => exact ⟨.code 0, nofun⟩
  | append_singleton pre c ih =>
    obtain ⟨hagree, hlast⟩ := ih ((prefix_append pre [c]).trans hpre)
    have hc : c ∈ span := hpre.subset (mem_append_right _ mem_cons_self)
    have hquote : quoteAfter (pre ++ [c]) = (quoteAfter pre).next c := by simp [quoteAfter]
    have hjq : jqAfter (pre ++ [c]) = jqNext (jqAfter pre) c := by simp [jqAfter]
    rw [hquote, hjq]
    refine ⟨hagree.next (fun heq => h.apostrophe (heq ▸ hc)) (fun heq => h.comment (heq ▸ hc))
      fun hescaped heq => ?_, fun hnext => ⟨pre, ?_⟩⟩
    · obtain ⟨p, rfl⟩ := hlast hescaped
      subst heq
      refine h.interpolation (List.IsInfix.trans ?_ hpre.isInfix)
      exact ⟨p, [], by simp⟩
    · rw [QuoteState.eq_backslash_of_next hnext]

/-- **Without apostrophes, comments and interpolation, code is outside of quotes
for the switch.** -/
theorem Plain.unquoted {span pre suf : List Char} (h : Plain span) (hspan : span = pre ++ suf)
    (hcode : InCode pre) : quoteAfter pre = none := by
  obtain ⟨depth, outer, hframes⟩ := hcode
  have hagree : Agree (quoteAfter pre) (jqAfter pre) := (h.agree ⟨suf, hspan.symm⟩).1
  rw [hframes] at hagree
  generalize quoteAfter pre = state at hagree
  cases hagree
  rfl

/-! ### Resolution of what is read -/

/-- A string of a payload. -/
inductive Occurs (text : String) : Json → Prop
  | string : Occurs text (.string text)
  | array {items : List Json} {item : Json} (hmem : item ∈ items) (h : Occurs text item) :
      Occurs text (.array items)
  | object {fields : List (String × Json)} {field : String × Json} (hmem : field ∈ fields)
      (h : Occurs text field.2) : Occurs text (.object fields)

section Resolution

variable {tags : List Char → List (List Char)} {parse : List Char → Option Json}
  {getter : List Char → Option (List Char)} {declared referenced : List (List Char)}
  {name : List Char}

theorem mem_ofItems (hmem : item ∈ items)
    (h : name ∈ secretNamesOfValue tags item) : name ∈ secretNamesOfValue.ofItems tags items := by
  induction items with
  | nil => cases hmem
  | cons first items ih =>
    rw [secretNamesOfValue.ofItems, mem_append]
    rcases mem_cons.mp hmem with rfl | hmem
    · exact .inl h
    · exact .inr (ih hmem)

theorem mem_ofFields
    (hmem : field ∈ fields) (h : name ∈ secretNamesOfValue tags field.2) :
    name ∈ secretNamesOfValue.ofFields tags fields := by
  induction fields with
  | nil => cases hmem
  | cons first fields ih =>
    obtain ⟨key, value⟩ := first
    rw [secretNamesOfValue.ofFields, mem_append]
    rcases mem_cons.mp hmem with rfl | hmem
    · exact .inl h
    · exact .inr (ih hmem)

/-- Every string of a payload is scanned. -/
theorem Occurs.mem_names (h : Occurs text payload)
    (hname : name ∈ secretNamesOfString tags text.toList) :
    name ∈ secretNamesOfValue tags payload := by
  induction h with
  | string =>
    rw [secretNamesOfValue]
    exact hname
  | array hmem _ ih =>
    rw [secretNamesOfValue]
    exact mem_ofItems hmem ih
  | object hmem _ ih =>
    rw [secretNamesOfValue]
    exact mem_ofFields hmem ih

theorem declared_of_rejectUndeclared
    (h : rejectUndeclaredSecretReferences declared referenced = .ok ()) (hname : name ∈ referenced) :
    name ∈ declared := by
  induction referenced with
  | nil => cases hname
  | cons first referenced ih =>
    rw [rejectUndeclaredSecretReferences] at h
    split_ifs at h with hdeclared
    rcases mem_cons.mp hname with rfl | hname
    · exact hdeclared
    · exact ih h hname

theorem resolveSecret_ok (h : resolveSecret name declared getter = .ok raw) :
    getter (envVarName name) = some raw ∧ raw ≠ [] := by
  unfold resolveSecret at h
  split_ifs at h
  split at h
  · rename_i value hvalue
    split_ifs at h with hempty
    cases h
    exact ⟨hvalue, fun heq => hempty (isEmpty_iff.mpr heq)⟩
  · cases h

/-- A referenced name that is declared gets its value. -/
theorem mem_of_resolveReferencedSecrets {rest : List (List Char)} {map : List (String × Json)}
    (h : resolveReferencedSecrets parse getter declared referenced rest = .ok map)
    (hrest : name ∈ rest) (hname : name ∈ referenced) :
    ∃ raw, getter (envVarName name) = some raw ∧ raw ≠ [] ∧
      (String.ofList name, secretValue parse raw) ∈ map := by
  induction rest generalizing map with
  | nil => cases hrest
  | cons first rest ih =>
    rw [resolveReferencedSecrets] at h
    split_ifs at h with hreferenced
    · rcases hraw : resolveSecret first declared getter with e | raw
      · rw [hraw] at h
        cases h
      rcases hmap : resolveReferencedSecrets parse getter declared referenced rest with e | map'
      · rw [hraw, hmap] at h
        cases h
      rw [hraw, hmap] at h
      cases h
      rcases mem_cons.mp hrest with rfl | hrest
      · obtain ⟨hvalue, hne⟩ := resolveSecret_ok hraw
        exact ⟨raw, hvalue, hne, mem_cons_self⟩
      · obtain ⟨raw', hvalue, hne, hmem⟩ := ih hmap hrest
        exact ⟨raw', hvalue, hne, mem_cons_of_mem _ hmem⟩
    · rcases mem_cons.mp hrest with rfl | hrest
      · exact absurd hname hreferenced
      · exact ih h hrest

theorem secretValue_ne_null
    (hobject : ∀ raw value, (raw.dropWhile isWhitespace).head? = some '\x7b' →
      parse raw = some value → value ≠ .null) (raw : List Char) :
    secretValue parse raw ≠ .null := by
  unfold secretValue
  split_ifs with hbrace
  · cases hparse : parse raw with
    | none => exact nofun
    | some value => exact hobject raw value hbrace hparse
  · exact nofun

end Resolution

def tokenName : List Char := "TOKEN".toList

/-- An expression that is nothing but a secret. -/
def tokenSpan : List Char := " $secrets.TOKEN ".toList

def tokenPayload : Json := .object [("bearer", .string "$\x7b $secrets.TOKEN \x7d")]

end Jobworkerp.Workflow
