/-
Jobworkerp/SchemaSanitize.lean

Schemas for Gemini (`sanitize_schema_for_adapter`), which takes no `maxItems` and no
`minItems`.

Whether a key is a keyword depends on where it stands, so the traversal is told by a table
what the value of a keyword is.  The table of the code has not every keyword of the draft that
takes schemas.

* `sanitize_exact_iff`: exactly the keywords of the sub-schemas are removed if and only if the
  values the code does not visit have none.
-/
import Jobworkerp.Text.Json

namespace Jobworkerp.Llm

open Text

/-- Where a value stands: as a schema or an array of them, as a schema only, as an array of
schemas, as schemas by name, or as data. -/
inductive Place
  | schema
  | object
  | array
  | map
  | data
  deriving DecidableEq

def unsupported (key : String) : Bool := key = "maxItems" || key = "minItems"

section Strip

variable (table : String → Place)

mutual

/-- `strip_gemini_unsupported` with the keywords of `table`.  The fields of an object are a
map: their order says nothing. -/
def stripAt : Place → Json → Json
  | .map, .object fields => .object (stripValues fields)
  | .schema, .object fields | .object, .object fields => .object (stripFields fields)
  | .schema, .array items | .array, .array items => .array (stripItems items)
  | _, v => v

def stripItems : List Json → List Json
  | [] => []
  | v :: items => stripAt .schema v :: stripItems items

def stripValues : List (String × Json) → List (String × Json)
  | [] => []
  | (key, v) :: fields => (key, stripAt .schema v) :: stripValues fields

def stripFields : List (String × Json) → List (String × Json)
  | [] => []
  | (key, v) :: fields =>
    if unsupported key then stripFields fields
    else (key, stripAt (table key) v) :: stripFields fields

end

@[simp] theorem stripAt_data (v : Json) : stripAt table .data v = v := by
  cases v <;> rfl

theorem stripAt_idem :
    (∀ p v, stripAt table p (stripAt table p v) = stripAt table p v) ∧
    (∀ items, stripItems table (stripItems table items) = stripItems table items) ∧
    (∀ fields, stripFields table (stripFields table fields) = stripFields table fields) ∧
    ∀ fields, stripValues table (stripValues table fields) = stripValues table fields := by
  apply stripAt.mutual_induct table
  case case6 =>
    intro p v h1 h2 h3 h4 h5
    cases p <;> cases v <;> simp_all [stripAt]
  all_goals simp_all [stripAt, stripItems, stripValues, stripFields]

end Strip

/-- The keywords whose values the code visits. -/
def visited : String → Place
  | "properties" | "$defs" | "definitions" => .map
  | "items" => .schema
  | "prefixItems" | "allOf" | "anyOf" | "oneOf" => .array
  | "additionalProperties" => .object
  | _ => .data

/-- The keywords of draft 2020-12 that take schemas. -/
def applicators : String → Place
  | "patternProperties" | "dependentSchemas" => .map
  | "contains" | "propertyNames" | "if" | "then" | "else" | "not" | "unevaluatedItems"
  | "unevaluatedProperties" => .object
  | key => visited key

inductive AdapterKind
  | gemini
  | other (name : String)
  deriving DecidableEq

def sanitizeSchemaForAdapter (schema : Json) (adapter : Option AdapterKind) : Json :=
  if adapter = some .gemini then stripAt visited .schema schema else schema

/-- **The clean-up is idempotent**, for every schema. -/
theorem sanitize_idempotent (schema : Json) (adapter : Option AdapterKind) :
    sanitizeSchemaForAdapter (sanitizeSchemaForAdapter schema adapter) adapter =
      sanitizeSchemaForAdapter schema adapter := by
  unfold sanitizeSchemaForAdapter
  split
  · exact (stripAt_idem visited).1 .schema schema
  · rfl

/-- What the code visits of the draft, it visits as the draft has it. -/
theorem applicators_eq (h : visited key ≠ .data) : applicators key = visited key := by
  unfold applicators
  split <;> first | rfl | exact absurd rfl h

mutual

/-- In every sub-schema that is visited, the other values have no unsupported keyword. -/
def Covered : Place → Json → Prop
  | .map, .object fields => CoveredValues fields
  | .schema, .object fields | .object, .object fields => CoveredFields fields
  | .schema, .array items | .array, .array items => CoveredItems items
  | _, _ => True

def CoveredItems : List Json → Prop
  | [] => True
  | v :: items => Covered .schema v ∧ CoveredItems items

def CoveredValues : List (String × Json) → Prop
  | [] => True
  | (_, v) :: fields => Covered .schema v ∧ CoveredValues fields

def CoveredFields : List (String × Json) → Prop
  | [] => True
  | (key, v) :: fields =>
    (unsupported key = false →
      if visited key = .data then stripAt applicators (applicators key) v = v
      else Covered (visited key) v) ∧ CoveredFields fields

end

/-- The induction is on the traversal of the code; the cases are its own. -/
theorem stripAt_eq_iff :
    (∀ p v, stripAt visited p v = stripAt applicators p v ↔ Covered p v) ∧
    (∀ items, stripItems visited items = stripItems applicators items ↔ CoveredItems items) ∧
    (∀ fields, stripFields visited fields = stripFields applicators fields ↔
      CoveredFields fields) ∧
    ∀ fields, stripValues visited fields = stripValues applicators fields ↔
      CoveredValues fields := by
  apply stripAt.mutual_induct visited
  case case6 =>
    intro p v h1 h2 h3 h4 h5
    cases p <;> cases v <;> simp_all [stripAt, Covered]
  case case10 =>
    intro key v fields hkey ih
    simp [stripFields, CoveredFields, hkey, ih]
  case case11 =>
    intro key v fields hkey ihv ih
    simp only [stripFields, CoveredFields, hkey, Bool.false_eq_true, if_false, List.cons.injEq,
      Prod.mk.injEq, true_and, ih, true_implies]
    split
    next hdata => rw [hdata, stripAt_data, eq_comm]
    next hvisited => rw [applicators_eq hvisited, ihv]
  all_goals intros
  all_goals simp_all [stripAt, stripItems, stripValues, stripFields, Covered, CoveredItems,
    CoveredValues, CoveredFields]

/-- **The clean-up is exact if and only if the keywords the code does not visit need none.**
-/
theorem sanitize_exact_iff (schema : Json) :
    sanitizeSchemaForAdapter schema (some .gemini) = stripAt applicators .schema schema ↔
      Covered .schema schema :=
  stripAt_eq_iff.1 .schema schema

/-- A bound below `not` is kept. -/
theorem not_visited_kept :
    sanitizeSchemaForAdapter (.object [("not", .object [("maxItems", .number (some 1))])])
        (some .gemini) ≠
      stripAt applicators .schema (.object [("not", .object [("maxItems", .number (some 1))])]) := by
  intro h
  injection h with h
  injection h with h
  injection h with _ h
  injection h with h
  cases h

end Jobworkerp.Llm
