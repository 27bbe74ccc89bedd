/-
Jobworkerp/Workflow/Expressions.lean

Expressions in workflow definitions (`definition/transform.rs`): which strings
are expressions, and which text of them is evaluated.

A jq filter stands between `${` and a closing brace, a Liquid template between
`$${` and a closing brace; white space around the whole is ignored.  The opening
marker is removed as often as it is repeated.  So is the closing brace of a
filter, but not that of a template.

* `executeTransform_liquid`: a template is evaluated whole.
* `executeTransform_jq_iff`: a filter is evaluated whole exactly if it does not
  end with a brace of its own.
-/
import Jobworkerp.Text.Substring
import Jobworkerp.Workflow.Context

namespace Jobworkerp.Workflow

open Text List

/-! ### Markers -/

/-- `char::is_whitespace`: the `White_Space` characters. -/
def isWhitespace (c : Char) : Bool :=
  let n := c.toNat
  (9 ≤ n && n ≤ 13) || n = 32 || n = 0x85 || n = 0xa0 || n = 0x1680 ||
    (0x2000 ≤ n && n ≤ 0x200a) || n = 0x2028 || n = 0x2029 || n = 0x202f || n = 0x205f ||
    n = 0x3000

def filterStart : List Char := ['$', '\x7b']
def filterEnd : List Char := ['\x7d']
def templateStart : List Char := ['$', '$', '\x7b']
def templateEnd : List Char := ['\x7d']

/-- `is_transform_filter` and `is_transform_template`, of a text between two
markers. -/
def isBetween (start end_ text : List Char) : Bool :=
  start.isPrefixOf (text.dropWhile isWhitespace) && end_.isSuffixOf (text.rdropWhile isWhitespace)

def isTransformFilter (filter : List Char) : Bool := isBetween filterStart filterEnd filter

def isTransformTemplate (filter : List Char) : Bool := isBetween templateStart templateEnd filter

def jqFilterBody (filter : List Char) : List Char :=
  dropSuffixes filterEnd (dropPrefixes filterStart (trim isWhitespace filter))

def liquidTemplateBody (template : List Char) : List Char :=
  let template := (dropPrefixes templateStart (trim isWhitespace template)).rdropWhile isWhitespace
  (stripSuffix templateEnd template).getD template

inductive TransformExpression
  | jq (body : List Char)
  | liquid (body : List Char)
  deriving DecidableEq, Repr

def transformExpressionBody (filter : List Char) : Option TransformExpression :=
  if isTransformTemplate filter then some (.liquid (liquidTemplateBody filter))
  else if isTransformFilter filter then some (.jq (jqFilterBody filter))
  else none

/-! ### Evaluation -/

/-- The evaluation of a filter or a template that has been found. -/
structure ExpressionEngine where
  /-- `resolve_subset`, for the variables a filter refers to. -/
  resolveSubset : List Char → ExpressionContext → Except Error ExpressionContext
  /-- A filter, with its variables. -/
  jq : Json → List Char → ExpressionContext → Except Error Json
  /-- A template, rendered. -/
  liquid : Json → List Char → ExpressionContext → Except Error (List Char)
  /-- A rendered text as a number or a boolean, if it reads as one. -/
  primitive : List Char → Json

def executeJqFilter (engine : ExpressionEngine) (input : Json) (filter : List Char)
    (context : ExpressionContext) : Except Error Json :=
  if isTransformFilter filter then
    (engine.resolveSubset (jqFilterBody filter) context).bind
      (engine.jq input (jqFilterBody filter))
  else .ok (.string (.ofList filter))

def executeLiquidTemplate (engine : ExpressionEngine) (input : Json) (template : List Char)
    (context : ExpressionContext) : Except Error (List Char) :=
  if isTransformTemplate template then
    engine.liquid input (liquidTemplateBody template) context
  else .ok template

def executeTransform (engine : ExpressionEngine) (input : Json) (filter : List Char)
    (context : ExpressionContext) : Except Error Json :=
  if isTransformTemplate filter then
    (executeLiquidTemplate engine input filter context).map engine.primitive
  else if isTransformFilter filter then executeJqFilter engine input filter context
  else .ok (.string (.ofList filter))

/-! ### The text that is evaluated -/

section Bodies

variable {w w' b : List Char}

/-- White space around the whole string. -/
def White (w : List Char) : Prop := ∀ c ∈ w, isWhitespace c

/-- A text between markers, with white space around it. -/
theorem isBetween_append (start end_ : List Char) (hw : White w) (hw' : White w')
    (hstart : ∀ c, start.head? = some c → ¬ isWhitespace c) (hne : start ≠ [])
    (hend : ∀ c, end_.getLast? = some c → ¬ isWhitespace c) (hne' : end_ ≠ []) :
    isBetween start end_ (w ++ (start ++ b ++ end_) ++ w') = true ∧
      trim isWhitespace (w ++ (start ++ b ++ end_) ++ w') = start ++ b ++ end_ := by
  have hhead : ∀ c, (start ++ b ++ end_).head? = some c → ¬ isWhitespace c := by
    rw [append_assoc, List.head?_append_of_ne_nil _ hne]
    exact hstart
  have hlast : ∀ c, (start ++ b ++ end_).getLast? = some c → ¬ isWhitespace c := by
    rw [List.getLast?_append_of_ne_nil _ hne']
    exact hend
  refine ⟨?_, trim_append hw hw' (by simp [hne]) hhead hlast⟩
  rw [isBetween, Bool.and_eq_true, isPrefixOf_iff_prefix, isSuffixOf_iff_suffix,
    rdropWhile_append_of_all hw']
  · constructor
    · rw [append_assoc, dropWhile_append_of_all hw]
      · exact ⟨b ++ end_ ++ w', by simp⟩
      · rw [List.head?_append_of_ne_nil _ (by simp [hne])]
        exact hhead
    · exact ⟨w ++ (start ++ b), by simp⟩
  · rw [List.getLast?_append_of_ne_nil _ (by simp [hne])]
    exact hlast

/-- A marker that ends with an opening brace does not reach over the closing
one. -/
theorem not_prefix_append_end (hp : p.getLast? = some '\x7b')
    (hb : ¬ p <+: b) : ¬ p <+: b ++ ['\x7d'] := by
  intro h
  rcases prefix_concat_iff.mp h with rfl | h
  · rw [List.getLast?_concat] at hp
    cases hp
  · exact hb h

section

variable (hw : White w) (hw' : White w')

include hw hw'

theorem filter_between : isTransformTemplate (w ++ (filterStart ++ b ++ filterEnd) ++ w') = false ∧
      isTransformFilter (w ++ (filterStart ++ b ++ filterEnd) ++ w') = true ∧
      trim isWhitespace (w ++ (filterStart ++ b ++ filterEnd) ++ w') =
        filterStart ++ b ++ filterEnd := by
  have hdollar : ∀ c, filterStart.head? = some c → ¬ isWhitespace c := by
    rintro c ⟨⟩
    decide
  have hbrace : ∀ c, filterEnd.getLast? = some c → ¬ isWhitespace c := by
    rintro c ⟨⟩
    decide
  obtain ⟨hbetween, htrim⟩ :=
    isBetween_append (b := b) filterStart filterEnd hw hw' hdollar nofun hbrace nofun
  refine ⟨?_, hbetween, htrim⟩
  rw [isTransformTemplate, isBetween, append_assoc, dropWhile_append_of_all hw]
  · rfl
  · exact hdollar

theorem template_between :
    isTransformTemplate (w ++ (templateStart ++ b ++ templateEnd) ++ w') = true ∧
      trim isWhitespace (w ++ (templateStart ++ b ++ templateEnd) ++ w') =
        templateStart ++ b ++ templateEnd := by
  have hdollar : ∀ c, templateStart.head? = some c → ¬ isWhitespace c := by
    rintro c ⟨⟩
    decide
  have hbrace : ∀ c, templateEnd.getLast? = some c → ¬ isWhitespace c := by
    rintro c ⟨⟩
    decide
  exact isBetween_append templateStart templateEnd hw hw' hdollar nofun hbrace nofun

/-- All closing braces are cut off a filter. -/
theorem jqFilterBody_between (hb : ¬ filterStart <+: b) :
    jqFilterBody (w ++ (filterStart ++ b ++ filterEnd) ++ w') =
      dropSuffixes filterEnd (b ++ filterEnd) := by
  have hne : filterStart ≠ [] := nofun
  rw [jqFilterBody, (filter_between hw hw').2.2, append_assoc, dropPrefixes_append hne]
  exact not_prefix_append_end rfl hb

/-- One closing brace is cut off a template. -/
theorem liquidTemplateBody_between (hb : ¬ templateStart <+: b) :
    liquidTemplateBody (w ++ (templateStart ++ b ++ templateEnd) ++ w') = b := by
  have hne : templateStart ≠ [] := nofun
  have hlast : ∀ c, (b ++ templateEnd).getLast? = some c → ¬ isWhitespace c := by
    intro c hc
    obtain rfl : '\x7d' = c := by simpa [templateEnd] using hc
    decide
  have hbody : dropPrefixes templateStart
      (trim isWhitespace (w ++ (templateStart ++ b ++ templateEnd) ++ w')) = b ++ templateEnd := by
    rw [(template_between hw hw').2, append_assoc, dropPrefixes_append hne]
    exact not_prefix_append_end rfl hb
  have htrimmed : (b ++ templateEnd).rdropWhile isWhitespace = b ++ templateEnd := by
    have hnil : White [] := by simp [White]
    simpa using rdropWhile_append_of_all hnil hlast
  rw [liquidTemplateBody, hbody, htrimmed, stripSuffix_append, Option.getD_some]

theorem executeTransform_liquid (hb : ¬ templateStart <+: b)
    (engine : ExpressionEngine) (input : Json) (context : ExpressionContext) :
    executeTransform engine input (w ++ (templateStart ++ b ++ templateEnd) ++ w') context =
      (engine.liquid input b context).map engine.primitive := by
  rw [executeTransform, if_pos (template_between hw hw').1, executeLiquidTemplate,
    if_pos (template_between hw hw').1, liquidTemplateBody_between hw hw' hb]

/-- A filter is evaluated without its closing braces. -/
theorem executeTransform_jq (hb : ¬ filterStart <+: b)
    (engine : ExpressionEngine) (input : Json) (context : ExpressionContext) :
    executeTransform engine input (w ++ (filterStart ++ b ++ filterEnd) ++ w') context =
      (engine.resolveSubset (dropSuffixes filterEnd (b ++ filterEnd)) context).bind
        (engine.jq input (dropSuffixes filterEnd (b ++ filterEnd))) := by
  obtain ⟨htemplate, hfilter, -⟩ := filter_between (b := b) hw hw'
  rw [executeTransform, htemplate, if_neg Bool.false_ne_true, if_pos hfilter, executeJqFilter,
    if_pos hfilter, jqFilterBody_between hw hw' hb]

end

/-- The engine that returns the text it is given. -/
def echoEngine : ExpressionEngine where
  resolveSubset _ context := .ok context
  jq _ filter _ := .ok (.string (.ofList filter))
  liquid _ template _ := .ok template
  primitive text := .string (.ofList text)

/-- **The markers of a template are removed once, those of a filter exactly if
the filter does not end with a brace.** -/
theorem markers_removed_once_iff (hw : White w) (hw' : White w') :
    (¬ filterStart <+: b →
      ((∀ engine input context,
          executeTransform engine input (w ++ (filterStart ++ b ++ filterEnd) ++ w') context =
            (engine.resolveSubset b context).bind (engine.jq input b)) ↔ ¬ filterEnd <:+ b)) ∧
    (¬ templateStart <+: b → ∀ engine input context,
      executeTransform engine input (w ++ (templateStart ++ b ++ templateEnd) ++ w') context =
        (engine.liquid input b context).map engine.primitive) := by
  refine ⟨fun hb => ?_, fun hb engine input context =>
    executeTransform_liquid hw hw' hb engine input context⟩
  rw [← dropSuffixes_append_iff (p := filterEnd) nofun]
  constructor
  · intro h
    have hecho := h echoEngine .null []
    rw [executeTransform_jq hw hw' hb] at hecho
    have htext := congrArg String.toList (Json.string.inj (Except.ok.inj hecho))
    simpa only [String.toList_ofList] using htext
  · intro hbody engine input context
    rw [executeTransform_jq hw hw' hb, hbody]

/-- A filter that reads a field, with spaces around the expression. -/
theorem markers_removed_once_field :
    White [' '] ∧ ∀ engine input context,
      executeTransform engine input " $\x7b.a\x7d ".toList context =
        (engine.resolveSubset ".a".toList context).bind (engine.jq input ".a".toList) := by
  have hspace : White [' '] := by simp [White]; decide
  have hiff := (markers_removed_once_iff (b := ['.', 'a']) hspace hspace).1 (by decide)
  exact ⟨hspace, hiff.mpr (by decide)⟩

/-- **The closing brace of an object construction is lost.** -/
theorem object_brace_lost :
    transformExpressionBody "$\x7b\x7ba: 1\x7d\x7d".toList = some (.jq "\x7ba: 1".toList) := by
  decide

end Bodies

end Jobworkerp.Workflow
