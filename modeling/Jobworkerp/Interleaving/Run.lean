/-
Jobworkerp/Interleaving/Run.lean

Finite runs of a labelled transition system.

A system is given by its step relation `S : γ → lab → γ → Prop` alone.  A run
is a list of labels with the configurations it passes through hidden; the
rules the other files use are

* `run_append`: a run splits at every point of its label list;
* `Run.invariant`: what one step preserves holds at the end of every run;
* `Run.exists_leaves`: if a property of the configuration is lost along a run,
  then some step of the run loses it;
* `Run.all_along`: what no step restores and what holds at the end has held in
  every configuration of the run.

`run_of_playInputs` evaluates a run whose steps can be computed.
-/
import Mathlib.Data.List.Basic

namespace Interleaving

open List

variable {γ lab : Type}

/-- `Run S c τ c'`: from `c` the steps labelled `τ` lead to `c'`. -/
def Run (S : γ → lab → γ → Prop) : γ → List lab → γ → Prop
  | c, [], c' => c = c'
  | c, e :: τ, c'' => ∃ c', S c e c' ∧ Run S c' τ c''

variable {S T : γ → lab → γ → Prop} {c c' c'' : γ} {τ τ' : List lab} {e : lab}

@[simp] theorem run_nil : Run S c [] c' ↔ c = c' := Iff.rfl

@[simp] theorem run_cons : Run S c (e :: τ) c'' ↔ ∃ c', S c e c' ∧ Run S c' τ c'' := Iff.rfl

theorem run_append : Run S c (τ ++ τ') c'' ↔ ∃ c', Run S c τ c' ∧ Run S c' τ' c'' := by
  induction τ generalizing c with
  | nil => simp
  | cons e τ ih =>
    simp only [cons_append, run_cons, ih]
    constructor
    · rintro ⟨c₁, hs, c2, h1, h2⟩
      exact ⟨c2, ⟨c₁, hs, h1⟩, h2⟩
    · rintro ⟨c2, ⟨c₁, hs, h1⟩, h2⟩
      exact ⟨c₁, hs, c2, h1, h2⟩

theorem Run.mono (hST : ∀ c e c', S c e c' → T c e c') (h : Run S c τ c') : Run T c τ c' := by
  induction τ generalizing c with
  | nil => exact h
  | cons e τ ih =>
    obtain ⟨c₁, hs, hr⟩ := h
    exact ⟨c₁, hST _ _ _ hs, ih hr⟩

variable {I : γ → Prop} {P : γ → Prop}

/-- What the steps of a run preserve holds at its end. -/
theorem Run.invariant_mem (h : Run S c τ c')
    (hstep : ∀ c e c', e ∈ τ → S c e c' → I c → I c') (hc : I c) : I c' := by
  induction τ generalizing c with
  | nil => exact h ▸ hc
  | cons e τ ih =>
    obtain ⟨c₁, hs, hr⟩ := h
    exact ih hr (fun c e' c' he' => hstep c e' c' (mem_cons_of_mem _ he'))
      (hstep _ _ _ mem_cons_self hs hc)

/-- What every step preserves holds at the end of every run. -/
theorem Run.invariant (hstep : ∀ c e c', S c e c' → I c → I c')
    (h : Run S c τ c') (hc : I c) : I c' :=
  h.invariant_mem (fun c e c' _ => hstep c e c') hc

/-- Every label of a run is the label of a step taken under an invariant of the
steps of the run. -/
theorem Run.mem_step_mem (h : Run S c τ c') (hstep : ∀ c e c', e ∈ τ → S c e c' → I c → I c')
    (hc : I c) (he : e ∈ τ) : ∃ c₁ c2, I c₁ ∧ S c₁ e c2 := by
  obtain ⟨τ1, τ2, rfl⟩ := append_of_mem he
  obtain ⟨c₁, h1, c2, hs, -⟩ := run_append.mp h
  refine ⟨c₁, c2, h1.invariant_mem (fun c e' c' he' => hstep c e' c' ?_) hc, hs⟩
  exact mem_append_left _ he'

theorem Run.mem_step (hstep : ∀ c e c', S c e c' → I c → I c') (h : Run S c τ c') (hc : I c)
    (he : e ∈ τ) : ∃ c₁ c2, I c₁ ∧ S c₁ e c2 :=
  h.mem_step_mem (fun c e c' _ => hstep c e c') hc he

/-- Along a run with an invariant the steps have what the invariant gives. -/
theorem Run.restrict {K : γ → lab → Prop} (h : Run S c τ c')
    (hstep : ∀ c e c', e ∈ τ → S c e c' → I c → I c')
    (hK : ∀ c e c', e ∈ τ → S c e c' → I c → K c e) (hc : I c) :
    Run (fun c e c' => S c e c' ∧ K c e) c τ c' := by
  induction τ generalizing c with
  | nil => exact h
  | cons e τ ih =>
    obtain ⟨c₁, hs, hr⟩ := h
    have he : e ∈ e :: τ := mem_cons_self
    have hI1 : I c₁ := hstep _ _ _ he hs hc
    exact ⟨c₁, ⟨hs, hK _ _ _ he hs hc⟩,
      ih hr (fun c e' c' he' => hstep c e' c' (mem_cons_of_mem _ he'))
        (fun c e' c' he' => hK c e' c' (mem_cons_of_mem _ he')) hI1⟩

/-- All steps of a run satisfy `K`, or the run splits at a step that does not. -/
theorem Run.all_or_fails {K : γ → lab → γ → Prop} (h : Run S c τ c') :
    Run (fun c e c' => S c e c' ∧ K c e c') c τ c' ∨
      ∃ τ1 e τ2 c₁ c2, τ = τ1 ++ e :: τ2 ∧ Run S c τ1 c₁ ∧ S c₁ e c2 ∧ Run S c2 τ2 c' ∧
        ¬ K c₁ e c2 := by
  induction τ generalizing c with
  | nil => exact .inl h
  | cons e τ ih =>
    obtain ⟨c₁, hs, hr⟩ := h
    by_cases hK : K c e c₁
    · refine (ih hr).imp (fun h => ⟨c₁, ⟨hs, hK⟩, h⟩) ?_
      rintro ⟨τ1, e', τ2, c2, c3, rfl, h1, hs', h2, hn⟩
      exact ⟨e :: τ1, e', τ2, c2, c3, rfl, ⟨c₁, hs, h1⟩, hs', h2, hn⟩
    · exact .inr ⟨[], e, τ, c, c₁, rfl, rfl, hs, hr, hK⟩

/-- A run that loses a property splits at a step that loses it. -/
theorem Run.split_leaves (h : Run S c τ c') (hc : P c) (hc' : ¬ P c') :
    ∃ τ1 e τ2 c₁ c2, τ = τ1 ++ e :: τ2 ∧ Run S c τ1 c₁ ∧ S c₁ e c2 ∧ Run S c2 τ2 c' ∧
      P c₁ ∧ ¬ P c2 := by
  rcases h.all_or_fails (K := fun c _ c' => P c → P c') with hall | hsplit
  · exact absurd (hall.invariant (fun _ _ _ hs => hs.2) hc) hc'
  · obtain ⟨τ1, e, τ2, c₁, c2, hτ, h1, hs, h2, hn⟩ := hsplit
    obtain ⟨hP, hP'⟩ := Classical.not_imp.mp hn
    exact ⟨τ1, e, τ2, c₁, c2, hτ, h1, hs, h2, hP, hP'⟩

/-- A run that loses a property contains a step that loses it. -/
theorem Run.exists_leaves (h : Run S c τ c') (hc : P c) (hc' : ¬ P c') :
    ∃ c₁ e c2, e ∈ τ ∧ S c₁ e c2 ∧ P c₁ ∧ ¬ P c2 := by
  obtain ⟨τ1, e, τ2, c₁, c2, rfl, -, hs, -, hP, hP'⟩ := h.split_leaves hc hc'
  exact ⟨c₁, e, c2, by simp, hs, hP, hP'⟩

/-- What no step of a run restores and what holds at its end has held all along. -/
theorem Run.all_along (h : Run S c τ c') (hstep : ∀ c e c', e ∈ τ → S c e c' → ¬ P c → ¬ P c')
    (hc' : P c') : P c ∧ Run (fun c e c' => S c e c' ∧ P c ∧ P c') c τ c' := by
  induction τ generalizing c with
  | nil =>
    obtain rfl := run_nil.mp h
    exact ⟨hc', rfl⟩
  | cons e τ ih =>
    obtain ⟨c₁, hs, hr⟩ := h
    obtain ⟨hc1, hr'⟩ := ih hr fun c e' c' he' => hstep c e' c' (mem_cons_of_mem _ he')
    have hc : P c := by
      by_contra hn
      exact hstep c e c₁ mem_cons_self hs hn hc1
    exact ⟨hc, c₁, ⟨hs, hc, hc1⟩, hr'⟩

/-! ### Runs by evaluation -/

/-- The run of a list of inputs, when each step is computed. -/
def playInputs {inp : Type} (next : γ → inp → Option (lab × γ)) :
    γ → List inp → Option (List lab × γ)
  | c, [] => some ([], c)
  | c, i :: rest =>
    match next c i with
    | some (e, c₁) => (playInputs next c₁ rest).map fun r => (e :: r.1, r.2)
    | none => none

theorem run_of_playInputs {inp : Type} {next : γ → inp → Option (lab × γ)}
    (hnext : ∀ c i e c', next c i = some (e, c') → S c e c') {inputs : List inp}
    (h : playInputs next c inputs = some (τ, c')) : Run S c τ c' := by
  induction inputs generalizing c τ with
  | nil =>
    cases h
    rfl
  | cons i rest ih =>
    unfold playInputs at h
    split at h
    · rename_i e c₁ hstep
      obtain ⟨⟨τ', c''⟩, hrest, heq⟩ := Option.map_eq_some_iff.mp h
      cases heq
      exact ⟨c₁, hnext c i e c₁ hstep, ih hrest⟩
    · cases h

end Interleaving
