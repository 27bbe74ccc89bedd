/-
Jobworkerp/Interleaving/Refinement.lean

Atomic operations implemented by programs.

The operations of an abstract store are implemented by programs over the calls of
a concrete one; `compile` puts the implementation in the place of every operation
of a program.  An implementation is `Linear` if each of its calls but the last
leaves the abstract store as it is, and the last one has the effect and gives the
answer of the operation.  The last call is then the point at which the operation
happens.

* `Run.refines`: every run of the compiled programs is explained by a run of the
  programs themselves, with the same ends and a related store.
-/
import Jobworkerp.Interleaving.Pool

namespace Interleaving

variable {ι Op Op' : Type} {Resp : Op → Type} {Resp' : Op' → Type} {ε α σ σ' χ χ' : Type}

namespace Prog

/-- The program with the implementations in the place of the operations. -/
def compile (impl : (op : Op) → Prog Op' Resp' ε (Except ε (Resp op))) :
    Prog Op Resp ε α → Prog Op' Resp' ε α
  | ret a => ret a
  | fail e => fail e
  | call op k => impl op >>= fun ans => (k ans).compile impl

/-- What is left of an implementation of `op`: the last call has the effect of the
operation, the others have none. -/
def Linear (sem' : Sem Op' Resp' ε σ' χ') (sem : Sem Op Resp ε σ χ) (abs : σ' → σ → Prop)
    (op : Op) : Prog Op' Resp' ε (Except ε (Resp op)) → Prop
  | ret _ => False
  | fail _ => False
  | call op' k => ∀ ch s' s ans t', abs s' s → sem' ch op' s' = some (ans, t') →
      (∃ r ch t, k ans = ret r ∧ sem ch op s = some (r, t) ∧ abs t' t) ∨
        (abs t' s ∧ (k ans).Linear sem' sem abs op)

variable {sem' : Sem Op' Resp' ε σ' χ'} {sem : Sem Op Resp ε σ χ} {abs : σ' → σ → Prop}
  {impl : (op : Op) → Prog Op' Resp' ε (Except ε (Resp op))}

/-- An implementation of one call. -/
theorem linear_call {op : Op} {op' : Op'} {k : Except ε (Resp' op') → Except ε (Resp op)}
    (h : ∀ ch s' s ans t', abs s' s → sem' ch op' s' = some (ans, t') →
      ∃ ch t, sem ch op s = some (k ans, t) ∧ abs t' t) :
    Linear sem' sem abs op (call op' fun ans => ret (k ans)) := by
  intro ch s' s ans t' habs hsem
  obtain ⟨ch', t, hop, ht⟩ := h ch s' s ans t' habs hsem
  exact .inl ⟨k ans, ch', t, rfl, hop, ht⟩

/-- The compiled program `q` is somewhere in the first operation of the program. -/
def Simulates (sem' : Sem Op' Resp' ε σ' χ') (sem : Sem Op Resp ε σ χ) (abs : σ' → σ → Prop)
    (impl : (op : Op) → Prog Op' Resp' ε (Except ε (Resp op))) (q : Prog Op' Resp' ε α) :
    Prog Op Resp ε α → Prop
  | ret a => q = ret a
  | fail e => q = fail e
  | call op k => ∃ p, Linear sem' sem abs op p ∧ q = p >>= fun ans => (k ans).compile impl

theorem simulates_compile (himpl : ∀ op, Linear sem' sem abs op (impl op))
    (p : Prog Op Resp ε α) : Simulates sem' sem abs impl (p.compile impl) p := by
  cases p with
  | ret | fail => rfl
  | call op k => exact ⟨impl op, himpl op, rfl⟩

/-- A program that has ended has done all its operations. -/
theorem Simulates.result (h : Simulates sem' sem abs impl q p) (hr : q.result = some r) :
    p.result = some r := by
  cases p with
  | ret a =>
    obtain rfl : q = ret a := h
    exact hr
  | fail e =>
    obtain rfl : q = fail e := h
    exact hr
  | call op k =>
    obtain ⟨p', hlinear, rfl⟩ := h
    cases p' with
    | ret | fail => exact hlinear.elim
    | call op' k' => cases hr

/-- One call of the compiled program is the last of its operation, or has no
effect on the abstract store. -/
theorem Simulates.call (himpl : ∀ op, Linear sem' sem abs op (impl op))
    (h : Simulates sem' sem abs impl (.call op' k') p) (habs : abs s' s)
    (hsem : sem' ch op' s' = some (ans, t')) :
    (∃ op k r ch t, p = .call op k ∧ sem ch op s = some (r, t) ∧ abs t' t ∧
      Simulates sem' sem abs impl (k' ans) (k r)) ∨
      (abs t' s ∧ Simulates sem' sem abs impl (k' ans) p) := by
  cases p with
  | ret | fail => cases h
  | call op k =>
    obtain ⟨p', hlinear, heq⟩ := h
    cases p' with
    | ret | fail => exact hlinear.elim
    | call op'' k'' =>
      obtain ⟨rfl, hk⟩ := Prog.call.inj heq
      obtain rfl := eq_of_heq hk
      rcases hlinear ch s' s ans t' habs hsem with ⟨r, ch', t, hret, hop, ht⟩ | ⟨ht, hrest⟩
      · -- the last call: the program stands at its next operation
        refine .inl ⟨op, k, r, ch', t, rfl, hop, ht, ?_⟩
        show Simulates sem' sem abs impl (k'' ans >>= fun ans => (k ans).compile impl) (k r)
        rw [hret]
        exact simulates_compile himpl (k r)
      · exact .inr ⟨ht, k'' ans, hrest, rfl⟩

end Prog

open Prog

variable [DecidableEq ι] {sem' : Sem Op' Resp' ε σ' χ'} {sem : Sem Op Resp ε σ χ}
  {abs : σ' → σ → Prop} {impl : (op : Op) → Prog Op' Resp' ε (Except ε (Resp op))}
  {c c' : Config ι Op' Resp' ε α σ'} {e : Event ι Op' Resp' ε α σ'}
  {τ : List (Event ι Op' Resp' ε α σ')} {d : Config ι Op Resp ε α σ}

/-- The pool of compiled programs, and the pool of the programs. -/
structure SimulatesPool (sem' : Sem Op' Resp' ε σ' χ') (sem : Sem Op Resp ε σ χ)
    (abs : σ' → σ → Prop) (impl : (op : Op) → Prog Op' Resp' ε (Except ε (Resp op)))
    (c : Config ι Op' Resp' ε α σ') (d : Config ι Op Resp ε α σ) : Prop where
  threads : ∀ i, Simulates sem' sem abs impl (c.threads i) (d.threads i)
  store : abs c.store d.store

/-- A step of the compiled pool is a step of the pool, or none. -/
theorem Step.refines (himpl : ∀ op, Linear sem' sem abs op (impl op)) (h : Step sem' c e c')
    (hsim : SimulatesPool sem' sem abs impl c d) :
    ∃ τ' d', Run (Step sem) d τ' d' ∧ SimulatesPool sem' sem abs impl c' d' := by
  obtain ⟨k', hk, hk', -⟩ := h.self
  obtain ⟨ch, hsem⟩ := h.sem_eq
  rw [h.pre_eq, h.post_eq] at hsem
  have hthread := hsim.threads e.thread
  rw [hk] at hthread
  rcases hthread.call himpl hsim.store hsem with
    ⟨op, k, r, ch', t, hp, hop, ht, hrest⟩ | ⟨ht, hrest⟩
  · -- the operation happens at this call
    have hstep := Step.call hp hop
    refine ⟨[_], _, ⟨_, hstep, rfl⟩, fun i => ?_, ht⟩
    by_cases hi : i = e.thread
    · subst hi
      obtain ⟨k1, hk1, hk1', -⟩ := hstep.self
      cases hk1.symm.trans hp
      rw [hk', hk1']
      exact hrest
    · rw [h.other hi, hstep.other hi]
      exact hsim.threads i
  · refine ⟨[], d, rfl, fun i => ?_, ht⟩
    by_cases hi : i = e.thread
    · subst hi
      rw [hk']
      exact hrest
    · rw [h.other hi]
      exact hsim.threads i

/-- **Every run of compiled programs is explained by a run of the programs.** -/
theorem Run.refines (himpl : ∀ op, Linear sem' sem abs op (impl op)) (h : Run (Step sem') c τ c')
    (hsim : SimulatesPool sem' sem abs impl c d) :
    ∃ τ' d', Run (Step sem) d τ' d' ∧ SimulatesPool sem' sem abs impl c' d' := by
  induction τ generalizing c d with
  | nil =>
    obtain rfl := run_nil.mp h
    exact ⟨[], d, rfl, hsim⟩
  | cons e τ ih =>
    obtain ⟨c1, hs, hrest⟩ := h
    obtain ⟨τ1, d1, hrun1, hsim1⟩ := hs.refines himpl hsim
    obtain ⟨τ2, d2, hrun2, hsim2⟩ := ih hrest hsim1
    exact ⟨τ1 ++ τ2, d2, run_append.mpr ⟨d1, hrun1, hrun2⟩, hsim2⟩

end Interleaving
