/-
Jobworkerp/Interleaving/Exec.lean

Programs that run alone.

`p.Exec sem s τ r s'` says that `p`, run from the store `s` with no other
thread in between, makes the calls `τ`, ends with `r` and leaves the store
`s'`.  It is a big-step semantics: the lemmas below follow the syntax of the
program, and an execution of a composite program is taken apart into the
executions of its parts.

* `exec_bind`, `exec_attempt`, `exec_perform`, ...: one lemma per combinator.
* `Reaches`: some execution ends with a given property.
* `Stops`: an execution that is cut short after some of its calls.
* `Exec.run`: an execution is a run of any pool that has the program as one of
  its threads, with the other threads standing still.
-/
import Jobworkerp.Interleaving.Pool

namespace Interleaving

open List

variable {ι Op : Type} {Resp : Op → Type} {ε α β σ χ : Type}

/-- One call, with its answer and the store before and after. -/
structure Call (Op : Type) (Resp : Op → Type) (ε σ : Type) where
  op : Op
  ans : Except ε (Resp op)
  pre : σ
  post : σ

/-- Did the call return? -/
def Call.answered (c : Call Op Resp ε σ) : Bool :=
  match c.ans with
  | .ok _ => true
  | .error _ => false

namespace Prog

/-- From `s` the program makes the calls `τ`, ends with `r` and leaves `s'`. -/
def Exec (sem : Sem Op Resp ε σ χ) :
    Prog Op Resp ε α → σ → List (Call Op Resp ε σ) → Except ε α → σ → Prop
  | ret a, s, τ, r, s' => τ = [] ∧ r = .ok a ∧ s' = s
  | fail e, s, τ, r, s' => τ = [] ∧ r = .error e ∧ s' = s
  | call op k, s, τ, r, s' => ∃ ch ans s₁ τ', sem ch op s = some (ans, s₁) ∧
      (k ans).Exec sem s₁ τ' r s' ∧ τ = ⟨op, ans, s, s₁⟩ :: τ'

variable {sem : Sem Op Resp ε σ χ} {p : Prog Op Resp ε α} {f : α → Prog Op Resp ε β}
  {s s' : σ} {τ : List (Call Op Resp ε σ)}

variable {a : α} {r : Except ε α} {op : Op} {C : Op → Prop} {I : σ → Prop}
  {Q : Except ε α → σ → Prop}

/-- An execution of `p >>= f` is one of `p` that fails, or one of `p` that
returns followed by one of `f`. -/
theorem exec_bind {r : Except ε β} : (p >>= f).Exec sem s τ r s' ↔
    (∃ e, p.Exec sem s τ (.error e) s' ∧ r = .error e) ∨
    ∃ τ1 a s₁ τ2, p.Exec sem s τ1 (.ok a) s₁ ∧ (f a).Exec sem s₁ τ2 r s' ∧ τ = τ1 ++ τ2 := by
  induction p generalizing s τ with
  | ret a =>
    constructor
    · exact fun h => .inr ⟨[], a, s, τ, ⟨rfl, rfl, rfl⟩, h, rfl⟩
    · rintro (⟨e, ⟨-, h, -⟩, -⟩ | ⟨τ1, b, s₁, τ2, ⟨rfl, hb, rfl⟩, hf, rfl⟩)
      · cases h
      · cases hb
        exact hf
  | fail e =>
    constructor
    · rintro ⟨rfl, rfl, rfl⟩
      exact .inl ⟨e, ⟨rfl, rfl, rfl⟩, rfl⟩
    · rintro (⟨e', ⟨rfl, h, rfl⟩, rfl⟩ | ⟨τ1, b, s₁, τ2, ⟨-, hb, -⟩, -⟩)
      · cases h
        exact ⟨rfl, rfl, rfl⟩
      · cases hb
  | call op k ih =>
    constructor
    · rintro ⟨ch, ans, s₁, τ', hsem, hk, rfl⟩
      rcases (ih ans).mp hk with ⟨e, hp, rfl⟩ | ⟨τ1, a, s2, τ2, hp, hf, rfl⟩
      · exact .inl ⟨e, ⟨ch, ans, s₁, τ', hsem, hp, rfl⟩, rfl⟩
      · exact .inr ⟨_, a, s2, τ2, ⟨ch, ans, s₁, τ1, hsem, hp, rfl⟩, hf, rfl⟩
    · rintro (⟨e, ⟨ch, ans, s₁, τ', hsem, hp, rfl⟩, rfl⟩ |
        ⟨_, a, s2, τ2, ⟨ch, ans, s₁, τ1, hsem, hp, rfl⟩, hf, rfl⟩)
      · exact ⟨ch, ans, s₁, τ', hsem, (ih ans).mpr (.inl ⟨e, hp, rfl⟩), rfl⟩
      · exact ⟨ch, ans, s₁, τ1 ++ τ2, hsem, (ih ans).mpr (.inr ⟨τ1, a, s2, τ2, hp, hf, rfl⟩),
          rfl⟩

/-- An execution that returns has executed both parts. -/
theorem exec_bind_ok (h : (p >>= f).Exec sem s τ (.ok b) s') : ∃ τ1 a s₁ τ2,
    p.Exec sem s τ1 (.ok a) s₁ ∧ (f a).Exec sem s₁ τ2 (.ok b) s' ∧ τ = τ1 ++ τ2 := by
  rcases exec_bind.mp h with ⟨e, -, hbad⟩ | hboth
  · cases hbad
  · exact hboth

theorem exec_attempt {r : Except ε (Except ε α)} :
    p.attempt.Exec sem s τ r s' ↔ ∃ r', r = .ok r' ∧ p.Exec sem s τ r' s' := by
  induction p generalizing s τ with
  | ret a =>
    constructor
    · rintro ⟨rfl, rfl, rfl⟩
      exact ⟨.ok a, rfl, rfl, rfl, rfl⟩
    · rintro ⟨_, rfl, rfl, rfl, rfl⟩
      exact ⟨rfl, rfl, rfl⟩
  | fail e =>
    constructor
    · rintro ⟨rfl, rfl, rfl⟩
      exact ⟨.error e, rfl, rfl, rfl, rfl⟩
    · rintro ⟨_, rfl, rfl, rfl, rfl⟩
      exact ⟨rfl, rfl, rfl⟩
  | call op k ih =>
    constructor
    · rintro ⟨ch, ans, s₁, τ', hsem, hk, rfl⟩
      obtain ⟨r', rfl, hp⟩ := (ih ans).mp hk
      exact ⟨r', rfl, ch, ans, s₁, τ', hsem, hp, rfl⟩
    · rintro ⟨r', rfl, ch, ans, s₁, τ', hsem, hp, rfl⟩
      exact ⟨ch, ans, s₁, τ', hsem, (ih ans).mpr ⟨r', rfl, hp⟩, rfl⟩

/-- An execution of `p.attempt >>= f` is one of `p` and then one of `f`. -/
theorem exec_attempt_bind {f : Except ε α → Prog Op Resp ε β} {r : Except ε β}
    (h : (p.attempt >>= f).Exec sem s τ r s') : ∃ τ1 r1 s₁ τ2,
      p.Exec sem s τ1 r1 s₁ ∧ (f r1).Exec sem s₁ τ2 r s' ∧ τ = τ1 ++ τ2 := by
  rcases exec_bind.mp h with ⟨e, hp, -⟩ | ⟨τ1, r1, s₁, τ2, hp, hf, rfl⟩
  · obtain ⟨_, hbad, -⟩ := exec_attempt.mp hp
    cases hbad
  · obtain ⟨_, ⟨⟩, hp⟩ := exec_attempt.mp hp
    exact ⟨τ1, r1, s₁, τ2, hp, hf, rfl⟩

theorem exec_discard {r : Except ε Unit} (h : p.discard.Exec sem s τ r s') :
    ∃ r', p.Exec sem s τ r' s' := by
  rcases exec_bind.mp h with ⟨e, hp, -⟩ | ⟨τ1, a, s₁, τ2, hp, ⟨rfl, -, rfl⟩, rfl⟩
  · exact ⟨_, hp⟩
  · exact ⟨_, by simpa using hp⟩

theorem exec_ignore {r : Except ε Unit} :
    p.ignore.Exec sem s τ r s' ↔ r = .ok () ∧ ∃ r', p.Exec sem s τ r' s' := by
  constructor
  · intro h
    obtain ⟨τ1, r', s₁, τ2, hp, ⟨rfl, rfl, rfl⟩, rfl⟩ := exec_attempt_bind h
    exact ⟨rfl, r', by simpa using hp⟩
  · rintro ⟨rfl, r', hp⟩
    exact exec_bind.mpr (.inr ⟨τ, r', s', [], exec_attempt.mpr ⟨r', rfl, hp⟩, ⟨rfl, rfl, rfl⟩,
      by simp⟩)

theorem exec_perform {r : Except ε (Resp op)} : (perform op).Exec sem s τ r s' ↔
      ∃ ch, sem ch op s = some (r, s') ∧ τ = [⟨op, r, s, s'⟩] := by
  constructor
  · rintro ⟨ch, ans, s₁, τ', hsem, hk, rfl⟩
    cases ans with
    | ok a =>
      obtain ⟨rfl, rfl, rfl⟩ := hk
      exact ⟨ch, hsem, rfl⟩
    | error e =>
      obtain ⟨rfl, rfl, rfl⟩ := hk
      exact ⟨ch, hsem, rfl⟩
  · rintro ⟨ch, hsem, rfl⟩
    refine ⟨ch, r, s', [], hsem, ?_, rfl⟩
    cases r with
    | ok | error => exact ⟨rfl, rfl, rfl⟩

section

variable (h : p.Exec sem s τ r s') (hp : p.Calls C)
  (hcall : ∀ op ch ans s s', C op → sem ch op s = some (ans, s') → I s → I s') (hs : I s)

include h hp hcall hs

/-- The calls of an execution are calls of the program, and what they preserve holds after each of
them and at the end. -/
theorem Exec.along : (∀ c ∈ τ, C c.op ∧ I c.post) ∧ I s' := by
  induction p generalizing s τ with
  | ret _ | fail _ =>
    obtain ⟨rfl, -, rfl⟩ := h
    exact ⟨fun _ hc => (nomatch hc), hs⟩
  | call op k ih =>
    obtain ⟨ch, ans, s₁, τ', hsem, hk, rfl⟩ := h
    have hs1 : I s₁ := hcall op ch ans s s₁ hp.1 hsem hs
    obtain ⟨hcalls, hs'⟩ := ih ans hk (hp.2 ans) hs1
    exact ⟨forall_mem_cons.mpr ⟨⟨hp.1, hs1⟩, hcalls⟩, hs'⟩

theorem Exec.invariant : I s' := (h.along hp hcall hs).2

end

theorem Exec.calls (h : p.Exec sem s τ r s') (hp : p.Calls C) : ∀ c ∈ τ, C c.op :=
  fun c hc => ((h.along (I := fun _ => True) hp (fun _ _ _ _ _ _ _ _ => trivial) trivial).1 c hc).1

/-- An execution leaves the store of its last call. -/
theorem Exec.last (h : p.Exec sem s τ r s') : s' = s ∨ ∃ c ∈ τ, c.post = s' := by
  induction p generalizing s τ with
  | ret | fail => exact .inl h.2.2
  | call op k ih =>
    obtain ⟨ch, ans, s₁, τ', -, hk, rfl⟩ := h
    rcases ih ans hk with rfl | ⟨c, hc, rfl⟩
    · exact .inr ⟨_, mem_cons_self, rfl⟩
    · exact .inr ⟨c, mem_cons_of_mem _ hc, rfl⟩

/-- A call that is not one of `p` is made after `p` has returned. -/
theorem Exec.past {P : Call Op Resp ε σ → Prop} {r : Except ε β} (h : (p >>= f).Exec sem s τ r s')
    (hp : p.Calls C) (hC : ∀ c, C c.op → ¬ P c) (hc : ∃ c ∈ τ, P c) :
    ∃ τ1 a s₁ τ2, p.Exec sem s τ1 (.ok a) s₁ ∧ (f a).Exec sem s₁ τ2 r s' ∧ τ = τ1 ++ τ2 ∧
      ∃ c ∈ τ2, P c := by
  obtain ⟨c, hc, hP⟩ := hc
  rcases exec_bind.mp h with ⟨e, hfail, -⟩ | ⟨τ1, a, s₁, τ2, hexec, hrest, rfl⟩
  · exact absurd hP (hC c (hfail.calls hp c hc))
  · refine ⟨τ1, a, s₁, τ2, hexec, hrest, rfl, c, ?_, hP⟩
    rcases mem_append.mp hc with hc | hc
    · exact absurd hP (hC c (hexec.calls hp c hc))
    · exact hc

/-- An execution depends on the semantics of the program's own calls only. -/
theorem Exec.congr (h : p.Exec sem s τ r s') (hp : p.Calls C)
    (hsem : ∀ op, C op → ∀ ch s, sem ch op s = sem' ch op s) : p.Exec sem' s τ r s' := by
  induction p generalizing s τ with
  | ret | fail => exact h
  | call op k ih =>
    obtain ⟨ch, ans, s₁, τ', hcall, hk, rfl⟩ := h
    exact ⟨ch, ans, s₁, τ', hsem op hp.1 ch s ▸ hcall, ih ans hk (hp.2 ans), rfl⟩

/-- An execution is one under every semantics that allows its calls. -/
theorem Exec.weaken (h : p.Exec sem s τ r s')
    (hsem : ∀ ch op s a, sem ch op s = some a → ∃ ch', sem' ch' op s = some a) :
    p.Exec sem' s τ r s' := by
  induction p generalizing s τ with
  | ret | fail => exact h
  | call op k ih =>
    obtain ⟨ch, ans, s₁, τ', hcall, hk, rfl⟩ := h
    obtain ⟨ch', hcall'⟩ := hsem ch op s _ hcall
    exact ⟨ch', ans, s₁, τ', hcall', ih ans hk, rfl⟩

/-- An execution that returns, returns what the program can return. -/
theorem Exec.returns {Q : α → Prop} (h : p.Exec sem s τ (.ok a) s') (hp : p.Returns Q) : Q a := by
  induction p generalizing s τ with
  | ret b =>
    obtain ⟨-, hb, -⟩ := h
    obtain rfl := Except.ok.inj hb
    exact hp
  | fail e => cases h.2.1
  | call op k ih =>
    obtain ⟨ch, ans, s₁, τ', -, hk, -⟩ := h
    exact ih ans hk (hp ans)

/-! ### Executions that are cut short -/

/-- From `s` the program makes the calls `τ`, leaves `s'`, and then stops: it
never makes its next call. -/
def Stops (sem : Sem Op Resp ε σ χ) :
    Prog Op Resp ε α → σ → List (Call Op Resp ε σ) → σ → Prop
  | _, s, [], s' => s' = s
  | ret _, _, _ :: _, _ => False
  | fail _, _, _ :: _, _ => False
  | call op k, s, c :: τ, s' => ∃ ch ans s₁, sem ch op s = some (ans, s₁) ∧
      c = ⟨op, ans, s, s₁⟩ ∧ (k ans).Stops sem s₁ τ s'

@[simp] theorem stops_nil : p.Stops sem s [] s' ↔ s' = s := by
  cases p <;> exact Iff.rfl

theorem stops_perform (h : (perform op).Stops sem s τ s') :
    τ = [] ∧ s' = s ∨ ∃ ch ans, sem ch op s = some (ans, s') ∧ τ = [⟨op, ans, s, s'⟩] := by
  cases τ with
  | nil => exact .inl ⟨rfl, stops_nil.mp h⟩
  | cons c τ =>
    obtain ⟨ch, ans, s₁, hsem, rfl, hk⟩ := h
    cases τ with
    | nil =>
      obtain rfl := stops_nil.mp hk
      exact .inr ⟨ch, ans, hsem, rfl⟩
    | cons c τ => cases ans <;> exact hk.elim

/-- `p >>= f` stops in `p`, or `p` returns and `f` stops. -/
theorem stops_bind (h : (p >>= f).Stops sem s τ s') : p.Stops sem s τ s' ∨
    ∃ τ1 a s₁ τ2, p.Exec sem s τ1 (.ok a) s₁ ∧ (f a).Stops sem s₁ τ2 s' ∧ τ = τ1 ++ τ2 := by
  induction p generalizing s τ with
  | ret a => exact .inr ⟨[], a, s, τ, ⟨rfl, rfl, rfl⟩, h, rfl⟩
  | fail e =>
    cases τ with
    | nil => exact .inl h
    | cons c τ => exact h.elim
  | call op k ih =>
    cases τ with
    | nil => exact .inl (stops_nil.mpr (stops_nil.mp h))
    | cons c τ =>
      obtain ⟨ch, ans, s₁, hsem, rfl, hk⟩ := h
      rcases ih ans hk with hp | ⟨τ1, a, s2, τ2, hp, hf, rfl⟩
      · exact .inl ⟨ch, ans, s₁, hsem, rfl, hp⟩
      · exact .inr ⟨_ :: τ1, a, s2, τ2, ⟨ch, ans, s₁, τ1, hsem, hp, rfl⟩, hf, rfl⟩

theorem Stops.calls (h : p.Stops sem s τ s') (hp : p.Calls C) : ∀ c ∈ τ, C c.op := by
  induction p generalizing s τ with
  | ret a =>
    cases τ with
    | nil => exact fun _ hc => nomatch hc
    | cons c τ => exact h.elim
  | fail e =>
    cases τ with
    | nil => exact fun _ hc => nomatch hc
    | cons c τ => exact h.elim
  | call op k ih =>
    cases τ with
    | nil => exact fun _ hc => nomatch hc
    | cons c τ =>
      obtain ⟨ch, ans, s₁, -, rfl, hk⟩ := h
      intro c hc
      rcases mem_cons.mp hc with rfl | hc
      · exact hp.1
      · exact ih ans hk (hp.2 ans) c hc

/-- A call that is not one of `p` is made after `p` has returned. -/
theorem Stops.past (h : (p >>= f).Stops sem s τ s') (hp : p.Calls C) (hc : ∃ c ∈ τ, ¬ C c.op) :
    ∃ τ1 a s₁ τ2, p.Exec sem s τ1 (.ok a) s₁ ∧ (f a).Stops sem s₁ τ2 s' ∧ τ = τ1 ++ τ2 ∧
      ∃ c ∈ τ2, ¬ C c.op := by
  obtain ⟨c, hc, hC⟩ := hc
  rcases stops_bind h with hstop | ⟨τ1, a, s₁, τ2, hexec, hstop, rfl⟩
  · exact absurd (hstop.calls hp c hc) hC
  · refine ⟨τ1, a, s₁, τ2, hexec, hstop, rfl, c, ?_, hC⟩
    rcases mem_append.mp hc with hc | hc
    · exact absurd (hexec.calls hp c hc) hC
    · exact hc

/-- A program whose first call is not made has not moved. -/
theorem Stops.of_avoids
    (h : (call op k).Stops sem s τ s') (hτ : ∀ c ∈ τ, c.op ≠ op) : τ = [] ∧ s' = s := by
  cases τ with
  | nil => exact ⟨rfl, stops_nil.mp h⟩
  | cons c τ =>
    obtain ⟨ch, ans, s₁, -, rfl, -⟩ := h
    exact absurd rfl (hτ _ mem_cons_self)

/-! ### Possible ends -/

/-- Some execution of the program ends as `Q` says. -/
def Reaches (sem : Sem Op Resp ε σ χ) (p : Prog Op Resp ε α) (s : σ)
    (Q : Except ε α → σ → Prop) : Prop := ∃ τ r s', p.Exec sem s τ r s' ∧ Q r s'

theorem reaches_ret (h : Q (.ok a) s) :
    (ret a : Prog Op Resp ε α).Reaches sem s Q := ⟨[], .ok a, s, ⟨rfl, rfl, rfl⟩, h⟩

theorem reaches_fail (h : Q (.error e) s) :
    (fail e : Prog Op Resp ε α).Reaches sem s Q := ⟨[], .error e, s, ⟨rfl, rfl, rfl⟩, h⟩

theorem Reaches.bind (h : p.Reaches sem s Q) (hok : ∀ a s', Q (.ok a) s' → (f a).Reaches sem s' Q')
    (herr : ∀ e s', Q (.error e) s' → Q' (.error e) s') : (p >>= f).Reaches sem s Q' := by
  obtain ⟨τ, r, s₁, hp, hQ⟩ := h
  cases r with
  | ok a =>
    obtain ⟨τ', r', s2, hf, hQ'⟩ := hok a s₁ hQ
    exact ⟨τ ++ τ', r', s2, exec_bind.mpr (.inr ⟨τ, a, s₁, τ', hp, hf, rfl⟩), hQ'⟩
  | error e => exact ⟨τ, .error e, s₁, exec_bind.mpr (.inl ⟨e, hp, rfl⟩), herr e s₁ hQ⟩

theorem Reaches.attempt
    (h : p.Reaches sem s Q) (hQ : ∀ r s', Q r s' → Q' (.ok r) s') : p.attempt.Reaches sem s Q' := by
  obtain ⟨τ, r, s₁, hp, hr⟩ := h
  exact ⟨τ, .ok r, s₁, exec_attempt.mpr ⟨r, rfl, hp⟩, hQ r s₁ hr⟩

theorem Reaches.mono (h : p.Reaches sem s Q)
    (hQ : ∀ r s', Q r s' → Q' r s') : p.Reaches sem s Q' := by
  obtain ⟨τ, r, s₁, hp, hr⟩ := h
  exact ⟨τ, r, s₁, hp, hQ r s₁ hr⟩

theorem reaches_perform {Q : Except ε (Resp op) → σ → Prop} (ch : χ)
    (h : sem ch op s = some (ans, s')) (hQ : Q ans s') :
    (perform op).Reaches sem s Q := ⟨_, ans, s', exec_perform.mpr ⟨ch, h, rfl⟩, hQ⟩

/-- A program none of whose calls blocks comes to an end, in a store that has
what its calls preserve. -/
theorem Reaches.of_calls (hp : p.Calls C)
    (hcall : ∀ op s, C op → I s → ∃ ch ans s', sem ch op s = some (ans, s') ∧ I s')
    (hs : I s) : p.Reaches sem s fun _ => I := by
  induction p generalizing s with
  | ret a => exact reaches_ret hs
  | fail e => exact reaches_fail hs
  | call op k ih =>
    obtain ⟨ch, ans, s₁, hsem, h1⟩ := hcall op s hp.1 hs
    obtain ⟨τ, r, s2, hk, h2⟩ := ih ans (hp.2 ans) h1
    exact ⟨_ :: τ, r, s2, ⟨ch, ans, s₁, τ, hsem, hk, rfl⟩, h2⟩

/-- What every call of the program preserves holds where it ends. -/
theorem Reaches.with_invariant (h : p.Reaches sem s Q) (hp : p.Calls C)
    (hcall : ∀ op ch ans s s', C op → sem ch op s = some (ans, s') → I s → I s') (hs : I s) :
    p.Reaches sem s fun r s' => Q r s' ∧ I s' := by
  obtain ⟨τ, r, s₁, hexec, hQ⟩ := h
  exact ⟨τ, r, s₁, hexec, hQ, hexec.invariant hp hcall hs⟩

/-! ### Programs that return -/

/-- Every execution of the program returns. -/
def NeverFails (sem : Sem Op Resp ε σ χ) (p : Prog Op Resp ε α) : Prop :=
  ∀ s τ r s', p.Exec sem s τ r s' → ∃ a, r = .ok a

section NeverFails

theorem neverFails_ret (a : α) : NeverFails sem (ret a : Prog Op Resp ε α) := by
  rintro s τ r s' ⟨-, rfl, -⟩
  exact ⟨a, rfl⟩

/-- What follows a program that never fails is reached. -/
theorem NeverFails.exec_bind (hp : p.NeverFails sem) {r : Except ε β}
    (h : (p >>= f).Exec sem s τ r s') : ∃ τ1 a s₁ τ2, p.Exec sem s τ1 (.ok a) s₁ ∧
      (f a).Exec sem s₁ τ2 r s' ∧ τ = τ1 ++ τ2 := by
  rcases Prog.exec_bind.mp h with ⟨e, hfail, -⟩ | hbind
  · obtain ⟨a, hbad⟩ := hp _ _ _ _ hfail
    cases hbad
  · exact hbind

theorem NeverFails.bind (hp : p.NeverFails sem) (hf : ∀ a, (f a).NeverFails sem) :
    (p >>= f).NeverFails sem := by
  intro s τ r s' h
  obtain ⟨-, a, s₁, τ2, -, hk, -⟩ := hp.exec_bind h
  exact hf a _ _ _ _ hk

theorem neverFails_attempt (p : Prog Op Resp ε α) : p.attempt.NeverFails sem := by
  intro s τ r s' h
  obtain ⟨r', rfl, -⟩ := exec_attempt.mp h
  exact ⟨r', rfl⟩

theorem neverFails_ignore (p : Prog Op Resp ε α) : p.ignore.NeverFails sem :=
  (neverFails_attempt p).bind fun _ => neverFails_ret ()

theorem NeverFails.discard (hp : p.NeverFails sem) : p.discard.NeverFails sem :=
  hp.bind fun _ => neverFails_ret ()

theorem NeverFails.when {p : Prog Op Resp ε Unit} (hp : p.NeverFails sem) :
    (when c p).NeverFails sem := by
  cases c with
  | false => exact neverFails_ret ()
  | true => exact hp

end NeverFails

/-! ### Calls that precede the return -/

/-- Every execution that returns has made a call with `P`. -/
def ReturnsAfter (sem : Sem Op Resp ε σ χ) (P : Call Op Resp ε σ → Prop)
    (p : Prog Op Resp ε α) : Prop :=
  ∀ s τ a s', p.Exec sem s τ (.ok a) s' → ∃ c ∈ τ, P c

section ReturnsAfter

variable {P : Call Op Resp ε σ → Prop}

theorem returnsAfter_fail (e : ε) : ReturnsAfter sem P (fail e : Prog Op Resp ε α) := by
  rintro s τ a s' ⟨-, hbad, -⟩
  cases hbad

theorem returnsAfter_perform (h : ∀ a s s', P ⟨op, .ok a, s, s'⟩) :
    ReturnsAfter sem P (perform op) := by
  intro s τ a s' hexec
  obtain ⟨ch, -, rfl⟩ := exec_perform.mp hexec
  exact ⟨_, mem_cons_self, h a s s'⟩

/-- The call is made by the first part. -/
theorem ReturnsAfter.bind (hp : ReturnsAfter sem P p) : ReturnsAfter sem P (p >>= f) := by
  intro s τ b s' h
  obtain ⟨τ1, a, s₁, τ2, hexec, -, rfl⟩ := exec_bind_ok h
  obtain ⟨c, hc, hP⟩ := hp s τ1 a s₁ hexec
  exact ⟨c, mem_append_left _ hc, hP⟩

/-- The call is made by the second part. -/
theorem ReturnsAfter.after (hf : ∀ a, ReturnsAfter sem P (f a)) : ReturnsAfter sem P (p >>= f) := by
  intro s τ b s' h
  obtain ⟨τ1, a, s₁, τ2, -, hexec, rfl⟩ := exec_bind_ok h
  obtain ⟨c, hc, hP⟩ := hf a s₁ τ2 b s' hexec
  exact ⟨c, mem_append_right _ hc, hP⟩

/-- It is made by the first part, or the failure is passed on. -/
theorem ReturnsAfter.attempt_bind {f : Except ε α → Prog Op Resp ε β} (hp : ReturnsAfter sem P p)
    (hf : ∀ e, ReturnsAfter sem P (f (.error e))) : ReturnsAfter sem P (p.attempt >>= f) := by
  intro s τ b s' h
  obtain ⟨τ1, r, s₁, τ2, hexec, hrest, rfl⟩ := exec_attempt_bind h
  cases r with
  | ok a =>
    obtain ⟨c, hc, hP⟩ := hp s τ1 a s₁ hexec
    exact ⟨c, mem_append_left _ hc, hP⟩
  | error e =>
    obtain ⟨c, hc, hP⟩ := hf e s₁ τ2 b s' hrest
    exact ⟨c, mem_append_right _ hc, hP⟩

end ReturnsAfter

/-- The execution under given choices of the environment, unless it blocks. -/
def runBy (sem : Sem Op Resp ε σ χ) (ch : Op → χ) :
    Prog Op Resp ε α → σ → Option (List (Call Op Resp ε σ) × Except ε α × σ)
  | ret a, s => some ([], .ok a, s)
  | fail e, s => some ([], .error e, s)
  | call op k, s =>
    match sem (ch op) op s with
    | some (ans, s₁) =>
      match (k ans).runBy sem ch s₁ with
      | some (τ, r, s') => some (⟨op, ans, s, s₁⟩ :: τ, r, s')
      | none => none
    | none => none

variable {r : Except ε α}

theorem exec_of_runBy (ch : Op → χ) (h : p.runBy sem ch s = some (τ, r, s')) :
    p.Exec sem s τ r s' := by
  induction p generalizing s τ with
  | ret a =>
    cases h
    exact ⟨rfl, rfl, rfl⟩
  | fail e =>
    cases h
    exact ⟨rfl, rfl, rfl⟩
  | call op k ih =>
    unfold runBy at h
    split at h
    · rename_i ans s₁ hsem
      split at h
      · rename_i τ' r' s'' hk
        cases h
        exact ⟨ch op, ans, s₁, τ', hsem, ih ans hk, rfl⟩
      · cases h
    · cases h

/-- The execution under one choice of the environment. -/
def runWith (sem : Sem Op Resp ε σ χ) (ch : χ) (p : Prog Op Resp ε α) (s : σ) :
    Option (List (Call Op Resp ε σ) × Except ε α × σ) := p.runBy sem (fun _ => ch) s

theorem exec_of_runWith (ch : χ) (h : p.runWith sem ch s = some (τ, r, s')) :
    p.Exec sem s τ r s' := exec_of_runBy (fun _ => ch) h

/-- The first `n` calls under one choice of the environment. -/
def stopWith (sem : Sem Op Resp ε σ χ) (ch : χ) :
    ℕ → Prog Op Resp ε α → σ → Option (List (Call Op Resp ε σ) × σ)
  | n + 1, call op k, s =>
    match sem ch op s with
    | some (ans, s₁) => (stopWith sem ch n (k ans) s₁).map fun r => (⟨op, ans, s, s₁⟩ :: r.1, r.2)
    | none => none
  | _, _, s => some ([], s)

theorem stops_of_stopWith (ch : χ) (n : ℕ) (h : p.stopWith sem ch n s = some (τ, s')) :
    p.Stops sem s τ s' := by
  induction n generalizing p s τ with
  | zero =>
    cases h
    exact stops_nil.mpr rfl
  | succ n ih =>
    cases p with
    | ret a =>
      cases h
      rfl
    | fail e =>
      cases h
      rfl
    | call op k =>
      unfold stopWith at h
      split at h
      · rename_i ans s₁ hsem
        obtain ⟨⟨τ', s''⟩, hrest, heq⟩ := Option.map_eq_some_iff.mp h
        cases heq
        exact ⟨ch, ans, s₁, hsem, rfl, ih hrest⟩
      · cases h

end Prog

/-! ### Executions inside a pool -/

variable [DecidableEq ι] {sem : Sem Op Resp ε σ χ}

/-- A thread that is the only one to run makes a run of the pool. -/
theorem Prog.Exec.run {p : Prog Op Resp ε α} {s s' : σ} {τ : List (Call Op Resp ε σ)}
    {r : Except ε α} (h : p.Exec sem s τ r s') {c : Config ι Op Resp ε α σ} {i : ι}
    (hi : c.threads i = p) (hs : c.store = s) :
    ∃ τ' q, Run (Step sem) c τ' ⟨Function.update c.threads i q, s'⟩ ∧ q.result = some r := by
  induction p generalizing s τ c with
  | ret a =>
    obtain ⟨-, rfl, rfl⟩ := h
    refine ⟨[], ret a, ?_, rfl⟩
    rw [← hi, Function.update_eq_self, ← hs]
    rfl
  | fail e =>
    obtain ⟨-, rfl, rfl⟩ := h
    refine ⟨[], fail e, ?_, rfl⟩
    rw [← hi, Function.update_eq_self, ← hs]
    rfl
  | call op k ih =>
    obtain ⟨ch, ans, s₁, τ', hsem, hk, -⟩ := h
    subst hs
    obtain ⟨τ'', q, hrun, hq⟩ := ih ans hk
      (c := ⟨Function.update c.threads i (k ans), s₁⟩) (Function.update_self ..) rfl
    refine ⟨_ :: τ'', q, run_cons.mpr ⟨_, Step.call hi hsem, ?_⟩, hq⟩
    rw [Function.update_idem] at hrun
    exact hrun

end Interleaving
