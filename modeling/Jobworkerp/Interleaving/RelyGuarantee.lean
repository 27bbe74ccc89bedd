/-
Jobworkerp/Interleaving/RelyGuarantee.lean

Rely-guarantee reasoning for the threads of a pool.

`Safe sem R G Q E p s` says of a program `p` about to go on in the store `s`:
as long as the other threads change the store only as the rely `R` allows,
every call of `p` changes it as the guarantee `G` promises, and `p` returns
with `Q` or fails with `E`.
The interference is built into the definition (before every call the store may
move along `R`), so a proof of `Safe` is a symbolic execution of the program
with the other threads summarised by `R`.

* `Safe.bind`, `Safe.attempt`, ...: safety follows the syntax of the program.
* `Safe.of_calls`: a program is safe if all its calls keep an invariant.
* `Run.safe`: safe programs, each of whose guarantees is within the relies of
  the others, keep their guarantees along every run of the pool.
* `Run.safe_thread`: one safe program, in a run whose other steps are within its
  rely.
-/
import Jobworkerp.Interleaving.Pool

namespace Interleaving

variable {ι Op : Type} {Resp : Op → Type} {ε α β σ χ : Type}

namespace Prog

/-- Under the rely `R` every call of the program keeps the guarantee `G`, and
the program returns with `Q` or fails with `E`. -/
def Safe (sem : Sem Op Resp ε σ χ) (R : σ → σ → Prop)
    (G : (op : Op) → Except ε (Resp op) → σ → σ → Prop) (Q : α → σ → Prop) (E : ε → σ → Prop) :
    Prog Op Resp ε α → σ → Prop
  | ret a, s => ∀ s', R s s' → Q a s'
  | fail e, s => ∀ s', R s s' → E e s'
  | call op k, s => ∀ s₁, R s s₁ → ∀ ch ans s₂, sem ch op s₁ = some (ans, s₂) →
      G op ans s₁ s₂ ∧ (k ans).Safe sem R G Q E s₂

/-- One postcondition for both ways to end. -/
def Ends (Q : α → σ → Prop) (E : ε → σ → Prop) : Except ε α → σ → Prop
  | .ok a, s => Q a s
  | .error e, s => E e s

/-- A property that both ways to end share. -/
theorem Ends.of_const (h : Ends (fun _ => P) (fun _ => P) res s) : P s := by
  cases res with
  | ok | error => exact h

variable {sem : Sem Op Resp ε σ χ} {R : σ → σ → Prop}
  {G : (op : Op) → Except ε (Resp op) → σ → σ → Prop} {Q Q' : α → σ → Prop}
  {E E' : ε → σ → Prop} {s s' : σ}

variable {p : Prog Op Resp ε α} {J : σ → Prop} {I : σ → Prop}

/-- Safety survives what the rely allows. -/
theorem Safe.stable (hR : ∀ s₁ s₂ s3, R s₁ s₂ → R s₂ s3 → R s₁ s3)
    (hp : p.Safe sem R G Q E s) (h : R s s') : p.Safe sem R G Q E s' := by
  cases p with
  | ret | fail | call => exact fun s₁ h1 => hp s₁ (hR _ _ _ h h1)

/-- A safe program that has ended has ended well. -/
theorem Safe.ends (hrefl : R s s) (hp : p.Safe sem R G Q E s) (hr : p.result = some r) :
    Ends Q E r s := by
  cases p with
  | ret a =>
    cases hr
    exact hp s hrefl
  | fail e =>
    cases hr
    exact hp s hrefl
  | call op k => cases hr

theorem Safe.mono (hp : p.Safe sem R G Q E s)
    (hQ : ∀ a s, Q a s → Q' a s) (hE : ∀ e s, E e s → E' e s) : p.Safe sem R G Q' E' s := by
  induction p generalizing s with
  | ret a => exact fun s₁ h1 => hQ _ _ (hp s₁ h1)
  | fail e => exact fun s₁ h1 => hE _ _ (hp s₁ h1)
  | call op k ih =>
    intro s₁ h1 ch ans s₂ hsem
    obtain ⟨hG, hk⟩ := hp s₁ h1 ch ans s₂ hsem
    exact ⟨hG, ih ans hk⟩

/-- A guarantee can be weakened. -/
theorem Safe.weaken (hp : p.Safe sem R G Q E s)
    (hG : ∀ op ans s s', G op ans s s' → G' op ans s s') : p.Safe sem R G' Q E s := by
  induction p generalizing s with
  | ret | fail => exact hp
  | call op k ih =>
    intro s₁ h1 ch ans s₂ hsem
    obtain ⟨hcall, hk⟩ := hp s₁ h1 ch ans s₂ hsem
    exact ⟨hG _ _ _ _ hcall, ih ans hk⟩

/-- Sequential composition: the second program starts where the first ends. -/
theorem Safe.bind (hrefl : ∀ s, R s s) {Q' : β → σ → Prop} (hp : p.Safe sem R G Q E s)
    (hf : ∀ a s, Q a s → (f a).Safe sem R G Q' E s) : (p >>= f).Safe sem R G Q' E s := by
  induction p generalizing s with
  | ret a => exact hf a s (hp s (hrefl s))
  | fail e => exact hp
  | call op k ih =>
    intro s₁ h1 ch ans s₂ hsem
    obtain ⟨hG, hk⟩ := hp s₁ h1 ch ans s₂ hsem
    exact ⟨hG, ih ans hk⟩

theorem Safe.attempt (hp : p.Safe sem R G Q E s) : p.attempt.Safe sem R G (Ends Q E) E' s := by
  induction p generalizing s with
  | ret | fail => exact hp
  | call op k ih =>
    intro s₁ h1 ch ans s₂ hsem
    obtain ⟨hG, hk⟩ := hp s₁ h1 ch ans s₂ hsem
    exact ⟨hG, ih ans hk⟩

/-- A program run for its effect only. -/
theorem Safe.ignore (hp : p.Safe sem R G (fun _ => J) (fun _ => J) s) :
    p.ignore.Safe sem R G (fun _ => J) E s := by
  induction p generalizing s with
  | ret | fail => exact hp
  | call op k ih =>
    intro s₁ h1 ch ans s₂ hsem
    obtain ⟨hG, hk⟩ := hp s₁ h1 ch ans s₂ hsem
    exact ⟨hG, ih ans hk⟩

theorem Safe.perform {Q : Resp op → σ → Prop} (hJ : ∀ s s', J s → R s s' → J s') (hs : J s)
    (h : ∀ s₁ ch ans s₂, J s₁ → sem ch op s₁ = some (ans, s₂) →
      G op ans s₁ s₂ ∧ ∀ s3, R s₂ s3 → Ends Q E ans s3) :
    (perform op).Safe sem R G Q E s := by
  intro s₁ h1 ch ans s₂ hsem
  obtain ⟨hG, hQ⟩ := h s₁ ch ans s₂ (hJ s s₁ hs h1) hsem
  refine ⟨hG, ?_⟩
  cases ans with
  | ok | error => exact hQ

theorem Safe.of_result (hR : ∀ s s', I s → R s s' → I s')
    (hp : p.result.isSome) (hs : I s) : p.Safe sem R G (fun _ => I) (fun _ => I) s := by
  cases p with
  | ret | fail => exact fun s' h => hR s s' hs h
  | call op k => cases hp

/-- A program whose calls all keep an invariant is safe. -/
theorem Safe.of_calls (hp : p.Calls C) (hR : ∀ s s', I s → R s s' → I s')
    (hcall : ∀ op ch ans s s', C op → I s → sem ch op s = some (ans, s') →
      G op ans s s' ∧ I s') (hs : I s) :
    p.Safe sem R G (fun _ => I) (fun _ => I) s := by
  induction p generalizing s with
  | ret | fail => exact fun s' h => hR s s' hs h
  | call op k ih =>
    intro s₁ h1 ch ans s₂ hsem
    obtain ⟨hG, hI⟩ := hcall op ch ans s₁ s₂ hp.1 (hR s s₁ hs h1) hsem
    exact ⟨hG, ih ans (hp.2 ans) hI⟩

end Prog

/-! ### Pools of safe threads -/

section Thread

variable [DecidableEq ι] {sem own : Sem Op Resp ε σ χ} {R : σ → σ → Prop}
  {G : (op : Op) → Except ε (Resp op) → σ → σ → Prop} {Q : α → σ → Prop} {E : ε → σ → Prop}
  {S : Config ι Op Resp ε α σ → Event ι Op Resp ε α σ → Config ι Op Resp ε α σ → Prop}
  {c c' : Config ι Op Resp ε α σ} {e : Event ι Op Resp ε α σ}
  {τ : List (Event ι Op Resp ε α σ)} {i : ι}

section

variable (hrefl : ∀ s, R s s) (htrans : ∀ s₁ s₂ s3, R s₁ s₂ → R s₂ s3 → R s₁ s3)

include hrefl htrans

/-- A safe thread stays safe, as long as its own steps are steps of its
semantics `own` and the steps of the others stay within its rely. -/
theorem Step.safe_thread
    (h : Step sem c e c') (hself : e.thread = i → ∃ ch, own ch e.op e.pre = some (e.ans, e.post))
    (hother : e.thread ≠ i → R e.pre e.post) (hi : (c.threads i).Safe own R G Q E c.store) :
    (e.thread = i → G e.op e.ans e.pre e.post) ∧ (c'.threads i).Safe own R G Q E c'.store := by
  by_cases he : e.thread = i
  · subst he
    obtain ⟨k, hk, hk', -⟩ := h.self
    obtain ⟨ch, hsem⟩ := hself rfl
    rw [hk, ← h.pre_eq] at hi
    obtain ⟨hG, hsafe⟩ := hi _ (hrefl _) ch _ _ hsem
    rw [hk', ← h.post_eq]
    exact ⟨fun _ => hG, hsafe⟩
  · refine ⟨fun h => absurd h he, ?_⟩
    rw [h.other (Ne.symm he), ← h.post_eq]
    rw [← h.pre_eq] at hi
    exact hi.stable htrans (hother he)

/-- One safe thread along a run of the pool. -/
theorem Run.safe_thread
    (hS : ∀ c e c', S c e c' → Step sem c e c') (hself : ∀ c e c', S c e c' → e.thread = i →
      ∃ ch, own ch e.op e.pre = some (e.ans, e.post))
    (hother : ∀ c e c', S c e c' → e.thread ≠ i → R e.pre e.post) (h : Run S c τ c')
    (hi : (c.threads i).Safe own R G Q E c.store) :
    (∀ e ∈ τ, e.thread = i → G e.op e.ans e.pre e.post) ∧
      (c'.threads i).Safe own R G Q E c'.store := by
  have hstep := fun (c : Config ι Op Resp ε α σ) e c' (hs : S c e c')
      (hc : (c.threads i).Safe own R G Q E c.store) =>
    (hS c e c' hs).safe_thread hrefl htrans (hself c e c' hs) (hother c e c' hs) hc
  refine ⟨fun e he => ?_, h.invariant (I := fun c => (c.threads i).Safe own R G Q E c.store)
    (fun c e c' hs hc => (hstep c e c' hs hc).2) hi⟩
  obtain ⟨c1, c2, hc1, hs⟩ := h.mem_step (I := fun c => (c.threads i).Safe own R G Q E c.store)
    (fun c e c' hs hc => (hstep c e c' hs hc).2) hi he
  exact (hstep c1 e c2 hs hc1).1

end

end Thread

variable [DecidableEq ι] {sem : Sem Op Resp ε σ χ} {own : ι → Sem Op Resp ε σ χ}
  {R : ι → σ → σ → Prop} {G : ι → (op : Op) → Except ε (Resp op) → σ → σ → Prop}
  {Q : ι → α → σ → Prop} {E : ι → ε → σ → Prop}
  {S : Config ι Op Resp ε α σ → Event ι Op Resp ε α σ → Config ι Op Resp ε α σ → Prop}
  {c c' : Config ι Op Resp ε α σ} {e : Event ι Op Resp ε α σ}
  {τ : List (Event ι Op Resp ε α σ)} (hrefl : ∀ i s, R i s s)
  (htrans : ∀ i s₁ s₂ s3, R i s₁ s₂ → R i s₂ s3 → R i s₁ s3)
  (hcompat : ∀ i j, i ≠ j → ∀ op ans s s', G j op ans s s' → R i s s')

include hrefl htrans hcompat

/-- A step of a pool of safe threads keeps its thread's guarantee and leaves
the pool safe. -/
theorem Step.safe (h : Step sem c e c')
    (hself : ∃ ch, own e.thread ch e.op e.pre = some (e.ans, e.post))
    (hc : ∀ i, (c.threads i).Safe (own i) (R i) (G i) (Q i) (E i) c.store) :
    G e.thread e.op e.ans e.pre e.post ∧
      ∀ i, (c'.threads i).Safe (own i) (R i) (G i) (Q i) (E i) c'.store := by
  have hG : G e.thread e.op e.ans e.pre e.post :=
    (h.safe_thread (hrefl _) (htrans _) (fun _ => hself) (fun hne => absurd rfl hne)
      (hc e.thread)).1 rfl
  refine ⟨hG, fun i => (h.safe_thread (hrefl i) (htrans i) ?_ (fun hne => ?_) (hc i)).2⟩
  · rintro rfl
    exact hself
  · exact hcompat i e.thread (Ne.symm hne) _ _ _ _ hG

/-- **The rely-guarantee rule**, for a run whose steps are steps of the
threads' own semantics. -/
theorem Run.safe_own (hS : ∀ c e c', S c e c' → Step sem c e c')
    (hself : ∀ c e c', S c e c' → ∃ ch, own e.thread ch e.op e.pre = some (e.ans, e.post))
    (h : Run S c τ c') (hc : ∀ i, (c.threads i).Safe (own i) (R i) (G i) (Q i) (E i) c.store) :
    (∀ e ∈ τ, G e.thread e.op e.ans e.pre e.post) ∧
      ∀ i, (c'.threads i).Safe (own i) (R i) (G i) (Q i) (E i) c'.store := by
  have hstep := fun (c : Config ι Op Resp ε α σ) e c' (hs : S c e c') =>
    (hS c e c' hs).safe (Q := Q) (E := E) hrefl htrans hcompat (hself c e c' hs)
  refine ⟨fun e he => ?_, h.invariant (fun c e c' hs hc => (hstep c e c' hs hc).2) hc⟩
  obtain ⟨c1, c2, hc1, hs⟩ := h.mem_step (fun c e c' hs hc => (hstep c e c' hs hc).2) hc he
  exact (hstep c1 e c2 hs hc1).1

/-- **The rely-guarantee rule.** -/
theorem Run.safe (h : Run (Step sem) c τ c')
    (hc : ∀ i, (c.threads i).Safe sem (R i) (G i) (Q i) (E i) c.store) :
    (∀ e ∈ τ, G e.thread e.op e.ans e.pre e.post) ∧
      ∀ i, (c'.threads i).Safe sem (R i) (G i) (Q i) (E i) c'.store :=
  h.safe_own hrefl htrans hcompat (fun _ _ _ hs => hs) (fun _ _ _ hs => hs.sem_eq) hc

end Interleaving
