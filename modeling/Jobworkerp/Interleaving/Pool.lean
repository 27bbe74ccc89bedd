/-
Jobworkerp/Interleaving/Pool.lean

Threads over one shared store.

A configuration holds one residual program per thread and the store.  A step
lets one thread make the call it stands at; the order of the threads, and
the environment's choice for each call, are arbitrary, so the runs of the
pool are all the interleavings of its programs.  The index type of the
threads is arbitrary too: a thread that has not been scheduled yet is
indistinguishable from one that has not been created.

A step is recorded as an `Event`, which keeps the call, its answer, the
store before and after, and what the thread ended with when the call was its
last one.

* `Run.all_events`: a property of every call of the programs (`Prog.All`)
  holds of every event of every run.
* `Run.next_event`: a thread that stands at a call and ends along a run makes
  exactly that call at some point, and nothing before it.
-/
import Jobworkerp.Interleaving.Prog
import Jobworkerp.Interleaving.Run

namespace Interleaving

-- a numeral of `Fin 2` or `Fin 3` names a thread of a small pool
instance (priority := 2000) neZero_two : @NeZero ℕ Zero.ofOfNat0 2 := ⟨by decide⟩

instance (priority := 2000) neZero_three : @NeZero ℕ Zero.ofOfNat0 3 := ⟨by decide⟩

variable {ι Op : Type} {Resp : Op → Type} {ε α σ χ : Type}

/-- The residual program of every thread, and the store they share. -/
structure Config (ι Op : Type) (Resp : Op → Type) (ε α σ : Type) where
  threads : ι → Prog Op Resp ε α
  store : σ

/-- One atomic call of one thread. -/
structure Event (ι Op : Type) (Resp : Op → Type) (ε α σ : Type) where
  thread : ι
  op : Op
  ans : Except ε (Resp op)
  pre : σ
  post : σ
  result : Option (Except ε α)

variable [DecidableEq ι]

/-- One thread makes the call it stands at. -/
inductive Step (sem : Sem Op Resp ε σ χ) :
    Config ι Op Resp ε α σ → Event ι Op Resp ε α σ → Config ι Op Resp ε α σ → Prop
  | call {c : Config ι Op Resp ε α σ} {i : ι} {op : Op}
      {k : Except ε (Resp op) → Prog Op Resp ε α} {ch : χ}
      {ans : Except ε (Resp op)} {s' : σ}
      (hi : c.threads i = .call op k) (hs : sem ch op c.store = some (ans, s')) :
      Step sem c ⟨i, op, ans, c.store, s', (k ans).result⟩
        ⟨Function.update c.threads i (k ans), s'⟩

variable {sem : Sem Op Resp ε σ χ} {c c' c'' : Config ι Op Resp ε α σ}
  {e : Event ι Op Resp ε α σ} {τ : List (Event ι Op Resp ε α σ)} {i : ι}

/-! ### What one step does -/

section

variable (h : Step sem c e c')

include h

theorem Step.pre_eq : e.pre = c.store := by
  cases h; rfl

theorem Step.post_eq : e.post = c'.store := by
  cases h; rfl

theorem Step.sem_eq : ∃ ch, sem ch e.op e.pre = some (e.ans, e.post) := by
  cases h with
  | call hi hs => exact ⟨_, hs⟩

/-- The thread of the event made the call it stood at. -/
theorem Step.self : ∃ k, c.threads e.thread = .call e.op k ∧ c'.threads e.thread = k e.ans ∧
      e.result = (k e.ans).result := by
  cases h with
  | @call _ _ k _ _ _ hi hs => exact ⟨k, hi, Function.update_self .., rfl⟩

/-- Every other thread stands where it stood. -/
theorem Step.other (hne : i ≠ e.thread) : c'.threads i = c.threads i := by
  cases h with
  | call hi hs => exact Function.update_of_ne hne ..

/-- A thread that has ended makes no call. -/
theorem Step.not_ended (hr : (c.threads i).result = some r) : i ≠ e.thread := by
  rintro rfl
  obtain ⟨k, hk, -⟩ := h.self
  rw [hk] at hr
  cases hr

end

/-! ### Properties of all calls along a run -/

variable {P : ι → (op : Op) → Except ε (Resp op) → Option (Except ε α) → Prop}

theorem Step.all (h : Step sem c e c') (hc : ∀ i, (c.threads i).All (P i)) :
    P e.thread e.op e.ans e.result ∧ ∀ i, (c'.threads i).All (P i) := by
  obtain ⟨k, hk, hk', hres⟩ := h.self
  have hcall := hc e.thread
  rw [hk] at hcall
  obtain ⟨hP, hrest⟩ := hcall e.ans
  refine ⟨hres ▸ hP, fun i => ?_⟩
  by_cases hi : i = e.thread
  · subst hi
    rw [hk']
    exact hrest
  · rw [h.other hi]
    exact hc i

/-- The programs keep to their calls. -/
theorem Step.calls {C : ι → Op → Prop} (h : Step sem c e c')
    (hc : ∀ i, (c.threads i).Calls (C i)) : ∀ i, (c'.threads i).Calls (C i) := by
  intro i
  by_cases hi : i = e.thread
  · subst hi
    obtain ⟨k, hk, hk', -⟩ := h.self
    have hcall := hc e.thread
    rw [hk] at hcall
    rw [hk']
    exact hcall.2 e.ans
  · rw [h.other hi]
    exact hc i

/-- What holds of everything a thread's program can become goes on to hold. -/
theorem Step.throughout {P : Prog Op Resp ε α → Prop} (h : Step sem c e c')
    (hB : ¬ B e.op) (hi : (c.threads i).Throughout B P) : (c'.threads i).Throughout B P := by
  by_cases he : i = e.thread
  · subst he
    obtain ⟨k, hk, hk', -⟩ := h.self
    rw [hk] at hi
    rw [hk']
    exact hi.2 hB e.ans
  · rw [h.other he]
    exact hi

/-- A property of every call of the programs holds of every event. -/
theorem Run.all_events (h : Run (Step sem) c τ c') (hc : ∀ i, (c.threads i).All (P i)) :
    ∀ e ∈ τ, P e.thread e.op e.ans e.result := by
  intro e he
  obtain ⟨c1, c2, hc1, hs⟩ := h.mem_step
    (I := fun c : Config ι Op Resp ε α σ => ∀ i, (c.threads i).All (P i))
    (fun _ _ _ hs hc => (hs.all hc).2) hc he
  exact (hs.all hc1).1

/-! ### Following one thread -/

variable {r : Except ε α} {Q : α → Prop}

/-- A thread that stands at a call at the start of a run and has ended at its
end makes that call: the run splits there, and no earlier event is of that
thread. -/
theorem Run.next_event (h : Run (Step sem) c τ c'') (hi : c.threads i = .call op k)
    (hr : (c''.threads i).result = some r) :
    ∃ τ1 e τ2 c1 c2, ∃ ch ans, τ = τ1 ++ e :: τ2 ∧ e.thread = i ∧ e.pre = c1.store ∧
      Run (Step sem) c τ1 c1 ∧ (∀ e' ∈ τ1, e'.thread ≠ i) ∧
      sem ch op c1.store = some (ans, c2.store) ∧
      c2.threads i = k ans ∧ Run (Step sem) c2 τ2 c'' := by
  induction τ generalizing c with
  | nil =>
    obtain rfl := run_nil.mp h
    rw [hi] at hr
    cases hr
  | cons e τ ih =>
    obtain ⟨c1, hs, hrest⟩ := h
    by_cases he : e.thread = i
    · -- the first event is the call we look for
      refine ⟨[], e, τ, c, c1, ?_⟩
      cases hs with
      | @call j op' k' ch ans s' hj hsem =>
        obtain rfl : j = i := he
        rw [hi] at hj
        obtain ⟨rfl, hk⟩ := Prog.call.inj hj
        obtain rfl := eq_of_heq hk
        exact ⟨ch, ans, rfl, rfl, rfl, rfl, by simp, hsem, Function.update_self .., hrest⟩
    · have hi' : c1.threads i = .call op k := by
        rw [hs.other (Ne.symm he), hi]
      obtain ⟨τ1, e', τ2, c2, c3, ch, ans, rfl, he', hpre, h1, hno, hsem, hk, h2⟩ := ih hrest hi'
      refine ⟨e :: τ1, e', τ2, c2, c3, ch, ans, rfl, he', hpre, ⟨c1, hs, h1⟩, ?_, hsem, hk, h2⟩
      intro e'' he''
      rcases List.mem_cons.mp he'' with rfl | he''
      · exact he
      · exact hno e'' he''

/-- A thread keeps to the values its program can return. -/
theorem Run.returns (h : Run (Step sem) c τ c') (hi : (c.threads i).Returns Q) :
    (c'.threads i).Returns Q := by
  refine h.invariant (I := fun c => (c.threads i).Returns Q) ?_ hi
  intro c e c' hs hc
  by_cases he : i = e.thread
  · subst he
    obtain ⟨k, hk, hk', -⟩ := hs.self
    rw [hk] at hc
    rw [hk']
    exact hc e.ans
  · rw [hs.other he]
    exact hc

/-- A thread that returns something else than `Q` has made a call of kind `B`.
The run keeps to steps that satisfy `K`, and they give the thread answers of
kind `A`. -/
theorem Run.exists_call {K : Config ι Op Resp ε α σ → Event ι Op Resp ε α σ → Prop}
    {A : (op : Op) → Except ε (Resp op) → Prop} {B : Op → Prop} {a : α}
    (h : Run (fun c e c' => Step sem c e c' ∧ K c e) c τ c')
    (hA : ∀ c e c', Step sem c e c' → K c e → e.thread = i → A e.op e.ans)
    (hi : (c.threads i).ReturnsUnless A B Q) (hr : (c'.threads i).result = some (.ok a))
    (ha : ¬ Q a) : ∃ τ1 e τ2 c1 c2, τ = τ1 ++ e :: τ2 ∧
      Run (fun c e c' => Step sem c e c' ∧ K c e) c τ1 c1 ∧ Step sem c1 e c2 ∧ K c1 e ∧
      e.thread = i ∧ B e.op ∧ Run (fun c e c' => Step sem c e c' ∧ K c e) c2 τ2 c' := by
  induction τ generalizing c with
  | nil =>
    obtain rfl := run_nil.mp h
    cases hp : c.threads i with
    | ret b =>
      rw [hp] at hi hr
      cases hr
      exact absurd hi ha
    | fail | call => rw [hp] at hr; cases hr
  | cons e τ ih =>
    obtain ⟨c1, ⟨hs, hK⟩, hrest⟩ := h
    by_cases he : e.thread = i ∧ B e.op
    · exact ⟨[], e, τ, c, c1, rfl, rfl, hs, hK, he.1, he.2, hrest⟩
    · have hi' : (c1.threads i).ReturnsUnless A B Q := by
        by_cases hthread : e.thread = i
        · subst hthread
          obtain ⟨k, hk, hk', -⟩ := hs.self
          rw [hk] at hi
          rw [hk']
          exact (hi.resolve_left fun hB => he ⟨rfl, hB⟩) e.ans (hA _ _ _ hs hK rfl)
        · rw [hs.other (Ne.symm hthread)]
          exact hi
      obtain ⟨τ1, e', τ2, c2, c3, rfl, h1, hs', hK', he', hB, h2⟩ := ih hrest hi'
      exact ⟨e :: τ1, e', τ2, c2, c3, rfl, ⟨c1, ⟨hs, hK⟩, h1⟩, hs', hK', he', hB, h2⟩

/-- A thread that has ended stands still. -/
theorem Run.ended (h : Run (Step sem) c τ c')
    (hi : (c.threads i).result = some r) : (c'.threads i).result = some r := by
  refine h.invariant (I := fun c => (c.threads i).result = some r) ?_ hi
  intro c e c' hs hc
  rw [hs.other (hs.not_ended hc)]
  exact hc

/-- A thread makes no call after its last one. -/
theorem Run.thread_over (h : Run (Step sem) c (τ1 ++ e :: τ2) c') (hend : e.result.isSome) :
    ∀ e' ∈ τ2, e'.thread ≠ e.thread := by
  intro e' he'
  obtain ⟨c1, -, c2, hs, hrest⟩ := run_append.mp h
  obtain ⟨k, -, hk, hres⟩ := hs.self
  obtain ⟨r, hr⟩ := Option.isSome_iff_exists.mp hend
  obtain ⟨τ3, τ4, rfl⟩ := List.append_of_mem he'
  obtain ⟨c3, h3, c4, hs', -⟩ := run_append.mp hrest
  have hended : (c2.threads e.thread).result = some r := by rw [hk, ← hres, hr]
  exact (hs'.not_ended (h3.ended hended)).symm

/-! ### Running a schedule -/

/-- The step of thread `i` under a choice of the environment, if there is one. -/
def Config.next (sem : Sem Op Resp ε σ χ) (c : Config ι Op Resp ε α σ) (i : ι) (ch : χ) :
    Option (Event ι Op Resp ε α σ × Config ι Op Resp ε α σ) :=
  match c.threads i with
  | .call op k =>
    match sem ch op c.store with
    | some (ans, s') =>
      some (⟨i, op, ans, c.store, s', (k ans).result⟩,
        ⟨Function.update c.threads i (k ans), s'⟩)
    | none => none
  | _ => none

/-- The events of a schedule and the configuration it leads to; a step that
cannot be taken is passed over. -/
def Config.play (sem : Sem Op Resp ε σ χ) (c : Config ι Op Resp ε α σ) :
    List (ι × χ) → List (Event ι Op Resp ε α σ) × Config ι Op Resp ε α σ
  | [] => ([], c)
  | (i, ch) :: sched =>
    match c.next sem i ch with
    | some (e, c') => (e :: (c'.play sem sched).1, (c'.play sem sched).2)
    | none => c.play sem sched

theorem step_of_next (h : c.next sem i ch = some (e, c')) : Step sem c e c' := by
  unfold Config.next at h
  split at h
  · rename_i hi
    split at h
    · rename_i hs
      cases h
      exact .call hi hs
    · cases h
  · cases h

/-- Every schedule is a run. -/
theorem run_play (c : Config ι Op Resp ε α σ) (sched : List (ι × χ)) :
    Run (Step sem) c (c.play sem sched).1 (c.play sem sched).2 := by
  induction sched generalizing c with
  | nil => rfl
  | cons ich sched ih =>
    obtain ⟨i, ch⟩ := ich
    rw [Config.play]
    split
    · rename_i e c' hnext
      exact ⟨c', step_of_next hnext, ih c'⟩
    · exact ih c

end Interleaving
