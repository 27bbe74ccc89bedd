/-
Jobworkerp/Interleaving/Prog.lean

Sequential programs over atomic calls.

An asynchronous function is modelled by the tree of the calls it makes: a
program returns, fails, or makes one atomic call on a shared store and goes
on with the answer.  Between two calls the program computes and touches
nothing shared, so the calls are exactly the points at which other threads
can be scheduled.

A call may always be answered with an error; `perform` propagates it (the
`?` of the modelled language) and `attempt` hands it to the caller.  What a
call does to the store is not part of the tree: it is given by a semantics
`Sem`, which also takes a *choice* of the environment (does the call fail,
how late is it, ...) and may refuse to run the call at all (a blocked call).

`All P p` says that every call of `p`, whatever the answers, satisfies `P`.
It is the only thing the interleaving proofs need to know about a program's
text, and it is closed under sequential composition (`All.bind`).
-/
import Mathlib.Logic.Function.Basic

namespace Interleaving

/-- A program over calls `op : Op`, answered in `Resp op` or with an error. -/
inductive Prog (Op : Type) (Resp : Op → Type) (ε α : Type) : Type
  | ret (a : α)
  | fail (e : ε)
  | call (op : Op) (k : Except ε (Resp op) → Prog Op Resp ε α)

/-- The effect of a call: a choice of the environment and the store give the
answer and the new store, or `none` when the call cannot run now. -/
abbrev Sem (Op : Type) (Resp : Op → Type) (ε σ χ : Type) :=
  χ → (op : Op) → σ → Option (Except ε (Resp op) × σ)

variable {Op : Type} {Resp : Op → Type} {ε α β γ σ χ : Type}

namespace Prog

/-! ### The monad of programs -/

/-- Sequential composition: an error ends the whole program. -/
def bind : Prog Op Resp ε α → (α → Prog Op Resp ε β) → Prog Op Resp ε β
  | ret a, f => f a
  | fail e, _ => fail e
  | call op k, f => call op fun a => (k a).bind f

instance : Monad (Prog Op Resp ε) where
  pure := ret
  bind := bind

theorem bind_assoc' (p : Prog Op Resp ε α) (f : α → Prog Op Resp ε β) (g : β → Prog Op Resp ε γ) :
    (p >>= f) >>= g = p >>= fun a => f a >>= g := by
  induction p with
  | ret | fail => rfl
  | call op k ih => exact congrArg (call op) (funext ih)

/-- Make one call and propagate its error. -/
def perform (op : Op) : Prog Op Resp ε (Resp op) :=
  call op fun
    | .ok a => ret a
    | .error e => fail e

/-- Run a program and hand its error to the caller instead of failing. -/
def attempt : Prog Op Resp ε α → Prog Op Resp ε (Except ε α)
  | ret a => ret (.ok a)
  | fail e => ret (.error e)
  | call op k => call op fun a => (k a).attempt

/-- Run a program only under a condition. -/
def when (c : Bool) (p : Prog Op Resp ε Unit) : Prog Op Resp ε Unit :=
  if c then p else ret ()

/-- Run a program for its effect and drop its value. -/
def discard (p : Prog Op Resp ε α) : Prog Op Resp ε Unit := p >>= fun _ => ret ()

/-- Run a program for its effect and drop its value and its error. -/
def ignore (p : Prog Op Resp ε α) : Prog Op Resp ε Unit := p.attempt.discard

/-- What a finished program ended with. -/
def result : Prog Op Resp ε α → Option (Except ε α)
  | ret a => some (.ok a)
  | fail e => some (.error e)
  | call _ _ => none

/-! ### Properties of every call -/

/-- Every call of the program satisfies `P op answer result`, where `result`
is what the program ended with if the call was its last one. -/
def All (P : (op : Op) → Except ε (Resp op) → Option (Except ε α) → Prop) :
    Prog Op Resp ε α → Prop
  | ret _ => True
  | fail _ => True
  | call op k => ∀ a, P op a (k a).result ∧ (k a).All P

section All

variable {P Q : (op : Op) → Except ε (Resp op) → Option (Except ε α) → Prop}

theorem all_of_forall (h : ∀ op a r, P op a r) (p : Prog Op Resp ε α) : p.All P := by
  induction p with
  | ret | fail => trivial
  | call op k ih => exact fun a => ⟨h _ _ _, ih a⟩

variable {p : Prog Op Resp ε α}

theorem All.mono (h : p.All P) (hPQ : ∀ op a r, P op a r → Q op a r) : p.All Q := by
  induction p with
  | ret | fail => trivial
  | call op k ih => exact fun a => ⟨hPQ _ _ _ (h a).1, ih a (h a).2⟩

theorem All.and (hP : p.All P) (hQ : p.All Q) : p.All fun op a r => P op a r ∧ Q op a r := by
  induction p with
  | ret | fail => trivial
  | call op k ih =>
    exact fun a => ⟨⟨(hP a).1, (hQ a).1⟩, ih a (hP a).2 (hQ a).2⟩

/-- A property of the calls of `p >>= f`, from one of the calls of `p` that
survives the change of the result. -/
theorem All.bind {R : (op : Op) → Except ε (Resp op) → Option (Except ε β) → Prop}
    {f : α → Prog Op Resp ε β} (hp : p.All P)
    (hf : ∀ a, (f a).All R) (hnone : ∀ op ans, P op ans none → R op ans none)
    (hfail : ∀ op ans e, P op ans (some (.error e)) → R op ans (some (.error e)))
    (hret : ∀ op ans a, P op ans (some (.ok a)) → R op ans (f a).result) : (p >>= f).All R := by
  induction p with
  | ret a => exact hf a
  | fail e => trivial
  | call op k ih =>
    intro ans
    obtain ⟨hcall, hrest⟩ := hp ans
    refine ⟨?_, ih ans hrest⟩
    show R op ans (k ans >>= f).result
    cases hk : k ans with
    | ret a =>
      rw [hk] at hcall
      exact hret op ans a hcall
    | fail e =>
      rw [hk] at hcall
      exact hfail op ans e hcall
    | call op' k' =>
      rw [hk] at hcall
      exact hnone op ans hcall

end All

/-- Every call of the program satisfies `C`. -/
def Calls (C : Op → Prop) : Prog Op Resp ε α → Prop
  | ret _ => True
  | fail _ => True
  | call op k => C op ∧ ∀ a, (k a).Calls C

section Calls

variable {C D : Op → Prop}

@[simp] theorem calls_ret (a : α) : (ret a : Prog Op Resp ε α).Calls C := trivial

variable {p : Prog Op Resp ε α} {c : Bool}

theorem Calls.all (h : p.Calls C) : p.All fun op _ _ => C op := by
  induction p with
  | ret | fail => trivial
  | call op k ih => exact fun a => ⟨h.1, ih a (h.2 a)⟩

theorem Calls.mono (h : p.Calls C) (hCD : ∀ op, C op → D op) : p.Calls D := by
  induction p with
  | ret | fail => trivial
  | call op k ih => exact ⟨hCD op h.1, fun a => ih a (h.2 a)⟩

theorem calls_of_forall (h : ∀ op, C op) (p : Prog Op Resp ε α) : p.Calls C := by
  induction p with
  | ret | fail => trivial
  | call op k ih => exact ⟨h op, ih⟩

theorem Calls.bind {f : α → Prog Op Resp ε β}
    (hp : p.Calls C) (hf : ∀ a, (f a).Calls C) : (p >>= f).Calls C := by
  induction p with
  | ret a => exact hf a
  | fail e => trivial
  | call op k ih => exact ⟨hp.1, fun a => ih a (hp.2 a)⟩

theorem Calls.perform (h : C op) : (perform op : Prog Op Resp ε (Resp op)).Calls C := by
  refine ⟨h, ?_⟩
  rintro (e | a)
  · trivial
  · trivial

theorem Calls.attempt (hp : p.Calls C) : p.attempt.Calls C := by
  induction p with
  | ret | fail => trivial
  | call op k ih => exact ⟨hp.1, fun a => ih a (hp.2 a)⟩

theorem Calls.when_of {p : Prog Op Resp ε Unit} (hp : c → p.Calls C) : (when c p).Calls C := by
  cases c with
  | false => trivial
  | true => exact hp rfl

theorem Calls.when {p : Prog Op Resp ε Unit} (hp : p.Calls C) : (when c p).Calls C :=
  .when_of fun _ => hp

theorem Calls.discard (hp : p.Calls C) : p.discard.Calls C :=
  hp.bind fun _ => trivial

theorem Calls.ignore (hp : p.Calls C) : p.ignore.Calls C :=
  hp.attempt.discard

end Calls

/-- Every call of the program satisfies `C`, up to the first one that
satisfies `B`. -/
def CallsUntil (B C : Op → Prop) : Prog Op Resp ε α → Prop
  | ret _ => True
  | fail _ => True
  | call op k => C op ∧ (¬ B op → ∀ a, (k a).CallsUntil B C)

section CallsUntil

variable {B C : Op → Prop}

variable {p : Prog Op Resp ε α}

theorem Calls.until (h : p.Calls C) : p.CallsUntil B C := by
  induction p with
  | ret | fail => trivial
  | call op k ih => exact ⟨h.1, fun _ a => ih a (h.2 a)⟩

theorem CallsUntil.attempt (hp : p.CallsUntil B C) : p.attempt.CallsUntil B C := by
  induction p with
  | ret | fail => trivial
  | call op k ih => exact ⟨hp.1, fun hB a => ih a (hp.2 hB a)⟩

end CallsUntil

/-! ### Properties of everything a program can become -/

/-- The program has `P`, and so has whatever is left of it after some calls
none of which satisfies `B`. -/
def Throughout (B : Op → Prop) (P : Prog Op Resp ε α → Prop) : Prog Op Resp ε α → Prop
  | ret a => P (ret a)
  | fail e => P (fail e)
  | call op k => P (call op k) ∧ (¬ B op → ∀ a, (k a).Throughout B P)

section Throughout

variable {B C : Op → Prop} {P : Prog Op Resp ε β → Prop}

variable {p : Prog Op Resp ε β}

theorem Throughout.self (h : p.Throughout B P) : P p := by
  cases p with
  | ret | fail => exact h
  | call op k => exact h.1

theorem Throughout.mono (hp : p.Throughout B P) (h : ∀ q, P q → P' q) : p.Throughout B P' := by
  induction p with
  | ret | fail => exact h _ hp
  | call op k ih => exact ⟨h _ hp.1, fun hB a => ih a (hp.2 hB a)⟩

/-- The rest of a sequence is the rest of its first program, followed by the
second, or the rest of the second. -/
theorem Throughout.bind {p : Prog Op Resp ε α} (hp : p.Throughout B fun q => P (q >>= f))
    (hf : ∀ a, (f a).Throughout B P) : (p >>= f).Throughout B P := by
  induction p with
  | ret a => exact hf a
  | fail e => exact hp
  | call op k ih => exact ⟨hp.1, fun hB a => ih a (hp.2 hB a)⟩

theorem throughout_perform {f : Resp op → Prog Op Resp ε β}
    (hP : P (perform op >>= f)) (hfail : ∀ e, P (fail e))
    (hf : ∀ a, (f a).Throughout B P) : (perform op >>= f).Throughout B P := by
  refine ⟨hP, fun _ a => ?_⟩
  cases a with
  | ok a => exact hf a
  | error e => exact hfail e

theorem Throughout.of_callsUntil (hp : p.CallsUntil B C)
    (hP : ∀ q : Prog Op Resp ε β, q.CallsUntil B C → P q) : p.Throughout B P := by
  induction p with
  | ret | fail => exact hP _ hp
  | call op k ih => exact ⟨hP _ hp, fun hB a => ih a (hp.2 hB a)⟩

end Throughout

/-! ### What a program can return -/

/-- Every value the program can return satisfies `Q`. -/
def Returns (Q : α → Prop) : Prog Op Resp ε α → Prop
  | ret a => Q a
  | fail _ => True
  | call _ k => ∀ a, (k a).Returns Q

variable {f : α → Prog Op Resp ε β} {Q : α → Prop} {p : Prog Op Resp ε α} {B C : Op → Prop}

theorem Returns.bind {Q : β → Prop} (hf : ∀ a, (f a).Returns Q)
    (p : Prog Op Resp ε α) : (p >>= f).Returns Q := by
  induction p with
  | ret a => exact hf a
  | fail e => trivial
  | call op k ih => exact fun a => ih a

theorem returns_true (p : Prog Op Resp ε α) : p.Returns fun _ => True := by
  induction p with
  | ret | fail => trivial
  | call op k ih => exact ih

theorem Returns.of_result (hp : p.Returns Q) (h : p.result = some (.ok a)) : Q a := by
  cases p with
  | ret b =>
    cases h
    exact hp
  | fail | call => cases h

theorem CallsUntil.bind_returns (hp : p.CallsUntil B C) (hret : p.Returns Q)
    (hf : ∀ a, Q a → (f a).CallsUntil B C) : (p >>= f).CallsUntil B C := by
  induction p with
  | ret a => exact hf a hret
  | fail e => trivial
  | call op k ih => exact ⟨hp.1, fun hB a => ih a (hp.2 hB a) (hret a)⟩

theorem CallsUntil.bind
    (hp : p.CallsUntil B C) (hf : ∀ a, (f a).CallsUntil B C) : (p >>= f).CallsUntil B C :=
  hp.bind_returns (p.returns_true) fun a _ => hf a

/-- With answers of kind `A`, the program returns only `Q`, unless it makes a
call of kind `B` first. -/
def ReturnsUnless (A : (op : Op) → Except ε (Resp op) → Prop) (B : Op → Prop) (Q : α → Prop) :
    Prog Op Resp ε α → Prop
  | ret a => Q a
  | fail _ => True
  | call op k => B op ∨ ∀ a, A op a → (k a).ReturnsUnless A B Q

section ReturnsUnless

variable {A : (op : Op) → Except ε (Resp op) → Prop} {B : Op → Prop} {Q : β → Prop}

theorem ReturnsUnless.bind {P : α → Prop} {p : Prog Op Resp ε α} (hp : p.ReturnsUnless A B P)
    (hf : ∀ a, P a → (f a).ReturnsUnless A B Q) : (p >>= f).ReturnsUnless A B Q := by
  induction p with
  | ret a => exact hf a hp
  | fail e => trivial
  | call op k ih => exact hp.imp_right fun h a ha => ih a (h a ha)

theorem returnsUnless_perform (op : Op) {P : Resp op → Prop} (h : ∀ a, A op (.ok a) → P a) :
    (perform op : Prog Op Resp ε (Resp op)).ReturnsUnless A B P := by
  refine .inr fun a ha => ?_
  cases a with
  | ok a => exact h a ha
  | error e => trivial

theorem returnsUnless_true (p : Prog Op Resp ε β) : p.ReturnsUnless A B fun _ => True := by
  induction p with
  | ret | fail => trivial
  | call op k ih => exact .inr fun a _ => ih a

end ReturnsUnless

end Prog

end Interleaving
