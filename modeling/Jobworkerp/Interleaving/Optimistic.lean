/-
Jobworkerp/Interleaving/Optimistic.lean

Optimistic updates of one stored value.

A cell holds the text of a state, or nothing.  `tryUpdate` reads the cell,
computes the new state, and writes it if the text is still the one that was read;
when another writer was faster it starts over, a bounded number of times.  A
command can fail; it has no effect then.

* `linear_tryUpdate`: such an update is atomic.  The write that is accepted is the
  point at which it happens; otherwise nothing is changed.
-/
import Jobworkerp.Interleaving.Refinement

namespace Interleaving

variable {Raw σ ε β κ : Type}

/-- The commands on a cell. -/
inductive CellOp (Raw σ : Type)
  | get
  | swap (old : Raw) (new : σ)
  /-- The cell outlives its time to live. -/
  | expire
  /-- A step of the program that is no command. -/
  | skip

def CellOp.Resp : CellOp Raw σ → Type
  | get => Option Raw
  | swap _ _ => Bool
  | expire => Unit
  | skip => Unit

/-- How states are written down; a state may have several texts. -/
structure Codec (Raw σ κ : Type) where
  encode : κ → σ → Raw
  decode : Raw → Option σ
  decode_encode : ∀ k s, decode (encode k s) = some s

/-- The connection fails, or the command is carried out; a state that is written
gets one of its texts. -/
inductive CellChoice (κ : Type)
  | fails
  | served (text : κ)

/-- The meaning of the commands. -/
def cellSem [DecidableEq Raw] (codec : Codec Raw σ κ) :
    Sem (CellOp Raw σ) CellOp.Resp Unit (Option Raw) (CellChoice κ)
  | _, .expire, _ => some (.ok (), none)
  | _, .skip, cell => some (.ok (), cell)
  | .fails, _, cell => some (.error (), cell)
  | .served _, .get, cell => some (.ok cell, cell)
  | .served text, .swap old new, cell =>
    if cell = some old then some (.ok true, some (codec.encode text new))
    else some (.ok false, cell)

inductive CasError (ε : Type)
  | rejected (e : ε)
  | unavailable
  | contended

open Prog

/-- The program of an update. -/
abbrev CellProg (Raw σ ε β : Type) :=
  Prog (CellOp Raw σ) CellOp.Resp Unit (Except (CasError ε) β)

/-- Write the new state if the text is still the one that was read. -/
def commitUpdate (raw : Raw) (value : β) (s' : σ) (retry : CellProg Raw σ ε β) :
    CellProg Raw σ ε β :=
  call (.swap raw s') fun
    | .error _ => ret (.error .unavailable)
    | .ok true => ret (.ok value)
    | .ok false => retry

/-- Compute the new state from the text that was read. -/
def computeUpdate (codec : Codec Raw σ κ) (update : σ → Except ε (β × σ)) (raw : Raw)
    (retry : CellProg Raw σ ε β) : CellProg Raw σ ε β :=
  match codec.decode raw with
  | none => ret (.error .unavailable)
  | some s =>
    match update s with
    | .error e => ret (.error (.rejected e))
    | .ok (value, s') => commitUpdate raw value s' retry

/-- Read, compute and write, at most `n` times. -/
def tryUpdate (codec : Codec Raw σ κ) (update : σ → Except ε (β × σ)) :
    ℕ → CellProg Raw σ ε β
  | 0 => ret (.error .contended)
  | n + 1 =>
    call .get fun
      | .error _ => ret (.error .unavailable)
      | .ok none => ret (.error .unavailable)
      | .ok (some raw) => computeUpdate codec update raw (tryUpdate codec update n)

/-- The cell holds a text of the state. -/
def Holds (codec : Codec Raw σ κ) (cell : Option Raw) (s : Option σ) : Prop :=
  Option.Rel (fun raw s => codec.decode raw = some s) cell s

variable {Op χ : Type} {Resp : Op → Type}

/-- The answers of an operation that updates a state. -/
structure Updates (sem : Sem Op Resp Unit (Option σ) χ) (op : Op)
    (update : σ → Except ε (β × σ)) (answer : Except (CasError ε) β → Resp op) : Prop where
  commits : ∀ {s value s'}, update s = .ok (value, s') →
    ∃ ch, sem ch op (some s) = some (.ok (answer (.ok value)), some s')
  rejects : ∀ {s e}, update s = .error e →
    ∃ ch, sem ch op (some s) = some (.ok (answer (.error (.rejected e))), some s)
  unavailable : ∀ s, ∃ ch, sem ch op s = some (.ok (answer (.error .unavailable)), s)
  contended : ∀ s, ∃ ch, sem ch op s = some (.ok (answer (.error .contended)), s)

variable [DecidableEq Raw] {codec : Codec Raw σ κ} {sem : Sem Op Resp Unit (Option σ) χ} {op : Op}
  {update : σ → Except ε (β × σ)} {answer : Except (CasError ε) β → Resp op}

/-- The write is accepted and the update has happened, or nothing has. -/
theorem linear_commitUpdate (h : Updates sem op update answer) (hraw : codec.decode raw = some s)
    (hupdate : update s = .ok (value, s')) (hretry : retry = ret (.error .contended) ∨
      Linear (cellSem codec) sem (Holds codec) op (retry >>= fun r => ret (.ok (answer r)))) :
    Linear (cellSem codec) sem (Holds codec) op
      (commitUpdate raw value s' retry >>= fun r => ret (.ok (answer r))) := by
  intro ch cell a ans cell' habs hsem
  cases ch with
  | fails =>
    cases hsem
    obtain ⟨ch, hch⟩ := h.unavailable a
    exact .inl ⟨_, ch, a, rfl, hch, habs⟩
  | served text =>
    by_cases hcell : cell = some raw
    · -- the text is the one that was read, so the state is too
      rw [cellSem, if_pos hcell] at hsem
      cases hsem
      subst hcell
      cases habs with
      | some hraw' =>
        cases hraw.symm.trans hraw'
        obtain ⟨ch, hch⟩ := h.commits hupdate
        exact .inl ⟨_, ch, some s', rfl, hch, .some (codec.decode_encode text s')⟩
    · rw [cellSem, if_neg hcell] at hsem
      cases hsem
      rcases hretry with rfl | hlinear
      · obtain ⟨ch, hch⟩ := h.contended a
        exact .inl ⟨_, ch, a, rfl, hch, habs⟩
      · exact .inr ⟨habs, hlinear⟩

/-- One attempt reads the state, and rejects it or goes on to write. -/
theorem linear_attempt (h : Updates sem op update answer)
    (hretry : tryUpdate codec update n = ret (.error .contended) ∨
      Linear (cellSem codec) sem (Holds codec) op
        (tryUpdate codec update n >>= fun r => ret (.ok (answer r)))) :
    Linear (cellSem codec) sem (Holds codec) op
      (tryUpdate codec update (n + 1) >>= fun r => ret (.ok (answer r))) := by
  intro ch cell a ans cell' habs hsem
  cases ch with
  | fails =>
    cases hsem
    obtain ⟨ch, hch⟩ := h.unavailable a
    exact .inl ⟨_, ch, a, rfl, hch, habs⟩
  | served text =>
    cases hsem
    cases habs with
    | none =>
      obtain ⟨ch, hch⟩ := h.unavailable none
      exact .inl ⟨_, ch, none, rfl, hch, .none⟩
    | @some raw s hraw =>
      cases hupdate : update s with
      | error e =>
        obtain ⟨ch, hch⟩ := h.rejects hupdate
        refine .inl ⟨.ok (answer (.error (.rejected e))), ch, some s, ?_, hch, .some hraw⟩
        have hcompute : computeUpdate codec update raw (tryUpdate codec update n) =
            ret (.error (.rejected e)) := by
          simp [computeUpdate, hraw, hupdate]
        show (computeUpdate codec update raw _).bind _ = _
        rw [hcompute]
        rfl
      | ok result =>
        obtain ⟨value, s'⟩ := result
        refine .inr ⟨.some hraw, ?_⟩
        have hcompute : computeUpdate codec update raw (tryUpdate codec update n) =
            commitUpdate raw value s' (tryUpdate codec update n) := by
          simp [computeUpdate, hraw, hupdate]
        show Linear _ _ _ op (computeUpdate codec update raw _ >>= _)
        rw [hcompute]
        exact linear_commitUpdate h hraw hupdate hretry

/-- **An optimistic update is atomic.** -/
theorem linear_tryUpdate (h : Updates sem op update answer) (n : ℕ) :
    Linear (cellSem codec) sem (Holds codec) op
      (tryUpdate codec update (n + 1) >>= fun r => ret (.ok (answer r))) := by
  induction n with
  | zero => exact linear_attempt h (.inl rfl)
  | succ n ih => exact linear_attempt h (.inr ih)

end Interleaving
