/-
Jobworkerp/CleanupOrder.lean

The order in which a job is taken down: the row first, then the live record.

The row of the job table and the live record are in two stores, and nothing
writes them together.  What keeps them consistent is an order.  Whoever ends
the job, a completion, the background task of a stream or a cancellation,
deletes the row and then the record; so a job without a record has no row, as
long as nothing enqueues it again.

* `Tidy`: what a call does to the row and the record in this order.
* `closed_maintains`: a dispatcher, a result processor and a background task are
  tidy, and keep what a tidy change keeps.
* `maintains_cancelJobLifecycle`: so does a cancellation of a job whose only queue
  is the table.
-/
import Jobworkerp.Deletion

namespace Jobworkerp

open Interleaving Prog Option

/-! ### What a call does while nothing is enqueued again -/

/-- The calls that put the job back: they create its row, or write a record
whatever the record is. -/
def Op.revives : Op → Bool
  | .putStatus _ => true
  | op => op.createsRow

/-- The semantics of a thread whose calls meet a condition: no call fails, and
a call that does not meet the condition is not made. -/
def restricted (meets : Op → Store → Bool) : Sem Op Resp JobWorkerError Store Choice :=
  fun ch op s => if meets op s then reliable ch op s else none

/-- The record is CANCELLING. -/
def Store.cancelling (s : Store) : Bool := s.live.any fun p => p.status = .cancelling

/-- The row is there or not as before, and no record appears. -/
structure Between (s s' : Store) : Prop where
  row : s'.row.isSome = s.row.isSome
  live : s.live = none → s'.live = none

/-- No row and no record appears, the record goes after the row, and a
CANCELLING record stays or goes. -/
structure Tidy (s s' : Store) : Prop where
  gone : s.row = none → s'.row = none
  dead : s.live = none → s'.live = none
  deleted : s.live ≠ none → s'.live = none → s'.row = none
  cancelled : s.cancelling → s'.live = s.live ∨ s'.live = none

/-- A tidy change that does not cancel the job. -/
def Uncancelling (s s' : Store) : Prop := Tidy s s' ∧ (s'.cancelling → s.cancelling)

variable {s s' : Store} {meets : Op → Store → Bool} {op : Op} {R : Store → Store → Prop}
  {J : Store → Prop}

section Relations

variable {s'' : Store}

theorem Between.refl (s : Store) : Between s s := ⟨rfl, id⟩

theorem Between.trans (h : Between s s') (h' : Between s' s'') : Between s s'' :=
  ⟨h'.row.trans h.row, fun hs => h'.live (h.live hs)⟩

theorem Tidy.refl (s : Store) : Tidy s s :=
  ⟨id, id, fun hne h => absurd h hne, fun _ => .inl rfl⟩

theorem Tidy.trans (h : Tidy s s') (h' : Tidy s' s'') : Tidy s s'' := by
  refine ⟨fun hs => h'.gone (h.gone hs), fun hs => h'.dead (h.dead hs), fun hne hs'' => ?_,
    fun hs => ?_⟩
  · by_cases hs' : s'.live = none
    · exact h'.gone (h.deleted hne hs')
    · exact h'.deleted hs' hs''
  · rcases h.cancelled hs with heq | hnone
    · have hs' : s'.cancelling := by
        unfold Store.cancelling
        rw [heq]
        exact hs
      rw [← heq]
      exact h'.cancelled hs'
    · exact .inr (h'.dead hnone)

theorem Between.of_tick (h : Between (s.tick n) s') : Between s s' := ⟨h.row, h.live⟩

theorem Tidy.of_tick (h : Tidy (s.tick n) s') : Tidy s s' :=
  ⟨h.gone, h.dead, h.deleted, h.cancelled⟩

theorem Between.gone (h : Between s s') (hs : s.row = none) : s'.row = none := by
  have hrow := h.row
  rw [hs] at hrow
  exact isSome_eq_false_iff.mp hrow |> isNone_iff_eq_none.mp

theorem Store.cancelling_of_eq (h : s'.live = s.live) : s'.cancelling = s.cancelling := by
  unfold Store.cancelling
  rw [h]

theorem Store.cancelling_of_some (h : s.live = some p) :
    s.cancelling = decide (p.status = .cancelling) := by
  unfold Store.cancelling
  rw [h]
  rfl

/-- A change that deletes nothing, from what it does to the record. -/
theorem Between.tidy (h : Between s s') (hlive : s'.live = s.live ∨
    ∃ p q, s.live = some p ∧ s'.live = some q ∧ p.status ≠ .cancelling) : Tidy s s' := by
  rcases hlive with heq | ⟨p, q, hs, hs', hp⟩
  · exact ⟨h.gone, h.live, fun hne hs' => absurd (heq ▸ hs') hne, fun _ => .inl heq⟩
  · refine ⟨h.gone, h.live, fun _ hnone => ?_, fun hc => ?_⟩
    · rw [hs'] at hnone
      cases hnone
    · rw [Store.cancelling_of_some hs] at hc
      exact absurd (of_decide_eq_true hc) hp

end Relations

section Calls

variable {ch : Choice} {a : Answer op}

theorem effect_of_restricted (h : restricted meets ch op s = some (a, s')) :
    meets op s ∧ ∃ ch' n, effect ch' op (s.tick n) = some (a, s') := by
  unfold restricted at h
  split at h
  · rename_i hmeets
    rw [reliable_eq_effect] at h
    exact ⟨hmeets, _, _, h⟩
  · cases h

theorem isSome_setLease (row : Option JobData) (lease : ℤ) :
    (setLease row lease).isSome = row.isSome := isSome_map

theorem row_of_effect (hop : op.createsRow = false) (hdelete : op ≠ .deleteRow)
    (h : effect ch op s = some (a, s')) : s'.row.isSome = s.row.isSome := by
  by_cases ht : op.table = .job
  · cases op <;> simp only [Op.table, reduceCtorEq] at ht
    case createRow | upsertRow | upsertRowWithClaim => cases hop
    case deleteRow => exact absurd rfl hdelete
    case grabAndMarkRunning =>
      simp only [effect] at h
      split at h
      · cases h
        rfl
      · split at h <;> cases h
        · exact isSome_setLease _ _
        · rfl
    all_goals
      simp only [effect] at h
      split at h <;> cases h
      · exact isSome_setLease _ _
      · rfl
  · rw [(effect_frame h).row ht]

theorem compareAndSet_cases
    (h : AdvanceRequest expected next) : compareAndSet live expected next = live ∨
      ∃ p q, live = some p ∧ compareAndSet live expected next = some q ∧ next = some q ∧
        p.status ≠ .cancelling := by
  obtain ⟨p, q, rfl, rfl, hadv⟩ := h
  unfold compareAndSet
  split
  · rename_i hlive
    exact .inr ⟨p, q, hlive, rfl, rfl, hadv.not_cancelling⟩
  · exact .inl rfl

theorem MovesOn.request (h : MovesOn expected next) : AdvanceRequest expected next := by
  obtain ⟨p, q, he, hn, hadv, -⟩ := h
  exact ⟨p, q, he, hn, hadv⟩

theorem live_of_effect (hop : RegisterOp op) (hdelete : op ≠ .deleteStatus)
    (h : effect ch op s = some (a, s')) : s'.live = s.live ∨
      ∃ p q, s.live = some p ∧ s'.live = some q ∧ p.status ≠ .cancelling ∧
        (TameOp op → q.status ≠ .cancelling) := by
  by_cases ht : op.table = .live
  · have hcas : ∀ expected next, AdvanceRequest expected next →
        s'.live = compareAndSet s.live expected next → (TameOp op → MovesOn expected next) →
        s'.live = s.live ∨ ∃ p q, s.live = some p ∧ s'.live = some q ∧ p.status ≠ .cancelling ∧
          (TameOp op → q.status ≠ .cancelling) := by
      intro expected next hreq hs' hmoves
      rw [hs']
      refine (compareAndSet_cases hreq).imp_right ?_
      rintro ⟨p, q, hp, hq, rfl, hne⟩
      refine ⟨p, q, hp, hq, hne, fun htame => ?_⟩
      obtain ⟨p', q', -, heq, -, hq'⟩ := hmoves htame
      cases heq
      exact hq'
    cases op <;> simp only [Op.table, reduceCtorEq] at ht
    case putStatus => exact hop.elim
    case deleteStatus => exact absurd rfl hdelete
    case compareAndSetEntry expected next =>
      cases h
      exact hcas expected next hop rfl id
    case compareAndSetScript expected next =>
      cases h
      exact hcas expected next hop rfl id
  · exact .inl ((effect_frame h).live ht)

theorem TameOp.register (h : TameOp op) (hrevives : op.revives = false) :
    RegisterOp op ∧ op.createsRow = false ∧ op ≠ .deleteRow ∧ op ≠ .deleteStatus := by
  cases op <;>
    first
      | exact False.elim h
      | exact ⟨MovesOn.request h, rfl, nofun, nofun⟩
      | exact ⟨trivial, hrevives, nofun, nofun⟩
      | exact Bool.noConfusion hrevives

section

variable (hop : RegisterOp op) (hrow : op.createsRow = false)
  (hdelete : op ≠ .deleteRow ∧ op ≠ .deleteStatus) (h : effect ch op s = some (a, s'))

include hop hrow hdelete h

theorem between_of_effect : Between s s' := by
  refine ⟨row_of_effect hrow hdelete.1 h, fun hs => ?_⟩
  rcases live_of_effect hop hdelete.2 h with heq | ⟨p, q, hp, -⟩
  · rw [heq, hs]
  · rw [hp] at hs
    cases hs

theorem tidy_of_effect : Between s s' ∧ Tidy s s' := by
  have hbetween := between_of_effect hop hrow hdelete h
  refine ⟨hbetween, hbetween.tidy ((live_of_effect hop hdelete.2 h).imp_right ?_)⟩
  rintro ⟨p, q, hp, hq, hne, -⟩
  exact ⟨p, q, hp, hq, hne⟩

end

/-- **A call in between**, of a dispatcher or of the result processor. -/
theorem uncancelling_of_effect (hop : TameOp op) (hrevives : op.revives = false)
    (h : effect ch op s = some (a, s')) : Between s s' ∧ Uncancelling s s' := by
  obtain ⟨hregister, hrow, hdelete⟩ := hop.register hrevives
  obtain ⟨hbetween, htidy⟩ := tidy_of_effect hregister hrow hdelete h
  refine ⟨hbetween, htidy, fun hc => ?_⟩
  rcases live_of_effect hregister hdelete.2 h with heq | ⟨p, q, hp, hq, hne, htame⟩
  · rwa [Store.cancelling_of_eq heq] at hc
  · rw [Store.cancelling_of_some hq] at hc
    exact absurd (of_decide_eq_true hc) (htame hop)

end Calls

/-! ### What a dispatcher and a result processor keep -/

/-- A property of the store that survives the other threads, which change it as
`R` allows, and every call that deletes nothing. -/
structure Keeping (R : Store → Store → Prop) (J : Store → Prop) : Prop where
  refl : ∀ s, R s s
  stable : ∀ s s', J s → R s s' → J s'
  between : ∀ s s', J s → Between s s' → J s'

/-- The program keeps `J`, and every call changes the store as `G` says. -/
abbrev Maintains (own : Sem Op Resp JobWorkerError Store Choice) (R G : Store → Store → Prop)
    (J : Store → Prop) {α : Type} (p : M α) : Prop :=
  ∀ s, J s → p.Safe own R (fun _ _ => G) (fun _ => J) (fun _ => J) s

/-- The semantics of a thread that does not enqueue the job again. -/
def finishing : Sem Op Resp JobWorkerError Store Choice := restricted fun op _ => !op.revives

/-- The job has no live record. -/
def Dead (s : Store) : Prop := s.live = none

section Maintains

variable {G : Store → Store → Prop} {own : Sem Op Resp JobWorkerError Store Choice}

variable {α : Type} {E : JobWorkerError → Store → Prop}

theorem Keeping.perform (hK : Keeping R J)
    (hcall : ∀ ch s a s', own ch op s = some (a, s') → Between s s' ∧ G s s') :
    Maintains own R G J (invoke op) := by
  refine fun s hs => Safe.perform hK.stable hs fun s1 ch a s2 h1 hsem => ?_
  obtain ⟨hbetween, hG⟩ := hcall ch s1 a s2 hsem
  refine ⟨hG, fun s3 hR => ?_⟩
  have h3 : J s3 := hK.stable _ _ (hK.between _ _ h1 hbetween) hR
  cases a with
  | ok | error => exact h3

theorem Keeping.ret (hK : Keeping R J) (a : α) : Maintains own R G J (ret a) :=
  fun s hs s' hR => hK.stable s s' hs hR

theorem Keeping.fail (hK : Keeping R J) (e : JobWorkerError) : Maintains own R G J (fail e : M α) :=
  fun s hs s' hR => hK.stable s s' hs hR

theorem Keeping.tame (hK : Keeping R J) (hop : TameOp op) :
    Maintains finishing R Uncancelling J (invoke op) := by
  refine hK.perform fun ch s a s' h => ?_
  obtain ⟨hmeets, ch', n, heff⟩ := effect_of_restricted h
  obtain ⟨hbetween, htidy, hcancelling⟩ :=
    uncancelling_of_effect hop (Bool.not_eq_true' _ ▸ hmeets) heff
  exact ⟨hbetween.of_tick, htidy.of_tick, hcancelling⟩

theorem Keeping.bestEffortIndex (app : App) (hK : Keeping R J)
    (hop : Maintains own R G J (invoke op)) (hs : J s) :
    (bestEffortIndex app op).Safe own R (fun _ _ => G) (fun _ => J) E s := by
  unfold Jobworkerp.bestEffortIndex
  cases app.indexing with
  | false => exact fun s' hR => hK.stable s s' hs hR
  | true => exact (hop s hs).ignore

theorem maintains_deleteRow (hgone : Keeping R Gone) (s : Store) :
    (invoke .deleteRow).ignore.Safe (restricted meets) R (fun _ _ => Uncancelling)
      (fun _ => Gone) E s := by
  refine Safe.ignore (Safe.perform (J := fun _ => True) (fun _ _ _ _ => trivial) trivial ?_)
  intro s1 ch a s2 _ h
  obtain ⟨-, ch', n, heff⟩ := effect_of_restricted h
  cases heff
  refine ⟨⟨⟨fun _ => rfl, id, fun hne hs => absurd hs hne, fun _ => .inl rfl⟩, id⟩, fun s3 hR => ?_⟩
  exact hgone.stable { s1.tick n with row := none } s3 rfl hR

theorem maintains_deleteStatus (hK : Keeping R J) (hgone : Keeping R Gone)
    (hdead : ∀ s, Dead s → J s) (hs : Gone s) :
    (invoke .deleteStatus).Safe (restricted meets) R (fun _ _ => Uncancelling)
      (fun _ => J) E s := by
  refine Safe.perform hgone.stable hs fun s1 ch a s2 h1 h => ?_
  obtain ⟨-, ch', n, heff⟩ := effect_of_restricted h
  cases heff
  refine ⟨⟨⟨id, fun _ => rfl, fun _ _ => h1, fun _ => .inr rfl⟩, nofun⟩, fun s3 hR => ?_⟩
  exact hK.stable { s1.tick n with live := none } s3 (hdead _ rfl) hR

theorem maintains_cleanupJob (app : App) (hK : Keeping R J) (hgone : Keeping R Gone)
    (hdead : ∀ s, Dead s → J s) : Maintains finishing R Uncancelling J (cleanupJob app) := by
  have hmark : TameOp .markIndexDeleted := trivial
  have hkey : TameOp .deleteKey := trivial
  have hrest : ∀ s, Gone s → deleteStatus.discard.Safe finishing R (fun _ _ => Uncancelling)
      (fun _ => J) (fun _ => J) s := fun s hs =>
    Safe.bind hK.refl (maintains_deleteStatus hK hgone hdead hs) fun _ s' hs' => hK.ret () s' hs'
  intro s hs
  unfold cleanupJob
  split
  · refine Safe.bind hK.refl (hK.bestEffortIndex app (hK.tame hmark) hs) fun _ s1 _ => ?_
    refine Safe.bind hK.refl (maintains_deleteRow hgone s1) fun _ s2 h2 => ?_
    refine Safe.bind hK.refl (Safe.ignore (hgone.tame hkey s2 h2)) fun _ s3 h3 => ?_
    exact hrest s3 h3
  · refine Safe.bind hK.refl (hK.bestEffortIndex app (hK.tame hmark) hs) fun _ s1 _ => ?_
    exact Safe.bind hK.refl (maintains_deleteRow hgone s1) fun _ s2 h2 => hrest s2 h2

/-- **Dispatchers, result processors and background tasks take a job down in
order.** -/
theorem closed_maintains (app : App) (hK : Keeping R J) (hgone : Keeping R Gone)
    (hdead : ∀ s, Dead s → J s) : Closed app (Maintains finishing R Uncancelling J) where
  ret a := hK.ret a
  fail e := hK.fail e
  bind hp hf := fun s hs => Safe.bind hK.refl (hp s hs) hf
  attempt := by
    intro α p hp s hs
    have hend : p.attempt.Safe finishing R (fun _ _ => Uncancelling)
        (Ends (fun _ => J) fun _ => J) (fun _ => J) s := (hp s hs).attempt
    exact hend.mono (fun _ _ h => h.of_const) fun _ _ h => h
  call hop := hK.tame hop
  revive record f := fun s hs s1 hR ch a s2 h => by
    have hmeets := (effect_of_restricted h).1
    cases hmeets
  cleanup := maintains_cleanupJob app hK hgone hdead

end Maintains

/-! ### What a cancellation keeps -/

/-- What a cancellation is to find: a row that names its worker, and a worker
whose only queue is the table. -/
def Op.findsRdbOnly : Op → Store → Bool
  | .findWorker, s => s.worker.any (·.isRdbOnly)
  | .findRow, s => s.row.all (·.workerId.isSome)
  | _, _ => true

/-- The semantics of a cancellation of such a job. -/
def cancellingRdbOnly : Sem Op Resp JobWorkerError Store Choice := restricted Op.findsRdbOnly

section Cancel

/-- A call of a cancellation that deletes nothing. -/
def CancelOp.DeletesNothing (op : Op) : Prop := CancelOp op ∧ op ≠ .deleteRow ∧ op ≠ .deleteStatus

theorem tidy_of_cancelOp (hop : CancelOp.DeletesNothing op)
    (h : cancellingRdbOnly ch op s = some (a, s')) : Between s s' ∧ Tidy s s' := by
  obtain ⟨-, ch', n, heff⟩ := effect_of_restricted h
  have hrow : op.createsRow = false := by
    have hcancel := hop.1
    cases op <;> first | rfl | exact hcancel.elim
  obtain ⟨hbetween, htidy⟩ := tidy_of_effect hop.1.register hrow hop.2 heff
  exact ⟨hbetween.of_tick, htidy.of_tick⟩

theorem Keeping.cancelOp (hK : Keeping R J) (hop : CancelOp.DeletesNothing op) :
    Maintains cancellingRdbOnly R Tidy J (invoke op) :=
  hK.perform fun _ _ _ _ h => tidy_of_cancelOp hop h

theorem Keeping.calls (hK : Keeping R J) (hp : p.Calls CancelOp.DeletesNothing) :
    Maintains cancellingRdbOnly R Tidy J p := by
  refine fun s hs => Safe.of_calls hp hK.stable (fun op ch a s s' hop hs h => ?_) hs
  obtain ⟨hbetween, htidy⟩ := tidy_of_cancelOp hop h
  exact ⟨htidy, hK.between s s' hs hbetween⟩

theorem Keeping.and (h : Keeping R J) (h' : Keeping R J') : Keeping R fun s => J s ∧ J' s where
  refl := h.refl
  stable s s' hs hR := ⟨h.stable s s' hs.1 hR, h'.stable s s' hs.2 hR⟩
  between s s' hs hb := ⟨h.between s s' hs.1 hb, h'.between s s' hs.2 hb⟩

theorem Keeping.imp (c : Prop) (h : Keeping R J) : Keeping R fun s => c → J s where
  refl := h.refl
  stable s s' hs hR := fun hc => h.stable s s' (hs hc) hR
  between s s' hs hb := fun hc => h.between s s' (hs hc) hb

/-- The row a cancellation finds: without one the job has none from now on, and
a row names its worker. -/
theorem maintains_findRow (hK : Keeping R J) (hgone : Keeping R Gone) (hs : J s) :
    (invoke .findRow).Safe cancellingRdbOnly R (fun _ _ => Tidy)
      (fun (row : Resp .findRow) s =>
        (J s ∧ (row = none → Gone s)) ∧ ∀ data, row = some data → data.workerId.isSome)
      (fun _ => J) s := by
  have hop : CancelOp.DeletesNothing .findRow := ⟨trivial, nofun, nofun⟩
  refine Safe.perform hK.stable hs fun s1 ch a s2 h1 h => ?_
  obtain ⟨hbetween, htidy⟩ := tidy_of_cancelOp hop h
  obtain ⟨hmeets, ch', n, heff⟩ := effect_of_restricted h
  cases heff
  refine ⟨htidy, fun s3 hR => ⟨⟨hK.stable _ s3 (hK.between _ _ h1 hbetween) hR, fun hrow => ?_⟩,
    fun data hdata => ?_⟩⟩
  · exact hgone.stable (s1.tick n) s3 hrow hR
  · have hrow : s1.row = some data := hdata
    simp only [Op.findsRdbOnly, hrow, all_some] at hmeets
    exact hmeets

section

variable (app : App) (hK : Keeping R J)

include app hK

/-- A row that names its worker is found to be the job's only queue entry. -/
theorem maintains_isRdbOnlyRow (hrow : ∀ data, row = some data → data.workerId.isSome) (hs : J s) :
    (isRdbOnlyRow app row).Safe cancellingRdbOnly R (fun _ _ => Tidy)
      (fun rdbOnly s => J s ∧ (row ≠ none → rdbOnly = true)) (fun _ => J) s := by
  cases row with
  | none => exact fun s' hR => ⟨hK.stable s s' hs hR, fun hne => absurd rfl hne⟩
  | some data =>
    have hnow : CancelOp.DeletesNothing .now := ⟨trivial, nofun, nofun⟩
    have hfind : CancelOp.DeletesNothing .findWorker := ⟨trivial, nofun, nofun⟩
    refine Safe.bind hK.refl (Safe.bind hK.refl (hK.cancelOp hnow s hs)
      fun now => hK.ret _) fun isRunAfter s1 h1 => ?_
    unfold isRdbOnlyPendingJob
    split
    · exact fun s' hR => ⟨hK.stable _ s' h1 hR, fun _ => rfl⟩
    · split
      · rename_i hnone
        exact absurd hnone (isSome_iff_ne_none.mp (hrow data rfl))
      · refine Safe.bind (Q := fun found s => J s ∧ found.any (·.isRdbOnly)) hK.refl ?_ ?_
        · refine Safe.perform hK.stable h1 fun s2 ch a s3 h2 h => ?_
          obtain ⟨hbetween, htidy⟩ := tidy_of_cancelOp hfind h
          obtain ⟨hmeets, ch', n, heff⟩ := effect_of_restricted h
          cases heff
          exact ⟨htidy, fun s4 hR => ⟨hK.stable _ s4 (hK.between _ _ h2 hbetween) hR, hmeets⟩⟩
        · rintro (- | worker) s2 ⟨h2, hworker⟩
          · cases hworker
          · exact fun s' hR => ⟨hK.stable _ s' h2 hR, fun _ => hworker⟩

/-- The row is deleted; if it was still there, the cancellation knows that it
was the job's only queue entry. -/
theorem maintains_removePendingRdbJob (hgone : Keeping R Gone)
    (hs : J s) : (removePendingRdbJob app).Safe cancellingRdbOnly R (fun _ _ => Tidy)
      (fun disposition s => (disposition = .finalizedWithoutDelivery → Gone s) ∧
        (disposition = .awaitQueuedDelivery → J s)) (fun _ => J) s := by
  refine Safe.bind hK.refl (maintains_findRow hK hgone hs) ?_
  rintro row s1 ⟨h1, hrow⟩
  have hK' := hK.and (hgone.imp (row = none))
  have hfind := (maintains_isRdbOnlyRow app hK' hrow h1).mono (fun _ _ h => h)
    (fun _ _ (h : _ ∧ _) => h.1)
  refine Safe.bind hK.refl hfind ?_
  rintro rdbOnly s2 ⟨h2, hrdbOnly⟩
  have hdelete : (invoke .deleteRow).Safe cancellingRdbOnly R (fun _ _ => Tidy)
      (fun (deleted : Resp .deleteRow) s =>
        (deleted = true → Gone s ∧ rdbOnly = true) ∧ (deleted = false → J s))
      (fun _ _ => False) s2 := by
    refine Safe.perform hK'.stable h2 fun s3 ch a s4 h3 h => ?_
    obtain ⟨-, ch', n, heff⟩ := effect_of_restricted h
    cases heff
    refine ⟨⟨fun _ => rfl, id, fun hne hs => absurd hs hne, fun _ => .inl rfl⟩, fun s5 hR =>
      ⟨fun hdeleted => ⟨hgone.stable { s3.tick n with row := none } s5 rfl hR, hrdbOnly ?_⟩,
        fun hkept => ?_⟩⟩
    · -- the row was there when it was deleted, so it was there when it was read
      intro hnone
      have hrow3 : s3.row = none := h3.2 hnone
      have hisSome : s3.row.isSome = true := hdeleted
      rw [hrow3] at hisSome
      cases hisSome
    · have hrow3 : s3.row.isSome = false := hkept
      have hbetween : Between s3 { s3.tick n with row := none } := ⟨hrow3.symm, id⟩
      exact hK.stable _ s5 (hK.between _ _ h3.1 hbetween) hR
  refine Safe.bind hK.refl (Safe.attempt hdelete) ?_
  rintro (e | deleted) s3 h3
  · exact h3.elim
  · have h3 : (deleted = true → Gone s3 ∧ rdbOnly = true) ∧ (deleted = false → J s3) := h3
    cases deleted with
    | true =>
      obtain ⟨hrow3, rfl⟩ := h3.1 rfl
      exact fun s4 hR => ⟨fun _ => hgone.stable _ s4 hrow3 hR, nofun⟩
    | false => exact fun s4 hR => ⟨nofun, fun _ => hK.stable _ s4 (h3.2 rfl) hR⟩

theorem maintains_afterCancelling (hgone : Keeping R Gone)
    (hdead : ∀ s, Dead s → J s) (record : JobProcessingStatusRecord) :
    Maintains cancellingRdbOnly R Tidy J (afterCancelling app record) := by
  have hupdate : CancelOp.DeletesNothing (.updateIndexStatus .cancelling) := ⟨trivial, nofun, nofun⟩
  have hmark : CancelOp.DeletesNothing .markIndexDeleted := ⟨trivial, nofun, nofun⟩
  have hbroadcast : CancelOp.DeletesNothing .broadcastCancellation := ⟨trivial, nofun, nofun⟩
  intro s hs
  refine Safe.bind hK.refl (hK.bestEffortIndex app (hK.cancelOp hupdate) hs) fun _ s1 h1 => ?_
  split
  · refine Safe.bind hK.refl (maintains_removePendingRdbJob app hK hgone h1) ?_
    rintro disposition s2 ⟨hfinal, hawait⟩
    cases disposition with
    | awaitQueuedDelivery => exact hK.ret () s2 (hawait rfl)
    | finalizedWithoutDelivery =>
      -- the row is gone, and now the record goes
      refine Safe.bind hK.refl
        (hgone.bestEffortIndex app (hgone.cancelOp hmark) (hfinal rfl)) fun _ s3 h3 => ?_
      refine Safe.bind hK.refl ((maintains_deleteStatus hK hgone hdead h3).weaken
        fun _ _ _ _ h => h.1) fun _ s4 h4 => hK.ret () s4 h4
  · exact hK.cancelOp hbroadcast s1 h1

theorem maintains_cancelAttempts (hgone : Keeping R Gone)
    (hdead : ∀ s, Dead s → J s) (n : ℕ) (record : JobProcessingStatusRecord) :
    Maintains cancellingRdbOnly R Tidy J (cancelAttempts app n record) := by
  have hget : CancelOp.DeletesNothing .getStatus := ⟨trivial, by simp, by simp⟩
  induction n generalizing record with
  | zero =>
    refine fun s hs => Safe.bind hK.refl (hK.cancelOp hget s hs) fun found s1 h1 => ?_
    cases found with
    | none | some => exact hK.ret _ s1 h1
  | succ n ih =>
    intro s hs
    unfold cancelAttempts
    split
    · exact hK.ret _ s hs
    · split
      · exact hK.ret _ s hs
      · rename_i hcancelling
        have hadv : AdvanceRequest (some record) (some ⟨.cancelling, record.retried⟩) :=
          (Advance.cancel record.retried hcancelling).request
        have hcas : (compareAndSetStatus app (some record)
            (some ⟨.cancelling, record.retried⟩)).Calls CancelOp.DeletesNothing :=
          calls_compareAndSetStatus hget ⟨hadv, by simp, by simp⟩ ⟨hadv, by simp, by simp⟩
        refine Safe.bind hK.refl (hK.calls hcas s hs) fun result s1 h1 => ?_
        split
        · exact Safe.bind hK.refl (maintains_afterCancelling app hK hgone hdead record s1 h1)
            fun _ => hK.ret true
        · exact ih _ s1 h1
        · exact hK.ret _ s1 h1

end

/-- Without a record nothing has to be deleted after the row. -/
theorem maintains_removeUnpublishedRdbOnlyJob (app : App) (hdead : Keeping R Dead) :
    Maintains cancellingRdbOnly R Tidy Dead (removeUnpublishedRdbOnlyJob app) := by
  have hfind : CancelOp.DeletesNothing .findRow := ⟨trivial, nofun, nofun⟩
  have hnow : CancelOp.DeletesNothing .now := ⟨trivial, nofun, nofun⟩
  have hworker : CancelOp.DeletesNothing .findWorker := ⟨trivial, nofun, nofun⟩
  intro s hs
  refine Safe.bind hdead.refl (hdead.cancelOp hfind s hs) fun row s1 h1 => ?_
  refine Safe.bind hdead.refl (Q := fun _ => Dead) (hdead.calls ?_ s1 h1) fun rdbOnly s2 h2 => ?_
  · unfold isRdbOnlyRow
    split
    · refine Calls.bind (Calls.bind (.perform hnow) fun _ => trivial) fun isRunAfter => ?_
      unfold isRdbOnlyPendingJob
      split
      · trivial
      · split
        · trivial
        · refine Calls.bind (.perform hworker) fun found => ?_
          split <;> trivial
    · trivial
  · split
    · refine Safe.perform (Q := fun (_ : Resp .deleteRow) => Dead) hdead.stable h2
        fun s3 ch a s4 h3 h => ?_
      obtain ⟨-, ch', n, heff⟩ := effect_of_restricted h
      cases heff
      refine ⟨⟨fun _ => rfl, id, fun hne hs => absurd hs hne, fun _ => .inl rfl⟩, fun s5 hR => ?_⟩
      exact hdead.stable { s3.tick n with row := none } s5 h3 hR
    · exact hdead.ret _ s2 h2

/-- **A cancellation takes the job down in order**, if its only queue is the
table. -/
theorem maintains_cancelJobLifecycle (app : App) (hK : Keeping R J) (hgone : Keeping R Gone)
    (hdead : Keeping R Dead) (hJ : ∀ s, Dead s → J s) :
    Maintains cancellingRdbOnly R Tidy J (cancelJobLifecycle app) := by
  have hget : CancelOp.DeletesNothing .getStatus := ⟨trivial, nofun, nofun⟩
  intro s hs
  refine Safe.bind (Q := fun (found : Resp .getStatus) s => J s ∧ (found = none → Dead s))
    hK.refl (Safe.perform hK.stable hs fun s1 ch a s2 h1 h => ?_) ?_
  · obtain ⟨hbetween, htidy⟩ := tidy_of_cancelOp hget h
    obtain ⟨-, ch', n, heff⟩ := effect_of_restricted h
    cases heff
    refine ⟨htidy, fun s3 hR => ⟨hK.stable _ s3 (hK.between _ _ h1 hbetween) hR, fun hnone => ?_⟩⟩
    exact hdead.stable (s1.tick n) s3 hnone hR
  · rintro (- | record) s1 ⟨h1, hnone⟩
    · exact (maintains_removeUnpublishedRdbOnlyJob app hdead s1 (hnone rfl)).mono
        (fun _ s h => hJ s h) (fun _ s h => hJ s h)
    · show (if record.status = .unknown then pure false else
        cancelAttempts app maxCancellationStatusTransitionAttempts record : M Bool).Safe _ _ _ _ _ _
      split
      · exact hK.ret _ s1 h1
      · exact maintains_cancelAttempts app hK hgone hJ _ record s1 h1

end Cancel

/-! ### The order, for a thread among others -/

/-- The job has a row, or it has no record either. -/
def TakenDown (s : Store) : Prop := Gone s → Dead s

theorem takenDown_of_dead (s : Store) (h : Dead s) : TakenDown s := fun _ => h

theorem keeping_true : Keeping Tidy fun _ => True :=
  ⟨Tidy.refl, fun _ _ _ _ => trivial, fun _ _ _ _ => trivial⟩

theorem keeping_gone : Keeping Tidy Gone :=
  ⟨Tidy.refl, fun _ _ hs h => h.gone hs, fun _ _ hs h => h.gone hs⟩

theorem keeping_dead : Keeping Tidy Dead :=
  ⟨Tidy.refl, fun _ _ hs h => h.dead hs, fun _ _ hs h => h.live hs⟩

theorem keeping_gone_between : Keeping Between Gone :=
  ⟨Between.refl, fun _ _ hs h => h.gone hs, fun _ _ hs h => h.gone hs⟩

theorem keeping_dead_between : Keeping Between Dead :=
  ⟨Between.refl, fun _ _ hs h => h.live hs, fun _ _ hs h => h.live hs⟩

theorem TakenDown.between (s s' : Store) (hs : TakenDown s) (h : Between s s') : TakenDown s' := by
  intro hrow
  refine h.live (hs ?_)
  have hisSome : s.row.isSome = false := by
    rw [← h.row, hrow]
    rfl
  exact isNone_iff_eq_none.mp (isSome_eq_false_iff.mp hisSome)

/-- Among threads that leave the row alone. -/
theorem keeping_takenDown : Keeping Between TakenDown :=
  ⟨Between.refl, TakenDown.between, TakenDown.between⟩

end Jobworkerp
