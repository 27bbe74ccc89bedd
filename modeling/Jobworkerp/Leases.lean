/-
Jobworkerp/Leases.lean

The lease of a row of the RDB job table.

A dispatcher fetches the row when its `grabbed_until_time` has passed, and
grabs it by a compare-and-set from the fetched value to the end of its own
lease.  It gives the row back by a compare-and-set from its own lease to zero.

Any number of dispatchers take these steps in any order.  The calls may fail,
answered or not, as everywhere in the model, and a call reads the clock before
its statement reaches the database: all that is assumed of the readings is
that those of one dispatcher do not decrease.

Zero is not a lease, and is written by every release.  A dispatcher that has
fetched a free row can therefore grab it at any later time at which it is free
again, long after it has been leased and released by others.

* `LeaseStep.atLeast`: without a release the lease of the row only grows.
* `lease_exclusive`: after a grab wrote the lease `L`, another grab succeeds
  only with a row fetched at `L` or later, or after a release; and two grabs
  with the same fetched value have a release between them.
* `staleFetch_grabs`: the release need not be one of `L`.
* `lease_lasts_iff`: in the program's integers a lease can overflow.
-/
import Jobworkerp.Effect
import Jobworkerp.Interleaving.Exec

namespace Jobworkerp

open Interleaving

/-! ### The calls on the lease -/

/-- A call whose reading of the clock is `now`. -/
def semAt (now : ℤ) (ch : Choice) (op : Op) (s : Store) :
    Option (Except JobWorkerError (Resp op) × Store) :=
  sem { ch with tick := 0 } op { s with clock := now }

/-- The lease a grab expects and the timeout it asks for. -/
def Op.grabRequest : Op → Option (ℤ × UInt64)
  | .grabRow timeout original => some (original, timeout)
  | .grabAndMarkRunning start => some (start.originalGrabbedUntilTime, start.timeout)
  | _ => none

/-- The lease a successful grab answers. -/
def grantedLease : (op : Op) → Except JobWorkerError (Resp op) → Option ℤ
  | .grabRow _ _, .ok (some lease) => some lease
  | .grabAndMarkRunning _, .ok (some execution) => some execution.grabbedUntilTime
  | _, _ => none

variable {s s' : Store} {timeout : UInt64}

section Calls

variable {now : ℤ} {ch : Choice} {op : Op} {ans : Answer op}

/-- A call goes through, or it fails and has either been carried out or not. -/
theorem semAt_cases (h : semAt now ch op s = some (ans, s')) :
    effect { ch with tick := 0 } op { s with clock := now } = some (ans, s') ∨
      (∃ e, ans = .error e) ∧ (s' = { s with clock := now } ∨
        ∃ a', effect { ch with tick := 0 } op { s with clock := now } = some (a', s')) := by
  have hclock : (({ s with clock := now } : Store).tick 0) = { s with clock := now } := by
    simp [Store.tick]
  have hcases := sem_cases h
  simp only [hclock] at hcases
  exact hcases

theorem leasedUntil_iff :
    leasedUntil row lease = true ↔ ∃ r, row = some r ∧ r.grabbedUntilTime = some lease := by
  cases row with
  | none | some => simp [leasedUntil]

theorem toInt_toInt64_of_lt (h : timeout.toNat < 2 ^ 63) :
    timeout.toInt64.toInt = timeout.toNat := by
  have hbits : timeout.toBitVec.toInt = timeout.toBitVec.toNat :=
    BitVec.toInt_eq_toNat_of_lt (by
      rw [UInt64.toNat_toBitVec]
      omega)
  exact hbits

/-- A lease ends after the time it was asked for at. -/
theorem lt_grabbedUntilTime (h : timeout.toNat < 2 ^ 63) : now < grabbedUntilTime timeout now := by
  have hcast := toInt_toInt64_of_lt h
  unfold grabbedUntilTime
  dsimp only
  split <;> omega

theorem effect_grab (hop : op.grabRequest = some (v, timeout))
    (h : effect ch op s = some (ans, s')) :
    s'.row = s.row ∧ grantedLease op ans = none ∨
      leasedUntil s.row v = true ∧ s'.row = setLease s.row (grabbedUntilTime timeout s.clock) ∧
        grantedLease op ans = some (grabbedUntilTime timeout s.clock) := by
  cases op <;> simp only [Op.grabRequest, reduceCtorEq, Option.some.injEq, Prod.mk.injEq] at hop
  case grabRow timeout' original =>
    obtain ⟨rfl, rfl⟩ := hop
    simp only [effect] at h
    split at h
    · rename_i hleased
      cases h
      exact .inr ⟨hleased, rfl, rfl⟩
    · cases h
      exact .inl ⟨rfl, rfl⟩
  case grabAndMarkRunning start =>
    obtain ⟨rfl, rfl⟩ := hop
    simp only [effect] at h
    split at h
    · cases h
      exact .inl ⟨rfl, rfl⟩
    · split at h
      · rename_i hleased
        cases h
        exact .inr ⟨hleased, rfl, rfl⟩
      · cases h
        exact .inl ⟨rfl, rfl⟩

/-- **A grab is a compare-and-set of the lease**, whether it is answered or
not. -/
theorem semAt_grab (hop : op.grabRequest = some (v, timeout))
    (h : semAt now ch op s = some (ans, s')) : s'.row = s.row ∧ grantedLease op ans = none ∨
      leasedUntil s.row v = true ∧ s'.row = setLease s.row (grabbedUntilTime timeout now) ∧
        ∀ lease, grantedLease op ans = some lease → lease = grabbedUntilTime timeout now := by
  have herror (e : JobWorkerError) : grantedLease op (.error e) = none := by
    cases op <;> rfl
  rcases semAt_cases h with heff | ⟨⟨e, rfl⟩, rfl | ⟨ans', heff⟩⟩
  · rcases effect_grab hop heff with hsame | ⟨hleased, hrow, hgranted⟩
    · exact .inl hsame
    · refine .inr ⟨hleased, hrow, fun lease hlease => ?_⟩
      exact Option.some.inj (hlease.symm.trans hgranted)
  · exact .inl ⟨rfl, herror e⟩
  · rcases effect_grab hop heff with ⟨hrow, -⟩ | ⟨hleased, hrow, -⟩
    · exact .inl ⟨hrow, herror e⟩
    · refine .inr ⟨hleased, hrow, fun lease hlease => ?_⟩
      rw [herror e] at hlease
      cases hlease

theorem semAt_fetch
    (h : semAt now ch (.fetchRow merginMsec) s = some (a, s')) :
    s'.row = s.row ∧ ∀ data, a = .ok (some data) → data.grabbedUntilTime.getD 0 ≤ now := by
  refine ⟨by rw [sem_outside h rfl]; rfl, ?_⟩
  rintro data rfl
  have heff := effect_of_sem_ok h
  obtain ⟨hfetched, -⟩ := answer_eq heff
  split at hfetched
  · obtain ⟨-, hfetchable⟩ := Option.filter_eq_some_iff.mp hfetched
    simp only [isFetchable, decide_eq_true_eq] at hfetchable
    simpa [Store.tick] using hfetchable.2.2
  · cases hfetched

end Calls

/-! ### Dispatchers -/

/-- What a dispatcher knows: when it last read the clock, the leases of the
rows it has fetched with the time of each fetch, and what its grabs gave it. -/
structure LeaseMemory where
  read : ℤ
  fetched : List (ℤ × ℤ)
  granted : List ℤ
  executions : List RdbDispatchExecution

/-- One row and its dispatchers. -/
structure LeaseSystem (ι : Type) where
  store : Store
  memory : ι → LeaseMemory

/-- One call of a dispatcher, with its reading of the clock and, for a grab,
the time at which the row it uses was fetched. -/
structure LeaseEvent (ι : Type) where
  who : ι
  now : ℤ
  fetchedAt : ℤ
  call : Call Op Resp JobWorkerError Store

/-- The end of the lease can be computed without an overflow. -/
def leaseFits (now : ℤ) (timeout : UInt64) : Bool :=
  timeout.toNat < 2 ^ 63 ∧ grabbedUntilTime timeout now < 2 ^ 63

/-- The calls a dispatcher can make: a grab is made with a fetched row, and
its lease does not overflow; only the holder releases a lease. -/
def LeaseMemory.permits (m : LeaseMemory) (now fetchedAt : ℤ) : Op → Bool
  | .fetchRow _ => true
  | .grabRow timeout original =>
    (original, fetchedAt) ∈ m.fetched ∧ leaseFits now timeout
  | .grabAndMarkRunning start =>
    (start.originalGrabbedUntilTime, fetchedAt) ∈ m.fetched ∧ leaseFits now start.timeout
  | .resetGrabbedUntilTime old => old ∈ m.granted
  | .releaseUnstartedDispatch execution => execution ∈ m.executions
  | _ => false

/-- What a dispatcher learns from an answer. -/
def LeaseMemory.learn (m : LeaseMemory) (now : ℤ) :
    (op : Op) → Except JobWorkerError (Resp op) → LeaseMemory
  | .fetchRow _, .ok (some data) =>
    { m with read := now, fetched := (data.grabbedUntilTime.getD 0, now) :: m.fetched }
  | .grabRow _ _, .ok (some lease) => { m with read := now, granted := lease :: m.granted }
  | .grabAndMarkRunning _, .ok (some execution) =>
    { m with
      read := now
      granted := execution.grabbedUntilTime :: m.granted
      executions := execution :: m.executions }
  | _, _ => { m with read := now }

/-- One call: the dispatcher's readings of the clock do not decrease. -/
inductive LeaseStep {ι : Type} [DecidableEq ι] :
    LeaseSystem ι → LeaseEvent ι → LeaseSystem ι → Prop
  | call {c : LeaseSystem ι} {d : ι} {now fetchedAt : ℤ} {ch : Choice} {op : Op}
      {ans : Except JobWorkerError (Resp op)} {s' : Store}
      (hnow : (c.memory d).read ≤ now) (hpermits : (c.memory d).permits now fetchedAt op)
      (hsem : semAt now ch op c.store = some (ans, s')) :
      LeaseStep c ⟨d, now, fetchedAt, ⟨op, ans, c.store, s'⟩⟩
        ⟨s', Function.update c.memory d ((c.memory d).learn now op ans)⟩

/-- A successful grab: the fetched lease it used, and the lease it wrote. -/
def LeaseEvent.grab {ι : Type} (e : LeaseEvent ι) : Option (ℤ × ℤ) :=
  match e.call.op.grabRequest, grantedLease e.call.op e.call.ans with
  | some (original, _), some lease => some (original, lease)
  | _, _ => none

/-- The lease that a release has ended. -/
def LeaseEvent.released {ι : Type} (e : LeaseEvent ι) : Option ℤ :=
  if e.call.post.row = e.call.pre.row then none
  else
    match e.call.op with
    | .resetGrabbedUntilTime old => some old
    | .releaseUnstartedDispatch execution => some execution.grabbedUntilTime
    | _ => none

/-! ### Without a release the lease grows -/

section Exclusion

variable {ι : Type} [DecidableEq ι] {c c' : LeaseSystem ι} {e : LeaseEvent ι}

/-- A row that was fetched was free, and the fetch lies in the past. -/
def LeaseSystem.Sound (c : LeaseSystem ι) : Prop :=
  ∀ d, ∀ row ∈ (c.memory d).fetched, row.1 ≤ row.2 ∧ row.2 ≤ (c.memory d).read

/-- The row is leased until `lease` or longer. -/
def LeasedAtLeast (lease : ℤ) (s : Store) : Prop :=
  ∃ r l, s.row = some r ∧ r.grabbedUntilTime = some l ∧ lease ≤ l

theorem LeaseMemory.learn_read (m : LeaseMemory) (now : ℤ) (op : Op)
    (ans : Answer op) : (m.learn now op ans).read = now := by
  unfold LeaseMemory.learn
  split <;> rfl

variable {m : LeaseMemory} {v lease : ℤ}

theorem LeaseMemory.sound_learn {now : ℤ}
    (hm : ∀ row ∈ m.fetched, row.1 ≤ row.2 ∧ row.2 ≤ m.read) (hnow : m.read ≤ now)
    (hsem : semAt now ch op s = some (ans, s')) :
    ∀ row ∈ (m.learn now op ans).fetched, row.1 ≤ row.2 ∧ row.2 ≤ now := by
  have hold : ∀ row ∈ m.fetched, row.1 ≤ row.2 ∧ row.2 ≤ now :=
    fun row hrow => ⟨(hm row hrow).1, (hm row hrow).2.trans hnow⟩
  unfold LeaseMemory.learn
  split
  · rename_i merginMsec data
    intro row hrow
    rcases List.mem_cons.mp hrow with rfl | hrow
    · exact ⟨(semAt_fetch hsem).2 data rfl, le_refl _⟩
    · exact hold row hrow
  · exact hold
  · exact hold
  · exact hold

theorem LeaseStep.sound (h : LeaseStep c e c') (hc : c.Sound) : c'.Sound := by
  obtain ⟨hnow, -, hsem⟩ := h
  rename_i d now fetchedAt ch op ans s'
  intro d' row hrow
  by_cases hd : d' = d
  · subst hd
    simp only [Function.update_self] at hrow ⊢
    rw [LeaseMemory.learn_read]
    exact LeaseMemory.sound_learn (hc d') hnow hsem row hrow
  · simp only [Function.update_of_ne hd] at hrow ⊢
    exact hc d' row hrow

theorem LeaseMemory.permits_grab {now fetchedAt v : ℤ} (hop : op.grabRequest = some (v, timeout))
    (h : m.permits now fetchedAt op) : (v, fetchedAt) ∈ m.fetched ∧ leaseFits now timeout := by
  cases op <;> simp only [Op.grabRequest, reduceCtorEq, Option.some.injEq, Prod.mk.injEq] at hop
  case grabRow =>
    obtain ⟨rfl, rfl⟩ := hop
    exact of_decide_eq_true h
  case grabAndMarkRunning =>
    obtain ⟨rfl, rfl⟩ := hop
    exact of_decide_eq_true h

/-- **A grab raises the lease**, from a fetched value that had passed to one
that has not. -/
theorem LeaseStep.raises (h : LeaseStep c e c') (hc : c.Sound)
    (hop : e.call.op.grabRequest = some (v, timeout)) :
    v ≤ e.fetchedAt ∧ e.fetchedAt < grabbedUntilTime timeout e.now := by
  obtain ⟨hnow, hpermits, hsem⟩ := h
  obtain ⟨hfetched, hfits⟩ := LeaseMemory.permits_grab hop hpermits
  obtain ⟨hpassed, hread⟩ := hc _ _ hfetched
  exact ⟨hpassed, (hread.trans hnow).trans_lt (lt_grabbedUntilTime (of_decide_eq_true hfits).1)⟩

theorem LeasedAtLeast.congr (h : LeasedAtLeast lease s)
    (hrow : s'.row = s.row) : LeasedAtLeast lease s' := by
  obtain ⟨r, l, hr, hl⟩ := h
  exact ⟨r, l, hrow.trans hr, hl⟩

theorem LeasedAtLeast.mono (h : LeasedAtLeast lease s)
    (hle : lease' ≤ lease) : LeasedAtLeast lease' s := by
  obtain ⟨r, l, hr, hl, hlease⟩ := h
  exact ⟨r, l, hr, hl, hle.trans hlease⟩

/-- The row after a compare-and-set that went through. -/
theorem leasedAtLeast_of_setLease (hheld : leasedUntil s.row v = true)
    (hrow : s'.row = setLease s.row lease) : LeasedAtLeast lease s' := by
  obtain ⟨r, hr, -⟩ := leasedUntil_iff.mp hheld
  refine ⟨{ r with grabbedUntilTime := some lease }, lease, ?_, rfl, le_refl _⟩
  rw [hrow, hr]
  rfl

/-- A call that is neither a grab nor a release leaves the row alone. -/
theorem LeaseStep.row_eq (h : LeaseStep c e c') (hreleased : e.released = none)
    (hop : e.call.op.grabRequest = none) : c'.store.row = c.store.row := by
  obtain ⟨-, hpermits, hsem⟩ := h
  rename_i d now fetchedAt ch op ans s'
  cases op <;> first | exact absurd hpermits Bool.false_ne_true | cases hop; done | skip
  case fetchRow => exact (semAt_fetch hsem).1
  case resetGrabbedUntilTime | releaseUnstartedDispatch =>
    by_contra hrow
    rw [LeaseEvent.released, if_neg hrow] at hreleased
    cases hreleased

/-- **Without a release the lease of the row only grows.** -/
theorem LeaseStep.atLeast (h : LeaseStep c e c') (hc : c.Sound)
    (hreleased : e.released = none) (hleased : LeasedAtLeast lease c.store) :
    LeasedAtLeast lease c'.store := by
  cases hop : e.call.op.grabRequest with
  | none => exact hleased.congr (h.row_eq hreleased hop)
  | some request =>
    obtain ⟨v, timeout⟩ := request
    obtain ⟨hv, hlease⟩ := h.raises hc hop
    obtain ⟨-, -, hsem⟩ := h
    rcases semAt_grab hop hsem with ⟨hrow, -⟩ | ⟨hheld, hrow, -⟩
    · exact hleased.congr hrow
    · -- the old lease is the fetched one
      obtain ⟨r, l, hr, hl, hle⟩ := hleased
      obtain ⟨r', hr', hv'⟩ := leasedUntil_iff.mp hheld
      obtain rfl : r = r' := Option.some.inj (hr.symm.trans hr')
      obtain rfl : l = v := Option.some.inj (hl.symm.trans hv')
      exact (leasedAtLeast_of_setLease hheld hrow).mono ((hle.trans hv).trans hlease.le)

theorem LeaseStep.of_grab (h : LeaseStep c e c') (hc : c.Sound) (hgrab : e.grab = some (v, lease)) :
    leasedUntil c.store.row v = true ∧ LeasedAtLeast lease c'.store ∧ v ≤ e.fetchedAt ∧
      e.fetchedAt < lease := by
  unfold LeaseEvent.grab at hgrab
  split at hgrab
  · rename_i original timeout lease' hop hgranted
    obtain ⟨rfl, rfl⟩ := Prod.mk.inj (Option.some.inj hgrab)
    obtain ⟨hv, hlt⟩ := h.raises hc hop
    obtain ⟨-, -, hsem⟩ := h
    rcases semAt_grab hop hsem with ⟨-, hnone⟩ | ⟨hheld, hrow, hlease⟩
    · rw [hnone] at hgranted
      cases hgranted
    · obtain rfl := hlease _ hgranted
      exact ⟨hheld, leasedAtLeast_of_setLease hheld hrow, hv, hlt⟩
  · cases hgrab

/-- **A lease excludes other dispatchers until it has passed or something is
released**: after a grab wrote `lease`, a grab that succeeds used a row fetched
at `lease` or later, and another fetched value than the first, unless there was
a release in between. -/
theorem lease_exclusive {c₀ : LeaseSystem ι} {τ₁ τ₂ τ₃ : List (LeaseEvent ι)}
    {g g' : LeaseEvent ι} {v lease v' lease' : ℤ} (hstart : ∀ d, (c₀.memory d).fetched = [])
    (h : Run LeaseStep c₀ (τ₁ ++ g :: (τ₂ ++ g' :: τ₃)) c) (hg : g.grab = some (v, lease))
    (hg' : g'.grab = some (v', lease')) :
    (∃ e ∈ τ₂, e.released.isSome) ∨ lease ≤ g'.fetchedAt ∧ v' ≠ v := by
  by_cases hreleased : ∃ e ∈ τ₂, e.released.isSome
  · exact .inl hreleased
  right
  have hquiet : ∀ e ∈ τ₂, e.released = none :=
    fun e he => Option.not_isSome_iff_eq_none.mp fun hr => hreleased ⟨e, he, hr⟩
  obtain ⟨c1, hrun1, c2, hstep, hrun2⟩ := run_append.mp h
  obtain ⟨c3, hrun3, c4, hstep', -⟩ := run_append.mp hrun2
  have hsound1 : c1.Sound := hrun1.invariant (I := LeaseSystem.Sound)
    (fun _ _ _ hs hI => hs.sound hI) fun d row hrow => by
      rw [hstart d] at hrow
      cases hrow
  obtain ⟨-, hleased, hv, hlt⟩ := hstep.of_grab hsound1 hg
  -- from the first grab to the second the lease does not fall
  have hinv : c3.Sound ∧ LeasedAtLeast lease c3.store :=
    hrun3.invariant_mem (I := fun c => c.Sound ∧ LeasedAtLeast lease c.store)
      (fun _ _ _ he hs hI => ⟨hs.sound hI.1, hs.atLeast hI.1 (hquiet _ he) hI.2⟩)
      ⟨hstep.sound hsound1, hleased⟩
  obtain ⟨hheld, -, hv', -⟩ := hstep'.of_grab hinv.1 hg'
  obtain ⟨r, l, hr, hl, hle⟩ := hinv.2
  obtain ⟨r', hr', hl'⟩ := leasedUntil_iff.mp hheld
  obtain rfl : r = r' := Option.some.inj (hr.symm.trans hr')
  obtain rfl : l = v' := Option.some.inj (hl.symm.trans hl')
  exact ⟨hle.trans hv', ((hv.trans_lt hlt).trans_le hle).ne'⟩

end Exclusion

/-! ### A stale fetch -/

/-- A free row that is due, and dispatchers that know nothing. -/
def freeRow : LeaseSystem ℕ :=
  ⟨{ (default : Store) with
      row := some { (default : JobData) with runAfterTime := 1, grabbedUntilTime := some 0 } },
    fun _ => ⟨1, [], [], []⟩⟩

/-- The call of a dispatcher with its reading of the clock and the time of the
fetch it uses. -/
def LeaseSystem.next (c : LeaseSystem ℕ) :
    ℕ × ℤ × ℤ × Op → Option (LeaseEvent ℕ × LeaseSystem ℕ)
  | (d, now, fetchedAt, op) =>
    if (c.memory d).read ≤ now ∧ (c.memory d).permits now fetchedAt op then
      (semAt now { (default : Choice) with flag := true } op c.store).map fun (ans, s') =>
        (⟨d, now, fetchedAt, ⟨op, ans, c.store, s'⟩⟩,
          ⟨s', Function.update c.memory d ((c.memory d).learn now op ans)⟩)
    else none

variable {c c' : LeaseSystem ℕ}

theorem LeaseSystem.step_of_next {e : LeaseEvent ℕ}
    (h : c.next i = some (e, c')) : LeaseStep c e c' := by
  obtain ⟨d, now, fetchedAt, op⟩ := i
  simp only [LeaseSystem.next] at h
  split at h
  · rename_i hguard
    obtain ⟨⟨ans, s'⟩, hsem, heq⟩ := Option.map_eq_some_iff.mp h
    cases heq
    exact .call hguard.1 hguard.2 hsem
  · cases h

theorem run_of_leaseCalls (calls : List (ℕ × ℤ × ℤ × Op))
    (h : playInputs LeaseSystem.next c calls = some (τ, c')) : Run LeaseStep c τ c' :=
  run_of_playInputs (fun _ _ _ _ => LeaseSystem.step_of_next) h

/-- The second dispatcher has waited for the lease of the first one to pass. -/
theorem expiredLease_taken : ∃ e₁ g e₂ g' c,
    Run LeaseStep freeRow ([e₁] ++ g :: ([e₂] ++ g' :: [])) c ∧ g.grab = some (0, 11002) ∧
      g'.grab = some (11002, 22002) ∧ 11002 ≤ g'.fetchedAt := by
  obtain ⟨e₁, g, e₂, g', c, hrun, hg, hg', hquiet⟩ : ∃ e₁ g e₂ g' c,
      Run LeaseStep freeRow ([e₁] ++ g :: ([e₂] ++ g' :: [])) c ∧ g.grab = some (0, 11002) ∧
        g'.grab = some (11002, 22002) ∧ e₂.released = none :=
    ⟨_, _, _, _, _, run_of_leaseCalls
      [(1, 1, 0, .fetchRow 0), (1, 2, 1, .grabRow 1000 0), (2, 11002, 0, .fetchRow 0),
        (2, 11002, 11002, .grabRow 1000 11002)] rfl, rfl, rfl, rfl⟩
  refine ⟨e₁, g, e₂, g', c, hrun, hg, hg', ?_⟩
  rcases lease_exclusive (fun _ => rfl) hrun hg hg' with ⟨e, he, hreleased⟩ | hlate
  · obtain rfl := List.mem_singleton.mp he
    rw [hquiet] at hreleased
    cases hreleased
  · exact hlate.1

/-- **A grab with a stale fetch**: the lease 11002 passes, another dispatcher
takes the row over and releases its own lease, and a row fetched before all
this, at time 1, is good for a grab again. -/
theorem staleFetch_grabs : ∃ e₁ e₂ g e₃ e₄ e₅ g' c,
    Run LeaseStep freeRow ([e₁, e₂] ++ g :: ([e₃, e₄, e₅] ++ g' :: [])) c ∧
      g.grab = some (0, 11002) ∧ g'.grab = some (0, 22004) ∧ g'.fetchedAt < 11002 ∧
      ∀ e ∈ [e₃, e₄, e₅], e.released ≠ some 11002 := by
  have hrun : Run LeaseStep freeRow ([_, _] ++ _ :: ([_, _, _] ++ _ :: [])) _ := run_of_leaseCalls
    [(0, 1, 0, .fetchRow 0), (1, 1, 0, .fetchRow 0), (1, 2, 1, .grabRow 1000 0),
      (2, 11002, 0, .fetchRow 0), (2, 11002, 11002, .grabRow 1000 11002),
      (2, 11003, 0, .resetGrabbedUntilTime 22002), (0, 11004, 1, .grabRow 1000 0)] rfl
  exact ⟨_, _, _, _, _, _, _, _, hrun, rfl, rfl, by decide, by decide⟩

/-! ### Leases in the integers of the program -/

section Wrapped

/-- The milliseconds a lease lasts besides `GRAB_MERGIN_MILLISEC`: without a
timeout, 100 years. -/
def leaseMillis (timeout : UInt64) : UInt64 :=
  if timeout = 0 then 1000 * 60 * 60 * 24 * 365 * 100 else timeout

/-- `grabbed_until_time` in the integers of the program: the timeout is cast, and
the sum wraps around. -/
def wrappedLease (timeout : UInt64) (now : Int64) : Int64 :=
  let timeout := timeout.toInt64
  now + (if timeout = 0 then 1000 * 60 * 60 * 24 * 365 * 100 else timeout) + 10000

/-- The lease of `grab_and_mark_running`: here the timeout is converted with
`i64::try_from`, which can fail. -/
def markRunningLease (timeout : UInt64) (now : Int64) : Option Int64 :=
  if (leaseMillis timeout).toNat < 2 ^ 63 then some (now + (leaseMillis timeout).toInt64 + 10000)
  else none

variable {now : Int64}

theorem wrappedLease_eq :
    wrappedLease timeout now = now + (leaseMillis timeout).toInt64 + 10000 := by
  unfold wrappedLease leaseMillis
  by_cases h : timeout = 0
  · subst h
    rfl
  · have hne : timeout.toInt64 ≠ 0 := fun h' => h (congrArg Int64.toUInt64 h')
    rw [if_neg h]
    exact congrArg (now + · + 10000) (if_neg hne)

theorem leaseMillis_lt_iff : (leaseMillis timeout).toNat < 2 ^ 63 ↔ timeout.toNat < 2 ^ 63 := by
  unfold leaseMillis
  split
  · rename_i h
    subst h
    decide
  · rfl

theorem grabbedUntilTime_eq {now : ℤ} (h : timeout.toNat < 2 ^ 63) :
    grabbedUntilTime timeout now = now + (leaseMillis timeout).toNat + 10000 := by
  have hcast := toInt_toInt64_of_lt h
  unfold grabbedUntilTime leaseMillis
  by_cases hzero : timeout = 0
  · subst hzero
    rfl
  · have hne : timeout.toNat ≠ 0 := fun h' => hzero (UInt64.toNat_inj.mp h')
    simp only [hcast, hzero, if_false]
    rw [if_neg (by omega)]

/-- Without an overflow the lease is the one written by the grabs of the model. -/
theorem toInt_wrappedLease (h : leaseFits now.toInt timeout = true) :
    (wrappedLease timeout now).toInt = grabbedUntilTime timeout now.toInt := by
  obtain ⟨hlt, hfits⟩ := of_decide_eq_true h
  have hlow := now.le_toInt
  rw [grabbedUntilTime_eq hlt] at hfits ⊢
  rw [wrappedLease_eq, Int64.toInt_add, Int64.toInt_add,
    toInt_toInt64_of_lt (leaseMillis_lt_iff.mpr hlt), Int.bmod_add_bmod]
  show (now.toInt + (leaseMillis timeout).toNat + 10000).bmod (2 ^ 64) = _
  exact Int.bmod_eq_of_le (by omega) (by omega)

/-- **A lease lasts as long as its job exactly when it can be computed without
an overflow**, and then both grabs write it. -/
theorem lease_lasts_iff (timeout : UInt64) (now : Int64) :
    (now.toInt + (leaseMillis timeout).toNat + 10000 ≤ (wrappedLease timeout now).toInt ∧
        markRunningLease timeout now = some (wrappedLease timeout now)) ↔
      leaseFits now.toInt timeout = true := by
  constructor
  · rintro ⟨hlasts, hmark⟩
    simp only [markRunningLease, leaseMillis_lt_iff] at hmark
    split at hmark
    · rename_i hlt
      refine decide_eq_true ⟨hlt, ?_⟩
      rw [grabbedUntilTime_eq hlt]
      exact hlasts.trans_lt (wrappedLease timeout now).toInt_lt
    · cases hmark
  · intro h
    have hlt := (of_decide_eq_true h).1
    rw [toInt_wrappedLease h, grabbedUntilTime_eq hlt, markRunningLease, wrappedLease_eq,
      if_pos (leaseMillis_lt_iff.mpr hlt)]
    exact ⟨le_refl _, rfl⟩

/-- The largest timeout is cast to -1: the lease ends after ten seconds, and
`grab_and_mark_running` fails. -/
theorem largest_timeout_lease :
    (wrappedLease 18446744073709551615 1000).toInt = 10999 ∧
      markRunningLease 18446744073709551615 1000 = none ∧
      ¬ 1000 + (leaseMillis 18446744073709551615).toNat + 10000 ≤
        (wrappedLease 18446744073709551615 1000).toInt := by decide

end Wrapped

end Jobworkerp
