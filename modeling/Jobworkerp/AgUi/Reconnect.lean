/-
Jobworkerp/AgUi/Reconnect.lean

Reconnecting to a run.

A stream that reconnects hands on an initial part of the events after the one the
client knows, in order and each once, whatever else happens to the run: what it has
handed on is what was new at its last read (`Delivers`).  It can end too early: the
registry is read after the stored events, and the check for the end of the run comes
after an empty read, so the terminal event can be stored in between.

* `delivers_resumeStream`: the stream follows its reads.
* `resume_stream_iff`: a stream that has ended has handed on everything if and only
  if one of its reads found the terminal event stored.
-/
import Jobworkerp.AgUi.EventStream
import Mathlib.Data.List.Infix

namespace Jobworkerp.AgUi

open Interleaving Prog List

/-! ### Event lists -/

/-- The identifiers increase, and a terminal event is the last. -/
structure WellOrdered (events : List (ℕ × AgUiEvent)) : Prop where
  increasing : events.Pairwise fun x y => x.1 < y.1
  terminal : ∀ x ∈ events, x.2.isTerminal = true → ∀ y ∈ events, y.1 ≤ x.1

variable {events seen : List (ℕ × AgUiEvent)} {lastId : Option ℕ}

theorem WellOrdered.initial (h : WellOrdered events) (hseen : seen <+: events) : WellOrdered seen :=
  ⟨h.increasing.sublist hseen.sublist,
    fun x hx hterminal y hy => h.terminal x (hseen.subset hx) hterminal y (hseen.subset hy)⟩

theorem eventsAfter_mono (h : seen <+: events) :
    eventsAfter lastId seen <+: eventsAfter lastId events := by
  obtain ⟨rest, rfl⟩ := h
  rw [eventsAfter, eventsAfter, filter_append]
  exact prefix_append _ _

theorem WellOrdered.eventsAfter (h : WellOrdered events) :
    (eventsAfter lastId events).Pairwise fun x y => x.1 < y.1 :=
  h.increasing.sublist filter_sublist

/-- The last identifier a client knows after it has got some events. -/
def lastKnown (lastId : Option ℕ) (yielded : List (ℕ × AgUiEvent)) : Option ℕ :=
  (yielded.getLast?.map Prod.fst).or lastId

variable {x y : ℕ × AgUiEvent}

theorem isNewer_of_lt (hx : isNewer lastId x = true) (hxy : x.1 < y.1) :
    isNewer lastId y = true := by
  cases lastId with
  | none => rfl
  | some id =>
    simp only [isNewer, decide_eq_true_eq] at hx ⊢
    omega

theorem le_getLast {l : List (ℕ × AgUiEvent)} (h : l.Pairwise fun x y => x.1 < y.1)
    (hlast : l.getLast? = some x) (hy : y ∈ l) : y.1 ≤ x.1 := by
  obtain ⟨init, rfl⟩ := List.getLast?_eq_some_iff.mp hlast
  rcases mem_append.mp hy with hy | hy
  · exact ((pairwise_append.mp h).2.2 y hy x (mem_singleton_self x)).le
  · rw [mem_singleton.mp hy]

/-- What is new after the events that were new before is the rest. -/
theorem eventsAfter_lastKnown (h : WellOrdered events) (hseen : seen <+: events) :
    eventsAfter lastId events = eventsAfter lastId seen ++
      eventsAfter (lastKnown lastId (eventsAfter lastId seen)) events := by
  have hafter : (eventsAfter lastId seen).Pairwise fun x y => x.1 < y.1 :=
    (h.initial hseen).eventsAfter
  obtain ⟨rest, rfl⟩ := hseen
  have hrest := (pairwise_append.mp h.increasing).2.2
  have hsplit (id : Option ℕ) :
      eventsAfter id (seen ++ rest) = eventsAfter id seen ++ eventsAfter id rest :=
    filter_append ..
  rw [hsplit lastId, hsplit (lastKnown _ _)]
  cases hlast : (eventsAfter lastId seen).getLast? with
  | none =>
    -- nothing was new, so the last known identifier is the given one
    have hnil : eventsAfter lastId seen = [] := List.getLast?_eq_none_iff.mp hlast
    rw [lastKnown, hlast, hnil]
    show [] ++ eventsAfter lastId rest = [] ++ (eventsAfter lastId seen ++ eventsAfter lastId rest)
    rw [hnil]
    rfl
  | some x =>
    have hknown : lastKnown lastId (eventsAfter lastId seen) = some x.1 := by
      rw [lastKnown, hlast]
      rfl
    obtain ⟨hxseen, hxnew⟩ := mem_filter.mp (mem_of_getLast? hlast)
    have hold : eventsAfter (some x.1) seen = [] := by
      refine filter_eq_nil_iff.mpr fun y hy hnewer => ?_
      have hlt : x.1 < y.1 := by simpa [isNewer] using hnewer
      have hle := le_getLast hafter hlast (mem_filter.mpr ⟨hy, isNewer_of_lt hxnew hlt⟩)
      omega
    have hnew : eventsAfter (some x.1) rest = eventsAfter lastId rest := by
      refine filter_congr fun y hy => ?_
      have hlt := hrest x hxseen y hy
      rw [isNewer_of_lt hxnew hlt]
      simpa [isNewer] using hlt
    rw [hknown, hold, hnew, nil_append]

/-- Nothing is stored after the terminal event. -/
theorem WellOrdered.eq_of_terminal (h : WellOrdered events) (hseen : seen <+: events)
    (hx : x ∈ seen) (hterminal : x.2.isTerminal = true) : seen = events := by
  obtain ⟨rest, rfl⟩ := hseen
  cases rest with
  | nil => exact (append_nil _).symm
  | cons later rest =>
    have hlt := (pairwise_append.mp h.increasing).2.2 x hx later mem_cons_self
    have hle := h.terminal x (mem_append_left _ hx) hterminal later (by simp)
    exact absurd hle (not_le.mpr hlt)

/-- A client that knows the terminal event knows all events. -/
theorem WellOrdered.eventsAfter_eq_nil (h : WellOrdered events)
    (hx : x ∈ events) (hterminal : x.2.isTerminal = true) (hold : isNewer lastId x = false) :
    AgUi.eventsAfter lastId events = [] := by
  refine filter_eq_nil_iff.mpr fun y hy hnewer => ?_
  cases lastId with
  | none => cases hold
  | some id =>
    have hle := h.terminal x hx hterminal y hy
    simp only [isNewer, decide_eq_true_eq, decide_eq_false_iff_not] at hold hnewer
    omega

/-! ### The stream follows its reads -/

/-- From a point where `seen` were the stored events at the last read and `yielded` have
been handed on: the stream hands on what was new at its reads, and ends when it has. -/
def Delivers (lastId : Option ℕ) :
    StreamProg → List (ℕ × AgUiEvent) → List (ℕ × AgUiEvent) → Prop
  | ret result, seen, yielded =>
    yielded <+: eventsAfter lastId seen ∧
      (result = .ok .ended → yielded = eventsAfter lastId seen)
  | fail _, seen, yielded => yielded <+: eventsAfter lastId seen
  | call (.newEvents id) k, seen, yielded =>
    yielded <+: eventsAfter lastId seen ∧ ∀ events, WellOrdered events → seen <+: events →
      Delivers lastId (k (.ok (eventsAfter id events))) events yielded
  | call (.yield id event) k, seen, yielded =>
    yielded <+: eventsAfter lastId seen ∧
      Delivers lastId (k (.ok ())) seen (yielded ++ [(id, event)])
  | call .getAllEvents k, seen, yielded =>
    yielded <+: eventsAfter lastId seen ∧ ∀ events, Delivers lastId (k (.ok events)) seen yielded
  | call .isRegistered k, seen, yielded =>
    yielded <+: eventsAfter lastId seen ∧ ∀ b, Delivers lastId (k (.ok b)) seen yielded
  | call (.getSession _) k, seen, yielded =>
    yielded <+: eventsAfter lastId seen ∧ ∀ session, Delivers lastId (k (.ok session)) seen yielded
  | call _ _, _, _ => False

variable {yielded : List (ℕ × AgUiEvent)}

/-- What has been handed on is always a beginning of what was new. -/
theorem Delivers.isPrefix (h : Delivers lastId p seen yielded) :
    yielded <+: eventsAfter lastId seen := by
  cases p with
  | ret result => exact h.1
  | fail e => exact h
  | call op k =>
    cases op with
    | newEvents | yield | getAllEvents | isRegistered | getSession => exact h.1
    | _ => exact h.elim

theorem lastKnown_concat (id : ℕ) (event : AgUiEvent) :
    lastKnown lastId (yielded ++ [(id, event)]) = some id := by
  simp [lastKnown]

variable {next : Option ℕ → StreamProg} {rest : List (ℕ × AgUiEvent)}

/-- Handing on what is left, before the stream goes on. -/
theorem delivers_yieldStored
    (hnext : Delivers lastId (next (lastKnown lastId (eventsAfter lastId seen))) seen
      (eventsAfter lastId seen))
    (hrest : yielded ++ rest = eventsAfter lastId seen) :
    Delivers lastId (yieldStored next (lastKnown lastId yielded) rest) seen yielded := by
  induction rest generalizing yielded with
  | nil =>
    rw [append_nil] at hrest
    subst hrest
    exact hnext
  | cons entry rest ih =>
    obtain ⟨id, event⟩ := entry
    refine ⟨⟨_, hrest⟩, ?_⟩
    have hrest' : (yielded ++ [(id, event)]) ++ rest = eventsAfter lastId seen := by
      rw [append_assoc]
      exact hrest
    have hdelivers := ih hrest'
    rw [lastKnown_concat] at hdelivers
    exact hdelivers

/-- The same, up to the terminal event, which is the last. -/
theorem delivers_yieldNew (hseen : WellOrdered seen)
    (hnext : Delivers lastId (next (lastKnown lastId (eventsAfter lastId seen))) seen
      (eventsAfter lastId seen))
    (hrest : yielded ++ rest = eventsAfter lastId seen) :
    Delivers lastId (yieldNew next (lastKnown lastId yielded) rest) seen yielded := by
  induction rest generalizing yielded with
  | nil =>
    rw [append_nil] at hrest
    subst hrest
    exact hnext
  | cons entry rest ih =>
    obtain ⟨id, event⟩ := entry
    refine ⟨⟨_, hrest⟩, ?_⟩
    have hrest' : (yielded ++ [(id, event)]) ++ rest = eventsAfter lastId seen := by
      rw [append_assoc]
      exact hrest
    show Delivers lastId (if event.isTerminal then ret (.ok .ended)
      else yieldNew next (some id) rest) seen (yielded ++ [(id, event)])
    split
    · rename_i hterminal
      -- nothing comes after the terminal event
      have hnil : rest = [] := by
        cases rest with
        | nil => rfl
        | cons later rest =>
          have hpairwise : (eventsAfter lastId seen).Pairwise fun x y => x.1 < y.1 :=
            hseen.eventsAfter
          have hmem (x : ℕ × AgUiEvent) (hx : x ∈ eventsAfter lastId seen) : x ∈ seen :=
            (mem_filter.mp hx).1
          rw [← hrest] at hpairwise hmem
          have hle := hseen.terminal (id, event) (hmem _ (by simp)) hterminal later
            (hmem _ (by simp))
          have hlt := (pairwise_cons.mp (pairwise_append.mp hpairwise).2.1).1 later
            mem_cons_self
          exact absurd hle (not_le.mpr hlt)
      subst hnil
      rw [append_nil] at hrest'
      exact ⟨⟨[], by rw [append_nil, hrest']⟩, fun _ => hrest'⟩
    · have hdelivers := ih hrest'
      rw [lastKnown_concat] at hdelivers
      exact hdelivers

theorem delivers_pollEvents (n : ℕ) (hseen : yielded = eventsAfter lastId seen) :
    Delivers lastId (pollEvents n (lastKnown lastId yielded)) seen yielded := by
  induction n generalizing seen yielded with
  | zero => exact ⟨hseen ▸ prefix_rfl, fun h => by cases h⟩
  | succ n ih =>
    refine ⟨hseen ▸ prefix_rfl, fun events hevents hinitial => ?_⟩
    have hsplit : eventsAfter lastId events =
        yielded ++ eventsAfter (lastKnown lastId yielded) events := by
      rw [hseen]
      exact eventsAfter_lastKnown hevents hinitial
    show Delivers lastId (servePoll (pollEvents n) (lastKnown lastId yielded)
      (eventsAfter (lastKnown lastId yielded) events)) events yielded
    generalize eventsAfter (lastKnown lastId yielded) events = new at hsplit
    cases new with
    | nil =>
      rw [append_nil] at hsplit
      refine ⟨hsplit ▸ prefix_rfl, fun all => ?_⟩
      show Delivers lastId (checkCompleted _ all) events yielded
      unfold checkCompleted
      split
      · exact ⟨hsplit ▸ prefix_rfl, fun _ => hsplit.symm⟩
      · exact ih hsplit.symm
    | cons entry rest => exact delivers_yieldNew hevents (ih rfl) hsplit.symm

/-- **The stream follows its reads**, from its beginning. -/
theorem delivers_resumeStream (r : RunStream) (n : ℕ) (lastId : Option ℕ) :
    Delivers lastId (resumeStream r n lastId) [] [] := by
  refine ⟨⟨_, rfl⟩, fun session => ?_⟩
  cases session with
  | none => exact ⟨⟨_, rfl⟩, fun h => by cases h⟩
  | some session =>
    refine ⟨⟨_, rfl⟩, fun events hevents _ => ⟨⟨_, rfl⟩, fun registered => ?_⟩⟩
    refine delivers_yieldStored ?_ (nil_append _)
    unfold pollIf
    split
    · exact delivers_pollEvents n rfl
    · exact ⟨prefix_rfl, fun _ => rfl⟩

/-! ### Runs -/

/-- The entry that a call hands to a client. -/
def yields : RunOp → Option (ℕ × AgUiEvent)
  | .yield id event => some (id, event)
  | _ => none

abbrev StreamEvent (ι : Type) :=
  Event ι RunOp RunOp.Resp Unit (Except AgUiError StreamEnd) RunStore

abbrev StreamPool (ι : Type) :=
  Config ι RunOp RunOp.Resp Unit (Except AgUiError StreamEnd) RunStore

/-- The entry that a call stores. -/
def stores : RunOp → Option (ℕ × AgUiEvent)
  | .storeEvent id event => some (id, event)
  | _ => none

variable {ι : Type} {maxEvents : ℕ} {ch : RunChoice} {s s' : RunStore}

/-- As long as there is room, an event is added at the end. -/
theorem events_of_sem (h : runSem maxEvents ch op s = some (ans, s'))
    (hroom : s.events.length + (stores op).toList.length ≤ maxEvents) :
    s'.events = s.events ++ (stores op).toList := by
  cases op with
  | storeEvent id event =>
    have hdrop : s.events.length + 1 - maxEvents = 0 := by
      have : s.events.length + 1 ≤ maxEvents := hroom
      omega
    cases ch <;> cases h <;>
    · show (s.events ++ [(id, event)]).drop (s.events.length + 1 - maxEvents) = _
      rw [hdrop]
      rfl
  | setSessionState sessionId state =>
    cases ch with
    | fails => cases h; simp [stores]
    | _ =>
      obtain rfl : (s.withState sessionId state).2 = s' := congrArg Prod.snd (Option.some.inj h)
      unfold RunStore.withState
      split <;> simp [stores, RunStore.setSession]
  | setPausedWithHitlInfo sessionId hitlInfo =>
    cases ch with
    | fails => cases h; simp [stores]
    | _ =>
      obtain rfl : (s.withPause sessionId hitlInfo).2 = s' := congrArg Prod.snd (Option.some.inj h)
      unfold RunStore.withPause
      split <;> simp [stores, RunStore.setSession]
  | _ => cases ch <;> cases h <;> simp [stores]

/-- The events a run stores. -/
def storedAlong (τ : List (StreamEvent ι)) : List (ℕ × AgUiEvent) :=
  τ.filterMap fun e => stores e.op

theorem storedAlong_cons (e : StreamEvent ι) (τ : List (StreamEvent ι)) :
    storedAlong (e :: τ) = (stores e.op).toList ++ storedAlong τ := by
  unfold storedAlong
  cases hstores : stores e.op <;> simp [hstores]

variable [DecidableEq ι] {i : ι} {c c' : StreamPool ι} {h τ : List (StreamEvent ι)}
  {e : StreamEvent ι}

/-- The events a stream hands on along a run. -/
def yieldedBy (i : ι) (τ : List (StreamEvent ι)) : List (ℕ × AgUiEvent) :=
  τ.filterMap fun e => if e.thread = i then yields e.op else none

theorem yieldedBy_concat (i : ι) (τ : List (StreamEvent ι)) (e : StreamEvent ι) :
    yieldedBy i (τ ++ [e]) =
      yieldedBy i τ ++ (if e.thread = i then yields e.op else none).toList := by
  unfold yieldedBy
  cases hyields : (if e.thread = i then yields e.op else none) <;> simp [hyields]

theorem events_run (hr : Run (Step (runSem maxEvents)) c τ c')
    (hroom : c.store.events.length + (storedAlong τ).length ≤ maxEvents) :
    c'.store.events = c.store.events ++ storedAlong τ := by
  induction τ generalizing c with
  | nil =>
    obtain rfl := run_nil.mp hr
    exact (append_nil _).symm
  | cons e τ ih =>
    obtain ⟨c1, hs, hrest⟩ := hr
    obtain ⟨ch, hsem⟩ := hs.sem_eq
    rw [hs.pre_eq, hs.post_eq] at hsem
    rw [storedAlong_cons, length_append] at hroom
    have hevents := events_of_sem hsem (by omega)
    rw [ih hrest (by rw [hevents, length_append]; omega), hevents, storedAlong_cons,
      append_assoc]

/-- The thread reads the new events. -/
def ReadsNew (i : ι) (e : StreamEvent ι) : Prop := e.thread = i ∧ ∃ lastId, e.op = .newEvents lastId

/-- The stream follows its reads so far. -/
def Serving (i : ι) (lastId : Option ℕ) (h : List (StreamEvent ι)) (c : StreamPool ι) : Prop :=
  ∃ seen, Delivers lastId (c.threads i) seen (yieldedBy i h) ∧ seen <+: c.store.events ∧
    (∀ e ∈ h, ReadsNew i e → e.pre.events <+: seen) ∧
    (seen = [] ∨ ∃ e ∈ h, ReadsNew i e ∧ e.pre.events = seen)

theorem Delivers.step (hsem : runSem maxEvents ch op s = some (ans, s'))
    (hdelivers : Delivers lastId (call op k) seen yielded) (hwell : WellOrdered s.events)
    (hseen : seen <+: s.events) :
    ∃ seen', Delivers lastId (k ans) seen' (yielded ++ (yields op).toList) ∧
      (((∃ id, op = .newEvents id) ∧ seen' = s.events) ∨
        ((∀ id, op ≠ .newEvents id) ∧ seen' = seen)) := by
  cases op with
  | newEvents id =>
    have hans : ans = .ok (eventsAfter id s.events) := by
      cases ch <;> cases hsem <;> rfl
    subst hans
    refine ⟨s.events, ?_, .inl ⟨⟨id, rfl⟩, rfl⟩⟩
    simpa [yields] using hdelivers.2 s.events hwell hseen
  | yield id event =>
    have hans : ans = .ok () := by
      cases ch <;> cases hsem <;> rfl
    subst hans
    exact ⟨seen, hdelivers.2, .inr ⟨(fun id' heq => by cases heq), rfl⟩⟩
  | getAllEvents =>
    have hans : ans = .ok s.events := by
      cases ch <;> cases hsem <;> rfl
    subst hans
    refine ⟨seen, ?_, .inr ⟨(fun id' heq => by cases heq), rfl⟩⟩
    simpa [yields] using hdelivers.2 s.events
  | isRegistered =>
    have hans : ans = .ok s.registered := by
      cases ch <;> cases hsem <;> rfl
    subst hans
    refine ⟨seen, ?_, .inr ⟨(fun id' heq => by cases heq), rfl⟩⟩
    simpa [yields] using hdelivers.2 s.registered
  | getSession sessionId =>
    obtain ⟨session, rfl⟩ : ∃ session, ans = .ok session := by
      cases ch <;> cases hsem <;> exact ⟨_, rfl⟩
    refine ⟨seen, ?_, .inr ⟨(fun id' heq => by cases heq), rfl⟩⟩
    simpa [yields] using hdelivers.2 session
  | _ => exact hdelivers.elim

theorem Serving.step (hs : Step (runSem maxEvents) c e c') (hwell : WellOrdered c.store.events)
    (hgrows : c.store.events <+: c'.store.events) (hc : Serving i lastId h c) :
    Serving i lastId (h ++ [e]) c' := by
  obtain ⟨seen, hdelivers, hseen, hreads, hlast⟩ := hc
  by_cases hi : e.thread = i
  · obtain ⟨k, hk, hk', -⟩ := hs.self
    obtain ⟨ch, hsem⟩ := hs.sem_eq
    rw [hi] at hk hk'
    rw [hk] at hdelivers
    rw [← hs.pre_eq] at hwell hseen hgrows
    obtain ⟨seen', hdelivers', hcases⟩ := hdelivers.step hsem hwell hseen
    refine ⟨seen', ?_, ?_⟩
    · rw [hk', yieldedBy_concat, if_pos hi]
      exact hdelivers'
    · rcases hcases with ⟨hop, rfl⟩ | ⟨hop, rfl⟩
      · refine ⟨hgrows, fun e' he' hreads' => ?_, .inr ⟨e, by simp, ⟨hi, hop⟩, rfl⟩⟩
        rcases mem_append.mp he' with he' | he'
        · exact (hreads e' he' hreads').trans hseen
        · rw [mem_singleton.mp he']
      · refine ⟨hseen.trans hgrows, fun e' he' hreads' => ?_, ?_⟩
        · rcases mem_append.mp he' with he' | he'
          · exact hreads e' he' hreads'
          · rw [mem_singleton.mp he'] at hreads'
            obtain ⟨id, hid⟩ := hreads'.2
            exact absurd hid (hop id)
        · exact hlast.imp id fun ⟨e', he', hread⟩ => ⟨e', mem_append_left _ he', hread⟩
  · refine ⟨seen, ?_, hseen.trans hgrows, fun e' he' hreads' => ?_, ?_⟩
    · rw [hs.other (Ne.symm hi), yieldedBy_concat, if_neg hi]
      simpa using hdelivers
    · rcases mem_append.mp he' with he' | he'
      · exact hreads e' he' hreads'
      · rw [mem_singleton.mp he'] at hreads'
        exact absurd hreads'.1 hi
    · exact hlast.imp id fun ⟨e', he', hread⟩ => ⟨e', mem_append_left _ he', hread⟩

section

variable (hr : Run (Step (runSem maxEvents)) c τ c')
  (hroom : c.store.events.length + (storedAlong τ).length ≤ maxEvents)

include hr hroom

/-- **The stream follows its reads along every run**, as long as there is room for the
events and they are well ordered. -/
theorem Serving.run (hwell : WellOrdered c'.store.events) (hc : Serving i lastId h c) :
    Serving i lastId (h ++ τ) c' := by
  induction τ generalizing h c with
  | nil =>
    obtain rfl := run_nil.mp hr
    rwa [append_nil]
  | cons e τ ih =>
    have hevents := events_run hr hroom
    obtain ⟨c1, hs, hrest⟩ := hr
    have hfirst : Run (Step (runSem maxEvents)) c [e] c1 := ⟨c1, hs, rfl⟩
    have hlength : (storedAlong (e :: τ)).length =
        (storedAlong [e]).length + (storedAlong τ).length := by
      rw [storedAlong_cons, storedAlong_cons e [], length_append, length_append]
      rfl
    have hevents1 := events_run hfirst (by omega)
    have hwell0 : WellOrdered c.store.events := hwell.initial (hevents ▸ prefix_append _ _)
    have hserving := Serving.step hs hwell0 (hevents1 ▸ prefix_append _ _) hc
    have hrun := ih hrest (by rw [hevents1, length_append]; omega) hserving
    rwa [append_assoc] at hrun

/-! ### When a stream is complete -/

/-- The terminal event is stored. -/
def HasEnded (s : RunStore) : Prop := ∃ x ∈ s.events, x.2.isTerminal = true

/-- One of the stream's reads found the terminal event. -/
def SawEnd (i : ι) (τ : List (StreamEvent ι)) : Prop :=
  ∃ e ∈ τ, ReadsNew i e ∧ HasEnded e.pre

/-- The stream does not end while the run is in progress. -/
def OutlastsRun (i : ι) (τ : List (StreamEvent ι)) : Prop :=
  ∀ e ∈ τ, e.thread = i → e.result.isSome → HasEnded e.post

theorem pre_stays (he : e ∈ τ) : e.pre.events <+: c'.store.events := by
  obtain ⟨τ1, τ2, rfl⟩ := append_of_mem he
  obtain ⟨c1, h1, hrest⟩ := run_append.mp hr
  have happend : storedAlong (τ1 ++ e :: τ2) = storedAlong τ1 ++ storedAlong (e :: τ2) :=
    filterMap_append
  rw [happend, length_append] at hroom
  have hevents1 := events_run h1 (by omega)
  have hevents := events_run hrest (by rw [hevents1, length_append]; omega)
  obtain ⟨c2, hs, -⟩ := hrest
  rw [hs.pre_eq, hevents]
  exact prefix_append _ _

/-- A stream that saw the end of the run outlasts it. -/
theorem SawEnd.outlastsRun (hsaw : SawEnd i τ) : OutlastsRun i τ := by
  intro e he hi hended
  obtain ⟨e0, he0, ⟨hi0, -⟩, x, hx, hterminal⟩ := hsaw
  obtain ⟨τ1, τ2, rfl⟩ := append_of_mem he
  obtain ⟨c1, h1, c2, hs, h2⟩ := run_append.mp hr
  -- the stream makes no call after it has ended, so it saw the end before
  have hbefore : e0 ∈ τ1 ++ [e] := by
    rcases mem_append.mp he0 with he0 | he0
    · exact mem_append_left _ he0
    rcases mem_cons.mp he0 with rfl | he0
    · exact mem_append_right _ mem_cons_self
    obtain ⟨result, hresult⟩ := Option.isSome_iff_exists.mp hended
    obtain ⟨k, -, hk', hres⟩ := hs.self
    have hdone : (c2.threads i).result = some result := by
      rw [← hi, hk', ← hres, hresult]
    obtain ⟨c3, c4, hc3, hs3⟩ := h2.mem_step (I := fun c => (c.threads i).result = some result)
      (fun _ _ _ hs hc => by rw [hs.other (hs.not_ended hc)]; exact hc) hdone he0
    exact absurd hi0 (hs3.not_ended hc3).symm
  have happend : storedAlong (τ1 ++ e :: τ2) = storedAlong (τ1 ++ [e]) ++ storedAlong τ2 := by
    rw [append_cons]
    exact filterMap_append
  rw [happend, length_append] at hroom
  have hrun : Run (Step (runSem maxEvents)) c (τ1 ++ [e]) c2 :=
    run_append.mpr ⟨c1, h1, c2, hs, rfl⟩
  have hinitial := pre_stays hrun (by omega) hbefore
  rw [hs.post_eq]
  exact ⟨x, hinitial.subset hx, hterminal⟩

end

/-- **When a reconnecting client misses nothing.**  A stream reconnects to a run while
any programs work on it; the events of the run have increasing identifiers, with the
terminal event as the last, and fit into the store.  The stream hands on an initial part
of the events after the last one the client knew, in order and each once.  When the
stream and the run have ended, it has handed on all of them, and has not ended before
the run, if and only if one of its reads of new events found the terminal event stored,
or the client knew the terminal event and the stream ended after the run. -/
theorem resume_stream_iff {r : RunStream} {n : ℕ} {p : ι → StreamProg} {start : RunStore}
    (hi : p i = resumeStream r n lastId)
    (hr : Run (Step (runSem maxEvents)) ⟨p, start⟩ τ c')
    (hroom : start.events.length + (storedAlong τ).length < maxEvents)
    (hwell : WellOrdered c'.store.events) :
    yieldedBy i τ <+: eventsAfter lastId c'.store.events ∧
      ∀ last ∈ c'.store.events, last.2.isTerminal = true →
        (c'.threads i).result = some (.ok (.ok .ended)) →
        ((yieldedBy i τ = eventsAfter lastId c'.store.events ∧ OutlastsRun i τ) ↔
          (SawEnd i τ ∨ (isNewer lastId last = false ∧ OutlastsRun i τ))) := by
  have hstart : Serving i lastId ([] : List (StreamEvent ι)) ⟨p, start⟩ := by
    refine ⟨[], ?_, ⟨_, rfl⟩, fun e he => (not_mem_nil he).elim, .inl rfl⟩
    show Delivers lastId (p i) [] []
    rw [hi]
    exact delivers_resumeStream r n lastId
  obtain ⟨seen, hdelivers, hseen, hreads, hlast⟩ := Serving.run hr hroom.le hwell hstart
  refine ⟨hdelivers.isPrefix.trans (eventsAfter_mono hseen), fun last hmem hterminal hended => ?_⟩
  have hyielded : yieldedBy i τ = eventsAfter lastId seen := by
    cases hp : c'.threads i with
    | ret result =>
      rw [hp] at hdelivers hended
      cases hended
      exact hdelivers.2 rfl
    | fail | call => rw [hp] at hended; cases hended
  constructor
  · rintro ⟨hall, houtlasts⟩
    cases hnewer : isNewer lastId last with
    | false => exact .inr ⟨rfl, houtlasts⟩
    | true =>
      -- the terminal event was handed on, so it was there at the last read
      have hin : last ∈ eventsAfter lastId seen := by
        rw [← hyielded, hall]
        exact mem_filter.mpr ⟨hmem, hnewer⟩
      have hlastSeen : last ∈ seen := (mem_filter.mp hin).1
      rcases hlast with rfl | ⟨e, he, hread, heq⟩
      · exact (not_mem_nil hlastSeen).elim
      · exact .inl ⟨e, he, hread, last, heq ▸ hlastSeen, hterminal⟩
  · rintro (hsaw | ⟨hold, houtlasts⟩)
    · refine ⟨?_, hsaw.outlastsRun hr hroom.le⟩
      obtain ⟨e, he, hread, x, hx, hxterminal⟩ := hsaw
      have hxseen : x ∈ seen := (hreads e he hread).subset hx
      -- nothing is stored after the terminal event
      rw [hyielded, hwell.eq_of_terminal hseen hxseen hxterminal]
    · have hnone := hwell.eventsAfter_eq_nil hmem hterminal hold
      refine ⟨?_, houtlasts⟩
      have hinitial := hdelivers.isPrefix.trans (eventsAfter_mono hseen)
      rw [hnone] at hinitial ⊢
      exact prefix_nil.mp hinitial

/-- The producer of a small run, and a client that knows nothing of it. -/
def reconnectPool : StreamPool Bool where
  threads
    | false => createEventStream plainRun >>= fun _ => ret (.ok .ended)
    | true => resumeStream plainRun 5 none
  store := plainStart

/-- The client polls, and reads again after the run has ended. -/
def pollAfterEnd : List (Bool × RunChoice) :=
  List.replicate 3 (true, .plain) ++ List.replicate 7 (false, .plain) ++
    List.replicate 2 (true, .plain)

/-- The run ends between the client's read of the events and of the registry. -/
def endBetweenReads : List (Bool × RunChoice) :=
  List.replicate 2 (true, .plain) ++ List.replicate 10 (false, .plain) ++ [(true, .plain)]

/-- The event that ends the small run. -/
def plainEnd : ℕ × AgUiEvent := (1, .runFinished "run" "thread" (.success none))

theorem wellOrdered_singleton (x : ℕ × AgUiEvent) : WellOrdered [x] := by
  refine ⟨pairwise_singleton _ _, ?_⟩
  intro y hy _ z hz
  rw [mem_singleton.mp hy, mem_singleton.mp hz]

/-- A client that polls after the end gets it. -/
theorem poll_after_end_complete :
    yieldedBy true (reconnectPool.play (runSem 1000) pollAfterEnd).1 =
      eventsAfter none (reconnectPool.play (runSem 1000) pollAfterEnd).2.store.events ∧
    OutlastsRun true (reconnectPool.play (runSem 1000) pollAfterEnd).1 := by
  have hevents : (reconnectPool.play (runSem 1000) pollAfterEnd).2.store.events = [plainEnd] := rfl
  have hsaw : SawEnd true (reconnectPool.play (runSem 1000) pollAfterEnd).1 := by
    refine ⟨(reconnectPool.play (runSem 1000) pollAfterEnd).1.get ⟨10, by decide⟩,
      get_mem _ _, ⟨rfl, none, rfl⟩, plainEnd, ?_, rfl⟩
    exact mem_singleton_self plainEnd
  have hi : reconnectPool.threads true = resumeStream plainRun 5 none := rfl
  have hroom : plainStart.events.length +
      (storedAlong (reconnectPool.play (runSem 1000) pollAfterEnd).1).length < 1000 := by
    show 0 + 1 < 1000
    decide
  have hwell : WellOrdered (reconnectPool.play (runSem 1000) pollAfterEnd).2.store.events := by
    exact wellOrdered_singleton plainEnd
  refine ((resume_stream_iff hi (run_play reconnectPool pollAfterEnd) hroom hwell).2 plainEnd ?_
    rfl rfl).mpr (.inl hsaw)
  exact mem_singleton_self plainEnd

/-- **A client that misses the end of the run.**  The stream reads no events, the
producer stores the terminal event and ends, and the stream finds the run no longer
registered: it ends without a single event. -/
theorem end_between_reads_misses :
    ∃ τ c', Run (Step (runSem 1000)) reconnectPool τ c' ∧
      (c'.threads true).result = some (.ok (.ok .ended)) ∧
      (c'.threads false).result = some (.ok (.ok .ended)) ∧
      c'.store.events = [plainEnd] ∧ plainEnd.2.isTerminal = true ∧ yieldedBy true τ = [] :=
  ⟨_, _, run_play reconnectPool endBetweenReads, rfl, rfl, rfl, rfl, rfl⟩

end Jobworkerp.AgUi
