/-
Jobworkerp/AgUi/TextMessage.lean

The text message of a job's output
(`result_output_stream_to_ag_ui_events_with_end_guarantee` of `events/llm.rs`).

Every item is turned into its events without a look at `has_ended`, which only keeps
the chained tail from ending the message once more.

* `text_message_once_iff`: the message has its shape if and only if no item behind
  an End or a FinalCollected gives an event.
-/
import Jobworkerp.ResultStream

namespace Jobworkerp.AgUi

open List

/-- The events of a message; their time is left out, and the role is the assistant's. -/
inductive TextEvent
  | textMessageStart (messageId : String)
  | textMessageContent (messageId delta : String)
  | textMessageEnd (messageId : String)
  | runError (runId message code origin : String)

def TextEvent.isRunError : TextEvent → Bool
  | runError _ _ _ _ => true
  | _ => false

def endFailure (codec : JsonCodec) (trailer : Trailer) : Option StreamError :=
  match inspectEnd codec trailer with
  | .success => none
  | .failed error => some error

/-- The item sets `has_ended`. -/
def endsMessage : ResultOutputItem → Bool
  | .stop _ | .finalCollected _ => true
  | _ => false

/-- The parameters of the conversion; `extractText` is `extract_text_from_llm_chat_result`,
which decodes a protobuf message. -/
structure TextStream where
  codec : JsonCodec
  extractText : Bytes → Option String
  messageId : String
  runId : String

namespace TextStream

variable (m : TextStream)

/-- The text of a data item. -/
def itemText : ResultOutputItem → Option String
  | .data bytes => m.extractText bytes
  | _ => none

def itemEvents : ResultOutputItem → List TextEvent
  | .data bytes => (m.extractText bytes).toList.map (.textMessageContent m.messageId)
  | .stop trailer =>
    .textMessageEnd m.messageId :: (endFailure m.codec trailer).toList.map fun error =>
      .runError m.runId error.message (codeToJsonStr error.code) error.origin
  | .finalCollected _ => [.textMessageEnd m.messageId]
  | .empty => []

/-- `result_output_stream_to_ag_ui_events_with_end_guarantee`. -/
def toAgUiEvents (items : List ResultOutputItem) : List TextEvent :=
  .textMessageStart m.messageId :: (items.flatMap m.itemEvents ++
    if items.any endsMessage then [] else [.textMessageEnd m.messageId])

/-- The message of the texts: a start, the contents in order, an end, at most one `RUN_ERROR`. -/
def IsMessage (texts : List String) (events : List TextEvent) : Prop :=
  ∃ failure : List TextEvent, failure.length ≤ 1 ∧ (∀ e ∈ failure, e.isRunError) ∧
    events = .textMessageStart m.messageId ::
      (texts.map (.textMessageContent m.messageId) ++ .textMessageEnd m.messageId :: failure)

variable {m} {item : ResultOutputItem} {items : List ResultOutputItem}

theorem itemText_of_quiet (h : m.itemEvents item = []) : m.itemText item = none := by
  cases item with
  | data bytes => simpa [itemEvents, itemText] using h
  | stop | finalCollected | empty => rfl

theorem itemEvents_of_ends (h : endsMessage item = true) : m.itemText item = none ∧
    ∃ failure : List TextEvent, failure.length ≤ 1 ∧ (∀ e ∈ failure, e.isRunError) ∧
      m.itemEvents item = .textMessageEnd m.messageId :: failure := by
  cases item with
  | data | empty => cases h
  | finalCollected => exact ⟨rfl, [], Nat.zero_le 1, nofun, rfl⟩
  | stop trailer =>
    refine ⟨rfl, _, ?_, fun e he => ?_, rfl⟩
    · cases endFailure m.codec trailer <;> simp
    · obtain ⟨error, -, rfl⟩ := mem_map.mp he
      rfl

theorem isMessage_of_quiet (h : items.Pairwise fun a b => endsMessage a → m.itemEvents b = []) :
    m.IsMessage (items.filterMap m.itemText) (m.toAgUiEvents items) := by
  induction items with
  | nil => exact ⟨[], Nat.zero_le 1, nofun, rfl⟩
  | cons item items ih =>
    obtain ⟨hquiet, hrest⟩ := pairwise_cons.mp h
    cases hends : endsMessage item with
    | true =>
      obtain ⟨htext, failure, hlength, herror, hevents⟩ := itemEvents_of_ends (m := m) hends
      have hnone : items.flatMap m.itemEvents = [] :=
        flatMap_eq_nil_iff.mpr fun b hb => hquiet b hb hends
      have htexts : items.filterMap m.itemText = [] :=
        filterMap_eq_nil_iff.mpr fun b hb => itemText_of_quiet (hquiet b hb hends)
      exact ⟨failure, hlength, herror, by simp [toAgUiEvents, hends, hevents, hnone, htext, htexts]⟩
    | false =>
      obtain ⟨failure, hlength, herror, heq⟩ := ih hrest
      have hitem : m.itemEvents item =
          (m.itemText item).toList.map (.textMessageContent m.messageId) := by
        cases item with
        | data | empty => rfl
        | stop | finalCollected => cases hends
      refine ⟨failure, hlength, herror, ?_⟩
      simp only [toAgUiEvents, flatMap_cons, any_cons, hends, Bool.false_or, append_assoc, hitem,
        (cons.inj heq).2]
      cases htext : m.itemText item <;> simp [htext]

/-- **A text message is started and ended once, with its contents in between,** if and only if no
item behind one that ends it gives an event. -/
theorem text_message_once_iff (m : TextStream) (items : List ResultOutputItem) :
    m.IsMessage (items.filterMap m.itemText) (m.toAgUiEvents items) ↔
      items.Pairwise fun a b => endsMessage a → m.itemEvents b = [] := by
  refine ⟨fun ⟨failure, _, herror, heq⟩ => ?_, isMessage_of_quiet⟩
  -- behind an end there are errors only, and no item gives errors only
  have hevents : (m.toAgUiEvents items).Pairwise
      fun x y => x = .textMessageEnd m.messageId → y.isRunError := by
    rw [heq]
    refine pairwise_cons.mpr ⟨nofun, pairwise_append.mpr ⟨?_, pairwise_cons.mpr
      ⟨fun y hy _ => herror y hy, ?_⟩, fun x hx y _ hend => ?_⟩⟩
    · exact pairwise_map.mpr (pairwise_of_forall nofun)
    · exact pairwise_of_forall_mem_list fun x _ y hy _ => herror y hy
    · obtain ⟨text, -, rfl⟩ := mem_map.mp hx
      cases hend
  have hitems := hevents.sublist ((sublist_append_left (items.flatMap m.itemEvents) _).cons _)
  refine (pairwise_flatMap.mp hitems).2.imp fun {a b} hab hends => ?_
  obtain ⟨-, failure, -, -, ha⟩ := itemEvents_of_ends (m := m) hends
  have hb : ∀ y ∈ m.itemEvents b, y.isRunError :=
    fun y hy => hab (.textMessageEnd m.messageId) (ha ▸ mem_cons_self) y hy rfl
  cases b with
  | data bytes => cases htext : m.extractText bytes <;> simp_all [itemEvents, TextEvent.isRunError]
  | stop | finalCollected => cases hb _ mem_cons_self
  | empty => rfl

/-- A FinalCollected and the End behind it both end the message. -/
theorem message_ended_twice : ∃ m : TextStream,
    m.toAgUiEvents [.finalCollected [], plainEnd] =
      [.textMessageStart "m", .textMessageEnd "m", .textMessageEnd "m"] :=
  ⟨⟨default, fun _ => none, "m", "r"⟩, rfl⟩

end TextStream

end Jobworkerp.AgUi
