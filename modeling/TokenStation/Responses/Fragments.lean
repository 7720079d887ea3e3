import TokenStation.Library.Gathering
import TokenStation.Responses.Conversation
import TokenStation.Responses.Stream

/-!
# The fragments of a stream

Each content event is a fragment of an item. A call keeps the id of its first
fragment and the name its fragments settle on.
-/

namespace TokenStation.Responses

open Library Library.Gathering

/-- The kind and source of the item an event belongs to. -/
def StreamEvent.item : StreamEvent → Option (SlotKind × Nat)
  | .delta index _ => some (.text, index)
  | .thinkingDelta index _ _ | .thinkingSignatureDelta index _ _ | .redactedThinking index _ _ =>
      some (.reasoning, index)
  | .toolCallDelta index _ _ _ _ => some (.tool, index)
  | _ => none

/-! ## The names of a call -/

/-- The names the fragments of one call carry, in order. -/
def toolNames (index : Nat) (events : List StreamEvent) : List (Option String) :=
  events.filterMap fun event =>
    match event with
    | .toolCallDelta i _ name _ _ => if i = index then some name else none
    | _ => none

/-- The name a call is announced under. -/
def firstName (names : List (Option String)) : String := (names.head?.getD none).getD ""

/-- The name a call ends with: where incomplete calls are allowed, the first
that is not empty. -/
def settledName (allowIncomplete : Bool) (names : List (Option String)) : String :=
  if allowIncomplete then ((names.filterMap id).find? (· != "")).getD "" else firstName names

theorem settledName_snoc (allowIncomplete : Bool) {names : List (Option String)}
    (h : names ≠ []) (name : Option String) :
    settledName allowIncomplete (names ++ [name]) =
      match name with
      | some n =>
          if settledName allowIncomplete names = "" ∧ allowIncomplete = true then n
          else settledName allowIncomplete names
      | none => settledName allowIncomplete names := by
  cases allowIncomplete with
  | false =>
      obtain ⟨first, rest, rfl⟩ := List.exists_cons_of_ne_nil h
      cases name <;> simp [settledName, firstName]
  | true =>
      simp only [settledName, if_true, List.filterMap_append, List.find?_append, and_true]
      cases hfound : (names.filterMap id).find? (· != "") with
      | none =>
          cases name with
          | none => simp
          | some n => by_cases hn : n = "" <;> simp [hn]
      | some found =>
          have hfound : found ≠ "" := by simpa using List.find?_some hfound
          cases name <;> simp [hfound]

theorem firstName_snoc {names : List (Option String)} (h : names ≠ []) (name : Option String) :
    firstName (names ++ [name]) = firstName names := by
  obtain ⟨first, rest, rfl⟩ := List.exists_cons_of_ne_nil h
  rfl

theorem settledName_singleton (allowIncomplete : Bool) (name : Option String) :
    settledName allowIncomplete [name] = name.getD "" := by
  cases allowIncomplete with
  | false => rfl
  | true =>
      cases name with
      | none => rfl
      | some n => by_cases hn : n = "" <;> simp [settledName, hn]

/-- A call that starts with a name keeps it. -/
theorem settledName_of_first (allowIncomplete : Bool) {names : List (Option String)}
    (h : firstName names ≠ "") : settledName allowIncomplete names = firstName names := by
  cases allowIncomplete with
  | false => rfl
  | true =>
      cases names with
      | nil => exact absurd rfl h
      | cons first rest =>
          cases first with
          | none => exact absurd rfl h
          | some n =>
              have hn : n ≠ "" := h
              simp [settledName, firstName, hn]

/-! ## Fragments of a stream -/

/-- The texts for a choice. -/
def deltas (index : Nat) (events : List StreamEvent) : List String :=
  events.filterMap fun event =>
    match event with
    | .delta i content => if i = index then some content else none
    | _ => none

/-- The ids the fragments of one call carry, in order. -/
def toolIds (index : Nat) (events : List StreamEvent) : List (Option String) :=
  events.filterMap fun event =>
    match event with
    | .toolCallDelta i id _ _ _ => if i = index then some id else none
    | _ => none

def toolArguments (index : Nat) (events : List StreamEvent) : List String :=
  events.filterMap fun event =>
    match event with
    | .toolCallDelta i _ _ arguments _ => if i = index then some arguments else none
    | _ => none

/-- The call a stream gave under a tool index. -/
def streamedCall (context : ResponsesContext) (events : List StreamEvent) (index : Nat) : ToolCall :=
  ⟨((toolIds index events).head?.getD none).getD
      ("call_" ++ context.responseId ++ "_" ++ toString index),
    settledName context.allowIncompleteToolCalls (toolNames index events),
    String.join (toolArguments index events), none⟩

section

variable {events : List StreamEvent} {event : StreamEvent} {index : Nat}

theorem deltas_snoc_other (h : event.item ≠ some (.text, index)) :
    deltas index (events ++ [event]) = deltas index events := by
  cases event with
  | delta i content =>
      have hi : i ≠ index := by simpa [StreamEvent.item] using h
      simp [deltas, hi]
  | _ => simp [deltas]

theorem toolIds_snoc_other (h : event.item ≠ some (.tool, index)) :
    toolIds index (events ++ [event]) = toolIds index events := by
  cases event with
  | toolCallDelta i id name arguments =>
      have hi : i ≠ index := by simpa [StreamEvent.item] using h
      simp [toolIds, hi]
  | _ => simp [toolIds]

theorem toolNames_snoc_other (h : event.item ≠ some (.tool, index)) :
    toolNames index (events ++ [event]) = toolNames index events := by
  cases event with
  | toolCallDelta i id name arguments =>
      have hi : i ≠ index := by simpa [StreamEvent.item] using h
      simp [toolNames, hi]
  | _ => simp [toolNames]

theorem toolArguments_snoc_other (h : event.item ≠ some (.tool, index)) :
    toolArguments index (events ++ [event]) = toolArguments index events := by
  cases event with
  | toolCallDelta i id name arguments =>
      have hi : i ≠ index := by simpa [StreamEvent.item] using h
      simp [toolArguments, hi]
  | _ => simp [toolArguments]

theorem streamedCall_snoc_other (context : ResponsesContext) (h : event.item ≠ some (.tool, index)) :
    streamedCall context (events ++ [event]) index = streamedCall context events index := by
  simp only [streamedCall, toolIds_snoc_other h, toolNames_snoc_other h, toolArguments_snoc_other h]

/-- Without fragments of an item there is nothing for it. -/
theorem fragments_nil (h : ∀ e ∈ events, e.item ≠ some (.text, index)) : deltas index events = [] := by
  refine List.filterMap_eq_nil_iff.mpr fun e he => ?_
  cases e with
  | delta i content =>
      have hi : i ≠ index := by simpa [StreamEvent.item] using h _ he
      simp [hi]
  | _ => rfl

theorem callFragments_nil (h : ∀ e ∈ events, e.item ≠ some (.tool, index)) :
    toolIds index events = [] ∧ toolNames index events = [] ∧ toolArguments index events = [] := by
  refine ⟨?_, ?_, ?_⟩
  all_goals
    refine List.filterMap_eq_nil_iff.mpr fun e he => ?_
    cases e with
    | toolCallDelta i id name arguments =>
        have hi : i ≠ index := by simpa [StreamEvent.item] using h _ he
        simp [hi]
    | _ => rfl

theorem toolNames_ne_nil (h : ∃ e ∈ events, e.item = some (.tool, index)) :
    toolNames index events ≠ [] ∧ toolIds index events ≠ [] := by
  obtain ⟨e, he, hitem⟩ := h
  cases e with
  | toolCallDelta i id name arguments =>
      cases hitem
      exact ⟨List.ne_nil_of_mem (List.mem_filterMap.mpr ⟨_, he, if_pos rfl⟩),
        List.ne_nil_of_mem (List.mem_filterMap.mpr ⟨_, he, if_pos rfl⟩)⟩
  | delta | thinkingDelta | thinkingSignatureDelta | redactedThinking | usage | finish | done
  | error => cases hitem

end

end TokenStation.Responses
