import TokenStation.Library.Gathering
import TokenStation.Provider.ResponsesGrammar

/-!
# Arguments of streamed calls

A call's arguments come with its item, as deltas, in a final event and once more with the
finished item. What the parser has emitted of them is kept beside the call; each step adds
to both alike.
-/

namespace TokenStation.Provider.ResponsesApi

open Library Library.Checked Library.Json Library.Gathering Responses Sse

/-! ## Fragments -/

/-- One streamed fragment of a call. -/
structure Fragment where
  ordinal : Nat
  id : Option String
  name : Option String
  arguments : String

def fragmentOf : StreamEvent → Option Fragment
  | .toolCallDelta index id name argumentsDelta _ => some ⟨index, id, name, argumentsDelta⟩
  | _ => none

def fragments (events : List StreamEvent) : List Fragment := events.filterMap fragmentOf

/-- The arguments of each fragment under its call. -/
def marked (streamed : List Fragment) : List (Nat × String) :=
  streamed.map fun fragment => (fragment.ordinal, fragment.arguments)

theorem fragments_append (events more : List StreamEvent) :
    fragments (events ++ more) = fragments events ++ fragments more := List.filterMap_append

theorem marked_append (streamed more : List Fragment) :
    marked (streamed ++ more) = marked streamed ++ marked more := List.map_append

/-! ## What one frame does to the calls -/

/-- A call item and its call go together, and a finished call's item is finished. -/
def Linked (s : ResponsesStreamParser) : Prop :=
  ∀ id call, lookup id s.calls = some call →
    ∃ item, lookup id s.items = some item ∧ (call.done = true → item.done = true)

/-- A call with more of its arguments. -/
structure Extends (call next : CallState) (rest : String) : Prop where
  ordinal : next.ordinal = call.ordinal
  callId : next.callId = call.callId
  name : next.name = call.name
  emitted : next.emitted = call.emitted ++ rest

/-- The calls are left alone, one is opened, or an unfinished one goes on. -/
inductive CallStep (s t : ResponsesStreamParser) : List Fragment → Prop
  | kept (hcalls : t.calls = s.calls) : CallStep s t []
  | opened {id : String} {call : CallState} (hnew : lookup id s.calls = none)
      (hordinal : call.ordinal = s.calls.length)
      (hcalls : t.calls = store id call s.calls) :
      CallStep s t [⟨call.ordinal, some call.callId, some call.name, call.emitted⟩]
  | extended {id rest : String} {call next : CallState} (hcall : lookup id s.calls = some call)
      (hopen : call.done = false) (hnext : Extends call next rest)
      (hcalls : t.calls = store id next s.calls) :
      CallStep s t (if rest.isEmpty then [] else [⟨call.ordinal, none, none, rest⟩])

/-- The arguments a frame states in full, and for which item. -/
def statedArguments (frame : Value) : Option (String × String) :=
  match (frame.get "type").bind Value.asStr with
  | some "response.function_call_arguments.done" => do
      let id ← (frame.get "item_id").bind Value.asStr
      let arguments ← (frame.get "arguments").bind Value.asStr
      return (id, arguments)
  | some "response.output_item.done" => do
      let item ← (frame.get "item").filter isCallItem
      let id ← (item.get "id").bind Value.asStr
      let arguments ← (item.get "arguments").bind Value.asStr
      return (id, arguments)
  | _ => none

/-- Whether a frame finishes an item. -/
def finishesItem (frame : Value) : Bool :=
  (frame.get "type").bind Value.asStr == some "response.output_item.done"

/-- The arguments a frame states are what the call has emitted after it. -/
def Settles (frame : Value) (t : ResponsesStreamParser) : Prop :=
  ∀ id arguments, statedArguments frame = some (id, arguments) →
    ∃ call, lookup id t.calls = some call ∧ call.emitted = arguments ∧
      (finishesItem frame = true → call.done = true)

theorem statedArguments_item {frame item : Value} (hitem : frame.get "item" = some item)
    (htype : (frame.get "type").bind Value.asStr = some "response.output_item.done") :
    statedArguments frame = if isCallItem item then do
      let id ← (item.get "id").bind Value.asStr
      let arguments ← (item.get "arguments").bind Value.asStr
      return (id, arguments) else none := by
  unfold statedArguments
  rw [htype, hitem, Option.filter]
  cases isCallItem item <;> rfl

/-- What a frame that is no failure does. -/
structure Handled (s t : ResponsesStreamParser) (frame : Value) (now : List Fragment) :
    Prop where
  step : CallStep s t now
  linked : Linked t
  settles : Settles frame t
  stated : finishesItem frame = true → (frame.get "item").any isCallItem = true →
    (statedArguments frame).isSome = true

/-- Only the calls matter to a step. -/
theorem CallStep.of_calls {s u t : ResponsesStreamParser} {now : List Fragment}
    (h : CallStep u t now) (hcalls : u.calls = s.calls) : CallStep s t now := by
  cases h with
  | kept hkept => exact .kept (hkept.trans hcalls)
  | opened hnew hordinal hstored =>
      rw [hcalls] at hnew hordinal hstored
      exact .opened hnew hordinal hstored
  | extended hcall hopen hnext hstored =>
      rw [hcalls] at hcall hstored
      exact .extended hcall hopen hnext hstored

theorem isPrefixOf?_eq_some {lead text rest : List Char}
    (h : lead.isPrefixOf? text = some rest) : text = lead ++ rest := by
  induction lead generalizing text with
  | nil => exact Option.some.inj h
  | cons c lead ih =>
      cases text with
      | nil => cases h
      | cons d text =>
          rw [List.isPrefixOf?] at h
          split at h
          · next heq =>
              rw [beq_iff_eq.mp heq, ih h, List.cons_append]
          · cases h

theorem settleArguments_extends {call next : CallState} {arguments : String}
    {event : Option StreamEvent}
    (h : ResponsesStreamParser.settleArguments call arguments = .ok (event, next)) :
    ∃ rest, Extends call next rest ∧ next.emitted = arguments ∧ next.done = call.done ∧
      fragments event.toList =
        if rest.isEmpty then [] else [⟨call.ordinal, none, none, rest⟩] := by
  unfold ResponsesStreamParser.settleArguments at h
  split at h
  · cases h
  · next rest hrest =>
      have htext := isPrefixOf?_eq_some hrest
      simp only [Except.ok.injEq, Prod.mk.injEq] at h
      obtain ⟨rfl, rfl⟩ := h
      refine ⟨String.ofList rest, ⟨rfl, rfl, rfl, ?_⟩, rfl, rfl, ?_⟩
      · rw [← String.ofList_toList (s := arguments), htext]
        simp
      · cases rest with
        | nil => rfl
        | cons c rest => simp [fragments, fragmentOf]

theorem linked_store {s t : ResponsesStreamParser} {id : String} {next : CallState}
    (h : Linked s) (hcalls : t.calls = store id next s.calls) (hitems : t.items = s.items)
    (hnext : ∃ item, lookup id s.items = some item ∧ (next.done = true → item.done = true)) :
    Linked t := by
  intro other call hcall
  rw [hcalls, lookup_store] at hcall
  rw [hitems]
  split at hcall
  · next heq =>
      obtain rfl := Option.some.inj hcall
      exact heq ▸ hnext
  · exact h other call hcall

/-- Recording an item finishes it or adds it, and keeps the calls linked. -/
theorem recordItem_linked {s t : ResponsesStreamParser} {id kind : String} {outputIndex : Nat}
    {done : Bool} (hs : Linked s) (h : s.recordItem id outputIndex kind done = .ok t) :
    t.calls = s.calls ∧ Linked t ∧ (∃ item, lookup id t.items = some item ∧ item.done = done) ∧
      (∀ call, lookup id s.calls = some call → done = true ∧ call.done = false) := by
  unfold ResponsesStreamParser.recordItem at h
  split at h
  · next previous hprevious =>
      split at h
      · cases h
      · next hguard =>
          cases h
          simp only [Bool.or_eq_true, not_or, Bool.not_eq_true, Bool.not_eq_false',
            decide_eq_true_eq] at hguard
          obtain ⟨⟨⟨hdone, hopen⟩, -⟩, -⟩ := hguard
          refine ⟨rfl, ?_, ?_, ?_⟩
          · intro other call hcall
            obtain ⟨item, hitem, hfinished⟩ := hs other call hcall
            by_cases heq : id = other
            · refine ⟨{ previous with done := true }, ?_, fun _ => rfl⟩
              simp [lookup_store, heq]
            · exact ⟨item, by simp [lookup_store, heq, hitem], hfinished⟩
          · refine ⟨{ previous with done := true }, ?_, hdone.symm⟩
            simp [lookup_store]
          · intro call hcall
            obtain ⟨item, hitem, hfinished⟩ := hs id call hcall
            obtain rfl := Option.some.inj (hprevious.symm.trans hitem)
            refine ⟨hdone, Bool.eq_false_iff.mpr fun hcallDone => ?_⟩
            exact Bool.false_ne_true (hopen.symm.trans (hfinished hcallDone))
  · next hnone =>
      cases h
      refine ⟨rfl, ?_, ⟨⟨outputIndex, kind, done⟩, by simp [lookup_store], rfl⟩, ?_⟩
      · intro other call hcall
        obtain ⟨item, hitem, hfinished⟩ := hs other call hcall
        have hne : id ≠ other := by
          rintro rfl
          cases hnone.symm.trans hitem
        exact ⟨item, by simp [lookup_store, hne, hitem], hfinished⟩
      · intro call hcall
        obtain ⟨item, hitem, -⟩ := hs id call hcall
        cases hnone.symm.trans hitem

/-! ## Handlers that leave the calls alone -/

/-- The calls and the items stay, and no fragment is streamed. -/
structure Quiet (s t : ResponsesStreamParser) (events : List StreamEvent) : Prop where
  calls : t.calls = s.calls
  items : t.items = s.items
  silent : fragments events = []

theorem Quiet.linked {s t : ResponsesStreamParser} {events : List StreamEvent}
    (h : Quiet s t events) (hs : Linked s) : Linked t := by
  intro id call hcall
  rw [h.calls] at hcall
  rw [h.items]
  exact hs id call hcall

theorem contentPartEvent_quiet {s t : ResponsesStreamParser} {frame : Value} {done : Bool}
    {events : List StreamEvent} (h : s.contentPartEvent frame done = .ok (events, t)) :
    Quiet s t events := by
  simp only [ResponsesStreamParser.contentPartEvent, bind_eq_ok] at h
  obtain ⟨itemId, -, outputIndex, -, contentIndex, -, h⟩ := h
  split at h
  · cases h
  · split at h
    · cases h
    · split at h
      · split at h
        · cases h
        · cases h
          exact ⟨rfl, rfl, rfl⟩
      · cases h
        exact ⟨rfl, rfl, rfl⟩

theorem textDelta_quiet {s t : ResponsesStreamParser} {frame : Value} {events : List StreamEvent}
    (h : s.textDelta frame = .ok (events, t)) : Quiet s t events := by
  simp only [ResponsesStreamParser.textDelta, bind_eq_ok, pure_eq_ok] at h
  obtain ⟨-, -, delta, -, hpair⟩ := h
  obtain ⟨rfl, rfl⟩ := Prod.mk.inj hpair
  refine ⟨rfl, rfl, ?_⟩
  split <;> rfl

theorem textDone_quiet {s t : ResponsesStreamParser} {frame : Value} {key : String}
    {events : List StreamEvent} (h : s.textDone frame key = .ok (events, t)) :
    Quiet s t events := by
  simp only [ResponsesStreamParser.textDone, bind_eq_ok, pure_eq_ok] at h
  obtain ⟨-, -, text, -, hpair⟩ := h
  obtain ⟨rfl, rfl⟩ := Prod.mk.inj hpair
  exact ⟨rfl, rfl, rfl⟩

theorem annotation_quiet {s t : ResponsesStreamParser} {frame : Value} {events : List StreamEvent}
    (h : s.annotation frame = .ok (events, t)) : Quiet s t events := by
  simp only [ResponsesStreamParser.annotation, bind_eq_ok, pure_eq_ok] at h
  obtain ⟨-, -, index, -, -, -, hpair⟩ := h
  obtain ⟨rfl, rfl⟩ := Prod.mk.inj hpair
  exact ⟨rfl, rfl, rfl⟩

theorem summaryPart_quiet {s t : ResponsesStreamParser} {frame : Value}
    {events : List StreamEvent} (h : s.summaryPart frame = .ok (events, t)) :
    Quiet s t events := by
  simp only [ResponsesStreamParser.summaryPart, bind_eq_ok, pure_eq_ok] at h
  obtain ⟨itemId, -, outputIndex, -, index, -, -, -, hpair⟩ := h
  obtain ⟨rfl, rfl⟩ := Prod.mk.inj hpair
  exact ⟨rfl, rfl, rfl⟩

theorem reasoningEvent_quiet {s t : ResponsesStreamParser} {frame : Value} {content done : Bool}
    {events : List StreamEvent} (h : s.reasoningEvent frame content done = .ok (events, t)) :
    Quiet s t events := by
  simp only [ResponsesStreamParser.reasoningEvent, bind_eq_ok] at h
  obtain ⟨itemId, -, outputIndex, -, index, -, payload, -, h⟩ := h
  split at h
  · cases h
    exact ⟨rfl, rfl, rfl⟩
  · rw [pure_eq_ok, Prod.mk.injEq] at h
    obtain ⟨rfl, rfl⟩ := h
    unfold ResponsesStreamParser.block
    dsimp only
    split <;> exact ⟨rfl, rfl, rfl⟩

theorem bindResponse_quiet {s t : ResponsesStreamParser} {response : Option Value}
    (h : s.bindResponse response = .ok t) : Quiet s t [] := by
  unfold ResponsesStreamParser.bindResponse at h
  split at h
  · cases h
  · split at h
    · cases h
    · split at h
      · split at h
        · cases h
        · cases h
          exact ⟨rfl, rfl, rfl⟩
      · cases h
        exact ⟨rfl, rfl, rfl⟩

theorem bound_quiet {s t : ResponsesStreamParser} {response : Option Value}
    {events : List StreamEvent}
    (h : (do let s ← s.bindResponse response; return ([], s) : Read) = .ok (events, t)) :
    Quiet s t events := by
  simp only [bind_eq_ok, pure_eq_ok] at h
  obtain ⟨u, hbind, hpair⟩ := h
  obtain ⟨rfl, rfl⟩ := Prod.mk.inj hpair
  exact bindResponse_quiet hbind

theorem terminal_quiet {s t : ResponsesStreamParser} {frame : Value} {status : String}
    {events : List StreamEvent} (h : s.terminal frame status = .ok (events, t)) :
    Quiet s t events := by
  simp only [ResponsesStreamParser.terminal, bind_eq_ok, pure_eq_ok] at h
  obtain ⟨u, hbind, -, -, parsed, -, hpair⟩ := h
  obtain ⟨rfl, rfl⟩ := Prod.mk.inj hpair
  have hquiet := bindResponse_quiet hbind
  exact ⟨hquiet.calls, hquiet.items, rfl⟩

theorem failure_quiet {s t : ResponsesStreamParser} {frame error : Value}
    {events : List StreamEvent} (h : s.failure frame error = .ok (events, t)) :
    Quiet s t events := by
  simp only [ResponsesStreamParser.failure, bind_eq_ok, pure_eq_ok] at h
  obtain ⟨u, hbind, hpair⟩ := h
  obtain ⟨rfl, rfl⟩ := Prod.mk.inj hpair
  have hquiet : Quiet s u [] := by
    unfold ResponsesStreamParser.bindFailed at hbind
    split at hbind
    · exact bindResponse_quiet hbind
    · cases hbind
      exact ⟨rfl, rfl, rfl⟩
  refine ⟨hquiet.calls, hquiet.items, ?_⟩
  unfold ResponsesStreamParser.failureUsage
  split
  · split <;> rfl
  · rfl

/-! ## Handlers of calls -/

/-- What a call item does once its item is recorded. -/
theorem callEvent_handled {s t : ResponsesStreamParser} {id callId name : String}
    {arguments : Option String} {done : Bool} {events : List StreamEvent} (hs : Linked s)
    (hitem : ∃ item, lookup id s.items = some item ∧ item.done = done)
    (hopen : ∀ call, lookup id s.calls = some call → done = true ∧ call.done = false)
    (h : s.callEvent id callId name arguments done = .ok (events, t)) :
    CallStep s t (fragments events) ∧ Linked t ∧
      ∃ call, lookup id t.calls = some call ∧ call.emitted = arguments.getD "" ∧
        (done = true → arguments.isSome = true ∧ call.done = true) := by
  obtain ⟨item, hitem, hfinished⟩ := hitem
  unfold ResponsesStreamParser.callEvent at h
  split at h
  · cases h
  · next hgiven =>
      have hsome : done = true → arguments.isSome = true := by
        intro hdone
        cases arguments with
        | some arguments => rfl
        | none => simp [hdone] at hgiven
      dsimp only at h
      split at h
      · next call hcall =>
          split at h
          · cases h
          · simp only [bind_eq_ok, pure_eq_ok] at h
            obtain ⟨⟨event, next⟩, hsettle, hpair⟩ := h
            obtain ⟨rfl, rfl⟩ := Prod.mk.inj hpair
            obtain ⟨rest, hextends, hemitted, -, hfragments⟩ := settleArguments_extends hsettle
            obtain ⟨hdone, hunfinished⟩ := hopen call hcall
            refine ⟨?_, linked_store hs rfl rfl ⟨item, hitem, fun _ => hfinished.trans hdone⟩,
              { next with done := true }, by simp [lookup_store], hemitted, fun hdone =>
                ⟨hsome hdone, rfl⟩⟩
            rw [hfragments]
            exact @CallStep.extended _ _ id rest call { next with done := true } hcall hunfinished
              ⟨hextends.ordinal, hextends.callId, hextends.name, hextends.emitted⟩ rfl
      · next hnew =>
          split at h
          · cases h
            exact ⟨@CallStep.opened _ _ id ⟨s.calls.length, callId, name, arguments.getD "", done⟩
                hnew rfl rfl,
              linked_store hs rfl rfl ⟨item, hitem, fun hdone => hfinished.trans hdone⟩,
              ⟨s.calls.length, callId, name, arguments.getD "", done⟩, by simp [lookup_store], rfl,
              fun hdone => ⟨hsome hdone, hdone⟩⟩
          · cases h

/-- The arguments read off a call item are those its text states. -/
theorem outputItem_arguments {raw : Value} {callId name : String} {arguments : Option String}
    (h : outputItem raw = .ok (.functionCall callId name arguments)) :
    (raw.get "arguments").bind Value.asStr = arguments := by
  unfold outputItem at h
  split at h
  · split at h
    · cases h
    · simp only [bind_eq_ok, pure_eq_ok] at h
      obtain ⟨texts, -, h⟩ := h
      cases h
  · simp only [bind_eq_ok, pure_eq_ok] at h
    obtain ⟨callId', -, name', -, arguments', harguments, h⟩ := h
    cases h
    unfold itemArguments at harguments
    split at harguments
    · next hnone =>
        cases harguments
        rw [hnone]
        rfl
    · next text htext =>
        cases harguments
        rw [htext]
        rfl
    · cases harguments
  · simp only [bind_eq_ok, pure_eq_ok] at h
    obtain ⟨summary, -, content, -, h⟩ := h
    cases h
  · cases h
  · cases h

theorem outputItemEvent_handled {s t : ResponsesStreamParser} {frame : Value} {done : Bool}
    {events : List StreamEvent} (hs : Linked s)
    (hdone : (frame.get "type").bind Value.asStr =
      some (if done then "response.output_item.done" else "response.output_item.added"))
    (h : s.outputItemEvent frame done = .ok (events, t)) :
    Handled s t frame (fragments events) := by
  rw [ResponsesStreamParser.outputItemEvent, bind_eq_ok] at h
  obtain ⟨outputIndex, -, h⟩ := h
  split at h
  · cases h
  · next raw hraw =>
      rw [bind_eq_ok] at h
      obtain ⟨parsed, hparsed, h⟩ := h
      split at h
      · cases h
      · next id hid =>
          rw [bind_eq_ok] at h
          obtain ⟨u, hrecord, h⟩ := h
          obtain ⟨hcalls, hlinked, hitem, hopen⟩ := recordItem_linked hs hrecord
          have hidText : (raw.get "id").bind Value.asStr = some id :=
            (Option.filter_eq_some_iff.mp hid).1
          split at h
          · next callId name arguments =>
              rw [← hcalls] at hopen
              obtain ⟨hstep, hlinked', call, hcall, hemitted, hfinished⟩ :=
                callEvent_handled hlinked hitem hopen h
              cases done with
              | false =>
                  refine ⟨hstep.of_calls hcalls, hlinked', ?_, ?_⟩
                  · intro id' arguments' hstated
                    rw [statedArguments, hdone] at hstated
                    cases hstated
                  · intro hfinishes
                    rw [finishesItem, hdone] at hfinishes
                    exact absurd hfinishes (by decide)
              | true =>
                  obtain ⟨hsome, hcallDone⟩ := hfinished rfl
                  obtain ⟨text, rfl⟩ := Option.isSome_iff_exists.mp hsome
                  have hvalue : statedArguments frame = some (id, text) := by
                    rw [statedArguments_item hraw hdone,
                      if_pos ((outputItem_ok hparsed).mpr ⟨_, _, _, rfl⟩), hidText,
                      outputItem_arguments hparsed]
                    rfl
                  refine ⟨hstep.of_calls hcalls, hlinked', ?_, fun _ _ => by rw [hvalue]; rfl⟩
                  intro id' arguments' hstated
                  rw [hvalue] at hstated
                  obtain ⟨rfl, rfl⟩ := Prod.mk.inj (Option.some.inj hstated)
                  exact ⟨call, hcall, hemitted, fun _ => hcallDone⟩
          · next hother =>
              rw [pure_eq_ok, Prod.mk.injEq] at h
              obtain ⟨rfl, rfl⟩ := h
              have hnot : isCallItem raw = false := by
                rw [← Bool.not_eq_true, outputItem_ok hparsed]
                rintro ⟨callId, name, arguments, rfl⟩
                exact hother _ _ _ rfl
              refine ⟨.kept hcalls, hlinked, ?_, fun _ hany => ?_⟩
              rotate_left
              · rw [hraw, Option.any_some, hnot] at hany
                cases hany
              intro id' arguments' hstated
              cases done with
              | false =>
                  rw [statedArguments, hdone] at hstated
                  cases hstated
              | true =>
                  have hvalue : statedArguments frame = none := by
                    rw [statedArguments_item hraw hdone, hnot, if_neg Bool.false_ne_true]
                  cases hvalue.symm.trans hstated

theorem argumentsEvent_handled {s t : ResponsesStreamParser} {frame : Value} {done : Bool}
    {events : List StreamEvent} (hs : Linked s)
    (hdone : (frame.get "type").bind Value.asStr = some (if done then
      "response.function_call_arguments.done" else "response.function_call_arguments.delta"))
    (h : s.argumentsEvent frame done = .ok (events, t)) :
    Handled s t frame (fragments events) := by
  simp only [ResponsesStreamParser.argumentsEvent, bind_eq_ok] at h
  obtain ⟨itemId, hitemId, outputIndex, -, payload, hpayload, h⟩ := h
  have hid : (frame.get "item_id").bind Value.asStr = some itemId := by
    unfold itemIdOf at hitemId
    split at hitemId
    · next id hid =>
        cases hitemId
        exact (Option.filter_eq_some_iff.mp hid).1
    · cases hitemId
  have htext : (frame.get (if done then "arguments" else "delta")).bind Value.asStr =
      some payload := by
    unfold textOf at hpayload
    split at hpayload
    · next text htext =>
        cases hpayload
        exact htext
    · cases hpayload
  -- What the table holds for the call keeps its item unfinished or not as it was.
  have hkeeps : ∀ call next, lookup itemId s.calls = some call → next.done = call.done →
      ∀ u, u.calls = store itemId next s.calls → u.items = s.items → Linked u := by
    intro call next hcall hsame u hcalls hitems
    obtain ⟨item, hitem, hfinished⟩ := hs itemId call hcall
    exact linked_store hs hcalls hitems
      ⟨item, hitem, fun hnext => hfinished (hsame.symm.trans hnext)⟩
  split at h
  · cases h
  · next call hcall =>
      split at h
      · cases h
      · next hopen =>
          have hunfinished := Bool.eq_false_iff.mpr hopen
          cases done with
          | true =>
              simp only [if_true, bind_eq_ok, pure_eq_ok] at h
              obtain ⟨-, -, ⟨event, next⟩, hsettle, hpair⟩ := h
              obtain ⟨rfl, rfl⟩ := Prod.mk.inj hpair
              obtain ⟨rest, hextends, hemitted, hsame, hfragments⟩ :=
                settleArguments_extends hsettle
              have hgoesOn : finishesItem frame = false := by
                rw [finishesItem, hdone]
                decide
              refine ⟨?_, hkeeps call next hcall hsame _ rfl rfl, ?_, fun hfinishes =>
                by cases hgoesOn.symm.trans hfinishes⟩
              · rw [hfragments]
                exact .extended hcall hunfinished hextends rfl
              · intro id arguments hstated
                have hvalue : statedArguments frame = some (itemId, payload) := by
                  rw [if_pos rfl] at htext
                  simp [statedArguments, hdone, hid, htext]
                rw [hvalue] at hstated
                obtain ⟨rfl, rfl⟩ := Prod.mk.inj (Option.some.inj hstated)
                exact ⟨next, by simp [lookup_store], hemitted, fun hfinishes =>
                  by cases hgoesOn.symm.trans hfinishes⟩
          | false =>
              have hquiet : statedArguments frame = none := by
                rw [statedArguments, hdone]
                rfl
              have hsettles : ∀ u, Settles frame u := fun u id arguments hstated =>
                by cases hquiet.symm.trans hstated
              have hgoesOn : finishesItem frame = true → (frame.get "item").any isCallItem = true →
                  (statedArguments frame).isSome = true := by
                intro hfinishes
                rw [finishesItem, hdone] at hfinishes
                exact absurd hfinishes (by decide)
              simp only [Bool.false_eq_true, if_false] at h
              split at h
              · cases h
                exact ⟨.kept rfl, hs, hsettles _, hgoesOn⟩
              · next hpayload =>
                  cases h
                  let next : CallState := { call with emitted := call.emitted ++ payload }
                  refine ⟨?_, hkeeps call next hcall rfl _ rfl rfl, hsettles _, hgoesOn⟩
                  have hstep : CallStep s _ _ := @CallStep.extended s
                    { s with calls := store itemId next s.calls } itemId payload call next hcall
                    hunfinished ⟨rfl, rfl, rfl, rfl⟩ rfl
                  rwa [if_neg hpayload] at hstep

end TokenStation.Provider.ResponsesApi
