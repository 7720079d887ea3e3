import TokenStation.Provider.CallArguments
import TokenStation.Provider.AcceptedFrames

/-!
# Streamed calls

Over a whole stream the calls are numbered as they appear, only the first fragment of a
call names it, and the fragments of a call join to what the parser keeps for it.
-/

namespace TokenStation.Provider.ResponsesApi

open Library Library.ChunkedReading Library.Checked Library.Json Library.Gathering Responses Sse

/-! ## One frame -/

theorem Quiet.handled {s t : ResponsesStreamParser} {frame : Value} {events : List StreamEvent}
    (h : Quiet s t events) (hs : Linked s) (hunstated : statedArguments frame = none)
    (hgoesOn : finishesItem frame = false) : Handled s t frame (fragments events) where
  step := by
    rw [h.silent]
    exact .kept h.calls
  linked := h.linked hs
  settles _ _ hstated := by cases hunstated.symm.trans hstated
  stated hfinishes := by cases hgoesOn.symm.trans hfinishes

theorem dispatch_handled {s t : ResponsesStreamParser} {frame : Value} {kind : String}
    {events : List StreamEvent} (hs : Linked s)
    (hkind : (frame.get "type").bind Value.asStr = some kind)
    (h : s.dispatch kind frame = .ok (events, t)) : Handled s t frame (fragments events) := by
  have hquiet : kind ∉ ["response.function_call_arguments.done", "response.output_item.done"] →
      Quiet s t events → Handled s t frame (fragments events) := by
    intro hnot hquiet
    refine hquiet.handled hs ?_ ?_
    · unfold statedArguments
      rw [hkind]
      split
      · next heq => exact absurd (Option.some.inj heq) (fun h => hnot (by simp [h]))
      · next heq => exact absurd (Option.some.inj heq) (fun h => hnot (by simp [h]))
      · rfl
    · rw [finishesItem, hkind, beq_eq_false_iff_ne]
      exact fun heq => hnot (by simp [Option.some.inj heq])
  unfold ResponsesStreamParser.dispatch at h
  split at h
  · exact hquiet (by decide) (bound_quiet h)
  · exact hquiet (by decide) (bound_quiet h)
  · exact hquiet (by decide) (bound_quiet h)
  · exact hquiet (by decide) (terminal_quiet h)
  · exact hquiet (by decide) (terminal_quiet h)
  · exact @outputItemEvent_handled s t frame false events hs hkind h
  · exact @outputItemEvent_handled s t frame true events hs hkind h
  · exact hquiet (by decide) (contentPartEvent_quiet h)
  · exact hquiet (by decide) (contentPartEvent_quiet h)
  · exact hquiet (by decide) (textDelta_quiet h)
  · exact hquiet (by decide) (textDelta_quiet h)
  · exact hquiet (by decide) (textDone_quiet h)
  · exact hquiet (by decide) (textDone_quiet h)
  · exact hquiet (by decide) (annotation_quiet h)
  · exact @argumentsEvent_handled s t frame false events hs hkind h
  · exact @argumentsEvent_handled s t frame true events hs hkind h
  · exact hquiet (by decide) (summaryPart_quiet h)
  · exact hquiet (by decide) (summaryPart_quiet h)
  · exact hquiet (by decide) (reasoningEvent_quiet h)
  · exact hquiet (by decide) (reasoningEvent_quiet h)
  · exact hquiet (by decide) (reasoningEvent_quiet h)
  · exact hquiet (by decide) (reasoningEvent_quiet h)
  · cases h

theorem checkSequence_quiet {s t : ResponsesStreamParser} {frame : Value}
    (h : s.checkSequence frame = .ok t) : Quiet s t [] := by
  simp only [ResponsesStreamParser.checkSequence, bind_eq_ok, pure_eq_ok] at h
  obtain ⟨sequence, -, -, -, rfl⟩ := h
  exact ⟨rfl, rfl, rfl⟩

variable {packages : Packages}

/-- A frame that reports a failure leaves the calls alone; any other is handled. -/
theorem frame_handled {s t : ResponsesStreamParser} {sse : SseFrameV1} {events : List StreamEvent}
    (hs : Linked s) (h : frame packages s sse = .ok (events, t)) :
    ∃ parsed, packages.fromStr sse.data = some parsed ∧
      (Quiet s t events ∨ failureOf parsed = none ∧ Handled s t parsed (fragments events)) ∧
      (failureOf parsed = none → Handled s t parsed (fragments events)) := by
  unfold frame at h
  split at h
  · cases h
  · next parsed hparsed =>
      refine ⟨parsed, hparsed, ?_⟩
      unfold readFrame at h
      split at h
      · cases h
      · dsimp only at h
        split at h
        · split at h <;> cases h
        · split at h
          · cases h
          · split at h
            · next hfailure =>
                exact ⟨.inl (failure_quiet h), fun hnone => by cases hnone.symm.trans hfailure⟩
            · next hnone =>
                have hhandled : Handled s t parsed (fragments events) := by
                  unfold numbered at h
                  split at h
                  · cases h
                  · next kind hkind =>
                      split at h
                      · cases h
                      · rw [bind_eq_ok] at h
                        obtain ⟨u, hsequence, h⟩ := h
                        have hquiet := checkSequence_quiet hsequence
                        have hdispatch := dispatch_handled (hquiet.linked hs) hkind h
                        exact ⟨hdispatch.step.of_calls hquiet.calls, hdispatch.linked,
                          hdispatch.settles, hdispatch.stated⟩
                exact ⟨.inr ⟨hnone, hhandled⟩, fun _ => hhandled⟩

theorem frame_step {s t : ResponsesStreamParser} {sse : SseFrameV1} {events : List StreamEvent}
    (hs : Linked s) (h : frame packages s sse = .ok (events, t)) :
    CallStep s t (fragments events) ∧ Linked t := by
  obtain ⟨parsed, -, hquiet | ⟨-, hhandled⟩, -⟩ := frame_handled hs h
  · rw [hquiet.silent]
    exact ⟨.kept hquiet.calls, hquiet.linked hs⟩
  · exact ⟨hhandled.step, hhandled.linked⟩

/-! ## Bookkeeping -/

/-- The first fragment of a call names it, and no other does. -/
def NamedFirst (calls : List (String × CallState)) (streamed : List Fragment) : Prop :=
  ∀ before fragment after, streamed = before ++ fragment :: after →
    if fragment.ordinal ∈ before.map (·.ordinal) then fragment.id = none ∧ fragment.name = none
    else ∃ id call, lookup id calls = some call ∧ call.ordinal = fragment.ordinal ∧
      fragment.id = some call.callId ∧ fragment.name = some call.name

/-- The calls of a parser are those of the fragments it has streamed. -/
structure Bookkeeping (calls : List (String × CallState)) (streamed : List Fragment) : Prop where
  ordinals : (streamed.map (·.ordinal)).eraseDups = List.range calls.length
  named : NamedFirst calls streamed
  bounded : ∀ id call, lookup id calls = some call → call.ordinal < calls.length
  distinct : ∀ id call other call', lookup id calls = some call → lookup other calls = some call' →
    call.ordinal = call'.ordinal → id = other
  emitted : ∀ id call, lookup id calls = some call →
    gather call.ordinal (marked streamed) = call.emitted

theorem bookkeeping_nil : Bookkeeping [] [] where
  ordinals := rfl
  named before fragment after hsplit := absurd hsplit (by simp)
  bounded id call hcall := by cases hcall
  distinct id call other call' hcall := by cases hcall
  emitted id call hcall := by cases hcall

theorem length_store_new {key : String} {value : CallState} {entries : List (String × CallState)}
    (h : lookup key entries = none) : (store key value entries).length = entries.length + 1 := by
  induction entries with
  | nil => rfl
  | cons e entries ih =>
      obtain ⟨k, v⟩ := e
      rw [lookup] at h
      split at h
      · cases h
      · next hne => rw [store, if_neg hne, List.length_cons, ih h, List.length_cons]

theorem length_store_known {key : String} {value old : CallState}
    {entries : List (String × CallState)} (h : lookup key entries = some old) :
    (store key value entries).length = entries.length := by
  induction entries with
  | nil => cases h
  | cons e entries ih =>
      obtain ⟨k, v⟩ := e
      rw [lookup] at h
      rw [store]
      split at h
      · next heq => rw [if_pos heq, List.length_cons, List.length_cons]
      · next hne => rw [if_neg hne, List.length_cons, ih h, List.length_cons]

theorem Bookkeeping.mem_ordinals {calls : List (String × CallState)} {streamed : List Fragment}
    (h : Bookkeeping calls streamed) (ordinal : Nat) :
    ordinal ∈ streamed.map (·.ordinal) ↔ ordinal < calls.length := by
  rw [← List.mem_eraseDups, h.ordinals, List.mem_range]

/-- Naming is kept when a fragment comes that follows the rule and every call keeps its name. -/
theorem NamedFirst.snoc {calls calls' : List (String × CallState)} {streamed : List Fragment}
    (h : NamedFirst calls streamed)
    (hkept : ∀ id call, lookup id calls = some call → ∃ call', lookup id calls' = some call' ∧
      call'.ordinal = call.ordinal ∧ call'.callId = call.callId ∧ call'.name = call.name)
    {fragment : Fragment}
    (hlast : if fragment.ordinal ∈ streamed.map (·.ordinal) then
        fragment.id = none ∧ fragment.name = none
      else ∃ id call, lookup id calls' = some call ∧ call.ordinal = fragment.ordinal ∧
        fragment.id = some call.callId ∧ fragment.name = some call.name) :
    NamedFirst calls' (streamed ++ [fragment]) := by
  intro before f after hsplit
  rcases List.eq_nil_or_concat after with rfl | ⟨front, last, rfl⟩
  · obtain ⟨rfl, hf⟩ := List.append_inj' hsplit rfl
    obtain rfl := (List.cons.inj hf).1
    exact hlast
  · rw [List.concat_eq_append, ← List.cons_append, ← List.append_assoc] at hsplit
    obtain ⟨hfront, -⟩ := List.append_inj' hsplit rfl
    have hrule := h before f front hfront
    split
    · next hmem => rwa [if_pos hmem] at hrule
    · next hmem =>
        rw [if_neg hmem] at hrule
        obtain ⟨id, call, hcall, hordinal, hid, hname⟩ := hrule
        obtain ⟨call', hcall', hordinal', hid', hname'⟩ := hkept id call hcall
        exact ⟨id, call', hcall', hordinal'.trans hordinal, hid'.symm ▸ hid, hname'.symm ▸ hname⟩

theorem NamedFirst.of_kept {calls calls' : List (String × CallState)} {streamed : List Fragment}
    (h : NamedFirst calls streamed)
    (hkept : ∀ id call, lookup id calls = some call → ∃ call', lookup id calls' = some call' ∧
      call'.ordinal = call.ordinal ∧ call'.callId = call.callId ∧ call'.name = call.name) :
    NamedFirst calls' streamed := by
  intro before f after hsplit
  have hrule := h before f after hsplit
  split
  · next hmem => rwa [if_pos hmem] at hrule
  · next hmem =>
      rw [if_neg hmem] at hrule
      obtain ⟨id, call, hcall, hordinal, hid, hname⟩ := hrule
      obtain ⟨call', hcall', hordinal', hid', hname'⟩ := hkept id call hcall
      exact ⟨id, call', hcall', hordinal'.trans hordinal, hid'.symm ▸ hid, hname'.symm ▸ hname⟩

theorem marked_snoc (streamed : List Fragment) (fragment : Fragment) :
    marked (streamed ++ [fragment]) = marked streamed ++ [(fragment.ordinal, fragment.arguments)] := by
  rw [marked_append]
  rfl

/-- Opening a call. -/
theorem Bookkeeping.opened {calls : List (String × CallState)} {streamed : List Fragment}
    (h : Bookkeeping calls streamed) {id : String} {call : CallState}
    (hnew : lookup id calls = none) (hordinal : call.ordinal = calls.length) :
    Bookkeeping (store id call calls)
      (streamed ++ [⟨call.ordinal, some call.callId, some call.name, call.emitted⟩]) := by
  have hlookup : ∀ other state, lookup other (store id call calls) = some state →
      other = id ∧ state = call ∨ other ≠ id ∧ lookup other calls = some state := by
    intro other state hstate
    rw [lookup_store] at hstate
    split at hstate
    · next heq => exact .inl ⟨heq.symm, (Option.some.inj hstate).symm⟩
    · next hne => exact .inr ⟨fun heq => hne heq.symm, hstate⟩
  have hfresh : call.ordinal ∉ streamed.map (·.ordinal) := by
    rw [h.mem_ordinals, hordinal]
    exact Nat.lt_irrefl _
  refine ⟨?_, ?_, ?_, ?_, ?_⟩
  · rw [List.map_append, List.map_singleton, eraseDups_snoc, if_neg hfresh, h.ordinals,
      length_store_new hnew, List.range_succ, hordinal]
  · refine h.named.snoc (fun other state hstate => ?_) ?_
    · have hne : id ≠ other := by
        rintro rfl
        cases hnew.symm.trans hstate
      exact ⟨state, by simp [lookup_store, hne, hstate], rfl, rfl, rfl⟩
    · rw [if_neg hfresh]
      exact ⟨id, call, by simp [lookup_store], rfl, rfl, rfl⟩
  · intro other state hstate
    rw [length_store_new hnew]
    rcases hlookup other state hstate with ⟨-, rfl⟩ | ⟨-, hold⟩
    · omega
    · exact Nat.lt_succ_of_lt (h.bounded other state hold)
  · intro first state other state' hfirst hother hsame
    rcases hlookup first state hfirst with ⟨rfl, rfl⟩ | ⟨-, hold⟩
    · rcases hlookup other state' hother with ⟨rfl, -⟩ | ⟨-, hold'⟩
      · rfl
      · have hbound := h.bounded other state' hold'
        omega
    · rcases hlookup other state' hother with ⟨rfl, rfl⟩ | ⟨-, hold'⟩
      · have hbound := h.bounded first state hold
        omega
      · exact h.distinct first state other state' hold hold' hsame
  · intro other state hstate
    rw [marked_snoc, gather_snoc]
    rcases hlookup other state hstate with ⟨-, rfl⟩ | ⟨-, hold⟩
    · have hnone : gather state.ordinal (marked streamed) = "" := by
        refine gather_of_notMem fun m hm heq => hfresh ?_
        obtain ⟨fragment, hfragment, rfl⟩ := List.mem_map.mp hm
        exact List.mem_map.mpr ⟨fragment, hfragment, heq⟩
      rw [if_pos rfl, hnone, String.empty_append]
    · have hbound := h.bounded other state hold
      rw [if_neg (show call.ordinal ≠ state.ordinal by omega), h.emitted other state hold]

/-- Going on with a call. -/
theorem Bookkeeping.extended {calls : List (String × CallState)} {streamed : List Fragment}
    (h : Bookkeeping calls streamed) {id rest : String} {call next : CallState}
    (hcall : lookup id calls = some call) (hnext : Extends call next rest) :
    Bookkeeping (store id next calls) (streamed ++
      if rest.isEmpty then [] else [⟨call.ordinal, none, none, rest⟩]) := by
  have hlookup : ∀ other state, lookup other (store id next calls) = some state →
      ∃ old, lookup other calls = some old ∧ state.ordinal = old.ordinal ∧
        (other = id ∧ state = next ∨ other ≠ id ∧ state = old) := by
    intro other state hstate
    rw [lookup_store] at hstate
    split at hstate
    · next heq =>
        subst heq
        obtain rfl := Option.some.inj hstate
        exact ⟨call, hcall, hnext.ordinal, .inl ⟨rfl, rfl⟩⟩
    · next hne => exact ⟨state, hstate, rfl, .inr ⟨fun heq => hne heq.symm, rfl⟩⟩
  have hkept : ∀ other state, lookup other calls = some state → ∃ state',
      lookup other (store id next calls) = some state' ∧ state'.ordinal = state.ordinal ∧
        state'.callId = state.callId ∧ state'.name = state.name := by
    intro other state hstate
    by_cases heq : id = other
    · subst heq
      obtain rfl := Option.some.inj (hcall.symm.trans hstate)
      exact ⟨next, by simp [lookup_store], hnext.ordinal, hnext.callId, hnext.name⟩
    · exact ⟨state, by simp [lookup_store, heq, hstate], rfl, rfl, rfl⟩
  have hold : call.ordinal ∈ streamed.map (·.ordinal) := by
    rw [h.mem_ordinals]
    exact h.bounded id call hcall
  -- The fragment, if there is one, adds the rest to the arguments of its call alone.
  have hgather : ∀ ordinal, gather ordinal (marked (streamed ++
      if rest.isEmpty then [] else [⟨call.ordinal, none, none, rest⟩])) =
      if call.ordinal = ordinal then gather ordinal (marked streamed) ++ rest
      else gather ordinal (marked streamed) := by
    intro ordinal
    split
    · next hempty =>
        rw [List.append_nil, String.isEmpty_iff.mp hempty, String.append_empty, ite_self]
    · rw [marked_snoc, gather_snoc]
  refine ⟨?_, ?_, ?_, ?_, ?_⟩
  · rw [length_store_known hcall, ← h.ordinals]
    split
    · rw [List.append_nil]
    · rw [List.map_append, List.map_singleton, eraseDups_snoc, if_pos hold, List.append_nil]
  · split
    · rw [List.append_nil]
      exact h.named.of_kept hkept
    · refine h.named.snoc hkept ?_
      rw [if_pos hold]
      exact ⟨rfl, rfl⟩
  · intro other state hstate
    obtain ⟨old, hlook, hordinal, -⟩ := hlookup other state hstate
    rw [length_store_known hcall, hordinal]
    exact h.bounded other old hlook
  · intro first state other state' hfirst hother hsame
    obtain ⟨old, hlook, hordinal, -⟩ := hlookup first state hfirst
    obtain ⟨old', hlook', hordinal', -⟩ := hlookup other state' hother
    exact h.distinct first old other old' hlook hlook' (by rw [← hordinal, hsame, hordinal'])
  · intro other state hstate
    rw [hgather]
    obtain ⟨old, hlook, hordinal, ⟨rfl, rfl⟩ | ⟨hne, rfl⟩⟩ := hlookup other state hstate
    · obtain rfl := Option.some.inj (hcall.symm.trans hlook)
      rw [if_pos hordinal.symm, hordinal, h.emitted other call hlook, hnext.emitted]
    · rw [if_neg, h.emitted other state hlook]
      exact fun heq => hne (h.distinct id call other state hcall hlook heq).symm

theorem CallStep.keeps {s t : ResponsesStreamParser} {now streamed : List Fragment}
    (h : CallStep s t now) (hs : Bookkeeping s.calls streamed) :
    Bookkeeping t.calls (streamed ++ now) := by
  cases h with
  | kept hcalls =>
      rw [hcalls, List.append_nil]
      exact hs
  | opened hnew hordinal hcalls =>
      rw [hcalls]
      exact hs.opened hnew hordinal
  | extended hcall hopen hnext hcalls =>
      rw [hcalls]
      exact hs.extended hcall hnext

/-- A finished call stays as it is and gets no fragment. -/
theorem CallStep.finished {s t : ResponsesStreamParser} {now streamed : List Fragment}
    (h : CallStep s t now) (hs : Bookkeeping s.calls streamed) {id : String} {call : CallState}
    (hcall : lookup id s.calls = some call) (hdone : call.done = true) :
    lookup id t.calls = some call ∧ ∀ fragment ∈ now, fragment.ordinal ≠ call.ordinal := by
  cases h with
  | kept hcalls => exact ⟨hcalls ▸ hcall, fun _ hmem => absurd hmem List.not_mem_nil⟩
  | @opened other opening hnew hordinal hcalls =>
      have hne : other ≠ id := by
        rintro rfl
        cases hnew.symm.trans hcall
      refine ⟨by rw [hcalls, lookup_store, if_neg hne, hcall], fun fragment hmem heq => ?_⟩
      obtain rfl := List.mem_singleton.mp hmem
      have hbound := hs.bounded id call hcall
      dsimp only at heq
      omega
  | @extended other rest old next hold hopen hnext hcalls =>
      have hne : other ≠ id := by
        rintro rfl
        obtain rfl := Option.some.inj (hold.symm.trans hcall)
        exact Bool.false_ne_true (hopen.symm.trans hdone)
      refine ⟨by rw [hcalls, lookup_store, if_neg hne, hcall], fun fragment hmem heq => ?_⟩
      split at hmem
      · exact absurd hmem List.not_mem_nil
      · obtain rfl := List.mem_singleton.mp hmem
        exact hne (hs.distinct other old id call hold hcall heq)

end TokenStation.Provider.ResponsesApi
