import Mathlib

/-!
# Programs interleaved over an atomic store

A program calls effects one after another and sees only their replies. Runs of
programs share a store; each effect takes place in it at one moment, and the
steps of all runs interleave freely. Any call may fail before or after its
effect took place, and any run may be dropped at any moment.
-/

namespace TokenStation.Library.Interleaving

/-- A program that calls effects and ends with a result. -/
inductive Program {E : Type} (Reply : E → Type) (ε α : Type) where
  | done (result : α)
  | call (e : E) (next : Except ε (Reply e) → Program Reply ε α)

/-- What happens in a system of runs. -/
inductive Event (ι : Type) {E : Type} (Reply : E → Type) (ε : Type) where
  | called (i : ι) (e : E)
  | took (i : ι) (e : E) (reply : Reply e)
  | replied (i : ι) (e : E) (reply : Except ε (Reply e))

/-- Where a run is: about to go on, waiting for an effect that has not or has
taken place, or dropped. -/
inductive Stage {E : Type} (Reply : E → Type) (ε α : Type) where
  | ready (program : Program Reply ε α)
  | waiting (e : E) (next : Except ε (Reply e) → Program Reply ε α)
  | taken (e : E) (reply : Reply e) (next : Except ε (Reply e) → Program Reply ε α)
  | dropped

/-- The store, every run that was started, and what has happened. -/
structure System (ι σ : Type) {E : Type} (Reply : E → Type) (ε α : Type) where
  store : σ
  runs : ι → Option (Stage Reply ε α)
  trace : List (Event ι Reply ε)

variable {ι σ E ε α : Type} {Reply : E → Type} [DecidableEq ι]

namespace System

/-- Nothing has been started. -/
def idle (store : σ) : System ι σ Reply ε α := ⟨store, fun _ => none, []⟩

def put (s : System ι σ Reply ε α) (i : ι) (stage : Stage Reply ε α) : System ι σ Reply ε α :=
  { s with runs := Function.update s.runs i (some stage) }

def log (s : System ι σ Reply ε α) (event : Event ι Reply ε) : System ι σ Reply ε α :=
  { s with trace := s.trace ++ [event] }

@[simp] theorem put_trace (s : System ι σ Reply ε α) (i : ι) (stage : Stage Reply ε α) :
    (s.put i stage).trace = s.trace := rfl

omit [DecidableEq ι] in
@[simp] theorem log_trace (s : System ι σ Reply ε α) (event : Event ι Reply ε) :
    (s.log event).trace = s.trace ++ [event] := rfl

omit [DecidableEq ι] in
@[simp] theorem log_runs (s : System ι σ Reply ε α) (event : Event ι Reply ε) :
    (s.log event).runs = s.runs := rfl

@[simp] theorem put_self (s : System ι σ Reply ε α) (i : ι) (stage : Stage Reply ε α) :
    (s.put i stage).runs i = some stage := Function.update_self ..

theorem put_other (s : System ι σ Reply ε α) {i j : ι} (h : j ≠ i) (stage : Stage Reply ε α) :
    (s.put i stage).runs j = s.runs j := Function.update_of_ne h ..

end System

/-- One step of the system: `host` says what an effect may do to the store,
`starts` which programs may be run. -/
inductive Step (host : σ → (e : E) → Reply e → σ → Prop) (starts : Program Reply ε α → Prop) :
    System ι σ Reply ε α → System ι σ Reply ε α → Prop where
  | start {s i p} (hi : s.runs i = none) (hp : starts p) : Step host starts s (s.put i (.ready p))
  | call {s i e next} (hi : s.runs i = some (.ready (.call e next))) :
      Step host starts s ((s.put i (.waiting e next)).log (.called i e))
  | take {s i e next reply store} (hi : s.runs i = some (.waiting e next))
      (htake : host s.store e reply store) :
      Step host starts s { (s.put i (.taken e reply next)).log (.took i e reply) with
        store := store }
  | reply {s i e reply next} (hi : s.runs i = some (.taken e reply next)) :
      Step host starts s ((s.put i (.ready (next (.ok reply)))).log (.replied i e (.ok reply)))
  | fail {s i e next} (error : ε) (hi : s.runs i = some (.waiting e next) ∨
        ∃ reply, s.runs i = some (.taken e reply next)) :
      Step host starts s
        ((s.put i (.ready (next (.error error)))).log (.replied i e (.error error)))
  | drop {s i stage} (hi : s.runs i = some stage) : Step host starts s (s.put i .dropped)

/-- What a system over some store can come to. -/
inductive Reachable (host : σ → (e : E) → Reply e → σ → Prop)
    (starts : Program Reply ε α → Prop) : System ι σ Reply ε α → Prop where
  | idle (store : σ) : Reachable host starts (.idle store)
  | step {s t} (h : Reachable host starts s) (hstep : Step host starts s t) :
      Reachable host starts t

/-! ## One run's part of the trace -/

def callsOf (i : ι) (trace : List (Event ι Reply ε)) : List E :=
  trace.filterMap fun
    | .called j e => if j = i then some e else none
    | _ => none

def repliesOf (i : ι) (trace : List (Event ι Reply ε)) : List (Σ e, Except ε (Reply e)) :=
  trace.filterMap fun
    | .replied j e reply => if j = i then some ⟨e, reply⟩ else none
    | _ => none

/-- The effects that took place, in order. -/
def takenOf (trace : List (Event ι Reply ε)) : List (ι × Σ e, Reply e) :=
  trace.filterMap fun
    | .took i e reply => some (i, ⟨e, reply⟩)
    | _ => none

section

variable {trace : List (Event ι Reply ε)} {i j : ι} {e : E}

@[simp] theorem callsOf_called : callsOf i (trace ++ [.called j e]) =
    callsOf i trace ++ if j = i then [e] else [] := by
  by_cases h : j = i <;> simp [callsOf, h]

@[simp] theorem callsOf_took {reply : Reply e} :
    callsOf i (trace ++ [.took j e reply]) = callsOf i trace := by
  simp [callsOf]

@[simp] theorem callsOf_replied {reply : Except ε (Reply e)} :
    callsOf i (trace ++ [.replied j e reply]) = callsOf i trace := by
  simp [callsOf]

@[simp] theorem repliesOf_called :
    repliesOf i (trace ++ [.called j e]) = repliesOf i trace := by
  simp [repliesOf]

@[simp] theorem repliesOf_took {reply : Reply e} :
    repliesOf i (trace ++ [.took j e reply]) = repliesOf i trace := by
  simp [repliesOf]

@[simp] theorem repliesOf_replied {reply : Except ε (Reply e)} :
    repliesOf i (trace ++ [.replied j e reply]) =
      repliesOf i trace ++ if j = i then [⟨e, reply⟩] else [] := by
  by_cases h : j = i <;> simp [repliesOf, h]

theorem mem_callsOf : e ∈ callsOf i trace ↔ .called i e ∈ trace := by
  unfold callsOf
  rw [List.mem_filterMap]
  constructor
  · rintro ⟨event, hevent, h⟩
    cases event with
    | called j e' =>
        dsimp only at h
        split at h
        · rename_i hji
          cases h
          rw [hji] at hevent
          exact hevent
        · cases h
    | took | replied => cases h
  · intro h
    exact ⟨_, h, if_pos rfl⟩

theorem mem_repliesOf {reply : Except ε (Reply e)} :
    ⟨e, reply⟩ ∈ repliesOf i trace ↔ .replied i e reply ∈ trace := by
  unfold repliesOf
  rw [List.mem_filterMap]
  constructor
  · rintro ⟨event, hevent, h⟩
    cases event with
    | replied j e' reply' =>
        dsimp only at h
        split at h
        · rename_i hji
          cases h
          rw [hji] at hevent
          exact hevent
        · cases h
    | took | called => cases h
  · intro h
    exact ⟨_, h, if_pos rfl⟩

omit [DecidableEq ι] in
theorem mem_takenOf {reply : Reply e} :
    (i, ⟨e, reply⟩) ∈ takenOf trace ↔ .took i e reply ∈ trace := by
  unfold takenOf
  rw [List.mem_filterMap]
  constructor
  · rintro ⟨event, hevent, h⟩
    cases event with
    | took =>
        cases h
        exact hevent
    | called | replied => cases h
  · intro h
    exact ⟨_, h, rfl⟩

end

/-! ## Rules -/

/-- A property of replies received and program left that calls and replies keep. -/
structure Course (starts : Program Reply ε α → Prop)
    (course : List (Σ e, Except ε (Reply e)) → Program Reply ε α → Prop) : Prop where
  start : ∀ {p}, starts p → course [] p
  next : ∀ {replies e next} (reply : Except ε (Reply e)), course replies (.call e next) →
    course (replies ++ [⟨e, reply⟩]) (next reply)

section

variable {host : σ → (e : E) → Reply e → σ → Prop} {starts : Program Reply ε α → Prop}
  {course : List (Σ e, Except ε (Reply e)) → Program Reply ε α → Prop}
  {s t : System ι σ Reply ε α} {i : ι}

/-- The calls of a run are those replied to, and the one it waits for. -/
inductive Calls (course : List (Σ e, Except ε (Reply e)) → Program Reply ε α → Prop)
    (replies : List (Σ e, Except ε (Reply e))) (calls : List E) : Prop where
  | answered {p} (hcourse : course replies p) (hcalls : calls = replies.map Sigma.fst)
  | waits {e next} (hcourse : course replies (.call e next))
      (hcalls : calls = replies.map Sigma.fst ++ [e])

/-- A run's stage agrees with its part of the trace. -/
def OnCourse (course : List (Σ e, Except ε (Reply e)) → Program Reply ε α → Prop)
    (trace : List (Event ι Reply ε)) (i : ι) : Option (Stage Reply ε α) → Prop
  | none => repliesOf i trace = [] ∧ callsOf i trace = []
  | some (.ready p) =>
      course (repliesOf i trace) p ∧ callsOf i trace = (repliesOf i trace).map Sigma.fst
  | some (.waiting e next) =>
      course (repliesOf i trace) (.call e next) ∧
        callsOf i trace = (repliesOf i trace).map Sigma.fst ++ [e]
  | some (.taken e reply next) =>
      course (repliesOf i trace) (.call e next) ∧
        callsOf i trace = (repliesOf i trace).map Sigma.fst ++ [e] ∧ .took i e reply ∈ trace
  | some .dropped => Calls course (repliesOf i trace) (callsOf i trace)

/-- An event of another run does not concern this one. -/
theorem OnCourse.log {trace : List (Event ι Reply ε)} {stage : Option (Stage Reply ε α)}
    (h : OnCourse course trace i stage) {event : Event ι Reply ε}
    (hcalls : callsOf i (trace ++ [event]) = callsOf i trace)
    (hreplies : repliesOf i (trace ++ [event]) = repliesOf i trace) :
    OnCourse course (trace ++ [event]) i stage := by
  unfold OnCourse at h ⊢
  rw [hcalls, hreplies]
  split
  · exact h
  · exact h
  · exact h
  · exact ⟨h.1, h.2.1, List.mem_append_left _ h.2.2⟩
  · exact h

theorem OnCourse.calls {trace : List (Event ι Reply ε)} {stage : Stage Reply ε α}
    (h : OnCourse course trace i (some stage)) :
    Calls course (repliesOf i trace) (callsOf i trace) := by
  cases stage with
  | ready p => exact .answered h.1 h.2
  | waiting e next => exact .waits h.1 h.2
  | taken e reply next => exact .waits h.1 h.2.1
  | dropped => exact h

/-- Every run stays on course. -/
theorem step_onCourse (hcourse : Course starts course) (hstep : Step host starts s t)
    (h : ∀ i, OnCourse course s.trace i (s.runs i)) :
    ∀ i, OnCourse course t.trace i (t.runs i) := by
  intro j
  cases hstep with
  | @start i p hi hp =>
      by_cases hji : j = i
      · have hnone := h i
        rw [hi] at hnone
        obtain ⟨hreplies, hcalls⟩ := hnone
        rw [hji, System.put_self]
        exact ⟨by simpa [hreplies] using hcourse.start hp, by simp [hreplies, hcalls]⟩
      · rw [System.put_other s hji]
        exact h j
  | @call i e next hi =>
      by_cases hji : j = i
      · have hready := h i
        rw [hi] at hready
        rw [hji, System.log_runs, System.put_self]
        exact ⟨by simpa using hready.1, by simpa using hready.2⟩
      · rw [System.log_runs, System.put_other s hji]
        exact (h j).log (by simp [Ne.symm hji]) (by simp)
  | @take i e next reply store hi htake =>
      by_cases hji : j = i
      · have hwaiting := h i
        rw [hi] at hwaiting
        rw [hji]
        change OnCourse course _ i ((s.put i _).runs i)
        rw [System.put_self]
        refine ⟨by simpa using hwaiting.1, by simpa using hwaiting.2, ?_⟩
        exact List.mem_append_right _ List.mem_cons_self
      · change OnCourse course _ j ((s.put i _).runs j)
        rw [System.put_other s hji]
        exact (h j).log (by simp) (by simp)
  | @reply i e reply next hi =>
      by_cases hji : j = i
      · have htaken := h i
        rw [hi] at htaken
        rw [hji, System.log_runs, System.put_self]
        exact ⟨by simpa using hcourse.next (.ok reply) htaken.1, by simpa using htaken.2.1⟩
      · rw [System.log_runs, System.put_other s hji]
        exact (h j).log (by simp) (by simp [Ne.symm hji])
  | @fail i e next error hi =>
      by_cases hji : j = i
      · have hwaited : course (repliesOf i s.trace) (.call e next) ∧
            callsOf i s.trace = (repliesOf i s.trace).map Sigma.fst ++ [e] := by
          have hrun := h i
          rcases hi with hi | ⟨reply, hi⟩
          · rw [hi] at hrun
            exact hrun
          · rw [hi] at hrun
            exact ⟨hrun.1, hrun.2.1⟩
        rw [hji, System.log_runs, System.put_self]
        exact ⟨by simpa using hcourse.next (.error error) hwaited.1, by simpa using hwaited.2⟩
      · rw [System.log_runs, System.put_other s hji]
        exact (h j).log (by simp) (by simp [Ne.symm hji])
  | @drop i stage hi =>
      by_cases hji : j = i
      · have hrun := h i
        rw [hi] at hrun
        rw [hji, System.put_self]
        exact hrun.calls
      · rw [System.put_other s hji]
        exact h j

theorem onCourse (hcourse : Course starts course) (h : Reachable host starts s) (i : ι) :
    OnCourse course s.trace i (s.runs i) := by
  induction h generalizing i with
  | idle store => exact ⟨rfl, rfl⟩
  | step _ hstep ih => exact step_onCourse hcourse hstep ih i

omit [DecidableEq ι] in
/-- What the last event of a split trace is, the rest of it was before. -/
theorem split_snoc {trace before after : List (Event ι Reply ε)} {last event : Event ι Reply ε}
    (h : trace ++ [last] = before ++ event :: after) :
    (trace = before ∧ last = event ∧ after = []) ∨ ∃ rest, trace = before ++ event :: rest := by
  rcases List.eq_nil_or_concat after with rfl | ⟨rest, final, rfl⟩
  · obtain ⟨hbefore, hlast⟩ := List.append_inj' h rfl
    cases hlast
    exact .inl ⟨hbefore, rfl, rfl⟩
  · have hsplit : trace ++ [last] = (before ++ event :: rest) ++ [final] := by
      rw [h, List.concat_eq_append, List.append_assoc, List.cons_append]
    obtain ⟨hbefore, -⟩ := List.append_inj' hsplit rfl
    exact .inr ⟨rest, hbefore⟩

/-- Every call is made by a program on its course, with all calls before it
replied to. -/
theorem called_onCourse (hcourse : Course starts course) (h : Reachable host starts s)
    {before after : List (Event ι Reply ε)} {e : E}
    (htrace : s.trace = before ++ .called i e :: after) :
    (∃ next, course (repliesOf i before) (.call e next)) ∧
      callsOf i before = (repliesOf i before).map Sigma.fst := by
  induction h generalizing after with
  | idle store => simp [System.idle] at htrace
  | @step s t hs hstep ih =>
      have hruns := onCourse hcourse hs
      cases hstep with
      | start | drop => exact ih htrace
      | take | reply | fail =>
          rcases split_snoc htrace with ⟨-, hevent, -⟩ | ⟨rest, hrest⟩
          · cases hevent
          · exact ih hrest
      | @call j e' next hj =>
          rcases split_snoc htrace with ⟨rfl, hevent, -⟩ | ⟨rest, hrest⟩
          · cases hevent
            have hready := hruns i
            rw [hj] at hready
            exact ⟨⟨next, hready.1⟩, hready.2⟩
          · exact ih hrest

/-- A reply that is no failure is the effect's own, which took place before. -/
theorem took_of_replied (h : Reachable host starts s)
    {before after : List (Event ι Reply ε)} {e : E} {reply : Reply e}
    (htrace : s.trace = before ++ .replied i e (.ok reply) :: after) :
    .took i e reply ∈ before := by
  induction h generalizing after with
  | idle store => simp [System.idle] at htrace
  | @step s t hs hstep ih =>
      have hruns := @onCourse _ _ _ _ _ _ _ _ _ (fun _ _ => True) _
        ⟨fun _ => trivial, fun _ _ => trivial⟩ hs
      cases hstep with
      | start | drop => exact ih htrace
      | call | take | fail =>
          rcases split_snoc htrace with ⟨-, hevent, -⟩ | ⟨rest, hrest⟩
          · cases hevent
          · exact ih hrest
      | @reply j e' reply' next hj =>
          rcases split_snoc htrace with ⟨rfl, hevent, -⟩ | ⟨rest, hrest⟩
          · cases hevent
            have htaken := hruns i
            rw [hj] at htaken
            exact htaken.2.2
          · exact ih hrest

theorem took_of_mem_replies (h : Reachable host starts s) {before after : List (Event ι Reply ε)}
    (htrace : s.trace = before ++ after) {e : E} {reply : Reply e}
    (hreply : ⟨e, .ok reply⟩ ∈ repliesOf i before) : .took i e reply ∈ before := by
  obtain ⟨first, rest, rfl⟩ := List.append_of_mem (mem_repliesOf.mp hreply)
  rw [List.append_assoc, List.cons_append] at htrace
  exact List.mem_append_left _ (took_of_replied h htrace)

/-- What each effect keeps of the store and the effects before it holds throughout. -/
theorem store_invariant {P : σ → List (ι × Σ e, Reply e) → Prop} (hidle : ∀ store, P store [])
    (htake : ∀ {store taken e reply store'} (i : ι), P store taken → host store e reply store' →
      P store' (taken ++ [(i, ⟨e, reply⟩)])) (h : Reachable host starts s) :
    P s.store (takenOf s.trace) := by
  induction h with
  | idle store => exact hidle store
  | @step s t hs hstep ih =>
      cases hstep with
      | start | drop => exact ih
      | call | reply | fail =>
          change P s.store (takenOf (s.trace ++ [_]))
          simpa [takenOf] using ih
      | @take i e next reply store hi heffect =>
          have hnext := htake i ih heffect
          change P store (takenOf (s.trace ++ [.took i e reply]))
          simpa [takenOf] using hnext

end

end TokenStation.Library.Interleaving
