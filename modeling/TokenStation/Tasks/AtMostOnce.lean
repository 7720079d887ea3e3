import TokenStation.Tasks.Submission

/-!
# A task is sent at most once

Whatever submissions and cancellations are interleaved on one identity, and
wherever their calls fail or they are dropped, one send is made at most, and
none beside a cancellation that was applied.
-/

namespace TokenStation.Tasks

open Library.Interleaving

variable {H : HostTypes}

/-! ## Along one run -/

/-- The outcome is one that the replies handed out: of preparation, of the
record that was applied, or of a reload of the task that was created. -/
inductive Obtained (replies : List (Σ e : Effect H, Except H.Error (Reply e))) :
    SharedResult H.Outcome → Prop where
  | replayed {input outcome}
      (h : ⟨.prepare input, .ok (PrepareResult.replayed outcome)⟩ ∈ replies) :
      Obtained replies ⟨outcome, .replayed⟩
  | conflict {input outcome}
      (h : ⟨.prepare input, .ok (PrepareResult.conflict outcome)⟩ ∈ replies) :
      Obtained replies ⟨outcome, .conflict⟩
  | applied {input task fact outcome}
      (hcreated : ⟨.prepare input, .ok (PrepareResult.created task)⟩ ∈ replies)
      (h : ⟨.recordSubmission task fact, .ok (ApplyResult.applied outcome)⟩ ∈ replies) :
      Obtained replies ⟨outcome, .applied⟩
  | reloaded {input task outcome}
      (hcreated : ⟨.prepare input, .ok (PrepareResult.created task)⟩ ∈ replies)
      (h : ⟨.reload task, .ok outcome⟩ ∈ replies) : Obtained replies ⟨outcome, .replayed⟩

/-- The replies that a program has had, stage by stage. -/
inductive Follows : List (Σ e : Effect H, Except H.Error (Reply e)) → Run H → Prop where
  | submit (input) : Follows [] (submit input)
  | dispatching (input task) :
      Follows [⟨.prepare input, .ok (.created task)⟩] (dispatching task)
  | sending (input task) :
      Follows [⟨.prepare input, .ok (.created task)⟩, ⟨.beginDispatch task, .ok true⟩]
        (sending task)
  | recording (input task) (reply : Except H.Error (SubmissionFact H.Accepted H.Rejected)) :
      Follows [⟨.prepare input, .ok (.created task)⟩, ⟨.beginDispatch task, .ok true⟩,
        ⟨.send task, reply⟩] (recording task (factOf reply))
  | reloaded {replies} {input task}
      (hcreated : ⟨.prepare input, .ok (PrepareResult.created task)⟩ ∈ replies) :
      Follows replies (reloaded task)
  | finished {replies result} (h : Obtained replies result) :
      Follows replies (.done (.submitted (.ok result)))
  | failed (replies error) : Follows replies (.done (.submitted (.error error)))
  | cancel (key) : Follows [] (cancel key)
  | cancelling (replies task) : Follows replies (cancelling task)
  | intending (replies task) : Follows replies (intending task)
  | cancelled (replies result) : Follows replies (.done (.cancelled result))

theorem follows_course : Course (Starts (H := H)) Follows where
  start h := by
    cases h with
    | submit input => exact .submit input
    | cancel key => exact .cancel key
  next := by
    intro replies e next reply h
    generalize hp : Program.call e next = p at h
    cases h with
    | submit input =>
        cases hp
        rcases reply with error | task | outcome | outcome
        · exact .failed _ error
        · exact .dispatching input task
        · exact .finished (.replayed List.mem_cons_self)
        · exact .finished (.conflict List.mem_cons_self)
    | dispatching input task =>
        cases hp
        rcases reply with error | won | won
        · exact .failed _ error
        · exact .reloaded List.mem_cons_self
        · exact .sending input task
    | sending input task =>
        cases hp
        exact .recording input task reply
    | recording input task sent =>
        cases hp
        rcases reply with error | outcome | _
        · exact .failed _ error
        · exact .finished (.applied List.mem_cons_self (List.mem_append_right _ List.mem_cons_self))
        · exact .reloaded List.mem_cons_self
    | @reloaded _ input task hcreated =>
        cases hp
        rcases reply with error | outcome
        · exact .failed _ error
        · exact .finished (.reloaded (List.mem_append_left _ hcreated)
            (List.mem_append_right _ List.mem_cons_self))
    | cancel key =>
        cases hp
        rcases reply with error | task | task | outcome
        · exact .cancelled _ _
        · exact .cancelling _ task
        · exact .intending _ task
        · exact .cancelled _ _
    | cancelling _ task =>
        cases hp
        rcases reply with error | outcome | _
        · exact .cancelled _ _
        · exact .cancelled _ _
        · exact .intending _ task
    | intending _ task =>
        cases hp
        exact .cancelled _ reply
    | finished | failed | cancelled => cases hp

/-! ## In the store -/

section

variable {ι : Type} {host : AtomicHost H}

/-- What the effects so far say of the store: one dispatch at most, and a
dispatch or a cancellation shows in the phase. -/
structure Ledger (host : AtomicHost H) (store : host.Store)
    (taken : List (ι × Σ e : Effect H, Reply e)) : Prop where
  dispatched : ∀ {i task}, (i, ⟨.beginDispatch task, true⟩) ∈ taken →
    host.phase store = some (task, .dispatched) ∨ host.phase store = some (task, .recorded)
  once : ∀ {i j task task'}, (i, ⟨.beginDispatch task, true⟩) ∈ taken →
    (j, ⟨.beginDispatch task', true⟩) ∈ taken → i = j
  cancelled : ∀ {i task outcome},
    (i, ⟨.cancelPrepared task, ApplyResult.applied outcome⟩) ∈ taken →
    ∃ task', host.phase store = some (task', .cancelled)

/-- Before a task moves on from its preparation nothing was dispatched or cancelled. -/
theorem Ledger.fresh {store : host.Store} {taken : List (ι × Σ e : Effect H, Reply e)}
    (h : Ledger host store taken)
    (hphase : host.phase store = none ∨ ∃ task, host.phase store = some (task, .prepared)) :
    (∀ i task, (i, ⟨.beginDispatch task, true⟩) ∉ taken) ∧
      ∀ i task outcome, (i, ⟨.cancelPrepared task, ApplyResult.applied outcome⟩) ∉ taken := by
  constructor
  · intro i task hmem
    rcases hphase with hnone | ⟨task', hprepared⟩
    · rcases h.dispatched hmem with hsome | hsome <;> simp [hnone] at hsome
    · rcases h.dispatched hmem with hsome | hsome <;> simp [hprepared] at hsome
  · intro i task outcome hmem
    obtain ⟨task', hsome⟩ := h.cancelled hmem
    rcases hphase with hnone | ⟨task'', hprepared⟩
    · simp [hnone] at hsome
    · simp [hprepared] at hsome

/-- An effect that is neither a dispatch nor a cancellation adds nothing. -/
theorem Ledger.other {store store' : host.Store} {taken : List (ι × Σ e : Effect H, Reply e)}
    (h : Ledger host store taken) {i : ι} {e : Effect H} {reply : Reply e}
    (hdispatch : ∀ task, (⟨e, reply⟩ : Σ e, Reply e) ≠ ⟨.beginDispatch task, true⟩)
    (hcancel : ∀ task outcome, (⟨e, reply⟩ : Σ e, Reply e) ≠
      ⟨.cancelPrepared task, ApplyResult.applied outcome⟩)
    (hkept : ∀ task, host.phase store = some (task, .dispatched) ∨
      host.phase store = some (task, .recorded) → host.phase store' = some (task, .dispatched) ∨
        host.phase store' = some (task, .recorded))
    (hcancelled : ∀ task, host.phase store = some (task, .cancelled) →
      host.phase store' = some (task, .cancelled)) :
    Ledger host store' (taken ++ [(i, ⟨e, reply⟩)]) := by
  have hold : ∀ {j task}, (j, ⟨.beginDispatch task, true⟩) ∈ taken ++ [(i, ⟨e, reply⟩)] →
      (j, ⟨.beginDispatch task, true⟩) ∈ taken := by
    intro j task hmem
    rcases List.mem_append.mp hmem with hmem | hmem
    · exact hmem
    · obtain ⟨-, heffect⟩ := Prod.ext_iff.mp (List.mem_singleton.mp hmem)
      exact absurd heffect.symm (hdispatch task)
  refine ⟨fun hmem => hkept _ (h.dispatched (hold hmem)), fun hi hj => h.once (hold hi) (hold hj),
    fun {j task outcome} hmem => ?_⟩
  rcases List.mem_append.mp hmem with hmem | hmem
  · obtain ⟨task', hphase⟩ := h.cancelled hmem
    exact ⟨task', hcancelled task' hphase⟩
  · obtain ⟨-, heffect⟩ := Prod.ext_iff.mp (List.mem_singleton.mp hmem)
    exact absurd heffect.symm (hcancel task outcome)

/-- The first dispatch or cancellation is the only one. -/
theorem Ledger.first {store store' : host.Store} {taken : List (ι × Σ e : Effect H, Reply e)}
    (h : Ledger host store taken) {i : ι} {task : H.Task}
    (hprepared : host.phase store = some (task, .prepared)) :
    (host.phase store' = some (task, .dispatched) →
      Ledger host store' (taken ++ [(i, ⟨.beginDispatch task, true⟩)])) ∧
    ∀ outcome, host.phase store' = some (task, .cancelled) →
      Ledger host store' (taken ++ [(i, ⟨.cancelPrepared task, .applied outcome⟩)]) := by
  obtain ⟨hdispatch, hcancel⟩ := h.fresh (.inr ⟨task, hprepared⟩)
  constructor
  · intro hphase
    have hlast : ∀ {j task'}, (j, ⟨.beginDispatch task', true⟩) ∈
        taken ++ [(i, (⟨.beginDispatch task, true⟩ : Σ e : Effect H, Reply e))] →
          j = i ∧ task' = task := by
      intro j task' hmem
      rcases List.mem_append.mp hmem with hmem | hmem
      · exact absurd hmem (hdispatch j task')
      · cases List.mem_singleton.mp hmem
        exact ⟨rfl, rfl⟩
    refine ⟨fun hmem => ?_, fun hi hj => (hlast hi).1.trans (hlast hj).1.symm,
      fun {j task' outcome} hmem => ?_⟩
    · rw [(hlast hmem).2]
      exact .inl hphase
    · rcases List.mem_append.mp hmem with hmem | hmem
      · exact absurd hmem (hcancel j task' outcome)
      · cases List.mem_singleton.mp hmem
  · intro outcome hphase
    have hnone : ∀ {j task'}, (j, ⟨.beginDispatch task', true⟩) ∉ taken ++
        [(i, (⟨.cancelPrepared task, ApplyResult.applied outcome⟩ : Σ e : Effect H, Reply e))] := by
      intro j task' hmem
      rcases List.mem_append.mp hmem with hmem | hmem
      · exact hdispatch j task' hmem
      · cases List.mem_singleton.mp hmem
    exact ⟨fun hmem => absurd hmem hnone, fun hmem => absurd hmem hnone,
      fun _ => ⟨task, hphase⟩⟩

theorem ledger_take {store store' : host.Store} {taken : List (ι × Σ e : Effect H, Reply e)}
    {e : Effect H} {reply : Reply e} (i : ι) (h : Ledger host store taken)
    (hperform : host.perform store e reply store') :
    Ledger host store' (taken ++ [(i, ⟨e, reply⟩)]) := by
  by_cases hmoves : Moves e reply
  · cases e with
    | prepare input =>
        cases reply with
        | created task =>
            obtain ⟨hnone, -⟩ := host.created hperform
            exact h.other (by simp) (by simp) (by simp [hnone]) (by simp [hnone])
        | replayed | conflict => exact hmoves.elim
    | beginDispatch task =>
        cases reply with
        | true =>
            obtain ⟨hprepared, hphase⟩ := host.dispatched hperform
            exact (h.first hprepared).1 hphase
        | false => exact hmoves.elim
    | recordSubmission task fact =>
        cases reply with
        | applied outcome =>
            obtain ⟨hdispatched, hphase⟩ := host.recorded hperform
            refine h.other (by simp) (by simp) (fun task' htask => ?_) (by simp [hdispatched])
            simp only [hdispatched, Option.some.injEq, Prod.mk.injEq, and_true, reduceCtorEq,
              and_false, or_false] at htask
            exact .inr (htask ▸ hphase)
        | conflict => exact hmoves.elim
    | cancelPrepared task =>
        cases reply with
        | applied outcome =>
            obtain ⟨hprepared, hphase⟩ := host.cancelled hperform
            exact (h.first hprepared).2 outcome hphase
        | conflict => exact hmoves.elim
    | send | reload | loadForCancel | recordCancelIntent => exact hmoves.elim
  · have hphase := host.kept hperform hmoves
    refine h.other ?_ ?_ (by simp [hphase]) (by simp [hphase])
    · rintro task heq
      cases heq
      exact hmoves trivial
    · rintro task outcome heq
      cases heq
      exact hmoves trivial

end

/-! ## Any interleaving -/

section

variable {ι : Type} [DecidableEq ι] {host : AtomicHost H}
  {s : System ι host.Store (@Reply H) H.Error (Ended H)} {i j : ι}
  {before after : List (Event ι (@Reply H) H.Error)}

theorem ledger (h : Reachable host.perform Starts s) : Ledger host s.store (takenOf s.trace) :=
  store_invariant (fun _ => ⟨by simp, by simp, by simp⟩) (fun i => ledger_take i) h

/-- A send is made by a run that created the task and won its dispatch, and
that has sent nothing yet. -/
theorem dispatched_of_send (h : Reachable host.perform Starts s) {task : H.Task}
    (htrace : s.trace = before ++ .called i (.send task) :: after) :
    .took i (.beginDispatch task) true ∈ before ∧ ∀ task', .called i (.send task') ∉ before := by
  obtain ⟨⟨next, hfollows⟩, hcalls⟩ := called_onCourse follows_course h htrace
  generalize hp : Program.call (Effect.send task) next = p at hfollows
  generalize hreplies : repliesOf i before = replies at hfollows hcalls
  cases hfollows with
  | sending input =>
      cases hp
      refine ⟨took_of_mem_replies h htrace (by simp [hreplies]), fun task' hcalled => ?_⟩
      rw [← mem_callsOf, hcalls] at hcalled
      simp at hcalled
  | submit | dispatching | recording | reloaded | finished | failed | cancel | cancelling
  | intending | cancelled => cases hp

/-- A fact that is recorded is the one of the run's own send. -/
theorem sent_of_record (h : Reachable host.perform Starts s) {task : H.Task}
    {fact : SubmissionFact H.Accepted H.Rejected}
    (htrace : s.trace = before ++ .called i (.recordSubmission task fact) :: after) :
    (∃ reply, .replied i (.send task) reply ∈ before) ∧
      ∀ task' reply, .replied i (.send task') reply ∈ before →
        task' = task ∧ fact = factOf reply := by
  obtain ⟨⟨next, hfollows⟩, -⟩ := called_onCourse follows_course h htrace
  generalize hp : Program.call (Effect.recordSubmission task fact) next = p at hfollows
  generalize hreplies : repliesOf i before = replies at hfollows
  cases hfollows with
  | recording input task' reply =>
      cases hp
      refine ⟨⟨reply, ?_⟩, fun task' reply' hreplied => ?_⟩
      · rw [← mem_repliesOf, hreplies]
        simp
      · rw [← mem_repliesOf, hreplies] at hreplied
        simp only [List.mem_cons, Sigma.mk.injEq, reduceCtorEq, false_and, Effect.send.injEq,
          List.not_mem_nil, or_false, false_or] at hreplied
        obtain ⟨rfl, hsame⟩ := hreplied
        cases hsame
        exact ⟨rfl, rfl⟩
  | submit | dispatching | sending | reloaded | finished | failed | cancel | cancelling
  | intending | cancelled => cases hp

/-- Two sends are made by one run, so there is only one. -/
theorem send_once (h : Reachable host.perform Starts s) {task : H.Task}
    (htrace : s.trace = before ++ .called i (.send task) :: after) (j : ι) (task' : H.Task) :
    .called j (.send task') ∉ after := by
  intro hcalled
  obtain ⟨between, rest, rfl⟩ := List.append_of_mem hcalled
  have hlater : s.trace = (before ++ .called i (.send task) :: between) ++
      .called j (.send task') :: rest := by
    rw [htrace, List.append_assoc, List.cons_append]
  obtain ⟨hfirst, -⟩ := dispatched_of_send h htrace
  obtain ⟨hsecond, hnone⟩ := dispatched_of_send h hlater
  have hledger := ledger h
  have hmem : ∀ {k t}, .took k (.beginDispatch t) true ∈ s.trace →
      (k, ⟨.beginDispatch t, true⟩) ∈ takenOf s.trace := mem_takenOf.mpr
  have hsame : i = j := by
    have hone : .took i (.beginDispatch task) true ∈ s.trace := by
      rw [htrace]
      exact List.mem_append_left _ hfirst
    have htwo : .took j (.beginDispatch task') true ∈ s.trace := by
      rw [hlater]
      exact List.mem_append_left _ hsecond
    exact hledger.once (hmem hone) (hmem htwo)
  exact hnone task (List.mem_append_right _ (hsame ▸ List.mem_cons_self))

/-- No send is made where a cancellation is applied, before it or after it. -/
theorem send_excludes_cancel (h : Reachable host.perform Starts s) {task task' : H.Task}
    {outcome : H.Outcome} (hsent : .called i (.send task) ∈ s.trace) :
    .took j (.cancelPrepared task') (.applied outcome) ∉ s.trace := by
  intro hcancelled
  obtain ⟨before, after, htrace⟩ := List.append_of_mem hsent
  obtain ⟨hdispatched, -⟩ := dispatched_of_send h htrace
  have hledger := ledger h
  have htook : .took i (.beginDispatch task) true ∈ s.trace := by
    rw [htrace]
    exact List.mem_append_left _ hdispatched
  obtain ⟨task'', hphase⟩ := hledger.cancelled (mem_takenOf.mpr hcancelled)
  rcases hledger.dispatched (mem_takenOf.mpr htook) with hother | hother
  · simp [hphase] at hother
  · simp [hphase] at hother

/-- What a submission that succeeds hands out was obtained by it. -/
theorem obtained_of_submitted (h : Reachable host.perform Starts s)
    {result : SharedResult H.Outcome}
    (hdone : s.runs i = some (.ready (.done (.submitted (.ok result))))) :
    Obtained (repliesOf i s.trace) result := by
  have hcourse := onCourse follows_course h i
  rw [hdone] at hcourse
  obtain ⟨hfollows, -⟩ := hcourse
  generalize hp : Program.done (Ended.submitted (.ok result)) = p at hfollows
  generalize repliesOf i s.trace = replies at hfollows
  cases hfollows with
  | finished hobtained =>
      cases hp
      exact hobtained
  | submit | dispatching | sending | recording | reloaded | failed | cancel | cancelling
  | intending | cancelled => cases hp

def isSend : Event ι (@Reply H) H.Error → Bool
  | .called _ (.send _) => true
  | _ => false

theorem countP_le_one {β : Type} {p : β → Bool} {l : List β}
    (h : ∀ before a after, l = before ++ a :: after → p a = true → ∀ b ∈ after, p b = false) :
    l.countP p ≤ 1 := by
  induction l with
  | nil => simp
  | cons a l ih =>
      by_cases ha : p a = true
      · have hrest : l.countP p = 0 := by
          rw [List.countP_eq_zero]
          intro b hb
          simp [h [] a l rfl ha b hb]
        rw [List.countP_cons, hrest]
        split <;> omega
      · rw [List.countP_cons_of_neg ha]
        exact ih fun before b after hl => h (a :: before) b after (by rw [hl, List.cons_append])

/-- In any interleaving of submissions and cancellations on one identity, with
any calls failing and any runs dropped: one send is made at most, by a run that
won its dispatch, and none where a cancellation is applied; what is recorded is
the fact of the run's own send, unknown if it failed; and a submission that
succeeds hands out an outcome it obtained. -/
theorem submission_at_most_once (h : Reachable host.perform Starts s) :
    s.trace.countP isSend ≤ 1 ∧
    (∀ before after i task, s.trace = before ++ .called i (.send task) :: after →
      .took i (.beginDispatch task) true ∈ before) ∧
    (∀ i j task task' outcome, .called i (.send task) ∈ s.trace →
      .took j (.cancelPrepared task') (.applied outcome) ∉ s.trace) ∧
    (∀ before after i task fact,
      s.trace = before ++ .called i (.recordSubmission task fact) :: after →
      (∃ reply, .replied i (.send task) reply ∈ before) ∧
        ∀ task' reply, .replied i (.send task') reply ∈ before →
          task' = task ∧ fact = factOf reply) ∧
    ∀ i result, s.runs i = some (.ready (.done (.submitted (.ok result)))) →
      Obtained (repliesOf i s.trace) result := by
  refine ⟨countP_le_one fun before event after htrace hevent other hother => ?_,
    fun before after i task htrace => (dispatched_of_send h htrace).1,
    fun i j task task' outcome hsent => send_excludes_cancel h hsent,
    fun before after i task fact => sent_of_record h, fun i result => obtained_of_submitted h⟩
  · cases event with
    | called i e =>
        cases e with
        | send task =>
            cases other with
            | called j e' =>
                cases e' with
                | send task' => exact absurd hother (send_once h htrace j task')
                | prepare | beginDispatch | recordSubmission | reload | loadForCancel
                | cancelPrepared | recordCancelIntent => rfl
            | took | replied => rfl
        | prepare | beginDispatch | recordSubmission | reload | loadForCancel | cancelPrepared
        | recordCancelIntent => cases hevent
    | took | replied => cases hevent

end

/-! ## A host -/

/-- Numbers for everything a host chooses. -/
abbrev numbered : HostTypes := ⟨Nat, Nat, Nat, Nat, Nat, Nat, Nat⟩

/-- One task of one identity, whose number is the input's. -/
def Serves (phase : Option (Nat × Phase)) (e : Effect numbered) (reply : Reply e)
    (later : Option (Nat × Phase)) : Prop :=
  match e, reply with
  | .prepare input, .created task => phase = none ∧ task = input ∧ later = some (task, .prepared)
  | .beginDispatch task, true =>
      phase = some (task, .prepared) ∧ later = some (task, .dispatched)
  | .cancelPrepared task, .applied _ =>
      phase = some (task, .prepared) ∧ later = some (task, .cancelled)
  | .recordSubmission task _, .applied _ =>
      phase = some (task, .dispatched) ∧ later = some (task, .recorded)
  | _, _ => later = phase

def slotHost : AtomicHost numbered where
  Store := Option (Nat × Phase)
  perform := Serves
  phase := id
  created h := ⟨h.1, h.2.2⟩
  dispatched h := h
  cancelled h := h
  recorded h := h
  kept := by
    intro s s' e reply h hmoves
    cases e with
    | prepare =>
        cases reply with
        | created => exact absurd trivial hmoves
        | replayed | conflict => exact h
    | beginDispatch =>
        cases reply with
        | true => exact absurd trivial hmoves
        | false => exact h
    | recordSubmission | cancelPrepared =>
        cases reply with
        | applied => exact absurd trivial hmoves
        | conflict => exact h
    | send | reload | loadForCancel | recordCancelIntent => exact h

/-- A submission wins the dispatch from a cancellation that has its plan already. -/
theorem dispatch_wins : ∃ s : System Nat slotHost.Store (@Reply numbered) Nat (Ended numbered),
    Reachable slotHost.perform Starts s ∧ .called 0 (.send 5) ∈ s.trace ∧
      .took 1 (.cancelPrepared 5) .conflict ∈ s.trace ∧ s.trace.countP isSend ≤ 1 ∧
      ∀ i task outcome, .took i (.cancelPrepared task) (.applied outcome) ∉ s.trace := by
  have hidle : Reachable slotHost.perform Starts (System.idle none) :=
    @Reachable.idle Nat slotHost.Store (Effect numbered) Nat (Ended numbered) _ _ _ _ none
  have hstart := (hidle.step (.start (i := 0) rfl (.submit (5 : Nat)))).step
    (.start (i := 1) rfl (.cancel (0 : Nat)))
  have hcreate : slotHost.perform (none : Option (Nat × Phase)) (.prepare (5 : Nat))
    (.created (5 : Nat)) (some ((5 : Nat), Phase.prepared)) := ⟨rfl, rfl, rfl⟩
  have hplan : slotHost.perform (some ((5 : Nat), Phase.prepared)) (.loadForCancel (0 : Nat))
    (.prepared (5 : Nat)) (some ((5 : Nat), Phase.prepared)) := rfl
  have hdispatch : slotHost.perform (some ((5 : Nat), Phase.prepared)) (.beginDispatch (5 : Nat))
    true (some ((5 : Nat), Phase.dispatched)) := ⟨rfl, rfl⟩
  have hlose : slotHost.perform (some ((5 : Nat), Phase.dispatched)) (.cancelPrepared (5 : Nat))
    .conflict (some ((5 : Nat), Phase.dispatched)) := rfl
  have hcreated := ((hstart.step (.call (i := 0) rfl)).step (.take (i := 0) rfl hcreate)).step
    (.reply (i := 0) rfl)
  have hplanned := ((hcreated.step (.call (i := 1) rfl)).step (.take (i := 1) rfl hplan)).step
    (.reply (i := 1) rfl)
  have hdispatched := ((hplanned.step (.call (i := 0) rfl)).step
    (.take (i := 0) rfl hdispatch)).step (.reply (i := 0) rfl)
  have hsent := ((hdispatched.step (.call (i := 0) rfl)).step (.call (i := 1) rfl)).step
    (.take (i := 1) rfl hlose)
  obtain ⟨honce, -, hexclusive, -, -⟩ := submission_at_most_once hsent
  exact ⟨_, hsent, by simp [System.log, System.put, System.idle],
    by simp [System.log, System.put, System.idle], honce,
    fun i task outcome => hexclusive 0 i 5 task outcome (by simp [System.log, System.put])⟩

end TokenStation.Tasks
