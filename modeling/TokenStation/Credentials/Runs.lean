import TokenStation.Credentials.Selection
import TokenStation.Manifest.Spelling

/-!
# Runs of a recipe

The states a run can reach, turn by turn, how a run ends, and how an accepted
endpoint template is filled.
-/

namespace TokenStation.Credentials

open Library Library.Checked Manifest

section Runs

variable (serde : SerdeJson) (run : Run) (effects : RecipeEffectsV1)

/-- The states of a run. -/
inductive Reached : RunState → Prop where
  | start : Reached .start
  | go {s t : RunState} (hs : Reached s) (hturn : turn serde run effects s = .go t) : Reached t

/-- A step the run takes up. -/
def Taken (step : StepV1) : Prop :=
  ∃ s, Reached serde run effects s ∧ currentStep run s = some step

variable {serde run effects}

theorem steps_of_done {s : RunState} (h : turn serde run effects s = .done) :
    steps serde run effects s = .ok s := by
  rw [steps.eq_def]
  split <;> simp_all

theorem steps_of_stop {s : RunState} {stop : RecipeOutcomeV1} {requests : List RenderedRequestV1}
    (h : turn serde run effects s = .stop stop requests) :
    steps serde run effects s = .error (stop, requests) := by
  rw [steps.eq_def]
  split <;> simp_all

theorem steps_of_go {s t : RunState} (h : turn serde run effects s = .go t) :
    steps serde run effects s = steps serde run effects t := by
  rw [steps.eq_def]
  split <;> simp_all

/-- The loop ends in a state of the run: where no step is left or where a turn stops. -/
theorem steps_ends {s : RunState} (hs : Reached serde run effects s) :
    (∃ t, Reached serde run effects t ∧ turn serde run effects t = .done ∧
        steps serde run effects s = .ok t) ∨
      ∃ t stop requests, Reached serde run effects t ∧
        turn serde run effects t = .stop stop requests ∧
        steps serde run effects s = .error (stop, requests) := by
  induction hleft : run.recipe.steps.length - s.index using Nat.strong_induction_on
    generalizing s with
  | _ left ih =>
      cases hturn : turn serde run effects s with
      | done => exact .inl ⟨s, hs, hturn, steps_of_done hturn⟩
      | stop stop requests => exact .inr ⟨s, stop, requests, hs, hturn, steps_of_stop hturn⟩
      | go t =>
          obtain ⟨hindex, hlater⟩ := turn_go serde run effects hturn
          rw [steps_of_go hturn]
          exact ih _ (by omega) (hs.go hturn) rfl

/-- How a run of a slot ends. -/
inductive Ends (serde : SerdeJson) (credentials : CredentialsV1) (slot : Text)
    (stored : SortedMap Text Text) (effects : RecipeEffectsV1) : RecipeRunV1 → Prop where
  | refused {stop : RecipeOutcomeV1} (hbegin : begin credentials slot stored effects.now = .error stop) :
      Ends serde credentials slot stored effects ⟨none, [], stop⟩
  | stopped {run : Run} {s : RunState} {stop : RecipeOutcomeV1} {requests : List RenderedRequestV1}
      (hbegun : Begun credentials slot stored effects.now run)
      (hreached : Reached serde run effects s)
      (hturn : turn serde run effects s = .stop stop requests) :
      Ends serde credentials slot stored effects ⟨some run.chosen.name, requests, stop⟩
  | unpresented {run : Run} {s : RunState} {stop : RecipeOutcomeV1}
      (hbegun : Begun credentials slot stored effects.now run)
      (hreached : Reached serde run effects s) (hturn : turn serde run effects s = .done)
      (houtcome : outcome run s.progress serde = .error stop) :
      Ends serde credentials slot stored effects ⟨some run.chosen.name, s.requests, stop⟩
  | minted {run : Run} {s : RunState} {minted : MintedV1}
      (hbegun : Begun credentials slot stored effects.now run)
      (hreached : Reached serde run effects s) (hturn : turn serde run effects s = .done)
      (houtcome : outcome run s.progress serde = .ok minted) :
      Ends serde credentials slot stored effects ⟨some run.chosen.name, s.requests, .minted minted⟩

theorem runRecipe_ends (serde : SerdeJson) (credentials : CredentialsV1) (slot : Text)
    (stored : SortedMap Text Text) (effects : RecipeEffectsV1) :
    Ends serde credentials slot stored effects
      (runRecipeV1 serde credentials slot stored effects) := by
  unfold runRecipeV1
  cases hbegin : begin credentials slot stored effects.now with
  | error stop => exact .refused hbegin
  | ok run =>
      have hbegun := begun_of_begin hbegin
      rcases @steps_ends serde run effects _ .start with
        ⟨t, ht, hturn, hsteps⟩ | ⟨t, stop, requests, ht, hturn, hsteps⟩
      · dsimp only
        rw [hsteps]
        dsimp only
        cases houtcome : outcome run t.progress serde with
        | ok minted => exact .minted hbegun ht hturn houtcome
        | error stop => exact .unpresented hbegun ht hturn houtcome
      · dsimp only
        rw [hsteps]
        exact .stopped hbegun ht hturn

/-- The state a turn goes on to. -/
def Turn.next : Turn → Option RunState
  | .go next => some next
  | _ => none

theorem Turn.eq_go {turn : Turn} (h : turn.next.isSome) : turn = .go (turn.next.get h) := by
  cases turn with
  | done => cases h
  | stop stop requests => cases h
  | go t => rfl

theorem Reached.next {s : RunState} (hs : Reached serde run effects s)
    (h : (turn serde run effects s).next.isSome) :
    Reached serde run effects ((turn serde run effects s).next.get h) := hs.go (Turn.eq_go h)

/-- The step of a turn that does not end the run. -/
theorem currentStep_split {s : RunState} {step : StepV1} (h : currentStep run s = some step) :
    ∃ front later, run.recipe.steps = front ++ step :: later ∧ front.length = s.index := by
  obtain ⟨hindex, hget⟩ := List.getElem?_eq_some_iff.mp (Option.filter_eq_some_iff.mp h).1
  refine ⟨run.recipe.steps.take s.index, run.recipe.steps.drop (s.index + 1), ?_, ?_⟩
  · rw [← hget, List.getElem_cons_drop, List.take_append_drop]
  · rw [List.length_take]
    omega

theorem currentStep_getElem {s : RunState} {step : StepV1} (h : currentStep run s = some step) :
    run.recipe.steps[s.index]? = some step := (Option.filter_eq_some_iff.mp h).1

theorem currentStep_mem {s : RunState} {step : StepV1} (h : currentStep run s = some step) :
    step ∈ run.recipe.steps := by
  obtain ⟨front, later, hsplit, -⟩ := currentStep_split h
  rw [hsplit]
  exact List.mem_append_right _ List.mem_cons_self

/-- A turn that goes on, by what the step did. -/
inductive Going (serde : SerdeJson) (run : Run) (effects : RecipeEffectsV1) (s : RunState)
    (step : StepV1) : RunState → Prop where
  | signed {jwt : Text} (hkind : step.kind = .jwtSign)
      (hsign : sign serde run s.progress.outputs effects step = .ok jwt) :
      Going serde run effects s step
        ⟨s.index + 1, false, ⟨s.progress.outputs.insert (jwtOf step) (.string (String.ofList jwt)),
          s.progress.clocks⟩, s.requests⟩
  | probed {request : RenderedRequestV1} (hkind : step.kind = .httpProbe)
      (hrender : render serde run s.progress.outputs step = .ok request) :
      Going serde run effects s step
        ⟨s.index + 1, false, s.progress, s.requests ++ [request]⟩
  | extracted {request : RenderedRequestV1} {response : FakeResponseV1} {progress : Progress}
      (hkind : step.kind ≠ .jwtSign)
      (hrender : render serde run s.progress.outputs step = .ok request)
      (hresponse : effects.respond (s.requests ++ [request]) = some response)
      (hextract : extract serde run step response s.progress = .ok progress) :
      Going serde run effects s step ⟨s.index + 1, false, progress, s.requests ++ [request]⟩
  | jumped {request : RenderedRequestV1} {response : FakeResponseV1} {target : Text}
      {position : Nat} (hkind : step.kind ≠ .jwtSign)
      (hrender : render serde run s.progress.outputs step = .ok request)
      (hgoto : transition step response.status = .goto target)
      (hlater : s.index < position) :
      Going serde run effects s step ⟨position, true, s.progress, s.requests ++ [request]⟩

theorem going_of_turn {s t : RunState} (h : turn serde run effects s = .go t) :
    ∃ step, currentStep run s = some step ∧ Going serde run effects s step t := by
  unfold turn at h
  split at h
  · cases h
  · rename_i step hcurrent
    refine ⟨step, hcurrent, ?_⟩
    split at h
    · cases h
    · unfold perform at h
      split at h
      · rename_i hkind
        split at h
        · rename_i jwt hsign
          cases h
          exact .signed hkind hsign
        · cases h
      · rename_i hkind
        split at h
        · cases h
        · rename_i request hrender
          dsimp only at h
          split at h
          · cases h
          · rename_i response hresponse
            unfold answered at h
            split at h
            · split at h
              · rename_i hprobe
                cases h
                exact .probed hprobe hrender
              · split at h
                · rename_i progress hextract
                  cases h
                  exact .extracted hkind hrender hresponse hextract
                · cases h
            · rename_i target hgoto
              split at h
              · rename_i position hposition
                cases h
                refine .jumped hkind hrender hgoto ?_
                simpa using (Option.filter_eq_some_iff.mp hposition).2
              · cases h
            · cases h
            · cases h

end Runs

/-! ## Filled endpoints -/

section Endpoints

variable {malformed : RecipeOutcomeV1} {value : Text → Except RecipeOutcomeV1 Text}

theorem fillUrl_literal {text : Text} (h : Plain text) : fillUrl malformed value text = .ok text := by
  obtain ⟨htake, hdrop⟩ := cut_of_forall_ne fun c hc => (h c hc).1
  rw [fillUrl.eq_def]
  dsimp only
  split
  · rw [htake]
  · rename_i hcut
    rw [hdrop] at hcut
    cases hcut

theorem fillUrl_param {lead name : Text} (hlead : Plain lead) (hname : IsName name) (rest : Text) :
    fillUrl malformed value (lead ++ openBrace :: (name ++ closeBrace :: rest)) = (do
      let filled ← value name
      let later ← fillUrl malformed value rest
      return lead ++ filled ++ later) := by
  obtain ⟨htake, hdrop⟩ := cut_at (fun c hc => (hlead c hc).1) (name ++ closeBrace :: rest)
  obtain ⟨hname, hclose⟩ := cut_at hname.ne_closeBrace rest
  rw [fillUrl.eq_def]
  dsimp only
  split
  · rename_i hcut
    rw [hdrop] at hcut
    cases hcut
  · rename_i after hcut
    rw [hdrop] at hcut
    cases hcut
    split
    · rename_i hcut
      rw [hclose] at hcut
      cases hcut
    · rename_i found hcut
      rw [hclose] at hcut
      cases hcut
      rw [htake, hname]

/-- Filling a well-formed template fails only where a parameter has no value. -/
theorem refusesBy_fillUrl {P : RecipeOutcomeV1 → Prop} {template : Text} {split : List Part}
    (hsplits : Splits template split) (hvalue : ∀ name ∈ names split, RefusesBy P (value name)) :
    RefusesBy P (fillUrl malformed value template) := by
  induction hsplits with
  | literal hplain =>
      rw [fillUrl_literal hplain]
      exact refusesBy_ok _
  | @param lead name rest later hlead hname _ ih =>
      have hnames : names (literalPart lead ++ .param name :: later) = name :: names later := by
        rw [names_literalPart_append, names_param]
      rw [hnames] at hvalue
      rw [fillUrl_param hlead hname]
      refine (hvalue name List.mem_cons_self).bind fun filled _ => ?_
      refine RefusesBy.bind (ih fun name hmem => hvalue name (List.mem_cons_of_mem _ hmem)) ?_
      exact fun _ _ => refusesBy_ok _

/-- The names an accepted template is filled by. -/
theorem exists_splits {template : Text} {params : List (Text × Bool)}
    (h : templateParams template = .ok params) :
    ∃ split, Splits template split ∧ names split = params.map Prod.fst := by
  obtain ⟨pieces, rfl, rfl⟩ := exists_pieces h
  exact ⟨pieces.whole, splits_of_parts pieces.parts_eq, pieces.names_params.symm⟩

end Endpoints

end TokenStation.Credentials
