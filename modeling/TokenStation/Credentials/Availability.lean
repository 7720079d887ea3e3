import TokenStation.Credentials.Stops

/-!
# Outputs that steps refer to

Gate 1 looks for a referenced output among the steps listed before. A run has
produced it there unless a `goto` passed over the producing step, or left it on a
status it does not extract from, or the producing step is a probe.
-/

namespace TokenStation.Credentials

open Library Library.Checked Manifest

/-- The outputs a step refers to in parameters, headers, auth values and claims. -/
def references (step : StepV1) : List Text :=
  (requestSources step ++ step.claims.entries.map Prod.snd).filterMap (·.output)

/-- The outputs of a step that are not optional. -/
def requiredOutputs (step : StepV1) : List Text :=
  (if step.kind = .jwtSign then [jwtOf step] else []) ++
    (step.extract.entries.filter fun e => !e.2.optional).map fun e => outputOf step.id e.1

/-- Whether an output was produced or is declared optional. -/
def Available (recipe : RecipeV1) (outputs : SortedMap Text Library.Json.Value) (output : Text) :
    Prop :=
  (outputs.get output).isSome ∨
    ∃ producer ∈ recipe.steps, ∃ e ∈ producer.extract.entries,
      e.2.optional = true ∧ output = outputOf producer.id e.1

/-- Whether a step from a position on refers to an output. -/
def NeededFrom (recipe : RecipeV1) (position : Nat) (output : Text) : Prop :=
  ∃ k user, position ≤ k ∧ recipe.steps[k]? = some user ∧ output ∈ references user

/-- Nothing that is needed after a jump is an output of the step it leaves or of
one it passes over. -/
def SafeJump (recipe : RecipeV1) (left entered : Nat) : Prop :=
  ∀ p producer, left ≤ p → p < entered → recipe.steps[p]? = some producer →
    ∀ output ∈ requiredOutputs producer, ¬NeededFrom recipe entered output

/-- The step refers to no output of a probe. -/
def SkipsProbes (recipe : RecipeV1) (step : StepV1) : Prop :=
  ∀ probe ∈ recipe.steps, probe.kind = .httpProbe →
    ∀ output ∈ references step, output ∉ requiredOutputs probe

variable {serde : SerdeJson} {run : Run} {effects : RecipeEffectsV1} {credentials : CredentialsV1}

theorem NeededFrom.mono {recipe : RecipeV1} {i j : Nat} {output : Text}
    (h : NeededFrom recipe j output) (hij : i ≤ j) : NeededFrom recipe i output := by
  obtain ⟨k, user, hk, huser, houtput⟩ := h
  exact ⟨k, user, hij.trans hk, huser, houtput⟩

/-! ## What gate 1 says of references -/

theorem mem_outputsOf {step : StepV1} {output : Text} (h : output ∈ outputsOf step) :
    output ∈ requiredOutputs step ∨
      ∃ e ∈ step.extract.entries, e.2.optional = true ∧ output = outputOf step.id e.1 := by
  rw [outputsOf, List.mem_append] at h
  rw [requiredOutputs, List.mem_append]
  rcases h with h | h
  · exact .inl (.inl h)
  · obtain ⟨e, he, rfl⟩ := List.mem_map.mp h
    by_cases hoptional : e.2.optional = true
    · exact .inr ⟨e, he, hoptional, rfl⟩
    · exact .inl (.inr (List.mem_map.mpr ⟨e, List.mem_filter.mpr ⟨he, by simpa using hoptional⟩, rfl⟩))

theorem checkHttpStep_claims {step : StepV1} (h : checkHttpStep credentials step = .ok ()) :
    step.claims.entries = [] := by
  unfold checkHttpStep at h
  split at h
  · cases h
  · rw [bind_eq_ok] at h
    obtain ⟨params, -, h⟩ := h
    simp only [andThen_eq_ok, refuse_eq_ok, not_or, not_not] at h
    exact h.2.2.2.2.2.2

/-- Every referenced output is one of an earlier listed step. -/
theorem SoundStep.references {outputs later : List Text} {step : StepV1}
    (hsound : SoundStep credentials outputs step later) {output : Text}
    (h : output ∈ references step) : output ∈ outputs := by
  obtain ⟨source, hmem, houtput⟩ := List.mem_filterMap.mp h
  rw [requestSources, List.mem_append, List.mem_append, List.mem_append] at hmem
  rcases hmem with ((hmem | hmem) | hmem) | hmem
  · obtain ⟨e, he, rfl⟩ := List.mem_map.mp hmem
    exact (checkValue_ok (hsound.values e (List.mem_append_left _ he))).1.output output houtput
  · obtain ⟨e, he, rfl⟩ := List.mem_map.mp hmem
    exact (checkValue_ok (hsound.values e (List.mem_append_right _ he))).1.output output houtput
  · obtain ⟨auth, hauth, rfl⟩ := List.mem_map.mp hmem
    exact (checkAuth_ok (hsound.auth auth (by simpa using hauth))).output output houtput
  · obtain ⟨e, he, rfl⟩ := List.mem_map.mp hmem
    have hkind := hsound.kind
    rw [checkKind] at hkind
    split at hkind
    · exact (checkClaim_ok ((checkJwtStep_ok hkind).2.2 e he)).1.output output houtput
    · rw [checkHttpStep_claims hkind] at he
      cases he

/-! ## What extraction produces -/

/-- Everything produced before is still there. -/
def Keeps (before after : Progress) : Prop :=
  ∀ output, (before.outputs.get output).isSome → (after.outputs.get output).isSome

theorem isSome_get_insert {outputs : SortedMap Text Library.Json.Value} {key output : Text}
    {value : Library.Json.Value} (h : key = output ∨ (outputs.get output).isSome) :
    ((outputs.insert key value).get output).isSome := by
  rw [SortedMap.get_insert]
  split
  · rfl
  · rename_i hne
    exact h.resolve_left hne

theorem extractOne_ok {step : StepV1} {response : FakeResponseV1} {before after : Progress}
    {e : Text × ExtractV1} (h : extractOne serde run step response before e = .ok after) :
    Keeps before after ∧
      (e.2.optional = false → (after.outputs.get (outputOf step.id e.1)).isSome) := by
  unfold extractOne at h
  rw [bind_eq_ok] at h
  obtain ⟨⟨value, clocks⟩, -, h⟩ := h
  dsimp only at h
  split at h
  · split at h
    · rename_i hoptional
      cases h
      exact ⟨fun _ hsome => hsome, fun hrequired => by rw [hoptional] at hrequired; cases hrequired⟩
    · cases h
  · rename_i found
    have hafter : after = ⟨before.outputs.insert (outputOf step.id e.1) found, clocks⟩ := by
      split at h
      · rw [andThen_eq_ok, pure_eq_ok] at h
        exact h.2.symm
      · cases h
        rfl
    subst hafter
    exact ⟨fun _ hsome => isSome_get_insert (.inr hsome), fun _ => isSome_get_insert (.inl rfl)⟩

/-- An extraction that succeeds produces every output that is not optional. -/
theorem foldlM_extractOne {step : StepV1} {response : FakeResponseV1}
    {entries : List (Text × ExtractV1)} {before after : Progress}
    (h : entries.foldlM (extractOne serde run step response) before = .ok after) :
    Keeps before after ∧ ∀ e ∈ entries, e.2.optional = false →
      (after.outputs.get (outputOf step.id e.1)).isSome := by
  induction entries generalizing before with
  | nil =>
      cases h
      exact ⟨fun _ hsome => hsome, fun _ he => absurd he List.not_mem_nil⟩
  | cons first entries ih =>
      rw [List.foldlM_cons, bind_eq_ok] at h
      obtain ⟨middle, hfirst, hrest⟩ := h
      obtain ⟨hkept, hproduced⟩ := extractOne_ok hfirst
      obtain ⟨hlater, hothers⟩ := ih hrest
      refine ⟨fun output hsome => hlater output (hkept output hsome), ?_⟩
      rintro e he hrequired
      rcases List.mem_cons.mp he with rfl | he
      · exact hlater _ (hproduced hrequired)
      · exact hothers e he hrequired

/-! ## Runs -/

/-- Of each step behind, every output that is not optional was produced or is no
longer needed; probes aside. -/
def Supplied (run : Run) (s : RunState) : Prop :=
  ∀ p producer, p < s.index → run.recipe.steps[p]? = some producer → producer.kind ≠ .httpProbe →
    ∀ output ∈ requiredOutputs producer,
      (s.progress.outputs.get output).isSome ∨ ¬NeededFrom run.recipe s.index output

/-- A step that runs to its end supplies what it promises. -/
theorem Supplied.advance {s t : RunState} {step : StepV1} (hsupplied : Supplied run s)
    (hindex : t.index = s.index + 1) (hstep : run.recipe.steps[s.index]? = some step)
    (hkept : Keeps s.progress t.progress)
    (hnew : step.kind ≠ .httpProbe →
      ∀ output ∈ requiredOutputs step, (t.progress.outputs.get output).isSome) :
    Supplied run t := by
  intro p producer hp hproducer hkind output houtput
  rw [hindex] at hp ⊢
  rcases Nat.lt_succ_iff_lt_or_eq.mp hp with hp | rfl
  · rcases hsupplied p producer hp hproducer hkind output houtput with hsome | hunneeded
    · exact .inl (hkept output hsome)
    · exact .inr fun hneeded => hunneeded (hneeded.mono (Nat.le_succ _))
  · rw [hstep, Option.some.injEq] at hproducer
    subst hproducer
    exact .inl (hnew hkind output houtput)

theorem Supplied.jump {s t : RunState} (hsupplied : Supplied run s)
    (hprogress : t.progress = s.progress) (hlater : s.index < t.index)
    (hsafe : SafeJump run.recipe s.index t.index) : Supplied run t := by
  intro p producer hp hproducer hkind output houtput
  rw [hprogress]
  rcases Nat.lt_or_ge p s.index with hbefore | hbetween
  · rcases hsupplied p producer hbefore hproducer hkind output houtput with hsome | hunneeded
    · exact .inl hsome
    · exact .inr fun hneeded => hunneeded (hneeded.mono hlater.le)
  · exact .inr (hsafe p producer hbetween hp hproducer output houtput)

section Run

variable (hcomplete : Complete credentials run.recipe)

include hcomplete

theorem requiredOutputs_of_jwt {step : StepV1} (hstep : step ∈ run.recipe.steps)
    (hkind : step.kind = .jwtSign) : requiredOutputs step = [jwtOf step] := by
  obtain ⟨outputs, later, hchecked⟩ := hcomplete.exists_step hstep
  have hjwt := (soundStep_of_check hchecked).kind
  rw [checkKind, if_pos hkind, checkJwtStep, andThen_eq_ok, refuse_eq_ok] at hjwt
  simp only [not_or, not_not] at hjwt
  rw [requiredOutputs, if_pos hkind, hjwt.1.2.2.2.2.2.2]
  rfl

theorem supplied_of_reached
    (hjumps : ∀ s t, Reached serde run effects s → turn serde run effects s = .go t →
      t.enteredByGoto = true → SafeJump run.recipe s.index t.index)
    {s : RunState} (hs : Reached serde run effects s) : Supplied run s := by
  induction hs with
  | start => exact fun p _ hp => absurd hp (Nat.not_lt_zero p)
  | @go s t hs hturn ih =>
      obtain ⟨step, hcurrent, hgoing⟩ := going_of_turn hturn
      have hstep := currentStep_getElem hcurrent
      have hmem := currentStep_mem hcurrent
      cases hgoing with
      | signed hkind hsign =>
          refine ih.advance rfl hstep (fun _ => fun hsome => isSome_get_insert (.inr hsome)) ?_
          intro _ output houtput
          rw [requiredOutputs_of_jwt hcomplete hmem hkind, List.mem_singleton] at houtput
          exact isSome_get_insert (.inl houtput.symm)
      | probed hkind hrender =>
          exact ih.advance rfl hstep (fun _ hsome => hsome) fun hprobe => absurd hkind hprobe
      | extracted hkind hrender hresponse hextract =>
          obtain ⟨hkept, hproduced⟩ := foldlM_extractOne hextract
          refine ih.advance rfl hstep hkept fun _ output houtput => ?_
          rw [requiredOutputs, if_neg hkind, List.nil_append] at houtput
          obtain ⟨e, he, rfl⟩ := List.mem_map.mp houtput
          obtain ⟨he, hrequired⟩ := List.mem_filter.mp he
          exact hproduced e he (by simpa using hrequired)
      | jumped hkind hrender hgoto hlater =>
          exact ih.jump rfl hlater (hjumps s _ hs hturn rfl)

end Run

/-- In every run of an accepted section whose jumps leave no needed output behind,
a step taken up that refers to no probe has every output it refers to, the optional
ones aside. -/
theorem references_available (serde : SerdeJson) (effects : RecipeEffectsV1)
    (credentials : CredentialsV1) (secretSlots providers : List Text) (slot : Text)
    (stored : SortedMap Text Text) (run : Run)
    (hcheck : check credentials secretSlots providers = .ok ())
    (hbegin : begin credentials slot stored effects.now = .ok run)
    (hjumps : ∀ s t, Reached serde run effects s → turn serde run effects s = .go t →
      t.enteredByGoto = true → SafeJump run.recipe s.index t.index)
    (hprobes : ∀ step, Taken serde run effects step → SkipsProbes run.recipe step)
    (s : RunState) (hs : Reached serde run effects s) (step : StepV1)
    (hstep : currentStep run s = some step) (output : Text) (houtput : output ∈ references step) :
    Available run.recipe s.progress.outputs output := by
  have hcomplete := (begun_of_begin hbegin).complete (accepted_of_check hcheck)
  obtain ⟨front, later, hsplit, hindex⟩ := currentStep_split hstep
  have hlisted := (soundStep_of_check (hcomplete.step hsplit)).references houtput
  obtain ⟨producer, hproducer, hmem⟩ := List.mem_flatMap.mp hlisted
  have hproducerStep : producer ∈ run.recipe.steps := by
    rw [hsplit]
    exact List.mem_append_left _ hproducer
  rcases mem_outputsOf hmem with hrequired | ⟨e, he, hoptional, rfl⟩
  · left
    have hkind : producer.kind ≠ .httpProbe := fun hprobe =>
      hprobes step ⟨s, hs, hstep⟩ producer hproducerStep hprobe output houtput hrequired
    obtain ⟨p, hp, hget⟩ := List.getElem_of_mem hproducer
    have hposition : run.recipe.steps[p]? = some producer := by
      rw [hsplit, List.getElem?_append_left hp, List.getElem?_eq_getElem hp, hget]
    have hneeded : NeededFrom run.recipe s.index output :=
      ⟨s.index, step, le_rfl, currentStep_getElem hstep, houtput⟩
    exact (supplied_of_reached hcomplete hjumps hs p producer (hindex ▸ hp) hposition hkind output
      hrequired).resolve_right (fun hunneeded => hunneeded hneeded)
  · exact .inr ⟨producer, hproducerStep, e, he, hoptional, rfl⟩

/-! ## A jump over a needed output -/

/-- Two exchanges, the second of which sends what the first one extracts. -/
def chain (onStatus : SortedMap Text StatusActionV1) : RecipeV1 :=
  { steps := [{ exchange ['a'] ['t'] with onStatus := onStatus },
      { exchange ['c'] ['u'] with
        headers := .ofList [(['h'], { output := some (outputOf ['a'] ['t']) })] }]
    present := some [.output (outputOf ['c'] ['u'])]
    rotatesRefreshMaterial := some false }

def runOf (recipe : RecipeV1) (fields : SortedMap Text Text) : Run :=
  ⟨oneRecipe recipe, ⟨none, ['r'], recipe⟩, fields, 0⟩

/-- A JSON library whose pointers all find the whole document. -/
def rootJson : SerdeJson := ⟨fun _ => none, fun _ => none, fun document _ => some document, fun _ => []⟩

/-- Every exchange is answered with a status and a string. -/
def answering (status : Nat) : RecipeEffectsV1 :=
  ⟨0, zero_in_clock, fun _ _ _ => .ok [], fun _ => some ⟨status, .string "v"⟩⟩

/-- A probe between an exchange and the one that sends what it extracts; on status 200 the
probe is left over the exchange after it. -/
def detour : RecipeV1 :=
  { steps := [exchange ['a'] ['t'],
      { exchange ['p'] ['u'] with
        kind := .httpProbe
        onStatus := .ofList [(['2', '0', '0'], .goto ['c'])] },
      exchange ['b'] ['v'],
      { exchange ['c'] ['w'] with
        headers := .ofList [(['h'], { output := some (outputOf ['a'] ['t']) })] }]
    present := some [.output (outputOf ['c'] ['w'])]
    rotatesRefreshMaterial := some false }

theorem detour_references {step : StepV1} (hstep : step ∈ detour.steps) {output : Text}
    (h : output ∈ references step) : output = outputOf ['a'] ['t'] := by
  have hall : ∀ step ∈ detour.steps, ∀ output ∈ references step,
      output = outputOf ['a'] ['t'] := by decide
  exact hall step hstep output h

/-- The jump leaves behind nothing that the last step sends. -/
theorem detour_safeJump {s t : RunState}
    (hturn : turn rootJson (runOf detour .empty) (answering 200) s = .go t)
    (hentered : t.enteredByGoto = true) : SafeJump detour s.index t.index := by
  obtain ⟨step, hcurrent, hgoing⟩ := going_of_turn hturn
  have hposition := currentStep_getElem hcurrent
  cases hgoing with
  | signed => cases hentered
  | probed => cases hentered
  | extracted => cases hentered
  | jumped _ _ hgoto _ =>
      obtain ⟨e, he, -⟩ := transition_goto hgoto
      have hplain : ∀ step ∈ detour.steps.take 1, step.onStatus.entries = [] := by decide
      have hlater : 1 ≤ s.index := by
        by_contra hearly
        have hmem : step ∈ detour.steps.take 1 := by
          refine List.mem_of_getElem? (i := s.index) ?_
          rw [List.getElem?_take_of_lt (Nat.lt_of_not_le hearly)]
          exact hposition
        rw [hplain step hmem] at he
        cases he
      intro p producer hp _ hproducer output houtput hneeded
      obtain ⟨_, user, _, huser, hrefers⟩ := hneeded
      have hnone : ∀ producer ∈ detour.steps.drop 1,
          outputOf ['a'] ['t'] ∉ requiredOutputs producer := by decide
      have hmem : producer ∈ detour.steps.drop 1 := by
        refine List.mem_of_getElem? (i := p - 1) ?_
        rw [List.getElem?_drop, Nat.add_sub_cancel' (hlater.trans hp)]
        exact hproducer
      rw [detour_references (List.mem_of_getElem? huser) hrefers] at houtput
      exact hnone producer hmem houtput

theorem detour_available :
    ∃ s, Reached rootJson (runOf detour .empty) (answering 200) s ∧ s.index = 3 ∧
      s.enteredByGoto = true ∧ Available detour s.progress.outputs (outputOf ['a'] ['t']) := by
  have hstart : Reached rootJson (runOf detour .empty) (answering 200) .start := .start
  have hs := (hstart.next (by decide +kernel)).next (by decide +kernel)
  refine ⟨_, hs, by decide +kernel, by decide +kernel, ?_⟩
  refine references_available rootJson (answering 200) (oneRecipe detour) [['s']] [] ['s']
    .empty (runOf detour .empty) (by decide +kernel) rfl ?_ ?_ _ hs
    { exchange ['c'] ['w'] with
      headers := .ofList [(['h'], { output := some (outputOf ['a'] ['t']) })] }
    (by decide +kernel) _ (by decide)
  · exact fun s t _ hturn hentered => detour_safeJump hturn hentered
  · rintro step ⟨s, _, hcurrent⟩ probe hprobe hkind output houtput
    have hnone : ∀ probe ∈ detour.steps, probe.kind = .httpProbe →
        outputOf ['a'] ['t'] ∉ requiredOutputs probe := by decide
    rw [detour_references (currentStep_mem hcurrent) houtput]
    exact hnone probe hprobe hkind

def leavingChain : RecipeV1 := chain (.ofList [(['2', '0', '1'], .goto ['c'])])

/-- A `goto` on a status of its own leaves a step without extracting from it; gate 1
still takes the output for one of an earlier step. -/
theorem jump_leaves_output :
    check (oneRecipe leavingChain) [['s']] [] = .ok () ∧
      begin (oneRecipe leavingChain) ['s'] .empty 0 = .ok (runOf leavingChain .empty) ∧
      ¬∀ s step output, Reached rootJson (runOf leavingChain .empty) (answering 201) s →
        currentStep (runOf leavingChain .empty) s = some step → output ∈ references step →
          Available leavingChain s.progress.outputs output := by
  refine ⟨by decide +kernel, rfl, fun h => ?_⟩
  have hstart : Reached rootJson (runOf leavingChain .empty) (answering 201) .start := .start
  have hs := hstart.next (by decide +kernel)
  rcases h _ { exchange ['c'] ['u'] with
      headers := .ofList [(['h'], { output := some (outputOf ['a'] ['t']) })] }
      (outputOf ['a'] ['t']) hs (by decide +kernel) (by decide) with hsome | hoptional
  · revert hsome
    decide +kernel
  · revert hoptional
    decide

end TokenStation.Credentials
