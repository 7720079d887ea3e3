import TokenStation.Credentials.Assertions

/-!
# The lifetime of a minted value

Whatever its clock, a minted value lives within the host's range as the recipe
narrows it, and longer than the refresh margin. A token the recipe signed itself is
not kept past its own expiry exactly when that expiry leaves room for the floor of
the range.
-/

namespace TokenStation.Credentials

open Library Library.Checked Manifest

/-- The candidate that is presented. -/
def presentedCandidate (run : Run) (progress : Progress) : Option PresentCandidateV1 :=
  (run.recipe.present.getD []).find? fun candidate => (presentCandidate run progress candidate).isSome

/-- Whether a run presents the token of a signing step. -/
def Presents (run : Run) (progress : Progress) (signer : StepV1) : Prop :=
  signer ∈ run.recipe.steps ∧ signer.kind = .jwtSign ∧
    presentedCandidate run progress = some (.output (jwtOf signer))

/-- The value of a signer's `exp`. -/
def SignedExpiry (serde : SerdeJson) (run : Run) (signer : StepV1) (expiry : Int) : Prop :=
  ∃ source, signer.claims.get expClaim = some source ∧
    ∀ produced, sourceValue serde run produced source = .ok (.int expiry)

/-- What makes a minted lifetime usable. -/
structure UsableLifetime (serde : SerdeJson) (run : Run) (progress : Progress)
    (minted : MintedV1) : Prop where
  lower : max (hostMinTtlSeconds : Int) (run.recipe.minTtlSeconds.getD hostMinTtlSeconds) ≤
    minted.expiresAt - run.now
  upper : minted.expiresAt - run.now ≤
    min (hostMaxTtlSeconds : Int) (run.recipe.maxTtlSeconds.getD hostMaxTtlSeconds)
  margin : ∀ margin, run.recipe.refreshMarginSeconds = some margin →
    (margin : Int) < minted.expiresAt - run.now
  expiry : ∀ signer, Presents run progress signer →
    ∃ expiry, SignedExpiry serde run signer expiry ∧ minted.expiresAt ≤ expiry

variable {serde : SerdeJson} {run : Run} {effects : RecipeEffectsV1} {credentials : CredentialsV1}
  {progress : Progress} {minted : MintedV1}

/-! ## The range -/

theorem saturate_of_mem {n : Int} (hlow : minI64 ≤ n) (hhigh : n ≤ maxI64) : saturate n = n := by
  rw [saturate, min_eq_right hhigh, max_eq_right hlow]

/-- The bounds an accepted recipe sets. -/
structure NarrowedBounds (recipe : RecipeV1) : Prop where
  ordered : recipe.minTtlSeconds.getD hostMinTtlSeconds ≤ recipe.maxTtlSeconds.getD hostMaxTtlSeconds
  least : hostMinTtlSeconds ≤ recipe.minTtlSeconds.getD hostMinTtlSeconds
  floor : recipe.minTtlSeconds.getD hostMinTtlSeconds ≤ hostMaxTtlSeconds
  ceiling : hostMinTtlSeconds ≤ recipe.maxTtlSeconds.getD hostMaxTtlSeconds ∧
    recipe.maxTtlSeconds.getD hostMaxTtlSeconds ≤ hostMaxTtlSeconds
  margin : ∀ margin, recipe.refreshMarginSeconds = some margin →
    margin < recipe.minTtlSeconds.getD hostMinTtlSeconds

theorem checkTtl_ok {ttl : Option Nat} (h : checkTtl ttl = .ok ()) :
    ∀ bound, ttl = some bound → hostMinTtlSeconds ≤ bound ∧ bound ≤ hostMaxTtlSeconds := by
  rintro bound rfl
  simpa [checkTtl] using h

theorem narrowedBounds_of_check {recipe : RecipeV1} (h : checkBounds recipe = .ok ()) :
    NarrowedBounds recipe := by
  simp only [checkBounds, andThen_eq_ok] at h
  obtain ⟨hrange, hmargin, hmin, hmax⟩ := h
  have hmin := checkTtl_ok hmin
  have hmax := checkTtl_ok hmax
  have hbelow : ∀ margin, recipe.refreshMarginSeconds = some margin →
      margin < recipe.minTtlSeconds.getD hostMinTtlSeconds := by
    intro margin hdeclared
    rw [checkMargin, hdeclared, refuse_eq_ok] at hmargin
    exact Nat.lt_of_not_le hmargin
  cases hlow : recipe.minTtlSeconds with
  | none =>
      cases hhigh : recipe.maxTtlSeconds with
      | none => exact ⟨by simp [hlow, hhigh]; decide, by simp [hlow], by simp [hlow]; decide,
          by simp [hhigh]; decide, hbelow⟩
      | some high => exact ⟨by simpa [hlow, hhigh] using (hmax high hhigh).1, by simp [hlow],
          by simp [hlow]; decide, by simpa [hhigh] using hmax high hhigh, hbelow⟩
  | some low =>
      have hbounds := hmin low hlow
      cases hhigh : recipe.maxTtlSeconds with
      | none => exact ⟨by simpa [hlow, hhigh] using hbounds.2, by simpa [hlow] using hbounds.1,
          by simpa [hlow] using hbounds.2, by simp [hhigh]; decide, hbelow⟩
      | some high =>
          rw [checkRange, hlow, hhigh, refuse_eq_ok] at hrange
          exact ⟨by simpa [hlow, hhigh] using Nat.le_of_not_lt hrange,
            by simpa [hlow] using hbounds.1, by simpa [hlow] using hbounds.2,
            by simpa [hhigh] using hmax high hhigh, hbelow⟩

theorem NarrowedBounds.floorSeconds_eq {recipe : RecipeV1} (h : NarrowedBounds recipe) :
    floorSeconds recipe = recipe.minTtlSeconds.getD hostMinTtlSeconds := max_eq_left h.least

theorem NarrowedBounds.ceilingSeconds_eq {recipe : RecipeV1} (h : NarrowedBounds recipe) :
    ceilingSeconds recipe = recipe.maxTtlSeconds.getD hostMaxTtlSeconds := by
  rw [ceilingSeconds, h.floorSeconds_eq, min_eq_left h.ceiling.2, max_eq_left h.ordered]

theorem NarrowedBounds.clamp_mem (h : NarrowedBounds run.recipe) (expiry : Int) :
    (run.recipe.minTtlSeconds.getD hostMinTtlSeconds : Int) ≤ clampedTtl run expiry ∧
      clampedTtl run expiry ≤ run.recipe.maxTtlSeconds.getD hostMaxTtlSeconds := by
  have hordered := h.ordered
  rw [clampedTtl, h.floorSeconds_eq, h.ceilingSeconds_eq]
  omega

/-! ## The presented candidate -/

/-- What is presented is the first candidate with a value. -/
theorem presented_ok {value : Text} {expiry : Int} (h : presented run progress = .ok (value, expiry)) :
    ∃ candidate, presentedCandidate run progress = some candidate ∧
      presentCandidate run progress candidate = some (.ok (value, expiry)) := by
  unfold presented at h
  split at h
  · cases h
  · rename_i candidates hcandidates
    obtain ⟨hpresent, -⟩ := Option.filter_eq_some_iff.mp hcandidates
    rw [presentedCandidate, hpresent, Option.getD_some]
    split at h
    · rename_i result hresult
      subst h
      clear hcandidates hpresent
      induction candidates with
      | nil => cases hresult
      | cons candidate candidates ih =>
          rw [List.findSome?_cons] at hresult
          rw [List.find?_cons]
          cases hcandidate : presentCandidate run progress candidate with
          | some found =>
              rw [hcandidate] at hresult
              exact ⟨candidate, rfl, hcandidate.trans hresult⟩
          | none =>
              rw [hcandidate] at hresult
              exact ih hresult
    · cases h

/-- A minted value expires after its clamped lifetime. -/
theorem outcome_ok (h : outcome run progress serde = .ok minted) :
    ∃ expiry, presented run progress = .ok (minted.present, expiry) ∧
      minted.expiresAt = saturatingAdd run.now (clampedTtl run expiry) := by
  rw [outcome, bind_eq_ok] at h
  obtain ⟨⟨present, expiry⟩, hpresented, h⟩ := h
  rw [pure_eq_ok] at h
  subst h
  exact ⟨expiry, hpresented, rfl⟩

/-! ## Tokens the recipe signed -/

theorem isName_no_dot {id : Text} (h : isName id = true) : '.' ∉ id := by
  intro hdot
  rw [isName, Bool.and_eq_true, List.all_eq_true] at h
  cases h.2 '.' hdot

/-- The step of an output. -/
theorem stepOf_outputOf {id : Text} (h : isName id = true) (name : Text) :
    stepOf (outputOf id name) = id := by
  have hdot := isName_no_dot h
  have htake : (outputOf id name).takeWhile (· != '.') = id :=
    (cut_at (fun c hc heq => hdot (by rwa [heq] at hc)) name).1
  rw [stepOf, htake]
  split
  · rfl
  · rename_i habsent
    exact absurd (List.mem_append_right id List.mem_cons_self) habsent

theorem Complete.isName_id {recipe : RecipeV1} (hcomplete : Complete credentials recipe)
    {step : StepV1} (h : step ∈ recipe.steps) : isName step.id = true := by
  obtain ⟨front, later, hsplit⟩ := List.append_of_mem h
  exact (checkSteps_ok hcomplete.steps hsplit).1

/-- Clocks are those of steps that extract. -/
def ClocksOfExtractions (run : Run) (progress : Progress) : Prop :=
  ∀ id, (progress.clocks.get id).isSome → ∃ step ∈ run.recipe.steps, step.id = id ∧
    step.kind ≠ .jwtSign

theorem extractOne_clocks {step : StepV1} {response : FakeResponseV1} {before after : Progress}
    {e : Text × ExtractV1} (h : extractOne serde run step response before e = .ok after) (id : Text)
    (hclock : (after.clocks.get id).isSome) : step.id = id ∨ (before.clocks.get id).isSome := by
  unfold extractOne at h
  rw [bind_eq_ok] at h
  obtain ⟨⟨value, clocks⟩, hread, h⟩ := h
  have hclocks : clocks = before.clocks ∨ ∃ expiry, clocks = before.clocks.insert step.id expiry := by
    unfold readExtraction at hread
    split at hread
    split at hread
    · cases hread
      exact .inl rfl
    · split at hread
      · cases hread
        exact .inr ⟨_, rfl⟩
      · cases hread
  have hafter : after.clocks = clocks := by
    dsimp only at h
    split at h
    · split at h
      · cases h
        rfl
      · cases h
    · split at h
      · rw [andThen_eq_ok, pure_eq_ok] at h
        rw [← h.2]
      · cases h
        rfl
  rw [hafter] at hclock
  rcases hclocks with rfl | ⟨expiry, rfl⟩
  · exact .inr hclock
  · rw [SortedMap.get_insert] at hclock
    split at hclock
    · rename_i heq
      exact .inl heq
    · exact .inr hclock

theorem clocks_of_reached {s : RunState} (hs : Reached serde run effects s) :
    ClocksOfExtractions run s.progress := by
  induction hs with
  | start => exact fun _ h => absurd h (by simp [RunState.start])
  | @go s t hs hturn ih =>
      obtain ⟨step, hcurrent, hgoing⟩ := going_of_turn hturn
      cases hgoing with
      | signed hkind hsign => exact ih
      | probed hkind hrender => exact ih
      | extracted hkind hrender hresponse hextract =>
          refine foldlM_keeps (fun e _ before after hone hbefore id hclock => ?_) ih hextract
          rcases extractOne_clocks hone id hclock with rfl | hclock
          · exact ⟨step, currentStep_mem hcurrent, rfl, hkind⟩
          · exact hbefore id hclock
      | jumped hkind hrender hgoto hlater => exact ih

/-- A presented token of a signing step has no clock: it is kept for the recipe's
default, which is not longer than the lifetime its `exp` gives. -/
theorem presents_expiry (hcomplete : Complete credentials run.recipe)
    (hclocks : ClocksOfExtractions run progress) {signer : StepV1}
    (hpresents : Presents run progress signer) {value : Text} {expiry : Int}
    (hcandidate : presentCandidate run progress (.output (jwtOf signer)) =
      some (.ok (value, expiry))) :
    ∃ lifetime, ∃ cached : Nat, lifetimeOf signer = some lifetime ∧ cached ≤ lifetime ∧
      expiry = saturatingAdd run.now cached := by
  obtain ⟨hsigner, hkind, hchosen⟩ := hpresents
  obtain ⟨present, hpresent, -, -, hpresented⟩ := presentation_ok hcomplete.presentation
  have hlisted : .output (jwtOf signer) ∈ present := by
    rw [presentedCandidate, hpresent, Option.getD_some] at hchosen
    exact List.mem_of_find?_eq_some hchosen
  have hchecked := hpresented signer hsigner
  rw [checkPresented, if_pos ⟨hkind, hlisted⟩] at hchecked
  have hnone : progress.clocks.get (stepOf (jwtOf signer)) = none := by
    rw [jwtOf, stepOf_outputOf (hcomplete.isName_id hsigner)]
    by_contra hclock
    obtain ⟨step, hstep, hid, hother⟩ := hclocks signer.id (Option.isSome_iff_ne_none.mpr hclock)
    have hsame := hcomplete.find_step hstep
    rw [hid, hcomplete.find_step hsigner, Option.some.injEq] at hsame
    exact hother (hsame ▸ hkind)
  split at hchecked
  · rename_i lifetime cached hlifetime hcached
    rw [refuse_eq_ok, not_lt] at hchecked
    refine ⟨lifetime, cached, hlifetime, hchecked, ?_⟩
    rw [presentCandidate, hnone, hcached] at hcandidate
    obtain ⟨found, -, hfound⟩ := Option.map_eq_some_iff.mp hcandidate
    cases hfound
    rfl
  · cases hchecked

/-- The `exp` of a checked signer. -/
theorem signedExpiry_of_lifetime (hcomplete : Complete credentials run.recipe) {signer : StepV1}
    (hsigner : signer ∈ run.recipe.steps) (hkind : signer.kind = .jwtSign) {lifetime : Int}
    (h : lifetimeOf signer = some lifetime) :
    SignedExpiry serde run signer (saturatingAdd run.now lifetime) := by
  obtain ⟨source, hsource, hnow⟩ := Option.bind_eq_some_iff.mp h
  obtain ⟨outputs, later, hchecked⟩ := hcomplete.exists_step hsigner
  have hjwt := (soundStep_of_check hchecked).kind
  rw [checkKind, if_pos hkind] at hjwt
  have hclaim := (checkJwtStep_ok hjwt).2.2 _ (SortedMap.mem_entries_iff.mpr hsource)
  have hone := (checkClaim_ok hclaim).1.one
  rw [sourceCount, hnow] at hone
  refine ⟨source, hsource, fun produced => ?_⟩
  have hothers : source.constant = none ∧ source.field = none ∧ source.output = none := by
    cases hconstant : source.constant <;> cases hfield : source.field <;>
      cases houtput : source.output <;> simp [hconstant, hfield, houtput] at hone ⊢
  obtain ⟨hconstant, hfield, houtput⟩ := hothers
  rw [sourceValue, hconstant, hfield, houtput, hnow]

theorem int_injective {m n : Int} (h : Library.Json.Value.int m = .int n) : m = n := by
  unfold Library.Json.Value.int at h
  split at h <;> split at h <;>
    simp only [Library.Json.Value.number.injEq, Library.Json.Number.posInt.injEq,
      Library.Json.Number.negInt.injEq, reduceCtorEq] at h <;>
    omega

/-! ## Minted values -/

section Minted

variable (hcomplete : Complete credentials run.recipe)
  (hnow : minI64 ≤ run.now ∧ run.now + hostMaxTtlSeconds ≤ maxI64)

include hcomplete hnow

/-- The lifetime of a minted value is the clamped one. -/
theorem minted_ttl {expiry : Int}
    (h : minted.expiresAt = saturatingAdd run.now (clampedTtl run expiry)) :
    minted.expiresAt - run.now = clampedTtl run expiry := by
  have hbounds := narrowedBounds_of_check hcomplete.bounds
  obtain ⟨hlower, hupper⟩ := hbounds.clamp_mem expiry
  have hceiling := hbounds.ceiling.2
  rw [h, saturatingAdd, saturate_of_mem] <;> omega

/-- A presented token's kept time against its own expiry. -/
theorem kept_le_expiry_iff {lifetime : Int} {cached : Nat} (hcached : cached ≤ lifetime)
    (h : minted.expiresAt =
      saturatingAdd run.now (clampedTtl run (saturatingAdd run.now cached))) :
    minted.expiresAt ≤ saturatingAdd run.now lifetime ↔ (floorSeconds run.recipe : Int) ≤ lifetime := by
  have hbounds := narrowedBounds_of_check hcomplete.bounds
  have httl := minted_ttl hcomplete hnow h
  have hmem := hbounds.clamp_mem (saturatingAdd run.now cached)
  have hceiling := hbounds.ceiling.2
  have hordered := hbounds.ordered
  have hmin : minI64 < 0 := by decide
  rw [clampedTtl, hbounds.floorSeconds_eq, hbounds.ceilingSeconds_eq] at httl
  rw [hbounds.floorSeconds_eq]
  simp only [saturatingAdd, saturatingSub, saturate] at httl ⊢
  omega

theorem usableLifetime_iff (hclocks : ClocksOfExtractions run progress)
    (h : outcome run progress serde = .ok minted) :
    UsableLifetime serde run progress minted ↔
      ∀ signer lifetime, Presents run progress signer → lifetimeOf signer = some lifetime →
        (floorSeconds run.recipe : Int) ≤ lifetime := by
  have hbounds := narrowedBounds_of_check hcomplete.bounds
  obtain ⟨expiry, hpresented, hexpires⟩ := outcome_ok h
  obtain ⟨candidate, hchosen, hcandidate⟩ := presented_ok hpresented
  have httl := minted_ttl hcomplete hnow hexpires
  have hmem := hbounds.clamp_mem expiry
  have hown {signer : StepV1} (hpresents : Presents run progress signer) :
      ∃ lifetime, lifetimeOf signer = some lifetime ∧
        SignedExpiry serde run signer (saturatingAdd run.now lifetime) ∧
        (minted.expiresAt ≤ saturatingAdd run.now lifetime ↔
          (floorSeconds run.recipe : Int) ≤ lifetime) := by
    obtain rfl := Option.some.inj (hchosen.symm.trans hpresents.2.2)
    obtain ⟨lifetime, cached, hlifetime, hcached, rfl⟩ :=
      presents_expiry hcomplete hclocks hpresents hcandidate
    exact ⟨lifetime, hlifetime,
      signedExpiry_of_lifetime hcomplete hpresents.1 hpresents.2.1 hlifetime,
      kept_le_expiry_iff hcomplete hnow hcached hexpires⟩
  constructor
  · intro husable signer lifetime hpresents hlifetime
    obtain ⟨lifetime', hlifetime', ⟨source, hsource, hvalue⟩, hiff⟩ := hown hpresents
    rw [hlifetime, Option.some.injEq] at hlifetime'
    subst hlifetime'
    obtain ⟨found, ⟨source', hsource', hvalue'⟩, hle⟩ := husable.expiry signer hpresents
    rw [hsource, Option.some.injEq] at hsource'
    subst hsource'
    have hsame : found = saturatingAdd run.now lifetime := by
      have heq := (hvalue' .empty).symm.trans (hvalue .empty)
      exact int_injective (Except.ok.inj heq)
    exact hiff.mp (hsame ▸ hle)
  · intro hfloor
    refine ⟨?_, ?_, ?_, ?_⟩
    · have hleast := hbounds.least
      rw [httl]
      omega
    · have hceiling := hbounds.ceiling.2
      rw [httl]
      omega
    · intro margin hmargin
      have hbelow := hbounds.margin margin hmargin
      rw [httl]
      omega
    · intro signer hpresents
      obtain ⟨lifetime, hlifetime, hsigned, hiff⟩ := hown hpresents
      exact ⟨_, hsigned, hiff.mpr (hfloor signer lifetime hpresents hlifetime)⟩

end Minted

/-- In every run of an accepted section that mints, the lifetime is within the host's
range as the recipe narrows it and longer than the refresh margin; a presented token
of the recipe's own is not kept past its `exp` exactly when that leaves room for the
floor of the range. -/
theorem lifetime_usable_iff (serde : SerdeJson) (effects : RecipeEffectsV1)
    (credentials : CredentialsV1) (secretSlots providers : List Text) (slot : Text)
    (stored : SortedMap Text Text) (run : Run) (s : RunState) (minted : MintedV1)
    (hcheck : check credentials secretSlots providers = .ok ())
    (hnow : effects.now + 86400 ≤ maxI64)
    (hbegin : begin credentials slot stored effects.now = .ok run)
    (hsteps : steps serde run effects .start = .ok s)
    (hminted : outcome run s.progress serde = .ok minted) :
    UsableLifetime serde run s.progress minted ↔
      ∀ signer lifetime, Presents run s.progress signer → lifetimeOf signer = some lifetime →
        (floorSeconds run.recipe : Int) ≤ lifetime := by
  have hbegun := begun_of_begin hbegin
  have hcomplete := hbegun.complete (accepted_of_check hcheck)
  have hreached : Reached serde run effects s := by
    rcases steps_ends (.start : Reached serde run effects .start) with
      ⟨t, ht, -, hends⟩ | ⟨t, stop, requests, -, -, hends⟩
    · rw [hsteps, Except.ok.injEq] at hends
      exact hends ▸ ht
    · rw [hsteps] at hends
      cases hends
  refine usableLifetime_iff hcomplete ?_ (clocks_of_reached hreached) hminted
  rw [hbegun.now_eq]
  exact ⟨effects.fits.1, hnow⟩

/-! ## A token kept too long -/

/-- A token valid for some seconds, presented as the recipe signs it. -/
def presentedToken (lifetime : Int) (cached : Nat) : RecipeV1 :=
  { steps := [signing ['g'] { field := some ['k'] } [(expClaim, { nowPlus := some lifetime })]]
    present := some [.output ['g', '.', 'j', 'w', 't']]
    defaultSeconds := some cached
    rotatesRefreshMaterial := some false }

/-- The one turn of such a recipe signs the token. -/
theorem presentedToken_steps (lifetime : Int) (cached : Nat)
    (h : (turn rootJson (runOf (presentedToken lifetime cached) oneSecret) (answering 200)
      .start).next.isSome) :
    steps rootJson (runOf (presentedToken lifetime cached) oneSecret) (answering 200) .start =
      .ok ((turn rootJson (runOf (presentedToken lifetime cached) oneSecret) (answering 200)
        .start).next.get h) := by
  have hturn := Turn.eq_go h
  generalize (turn rootJson (runOf (presentedToken lifetime cached) oneSecret) (answering 200)
    .start).next.get h = s at hturn ⊢
  have hindex : 1 ≤ s.index := (turn_go _ _ _ hturn).2
  refine (steps_of_go hturn).trans (steps_of_done ?_)
  have hnone : currentStep (runOf (presentedToken lifetime cached) oneSecret) s = none := by
    unfold currentStep
    rw [List.getElem?_eq_none hindex]
    rfl
  unfold turn
  rw [hnone]

theorem presentedToken_usable : ∃ (s : RunState) (minted : MintedV1),
    outcome (runOf (presentedToken 60 30) oneSecret) s.progress rootJson = .ok minted ∧
      UsableLifetime rootJson (runOf (presentedToken 60 30) oneSecret) s.progress minted := by
  have hsteps := presentedToken_steps 60 30 (by decide)
  obtain ⟨minted, hminted⟩ := exists_of_isOk (x := outcome (runOf (presentedToken 60 30) oneSecret)
    ((turn rootJson (runOf (presentedToken 60 30) oneSecret) (answering 200) .start).next.get
      (by decide)).progress rootJson) (by decide)
  refine ⟨_, minted, hminted, (lifetime_usable_iff rootJson (answering 200)
    (oneRecipe (presentedToken 60 30)) [['s']] [] ['s'] oneSecret _ _ minted (by decide)
    (by decide) rfl hsteps hminted).mpr ?_⟩
  rintro signer lifetime ⟨hsigner, -, -⟩ hlifetime
  obtain rfl := List.mem_singleton.mp hsigner
  cases hlifetime
  decide

/-- Gate 1 accepts a token valid for half a minute: the host's floor keeps it for a
whole one. -/
theorem shortToken_kept :
    check (oneRecipe (presentedToken 30 30)) [['s']] [] = .ok () ∧
      ∃ (s : RunState) (minted : MintedV1),
        steps rootJson (runOf (presentedToken 30 30) oneSecret) (answering 200) .start = .ok s ∧
        outcome (runOf (presentedToken 30 30) oneSecret) s.progress rootJson = .ok minted ∧
        ¬UsableLifetime rootJson (runOf (presentedToken 30 30) oneSecret) s.progress minted := by
  have hcheck : check (oneRecipe (presentedToken 30 30)) [['s']] [] = .ok () := by decide
  have hsteps := presentedToken_steps 30 30 (by decide)
  obtain ⟨minted, hminted⟩ := exists_of_isOk (x := outcome (runOf (presentedToken 30 30) oneSecret)
    ((turn rootJson (runOf (presentedToken 30 30) oneSecret) (answering 200) .start).next.get
      (by decide)).progress rootJson) (by decide)
  have hbegin : begin (oneRecipe (presentedToken 30 30)) ['s'] oneSecret 0 =
      .ok (runOf (presentedToken 30 30) oneSecret) := rfl
  have hcomplete := (begun_of_begin hbegin).complete (accepted_of_check hcheck)
  have hstart : Reached rootJson (runOf (presentedToken 30 30) oneSecret) (answering 200) .start :=
    .start
  refine ⟨hcheck, _, minted, hsteps, hminted, fun husable => ?_⟩
  have hfloor := (usableLifetime_iff hcomplete (by decide) (clocks_of_reached (hstart.next _))
    hminted).mp husable (signing ['g'] { field := some ['k'] } [(expClaim, { nowPlus := some 30 })])
    30 ⟨List.mem_cons_self, rfl, by decide⟩ rfl
  revert hfloor
  decide

end TokenStation.Credentials
