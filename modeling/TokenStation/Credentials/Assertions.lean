import TokenStation.Credentials.Availability

/-!
# Signed assertions

What a signing step is given as its key, and which signed tokens reach a request:
those it sends itself, and those nested as claims in a token it sends.
-/

namespace TokenStation.Credentials

open Library Library.Checked Manifest

/-- Whether a claim of one signer is the token of another. -/
def Nests (outer signer : StepV1) : Prop :=
  ∃ e ∈ outer.claims.entries, e.2.output = some (jwtOf signer)

/-- The signers whose tokens reach a step's request. -/
inductive Flows (recipe : RecipeV1) (step : StepV1) : StepV1 → Prop where
  | sent {signer : StepV1} (hsigner : signer ∈ recipe.steps) (hkind : signer.kind = .jwtSign)
      (hsent : ∃ source ∈ requestSources step, source.output = some (jwtOf signer)) :
      Flows recipe step signer
  | nested {outer signer : StepV1} (houter : Flows recipe step outer)
      (hsigner : signer ∈ recipe.steps) (hkind : signer.kind = .jwtSign)
      (hnests : Nests outer signer) : Flows recipe step signer

/-- Whether a key is the value of a stored secret field, or what a pointer finds in it. -/
def KeyFromSecret (serde : SerdeJson) (credentials : CredentialsV1)
    (stored : SortedMap Text Text) (key : Text) : Prop :=
  ∃ field declared value, credentials.fields.get field = some declared ∧ declared.secret = true ∧
    stored.get field = some value ∧
    (key = value ∨ ∃ document pointer found, serde.fromStr value = some document ∧
      serde.pointer document pointer = some found ∧ key = text serde found)

/-- Whether a signer's `aud` is a URL, whatever was produced before. -/
def BoundTo (serde : SerdeJson) (run : Run) (signer : StepV1) (url : Text) : Prop :=
  ∃ source, signer.claims.get audClaim = some source ∧
    ∀ produced, sourceValue serde run produced source = .ok (.string (String.ofList url))

/-- Whether a signer asks for a step's endpoint as its `aud`. -/
def AsksFor (signer step : StepV1) : Prop :=
  (signer.claims.get audClaim).bind (·.endpointOf) = some step.id

variable {serde : SerdeJson} {run : Run} {effects : RecipeEffectsV1} {credentials : CredentialsV1}
  {stored : SortedMap Text Text} {slot : Text}

/-! ## Keys -/

theorem fieldOf_ok {field value : Text} (h : fieldOf run field = .ok value) :
    run.fields.get field = some value := by
  unfold fieldOf at h
  split at h
  · rename_i found hfound
    cases h
    exact hfound
  · cases h

/-- What a field gives: its value, or what a pointer finds in the document it holds. -/
theorem fieldValue_ok {field : Text} {pointer : Option Text} {value : Library.Json.Value}
    (h : fieldValue serde run field pointer = .ok value) :
    ∃ present, run.fields.get field = some present ∧
      (value = .string (String.ofList present) ∨ ∃ document pointer,
        serde.fromStr present = some document ∧ serde.pointer document pointer = some value) := by
  rw [fieldValue, bind_eq_ok] at h
  obtain ⟨present, hpresent, h⟩ := h
  refine ⟨present, fieldOf_ok hpresent, ?_⟩
  split at h
  · exact .inl (pure_eq_ok.mp h).symm
  · split at h
    · cases h
    · rename_i document hdocument
      split at h
      · rename_i pointer found hfound
        rw [pure_eq_ok] at h
        subst h
        exact .inr ⟨document, _, hdocument, (Option.filter_eq_some_iff.mp hfound).1⟩
      · cases h

/-- A key without a constant comes from a stored secret field. -/
theorem signingKey_secret (hbegun : Begun credentials slot stored effects.now run)
    (haccepted : Accepted credentials) {step : StepV1} {outputs later : List Text}
    (hsound : SoundStep credentials outputs step later) (hkind : step.kind = .jwtSign)
    {key : ValueSourceV1} (hkey : step.key = some key) (hconstant : key.constant = none)
    {produced : SortedMap Text Library.Json.Value} {keyText : Text}
    (h : signingKey serde run produced key = .ok keyText) :
    KeyFromSecret serde credentials stored keyText := by
  have hjwt := hsound.kind
  rw [checkKind, if_pos hkind] at hjwt
  obtain ⟨-, ⟨key', field, hkey', hfield, hsecret⟩, -⟩ := checkJwtStep_ok hjwt
  rw [hkey, Option.some.injEq] at hkey'
  subst hkey'
  obtain ⟨declared, hdeclared, hsecret⟩ := Option.map_eq_some_iff.mp hsecret
  rw [signingKey, map_eq_ok] at h
  obtain ⟨value, hvalue, rfl⟩ := h
  rw [sourceValue, hconstant, hfield] at hvalue
  obtain ⟨present, hpresent, hread⟩ := fieldValue_ok hvalue
  have hstored : stored.get field = some present := by
    rw [hbegun.present_eq hdeclared, presentValue, haccepted.default_of_secret hdeclared hsecret,
      Option.filter_none, Option.or_none] at hpresent
    exact (Option.filter_eq_some_iff.mp hpresent).1
  refine ⟨field, declared, present, hdeclared, hsecret, hstored, ?_⟩
  rcases hread with rfl | ⟨document, pointer, hdocument, hfound⟩
  · exact .inl (String.toList_ofList)
  · exact .inr ⟨document, pointer, value, hdocument, hfound, rfl⟩

/-! ## Audiences -/

/-- Tokens reach only a step that sends something. -/
theorem Flows.requestSources_ne {recipe : RecipeV1} {step signer : StepV1}
    (h : Flows recipe step signer) : requestSources step ≠ [] := by
  induction h with
  | sent hsigner hkind hsent =>
      obtain ⟨source, hsource, -⟩ := hsent
      exact List.ne_nil_of_mem hsource
  | nested houter hsigner hkind hnests ih => exact ih

/-- The URL of a rendered request, its query aside, is that of its step. -/
theorem render_url {step : StepV1} {produced : SortedMap Text Library.Json.Value}
    {request : RenderedRequestV1} (h : render serde run produced step = .ok request) :
    ∃ url, urlOf run step.id = .ok url ∧
      (request.url = url ∨ ∃ query, request.url = url ++ '?' :: query) := by
  simp only [render, bind_eq_ok] at h
  obtain ⟨method, -, url, hurl, declared, -, auth, -, params, -, h⟩ := h
  refine ⟨url, hurl, ?_⟩
  split at h
  · cases h
    exact .inl rfl
  · split at h
    · cases h
      exact .inr ⟨_, rfl⟩
    · split at h
      · cases h
        exact .inl rfl
      · cases h
        exact .inl rfl

/-- A source that asks for an endpoint and has one source is that endpoint. -/
theorem sourceValue_endpoint {outputs : List Text} {source : ValueSourceV1}
    (hsource : SoundSource credentials outputs source) {target url : Text}
    (htarget : source.endpointOf = some target) (hurl : urlOf run target = .ok url)
    (produced : SortedMap Text Library.Json.Value) :
    sourceValue serde run produced source = .ok (.string (String.ofList url)) := by
  have hone := hsource.one
  rw [sourceCount, htarget] at hone
  have hothers : source.constant = none ∧ source.field = none ∧ source.output = none ∧
      source.nowPlus = none := by
    cases hconstant : source.constant <;> cases hfield : source.field <;>
      cases houtput : source.output <;> cases hnow : source.nowPlus <;>
      simp [hconstant, hfield, houtput, hnow] at hone ⊢
  obtain ⟨hconstant, hfield, houtput, hnow⟩ := hothers
  rw [sourceValue, hconstant, hfield, houtput, hnow, htarget]
  dsimp only
  rw [hurl]
  rfl

/-- A checked signer that asks for a step's endpoint is bound to its URL. -/
theorem boundTo_of_asksFor (hcomplete : Complete credentials run.recipe) {signer step : StepV1}
    (hsigner : signer ∈ run.recipe.steps) (hkind : signer.kind = .jwtSign)
    (hasks : AsksFor signer step) {url : Text} (hurl : urlOf run step.id = .ok url) :
    BoundTo serde run signer url := by
  obtain ⟨outputs, later, hchecked⟩ := hcomplete.exists_step hsigner
  have hjwt := (soundStep_of_check hchecked).kind
  rw [checkKind, if_pos hkind] at hjwt
  obtain ⟨source, hsource, htarget⟩ := Option.bind_eq_some_iff.mp hasks
  have hclaim := (checkJwtStep_ok hjwt).2.2 _ (SortedMap.mem_entries_iff.mpr hsource)
  exact ⟨source, hsource, fun produced =>
    sourceValue_endpoint (checkClaim_ok hclaim).1 htarget hurl produced⟩

/-- A token that a step sends asks for that step's endpoint. -/
theorem asksFor_of_sent (hcomplete : Complete credentials run.recipe) {signer step : StepV1}
    (hstep : step ∈ run.recipe.steps) (hsigner : signer ∈ run.recipe.steps)
    (hkind : signer.kind = .jwtSign)
    (hsent : ∃ source ∈ requestSources step, source.output = some (jwtOf signer)) :
    AsksFor signer step := by
  have hassertion := hcomplete.assertions signer hsigner
  rw [checkAssertion, if_pos hkind, andThen_eq_ok] at hassertion
  have hreceivers := hassertion.2
  have hmem : step.id ∈ receivers run.recipe signer := by
    refine List.mem_map_of_mem (List.mem_filter.mpr ⟨hstep, ?_⟩)
    obtain ⟨source, hsource, houtput⟩ := hsent
    exact List.any_eq_true.mpr ⟨source, hsource, by simpa using houtput⟩
  unfold checkReceivers at hreceivers
  split at hreceivers
  · rename_i hnone
    rw [hnone] at hmem
    cases hmem
  · rename_i receiver hone
    rw [hone, List.mem_singleton] at hmem
    rw [refuse_eq_ok, not_not] at hreceivers
    rw [AsksFor, hreceivers, hmem]
  · cases hreceivers

/-! ## Runs -/

/-- In every run of an accepted section whose signing keys set no constant and whose
nested tokens ask for the endpoint they reach, keys come from stored secrets and
every token that reaches a request is bound to the URL it is sent to. -/
theorem assertions_bound (serde : SerdeJson) (effects : RecipeEffectsV1)
    (credentials : CredentialsV1) (secretSlots providers : List Text) (slot : Text)
    (stored : SortedMap Text Text) (run : Run)
    (hcheck : check credentials secretSlots providers = .ok ())
    (hbegin : begin credentials slot stored effects.now = .ok run)
    (hkeys : ∀ step key, Taken serde run effects step → step.key = some key → key.constant = none)
    (hnested : ∀ step outer signer, Taken serde run effects step → Flows run.recipe step outer →
      signer ∈ run.recipe.steps → signer.kind = .jwtSign → Nests outer signer →
        AsksFor signer step)
    (s : RunState) (hs : Reached serde run effects s) (step : StepV1)
    (hstep : currentStep run s = some step) :
    (∀ key keyText, step.kind = .jwtSign → step.key = some key →
      signingKey serde run s.progress.outputs key = .ok keyText →
        KeyFromSecret serde credentials stored keyText) ∧
    ∀ request signer, render serde run s.progress.outputs step = .ok request →
      Flows run.recipe step signer →
        ∃ url, urlOf run step.id = .ok url ∧
          (request.url = url ∨ ∃ query, request.url = url ++ '?' :: query) ∧
          BoundTo serde run signer url := by
  have hbegun := begun_of_begin hbegin
  have haccepted := accepted_of_check hcheck
  have hcomplete := hbegun.complete haccepted
  have htaken : Taken serde run effects step := ⟨s, hs, hstep⟩
  have hmem := currentStep_mem hstep
  constructor
  · intro key keyText hkind hkey hsigning
    obtain ⟨outputs, later, hchecked⟩ := hcomplete.exists_step hmem
    exact signingKey_secret hbegun haccepted (soundStep_of_check hchecked) hkind hkey
      (hkeys step key htaken hkey) hsigning
  · intro request signer hrender hflows
    obtain ⟨url, hurl, hrequest⟩ := render_url hrender
    refine ⟨url, hurl, hrequest, ?_⟩
    cases hflows with
    | sent hsigner hkind hsent =>
        exact boundTo_of_asksFor hcomplete hsigner hkind
          (asksFor_of_sent hcomplete hmem hsigner hkind hsent) hurl
    | nested houter hsigner hkind hnests =>
        exact boundTo_of_asksFor hcomplete hsigner hkind
          (hnested step _ signer htaken houter hsigner hkind hnests) hurl

/-! ## A token inside a token -/

def signing (id : Text) (key : ValueSourceV1) (claims : List (Text × ValueSourceV1)) : StepV1 :=
  { id := id, kind := .jwtSign, alg := some .hs256, key := some key, claims := .ofList claims }

def inner (key audience : ValueSourceV1) : StepV1 := signing ['g'] key [(audClaim, audience)]

def outer : StepV1 :=
  signing ['h'] { field := some ['k'] }
    [(['a', 'c', 't'], { output := some ['g', '.', 'j', 'w', 't'] }),
      (audClaim, { endpointOf := some ['c'] })]

def sender : StepV1 :=
  { exchange ['c'] ['t'] with auth := some ⟨['x'], { output := some ['h', '.', 'j', 'w', 't'] }⟩ }

/-- A signed token that is a claim of the next, which an exchange sends. -/
def nestedTokens (key audience : ValueSourceV1) : RecipeV1 :=
  { steps := [inner key audience, outer, sender]
    present := some [.output (outputOf ['c'] ['t'])]
    rotatesRefreshMaterial := some false }

def oneSecret : SortedMap Text Text := .ofList [(['k'], ['v'])]

theorem nestedTokens_flows (key audience : ValueSourceV1) :
    Flows (nestedTokens key audience) sender (inner key audience) := by
  refine @Flows.nested _ _ outer _ (.sent (List.mem_cons_of_mem _ List.mem_cons_self) rfl ?_)
    List.mem_cons_self rfl ?_
  · exact ⟨_, List.mem_cons_self, rfl⟩
  · exact ⟨_, List.mem_cons_self, rfl⟩

def boundTokens : RecipeV1 := nestedTokens { field := some ['k'] } { endpointOf := some ['c'] }

/-- The run gets to the step that sends the outer token. -/
theorem sender_reached : ∃ s, Reached rootJson (runOf boundTokens oneSecret) (answering 200) s ∧
    currentStep (runOf boundTokens oneSecret) s = some sender ∧
    (render rootJson (runOf boundTokens oneSecret) s.progress.outputs sender).isOk = true := by
  have hstart : Reached rootJson (runOf boundTokens oneSecret) (answering 200) .start := .start
  have hs := (hstart.next (by decide +kernel)).next (by decide +kernel)
  exact ⟨_, hs, by decide +kernel, by decide +kernel⟩

theorem boundTokens_bound : ∃ url, urlOf (runOf boundTokens oneSecret) ['c'] = .ok url ∧
    BoundTo rootJson (runOf boundTokens oneSecret)
      (inner { field := some ['k'] } { endpointOf := some ['c'] }) url := by
  obtain ⟨s, hs, hcurrent, hrendered⟩ := sender_reached
  obtain ⟨request, hrender⟩ := exists_of_isOk hrendered
  have hmem {step : StepV1} (h : step ∈ boundTokens.steps) :
      step = inner { field := some ['k'] } { endpointOf := some ['c'] } ∨ step = outer ∨
        step = sender := by
    simpa [boundTokens, nestedTokens] using h
  have hbound := assertions_bound rootJson (answering 200) (oneRecipe boundTokens) [['s']] [] ['s']
    oneSecret (runOf boundTokens oneSecret) (by decide +kernel) rfl ?_ ?_ s hs sender hcurrent
  · obtain ⟨url, hurl, -, hto⟩ := hbound.2 request _ hrender (nestedTokens_flows _ _)
    exact ⟨url, hurl, hto⟩
  · rintro step key ⟨t, -, hstep⟩ hkey
    rcases hmem (currentStep_mem hstep) with rfl | rfl | rfl
    · cases hkey
      rfl
    · cases hkey
      rfl
    · cases hkey
  · rintro step _ signer ⟨t, -, hstep⟩ hflows hsigner hkind -
    have hsender : step = sender := by
      rcases hmem (currentStep_mem hstep) with rfl | rfl | rfl
      · exact absurd rfl hflows.requestSources_ne
      · exact absurd rfl hflows.requestSources_ne
      · rfl
    subst hsender
    rcases hmem hsigner with rfl | rfl | rfl
    · rfl
    · rfl
    · cases hkind

def looseTokens : RecipeV1 :=
  nestedTokens { constant := some (.text ['z']), field := some ['k'] } { constant := some (.text ['z']) }

/-- Gate 1 accepts a key that is a constant beside a secret field, and a nested token
that is bound to nothing: the run signs with the constant and sends the token. -/
theorem looseTokens_accepted :
    check (oneRecipe looseTokens) [['s']] [] = .ok () ∧
      begin (oneRecipe looseTokens) ['s'] oneSecret 0 = .ok (runOf looseTokens oneSecret) ∧
      (¬∀ s step key keyText, Reached rootJson (runOf looseTokens oneSecret) (answering 200) s →
        currentStep (runOf looseTokens oneSecret) s = some step → step.key = some key →
          signingKey rootJson (runOf looseTokens oneSecret) s.progress.outputs key = .ok keyText →
            KeyFromSecret rootJson (oneRecipe looseTokens) oneSecret keyText) ∧
      ¬∀ s step request signer, Reached rootJson (runOf looseTokens oneSecret) (answering 200) s →
        currentStep (runOf looseTokens oneSecret) s = some step →
          render rootJson (runOf looseTokens oneSecret) s.progress.outputs step = .ok request →
            Flows looseTokens step signer → ∃ url,
              urlOf (runOf looseTokens oneSecret) step.id = .ok url ∧
                BoundTo rootJson (runOf looseTokens oneSecret) signer url := by
  have hstart : Reached rootJson (runOf looseTokens oneSecret) (answering 200) .start := .start
  refine ⟨by decide +kernel, rfl, fun h => ?_, fun h => ?_⟩
  · have hkey := h .start _ { constant := some (.text ['z']), field := some ['k'] } ['z'] hstart rfl
      rfl rfl
    obtain ⟨field, declared, value, -, -, hstored, hread⟩ := hkey
    have hvalue : value = ['v'] := by
      have hmem := SortedMap.mem_entries_iff.mpr hstored
      exact congrArg Prod.snd (List.mem_singleton.mp hmem)
    rcases hread with heq | ⟨document, pointer, found, hdocument, -⟩
    · rw [hvalue] at heq
      revert heq
      decide
    · cases hdocument
  · obtain ⟨s, hs, hcurrent, hrendered⟩ :
        ∃ s, Reached rootJson (runOf looseTokens oneSecret) (answering 200) s ∧
          currentStep (runOf looseTokens oneSecret) s = some sender ∧
          (render rootJson (runOf looseTokens oneSecret) s.progress.outputs sender).isOk = true :=
      ⟨_, (hstart.next (by decide +kernel)).next (by decide +kernel), by decide +kernel,
        by decide +kernel⟩
    obtain ⟨request, hrender⟩ := exists_of_isOk hrendered
    obtain ⟨url, hurl, source, hsource, hvalue⟩ :=
      h s sender request _ hs hcurrent hrender (nestedTokens_flows _ _)
    cases hsource
    have hurl' : (urlOf (runOf looseTokens oneSecret) ['c']).toOption.bind List.head? = some 'h' := by
      decide +kernel
    rw [show (['c'] : Text) = sender.id from rfl, hurl] at hurl'
    have hz : String.ofList ['z'] = String.ofList url := by
      simpa [sourceValue, constantValue] using hvalue .empty
    rw [← String.ofList_injective hz] at hurl'
    cases hurl'

end TokenStation.Credentials
