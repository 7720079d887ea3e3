import TokenStation.Credentials.Runs

/-!
# Configuration outcomes

A configuration outcome of an accepted section is the stored fields' doing: it
names a declared field that is absent, malformed, no document that holds what is
asked of it, or no key. The exceptions are an auth value that asks for the endpoint
of a step that has none, where neither check of endpoints looks, and a signing key
that has a constant beside its field.
-/

namespace TokenStation.Credentials

open Library Library.Checked Manifest

/-- What a reference to a field reads in its value: the value, or what a pointer finds in it. -/
def readIn (serde : SerdeJson) (value : Text) : Option Text → Option Library.Json.Value
  | none => some (.string (String.ofList value))
  | some pointer =>
      (serde.fromStr value).bind fun document =>
        (serde.pointer document pointer).filter fun found => !found.isNull

/-- The values a step is given. -/
def sourcesOf (step : StepV1) : List ValueSourceV1 :=
  (step.params.entries ++ step.headers.entries ++ step.claims.entries).map Prod.snd ++
    step.auth.toList.map (·.value) ++ step.key.toList

/-- A run of the slot takes a step that reads a field at a pointer. -/
def ReadsAt (serde : SerdeJson) (effects : RecipeEffectsV1) (credentials : CredentialsV1)
    (slot : Text) (stored : SortedMap Text Text) (field pointer : Text) : Prop :=
  ∃ run step source, Begun credentials slot stored effects.now run ∧
    Taken serde run effects step ∧ source ∈ sourcesOf step ∧ source.field = some field ∧
      source.pointer = some pointer

/-- The signer refuses a field's value: in a run of the slot, a signing step whose key is
that field asked for a signature by what its key reads in the value, and got none. -/
structure SignerRefuses (serde : SerdeJson) (effects : RecipeEffectsV1)
    (credentials : CredentialsV1) (slot : Text) (stored : SortedMap Text Text)
    (field value : Text) : Prop where
  refused : ∃ run s step alg key keyValue claims error,
    Begun credentials slot stored effects.now run ∧ Reached serde run effects s ∧
      currentStep run s = some step ∧ step.kind = .jwtSign ∧ step.alg = some alg ∧
      step.key = some key ∧ key.field = some field ∧
      readIn serde value key.pointer = some keyValue ∧
      sourceValues serde run s.progress.outputs (orderedClaims step) = .ok claims ∧
      effects.sign alg (textBytes (text serde keyValue)) (textBytes (signingInput serde alg claims)) =
        .error error

/-- What makes a field's present value unusable. -/
inductive Unusable (serde : SerdeJson) (effects : RecipeEffectsV1) (credentials : CredentialsV1)
    (slot : Text) (stored : SortedMap Text Text) (field : Text)
    (declared : CredentialFieldV1) : Option Text → Prop where
  | absent : Unusable serde effects credentials slot stored field declared none
  | malformed {value : Text} (h : declared.syn.any fun syn => !syn.admits value) :
      Unusable serde effects credentials slot stored field declared (some value)
  | noDocument {value pointer : Text}
      (hreads : ReadsAt serde effects credentials slot stored field pointer)
      (h : serde.fromStr value = none) :
      Unusable serde effects credentials slot stored field declared (some value)
  | nothingThere {value pointer : Text} {document : Library.Json.Value}
      (hreads : ReadsAt serde effects credentials slot stored field pointer)
      (hdocument : serde.fromStr value = some document)
      (h : (serde.pointer document pointer).filter (fun found => !found.isNull) = none) :
      Unusable serde effects credentials slot stored field declared (some value)
  | noKey {value : Text} (h : SignerRefuses serde effects credentials slot stored field value) :
      Unusable serde effects credentials slot stored field declared (some value)

/-- A configuration outcome names a declared field whose present value is unusable. -/
def Blames (serde : SerdeJson) (effects : RecipeEffectsV1) (credentials : CredentialsV1)
    (slot : Text) (stored : SortedMap Text Text) : RecipeOutcomeV1 → Prop
  | .configuration named _ => ∃ field declared, named = some field ∧
      credentials.fields.get field = some declared ∧
      Unusable serde effects credentials slot stored field declared
        (presentValue stored field declared)
  | _ => True

/-- An endpoint the step's auth value asks for is that of an HTTP step. -/
def AuthNamesEndpoint (recipe : RecipeV1) (step : StepV1) : Prop :=
  ∀ auth, step.auth = some auth → ∀ target, auth.value.endpointOf = some target →
    ∃ receiver ∈ recipe.steps, receiver.id = target ∧ receiver.kind ≠ .jwtSign

/-- A signing step's key is read from its field, not a constant. -/
def SignsByField (step : StepV1) : Prop :=
  step.kind = .jwtSign → ∀ key, step.key = some key → key.constant = none

variable {serde : SerdeJson} {effects : RecipeEffectsV1} {credentials : CredentialsV1}
  {slot : Text} {stored : SortedMap Text Text}

/-! ## Fields -/

theorem resolveField_blames {present : SortedMap Text Text} {e : Text × CredentialFieldV1}
    (he : e ∈ credentials.fields.entries) :
    RefusesBy (Blames serde effects credentials slot stored) (resolveField stored present e) := by
  obtain ⟨name, declared⟩ := e
  have hdeclared := SortedMap.mem_entries_iff.mp he
  unfold resolveField
  dsimp only
  split
  · rename_i value hvalue
    split
    · rename_i hsyn
      refine refusesBy_error.mpr ⟨name, declared, rfl, hdeclared, ?_⟩
      rw [hvalue]
      exact .malformed hsyn
    · exact refusesBy_ok _
  · rename_i hvalue
    split
    · refine refusesBy_error.mpr ⟨name, declared, rfl, hdeclared, ?_⟩
      rw [hvalue]
      exact .absent
    · exact refusesBy_ok _

theorem resolveFields_blames (haccepted : Accepted credentials) :
    RefusesBy (Blames serde effects credentials slot stored) (resolveFields credentials stored) := by
  have hfold := RefusesBy.foldlM (P := Blames serde effects credentials slot stored)
    (f := resolveField stored) (l := credentials.fields.entries)
    (fun e he present => resolveField_blames he) .empty
  refine hfold.bind fun present hpresent => ?_
  refine RefusesBy.bind (RefusesBy.forM fun group hgroup => ?_) fun _ _ => refusesBy_ok _
  refine refusesBy_refuse fun habsent => ?_
  obtain ⟨hne, hdeclared⟩ := haccepted.group hgroup
  obtain ⟨first, rest, rfl⟩ := List.exists_cons_of_ne_nil hne
  obtain ⟨declared, hfirst⟩ := Option.isSome_iff_exists.mp (hdeclared first List.mem_cons_self)
  refine ⟨first, declared, rfl, hfirst, ?_⟩
  have hnone : present.get first = none := by simpa using (List.all_eq_true.mp habsent) first
  obtain ⟨hlisted, -⟩ :=
    foldlM_resolveField_get credentials.fields.ordered (fun _ _ => rfl) hpresent first
  rw [← hlisted declared (SortedMap.mem_entries_iff.mpr hfirst), hnone]
  exact .absent

/-! ## Values -/

section Values

variable {run : Run} (hbegun : Begun credentials slot stored effects.now run)

include hbegun

theorem Begun.present_eq {field : Text} {declared : CredentialFieldV1}
    (h : credentials.fields.get field = some declared) :
    run.fields.get field = presentValue stored field declared := by
  rw [resolveFields_get hbegun.fields_eq, h, Option.bind_some]

theorem fieldOf_blames {field : Text} (hfield : (credentials.fields.get field).isSome) :
    RefusesBy (Blames serde effects credentials slot stored) (fieldOf run field) := by
  obtain ⟨declared, hdeclared⟩ := Option.isSome_iff_exists.mp hfield
  unfold fieldOf
  split
  · exact refusesBy_ok _
  · rename_i hnone
    refine refusesBy_error.mpr ⟨field, declared, rfl, hdeclared, ?_⟩
    rw [← hbegun.present_eq hdeclared, hnone]
    exact .absent

/-- A field that is read has a present value, in which its pointer finds what is read. -/
theorem fieldValue_eq_ok {field : Text} {declared : CredentialFieldV1}
    (hdeclared : credentials.fields.get field = some declared) {pointer : Option Text}
    {read : Library.Json.Value} (h : fieldValue serde run field pointer = .ok read) :
    ∃ value, presentValue stored field declared = some value ∧
      readIn serde value pointer = some read := by
  rw [fieldValue, bind_eq_ok] at h
  obtain ⟨value, hvalue, h⟩ := h
  refine ⟨value, ?_, ?_⟩
  · rw [← hbegun.present_eq hdeclared]
    unfold fieldOf at hvalue
    split at hvalue
    · rename_i found hfound
      cases hvalue
      exact hfound
    · cases hvalue
  · split at h
    · rw [← pure_eq_ok.mp h]
      rfl
    · split at h
      · cases h
      · rename_i document hdocument
        change (serde.fromStr value).bind _ = _
        rw [hdocument, Option.bind_some]
        split at h
        · rename_i found hfound
          rw [hfound, pure_eq_ok.mp h]
        · cases h

theorem fieldValue_blames {field : Text} (hfield : (credentials.fields.get field).isSome)
    (pointer : Option Text) (hreads : ∀ found, pointer = some found →
      ReadsAt serde effects credentials slot stored field found) :
    RefusesBy (Blames serde effects credentials slot stored)
      (fieldValue serde run field pointer) := by
  obtain ⟨declared, hdeclared⟩ := Option.isSome_iff_exists.mp hfield
  refine (fieldOf_blames hbegun hfield).bind fun value hvalue => ?_
  have hpresent : presentValue stored field declared = some value := by
    rw [← hbegun.present_eq hdeclared]
    unfold fieldOf at hvalue
    split at hvalue
    · rename_i found hfound
      cases hvalue
      exact hfound
    · cases hvalue
  split
  · exact refusesBy_ok _
  · split
    · rename_i hdocument
      refine refusesBy_error.mpr ⟨field, declared, rfl, hdeclared, ?_⟩
      rw [hpresent]
      exact .noDocument (hreads _ rfl) hdocument
    · rename_i document hdocument
      split
      · exact refusesBy_ok _
      · rename_i hnothing
        refine refusesBy_error.mpr ⟨field, declared, rfl, hdeclared, ?_⟩
        rw [hpresent]
        exact .nothingThere (hreads _ rfl) hdocument hnothing

/-! ## Endpoints -/

omit hbegun in
theorem checkHttpStep_template {step : StepV1} (h : checkHttpStep credentials step = .ok ()) :
    ∃ endpoint params, step.endpoint = some endpoint ∧ templateParams endpoint = .ok params ∧
      (∀ e ∈ params, checkEndpointParam credentials step.endpointParams e = .ok ()) ∧
      checkMethod step = .ok () := by
  unfold checkHttpStep at h
  split at h
  · cases h
  · rename_i endpoint hendpoint
    rw [bind_eq_ok] at h
    obtain ⟨params, hparams, h⟩ := h
    simp only [andThen_eq_ok, forM_eq_ok] at h
    exact ⟨endpoint, params, hendpoint, hparams, h.2.1, h.2.2.1⟩

omit hbegun in
theorem checkEndpointParam_ok {endpointParams : SortedMap Text FieldRefV1} {e : Text × Bool}
    (h : checkEndpointParam credentials endpointParams e = .ok ()) :
    ∃ reference field, endpointParams.get e.1 = some reference ∧
      credentials.fields.get reference.field = some field ∧ field.syn.isSome ∧
      field.secret = false ∧ reference.pointer = none := by
  obtain ⟨param, inHost⟩ := e
  unfold checkEndpointParam at h
  dsimp only at h
  split at h
  · cases h
  · rename_i reference hreference
    split at h
    · cases h
    · rename_i field hfield
      split at h
      · cases h
      · rename_i syn hsyn
        obtain ⟨hsyn, hplain⟩ := Option.filter_eq_some_iff.mp hsyn
        rw [Bool.and_eq_true] at hplain
        exact ⟨reference, field, hreference, hfield, by simp [hsyn], by simpa using hplain.1,
          by simpa using hplain.2⟩

/-- A checked parameter lacks a value only where its field is absent. -/
theorem paramValue_blames {step : StepV1} {malformed : RecipeOutcomeV1} {e : Text × Bool}
    (h : checkEndpointParam credentials step.endpointParams e = .ok ()) :
    RefusesBy (Blames serde effects credentials slot stored) (paramValue run step malformed e.1) := by
  obtain ⟨reference, field, hreference, hfield, hsyn, hsecret, hpointer⟩ := checkEndpointParam_ok h
  have hchecked : ((run.credentials.fields.get reference.field).any fun field =>
      field.syn.isSome && !field.secret) = true := by
    rw [hbegun.credentials_eq, hfield]
    simp [hsyn, hsecret]
  unfold paramValue
  rw [hreference]
  dsimp only
  rw [hchecked, hpointer, if_neg (by simp)]
  exact (fieldOf_blames hbegun (by rw [hfield]; rfl)).map _

variable (haccepted : Accepted credentials)

include haccepted

/-- The endpoint of an HTTP step of the run's recipe. -/
theorem urlOf_blames {step : StepV1} (hstep : step ∈ run.recipe.steps)
    (hkind : step.kind ≠ .jwtSign) :
    RefusesBy (Blames serde effects credentials slot stored) (urlOf run step.id) := by
  have hcomplete := hbegun.complete haccepted
  obtain ⟨outputs, later, hchecked⟩ := hcomplete.exists_step hstep
  have hhttp := (soundStep_of_check hchecked).kind
  rw [checkKind, if_neg hkind] at hhttp
  obtain ⟨endpoint, params, hendpoint, hparams, hfilled, -⟩ := checkHttpStep_template hhttp
  obtain ⟨split, hsplit, hnames⟩ := exists_splits hparams
  unfold urlOf
  rw [hcomplete.find_step hstep]
  dsimp only
  rw [hendpoint]
  dsimp only
  refine refusesBy_fillUrl hsplit fun name hname => ?_
  rw [hnames] at hname
  obtain ⟨e, he, rfl⟩ := List.mem_map.mp hname
  exact paramValue_blames hbegun (hfilled e he)

/-- A value with one source: a field, an output, the time, or the endpoint of an
HTTP step. -/
theorem sourceValue_blames {outputs : List Text} {source : ValueSourceV1}
    (hsource : SoundSource credentials outputs source)
    {step : StepV1} (htaken : Taken serde run effects step) (hmem : source ∈ sourcesOf step)
    (htarget : ∀ target, source.endpointOf = some target →
      ∃ receiver ∈ run.recipe.steps, receiver.id = target ∧ receiver.kind ≠ .jwtSign)
    (produced : SortedMap Text Library.Json.Value) :
    RefusesBy (Blames serde effects credentials slot stored)
      (sourceValue serde run produced source) := by
  unfold sourceValue
  split
  · exact refusesBy_ok _
  · rename_i hconstant
    split
    · rename_i field hfield
      exact fieldValue_blames hbegun (hsource.field field hfield) source.pointer
        fun found hfound => ⟨run, step, source, hbegun, htaken, hmem, hfield, hfound⟩
    · rename_i hfield
      split
      · split
        · exact refusesBy_ok _
        · exact refusesBy_error.mpr trivial
      · rename_i houtput
        split
        · exact refusesBy_ok _
        · rename_i hnow
          split
          · rename_i target hendpoint
            obtain ⟨receiver, hreceiver, rfl, hkind⟩ := htarget target hendpoint
            exact (urlOf_blames hbegun haccepted hreceiver hkind).map _
          · rename_i hendpoint
            have hone := hsource.one
            rw [sourceCount, hconstant, hfield, houtput, hnow, hendpoint] at hone
            cases hone

theorem sourceValues_blames (outputs : List Text) {sources : List (Text × ValueSourceV1)}
    {step : StepV1} (htaken : Taken serde run effects step)
    (hsources : ∀ e ∈ sources, SoundSource credentials outputs e.2 ∧ e.2 ∈ sourcesOf step ∧
      ∀ target, e.2.endpointOf = some target →
        ∃ receiver ∈ run.recipe.steps, receiver.id = target ∧ receiver.kind ≠ .jwtSign)
    (produced : SortedMap Text Library.Json.Value) :
    RefusesBy (Blames serde effects credentials slot stored)
      (sourceValues serde run produced sources) := by
  refine RefusesBy.mapM fun e he => ?_
  obtain ⟨hsource, hmem, htarget⟩ := hsources e he
  exact (sourceValue_blames hbegun haccepted hsource htaken hmem htarget produced).map _

/-! ## Steps -/

variable {outputs later : List Text} {step : StepV1}

omit hbegun haccepted in
/-- A parameter or header asks for no endpoint. -/
theorem checkValue_ok {e : Text × ValueSourceV1} (h : checkValue credentials outputs e = .ok ()) :
    SoundSource credentials outputs e.2 ∧ e.2.endpointOf = none := by
  obtain ⟨name, source⟩ := e
  simp only [checkValue, andThen_eq_ok, within_eq_ok, refuse_eq_ok] at h
  exact ⟨soundSource_of_check h.1, by simpa using h.2⟩

omit hbegun haccepted in
theorem checkAuth_ok {auth : StepAuthV1} (h : checkAuth credentials outputs auth = .ok ()) :
    SoundSource credentials outputs auth.value := by
  simp only [checkAuth, andThen_eq_ok, within_eq_ok] at h
  exact soundSource_of_check h.2

theorem render_blames (hstep : step ∈ run.recipe.steps) (hkind : step.kind ≠ .jwtSign)
    (hsound : SoundStep credentials outputs step later) (hauth : AuthNamesEndpoint run.recipe step)
    (htaken : Taken serde run effects step) (produced : SortedMap Text Library.Json.Value) :
    RefusesBy (Blames serde effects credentials slot stored) (render serde run produced step) := by
  have hvalues (entries : List (Text × ValueSourceV1))
      (hsub : ∀ e ∈ entries, e ∈ step.params.entries ++ step.headers.entries) :
      RefusesBy (Blames serde effects credentials slot stored)
        (sourceValues serde run produced entries) := by
    refine sourceValues_blames hbegun haccepted outputs htaken (fun e he => ?_) produced
    obtain ⟨hsource, hendpoint⟩ := checkValue_ok (hsound.values e (hsub e he))
    refine ⟨hsource, ?_, fun target htarget => by rw [hendpoint] at htarget; cases htarget⟩
    refine List.mem_append_left _ (List.mem_append_left _ (List.mem_map_of_mem ?_))
    exact List.mem_append_left _ (hsub e he)
  have hmethod : RefusesBy (Blames serde effects credentials slot stored) (methodOf step) := by
    have hhttp := hsound.kind
    rw [checkKind, if_neg hkind] at hhttp
    obtain ⟨-, -, -, -, -, hmethod⟩ := checkHttpStep_template hhttp
    unfold checkMethod at hmethod
    unfold methodOf
    split
    · exact refusesBy_ok _
    · exact refusesBy_ok _
    · exact refusesBy_ok _
    · split at hmethod <;> simp_all
  have hheader : ∀ auth ∈ step.auth.toList,
      RefusesBy (Blames serde effects credentials slot stored) (authHeader serde run produced auth) := by
    intro auth hmem
    have hsome : step.auth = some auth := by simpa using hmem
    refine RefusesBy.bind ?_ fun _ _ => refusesBy_ok _
    refine sourceValue_blames hbegun haccepted (checkAuth_ok (hsound.auth auth hsome)) htaken ?_
      (hauth auth hsome) produced
    exact List.mem_append_left _ (List.mem_append_right _ (List.mem_map_of_mem hmem))
  refine hmethod.bind fun method _ => ?_
  refine (urlOf_blames hbegun haccepted hstep hkind).bind fun url _ => ?_
  refine (hvalues step.headers.entries fun e => List.mem_append_right _).bind fun declared _ => ?_
  refine (RefusesBy.mapM hheader).bind fun auth _ => ?_
  refine (hvalues step.params.entries fun e => List.mem_append_left _).bind fun params _ => ?_
  split
  · exact refusesBy_ok _
  · split
    · exact refusesBy_ok _
    · split <;> exact refusesBy_ok _

omit hbegun haccepted in
theorem checkJwtStep_ok (h : checkJwtStep credentials outputs step = .ok ()) :
    (∃ alg, step.alg = some alg) ∧
      (∃ key field, step.key = some key ∧ key.field = some field ∧
        credentials.isSecret field = some true) ∧
      ∀ e ∈ step.claims.entries, checkClaim credentials outputs e = .ok () := by
  simp only [checkJwtStep, andThen_eq_ok, refuse_eq_ok, forM_eq_ok] at h
  obtain ⟨-, halg, hkey, -, hclaims⟩ := h
  refine ⟨Option.ne_none_iff_exists'.mp (by simpa using halg), ?_, hclaims⟩
  unfold checkKey at hkey
  split at hkey
  · cases hkey
  · rename_i key hstep
    rw [refuse_eq_ok, not_not, Option.bind_eq_some_iff] at hkey
    obtain ⟨field, hfield, hsecret⟩ := hkey
    exact ⟨key, field, hstep, hfield, hsecret⟩

omit hbegun haccepted in
/-- A claim has one source; the endpoint of a step is asked for by `aud` alone. -/
theorem checkClaim_ok {e : Text × ValueSourceV1} (h : checkClaim credentials outputs e = .ok ()) :
    SoundSource credentials outputs e.2 ∧ (e.2.endpointOf.isSome → e.1 = audClaim) := by
  obtain ⟨name, source⟩ := e
  simp only [checkClaim, andThen_eq_ok, within_eq_ok, refuse_eq_ok] at h
  refine ⟨soundSource_of_check h.1, fun hsome => ?_⟩
  by_contra hne
  exact h.2.2 ⟨hsome, hne⟩

omit hbegun haccepted in
/-- The endpoint a signed `aud` asks for is that of an HTTP step. -/
theorem checkTarget_ok {recipe : RecipeV1} {signer : StepV1} {target : Text}
    (h : checkTarget recipe signer = .ok ())
    (hclaims : ∀ e ∈ signer.claims.entries, e.2.endpointOf.isSome → e.1 = audClaim)
    {e : Text × ValueSourceV1} (he : e ∈ signer.claims.entries)
    (htarget : e.2.endpointOf = some target) :
    ∃ receiver ∈ recipe.steps, receiver.id = target ∧ receiver.kind ≠ .jwtSign := by
  unfold checkTarget at h
  split at h
  · rename_i hnone
    rw [List.findSome?_eq_none_iff] at hnone
    have := hnone e he
    rw [htarget] at this
    cases this
  · rename_i found hfound
    obtain ⟨f, hf, hfound⟩ := List.exists_of_findSome?_eq_some hfound
    have hkey : e.1 = f.1 :=
      (hclaims e he (by rw [htarget]; rfl)).trans (hclaims f hf (by rw [hfound]; rfl)).symm
    have hsame : signer.claims.get e.1 = some e.2 := SortedMap.mem_entries_iff.mp he
    rw [hkey, SortedMap.mem_entries_iff.mp hf, Option.some.injEq] at hsame
    have : target = found := by
      rw [← Option.some.injEq, ← htarget, ← hfound, hsame]
    rw [refuse_eq_ok] at h
    push Not at h
    obtain ⟨receiver, hreceiver, hid, hkind⟩ := h
    exact ⟨receiver, hreceiver, this ▸ hid, hkind⟩

omit hbegun haccepted in
theorem mem_orderedClaims {e : Text × ValueSourceV1} (h : e ∈ orderedClaims step) :
    e ∈ step.claims.entries := by
  rw [orderedClaims, List.mem_append] at h
  rcases h with h | h
  · obtain ⟨name, -, hname⟩ := List.mem_filterMap.mp h
    obtain ⟨source, hsource, rfl⟩ := Option.map_eq_some_iff.mp hname
    exact SortedMap.mem_entries_iff.mpr hsource
  · exact (List.mem_filter.mp h).1

theorem sign_blames {s : RunState} (hreached : Reached serde run effects s)
    (hcurrent : currentStep run s = some step) (hkind : step.kind = .jwtSign)
    (hsound : SoundStep credentials outputs step later) (hkeyed : SignsByField step) :
    RefusesBy (Blames serde effects credentials slot stored)
      (sign serde run s.progress.outputs effects step) := by
  have htaken : Taken serde run effects step := ⟨s, hreached, hcurrent⟩
  have hjwt := hsound.kind
  rw [checkKind, if_pos hkind] at hjwt
  obtain ⟨⟨alg, halg⟩, ⟨key, field, hkey, hfield, hsecret⟩, hclaims⟩ := checkJwtStep_ok hjwt
  obtain ⟨declared, hdeclared, -⟩ := Option.map_eq_some_iff.mp hsecret
  have hassertion := (hbegun.complete haccepted).assertions step (currentStep_mem hcurrent)
  rw [checkAssertion, if_pos hkind, andThen_eq_ok] at hassertion
  have hkeyMem : key ∈ sourcesOf step := List.mem_append_right _ (by rw [hkey]; simp)
  have hkeyValue : sourceValue serde run s.progress.outputs key =
      fieldValue serde run field key.pointer := by
    rw [sourceValue, hkeyed hkind key hkey, hfield]
  unfold sign
  rw [halg, hkey]
  dsimp only
  have hsigning : RefusesBy (Blames serde effects credentials slot stored)
      (signingKey serde run s.progress.outputs key) := by
    refine RefusesBy.map ?_ _
    rw [hkeyValue]
    exact fieldValue_blames hbegun (by rw [hdeclared]; rfl) key.pointer
      fun found hfound => ⟨run, step, key, hbegun, htaken, hkeyMem, hfield, hfound⟩
  refine hsigning.bind fun keyText hkeyText => ?_
  refine RefusesBy.bind
    (sourceValues_blames hbegun haccepted outputs htaken (fun e he => ?_) _) fun claims hvalues => ?_
  · have hmem := mem_orderedClaims he
    refine ⟨(checkClaim_ok (hclaims e hmem)).1, ?_, fun target htarget => ?_⟩
    · refine List.mem_append_left _ (List.mem_append_left _ (List.mem_map_of_mem ?_))
      exact List.mem_append_right _ hmem
    · exact checkTarget_ok hassertion.1 (fun f hf => (checkClaim_ok (hclaims f hf)).2) hmem htarget
  · split
    · exact refusesBy_ok _
    · rename_i error hsign
      rw [signingKey, hkeyValue, map_eq_ok] at hkeyText
      obtain ⟨keyValue, hread, rfl⟩ := hkeyText
      obtain ⟨value, hpresent, hfound⟩ := fieldValue_eq_ok hbegun hdeclared hread
      refine refusesBy_error.mpr ⟨field, declared, hfield, hdeclared, ?_⟩
      rw [hpresent]
      exact .noKey ⟨run, s, step, alg, key, keyValue, claims, error, hbegun, hreached, hcurrent,
        hkind, halg, hkey, hfield, hfound, hvalues, hsign⟩

/-! ## Turns -/

omit hbegun haccepted in
theorem extract_blames (step : StepV1) (response : FakeResponseV1) (progress : Progress) :
    RefusesBy (Blames serde effects credentials slot stored)
      (extract serde run step response progress) := by
  refine RefusesBy.foldlM (fun e _ progress => ?_) progress
  have hread : RefusesBy (Blames serde effects credentials slot stored)
      (readExtraction serde run step response progress.clocks e) := by
    unfold readExtraction
    split
    split
    · exact refusesBy_ok _
    · split
      · exact refusesBy_ok _
      · exact refusesBy_error.mpr trivial
  refine hread.bind fun read _ => ?_
  obtain ⟨value, clocks⟩ := read
  dsimp only
  split
  · split
    · exact refusesBy_ok _
    · exact refusesBy_error.mpr trivial
  · split
    · exact (refusesBy_refuse fun _ => trivial).bind fun _ _ => refusesBy_ok _
    · exact refusesBy_ok _

omit hbegun haccepted in
theorem transition_goto {step : StepV1} {status : Nat} {target : Text}
    (h : transition step status = .goto target) :
    ∃ e ∈ step.onStatus.entries, e.2 = .goto target := by
  unfold transition at h
  dsimp only at h
  split at h
  · rename_i found hdeclared
    cases h
    rw [Option.or_eq_some_iff] at hdeclared
    rcases hdeclared with hexact | ⟨-, hclass⟩
    · exact ⟨_, SortedMap.mem_entries_iff.mpr hexact, rfl⟩
    · split at hclass
      · cases hclass
      · obtain ⟨key, -, hclass⟩ := Option.bind_eq_some_iff.mp hclass
        exact ⟨_, SortedMap.mem_entries_iff.mpr hclass, rfl⟩
  · cases h
  · cases h
  · split at h
    · cases h
    · split at h <;> cases h

omit hbegun haccepted in
/-- A checked `goto` names a later step. -/
theorem goto_later {credentials : CredentialsV1} {recipe : RecipeV1}
    (hcomplete : Complete credentials recipe) {front rest : List StepV1} {step : StepV1}
    (hsplit : recipe.steps = front ++ step :: rest) {status : Nat} {target : Text}
    (h : transition step status = .goto target) :
    ∃ position, recipe.steps.findIdx? (fun candidate => candidate.id == target) = some position ∧
      front.length < position := by
  obtain ⟨e, he, haction⟩ := transition_goto h
  have hstatus := (soundStep_of_check (hcomplete.step hsplit)).statuses e he
  obtain ⟨status, action⟩ := e
  dsimp only at haction
  subst haction
  simp only [checkStatus, andThen_eq_ok, refuse_eq_ok, not_not] at hstatus
  obtain ⟨found, hfound, hid⟩ := List.mem_map.mp hstatus.2
  obtain ⟨between, after, hrest⟩ := List.append_of_mem hfound
  have hfoundSplit : recipe.steps = (front ++ step :: between) ++ found :: after := by
    rw [hsplit, hrest, List.append_assoc, List.cons_append]
  have hnew := (checkSteps_ok hcomplete.steps hfoundSplit).2.1
  refine ⟨(front ++ step :: between).length, ?_, by simp⟩
  rw [hfoundSplit, List.findIdx?_append, List.findIdx?_eq_none_iff.mpr, Option.none_or]
  · simp [List.findIdx?_cons, hid]
  · intro candidate hcandidate
    rw [beq_eq_false_iff_ne]
    intro heq
    apply hnew
    rw [hid, ← heq]
    exact List.mem_map_of_mem (by simpa using hcandidate)

theorem turn_blames {s : RunState} (hreached : Reached serde run effects s)
    (hsteps : ∀ step, currentStep run s = some step →
      AuthNamesEndpoint run.recipe step ∧ SignsByField step) {stop : RecipeOutcomeV1} {requests : List RenderedRequestV1}
    (h : turn serde run effects s = .stop stop requests) :
    Blames serde effects credentials slot stored stop := by
  have hcomplete := hbegun.complete haccepted
  unfold turn at h
  split at h
  · cases h
  · rename_i step hcurrent
    obtain ⟨front, rest, hsplit, hindex⟩ := currentStep_split hcurrent
    have hsound := soundStep_of_check (hcomplete.step hsplit)
    have hstep := currentStep_mem hcurrent
    split at h
    · rename_i missing hmissing
      cases h
      have habsent : run.fields.get missing = none := by simpa using List.find?_some hmissing
      obtain ⟨declared, hdeclared⟩ := Option.isSome_iff_exists.mp
        (hsound.requires missing (List.mem_of_find?_eq_some hmissing))
      unfold unmet
      split
      · trivial
      · refine ⟨missing, declared, rfl, hdeclared, ?_⟩
        rw [← hbegun.present_eq hdeclared, habsent]
        exact .absent
    · unfold perform at h
      split at h
      · rename_i hkind
        split at h
        · cases h
        · rename_i refusal hsign
          cases h
          exact sign_blames hbegun haccepted hreached hcurrent hkind hsound
            (hsteps step hcurrent).2 _ hsign
      · rename_i hkind
        split at h
        · rename_i refusal hrender
          cases h
          exact render_blames hbegun haccepted hstep hkind hsound (hsteps step hcurrent).1
            ⟨s, hreached, hcurrent⟩ _ _ hrender
        · dsimp only at h
          split at h
          · cases h
            trivial
          · unfold answered at h
            split at h
            · split at h
              · cases h
              · split at h
                · cases h
                · rename_i refusal hextract
                  cases h
                  exact extract_blames step _ _ _ hextract
            · rename_i target hgoto
              obtain ⟨position, hposition, hlater⟩ := goto_later hcomplete hsplit hgoto
              rw [hposition, Option.filter_some_pos (by rw [← hindex]; simpa using hlater)] at h
              cases h
            · cases h
              trivial
            · cases h
              trivial

omit hbegun haccepted in
theorem presentation_ok {recipe : RecipeV1} (h : checkPresentation credentials recipe = .ok ()) :
    ∃ present, recipe.present = some present ∧ present ≠ [] ∧
      checkCandidates credentials (recipe.steps.flatMap outputsOf) [] present = .ok () ∧
      ∀ signer ∈ recipe.steps, checkPresented recipe present signer = .ok () := by
  unfold checkPresentation at h
  split at h
  · cases h
  · rename_i present hpresent
    rw [andThen_eq_ok, forM_eq_ok, checkPresent, andThen_eq_ok, refuse_eq_ok, not_or] at h
    exact ⟨present, hpresent, h.1.1.1, h.1.2, h.2⟩

theorem outcome_blames (progress : Progress) :
    RefusesBy (Blames serde effects credentials slot stored) (outcome run progress serde) := by
  obtain ⟨present, hpresent, hne, -⟩ := presentation_ok (hbegun.complete haccepted).presentation
  refine RefusesBy.bind ?_ fun _ _ => refusesBy_ok _
  unfold presented
  rw [hpresent, Option.filter_some_pos (by simpa using hne)]
  dsimp only
  split
  · rename_i result hresult
    obtain ⟨candidate, -, hcandidate⟩ := List.exists_of_findSome?_eq_some hresult
    unfold presentCandidate at hcandidate
    split at hcandidate
    · obtain ⟨value, -, rfl⟩ := Option.map_eq_some_iff.mp hcandidate
      split
      · exact refusesBy_ok _
      · exact refusesBy_ok _
      · exact refusesBy_error.mpr trivial
    · obtain ⟨value, -, rfl⟩ := Option.map_eq_some_iff.mp hcandidate
      exact refusesBy_ok _
  · exact refusesBy_error.mpr trivial

end Values

/-! ## Runs -/

theorem begin_blames (haccepted : Accepted credentials) {slot recipe : Text}
    (hslot : credentials.slots.get slot = some (.minted recipe)) :
    RefusesBy (Blames serde effects credentials slot stored)
      (begin credentials slot stored effects.now) := by
  obtain ⟨declared, hdeclared⟩ := haccepted.minted hslot
  refine (resolveFields_blames haccepted).bind fun fields _ => ?_
  rw [hslot]
  obtain ⟨chosen, hchosen⟩ := haccepted.select_succeeds hdeclared fields
  change RefusesBy _ (select credentials recipe fields >>= _)
  rw [hchosen]
  exact refusesBy_ok _

/-- In every run of an accepted section whose steps' auth values ask for no endpoint
but an HTTP step's, and whose signing keys are no constants, a configuration outcome names
a declared field whose value is absent, malformed or of no use to the run. -/
theorem configuration_names_field (serde : SerdeJson) (effects : RecipeEffectsV1)
    (credentials : CredentialsV1) (secretSlots providers : List Text) (slot recipe : Text)
    (stored : SortedMap Text Text) (hcheck : check credentials secretSlots providers = .ok ())
    (hslot : credentials.slots.get slot = some (.minted recipe))
    (hsteps : ∀ run step, Begun credentials slot stored effects.now run →
      Taken serde run effects step → AuthNamesEndpoint run.recipe step ∧ SignsByField step) :
    Blames serde effects credentials slot stored
      (runRecipeV1 serde credentials slot stored effects).outcome := by
  have haccepted := accepted_of_check hcheck
  have hends := runRecipe_ends serde credentials slot stored effects
  generalize runRecipeV1 serde credentials slot stored effects = result at hends
  cases hends with
  | refused hbegin => exact begin_blames haccepted hslot _ hbegin
  | stopped hbegun hreached hturn =>
      refine turn_blames hbegun haccepted hreached (fun step hcurrent => ?_) hturn
      exact hsteps _ step hbegun ⟨_, hreached, hcurrent⟩
  | unpresented hbegun hreached hturn houtcome => exact outcome_blames hbegun haccepted _ _ houtcome
  | minted hbegun hreached hturn houtcome => trivial

/-! ## An auth value that asks for no step's endpoint -/

/-- An exchange with a fixed endpoint and one extraction. -/
def exchange (id extracted : Text) : StepV1 :=
  { id := id
    kind := .httpExchange
    method := some .get
    endpoint := some (httpsMark ++ ['a', '.', 'b'])
    extract := .ofList [(extracted, { pointer := some ['/', 't'] })] }

/-- A section with one minted slot and one recipe. -/
def oneRecipe (recipe : RecipeV1) : CredentialsV1 :=
  { schema := credentialRecipeSchema
    fields := .ofList [(['k'], { secret := true })]
    slots := .ofList [(['s'], .minted ['r'])]
    recipes := .ofList [(['r'], recipe)] }

def endpointSection (target : Text) : CredentialsV1 :=
  oneRecipe
    { steps := [{ exchange ['a'] ['t'] with auth := some ⟨['x'], { endpointOf := some target }⟩ }]
      present := some [.output (outputOf ['a'] ['t'])]
      rotatesRefreshMaterial := some false }

/-- A JSON library that reads nothing. -/
def blindJson : SerdeJson := ⟨fun _ => none, fun _ => none, fun _ _ => none, fun _ => []⟩

theorem zero_in_clock : minI64 ≤ 0 ∧ 0 ≤ maxI64 := by decide

/-- No exchange is answered. -/
def unanswered : RecipeEffectsV1 := ⟨0, zero_in_clock, fun _ _ _ => .ok [], fun _ => none⟩

/-- A token signed by a stored key, which an exchange presents. -/
def signedSection : CredentialsV1 :=
  oneRecipe
    { steps := [
        { id := ['g'], kind := .jwtSign, alg := some .hs256, key := some { field := some ['k'] }
          claims := .ofList [(audClaim, { endpointOf := some ['c'] })] },
        { exchange ['c'] ['t'] with
          auth := some ⟨['x'], { output := some ['g', '.', 'j', 'w', 't'] }⟩ }]
      present := some [.output (outputOf ['c'] ['t'])]
      rotatesRefreshMaterial := some false }

/-- A signer that takes the key `w` only. -/
def choosySigner : RecipeEffectsV1 where
  now := 0
  fits := zero_in_clock
  sign _ key _ := if key = textBytes ['w'] then .ok [] else .error "no key"
  respond _ := none

theorem signedSection_names_field :
    Blames blindJson choosySigner signedSection ['s'] (.ofList [(['k'], ['v'])])
      (runRecipeV1 blindJson signedSection ['s'] (.ofList [(['k'], ['v'])]) choosySigner).outcome := by
  refine configuration_names_field blindJson choosySigner signedSection [['s']] [] ['s'] ['r'] _
    (by decide +kernel) (by decide +kernel) ?_
  rintro run step hbegun ⟨s, -, hcurrent⟩
  have hmem := hbegun.recipe_mem
  have hrecipe : run.recipe = _ := congrArg Prod.snd (List.mem_singleton.mp hmem)
  have hstep := currentStep_mem hcurrent
  rw [hrecipe] at hstep ⊢
  rcases List.mem_cons.mp hstep with rfl | hstep
  · constructor
    · intro auth hauth
      cases hauth
    · intro _ key hkey
      cases hkey
      rfl
  · obtain rfl := List.mem_singleton.mp hstep
    constructor
    · intro auth hauth target htarget
      cases hauth
      cases htarget
    · intro hkind
      cases hkind

/-- A configuration outcome that names no field. -/
def RecipeOutcomeV1.isUnnamed : RecipeOutcomeV1 → Bool
  | .configuration none _ => true
  | _ => false

theorem eq_of_isUnnamed {outcome : RecipeOutcomeV1} (h : outcome.isUnnamed = true) :
    ∃ detail, outcome = .configuration none detail := by
  cases outcome with
  | configuration field detail =>
      cases field with
      | none => exact ⟨detail, rfl⟩
      | some field => cases h
  | minted _ | useStored | reauthRequired _ _ _ | transient _ _ _ => cases h

/-- Gate 1 accepts a section whose auth value asks for the endpoint of no step at
all; every run of it ends in a configuration outcome that names no field. -/
theorem missing_endpoint_accepted :
    check (endpointSection ['z']) [['s']] [] = .ok () ∧
      ¬Blames blindJson unanswered (endpointSection ['z']) ['s'] .empty
        (runRecipeV1 blindJson (endpointSection ['z']) ['s'] .empty unanswered).outcome := by
  refine ⟨by decide +kernel, fun h => ?_⟩
  have hunnamed : (runRecipeV1 blindJson (endpointSection ['z']) ['s'] .empty
      unanswered).outcome.isUnnamed = true := by decide +kernel
  obtain ⟨detail, houtcome⟩ := eq_of_isUnnamed hunnamed
  rw [houtcome] at h
  obtain ⟨field, -, hnone, -⟩ := h
  cases hnone

end TokenStation.Credentials
