import TokenStation.Credentials.Accepted
import TokenStation.Credentials.Recipe

/-!
# Present fields and the chosen recipe

What a run begins with: each declared field's present value, and one complete
recipe of the section.
-/

namespace TokenStation.Credentials

open Library Library.Checked Manifest

variable {credentials : CredentialsV1} {stored fields : SortedMap Text Text}

/-! ## Fields -/

theorem resolveField_get {present next : SortedMap Text Text} {e : Text × CredentialFieldV1}
    (h : resolveField stored present e = .ok next) (hnew : present.get e.1 = none) (name : Text) :
    next.get name = if e.1 = name then presentValue stored e.1 e.2 else present.get name := by
  obtain ⟨key, declared⟩ := e
  unfold resolveField at h
  dsimp only at h hnew ⊢
  split at h
  · rename_i value hvalue
    split at h
    · cases h
    · cases h
      rw [SortedMap.get_insert, hvalue]
      by_cases hkey : key = name <;> simp only [hkey, if_true, if_false]
  · rename_i hvalue
    split at h
    · cases h
    · cases h
      split
      · rename_i heq
        rw [← heq, hnew, hvalue]
      · rfl

theorem resolveField_syn {present next : SortedMap Text Text} {e : Text × CredentialFieldV1}
    (h : resolveField stored present e = .ok next) {value : Text}
    (hvalue : presentValue stored e.1 e.2 = some value) :
    ∀ syn, e.2.syn = some syn → syn.admits value = true := by
  obtain ⟨key, declared⟩ := e
  intro syn hsyn
  unfold resolveField at h
  dsimp only at h hvalue hsyn
  rw [hvalue] at h
  dsimp only at h
  split at h
  · cases h
  · rename_i hadmits
    rw [hsyn] at hadmits
    simpa using hadmits

theorem foldlM_resolveField_get {entries : List (Text × CredentialFieldV1)}
    {present next : SortedMap Text Text} (hordered : Ordered entries)
    (hnew : ∀ e ∈ entries, present.get e.1 = none)
    (h : entries.foldlM (resolveField stored) present = .ok next) (name : Text) :
    (∀ declared, (name, declared) ∈ entries → next.get name = presentValue stored name declared) ∧
      (name ∉ entries.map Prod.fst → next.get name = present.get name) := by
  induction entries generalizing present with
  | nil =>
      cases h
      exact ⟨fun _ hmem => absurd hmem List.not_mem_nil, fun _ => rfl⟩
  | cons e entries ih =>
      obtain ⟨hhead, htail⟩ := List.pairwise_cons.mp hordered
      rw [List.foldlM_cons, bind_eq_ok] at h
      obtain ⟨middle, hfirst, hrest⟩ := h
      have hget := resolveField_get hfirst (hnew e List.mem_cons_self)
      have hlater : ∀ f ∈ entries, middle.get f.1 = none := by
        intro f hf
        rw [hget, if_neg (hhead f hf).ne]
        exact hnew f (List.mem_cons_of_mem _ hf)
      obtain ⟨hlisted, hunlisted⟩ := ih htail hlater hrest
      constructor
      · intro declared hmem
        rcases List.mem_cons.mp hmem with heq | hmem
        · have habsent : name ∉ entries.map Prod.fst := by
            intro hkey
            obtain ⟨f, hf, hkey⟩ := List.mem_map.mp hkey
            exact (hhead f hf).ne (by rw [hkey, ← heq])
          rw [hunlisted habsent, hget, ← heq, if_pos rfl]
        · exact hlisted declared hmem
      · intro hkey
        rw [List.map_cons, List.mem_cons, not_or] at hkey
        rw [hunlisted hkey.2, hget, if_neg (Ne.symm hkey.1)]

/-- Exactly the declared fields that are stored or have a default are present. -/
theorem resolveFields_get (h : resolveFields credentials stored = .ok fields) (name : Text) :
    fields.get name = (credentials.fields.get name).bind (presentValue stored name) := by
  simp only [resolveFields, bind_eq_ok, pure_eq_ok] at h
  obtain ⟨present, hfold, _, -, rfl⟩ := h
  obtain ⟨hlisted, hunlisted⟩ :=
    foldlM_resolveField_get credentials.fields.ordered (fun _ _ => rfl) hfold name
  cases hdeclared : credentials.fields.get name with
  | some declared => exact hlisted declared (SortedMap.mem_entries_iff.mpr hdeclared)
  | none => exact hunlisted (SortedMap.get_eq_none_iff.mp hdeclared)

theorem presentValue_ne_nil {name value : Text} {declared : CredentialFieldV1}
    (h : presentValue stored name declared = some value) : value ≠ [] := by
  rw [presentValue, Option.or_eq_some_iff] at h
  rcases h with h | ⟨-, h⟩
  · simpa using (Option.filter_eq_some_iff.mp h).2
  · simpa using (Option.filter_eq_some_iff.mp h).2

/-- A present field was stored or declared with its syntax. -/
theorem resolveFields_syn (h : resolveFields credentials stored = .ok fields) {name value : Text}
    {declared : CredentialFieldV1} (hdeclared : credentials.fields.get name = some declared)
    (hvalue : fields.get name = some value) :
    value ≠ [] ∧ ∀ syn, declared.syn = some syn → syn.admits value = true := by
  have hpresent : presentValue stored name declared = some value := by
    rwa [resolveFields_get h, hdeclared] at hvalue
  refine ⟨presentValue_ne_nil hpresent, ?_⟩
  simp only [resolveFields, bind_eq_ok, pure_eq_ok] at h
  obtain ⟨present, hfold, -⟩ := h
  have hmem : (name, declared) ∈ credentials.fields.entries := SortedMap.mem_entries_iff.mpr hdeclared
  obtain ⟨front, later, hsplit⟩ := List.append_of_mem hmem
  rw [hsplit, List.foldlM_append, bind_eq_ok] at hfold
  obtain ⟨middle, -, hfold⟩ := hfold
  rw [List.foldlM_cons, bind_eq_ok] at hfold
  obtain ⟨next, hfield, -⟩ := hfold
  exact resolveField_syn hfield hpresent

/-! ## Recipes -/

/-- How a slot's recipe came to be chosen: directly, or by a rule of its selector. -/
inductive ChosenBy (credentials : CredentialsV1) (fields : SortedMap Text Text) (name : Text)
    (chosen : Chosen) : Prop where
  | direct (hname : chosen.name = name) (hselector : chosen.selector = none)
  | rule (selector : RecipeV1) (rule : SelectRuleV1) (hselector : chosen.selector = some selector)
      (hrecipe : credentials.recipes.get name = some selector)
      (hrule : selector.select.find? (ruleMatches fields) = some rule)
      (hname : rule.recipe = chosen.name)

theorem select_ok {name : Text} {chosen : Chosen} (h : select credentials name fields = .ok chosen) :
    credentials.recipes.get chosen.name = some chosen.recipe ∧ chosen.recipe.select = [] ∧
      ChosenBy credentials fields name chosen := by
  unfold select at h
  split at h
  · cases h
  · rename_i recipe hrecipe
    split at h
    · rename_i hselect
      cases h
      exact ⟨hrecipe, hselect, .direct rfl rfl⟩
    · split at h
      · cases h
      · rename_i rule hrule
        split at h
        · cases h
        · rename_i target htarget
          cases h
          obtain ⟨htarget, hselect⟩ := Option.filter_eq_some_iff.mp htarget
          exact ⟨htarget, by simpa using hselect, .rule recipe rule rfl hrecipe hrule rfl⟩

/-- A rule of an accepted selector names a complete recipe. -/
theorem checkRuleTarget_ok {name : Text} {selector : RecipeV1} {rule : SelectRuleV1}
    (h : checkRuleTarget credentials name selector rule = .ok ()) :
    ∃ target, credentials.recipes.get rule.recipe = some target ∧ target.select = [] ∧
      ∀ e ∈ selector.attributes.entries, target.attributes.get e.1 = none := by
  unfold checkRuleTarget at h
  split at h
  · cases h
  · rename_i target htarget
    rw [andThen_eq_ok, refuse_eq_ok, not_or, not_not] at h
    obtain ⟨⟨-, hselect⟩, hshared⟩ := h
    refine ⟨target, htarget, hselect, ?_⟩
    split at hshared
    · rename_i hnone
      intro e he
      simpa using List.find?_eq_none.mp hnone e he
    · cases hshared

theorem checkSelector_ok {name : Text} {selector : RecipeV1}
    (h : checkSelector credentials name selector = .ok ()) :
    (∀ e ∈ selector.attributes.entries, checkSelectorAttribute e = .ok ()) ∧
      (∃ last ∈ selector.select, last.test = none) ∧
      ∀ rule ∈ selector.select, checkRule credentials name selector rule = .ok () := by
  simp only [checkSelector, andThen_eq_ok, forM_eq_ok] at h
  obtain ⟨-, hattributes, htests, hrules⟩ := h
  refine ⟨hattributes, ?_, hrules⟩
  unfold checkTests at htests
  split at htests
  · cases htests
  · rename_i last hlast
    rw [refuse_eq_ok, not_or] at htests
    exact ⟨last, List.mem_of_getLast? hlast, by simpa using htests.1⟩

theorem checkRule_ok {name : Text} {selector : RecipeV1} {rule : SelectRuleV1}
    (h : checkRule credentials name selector rule = .ok ()) :
    checkRuleTarget credentials name selector rule = .ok () ∧
      checkRuleTest credentials rule = .ok () := by
  rwa [checkRule, andThen_eq_ok] at h

/-- In an accepted section a recipe is always chosen. -/
theorem Accepted.select_succeeds (haccepted : Accepted credentials) {name : Text}
    {recipe : RecipeV1} (hrecipe : credentials.recipes.get name = some recipe)
    (fields : SortedMap Text Text) : ∃ chosen, select credentials name fields = .ok chosen := by
  unfold select
  rw [hrecipe]
  dsimp only
  split
  · exact ⟨_, rfl⟩
  · rename_i hselect
    obtain ⟨-, ⟨last, hlast, htest⟩, hrules⟩ := checkSelector_ok (haccepted.selector hrecipe hselect)
    have hmatched : (recipe.select.find? (ruleMatches fields)).isSome := by
      rw [List.find?_isSome]
      exact ⟨last, hlast, by rw [ruleMatches, htest]⟩
    obtain ⟨rule, hrule⟩ := Option.isSome_iff_exists.mp hmatched
    obtain ⟨target, htarget, hcomplete, -⟩ := checkRuleTarget_ok
      (checkRule_ok (hrules rule (List.mem_of_find?_eq_some hrule))).1
    rw [hrule]
    dsimp only
    rw [htarget, Option.filter_some_pos (by simpa using hcomplete)]
    exact ⟨_, rfl⟩

/-! ## Runs -/

/-- A run of a slot: its fields are those of the stored ones that are present,
and its recipe is a complete one of the section. -/
structure Begun (credentials : CredentialsV1) (slot : Text) (stored : SortedMap Text Text)
    (now : Int) (run : Run) : Prop where
  credentials_eq : run.credentials = credentials
  now_eq : run.now = now
  fields_eq : resolveFields credentials stored = .ok run.fields
  minted : ∃ name, credentials.slots.get slot = some (.minted name) ∧
    select credentials name run.fields = .ok run.chosen

theorem begun_of_begin {slot : Text} {now : Int} {run : Run}
    (h : begin credentials slot stored now = .ok run) : Begun credentials slot stored now run := by
  rw [begin, bind_eq_ok] at h
  obtain ⟨fields, hfields, h⟩ := h
  split at h
  · rename_i name hslot
    rw [bind_eq_ok] at h
    obtain ⟨chosen, hchosen, h⟩ := h
    cases h
    exact ⟨rfl, rfl, hfields, name, hslot, hchosen⟩
  · cases h

theorem Begun.recipe_mem {slot : Text} {now : Int} {run : Run}
    (hbegun : Begun credentials slot stored now run) :
    (run.chosen.name, run.recipe) ∈ credentials.recipes.entries := by
  obtain ⟨name, -, hselect⟩ := hbegun.minted
  exact SortedMap.mem_entries_iff.mpr (select_ok hselect).1

/-- The recipe of a run of an accepted section passed the checks of a complete one. -/
theorem Begun.complete {slot : Text} {now : Int} {run : Run}
    (hbegun : Begun credentials slot stored now run) (haccepted : Accepted credentials) :
    Complete credentials run.recipe := by
  obtain ⟨name, -, hselect⟩ := hbegun.minted
  obtain ⟨hrecipe, hcomplete, -⟩ := select_ok hselect
  exact complete_of_check (haccepted.complete hrecipe hcomplete)

end TokenStation.Credentials
