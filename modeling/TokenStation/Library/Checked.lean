import Mathlib

/-!
# Computations that may be refused

Rules for taking a successful `Except` computation apart: what each step
returned, what a fold keeps and what a map pairs up.
-/

namespace TokenStation.Library.Checked

variable {ε α β γ : Type}

/-- Stop with an error where a condition holds. -/
def refuse (c : Prop) [Decidable c] (e : ε) : Except ε Unit := if c then .error e else .ok ()

theorem bind_eq_ok {x : Except ε α} {f : α → Except ε β} {b : β} :
    (x >>= f) = .ok b ↔ ∃ a, x = .ok a ∧ f a = .ok b := by
  cases x <;> simp [Bind.bind, Except.bind]

theorem bind_eq_error {x : Except ε α} {f : α → Except ε β} {e : ε} :
    (x >>= f) = .error e ↔ x = .error e ∨ ∃ a, x = .ok a ∧ f a = .error e := by
  cases x <;> simp [Bind.bind, Except.bind]

/-- Checks one after another. -/
theorem andThen_eq_ok {x : Except ε Unit} {y : Except ε β} {b : β} :
    (x >>= fun _ => y) = .ok b ↔ x = .ok () ∧ y = .ok b := by
  rw [bind_eq_ok]
  exact ⟨fun ⟨_, h⟩ => h, fun h => ⟨(), h⟩⟩

theorem map_eq_ok {x : Except ε α} {f : α → β} {b : β} :
    x.map f = .ok b ↔ ∃ a, x = .ok a ∧ f a = b := by
  cases x <;> simp [Except.map]

theorem pure_eq_ok {a b : α} : (pure a : Except ε α) = .ok b ↔ a = b := by
  simp [pure, Except.pure]

theorem throw_ne_ok {e : ε} {a : α} : (throw e : Except ε α) ≠ .ok a := by
  simp [throw, throwThe, MonadExceptOf.throw]

@[simp] theorem refuse_eq_ok {c : Prop} [Decidable c] {e : ε} {u : Unit} :
    refuse c e = .ok u ↔ ¬c := by
  unfold refuse
  split <;> simp_all

/-- A check of every element succeeds when each of them is accepted. -/
theorem forM_eq_ok {f : α → Except ε Unit} {l : List α} {u : Unit} :
    l.forM f = .ok u ↔ ∀ a ∈ l, f a = .ok () := by
  induction l with
  | nil => simp [pure, Except.pure]
  | cons a l ih =>
      change (f a >>= fun _ => l.forM f) = _ ↔ _
      rw [bind_eq_ok, List.forall_mem_cons, ← ih]
      constructor
      · rintro ⟨_, hfirst, hrest⟩
        exact ⟨hfirst, hrest⟩
      · rintro ⟨hfirst, hrest⟩
        exact ⟨_, hfirst, hrest⟩

theorem mapError_eq_ok {δ : Type} {f : ε → δ} {x : Except ε α} {a : α} :
    x.mapError f = .ok a ↔ x = .ok a := by
  cases x <;> simp [Except.mapError]

/-- A fold keeps what each of its steps keeps. -/
theorem foldlM_keeps {P : β → Prop} {f : β → α → Except ε β} {l : List α}
    (hstep : ∀ a ∈ l, ∀ b c, f b a = .ok c → P b → P c) {b c : β} (hb : P b)
    (h : l.foldlM f b = .ok c) : P c := by
  induction l generalizing b with
  | nil =>
      cases h
      exact hb
  | cons a l ih =>
      rw [List.foldlM_cons, bind_eq_ok] at h
      obtain ⟨d, hfirst, hrest⟩ := h
      exact ih (fun a ha => hstep a (List.mem_cons_of_mem _ ha))
        (hstep a List.mem_cons_self b d hfirst hb) hrest

/-- A map succeeds when each element's image does, and returns the images in order. -/
theorem mapM_eq_ok {f : α → Except ε β} {l : List α} {bs : List β} :
    l.mapM f = .ok bs ↔ List.Forall₂ (fun a b => f a = .ok b) l bs := by
  induction l generalizing bs with
  | nil =>
      rw [List.mapM_nil, pure_eq_ok, List.forall₂_nil_left_iff]
      exact eq_comm
  | cons a l ih =>
      rw [List.mapM_cons, bind_eq_ok, List.forall₂_cons_left_iff]
      simp only [bind_eq_ok, pure_eq_ok, ih]
      constructor
      · rintro ⟨b, hb, bs, hbs, rfl⟩
        exact ⟨b, bs, hb, hbs, rfl⟩
      · rintro ⟨b, bs, hb, hbs, rfl⟩
        exact ⟨b, hb, bs, hbs, rfl⟩

/-- Every image of a map comes from an element. -/
theorem mem_mapM {f : α → Except ε β} {l : List α} {bs : List β} (h : l.mapM f = .ok bs) {b : β}
    (hb : b ∈ bs) : ∃ a ∈ l, f a = .ok b := by
  have hpairs := mapM_eq_ok.mp h
  clear h
  induction hpairs with
  | nil => cases hb
  | cons hab hrest ih =>
      rcases List.mem_cons.mp hb with rfl | hb
      · exact ⟨_, List.mem_cons_self, hab⟩
      · obtain ⟨a, ha, hf⟩ := ih hb
        exact ⟨a, List.mem_cons_of_mem _ ha, hf⟩

theorem exists_of_isOk {x : Except ε α} (h : x.isOk = true) : ∃ a, x = .ok a := by
  cases x with
  | ok a => exact ⟨a, rfl⟩
  | error e => cases h

/-! ## What a refusal says -/

/-- Every refusal of a computation is of a kind. -/
def RefusesBy (P : ε → Prop) (x : Except ε α) : Prop := ∀ e, x = .error e → P e

section Refusals

variable {P : ε → Prop}

theorem refusesBy_ok (a : α) : RefusesBy P (.ok a : Except ε α) := fun _ h => nomatch h

theorem refusesBy_error {e : ε} : RefusesBy P (.error e : Except ε α) ↔ P e :=
  ⟨fun h => h e rfl, fun h _ heq => Except.error.inj heq ▸ h⟩

theorem RefusesBy.bind {x : Except ε α} {f : α → Except ε β} (hx : RefusesBy P x)
    (hf : ∀ a, x = .ok a → RefusesBy P (f a)) : RefusesBy P (x >>= f) := by
  intro e h
  rcases bind_eq_error.mp h with h | ⟨a, ha, h⟩
  · exact hx e h
  · exact hf a ha e h

theorem RefusesBy.map {x : Except ε α} (hx : RefusesBy P x) (f : α → β) :
    RefusesBy P (x.map f) := by
  cases x with
  | ok a => exact refusesBy_ok _
  | error e => exact refusesBy_error.mpr (hx e rfl)

theorem refusesBy_refuse {c : Prop} [Decidable c] {e : ε} (h : c → P e) :
    RefusesBy P (refuse c e) := by
  unfold refuse
  split
  · rename_i hc
    exact refusesBy_error.mpr (h hc)
  · exact refusesBy_ok _

theorem RefusesBy.mapM {f : α → Except ε β} {l : List α} (h : ∀ a ∈ l, RefusesBy P (f a)) :
    RefusesBy P (l.mapM f) := by
  induction l with
  | nil => exact refusesBy_ok _
  | cons a l ih =>
      rw [List.mapM_cons]
      refine (h a List.mem_cons_self).bind fun b _ => ?_
      refine RefusesBy.bind (ih fun a ha => h a (List.mem_cons_of_mem _ ha)) fun bs _ => ?_
      exact refusesBy_ok _

theorem RefusesBy.foldlM {f : β → α → Except ε β} {l : List α}
    (h : ∀ a ∈ l, ∀ b, RefusesBy P (f b a)) (b : β) : RefusesBy P (l.foldlM f b) := by
  induction l generalizing b with
  | nil => exact refusesBy_ok _
  | cons a l ih =>
      rw [List.foldlM_cons]
      exact (h a List.mem_cons_self b).bind fun c _ =>
        ih (fun a ha => h a (List.mem_cons_of_mem _ ha)) c

theorem RefusesBy.forM {f : α → Except ε Unit} {l : List α} (h : ∀ a ∈ l, RefusesBy P (f a)) :
    RefusesBy P (l.forM f) := by
  induction l with
  | nil => exact refusesBy_ok _
  | cons a l ih =>
      exact (h a List.mem_cons_self).bind fun _ _ => ih fun a ha => h a (List.mem_cons_of_mem _ ha)

end Refusals

end TokenStation.Library.Checked
