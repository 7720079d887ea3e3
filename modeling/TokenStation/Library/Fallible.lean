import Mathlib

/-!
# Computations that change a state and may fail

A failure keeps the state the computation had reached, as code with a mutable
argument and an early return does. `Returns` says that a run succeeds; its
rules take a sequence of steps apart. A relation between states that is
reflexive and transitive holds across a run when it holds across each step.
-/

namespace TokenStation.Library

/-- A computation over a state `σ` with failures in `ε`. -/
def Fallible (ε σ α : Type) : Type := σ → Except ε α × σ

namespace Fallible

variable {ε σ α β : Type}

instance : Monad (Fallible ε σ) where
  pure a := fun s => (.ok a, s)
  bind m f := fun s =>
    match m s with
    | (.ok a, t) => f a t
    | (.error e, t) => (.error e, t)

/-- Stop with an error. -/
def fail (e : ε) : Fallible ε σ α := fun s => (.error e, s)

/-- The current state. -/
def get : Fallible ε σ σ := fun s => (.ok s, s)

/-- Change the state. -/
def modify (f : σ → σ) : Fallible ε σ Unit := fun s => (.ok (), f s)

/-- A computation that does not touch the state. -/
def lift (r : Except ε α) : Fallible ε σ α := fun s => (r, s)

/-- Run a computation only when a condition holds. -/
def when (c : Bool) (m : Fallible ε σ Unit) : Fallible ε σ Unit := if c then m else pure ()

/-- The run from `s` succeeds with `a` and leaves `t`. -/
def Returns (m : Fallible ε σ α) (s : σ) (a : α) (t : σ) : Prop := m s = (.ok a, t)

variable {m : Fallible ε σ α} {f : α → Fallible ε σ β} {s t : σ} {a : α} {b : β}

@[simp] theorem returns_pure {c : α} : Returns (pure c : Fallible ε σ α) s a t ↔ a = c ∧ t = s := by
  constructor
  · intro h
    cases h
    exact ⟨rfl, rfl⟩
  · rintro ⟨rfl, rfl⟩
    rfl

@[simp] theorem returns_bind :
    Returns (m >>= f) s b t ↔ ∃ a u, Returns m s a u ∧ Returns (f a) u b t := by
  change (match m s with
    | (.ok a, t) => f a t
    | (.error e, t) => (.error e, t)) = (.ok b, t) ↔ _
  constructor
  · intro h
    cases hm : m s with
    | mk r u =>
        rw [hm] at h
        cases r with
        | ok a => exact ⟨a, u, hm, h⟩
        | error e => simp at h
  · rintro ⟨a, u, hm, hf⟩
    have hm : m s = (.ok a, u) := hm
    rw [hm]
    exact hf

@[simp] theorem not_returns_fail {e : ε} : ¬Returns (fail e : Fallible ε σ α) s a t := by
  intro h
  cases h

@[simp] theorem returns_get {u : σ} : Returns (get : Fallible ε σ σ) s u t ↔ u = s ∧ t = s := by
  constructor
  · intro h
    cases h
    exact ⟨rfl, rfl⟩
  · rintro ⟨rfl, rfl⟩
    rfl

@[simp] theorem returns_modify {g : σ → σ} {u : Unit} :
    Returns (modify g : Fallible ε σ Unit) s u t ↔ t = g s := by
  constructor
  · intro h
    cases h
    rfl
  · rintro rfl
    rfl

@[simp] theorem returns_lift {r : Except ε α} :
    Returns (lift r : Fallible ε σ α) s a t ↔ r = .ok a ∧ t = s := by
  constructor
  · intro h
    cases h
    exact ⟨rfl, rfl⟩
  · rintro ⟨rfl, rfl⟩
    rfl

/-- Steps that read or change the state and always succeed need no name for
what they leave. -/
theorem returns_get_bind {f : σ → Fallible ε σ β} :
    Returns (get >>= f) s b t ↔ Returns (f s) s b t := Iff.rfl

theorem returns_modify_bind {g : σ → σ} {f : Unit → Fallible ε σ β} :
    Returns (modify g >>= f) s b t ↔ Returns (f ()) (g s) b t := Iff.rfl

theorem returns_lift_bind {r : Except ε α} :
    Returns (lift r >>= f) s b t ↔ ∃ a, r = .ok a ∧ Returns (f a) s b t := by
  cases r with
  | ok a => simp
  | error e => simp

@[simp] theorem returns_when {c : Bool} {m : Fallible ε σ Unit} {u : Unit} :
    Returns (when c m) s u t ↔ (c = true ∧ Returns m s u t) ∨ (c = false ∧ t = s) := by
  cases c <;> simp [when]

theorem returns_forM_nil {ι : Type} {body : ι → Fallible ε σ PUnit} {u : PUnit} :
    Returns ([].forM body) s u t ↔ t = s := by
  constructor
  · intro h
    cases h
    rfl
  · rintro rfl
    rfl

theorem returns_forM_cons {ι : Type} {body : ι → Fallible ε σ PUnit} {i : ι} {l : List ι}
    {u : PUnit} : Returns ((i :: l).forM body) s u t ↔
      ∃ v, Returns (body i) s () v ∧ Returns (l.forM body) v () t := by
  change Returns (body i >>= fun _ => l.forM body) s u t ↔ _
  rw [returns_bind]
  exact ⟨fun ⟨_, v, hi, hl⟩ => ⟨v, hi, hl⟩, fun ⟨v, hi, hl⟩ => ⟨(), v, hi, hl⟩⟩

/-! ## Relations across a run -/

variable {R : σ → σ → Prop}

/-- Every successful run of `m` relates its first and its last state. -/
def Within (R : σ → σ → Prop) (m : Fallible ε σ α) : Prop := ∀ ⦃s a t⦄, Returns m s a t → R s t

theorem Within.pure (hrefl : ∀ s, R s s) (a : α) : Within R (Pure.pure a : Fallible ε σ α) := by
  intro s b t h
  obtain ⟨-, rfl⟩ := returns_pure.mp h
  exact hrefl t

theorem Within.bind (htrans : ∀ {s t u}, R s t → R t u → R s u) (hm : Within R m)
    (hf : ∀ a, Within R (f a)) : Within R (m >>= f) := by
  intro s b t h
  obtain ⟨a, u, hfirst, hrest⟩ := returns_bind.mp h
  exact htrans (hm hfirst) (hf a hrest)

theorem Within.fail (e : ε) : Within R (Fallible.fail e : Fallible ε σ α) :=
  fun _ _ _ h => absurd h not_returns_fail

theorem Within.get (hrefl : ∀ s, R s s) : Within R (Fallible.get : Fallible ε σ σ) := by
  intro s u t h
  obtain ⟨-, rfl⟩ := returns_get.mp h
  exact hrefl t

theorem Within.lift (hrefl : ∀ s, R s s) (r : Except ε α) :
    Within R (Fallible.lift r : Fallible ε σ α) := by
  intro s a t h
  obtain ⟨-, rfl⟩ := returns_lift.mp h
  exact hrefl t

theorem Within.modify {g : σ → σ} (hg : ∀ s, R s (g s)) :
    Within R (Fallible.modify g : Fallible ε σ Unit) := by
  intro s a t h
  rw [returns_modify.mp h]
  exact hg s

theorem Within.when (hrefl : ∀ s, R s s) {m : Fallible ε σ Unit} (c : Bool) (hm : Within R m) :
    Within R (Fallible.when c m) := by
  intro s u t h
  rcases returns_when.mp h with ⟨-, h⟩ | ⟨-, rfl⟩
  · exact hm h
  · exact hrefl t

/-- A loop relates its first and its last state when each pass does. -/
theorem Within.forM {ι : Type} (hrefl : ∀ s, R s s) (htrans : ∀ {s t u}, R s t → R t u → R s u)
    {body : ι → Fallible ε σ PUnit} (hbody : ∀ i, Within R (body i)) (l : List ι) :
    Within R (l.forM body) := by
  induction l with
  | nil => exact Within.pure hrefl _
  | cons i l ih => exact Within.bind htrans (hbody i) fun _ => ih

end Fallible

end TokenStation.Library
