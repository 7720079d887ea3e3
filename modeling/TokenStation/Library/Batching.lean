import TokenStation.Library.Checked
import TokenStation.Library.ChunkedReading

/-!
# Inputs handed over in batches

A machine handles inputs one by one, and a call handles a batch of them. A
refusal ends the run and keeps back everything its own call produced, so how
the inputs are batched can show only in what was produced before a refusal.
-/

namespace TokenStation.Library.Batching

open ChunkedReading

variable {σ α β ε : Type}

/-- Handle one batch; a refusal keeps back what the batch produced before it. -/
def call (step : σ → α → Except ε (List β × σ)) (s : σ) : List α → Except ε (List β × σ)
  | [] => .ok ([], s)
  | a :: batch =>
      match step s a with
      | .error e => .error e
      | .ok (out, t) => (call step t batch).map fun rest => (out ++ rest.1, rest.2)

/-- What the calls hand out, up to the first refusal. -/
def calls (handle : σ → List α → Except ε (List β × σ)) (s : σ) :
    List (List α) → Trace β ε Unit
  | [] => .pure ()
  | batch :: batches =>
      match handle s batch with
      | .error e => .fail e
      | .ok (out, t) => (Trace.emit out ()).bind fun _ => calls handle t batches

/-- What the inputs before the first refused one produce. -/
def produced (step : σ → α → Except ε (List β × σ)) (s : σ) : List α → List β
  | [] => []
  | a :: inputs =>
      match step s a with
      | .error _ => []
      | .ok (out, t) => out ++ produced step t inputs

section

variable {step : σ → α → Except ε (List β × σ)}

theorem call_append (s : σ) (xs ys : List α) :
    call step s (xs ++ ys) =
      match call step s xs with
      | .error e => .error e
      | .ok (out, t) => (call step t ys).map fun rest => (out ++ rest.1, rest.2) := by
  induction xs generalizing s with
  | nil =>
      cases hys : call step s ys <;> simp [call, hys, Except.map]
  | cons a xs ih =>
      rw [List.cons_append, call, call]
      cases hstep : step s a with
      | error e => rfl
      | ok now =>
          simp only [ih]
          rcases call step now.2 xs with e | ⟨out, t⟩
          · rfl
          · simp only [Except.map]
            cases call step t ys <;> simp

theorem produced_append (s : σ) (xs ys : List α) :
    produced step s (xs ++ ys) = produced step s xs ++
      match call step s xs with
      | .error _ => []
      | .ok (_, t) => produced step t ys := by
  induction xs generalizing s with
  | nil => simp [produced, call]
  | cons a xs ih =>
      rw [List.cons_append, produced, produced, call]
      cases hstep : step s a with
      | error e => rfl
      | ok now =>
          simp only [ih, List.append_assoc]
          rcases call step now.2 xs with e | ⟨out, t⟩ <;> rfl

theorem produced_of_ok {s t : σ} {xs : List α} {out : List β}
    (h : call step s xs = .ok (out, t)) : produced step s xs = out := by
  induction xs generalizing s out with
  | nil =>
      cases h
      rfl
  | cons a xs ih =>
      rw [call] at h
      rw [produced]
      cases hstep : step s a with
      | error e => simp [hstep] at h
      | ok now =>
          simp only [hstep, Checked.map_eq_ok] at h
          obtain ⟨rest, hrest, heq⟩ := h
          obtain ⟨rfl, rfl⟩ := Prod.mk.inj heq
          simp only [ih hrest]

/-- Calls that refuse nothing hand out everything. -/
theorem calls_ok {s t : σ} {batches : List (List α)} {out : List β}
    (h : call step s batches.flatten = .ok (out, t)) :
    calls (call step) s batches = .emit out () := by
  induction batches generalizing s out with
  | nil =>
      cases h
      rfl
  | cons batch batches ih =>
      rw [List.flatten_cons, call_append] at h
      rw [calls]
      rcases hbatch : call step s batch with e | ⟨now, u⟩
      · simp [hbatch] at h
      · simp only [hbatch, Checked.map_eq_ok] at h
        obtain ⟨rest, hrest, heq⟩ := h
        obtain ⟨rfl, rfl⟩ := Prod.mk.inj heq
        simp only [ih hrest]
        rfl

/-- Calls that end in a refusal hand out only what was produced before it. -/
theorem calls_error {s : σ} {batches : List (List α)} {e : ε}
    (h : call step s batches.flatten = .error e) :
    (calls (call step) s batches).result = .error e ∧
      (calls (call step) s batches).items <+: produced step s batches.flatten := by
  induction batches generalizing s with
  | nil => simp [call] at h
  | cons batch batches ih =>
      rw [List.flatten_cons, call_append] at h
      rw [List.flatten_cons, produced_append, calls]
      rcases hbatch : call step s batch with e' | ⟨now, u⟩
      · simp only [hbatch, Except.error.injEq] at h
        obtain rfl := h
        exact ⟨rfl, List.nil_prefix⟩
      · have hrest : call step u batches.flatten = .error e := by
          simp only [hbatch] at h
          cases hrest : call step u batches.flatten with
          | ok rest => simp [hrest, Except.map] at h
          | error e' => simpa [hrest, Except.map] using h
        obtain ⟨hresult, hitems⟩ := ih hrest
        rw [produced_of_ok hbatch]
        exact ⟨hresult, (List.prefix_append_right_inj now).mpr hitems⟩

/-- One input per call hands out everything before the refusal. -/
theorem calls_singles (s : σ) (inputs : List α) :
    (calls (call step) s (inputs.map ([·]))).items = produced step s inputs := by
  induction inputs generalizing s with
  | nil => rfl
  | cons a inputs ih =>
      rw [List.map_cons, calls, produced, call]
      cases hstep : step s a with
      | error e => rfl
      | ok now => simp [call, Except.map, ih]

/-- Every batching hands out the same, and ends in the same refusal, exactly
when no input is refused or nothing is produced before the refused one. -/
theorem calls_batched_iff (s : σ) (inputs : List α) :
    (∀ batches batches' : List (List α), batches.flatten = inputs → batches'.flatten = inputs →
        calls (call step) s batches = calls (call step) s batches') ↔
      ((∃ out t, call step s inputs = .ok (out, t)) ∨ produced step s inputs = []) := by
  rcases hcall : call step s inputs with e | ⟨out, t⟩
  · have hwhole : calls (call step) s [inputs] = .fail e := by simp [calls, hcall]
    constructor
    · intro h
      have hsame := h (inputs.map ([·])) [inputs] (by simp [List.flatten_eq_flatMap, List.flatMap_map]) (by simp)
      refine .inr ?_
      rw [← calls_singles, hsame, hwhole]
      rfl
    · rintro (⟨out, t, h⟩ | hnone)
      · cases h
      · have hall : ∀ batches : List (List α), batches.flatten = inputs →
            calls (call step) s batches = .fail e := by
          rintro batches rfl
          obtain ⟨hresult, hitems⟩ := calls_error hcall
          rw [hnone, List.prefix_nil] at hitems
          exact Trace.ext hitems hresult
        intro batches batches' h h'
        rw [hall batches h, hall batches' h']
  · refine ⟨fun _ => .inl ⟨out, t, rfl⟩, fun _ => ?_⟩
    rintro batches batches' rfl h'
    rw [calls_ok hcall, calls_ok (h' ▸ hcall)]

end

end TokenStation.Library.Batching
