import Mathlib

/-!
# Readers of chunked input

A reader looks at the front of its pending input and either asks for more
input, consumes a non-empty prefix, or fails. Draining applies the reader
until it asks for more. When an answer other than "more" never changes as
further input arrives, draining after every chunk produces the same items and
the same first error as draining the whole input at once.
-/

namespace TokenStation.Library.ChunkedReading

variable {σ τ υ α β γ ε : Type*}

/-- The items produced so far, followed by the error that stopped the run or
by the value with which it goes on. -/
@[ext]
structure Trace (β ε τ : Type*) where
  items : List β
  result : Except ε τ

namespace Trace

/-- A run that has produced nothing yet. -/
def pure (a : τ) : Trace β ε τ := ⟨[], .ok a⟩

/-- A run stopped by an error before any item. -/
def fail (e : ε) : Trace β ε τ := ⟨[], .error e⟩

/-- Produce some items and go on with a value. -/
def emit (items : List β) (a : τ) : Trace β ε τ := ⟨items, .ok a⟩

/-- Go on after a run; an error keeps the items before it and stops. -/
def bind (t : Trace β ε τ) (f : τ → Trace β ε υ) : Trace β ε υ :=
  match t.result with
  | .error e => ⟨t.items, .error e⟩
  | .ok a => ⟨t.items ++ (f a).items, (f a).result⟩

/-- Rename every item, keeping the order and the result. -/
def mapItems (g : β → γ) (t : Trace β ε τ) : Trace γ ε τ := ⟨t.items.map g, t.result⟩

@[simp] theorem pure_bind (a : τ) (f : τ → Trace β ε υ) : (pure a).bind f = f a := by
  simp [pure, bind]

@[simp] theorem fail_bind (e : ε) (f : τ → Trace β ε υ) :
    (fail e : Trace β ε τ).bind f = fail e := rfl

@[simp] theorem emit_bind (items : List β) (a : τ) (f : τ → Trace β ε υ) :
    (emit items a).bind f = ⟨items ++ (f a).items, (f a).result⟩ := rfl

@[simp] theorem bind_pure (t : Trace β ε τ) : t.bind pure = t := by
  rcases t with ⟨items, e | a⟩ <;> simp [bind, pure]

theorem bind_assoc (t : Trace β ε τ) (f : τ → Trace β ε υ) (g : υ → Trace β ε σ) :
    (t.bind f).bind g = t.bind fun a => (f a).bind g := by
  rcases t with ⟨items, e | a⟩
  · rfl
  · rcases h : (f a).result with e | b <;> simp [bind, h]

theorem mapItems_bind (g : β → γ) (t : Trace β ε τ) (f : τ → Trace β ε υ) :
    (t.bind f).mapItems g = (t.mapItems g).bind fun a => (f a).mapItems g := by
  rcases t with ⟨items, e | a⟩ <;> simp [bind, mapItems]

/-- Two runs that produce the same items and end in the same error or in
related values. -/
structure Rel (R : τ → υ → Prop) (t : Trace β ε τ) (u : Trace β ε υ) : Prop where
  items_eq : t.items = u.items
  result_rel : (∃ e, t.result = .error e ∧ u.result = .error e) ∨
    ∃ a b, t.result = .ok a ∧ u.result = .ok b ∧ R a b

theorem Rel.pure {R : τ → υ → Prop} {a : τ} {b : υ} (h : R a b) :
    Rel R (Trace.pure a : Trace β ε τ) (Trace.pure b) :=
  ⟨rfl, .inr ⟨a, b, rfl, rfl, h⟩⟩

theorem Rel.fail {R : τ → υ → Prop} (e : ε) :
    Rel R (Trace.fail e : Trace β ε τ) (Trace.fail e) :=
  ⟨rfl, .inl ⟨e, rfl, rfl⟩⟩

/-- Related runs stay related when both go on in related ways. -/
theorem Rel.bind {τ' υ' : Type*} {R : τ → υ → Prop} {S : τ' → υ' → Prop} {t : Trace β ε τ}
    {u : Trace β ε υ} {f : τ → Trace β ε τ'} {g : υ → Trace β ε υ'} (h : Rel R t u)
    (hf : ∀ a b, R a b → Rel S (f a) (g b)) : Rel S (t.bind f) (u.bind g) := by
  rcases h with ⟨hi, ⟨e, ht, hu⟩ | ⟨a, b, ht, hu, hab⟩⟩
  · simp only [Trace.bind, ht, hu, hi]
    exact ⟨rfl, .inl ⟨e, rfl, rfl⟩⟩
  · obtain ⟨hfi, hfr⟩ := hf a b hab
    simp only [Trace.bind, ht, hu, hi, hfi]
    exact ⟨rfl, hfr⟩

/-- Runs related by equality are equal. -/
theorem Rel.eq {t u : Trace β ε τ} (h : Rel Eq t u) : t = u := by
  rcases h with ⟨hi, ⟨e, ht, hu⟩ | ⟨a, b, ht, hu, hab⟩⟩
  · exact Trace.ext hi (ht.trans hu.symm)
  · exact Trace.ext hi (by rw [ht, hu, hab])

end Trace

/-- What a reader finds at the front of its pending input. -/
inductive Reading (σ β ε : Type*)
  | more
  | step (next : σ) (used : Nat) (items : List β)
  | fail (error : ε)

/-- A reader with the two laws chunked reading rests on: a step consumes
input, and further input never changes an answer already given. -/
structure Reader (σ α β ε : Type*) where
  read : σ → List α → Reading σ β ε
  used_pos : ∀ {s xs s' n out}, read s xs = .step s' n out → 0 < n ∧ n ≤ xs.length
  stable : ∀ {s xs}, read s xs ≠ .more → ∀ ys, read s (xs ++ ys) = read s xs

namespace Reader

variable (r : Reader σ α β ε)

/-- Read until more input is needed or an error occurs. The value is the
reader's state with the input it has not consumed. -/
def drain (s : σ) (xs : List α) : Trace β ε (σ × List α) :=
  match _h : r.read s xs with
  | .more => .pure (s, xs)
  | .fail e => .fail e
  | .step s' n out => (Trace.emit out ()).bind fun _ => drain s' (xs.drop n)
termination_by xs.length
decreasing_by
  have := r.used_pos _h
  simp only [List.length_drop]
  omega

theorem drain_more {s : σ} {xs : List α} (h : r.read s xs = .more) :
    r.drain s xs = .pure (s, xs) := by
  rw [drain]; split <;> simp_all

theorem drain_fail {s : σ} {xs : List α} {e : ε} (h : r.read s xs = .fail e) :
    r.drain s xs = .fail e := by
  rw [drain]; split <;> simp_all

theorem drain_step {s s' : σ} {xs : List α} {n : Nat} {out : List β}
    (h : r.read s xs = .step s' n out) :
    r.drain s xs = (Trace.emit out ()).bind fun _ => r.drain s' (xs.drop n) := by
  rw [drain]; split <;> simp_all

/-- Draining a prefix first and the rest afterwards changes nothing. -/
theorem drain_append (s : σ) (xs ys : List α) :
    r.drain s (xs ++ ys) = (r.drain s xs).bind fun p => r.drain p.1 (p.2 ++ ys) := by
  cases h : r.read s xs with
  | more => simp [r.drain_more h]
  | fail e =>
      have hs : r.read s (xs ++ ys) = _ := (r.stable (by simp [h]) ys).trans h
      rw [r.drain_fail h, r.drain_fail hs, Trace.fail_bind]
  | step s' k out =>
      have hs : r.read s (xs ++ ys) = _ := (r.stable (by simp [h]) ys).trans h
      obtain ⟨hpos, hle⟩ := r.used_pos h
      rw [r.drain_step h, r.drain_step hs, Trace.bind_assoc,
        List.drop_append_of_le_length hle]
      congr 1
      funext _
      exact drain_append s' (xs.drop k) ys
termination_by xs.length
decreasing_by simp only [List.length_drop]; omega

/-- What draining leaves behind is input on which the reader needs more. -/
theorem drain_idle {s s' : σ} {xs rest : List α} (h : (r.drain s xs).result = .ok (s', rest)) :
    r.read s' rest = .more := by
  cases hr : r.read s xs with
  | more =>
      rw [r.drain_more hr] at h
      simp only [Trace.pure, Except.ok.injEq, Prod.mk.injEq] at h
      obtain ⟨rfl, rfl⟩ := h
      exact hr
  | fail e => simp [r.drain_fail hr, Trace.fail] at h
  | step s'' k out =>
      obtain ⟨hpos, hle⟩ := r.used_pos hr
      rw [r.drain_step hr, Trace.emit_bind] at h
      exact drain_idle h
termination_by xs.length
decreasing_by simp only [List.length_drop]; omega

/-- Append each chunk to the unconsumed input and drain after it. -/
def feed (s : σ) (pending : List α) : List (List α) → Trace β ε (σ × List α)
  | [] => .pure (s, pending)
  | chunk :: chunks => (r.drain s (pending ++ chunk)).bind fun p => feed p.1 p.2 chunks

/-- Feeding chunks to an idle reader drains their concatenation. -/
theorem feed_eq_drain (s : σ) (pending : List α) (h : r.read s pending = .more)
    (chunks : List (List α)) :
    r.feed s pending chunks = r.drain s (pending ++ chunks.flatten) := by
  induction chunks generalizing s pending with
  | nil => simp [feed, r.drain_more h]
  | cons chunk chunks ih =>
      rw [feed, List.flatten_cons, ← List.append_assoc, r.drain_append _ (pending ++ chunk)]
      cases hd : (r.drain s (pending ++ chunk)).result with
      | error e => simp [Trace.bind, hd]
      | ok p => simp [Trace.bind, hd, ih p.1 p.2 (r.drain_idle hd)]

end Reader

end TokenStation.Library.ChunkedReading
