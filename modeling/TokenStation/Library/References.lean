import Mathlib

/-!
# Counting references

A reader of a list that refers to the places of another list counts how often
each place is referred to, or marks the places it has seen. Either way it can
say whether every place is referred to exactly once.
-/

namespace TokenStation.Library.References

/-- Count one more reference to a place. -/
def bump (counts : List Nat) (i : Nat) : List Nat := counts.modify i (· + 1)

/-- How often each of `n` places is referred to. -/
def tally (n : Nat) (refs : List Nat) : List Nat := refs.foldl bump (List.replicate n 0)

@[simp] theorem tally_nil (n : Nat) : tally n [] = List.replicate n 0 := rfl

theorem tally_snoc (n : Nat) (refs : List Nat) (i : Nat) :
    tally n (refs ++ [i]) = bump (tally n refs) i := by
  simp [tally]

theorem tally_getElem? (n : Nat) (refs : List Nat) (i : Nat) :
    (tally n refs)[i]? = if i < n then some (refs.count i) else none := by
  induction refs using List.reverseRecOn with
  | nil =>
      rw [tally_nil, List.getElem?_replicate]
      simp
  | append_singleton refs j ih =>
      rw [tally_snoc, bump, List.getElem?_modify, ih, List.count_append, List.count_singleton]
      by_cases hi : i < n
      · by_cases hj : j = i
        · simp [hi, hj]
        · simp [hi, hj]
      · simp [hi]

/-- Every place is referred to exactly once. -/
def Once (n : Nat) (refs : List Nat) : Prop := refs.Perm (List.range n)

theorem once_iff {n : Nat} {refs : List Nat} :
    Once n refs ↔ (∀ i ∈ refs, i < n) ∧ ∀ i < n, refs.count i = 1 := by
  constructor
  · intro h
    refine ⟨fun i hi => List.mem_range.mp (h.mem_iff.mp hi), fun i hi => ?_⟩
    rw [h.count_eq, List.count_eq_one_of_mem List.nodup_range (List.mem_range.mpr hi)]
  · rintro ⟨hlt, hcount⟩
    refine List.perm_iff_count.mpr fun i => ?_
    by_cases hi : i < n
    · rw [hcount i hi, List.count_eq_one_of_mem List.nodup_range (List.mem_range.mpr hi)]
    · rw [List.count_eq_zero_of_not_mem fun hmem => hi (hlt i hmem),
        List.count_eq_zero_of_not_mem fun hmem => hi (List.mem_range.mp hmem)]

/-- The counts of a list of places are all one when each is referred to once. -/
theorem tally_all_one {n : Nat} {refs : List Nat} (hlt : ∀ i ∈ refs, i < n) :
    (∀ c ∈ tally n refs, c = 1) ↔ Once n refs := by
  rw [once_iff]
  constructor
  · intro hall
    refine ⟨hlt, fun i hi => hall _ (List.mem_iff_getElem?.mpr ⟨i, ?_⟩)⟩
    rw [tally_getElem?, if_pos hi]
  · rintro ⟨-, hcount⟩ c hc
    obtain ⟨i, hi⟩ := List.mem_iff_getElem?.mp hc
    rw [tally_getElem?] at hi
    split at hi
    · rename_i hlt
      rw [← Option.some.inj hi, hcount i hlt]
    · cases hi

/-- Counts that are all one stay below any bound above one, from the start. -/
theorem count_le_one {n : Nat} {refs : List Nat} (h : Once n refs) (i : Nat) : refs.count i ≤ 1 := by
  rw [h.count_eq]
  exact List.nodup_iff_count_le_one.mp List.nodup_range i

end TokenStation.Library.References
