import Mathlib

/-!
# The first occurrence of a pattern

Where a pattern first occurs in a list. What follows a list does not change where
the pattern first occurs in it, and elements that do not begin the pattern only
move it.
-/

namespace TokenStation.Library

variable {α : Type*} {pattern xs : List α} {i : Nat}

/-- An occurrence that ends within a list is one in the list. -/
theorem prefix_drop_of_append {ys : List α} {j : Nat} (hle : j + pattern.length ≤ xs.length)
    (h : pattern <+: (xs ++ ys).drop j) : pattern <+: xs.drop j := by
  rw [List.drop_append_of_le_length (by omega)] at h
  exact List.prefix_of_prefix_length_le h (List.prefix_append _ _)
    (by rw [List.length_drop]; omega)

variable [DecidableEq α]

/-- The place of the first occurrence of a pattern. -/
def position (pattern : List α) : List α → Option Nat
  | [] => if pattern = [] then some 0 else none
  | x :: xs => if pattern <+: x :: xs then some 0 else (position pattern xs).map (· + 1)

theorem prefix_of_position (h : position pattern xs = some i) :
    pattern <+: xs.drop i ∧ i ≤ xs.length := by
  induction xs generalizing i with
  | nil =>
      rw [position] at h
      split at h
      · rename_i hpattern
        cases h
        simp [hpattern]
      · cases h
  | cons x xs ih =>
      rw [position] at h
      split at h
      · rename_i hlead
        cases h
        exact ⟨hlead, Nat.zero_le _⟩
      · obtain ⟨j, hj, rfl⟩ := Option.map_eq_some_iff.mp h
        obtain ⟨hlead, hle⟩ := ih hj
        exact ⟨by simpa using hlead, by simpa using hle⟩

theorem position_le (h : position pattern xs = some i) : i + pattern.length ≤ xs.length := by
  obtain ⟨hlead, hle⟩ := prefix_of_position h
  have hlength := hlead.length_le
  rw [List.length_drop] at hlength
  omega

theorem position_ne_none {j : Nat} (hle : j ≤ xs.length) (h : pattern <+: xs.drop j) :
    position pattern xs ≠ none := by
  induction xs generalizing j with
  | nil =>
      rw [List.drop_nil, List.prefix_nil] at h
      simp [position, h]
  | cons x xs ih =>
      rw [position]
      split
      · exact Option.some_ne_none 0
      · rename_i hlead
        cases j with
        | zero => exact absurd h hlead
        | succ j =>
            have hrest := ih (by simpa using hle) (by simpa using h)
            simpa using hrest

/-- The first occurrence in a list stays the first when more follows. -/
theorem position_append (h : position pattern xs = some i) (ys : List α) :
    position pattern (xs ++ ys) = some i := by
  induction xs generalizing i with
  | nil =>
      have hpattern : pattern = [] := by
        by_contra hne
        rw [position, if_neg hne] at h
        cases h
      subst hpattern
      cases h
      cases ys with
      | nil => rfl
      | cons y ys => rw [List.nil_append, position, if_pos (List.nil_prefix)]
  | cons x xs ih =>
      have hlength := position_le h
      rw [position] at h
      rw [List.cons_append, position]
      split at h
      · rename_i hlead
        rw [if_pos (hlead.trans (by simp))]
        exact h
      · rename_i hlead
        obtain ⟨j, hj, rfl⟩ := Option.map_eq_some_iff.mp h
        have hfirst : ¬pattern <+: x :: (xs ++ ys) := by
          intro hnow
          exact hlead (prefix_drop_of_append (j := 0) (by simpa using hlength.trans' (Nat.le_add_left _ _))
            (by simpa using hnow))
        rw [if_neg hfirst, ih hj]
        rfl

/-- Before an element that begins the pattern there is no occurrence. -/
theorem position_notMem {a : α} {front : List α} (h : a ∉ front) (xs : List α) :
    position (a :: pattern) (front ++ xs) =
      (position (a :: pattern) xs).map (· + front.length) := by
  induction front with
  | nil =>
      simp
  | cons b front ih =>
      rw [List.mem_cons, not_or] at h
      rw [List.cons_append, position, if_neg fun hlead => h.1 (List.cons_prefix_cons.mp hlead).1,
        ih h.2, Option.map_map]
      refine congrArg (Option.map · _) (funext fun n => ?_)
      rw [Function.comp_apply, List.length_cons]
      omega

end TokenStation.Library
