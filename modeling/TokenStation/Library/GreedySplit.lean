import Mathlib

/-!
# Splitting a list greedily

A list is split into consecutive groups by a rule that says, for the group
read so far and the next item, whether the item opens a new group. Exactly one
split obeys the rule, and a pass over the list finds it.
-/

namespace TokenStation.Library

variable {α : Type} {opens : List α → α → Prop}

/-- A split of `items` into groups where an item opens a new group exactly when
the rule says so. -/
structure SplitsBy (opens : List α → α → Prop) (items : List α) (groups : List (List α)) :
    Prop where
  flatten_eq : groups.flatten = items
  nonempty : ∀ group ∈ groups, group ≠ []
  joins : ∀ group ∈ groups, ∀ front item rest, group = front ++ item :: rest → front ≠ [] →
    ¬opens front item
  breaks : groups.IsChain fun group later => ∀ item ∈ later.head?, opens group item

variable [∀ group item, Decidable (opens group item)]

/-- The groups of the items behind an unfinished group. -/
def groupsFrom (opens : List α → α → Prop) [∀ group item, Decidable (opens group item)]
    (group : List α) : List α → List (List α)
  | [] => [group]
  | item :: items =>
      if opens group item then group :: groupsFrom opens [item] items
      else groupsFrom opens (group ++ [item]) items

/-- The groups of a list. -/
def greedyGroups (opens : List α → α → Prop) [∀ group item, Decidable (opens group item)] :
    List α → List (List α)
  | [] => []
  | item :: items => groupsFrom opens [item] items

/-- The first group starts with the unfinished one. -/
theorem groupsFrom_head (group items : List α) :
    ∃ more rest, groupsFrom opens group items = (group ++ more) :: rest := by
  induction items generalizing group with
  | nil => exact ⟨[], [], by simp [groupsFrom]⟩
  | cons item items ih =>
      unfold groupsFrom
      split
      · exact ⟨[], _, by rw [List.append_nil]⟩
      · obtain ⟨more, rest, h⟩ := ih (group ++ [item])
        exact ⟨item :: more, rest, by rw [h, List.append_assoc]; rfl⟩

/-- Between the items of an unfinished group no new group opens. -/
def Joined (opens : List α → α → Prop) (group : List α) : Prop :=
  ∀ front item rest, group = front ++ item :: rest → front ≠ [] → ¬opens front item

omit [∀ group item, Decidable (opens group item)] in
theorem joined_singleton (item : α) : Joined opens [item] := by
  intro front next rest h hfront
  cases front with
  | nil => exact absurd rfl hfront
  | cons first front => simp at h

omit [∀ group item, Decidable (opens group item)] in
theorem Joined.snoc {group : List α} {item : α} (h : Joined opens group)
    (hitem : ¬opens group item) : Joined opens (group ++ [item]) := by
  intro front next rest heq hfront
  rcases List.eq_nil_or_concat rest with rfl | ⟨rest, last, rfl⟩
  · obtain ⟨rfl, hlast⟩ := List.append_inj' heq rfl
    cases hlast
    exact hitem
  · rw [List.concat_eq_append, ← List.cons_append, ← List.append_assoc] at heq
    exact h front next rest (List.append_inj' heq rfl).1 hfront

theorem splitsBy_groupsFrom {group : List α} (items : List α) (hne : group ≠ [])
    (hjoined : Joined opens group) :
    SplitsBy opens (group ++ items) (groupsFrom opens group items) := by
  induction items generalizing group with
  | nil =>
      refine ⟨by simp [groupsFrom], ?_, ?_, by simp [groupsFrom]⟩
      · simpa [groupsFrom] using hne
      · intro other hother
        rw [List.mem_singleton.mp hother]
        exact hjoined
  | cons item items ih =>
      unfold groupsFrom
      split_ifs with hopens
      · have hrest := ih (by simp) (@joined_singleton _ opens item)
        refine ⟨by simp [hrest.flatten_eq], ?_, ?_, ?_⟩
        · simpa [hne] using hrest.nonempty
        · rw [List.forall_mem_cons]
          exact ⟨hjoined, hrest.joins⟩
        · obtain ⟨more, rest, hhead⟩ := @groupsFrom_head _ opens _ [item] items
          rw [hhead] at hrest ⊢
          refine List.isChain_cons_cons.mpr ⟨?_, hrest.breaks⟩
          simpa using hopens
      · have hrest := ih (by simp) (hjoined.snoc hopens)
        rwa [List.append_assoc] at hrest

theorem splitsBy_greedyGroups (items : List α) :
    SplitsBy opens items (greedyGroups opens items) := by
  cases items with
  | nil => exact ⟨rfl, by simp [greedyGroups], by simp [greedyGroups], by simp [greedyGroups]⟩
  | cons item items =>
      exact splitsBy_groupsFrom items (by simp) (joined_singleton item)

/-- A pass over the rest of a split that obeys the rule gives its groups. -/
theorem groupsFrom_of_splits {front rest : List α} {groups : List (List α)} (hfront : front ≠ [])
    (h : SplitsBy opens ((front ++ rest) ++ groups.flatten) ((front ++ rest) :: groups)) :
    groupsFrom opens front (rest ++ groups.flatten) = (front ++ rest) :: groups := by
  induction groups generalizing front rest with
  | nil =>
      induction rest generalizing front with
      | nil => simp [groupsFrom]
      | cons item rest ih =>
          have hjoins := h.joins _ (by simp) front item rest rfl hfront
          rw [List.cons_append, groupsFrom, if_neg hjoins, ih (by simp) (by simpa using h)]
          simp
  | cons next groups ihGroups =>
      induction rest generalizing front with
      | nil =>
          obtain ⟨item, tail, rfl⟩ := List.exists_cons_of_ne_nil (h.nonempty next (by simp))
          have hopens : opens front item := by
            simpa using (List.isChain_cons_cons.mp h.breaks).1 item
          have hrest := @ihGroups [item] tail (by simp)
            ⟨rfl, fun group hgroup => h.nonempty group (by simp_all),
              fun group hgroup => h.joins group (by simp_all),
              (List.isChain_cons_cons.mp h.breaks).2⟩
          simp only [List.flatten_cons, List.nil_append, List.cons_append, groupsFrom,
            if_pos hopens, List.append_nil] at hrest ⊢
          rw [hrest]
      | cons item rest ih =>
          have hjoins := h.joins _ (by simp) front item rest rfl hfront
          rw [List.cons_append, groupsFrom, if_neg hjoins, ih (by simp) (by simpa using h)]
          simp

/-- One split obeys the rule. -/
theorem SplitsBy.eq_greedyGroups {items : List α} {groups : List (List α)}
    (h : SplitsBy opens items groups) : groups = greedyGroups opens items := by
  cases groups with
  | nil =>
      rw [← h.flatten_eq]
      rfl
  | cons group groups =>
      obtain ⟨item, rest, rfl⟩ := List.exists_cons_of_ne_nil (h.nonempty group (by simp))
      have hitems := h.flatten_eq
      rw [List.flatten_cons, List.cons_append] at hitems
      subst hitems
      exact (@groupsFrom_of_splits _ opens _ [item] rest groups (by simp) h).symm

end TokenStation.Library
