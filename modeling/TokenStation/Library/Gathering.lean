import Mathlib

/-!
# Gathering fragments

Fragments arrive under keys, in any order of the keys. A reader joins the
fragments of each key in the order they came. Whatever the keys were, the
parts so made hold every fragment once.
-/

namespace TokenStation.Library.Gathering

theorem join_snoc (l : List String) (s : String) : String.join (l ++ [s]) = String.join l ++ s := by
  simp [String.join]

section

variable {κ : Type*} [DecidableEq κ]

/-- The fragments of a key, joined in order. -/
def gather (key : κ) (marked : List (κ × String)) : String :=
  String.join ((marked.filter (·.1 == key)).map (·.2))

@[simp] theorem gather_nil (key : κ) : gather key [] = "" := rfl

theorem gather_snoc (key k : κ) (marked : List (κ × String)) (s : String) :
    gather key (marked ++ [(k, s)]) = if k = key then gather key marked ++ s else gather key marked := by
  unfold gather
  by_cases hk : k = key
  · rw [if_pos hk, List.filter_append, List.filter_cons_of_pos (by simp [hk]), List.filter_nil,
      List.map_append, List.map_singleton, join_snoc]
  · rw [if_neg hk, List.filter_append, List.filter_cons_of_neg (by simp [hk]), List.filter_nil,
      List.append_nil]

theorem gather_append_other {key : κ} {marked more : List (κ × String)}
    (h : ∀ m ∈ more, m.1 ≠ key) : gather key (marked ++ more) = gather key marked := by
  have hnone : more.filter (·.1 == key) = [] :=
    List.filter_eq_nil_iff.mpr fun m hm => by simpa using h m hm
  rw [gather, List.filter_append, hnone, List.append_nil]
  rfl

/-- A key without fragments gathers nothing. -/
theorem gather_of_notMem {key : κ} {marked : List (κ × String)} (h : ∀ m ∈ marked, m.1 ≠ key) :
    gather key marked = "" := by
  have hnone : marked.filter (·.1 == key) = [] :=
    List.filter_eq_nil_iff.mpr fun m hm => by simpa using h m hm
  rw [gather, hnone]
  rfl

end

/-! ## Distinct keys -/

theorem eraseDups_snoc {κ : Type*} [DecidableEq κ] (l : List κ) (a : κ) :
    (l ++ [a]).eraseDups = l.eraseDups ++ if a ∈ l then [] else [a] := by
  rw [List.eraseDups_append]
  congr 1
  split
  · rename_i hmem
    have hnone : [a].removeAll l = [] :=
      List.filter_eq_nil_iff.mpr fun x hx => by simpa [List.mem_singleton.mp hx] using hmem
    rw [hnone]
    rfl
  · rename_i hfresh
    have hkept : [a].removeAll l = [a] :=
      List.filter_eq_self.mpr fun x hx => by simpa [List.mem_singleton.mp hx] using hfresh
    rw [hkept]
    rfl

theorem nodup_eraseDups {κ : Type*} [DecidableEq κ] (l : List κ) : l.eraseDups.Nodup := by
  induction l using List.reverseRecOn with
  | nil => exact List.nodup_nil
  | append_singleton l a ih =>
      rw [eraseDups_snoc]
      split
      · rwa [List.append_nil]
      · rename_i hfresh
        rw [List.nodup_append]
        refine ⟨ih, List.nodup_singleton a, fun x hx y hy heq => hfresh ?_⟩
        rw [← List.mem_singleton.mp hy, ← heq]
        exact List.mem_eraseDups.mp hx

theorem eraseDups_filterMap {κ ι : Type*} [DecidableEq κ] [DecidableEq ι] {f : κ → Option ι}
    (hf : ∀ a b c, f a = some c → f b = some c → a = b) (l : List κ) :
    l.eraseDups.filterMap f = (l.filterMap f).eraseDups := by
  induction l using List.reverseRecOn with
  | nil => rfl
  | append_singleton l a ih =>
      rw [eraseDups_snoc, List.filterMap_append, ih, List.filterMap_append]
      cases ha : f a with
      | none =>
          have hnone : (if a ∈ l then [] else [a]).filterMap f = [] := by
            split <;> simp [ha]
          rw [hnone, List.filterMap_cons_none ha, List.filterMap_nil, List.append_nil,
            List.append_nil]
      | some b =>
          have hmem : a ∈ l ↔ b ∈ l.filterMap f := by
            rw [List.mem_filterMap]
            constructor
            · exact fun h => ⟨a, h, ha⟩
            · rintro ⟨x, hx, hxb⟩
              rwa [hf a x b ha hxb]
          rw [List.filterMap_cons_some ha, List.filterMap_nil, eraseDups_snoc]
          congr 1
          by_cases h : a ∈ l
          · rw [if_pos h, if_pos (hmem.mp h)]
            rfl
          · rw [if_neg h, if_neg (mt hmem.mpr h), List.filterMap_cons_some ha]
            rfl

/-- Values that are all the same leave one or none. -/
theorem eraseDups_constant {κ : Type*} [DecidableEq κ] {l : List κ} {a : κ}
    (h : ∀ b ∈ l, b = a) : l.eraseDups = if l = [] then [] else [a] := by
  induction l using List.reverseRecOn with
  | nil => rfl
  | append_singleton l b ih =>
      have hb : b = a := h b (by simp)
      have hl : ∀ c ∈ l, c = a := fun c hc => h c (List.mem_append_left _ hc)
      rw [eraseDups_snoc, ih hl, if_neg (List.append_ne_nil_of_right_ne_nil _ (by simp))]
      by_cases hnil : l = []
      · simp [hnil, hb]
      · obtain ⟨c, hc⟩ := List.exists_mem_of_ne_nil l hnil
        have hmem : b ∈ l := by rwa [hb, ← hl c hc]
        rw [if_neg hnil, if_pos hmem, List.append_nil]

/-! ## Parts of distinct keys -/

/-- Every fragment is in one part, and each part is its fragments in order. -/
def GatheredInto (fragments parts : List String) : Prop :=
  ∃ marked : List (Nat × String), marked.map (·.2) = fragments ∧
    (∀ m ∈ marked, m.1 < parts.length) ∧
    ∀ (k : Nat) (part : String), parts[k]? = some part → part = gather k marked

/-- The parts of distinct keys hold the fragments of these keys. -/
theorem gatheredInto_keys {κ : Type*} [DecidableEq κ] {keys : List κ} (hnodup : keys.Nodup)
    {marked : List (κ × String)} (hkeys : ∀ m ∈ marked, m.1 ∈ keys) :
    GatheredInto (marked.map (·.2)) (keys.map fun key => gather key marked) := by
  refine ⟨marked.map fun m => (keys.idxOf m.1, m.2), ?_, ?_, ?_⟩
  · rw [List.map_map]
    rfl
  · intro m hm
    obtain ⟨m', hm', rfl⟩ := List.mem_map.mp hm
    rw [List.length_map]
    exact List.idxOf_lt_length_of_mem (hkeys m' hm')
  · intro k part hpart
    rw [List.getElem?_map] at hpart
    obtain ⟨key, hkey, rfl⟩ := Option.map_eq_some_iff.mp hpart
    obtain ⟨hlt, rfl⟩ := List.getElem?_eq_some_iff.mp hkey
    have hindex : keys.idxOf keys[k] = k := hnodup.idxOf_getElem k hlt
    have hsame : ∀ m ∈ marked, (keys.idxOf m.1 == k) = (m.1 == keys[k]) := by
      intro m hm
      rw [Bool.eq_iff_iff, beq_iff_eq, beq_iff_eq]
      constructor
      · intro heq
        exact (List.idxOf_inj (hkeys m hm)).mp (heq.trans hindex.symm)
      · intro heq
        rw [heq, hindex]
    unfold gather
    rw [List.filter_map, List.map_map]
    congr 2
    exact (List.filter_congr hsame).symm

end TokenStation.Library.Gathering
