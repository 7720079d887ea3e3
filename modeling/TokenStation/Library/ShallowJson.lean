import TokenStation.Library.JsonText

/-!
# Shallow values

Values without doubles that are nested at most so deep, built up from their
parts: these are the values that are written and read back.
-/

namespace TokenStation.Library.Json

/-- Exact values nested at most this deep. -/
structure Shallow (n : Nat) (v : Value) : Prop where
  exact : Exact v
  depth_le : depth v ≤ n

theorem exactEntries_iff {entries : List (String × Value)} :
    ExactEntries entries ↔ ∀ e ∈ entries, Exact e.2 := by
  induction entries with
  | nil => simp [ExactEntries]
  | cons e entries ih => simp [ExactEntries, ih]

theorem depthEntries_le_iff {entries : List (String × Value)} {n : Nat} :
    depthEntries entries ≤ n ↔ ∀ e ∈ entries, depth e.2 ≤ n := by
  induction entries with
  | nil => simp [depthEntries]
  | cons e entries ih => simp [depthEntries, ih]

theorem exactItems_iff {items : List Value} : ExactItems items ↔ ∀ v ∈ items, Exact v := by
  induction items with
  | nil => simp [ExactItems]
  | cons v items ih => simp [ExactItems, ih]

theorem depthItems_le_iff {items : List Value} {n : Nat} :
    depthItems items ≤ n ↔ ∀ v ∈ items, depth v ≤ n := by
  induction items with
  | nil => simp [depthItems]
  | cons v items ih => simp [depthItems, ih]

theorem shallow_object_iff {entries : List (String × Value)} {n : Nat} :
    Shallow (n + 1) (.object entries) ↔ Ordered entries ∧ ∀ e ∈ entries, Shallow n e.2 := by
  constructor
  · rintro ⟨hexact, hdepth⟩
    rw [Exact, exactEntries_iff] at hexact
    rw [depth, Nat.add_le_add_iff_right, depthEntries_le_iff] at hdepth
    exact ⟨hexact.1, fun e he => ⟨hexact.2 e he, hdepth e he⟩⟩
  · rintro ⟨hordered, hentries⟩
    refine ⟨?_, ?_⟩
    · rw [Exact, exactEntries_iff]
      exact ⟨hordered, fun e he => (hentries e he).exact⟩
    · rw [depth, Nat.add_le_add_iff_right, depthEntries_le_iff]
      exact fun e he => (hentries e he).depth_le

namespace Shallow

variable {n m : Nat} {v w : Value}

theorem mono (h : Shallow m v) (hle : m ≤ n) : Shallow n v := ⟨h.exact, h.depth_le.trans hle⟩

theorem null : Shallow n .null := ⟨trivial, Nat.zero_le _⟩

theorem string (s : String) : Shallow n (.string s) := ⟨trivial, Nat.zero_le _⟩

theorem nat {i : Nat} (h : i < 2 ^ 64) : Shallow n (.nat i) := ⟨h, Nat.zero_le _⟩

theorem int {i : Int} (hlow : -(2 ^ 63) ≤ i) (hhigh : i < 2 ^ 63) : Shallow n (.int i) := by
  unfold Value.int
  split
  · refine ⟨?_, Nat.zero_le _⟩
    simp only [Exact]
    omega
  · refine ⟨?_, Nat.zero_le _⟩
    simp only [Exact]
    omega

theorem array {items : List Value} (h : ∀ v ∈ items, Shallow n v) :
    Shallow (n + 1) (.array items) := by
  refine ⟨?_, ?_⟩
  · rw [Exact, exactItems_iff]
    exact fun v hv => (h v hv).exact
  · rw [depth, Nat.add_le_add_iff_right, depthItems_le_iff]
    exact fun v hv => (h v hv).depth_le

theorem insertEntry {entries : List (String × Value)} (h : Shallow (n + 1) (.object entries))
    (hw : Shallow n w) (key : String) :
    Shallow (n + 1) (.object (Library.insertEntry key w entries)) := by
  rw [shallow_object_iff] at h ⊢
  refine ⟨ordered_insertEntry h.1 key w, fun e he => ?_⟩
  rcases mem_insertEntry he with rfl | he
  · exact hw
  · exact h.2 e he

theorem obj {entries : List (String × Value)} (h : ∀ e ∈ entries, Shallow n e.2) :
    Shallow (n + 1) (.obj entries) := by
  rw [Value.obj]
  induction entries with
  | nil => exact shallow_object_iff.mpr ⟨.nil, by simp⟩
  | cons e entries ih =>
      rw [List.foldr_cons]
      exact insertEntry (ih fun e he => h e (List.mem_cons_of_mem _ he)) (h e List.mem_cons_self) _

theorem set (h : Shallow (n + 1) v) (hw : Shallow n w) (key : String) :
    Shallow (n + 1) (v.set key w) := by
  cases v with
  | object entries => exact insertEntry h hw key
  | null => exact shallow_object_iff.mpr ⟨List.pairwise_singleton _ _, by simpa using hw⟩
  | bool | number | string | array => exact h

/-- A field of a shallow object is shallow. -/
theorem get {key : String} (h : Shallow (n + 1) v) (hw : v.get key = some w) : Shallow n w := by
  cases v with
  | object entries => exact (shallow_object_iff.mp h).2 _ (mem_of_lookup hw)
  | null | bool | number | string | array => cases hw

end Shallow

end TokenStation.Library.Json
