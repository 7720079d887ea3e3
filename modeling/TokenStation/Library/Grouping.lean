import TokenStation.Library.SortedMap

/-!
# Values grouped by key

A table from keys to lists collects the values of each key in the order they
were added. Lists with one distinct value are told apart by counting it.
-/

namespace TokenStation.Library

namespace SortedMap

variable {κ ν : Type*} [LinearOrder κ]

/-- Add a value to those of a key. -/
def push (m : SortedMap κ (List ν)) (key : κ) (value : ν) : SortedMap κ (List ν) :=
  m.insert key ((m.get key).getD [] ++ [value])

/-- Add values in order. -/
def pushAll (m : SortedMap κ (List ν)) (pairs : List (κ × ν)) : SortedMap κ (List ν) :=
  pairs.foldl (fun m pair => m.push pair.1 pair.2) m

/-- The values a list of pairs has for a key. -/
def valuesAt (key : κ) (pairs : List (κ × ν)) : List ν :=
  (pairs.filter fun pair => pair.1 = key).map Prod.snd

theorem mem_valuesAt {key : κ} {pairs : List (κ × ν)} {value : ν} :
    value ∈ valuesAt key pairs ↔ (key, value) ∈ pairs := by
  simp [valuesAt]

theorem get_push (m : SortedMap κ (List ν)) (key k : κ) (value : ν) :
    (m.push key value).get k =
      if key = k then some ((m.get k).getD [] ++ [value]) else m.get k := by
  rw [push, get_insert]
  split
  · rename_i heq
    rw [heq]
  · rfl

/-- A key's values are those it had, then those added. -/
theorem getD_pushAll (m : SortedMap κ (List ν)) (pairs : List (κ × ν)) (key : κ) :
    ((m.pushAll pairs).get key).getD [] = (m.get key).getD [] ++ valuesAt key pairs := by
  induction pairs generalizing m with
  | nil => simp [pushAll, valuesAt]
  | cons pair pairs ih =>
      change (((m.push pair.1 pair.2).pushAll pairs).get key).getD [] = _
      rw [ih, get_push]
      by_cases hkey : pair.1 = key <;> simp [hkey, valuesAt]

/-- The keys of grouped pairs are those that occur in them. -/
theorem get_pushAll_empty (pairs : List (κ × ν)) {key : κ} {values : List ν} :
    (empty.pushAll pairs).get key = some values ↔
      values = valuesAt key pairs ∧ values ≠ [] := by
  have hkept (m : SortedMap κ (List ν)) (hm : ∀ k, m.get k ≠ some []) :
      (m.pushAll pairs).get key ≠ some [] := by
    induction pairs generalizing m with
    | nil => exact hm key
    | cons pair pairs ih =>
        refine ih (m.push pair.1 pair.2) fun k => ?_
        rw [get_push]
        split
        · simp
        · exact hm k
  have hnonempty := hkept empty fun k => by simp
  have hvalues := getD_pushAll empty pairs key
  rw [get_empty, Option.getD_none, List.nil_append] at hvalues
  rw [← hvalues]
  match hget : (empty.pushAll pairs).get key with
  | none =>
      refine iff_of_false (by simp) ?_
      rintro ⟨rfl, hne⟩
      exact hne rfl
  | some found =>
      rw [Option.getD_some, Option.some.injEq]
      constructor
      · rintro rfl
        exact ⟨rfl, fun hnil => hnonempty (hget.trans (congrArg some hnil))⟩
      · rintro ⟨rfl, -⟩
        rfl

end SortedMap

/-- A value alone in a list. -/
theorem eq_singleton_iff {α : Type*} [DecidableEq α] {l : List α} {a : α} :
    l = [a] ↔ l.count a = 1 ∧ ∀ b ∈ l, b = a := by
  constructor
  · rintro rfl
    simp
  · rintro ⟨hcount, hall⟩
    have hlength : l.length = 1 := by
      rw [← List.count_eq_length.mpr fun b hb => (hall b hb).symm]
      exact hcount
    exact List.eq_replicate_iff.mpr ⟨hlength, hall⟩

theorem length_le_one_iff {α : Type*} {l : List α} {a : α} (h : a ∈ l) :
    l.length ≤ 1 ↔ l = [a] := by
  constructor
  · intro hlength
    have hpos := List.length_pos_of_mem h
    obtain ⟨b, rfl⟩ := List.length_eq_one_iff.mp (by omega : l.length = 1)
    rw [List.mem_singleton.mp h]
  · rintro rfl
    rfl

end TokenStation.Library
