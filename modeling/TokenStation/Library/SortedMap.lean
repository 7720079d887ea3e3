import Mathlib

/-!
# Maps as sorted lists

A finite map is the list of its entries in strictly increasing key order, so
equal maps are equal lists. The order makes iteration deterministic; lookups
and insertions do not depend on it.
-/

namespace TokenStation.Library

variable {κ ν : Type*}

/-- The value stored under a key. -/
def lookup [DecidableEq κ] (key : κ) : List (κ × ν) → Option ν
  | [] => none
  | (k, v) :: entries => if k = key then some v else lookup key entries

/-- Store a value in a table whose order does not matter. -/
def store [DecidableEq κ] (key : κ) (value : ν) : List (κ × ν) → List (κ × ν)
  | [] => [(key, value)]
  | (k, v) :: entries =>
      if k = key then (key, value) :: entries else (k, v) :: store key value entries

theorem lookup_store [DecidableEq κ] (key k : κ) (value : ν) (entries : List (κ × ν)) :
    lookup k (store key value entries) = if key = k then some value else lookup k entries := by
  induction entries with
  | nil => simp [store, lookup]
  | cons e entries ih =>
      obtain ⟨k', v'⟩ := e
      rw [store]
      split
      · rename_i heq
        simp only [lookup, heq]
        split <;> rfl
      · rename_i hne
        simp only [lookup, ih]
        by_cases hk : k' = k
        · have : key ≠ k := fun h => hne (hk.trans h.symm)
          simp [hk, this]
        · simp [hk]

theorem lookup_eq_none_iff [DecidableEq κ] {key : κ} {entries : List (κ × ν)} :
    lookup key entries = none ↔ key ∉ entries.map Prod.fst := by
  induction entries with
  | nil => simp [lookup]
  | cons e entries ih =>
      obtain ⟨k, v⟩ := e
      by_cases hk : k = key
      · simp [lookup, hk]
      · simp [lookup, hk, ih, Ne.symm hk]

theorem mem_of_lookup [DecidableEq κ] {key : κ} {value : ν} {entries : List (κ × ν)}
    (h : lookup key entries = some value) : (key, value) ∈ entries := by
  induction entries with
  | nil => simp [lookup] at h
  | cons e entries ih =>
      obtain ⟨k, v⟩ := e
      rw [lookup] at h
      split at h
      · simp_all
      · simp [ih h]

section

variable [LinearOrder κ]

/-- Store a value under a key, in order, replacing the value stored there. -/
def insertEntry (key : κ) (value : ν) : List (κ × ν) → List (κ × ν)
  | [] => [(key, value)]
  | (k, v) :: entries =>
      if key < k then (key, value) :: (k, v) :: entries
      else if k = key then (key, value) :: entries
      else (k, v) :: insertEntry key value entries

theorem insertEntry_nil (key : κ) (value : ν) : insertEntry key value [] = [(key, value)] := rfl

theorem insertEntry_of_lt {key k : κ} (h : key < k) (value v : ν) (entries : List (κ × ν)) :
    insertEntry key value ((k, v) :: entries) = (key, value) :: (k, v) :: entries := by
  rw [insertEntry, if_pos h]

theorem insertEntry_of_gt {key k : κ} (h : k < key) (value v : ν) (entries : List (κ × ν)) :
    insertEntry key value ((k, v) :: entries) = (k, v) :: insertEntry key value entries := by
  rw [insertEntry, if_neg h.asymm, if_neg h.ne]

theorem lookup_insertEntry (key k : κ) (value : ν) (entries : List (κ × ν)) :
    lookup k (insertEntry key value entries) =
      if key = k then some value else lookup k entries := by
  induction entries with
  | nil => simp [insertEntry, lookup]
  | cons e entries ih =>
      obtain ⟨k', v'⟩ := e
      rw [insertEntry]
      split
      · simp [lookup]
      · split
        · rename_i heq
          simp only [lookup, heq]
          split <;> rfl
        · rename_i hne
          simp only [lookup, ih]
          by_cases hk : k' = k
          · have : key ≠ k := fun h => hne (hk.trans h.symm)
            simp [hk, this]
          · simp [hk]

theorem mem_insertEntry {key : κ} {value : ν} {entries : List (κ × ν)} {e : κ × ν}
    (h : e ∈ insertEntry key value entries) : e = (key, value) ∨ e ∈ entries := by
  induction entries with
  | nil => simpa [insertEntry] using h
  | cons f entries ih =>
      obtain ⟨k, v⟩ := f
      rw [insertEntry] at h
      split at h
      · simpa using h
      · split at h
        · rcases List.mem_cons.mp h with h | h
          · exact .inl h
          · exact .inr (by simp [h])
        · rcases List.mem_cons.mp h with h | h
          · exact .inr (by simp [h])
          · rcases ih h with h | h
            · exact .inl h
            · exact .inr (by simp [h])

/-- Entries in strictly increasing key order. -/
def Ordered (entries : List (κ × ν)) : Prop := entries.Pairwise fun a b => a.1 < b.1

theorem ordered_iff_keys {entries : List (κ × ν)} :
    Ordered entries ↔ (entries.map Prod.fst).Pairwise (· < ·) := by
  rw [Ordered, List.pairwise_map]

theorem ordered_insertEntry {entries : List (κ × ν)} (h : Ordered entries) (key : κ) (value : ν) :
    Ordered (insertEntry key value entries) := by
  induction entries with
  | nil => simp [insertEntry, Ordered]
  | cons e entries ih =>
      obtain ⟨k, v⟩ := e
      obtain ⟨hhead, htail⟩ := List.pairwise_cons.mp h
      rw [insertEntry]
      split
      · rename_i hlt
        refine List.pairwise_cons.mpr ⟨?_, h⟩
        intro f hf
        rcases List.mem_cons.mp hf with rfl | hf
        · exact hlt
        · exact hlt.trans (hhead f hf)
      · split
        · rename_i heq
          exact List.pairwise_cons.mpr ⟨fun f hf => heq ▸ hhead f hf, htail⟩
        · rename_i hnlt hne
          refine List.pairwise_cons.mpr ⟨?_, ih htail⟩
          intro f hf
          rcases mem_insertEntry hf with rfl | hf
          · exact lt_of_le_of_ne (not_lt.mp hnlt) hne
          · exact hhead f hf

/-- A key beyond all others goes to the end. -/
theorem insertEntry_last {key : κ} {entries : List (κ × ν)} (h : ∀ e ∈ entries, e.1 < key)
    (value : ν) : insertEntry key value entries = entries ++ [(key, value)] := by
  induction entries with
  | nil => rfl
  | cons e entries ih =>
      obtain ⟨k, v⟩ := e
      have hk : k < key := h (k, v) (by simp)
      rw [insertEntry, if_neg (not_lt.mpr hk.le), if_neg hk.ne, ih fun e he => h e (by simp [he])]
      rfl

/-- Entries that are already in order stay as they are when stored one after
another. -/
theorem foldl_insertEntry {stored entries : List (κ × ν)} (h : Ordered (stored ++ entries)) :
    entries.foldl (fun m e => insertEntry e.1 e.2 m) stored = stored ++ entries := by
  induction entries generalizing stored with
  | nil => simp
  | cons e entries ih =>
      have hlast : ∀ f ∈ stored, f.1 < e.1 := fun f hf =>
        (List.pairwise_append.mp h).2.2 f hf e (by simp)
      rw [List.foldl_cons, insertEntry_last hlast, ih (by simpa using h)]
      simp

/-- A new key only adds its entry. -/
theorem insertEntry_perm {key : κ} {entries : List (κ × ν)} (h : lookup key entries = none)
    (value : ν) : (insertEntry key value entries).Perm ((key, value) :: entries) := by
  induction entries with
  | nil => exact List.Perm.refl _
  | cons e entries ih =>
      obtain ⟨k, v⟩ := e
      rw [lookup] at h
      split at h
      · cases h
      · rw [insertEntry]
        split
        · exact List.Perm.refl _
        · exact ((ih h).cons (k, v)).trans (List.Perm.swap _ _ _)

/-- A finite map in key order. -/
structure SortedMap (κ ν : Type*) [LinearOrder κ] where
  entries : List (κ × ν)
  ordered : Ordered entries

namespace SortedMap

@[ext] theorem ext {m m' : SortedMap κ ν} (h : m.entries = m'.entries) : m = m' := by
  cases m
  cases m'
  simpa using h

instance [DecidableEq ν] : DecidableEq (SortedMap κ ν) := fun m m' =>
  decidable_of_iff (m.entries = m'.entries) ⟨ext, fun h => h ▸ rfl⟩

def empty : SortedMap κ ν := ⟨[], List.Pairwise.nil⟩

def get (m : SortedMap κ ν) (key : κ) : Option ν := lookup key m.entries

def insert (m : SortedMap κ ν) (key : κ) (value : ν) : SortedMap κ ν :=
  ⟨insertEntry key value m.entries, ordered_insertEntry m.ordered key value⟩

/-- Store entries one after another. -/
def insertAll (m : SortedMap κ ν) (entries : List (κ × ν)) : SortedMap κ ν :=
  entries.foldl (fun m e => m.insert e.1 e.2) m

def ofList (entries : List (κ × ν)) : SortedMap κ ν := empty.insertAll entries

@[simp] theorem insertAll_nil (m : SortedMap κ ν) : m.insertAll [] = m := rfl

@[simp] theorem insertAll_cons (m : SortedMap κ ν) (e : κ × ν) (entries : List (κ × ν)) :
    m.insertAll (e :: entries) = (m.insert e.1 e.2).insertAll entries := rfl

theorem get_insert (m : SortedMap κ ν) (key k : κ) (value : ν) :
    (m.insert key value).get k = if key = k then some value else m.get k :=
  lookup_insertEntry key k value m.entries

@[simp] theorem get_empty (key : κ) : (empty : SortedMap κ ν).get key = none := rfl

/-- The entries are what is stored. -/
theorem mem_entries_iff {m : SortedMap κ ν} {key : κ} {value : ν} :
    (key, value) ∈ m.entries ↔ m.get key = some value := by
  constructor
  · intro h
    have hordered := m.ordered
    rw [get]
    generalize m.entries = entries at h hordered
    induction entries with
    | nil => cases h
    | cons e entries ih =>
        obtain ⟨k, v⟩ := e
        obtain ⟨hhead, htail⟩ := List.pairwise_cons.mp hordered
        rcases List.mem_cons.mp h with heq | h
        · cases heq
          rw [lookup, if_pos rfl]
        · rw [lookup, if_neg (hhead (key, value) h).ne]
          exact ih h htail
  · exact mem_of_lookup

theorem get_eq_none_iff {m : SortedMap κ ν} {key : κ} :
    m.get key = none ↔ key ∉ m.entries.map Prod.fst := lookup_eq_none_iff

/-- A map is what is stored under its keys. -/
theorem ext_get {m m' : SortedMap κ ν} (h : ∀ key, m.get key = m'.get key) : m = m' := by
  have hmem (e : κ × ν) : e ∈ m.entries ↔ e ∈ m'.entries := by
    rw [mem_entries_iff, mem_entries_iff, h]
  have hnodup {m : SortedMap κ ν} : m.entries.Nodup :=
    m.ordered.imp fun hlt heq => hlt.ne (by rw [heq])
  have hperm := (List.perm_ext_iff_of_nodup hnodup hnodup).mpr hmem
  exact ext (hperm.eq_of_pairwise (fun _ _ _ _ hlt hgt => absurd hgt hlt.asymm)
    m.ordered m'.ordered)

/-- What is stored under each name when a function says it. -/
theorem get_insertAll (f : κ → ν) (m : SortedMap κ ν) (names : List κ) (key : κ) :
    (m.insertAll (names.map fun name => (name, f name))).get key =
      if key ∈ names then some (f key) else m.get key := by
  induction names generalizing m with
  | nil => simp
  | cons name names ih =>
      rw [List.map_cons, insertAll_cons, ih, get_insert]
      by_cases hkey : key ∈ names
      · rw [if_pos hkey, if_pos (List.mem_cons_of_mem _ hkey)]
      · rw [if_neg hkey]
        by_cases heq : name = key
        · rw [if_pos heq, if_pos (by rw [heq]; exact List.mem_cons_self), heq]
        · rw [if_neg heq, if_neg (by simp [hkey, Ne.symm heq])]

/-- What is stored under a key was there before or is among the entries. -/
theorem mem_of_get_insertAll {m : SortedMap κ ν} {entries : List (κ × ν)} {key : κ} {value : ν}
    (h : (m.insertAll entries).get key = some value) :
    (key, value) ∈ entries ∨ m.get key = some value := by
  induction entries generalizing m with
  | nil => exact .inr h
  | cons e entries ih =>
      rcases ih h with h | h
      · exact .inl (List.mem_cons_of_mem _ h)
      · rw [get_insert] at h
        split at h
        · rename_i heq
          cases h
          exact .inl (heq ▸ List.mem_cons_self)
        · exact .inr h

theorem get_insertAll_of_notMem {m : SortedMap κ ν} {entries : List (κ × ν)} {key : κ}
    (h : key ∉ entries.map Prod.fst) : (m.insertAll entries).get key = m.get key := by
  induction entries generalizing m with
  | nil => rfl
  | cons e entries ih =>
      rw [List.map_cons, List.mem_cons, not_or] at h
      rw [insertAll_cons, ih h.2, get_insert, if_neg (Ne.symm h.1)]

/-- An entry whose key has no other value is what is stored. -/
theorem get_insertAll_of_unique {m : SortedMap κ ν} {entries : List (κ × ν)} {key : κ} {value : ν}
    (h : (key, value) ∈ entries) (hunique : ∀ other, (key, other) ∈ entries → other = value) :
    (m.insertAll entries).get key = some value := by
  induction entries generalizing m with
  | nil => cases h
  | cons e entries ih =>
      by_cases hkey : key ∈ entries.map Prod.fst
      · obtain ⟨⟨k, v⟩, he, rfl⟩ := List.mem_map.mp hkey
        obtain rfl : v = value := hunique v (List.mem_cons_of_mem _ he)
        exact ih he fun other hother => hunique other (List.mem_cons_of_mem _ hother)
      · rw [insertAll_cons, get_insertAll_of_notMem hkey, get_insert]
        rcases List.mem_cons.mp h with rfl | h
        · exact if_pos rfl
        · exact absurd (List.mem_map_of_mem h) hkey

/-- The entries of a map are stored over what was there. -/
theorem get_insertAll_entries (m m' : SortedMap κ ν) (key : κ) :
    (m.insertAll m'.entries).get key = (m'.get key).or (m.get key) := by
  cases hget : m'.get key with
  | none => rw [get_insertAll_of_notMem (get_eq_none_iff.mp hget), Option.none_or]
  | some value =>
      rw [Option.some_or]
      refine get_insertAll_of_unique (mem_entries_iff.mpr hget) fun other hother => ?_
      rw [mem_entries_iff, hget, Option.some.injEq] at hother
      exact hother.symm

/-- A map rebuilt from the entries a function keeps. -/
theorem get_ofList_filterMap {μ : Type*} (f : κ → ν → Option μ) (m : SortedMap κ ν) (key : κ) :
    (ofList (m.entries.filterMap fun e => (f e.1 e.2).map fun value => (e.1, value))).get key =
      (m.get key).bind (f key) := by
  have hmem {value : μ} : (key, value) ∈ (m.entries.filterMap fun e =>
      (f e.1 e.2).map fun value => (e.1, value)) ↔ (m.get key).bind (f key) = some value := by
    rw [List.mem_filterMap, Option.bind_eq_some_iff]
    constructor
    · rintro ⟨e, he, hvalue⟩
      obtain ⟨found, hfound, heq⟩ := Option.map_eq_some_iff.mp hvalue
      cases heq
      exact ⟨e.2, mem_entries_iff.mp he, hfound⟩
    · rintro ⟨v, hv, hvalue⟩
      exact ⟨(key, v), mem_entries_iff.mpr hv, Option.map_eq_some_iff.mpr ⟨value, hvalue, rfl⟩⟩
  cases hvalue : (m.get key).bind (f key) with
  | some value =>
      refine get_insertAll_of_unique (hmem.mpr hvalue) fun other hother => ?_
      rw [hmem, hvalue, Option.some.injEq] at hother
      exact hother.symm
  | none =>
      rw [Option.eq_none_iff_forall_ne_some]
      intro value hget
      rcases mem_of_get_insertAll hget with h | h
      · rw [hmem, hvalue] at h
        cases h
      · cases h

/-- The map with each value replaced. -/
def mapValues {μ : Type*} (f : κ → ν → μ) (m : SortedMap κ ν) : SortedMap κ μ where
  entries := m.entries.map fun e => (e.1, f e.1 e.2)
  ordered := by
    rw [ordered_iff_keys, List.map_map]
    exact ordered_iff_keys.mp m.ordered

theorem get_mapValues {μ : Type*} (f : κ → ν → μ) (m : SortedMap κ ν) (key : κ) :
    (m.mapValues f).get key = (m.get key).map (f key) := by
  rw [get, get, mapValues]
  dsimp only
  induction m.entries with
  | nil => rfl
  | cons e entries ih =>
      obtain ⟨k, v⟩ := e
      rw [List.map_cons, lookup, lookup]
      split
      · rename_i heq
        rw [← heq]
        rfl
      · exact ih

/-- Storing distinct new keys adds exactly their entries. -/
theorem insertAll_perm {m : SortedMap κ ν} {entries : List (κ × ν)}
    (hnodup : (entries.map Prod.fst).Nodup) (hnew : ∀ e ∈ entries, m.get e.1 = none) :
    (m.insertAll entries).entries.Perm (m.entries ++ entries) := by
  induction entries generalizing m with
  | nil => simp
  | cons e entries ih =>
      rw [List.map_cons, List.nodup_cons] at hnodup
      have hstep : (m.insert e.1 e.2).entries.Perm (e :: m.entries) :=
        insertEntry_perm (hnew e (by simp)) e.2
      have hrest : ((m.insert e.1 e.2).insertAll entries).entries.Perm
          ((m.insert e.1 e.2).entries ++ entries) := by
        apply ih hnodup.2
        intro f hf
        rw [get_insert, if_neg]
        · exact hnew f (by simp [hf])
        · intro heq
          exact hnodup.1 (heq ▸ List.mem_map_of_mem hf)
      rw [insertAll_cons]
      exact hrest.trans ((hstep.append_right entries).trans List.perm_middle.symm)

end SortedMap

end

end TokenStation.Library
