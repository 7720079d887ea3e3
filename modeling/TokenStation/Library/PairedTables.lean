import TokenStation.Library.SortedMap

/-!
# Tables under other keys

Two tables that hold the same values in the same order, under keys that
correspond one to one, stay so when corresponding keys are stored under.
-/

namespace TokenStation.Library

variable {κ ι ν : Type*}

/-- The keys correspond entry by entry, and the values are the same. -/
def Paired (rename : κ → Option ι) (entries : List (κ × ν)) (renamed : List (ι × ν)) : Prop :=
  List.Forall₂ (fun e r => rename e.1 = some r.1 ∧ e.2 = r.2) entries renamed

/-- No two keys have the same name. -/
def OneToOne (rename : κ → Option ι) : Prop :=
  ∀ ⦃key other : κ⦄ ⦃name : ι⦄, rename key = some name → rename other = some name → key = other

theorem store_self [DecidableEq κ] {key : κ} {value : ν} {entries : List (κ × ν)}
    (h : lookup key entries = some value) : store key value entries = entries := by
  induction entries with
  | nil => cases h
  | cons e entries ih =>
      obtain ⟨k, v⟩ := e
      rw [lookup] at h
      rw [store]
      split at h
      · rename_i heq
        cases h
        rw [if_pos heq, heq]
      · rename_i hne
        rw [if_neg hne, ih h]

theorem store_store [DecidableEq κ] (key : κ) (value later : ν) (entries : List (κ × ν)) :
    store key later (store key value entries) = store key later entries := by
  induction entries with
  | nil => simp [store]
  | cons e entries ih =>
      obtain ⟨k, v⟩ := e
      rw [store]
      split
      · rename_i heq
        simp [store, heq]
      · rename_i hne
        simp [store, hne, ih]

namespace Paired

variable {rename : κ → Option ι} {entries : List (κ × ν)} {renamed : List (ι × ν)}

theorem values (h : Paired rename entries renamed) :
    entries.map Prod.snd = renamed.map Prod.snd := by
  induction h with
  | nil => rfl
  | cons hentry _ ih => rw [List.map_cons, List.map_cons, hentry.2, ih]

theorem lookup_eq [DecidableEq κ] [DecidableEq ι] (h : Paired rename entries renamed)
    (hone : OneToOne rename) {key : κ} {name : ι} (hkey : rename key = some name) : lookup key entries = lookup name renamed := by
  induction h with
  | nil => rfl
  | @cons e r entries renamed hentry _ ih =>
      rw [lookup, lookup]
      by_cases heq : e.1 = key
      · have hname : r.1 = name := by
          have := hentry.1
          rw [heq, hkey] at this
          exact (Option.some.inj this).symm
        rw [if_pos heq, if_pos hname, hentry.2]
      · have hname : r.1 ≠ name := fun h => heq (hone hentry.1 (h ▸ hkey))
        rw [if_neg heq, if_neg hname, ih]

theorem store [DecidableEq κ] [DecidableEq ι] (h : Paired rename entries renamed)
    (hone : OneToOne rename) {key : κ} {name : ι} (hkey : rename key = some name) (value : ν) :
    Paired rename (Library.store key value entries) (Library.store name value renamed) := by
  induction h with
  | nil => exact .cons ⟨hkey, rfl⟩ .nil
  | @cons e r entries renamed hentry hrest ih =>
      rw [Library.store, Library.store]
      by_cases heq : e.1 = key
      · have hname : r.1 = name := by
          have := hentry.1
          rw [heq, hkey] at this
          exact (Option.some.inj this).symm
        rw [if_pos heq, if_pos hname]
        exact .cons ⟨hkey, rfl⟩ hrest
      · have hname : r.1 ≠ name := fun h => heq (hone hentry.1 (h ▸ hkey))
        rw [if_neg heq, if_neg hname]
        exact .cons hentry ih

/-- Names may be given to keys that are not in the table. -/
theorem rename_more (h : Paired rename entries renamed) {names : κ → Option ι}
    (hkept : ∀ ⦃key name⦄, rename key = some name → names key = some name) :
    Paired names entries renamed :=
  List.Forall₂.imp (fun _ _ hentry => ⟨hkept hentry.1, hentry.2⟩) h

end Paired

end TokenStation.Library
