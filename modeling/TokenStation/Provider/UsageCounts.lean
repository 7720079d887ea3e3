import TokenStation.Provider.Dialect

/-!
# Counts of a usage report

A count that a report must carry, one that it may leave out, and a details
object that it may leave out. Each dialect reads its own keys with these, and
refuses in its own words.
-/

namespace TokenStation.Provider

open Library Library.Json Responses

/-- The count under a key; what is no count is nothing. -/
def countAt (raw : Value) (key : String) : Nat := ((raw.get key).bind Value.asU64).getD 0

/-- A required count. -/
def countUnder (raw : Value) (key missing : String) : Except ErrorEnvelope Nat :=
  match (raw.get key).bind Value.asU64 with
  | some count => .ok count
  | none => .error (protocolError missing)

/-- An optional count: absent or `null` is zero. -/
def countOrZero (found : Option Value) (invalid : String) : Except ErrorEnvelope Nat :=
  match found with
  | none | some .null => .ok 0
  | some value =>
      match value.asU64 with
      | some count => .ok count
      | none => .error (protocolError invalid)

/-- A details object: absent or `null`, or an object. -/
def objectOrNone (found : Option Value) (invalid : String) :
    Except ErrorEnvelope (Option Value) :=
  match found with
  | none | some .null => .ok none
  | some details => if details.isObject then .ok (some details) else .error (protocolError invalid)

theorem countUnder_ok {raw : Value} {key missing : String} {count : Nat}
    (h : countUnder raw key missing = .ok count) : count = countAt raw key := by
  unfold countUnder at h
  split at h
  · rename_i n hn
    cases h
    rw [countAt, hn, Option.getD_some]
  · cases h

theorem countOrZero_ok {found : Option Value} {value : Value} {key invalid : String} {count : Nat}
    (h : countOrZero found invalid = .ok count) (hfound : found = value.get key) :
    count = countAt value key := by
  rw [countAt, ← hfound]
  unfold countOrZero at h
  split at h
  · cases h
    rfl
  · cases h
    rfl
  · split at h
    · rename_i n hn
      cases h
      rw [Option.bind_some, hn, Option.getD_some]
    · cases h

/-- A count that is read as a required one is read as an optional one. -/
theorem countOrZero_of_countUnder {raw : Value} {key missing : String} {count : Nat}
    (h : countUnder raw key missing = .ok count) (invalid : String) :
    countOrZero (raw.get key) invalid = .ok count := by
  unfold countUnder at h
  split at h
  · rename_i n hn
    obtain ⟨value, hvalue, hcount⟩ := Option.bind_eq_some_iff.mp hn
    cases h
    rw [hvalue]
    cases value with
    | number n =>
        cases n with
        | posInt m =>
            cases hcount
            rfl
        | negInt _ | float _ => cases hcount
    | null | bool _ | string _ | array _ | object _ => cases hcount
  · cases h

/-- The details that are read are those of the field, and `null` has none. -/
theorem objectOrNone_ok {raw : Value} {key invalid : String} {details : Option Value}
    (h : objectOrNone (raw.get key) invalid = .ok details) (k : String) :
    details.bind (·.get k) = (raw.field key).get k := by
  rw [Value.field]
  unfold objectOrNone at h
  split at h
  · rename_i hnone
    cases h
    rw [hnone]
    rfl
  · rename_i hnull
    cases h
    rw [hnull]
    rfl
  · rename_i found _ hfound
    split at h
    · cases h
      rw [hfound]
      rfl
    · cases h

end TokenStation.Provider
