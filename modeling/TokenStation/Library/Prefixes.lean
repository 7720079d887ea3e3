import Mathlib

/-!
# Address prefixes

An address is a number of a fixed size in bits, written as fields of equal width. A prefix
covers the addresses that begin with its bits; read on the fields, these are the addresses
that share the fields before the prefix ends and the leading bits of the field it ends in.
-/

namespace TokenStation.Library.Prefixes

/-! ## Fields -/

/-- The number whose binary digits are those of the fields in order. -/
def joined (width : Nat) (fields : List Nat) : Nat :=
  fields.foldl (fun n field => n * 2 ^ width + field) 0

theorem foldl_joined (width n : Nat) (fields : List Nat) :
    fields.foldl (fun n field => n * 2 ^ width + field) n =
      n * 2 ^ (width * fields.length) + joined width fields := by
  induction fields generalizing n with
  | nil => simp [joined]
  | cons field fields ih =>
      have hpow : 2 ^ (width * (fields.length + 1)) = 2 ^ width * 2 ^ (width * fields.length) := by
        rw [Nat.mul_add_one, pow_add, Nat.mul_comm]
      rw [joined, List.foldl_cons, List.foldl_cons, ih, ih (0 * 2 ^ width + field),
        List.length_cons, hpow]
      ring

theorem joined_append (width : Nat) (front back : List Nat) :
    joined width (front ++ back) =
      joined width front * 2 ^ (width * back.length) + joined width back := by
  rw [joined, List.foldl_append, foldl_joined]
  rfl

theorem joined_cons (width field : Nat) (fields : List Nat) :
    joined width (field :: fields) =
      field * 2 ^ (width * fields.length) + joined width fields := by
  rw [joined, List.foldl_cons, foldl_joined, Nat.zero_mul, Nat.zero_add]

theorem joined_lt {width : Nat} {fields : List Nat} (h : ∀ field ∈ fields, field < 2 ^ width) :
    joined width fields < 2 ^ (width * fields.length) := by
  induction fields with
  | nil => simp [joined]
  | cons field fields ih =>
      rw [List.forall_mem_cons] at h
      have hrest := ih h.2
      have hfield : (field + 1) * 2 ^ (width * fields.length) ≤
          2 ^ width * 2 ^ (width * fields.length) := Nat.mul_le_mul_right _ h.1
      rw [joined_cons, List.length_cons, Nat.mul_add_one, pow_add,
        Nat.mul_comm (2 ^ (width * fields.length))]
      rw [Nat.add_one_mul] at hfield
      omega

/-- The fields in front are what is left when the ones after them are shifted out. -/
theorem joined_div {width : Nat} (front : List Nat) {back : List Nat}
    (h : ∀ field ∈ back, field < 2 ^ width) :
    joined width (front ++ back) / 2 ^ (width * back.length) = joined width front := by
  rw [joined_append, Nat.mul_comm, Nat.mul_add_div (Nat.two_pow_pos _),
    Nat.div_eq_of_lt (joined_lt h), Nat.add_zero]

/-- Some fields in a row. -/
theorem joined_mid {width : Nat} (front : List Nat) {mid back : List Nat}
    (hmid : ∀ field ∈ mid, field < 2 ^ width) (hback : ∀ field ∈ back, field < 2 ^ width) :
    joined width (front ++ mid ++ back) / 2 ^ (width * back.length) % 2 ^ (width * mid.length) =
      joined width mid := by
  rw [joined_div _ hback, joined_append, Nat.mul_comm, Nat.mul_add_mod,
    Nat.mod_eq_of_lt (joined_lt hmid)]

theorem joined_inj {width : Nat} {fields others : List Nat}
    (hfields : ∀ field ∈ fields, field < 2 ^ width) (hothers : ∀ field ∈ others, field < 2 ^ width)
    (hlength : fields.length = others.length) :
    joined width fields = joined width others ↔ fields = others := by
  refine ⟨fun h => ?_, fun h => by rw [h]⟩
  induction fields generalizing others with
  | nil => exact (List.length_eq_zero_iff.mp hlength.symm).symm
  | cons field fields ih =>
      cases others with
      | nil => cases hlength
      | cons other others =>
          have hrest : fields.length = others.length := Nat.succ.inj hlength
          rw [List.forall_mem_cons] at hfields hothers
          have hpos : 0 < 2 ^ (width * others.length) := Nat.two_pow_pos _
          have hlt := joined_lt hfields.2
          have hlt' := joined_lt hothers.2
          rw [joined_cons, joined_cons, hrest, Nat.mul_comm, Nat.mul_comm other] at h
          rw [hrest] at hlt
          have hhead : field = other := by
            have hdiv := congrArg (· / 2 ^ (width * others.length)) h
            simpa [Nat.mul_add_div hpos, Nat.div_eq_of_lt hlt, Nat.div_eq_of_lt hlt'] using hdiv
          subst hhead
          rw [ih hfields.2 hothers.2 hrest (Nat.add_left_cancel h)]

/-- Masking the low bits away. -/
theorem land_mask {width rest n : Nat} (h : n < 2 ^ (width + rest)) :
    n &&& (2 ^ width - 1) * 2 ^ rest = n / 2 ^ rest * 2 ^ rest := by
  refine Nat.eq_of_testBit_eq fun i => ?_
  rw [Nat.testBit_and, Nat.testBit_mul_two_pow, Nat.testBit_mul_two_pow, Nat.testBit_div_two_pow,
    Nat.testBit_two_pow_sub_one]
  by_cases hi : rest ≤ i
  · simp only [hi, decide_true, Bool.true_and, Nat.sub_add_cancel hi]
    by_cases htop : i - rest < width
    · simp [htop]
    · rw [Nat.testBit_lt_two_pow (h.trans_le (Nat.pow_le_pow_right Nat.two_pos (by omega))),
        Bool.false_and]
  · simp [hi]

/-- A masked number is a multiple of the mask's step exactly when the leading bits are its. -/
theorem land_mask_eq {width rest n lead : Nat} (h : n < 2 ^ (width + rest)) :
    n &&& (2 ^ width - 1) * 2 ^ rest = lead * 2 ^ rest ↔ n / 2 ^ rest = lead := by
  rw [land_mask h]
  exact Nat.mul_left_inj (Nat.two_pow_pos rest).ne'

/-! ## Prefixes -/

/-- The addresses of a size that begin with given bits. -/
structure Prefix (size : Nat) where
  network : Nat
  length : Nat
  le_size : length ≤ size

/-- The address agrees with the network up to the prefix's length. -/
def Prefix.Covers {size : Nat} (p : Prefix size) (address : Nat) : Prop :=
  address / 2 ^ (size - p.length) = p.network / 2 ^ (size - p.length)

instance {size : Nat} (p : Prefix size) (address : Nat) : Decidable (p.Covers address) :=
  inferInstanceAs (Decidable (_ = _))

/-- A prefix of whole fields covers the addresses that begin with them. -/
theorem covers_joined_fields {width size : Nat} {front front' back back' : List Nat}
    (p : Prefix size) (hnetwork : p.network = joined width (front' ++ back'))
    (hlength : size - p.length = width * back.length) (hfront : front.length = front'.length)
    (hback : back.length = back'.length) (hfields : ∀ f ∈ front ++ back, f < 2 ^ width)
    (hfields' : ∀ f ∈ front' ++ back', f < 2 ^ width) :
    p.Covers (joined width (front ++ back)) ↔ front = front' := by
  rw [List.forall_mem_append] at hfields hfields'
  rw [Prefix.Covers, hlength, hnetwork, joined_div front hfields.2, hback,
    joined_div front' hfields'.2]
  exact joined_inj hfields.1 hfields'.1 hfront

/-- A prefix that ends in a field covers the addresses with the same fields before it and the
same leading bits in it. -/
theorem covers_joined {width rest size : Nat} {front front' back back' : List Nat}
    {field field' : Nat} (p : Prefix size)
    (hnetwork : p.network = joined width (front' ++ field' :: back'))
    (hlength : size - p.length = width * back.length + rest)
    (hfront : front.length = front'.length) (hback : back.length = back'.length)
    (hfields : ∀ f ∈ front ++ field :: back, f < 2 ^ width)
    (hfields' : ∀ f ∈ front' ++ field' :: back', f < 2 ^ width) (hrest : rest ≤ width) :
    p.Covers (joined width (front ++ field :: back)) ↔
      front = front' ∧ field / 2 ^ rest = field' / 2 ^ rest := by
  -- Shifting leaves the front fields and what is left of the field the prefix ends in.
  have hshift : ∀ (front back : List Nat) (field : Nat),
      (∀ f ∈ front ++ field :: back, f < 2 ^ width) →
      joined width (front ++ field :: back) / 2 ^ (width * back.length + rest) =
        joined width front * 2 ^ (width - rest) + field / 2 ^ rest := by
    intro front back field h
    have hpow : 2 ^ width = 2 ^ rest * 2 ^ (width - rest) := by
      rw [← pow_add, Nat.add_sub_cancel' hrest]
    rw [pow_add, ← Nat.div_div_eq_div_mul, List.append_cons, joined_div, joined_append,
      List.length_singleton, Nat.mul_one, hpow, Nat.mul_left_comm, Nat.mul_add_div]
    · simp [joined]
    · exact Nat.two_pow_pos _
    · exact fun f hf => h f (by simp [hf])
  have hbound : ∀ {front back : List Nat} {field : Nat},
      (∀ f ∈ front ++ field :: back, f < 2 ^ width) → field / 2 ^ rest < 2 ^ (width - rest) := by
    intro front back field h
    rw [Nat.div_lt_iff_lt_mul (Nat.two_pow_pos _), ← pow_add, Nat.sub_add_cancel hrest]
    exact h field (by simp)
  have hmem : ∀ {front back : List Nat} {field : Nat},
      (∀ f ∈ front ++ field :: back, f < 2 ^ width) → ∀ f ∈ front, f < 2 ^ width :=
    fun h f hf => h f (List.mem_append_left _ hf)
  rw [Prefix.Covers, hlength, hnetwork, hshift _ _ _ hfields, hback, hshift _ _ _ hfields']
  rw [← joined_inj (hmem hfields) (hmem hfields') hfront]
  have hlt := hbound hfields
  have hlt' := hbound hfields'
  generalize field / 2 ^ rest = low at hlt ⊢
  generalize field' / 2 ^ rest = low' at hlt' ⊢
  refine ⟨fun h => ?_, fun ⟨hhigh, hlow⟩ => by rw [hhigh, hlow]⟩
  have hpos : 0 < 2 ^ (width - rest) := Nat.two_pow_pos _
  rw [Nat.mul_comm, Nat.mul_comm (joined width front')] at h
  have hdiv := congrArg (· / 2 ^ (width - rest)) h
  have hhigh : joined width front = joined width front' := by
    simpa [Nat.mul_add_div hpos, Nat.div_eq_of_lt hlt, Nat.div_eq_of_lt hlt'] using hdiv
  rw [hhigh] at h
  exact ⟨hhigh, Nat.add_left_cancel h⟩

end TokenStation.Library.Prefixes
