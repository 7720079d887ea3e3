import TokenStation.Library.Prefixes

/-!
# Addresses a host must not connect to

The component hands out artifact URLs; what an address test lets through decides whether
fetching one can reach an internal service. The test is made of comparisons of octets and
segments, and refuses what the list of prefixes covers, an embedded IPv4 address included.
-/

namespace TokenStation.Media

open Library.Prefixes

/-! ## Addresses -/

structure Ipv4Addr where
  first : UInt8
  second : UInt8
  third : UInt8
  fourth : UInt8
  deriving DecidableEq

namespace Ipv4Addr

def octets (address : Ipv4Addr) : List UInt8 :=
  [address.first, address.second, address.third, address.fourth]

def isLoopback (address : Ipv4Addr) : Bool := address.first == 127

def isPrivate (address : Ipv4Addr) : Bool :=
  address.first == 10 ||
    (address.first == 172 && 16 ≤ address.second && address.second ≤ 31) ||
    (address.first == 192 && address.second == 168)

def isLinkLocal (address : Ipv4Addr) : Bool := address.first == 169 && address.second == 254

def isUnspecified (address : Ipv4Addr) : Bool := address == ⟨0, 0, 0, 0⟩

def isBroadcast (address : Ipv4Addr) : Bool := address == ⟨255, 255, 255, 255⟩

def isMulticast (address : Ipv4Addr) : Bool := 224 ≤ address.first && address.first ≤ 239

end Ipv4Addr

structure Ipv6Addr where
  first : UInt16
  second : UInt16
  third : UInt16
  fourth : UInt16
  fifth : UInt16
  sixth : UInt16
  seventh : UInt16
  eighth : UInt16
  deriving DecidableEq

namespace Ipv6Addr

def segments (address : Ipv6Addr) : List UInt16 :=
  [address.first, address.second, address.third, address.fourth, address.fifth, address.sixth,
    address.seventh, address.eighth]

def isLoopback (address : Ipv6Addr) : Bool := address == ⟨0, 0, 0, 0, 0, 0, 0, 1⟩

def isUnspecified (address : Ipv6Addr) : Bool := address == ⟨0, 0, 0, 0, 0, 0, 0, 0⟩

def isMulticast (address : Ipv6Addr) : Bool := address.first &&& 0xff00 == 0xff00

end Ipv6Addr

inductive IpAddr
  | v4 (address : Ipv4Addr)
  | v6 (address : Ipv6Addr)

/-! ## The test -/

def forbiddenV4 (address : Ipv4Addr) : Bool :=
  address.isLoopback || address.isPrivate || address.isLinkLocal || address.isUnspecified ||
    address.isBroadcast || address.isMulticast || address.first == 0 ||
    (address.first == 100 && (64 ≤ address.second && address.second ≤ 127)) ||
    (address.first == 192 && address.second == 0 && address.third == 0) ||
    (address.first == 198 && (address.second == 18 || address.second == 19)) ||
    240 ≤ address.first

/-- The high and the low byte of a segment. -/
def toBeBytes (segment : UInt16) : UInt8 × UInt8 := ((segment >>> 8).toUInt8, segment.toUInt8)

def embedded (high low : UInt16) : Ipv4Addr :=
  ⟨(toBeBytes high).1, (toBeBytes high).2, (toBeBytes low).1, (toBeBytes low).2⟩

def forbiddenV6 (address : Ipv6Addr) : Bool :=
  let segments := address.segments
  if address.isLoopback || address.isUnspecified || address.isMulticast then true
  else if address.first &&& 0xfe00 == 0xfc00 || address.first &&& 0xffc0 == 0xfe80 ||
      address.first &&& 0xffc0 == 0xfec0 then true
  else if segments.take 5 == [0, 0, 0, 0, 0] && (address.sixth == 0xffff || address.sixth == 0) then
    forbiddenV4 (embedded address.seventh address.eighth)
  else if address.first == 0x64 && address.second == 0xff9b &&
      (segments.drop 2).take 4 == [0, 0, 0, 0] then
    forbiddenV4 (embedded address.seventh address.eighth)
  else if address.first == 0x64 && address.second == 0xff9b && address.third == 1 then true
  else if address.first == 0x2002 then forbiddenV4 (embedded address.second address.third)
  else false

def isForbiddenEgressAddress : IpAddr → Bool
  | .v4 address => forbiddenV4 address
  | .v6 address => forbiddenV6 address

/-! ## The list -/

def Ipv4Addr.fields (address : Ipv4Addr) : List Nat := address.octets.map UInt8.toNat

def Ipv6Addr.fields (address : Ipv6Addr) : List Nat := address.segments.map UInt16.toNat

/-- The address as a number of 32 bits. -/
def Ipv4Addr.bits (address : Ipv4Addr) : Nat := joined 8 address.fields

/-- The address as a number of 128 bits. -/
def Ipv6Addr.bits (address : Ipv6Addr) : Nat := joined 16 address.fields

/-- `127/8`, `10/8`, `172.16/12`, `192.168/16`, `169.254/16`, `0/8`, `100.64/10`,
`192.0.0/24`, `198.18/15`, `224/4` and `240/4`. -/
def forbiddenPrefixesV4 : List (Prefix 32) :=
  [⟨Ipv4Addr.bits ⟨127, 0, 0, 0⟩, 8, by decide⟩, ⟨Ipv4Addr.bits ⟨10, 0, 0, 0⟩, 8, by decide⟩,
    ⟨Ipv4Addr.bits ⟨172, 16, 0, 0⟩, 12, by decide⟩,
    ⟨Ipv4Addr.bits ⟨192, 168, 0, 0⟩, 16, by decide⟩,
    ⟨Ipv4Addr.bits ⟨169, 254, 0, 0⟩, 16, by decide⟩, ⟨Ipv4Addr.bits ⟨0, 0, 0, 0⟩, 8, by decide⟩,
    ⟨Ipv4Addr.bits ⟨100, 64, 0, 0⟩, 10, by decide⟩, ⟨Ipv4Addr.bits ⟨192, 0, 0, 0⟩, 24, by decide⟩,
    ⟨Ipv4Addr.bits ⟨198, 18, 0, 0⟩, 15, by decide⟩, ⟨Ipv4Addr.bits ⟨224, 0, 0, 0⟩, 4, by decide⟩,
    ⟨Ipv4Addr.bits ⟨240, 0, 0, 0⟩, 4, by decide⟩]

/-- `::1`, `::`, `ff00::/8`, `fc00::/7`, `fe80::/10`, `fec0::/10` and `64:ff9b:1::/48`. -/
def forbiddenPrefixesV6 : List (Prefix 128) :=
  [⟨Ipv6Addr.bits ⟨0, 0, 0, 0, 0, 0, 0, 1⟩, 128, by decide⟩,
    ⟨Ipv6Addr.bits ⟨0, 0, 0, 0, 0, 0, 0, 0⟩, 128, by decide⟩,
    ⟨Ipv6Addr.bits ⟨0xff00, 0, 0, 0, 0, 0, 0, 0⟩, 8, by decide⟩,
    ⟨Ipv6Addr.bits ⟨0xfc00, 0, 0, 0, 0, 0, 0, 0⟩, 7, by decide⟩,
    ⟨Ipv6Addr.bits ⟨0xfe80, 0, 0, 0, 0, 0, 0, 0⟩, 10, by decide⟩,
    ⟨Ipv6Addr.bits ⟨0xfec0, 0, 0, 0, 0, 0, 0, 0⟩, 10, by decide⟩,
    ⟨Ipv6Addr.bits ⟨0x64, 0xff9b, 1, 0, 0, 0, 0, 0⟩, 48, by decide⟩]

/-- The prefixes whose addresses embed an IPv4 address, and how many bits follow it:
v4-mapped `::ffff:0:0/96`, v4-compatible `::/96`, NAT64 `64:ff9b::/96`, 6to4 `2002::/16`. -/
def embeddingPrefixes : List (Prefix 128 × Nat) :=
  [(⟨Ipv6Addr.bits ⟨0, 0, 0, 0, 0, 0xffff, 0, 0⟩, 96, by decide⟩, 0),
    (⟨Ipv6Addr.bits ⟨0, 0, 0, 0, 0, 0, 0, 0⟩, 96, by decide⟩, 0),
    (⟨Ipv6Addr.bits ⟨0x64, 0xff9b, 0, 0, 0, 0, 0, 0⟩, 96, by decide⟩, 0),
    (⟨Ipv6Addr.bits ⟨0x2002, 0, 0, 0, 0, 0, 0, 0⟩, 16, by decide⟩, 80)]

/-- A 32-bit address in one of the listed prefixes. -/
def InForbiddenV4 (bits : Nat) : Prop := ∃ p ∈ forbiddenPrefixesV4, p.Covers bits

/-- A 128-bit address in one of the listed prefixes, or one that embeds such a 32-bit one. -/
def InForbiddenV6 (bits : Nat) : Prop :=
  (∃ p ∈ forbiddenPrefixesV6, p.Covers bits) ∨
    ∃ p after, (p, after) ∈ embeddingPrefixes ∧ p.Covers bits ∧
      InForbiddenV4 (bits / 2 ^ after % 2 ^ 32)

def InForbidden : IpAddr → Prop
  | .v4 address => InForbiddenV4 address.bits
  | .v6 address => InForbiddenV6 address.bits

/-! ## The two agree -/

theorem Ipv4Addr.fields_lt (address : Ipv4Addr) : ∀ field ∈ address.fields, field < 2 ^ 8 := by
  intro field hfield
  obtain ⟨octet, -, rfl⟩ := List.mem_map.mp hfield
  exact octet.toNat_lt

theorem Ipv6Addr.fields_lt (address : Ipv6Addr) : ∀ field ∈ address.fields, field < 2 ^ 16 := by
  intro field hfield
  obtain ⟨segment, -, rfl⟩ := List.mem_map.mp hfield
  exact segment.toNat_lt

section Octets

variable (a b : Ipv4Addr) {length rest : Nat} (h : length ≤ 32)

/-- A prefix that ends in the first octet. -/
theorem covers_first (hlength : 32 - length = 8 * 3 + rest) (hrest : rest ≤ 8) :
    (Prefix.mk b.bits length h).Covers a.bits ↔
      a.first.toNat / 2 ^ rest = b.first.toNat / 2 ^ rest := by
  have hcovers := @covers_joined 8 rest 32 [] []
    [a.second.toNat, a.third.toNat, a.fourth.toNat] [b.second.toNat, b.third.toNat, b.fourth.toNat]
    a.first.toNat b.first.toNat ⟨b.bits, length, h⟩ rfl hlength rfl rfl
    a.fields_lt b.fields_lt hrest
  exact hcovers.trans (by simp only [true_and])

/-- A prefix that ends in the second octet. -/
theorem covers_second (hlength : 32 - length = 8 * 2 + rest) (hrest : rest ≤ 8) :
    (Prefix.mk b.bits length h).Covers a.bits ↔ a.first = b.first ∧
      a.second.toNat / 2 ^ rest = b.second.toNat / 2 ^ rest := by
  have hcovers := @covers_joined 8 rest 32 [a.first.toNat] [b.first.toNat]
    [a.third.toNat, a.fourth.toNat] [b.third.toNat, b.fourth.toNat]
    a.second.toNat b.second.toNat ⟨b.bits, length, h⟩ rfl hlength rfl rfl
    a.fields_lt b.fields_lt hrest
  exact hcovers.trans (by simp only [List.cons.injEq, and_true, UInt8.toNat_inj])

/-- A prefix that ends in the third octet. -/
theorem covers_third (hlength : 32 - length = 8 * 1 + rest) (hrest : rest ≤ 8) :
    (Prefix.mk b.bits length h).Covers a.bits ↔ (a.first = b.first ∧ a.second = b.second) ∧
      a.third.toNat / 2 ^ rest = b.third.toNat / 2 ^ rest := by
  have hcovers := @covers_joined 8 rest 32 [a.first.toNat, a.second.toNat]
    [b.first.toNat, b.second.toNat] [a.fourth.toNat] [b.fourth.toNat]
    a.third.toNat b.third.toNat ⟨b.bits, length, h⟩ rfl hlength rfl rfl
    a.fields_lt b.fields_lt hrest
  exact hcovers.trans (by simp only [List.cons.injEq, and_true, UInt8.toNat_inj])

end Octets

theorem inForbiddenV4_iff (address : Ipv4Addr) : InForbiddenV4 address.bits ↔
    address.first.toNat = 127 ∨ address.first.toNat = 10 ∨
      address.first.toNat = 172 ∧ address.second.toNat / 16 = 1 ∨
      address.first.toNat = 192 ∧ address.second.toNat = 168 ∨
      address.first.toNat = 169 ∧ address.second.toNat = 254 ∨ address.first.toNat = 0 ∨
      address.first.toNat = 100 ∧ address.second.toNat / 64 = 1 ∨
      (address.first.toNat = 192 ∧ address.second.toNat = 0) ∧ address.third.toNat = 0 ∨
      address.first.toNat = 198 ∧ address.second.toNat / 2 = 9 ∨
      address.first.toNat / 16 = 14 ∨ address.first.toNat / 16 = 15 := by
  rw [InForbiddenV4, forbiddenPrefixesV4]
  simp only [List.mem_cons, List.not_mem_nil, or_false, exists_eq_or_imp, exists_eq_left]
  rw [@covers_first address ⟨127, 0, 0, 0⟩ 8 0 _ rfl (by decide),
    @covers_first address ⟨10, 0, 0, 0⟩ 8 0 _ rfl (by decide),
    @covers_second address ⟨172, 16, 0, 0⟩ 12 4 _ rfl (by decide),
    @covers_second address ⟨192, 168, 0, 0⟩ 16 0 _ rfl (by decide),
    @covers_second address ⟨169, 254, 0, 0⟩ 16 0 _ rfl (by decide),
    @covers_first address ⟨0, 0, 0, 0⟩ 8 0 _ rfl (by decide),
    @covers_second address ⟨100, 64, 0, 0⟩ 10 6 _ rfl (by decide),
    @covers_third address ⟨192, 0, 0, 0⟩ 24 0 _ rfl (by decide),
    @covers_second address ⟨198, 18, 0, 0⟩ 15 1 _ rfl (by decide),
    @covers_first address ⟨224, 0, 0, 0⟩ 4 4 _ rfl (by decide),
    @covers_first address ⟨240, 0, 0, 0⟩ 4 4 _ rfl (by decide)]
  simp [← UInt8.toNat_inj]

theorem forbiddenV4_iff (address : Ipv4Addr) :
    forbiddenV4 address = true ↔ InForbiddenV4 address.bits := by
  rw [inForbiddenV4_iff]
  obtain ⟨a, b, c, d⟩ := address
  have ha := a.toNat_lt
  simp only [forbiddenV4, Ipv4Addr.isLoopback, Ipv4Addr.isPrivate, Ipv4Addr.isLinkLocal,
    Ipv4Addr.isUnspecified, Ipv4Addr.isBroadcast, Ipv4Addr.isMulticast, Bool.or_eq_true,
    Bool.and_eq_true, beq_iff_eq, decide_eq_true_eq, Ipv4Addr.mk.injEq, ← UInt8.toNat_inj,
    UInt8.le_iff_toNat_le, UInt8.toNat_ofNat, Nat.reducePow, Nat.reduceMod]
  generalize a.toNat = a at *
  generalize b.toNat = b
  have hprivate : a = 172 ∧ 16 ≤ b ∧ b ≤ 31 ↔ a = 172 ∧ b / 16 = 1 := by omega
  have hshared : 64 ≤ b ∧ b ≤ 127 ↔ b / 64 = 1 := by omega
  have hbench : b = 18 ∨ b = 19 ↔ b / 2 = 9 := by omega
  have hmulticast : 224 ≤ a ∧ a ≤ 239 ↔ a / 16 = 14 := by omega
  have hreserved : 240 ≤ a ↔ a / 16 = 15 := by omega
  have hbroadcast : a = 255 → a / 16 = 15 := by omega
  rw [and_assoc, hprivate, hshared, hbench, hmulticast, hreserved]
  grind

/-! ### Segments -/

section Segments

variable (a b : Ipv6Addr) {length rest : Nat} (h : length ≤ 128)

/-- A prefix that ends in the first segment. -/
theorem covers_firstSegment (hlength : 128 - length = 16 * 7 + rest) (hrest : rest ≤ 16) :
    (Prefix.mk b.bits length h).Covers a.bits ↔
      a.first.toNat / 2 ^ rest = b.first.toNat / 2 ^ rest := by
  have hcovers := @covers_joined 16 rest 128 [] [] (a.segments.tail.map UInt16.toNat)
    (b.segments.tail.map UInt16.toNat) a.first.toNat b.first.toNat ⟨b.bits, length, h⟩ rfl
    hlength rfl rfl a.fields_lt b.fields_lt hrest
  exact hcovers.trans (by simp only [true_and])

/-- A prefix of whole segments. -/
theorem covers_segments (count : Nat) (hlength : 128 - length = 16 * (8 - count)) :
    (Prefix.mk b.bits length h).Covers a.bits ↔
      a.segments.take count = b.segments.take count := by
  have ha : a.fields = (a.segments.take count).map UInt16.toNat ++
      (a.segments.drop count).map UInt16.toNat := by
    rw [← List.map_append, List.take_append_drop, Ipv6Addr.fields]
  have hb : b.fields = (b.segments.take count).map UInt16.toNat ++
      (b.segments.drop count).map UInt16.toNat := by
    rw [← List.map_append, List.take_append_drop, Ipv6Addr.fields]
  rw [Ipv6Addr.bits, Ipv6Addr.bits, ha, covers_joined_fields _ (congrArg (joined 16) hb)]
  · exact List.map_inj_right fun x y hxy => UInt16.toNat_inj.mp hxy
  · simpa [Ipv6Addr.segments] using hlength
  · simp [Ipv6Addr.segments]
  · simp [Ipv6Addr.segments]
  · exact ha ▸ a.fields_lt
  · exact hb ▸ b.fields_lt

end Segments

theorem embedded_bits (high low : UInt16) :
    (embedded high low).bits = joined 16 [high.toNat, low.toNat] := by
  have hhigh := high.toNat_lt
  have hlow := low.toNat_lt
  simp [embedded, toBeBytes, Ipv4Addr.bits, Ipv4Addr.fields, Ipv4Addr.octets, joined,
    UInt16.toNat_shiftRight, Nat.shiftRight_eq_div_pow]
  omega

/-- The last two segments. -/
theorem bits_last (address : Ipv6Addr) :
    address.bits / 2 ^ 0 % 2 ^ 32 = (embedded address.seventh address.eighth).bits := by
  have hlt := address.fields_lt
  rw [embedded_bits]
  exact @joined_mid 16 ((address.segments.take 6).map UInt16.toNat)
    [address.seventh.toNat, address.eighth.toNat] []
    (fun f hf => hlt f (List.mem_of_mem_drop (show f ∈ address.fields.drop 6 from hf)))
    (fun f hf => by cases hf)

/-- The second and the third segment. -/
theorem bits_second (address : Ipv6Addr) :
    address.bits / 2 ^ 80 % 2 ^ 32 = (embedded address.second address.third).bits := by
  have hlt := address.fields_lt
  rw [embedded_bits]
  refine @joined_mid 16 [address.first.toNat] [address.second.toNat, address.third.toNat]
    ((address.segments.drop 3).map UInt16.toNat) (fun f hf => hlt f ?_) fun f hf => hlt f ?_
  · exact List.mem_of_mem_take (show f ∈ address.fields.take 3 from List.mem_cons_of_mem _ hf)
  · exact List.mem_of_mem_drop (show f ∈ address.fields.drop 3 from hf)

theorem inForbiddenV6_iff (address : Ipv6Addr) : InForbiddenV6 address.bits ↔
    (address.segments = [0, 0, 0, 0, 0, 0, 0, 1] ∨ address.segments = [0, 0, 0, 0, 0, 0, 0, 0] ∨
      address.first.toNat / 256 = 255 ∨ address.first.toNat / 512 = 126 ∨
      address.first.toNat / 64 = 1018 ∨ address.first.toNat / 64 = 1019 ∨
      address.segments.take 3 = [0x64, 0xff9b, 1]) ∨
    (address.segments.take 6 = [0, 0, 0, 0, 0, 0xffff] ∧
        InForbiddenV4 (embedded address.seventh address.eighth).bits ∨
      address.segments.take 6 = [0, 0, 0, 0, 0, 0] ∧
        InForbiddenV4 (embedded address.seventh address.eighth).bits ∨
      address.segments.take 6 = [0x64, 0xff9b, 0, 0, 0, 0] ∧
        InForbiddenV4 (embedded address.seventh address.eighth).bits ∨
      address.segments.take 1 = [0x2002] ∧
        InForbiddenV4 (embedded address.second address.third).bits) := by
  rw [InForbiddenV6, forbiddenPrefixesV6, embeddingPrefixes]
  simp only [List.mem_cons, List.not_mem_nil, or_false, exists_eq_left, Prod.mk.injEq,
    or_and_right, exists_or, and_assoc, exists_and_left]
  rw [bits_last, bits_second,
    covers_segments address ⟨0, 0, 0, 0, 0, 0, 0, 1⟩ _ 8 rfl,
    covers_segments address ⟨0, 0, 0, 0, 0, 0, 0, 0⟩ _ 8 rfl,
    @covers_firstSegment address ⟨0xff00, 0, 0, 0, 0, 0, 0, 0⟩ 8 8 _ rfl (by decide),
    @covers_firstSegment address ⟨0xfc00, 0, 0, 0, 0, 0, 0, 0⟩ 7 9 _ rfl (by decide),
    @covers_firstSegment address ⟨0xfe80, 0, 0, 0, 0, 0, 0, 0⟩ 10 6 _ rfl (by decide),
    @covers_firstSegment address ⟨0xfec0, 0, 0, 0, 0, 0, 0, 0⟩ 10 6 _ rfl (by decide),
    covers_segments address ⟨0x64, 0xff9b, 1, 0, 0, 0, 0, 0⟩ _ 3 rfl,
    covers_segments address ⟨0, 0, 0, 0, 0, 0xffff, 0, 0⟩ _ 6 rfl,
    covers_segments address ⟨0, 0, 0, 0, 0, 0, 0, 0⟩ _ 6 rfl,
    covers_segments address ⟨0x64, 0xff9b, 0, 0, 0, 0, 0, 0⟩ _ 6 rfl,
    covers_segments address ⟨0x2002, 0, 0, 0, 0, 0, 0, 0⟩ _ 1 rfl]
  rfl

theorem mask_iff (segment : UInt16) {mask base : UInt16} {width rest lead : Nat}
    (hwidth : width + rest = 16) (hmask : mask.toNat = (2 ^ width - 1) * 2 ^ rest)
    (hbase : base.toNat = lead * 2 ^ rest) :
    (segment &&& mask == base) = true ↔ segment.toNat / 2 ^ rest = lead := by
  rw [beq_iff_eq, ← UInt16.toNat_inj, UInt16.toNat_and, hmask, hbase]
  exact land_mask_eq (hwidth ▸ segment.toNat_lt)

theorem forbiddenV6_iff (address : Ipv6Addr) :
    forbiddenV6 address = true ↔ InForbiddenV6 address.bits := by
  have hmulticast : (address.first &&& 0xff00 == 0xff00) = true ↔ address.first.toNat / 256 = 255 :=
    @mask_iff address.first 0xff00 0xff00 8 8 255 rfl rfl rfl
  have hlocal : (address.first &&& 0xfe00 == 0xfc00) = true ↔ address.first.toNat / 512 = 126 :=
    @mask_iff address.first 0xfe00 0xfc00 7 9 126 rfl rfl rfl
  have hlink : (address.first &&& 0xffc0 == 0xfe80) = true ↔ address.first.toNat / 64 = 1018 :=
    @mask_iff address.first 0xffc0 0xfe80 10 6 1018 rfl rfl rfl
  have hsite : (address.first &&& 0xffc0 == 0xfec0) = true ↔ address.first.toNat / 64 = 1019 :=
    @mask_iff address.first 0xffc0 0xfec0 10 6 1019 rfl rfl rfl
  rw [inForbiddenV6_iff, ← hmulticast, ← hlocal, ← hlink, ← hsite, ← forbiddenV4_iff,
    ← forbiddenV4_iff]
  obtain ⟨a, b, c, d, e, f, g, h⟩ := address
  simp only [forbiddenV6, Ipv6Addr.isLoopback, Ipv6Addr.isUnspecified, Ipv6Addr.isMulticast,
    Ipv6Addr.segments, List.take_succ_cons, List.take_zero, List.drop_succ_cons, List.drop_zero,
    beq_iff_eq, List.cons.injEq, and_true, Ipv6Addr.mk.injEq, Bool.or_eq_true, Bool.and_eq_true]
  generalize forbiddenV4 (embedded g h) = last
  generalize forbiddenV4 (embedded b c) = second
  clear hmulticast hlocal hlink hsite
  -- The embeddings start with different segments, none of them in the masked prefixes.
  by_cases hzero : a = 0
  · subst hzero
    simp [and_or_left, or_and_right, and_assoc]
  · by_cases hnat : a = 0x64
    · subst hnat
      have hunmasked : (0x64 : UInt16) &&& 0xff00 = 0 ∧ (0x64 : UInt16) &&& 0xfe00 = 0 ∧
          (0x64 : UInt16) &&& 0xffc0 = 0x40 := by decide
      by_cases hzeros : b = 0xff9b ∧ c = 0 ∧ d = 0 ∧ e = 0 ∧ f = 0
      · simp [hunmasked, hzeros]
      · simp [hunmasked, hzeros]
    · simp [hzero, hnat, or_assoc]

/-- The address test refuses the listed prefixes, and embedded addresses in them, and no
other address. -/
theorem egress_refusal_iff (address : IpAddr) :
    isForbiddenEgressAddress address = true ↔ InForbidden address := by
  cases address with
  | v4 address => exact forbiddenV4_iff address
  | v6 address => exact forbiddenV6_iff address

/-- The metadata address, and as 6to4. -/
example : isForbiddenEgressAddress (.v6 ⟨0x2002, 0xa9fe, 0xa9fe, 0, 0, 0, 0, 1⟩) = true := by decide

end TokenStation.Media
