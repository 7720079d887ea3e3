import TokenStation.Eventstream.Encoding

/-!
# Damage the checksum shows

The table agrees with the bitwise checksum, and bytes damaged inside four consecutive ones
have another checksum. A frame damaged so before its trailer is refused.
-/

namespace TokenStation.Eventstream

open Library Library.BigEndian

/-- Bytes that agree before and after a window of four. -/
def AgreeOutside (start : Nat) (a b : List UInt8) : Prop :=
  ∀ i, i < start ∨ start + 4 ≤ i → a[i]? = b[i]?

/-- Texts that agree outside a window have the same start and the same end. -/
theorem AgreeOutside.split {start : Nat} {a b : List UInt8} (h : AgreeOutside start a b) :
    a.take start = b.take start ∧ a.drop (start + 4) = b.drop (start + 4) := by
  constructor
  · apply List.ext_getElem?
    intro i
    by_cases hi : i < start
    · rw [List.getElem?_take_of_lt hi, List.getElem?_take_of_lt hi, h i (.inl hi)]
    · rw [List.getElem?_take_eq_none (by omega), List.getElem?_take_eq_none (by omega)]
  · apply List.ext_getElem?
    intro i
    rw [List.getElem?_drop, List.getElem?_drop, h _ (.inr (Nat.le_add_right _ _))]

theorem window_split (start : Nat) (a : List UInt8) :
    a = a.take start ++ (a.drop start).take 4 ++ a.drop (start + 4) := by
  rw [List.append_assoc, ← List.drop_drop, List.take_append_drop, List.take_append_drop]

/-- The window holds all the damage. -/
theorem crc32_ne_of_burst {start : Nat} {a b : List UInt8} (hlength : a.length = b.length)
    (h : AgreeOutside start a b) (hne : a ≠ b) : crc32 a ≠ crc32 b := by
  obtain ⟨hfront, hback⟩ := h.split
  have hwindow : (a.drop start).take 4 ≠ (b.drop start).take 4 := by
    intro hsame
    apply hne
    rw [window_split start a, window_split start b, hfront, hback, hsame]
  have hburst : Crc32.checksum crc32Polynomial
      (a.take start ++ (a.drop start).take 4 ++ a.drop (start + 4)) ≠ Crc32.checksum crc32Polynomial
      (a.take start ++ (b.drop start).take 4 ++ a.drop (start + 4)) :=
    Crc32.checksum_ne_of_burst (by decide) (by simp [hlength]) (by simp) hwindow
  rw [← window_split] at hburst
  rw [hfront, hback, ← window_split] at hburst
  rwa [crc32, crc32, Crc32.tableChecksum_eq, Crc32.tableChecksum_eq]

/-- The checksum by table is the bitwise one, and shows any damage inside four bytes. -/
theorem crc32_bitwise_and_shows_bursts :
    (∀ bytes, crc32 bytes = Crc32.checksum 0xEDB88320#32 bytes) ∧
    ∀ (a b : List UInt8) (start : Nat), a.length = b.length → AgreeOutside start a b → a ≠ b →
      crc32 a ≠ crc32 b :=
  ⟨fun bytes => Crc32.tableChecksum_eq crc32Polynomial bytes,
    fun _ _ _ hlength h hne => crc32_ne_of_burst hlength h hne⟩

/-- Four bytes of a text of six replaced. -/
theorem four_bytes_shown : crc32 [1, 2, 3, 4, 5, 6] ≠ crc32 [1, 9, 9, 9, 9, 6] := by
  refine crc32_bitwise_and_shows_bursts.2 _ _ 1 rfl ?_ (by decide)
  intro i hi
  rcases hi with hi | hi
  · obtain rfl : i = 0 := by omega
    rfl
  · rcases Nat.lt_or_ge i 6 with hlt | hge
    · obtain rfl : i = 5 := by omega
      rfl
    · rw [List.getElem?_eq_none (by simpa using hge), List.getElem?_eq_none (by simpa using hge)]

/-- The covered bytes and the trailer are where the frame is cut. -/
theorem cut_covered (covered : List UInt8) {trailer : List UInt8}
    (htrailer : trailer.length = crcBytes) :
    ¬(covered ++ trailer).length < crcBytes ∧
    (covered ++ trailer).take ((covered ++ trailer).length - crcBytes) = covered ∧
    (covered ++ trailer).drop ((covered ++ trailer).length - crcBytes) = trailer := by
  rw [List.length_append, htrailer, Nat.add_sub_cancel]
  exact ⟨Nat.not_lt.mpr (Nat.le_add_left _ _), List.take_left, List.drop_left⟩

theorem crc32_of_checked {covered trailer : List UInt8} {headersLen : Nat}
    {message : EventStreamMessageV1} (htrailer : trailer.length = crcBytes)
    (h : decodeChecked (covered ++ trailer) headersLen = .ok message) :
    crc32 covered = .ofNat 32 (ofBytes trailer) := by
  obtain ⟨hlong, hcovered, hrest⟩ := cut_covered covered htrailer
  rw [decodeChecked, if_neg hlong, hcovered, hrest] at h
  by_contra hmismatch
  rw [if_pos hmismatch] at h
  cases h

/-- A frame damaged inside four bytes before its trailer is refused for its checksum. -/
theorem decodeChecked_damaged {covered damaged trailer : List UInt8} {headersLen start : Nat}
    {message : EventStreamMessageV1} (htrailer : trailer.length = crcBytes)
    (h : decodeChecked (covered ++ trailer) headersLen = .ok message)
    (hlength : covered.length = damaged.length) (hagree : AgreeOutside start covered damaged)
    (hne : covered ≠ damaged) :
    decodeChecked (damaged ++ trailer) headersLen = .error .messageChecksumMismatch := by
  have hmismatch : crc32 damaged ≠ .ofNat 32 (ofBytes trailer) := by
    rw [← crc32_of_checked htrailer h]
    exact (crc32_ne_of_burst hlength hagree hne).symm
  obtain ⟨hlong, hdamaged, hrest⟩ := cut_covered damaged htrailer
  rw [decodeChecked, if_neg hlong, hdamaged, hrest, if_pos hmismatch]

end TokenStation.Eventstream
