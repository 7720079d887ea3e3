import TokenStation.Library.Json
import TokenStation.Library.Text

/-!
# JSON texts

Writing a value without whitespace, and reading a text back. Strings are
written with the shortest escapes. How a double is printed is left open, and a
number with a fraction or an exponent is not read: a written value without
doubles reads back as itself.
-/

namespace TokenStation.Library.Json

/-! ## Strings -/

/-- The escape letters of the control characters that have one. -/
def shortEscapes : List (Char × Char) :=
  [('"', '"'), ('\\', '\\'), ('\x08', 'b'), ('\t', 't'), ('\n', 'n'), ('\x0c', 'f'), ('\r', 'r')]

/-- A character as it stands between quotes. -/
def escape (c : Char) : List Char :=
  match lookup c shortEscapes with
  | some e => ['\\', e]
  | none =>
      if c < ' ' then
        ['\\', 'u', '0', '0', Nat.digitChar (c.toNat / 16), Nat.digitChar (c.toNat % 16)]
      else [c]

def writeString (s : String) : List Char := '"' :: (s.toList.flatMap escape ++ ['"'])

/-- The value of a hexadecimal digit. -/
def hexValue (c : Char) : Option Nat :=
  if c.isDigit then some (c.toNat - 48)
  else if 'a' ≤ c ∧ c ≤ 'f' then some (c.toNat - 87)
  else if 'A' ≤ c ∧ c ≤ 'F' then some (c.toNat - 55)
  else none

/-- The character with a four-digit escape; surrogates are not characters. -/
def hexChar (a b c d : Char) : Option Char := do
  let n := ((← hexValue a) * 16 + (← hexValue b)) * 256 + (← hexValue c) * 16 + (← hexValue d)
  if n.isValidChar then some (Char.ofNat n) else none

/-- The character an escape letter stands for. -/
def unescape (e : Char) : Option Char :=
  lookup e (('/', '/') :: shortEscapes.map Prod.swap)

/-- The characters up to the closing quote and the text after it. -/
def readString : List Char → Option (List Char × List Char)
  | [] => none
  | c :: rest =>
      if c = '"' then some ([], rest)
      else if c = '\\' then
        match rest with
        | 'u' :: a :: b :: c :: d :: rest => do
            let ch ← hexChar a b c d
            (readString rest).map fun p => (ch :: p.1, p.2)
        | e :: rest => do
            let ch ← unescape e
            (readString rest).map fun p => (ch :: p.1, p.2)
        | [] => none
      else if c < ' ' then none
      else (readString rest).map fun p => (c :: p.1, p.2)

theorem digitChar_hex : ∀ n < 16, hexValue (Nat.digitChar n) = some n := by decide

theorem ofNat_small : ∀ n < 32, n.isValidChar := by decide

theorem hexChar_control {c : Char} (h : c < ' ') :
    hexChar '0' '0' (Nat.digitChar (c.toNat / 16)) (Nat.digitChar (c.toNat % 16)) = some c := by
  have hlt : c.toNat < 32 := h
  have hzero : hexValue '0' = some 0 := rfl
  simp only [hexChar, hzero, digitChar_hex _ (show c.toNat / 16 < 16 by omega),
    digitChar_hex _ (show c.toNat % 16 < 16 by omega), Option.bind_eq_bind, Option.bind_some]
  have heq : (0 * 16 + 0) * 256 + c.toNat / 16 * 16 + c.toNat % 16 = c.toNat := by omega
  rw [heq, if_pos (ofNat_small _ hlt), Char.ofNat_toNat]

theorem unescape_shortEscapes : ∀ p ∈ shortEscapes, unescape p.2 = some p.1 ∧ p.2 ≠ 'u' := by
  decide

theorem readString_escape (c : Char) (rest : List Char) :
    readString (escape c ++ rest) = (readString rest).map fun p => (c :: p.1, p.2) := by
  unfold escape
  split
  · rename_i e he
    obtain ⟨hback, hu⟩ := unescape_shortEscapes _ (mem_of_lookup he)
    simp only [List.cons_append, List.nil_append]
    rw [readString, if_neg (by decide), if_pos rfl]
    · simp [hback]
    · exact fun _ _ _ _ _ h _ => hu h
  · rename_i hnone
    have hplain : c ≠ '"' ∧ c ≠ '\\' := by
      constructor <;> rintro rfl <;> exact absurd hnone (by decide)
    split
    · rename_i hlt
      simp only [List.cons_append, List.nil_append]
      rw [readString, if_neg (by decide), if_pos rfl]
      simp [hexChar_control hlt]
    · rename_i hle
      simp only [List.cons_append, List.nil_append]
      rw [readString.eq_def]
      simp [hplain.1, hplain.2, hle]

theorem readString_write (cs rest : List Char) :
    readString (cs.flatMap escape ++ '"' :: rest) = some (cs, rest) := by
  induction cs with
  | nil =>
      rw [List.flatMap_nil, List.nil_append, readString.eq_def]
      rfl
  | cons c cs ih =>
      rw [List.flatMap_cons, List.append_assoc, readString_escape, ih]
      rfl

/-- A written string holds no control character. -/
theorem writeString_printable (s : String) : ∀ c ∈ writeString s, ' ' ≤ c := by
  have hescape : ∀ c : Char, ∀ d ∈ escape c, ' ' ≤ d := by
    intro c d hd
    unfold escape at hd
    split at hd
    · rename_i e he
      have hprint : ∀ p ∈ shortEscapes, ' ' ≤ p.2 := by decide
      rcases List.mem_cons.mp hd with rfl | hd
      · decide
      · rw [List.mem_singleton.mp hd]
        exact hprint _ (mem_of_lookup he)
    · split at hd
      · rename_i hlt
        have hlt : c.toNat < 32 := hlt
        have hdigit : ∀ n < 16, ' ' ≤ Nat.digitChar n := by decide
        simp only [List.mem_cons, List.not_mem_nil, or_false] at hd
        rcases hd with rfl | rfl | rfl | rfl | rfl | rfl
        · decide
        · decide
        · decide
        · decide
        · exact hdigit _ (by omega)
        · exact hdigit _ (by omega)
      · rename_i hle
        rw [List.mem_singleton.mp hd]
        exact Char.not_lt.mp hle
  intro c hc
  simp only [writeString, List.mem_cons, List.mem_append, List.mem_flatMap, List.not_mem_nil,
    or_false] at hc
  rcases hc with rfl | ⟨d, -, hd⟩ | rfl
  · decide
  · exact hescape d c hd
  · decide

/-- An escape takes at most six bytes for each byte of its character. -/
theorem escape_size (c : Char) :
    (Text.bytes (String.ofList (escape c))).length ≤ 6 * c.utf8Size := by
  have hpos : 0 < c.utf8Size := Char.utf8Size_pos c
  have hascii : ∀ n < 16, (Nat.digitChar n).utf8Size = 1 := by decide
  rw [Text.bytes_ofList, List.length_flatMap]
  unfold escape
  split
  · rename_i e he
    have hshort : ∀ p ∈ shortEscapes, p.2.utf8Size = 1 := by decide
    have hslash : '\\'.utf8Size = 1 := by decide
    simp [hshort _ (mem_of_lookup he), hslash]
    omega
  · split
    · rename_i hlt
      have hlt : c.toNat < 32 := hlt
      have hwords : '\\'.utf8Size = 1 ∧ 'u'.utf8Size = 1 ∧ '0'.utf8Size = 1 := by decide
      simp [hwords, hascii _ (show c.toNat / 16 < 16 by omega),
        hascii _ (show c.toNat % 16 < 16 by omega)]
      omega
    · simp
      omega

/-- A written string takes at most six bytes for each byte and its quotes. -/
theorem writeString_size (s : String) :
    (String.ofList (writeString s)).utf8ByteSize ≤ 6 * s.utf8ByteSize + 2 := by
  have hbody : ∀ cs : List Char, (Text.bytes (String.ofList (cs.flatMap escape))).length ≤
      6 * (Text.bytes (String.ofList cs)).length := by
    intro cs
    induction cs with
    | nil => simp
    | cons c cs ih =>
        have hc := escape_size c
        simp only [Text.bytes_ofList, List.flatMap_cons, List.flatMap_append, List.length_append,
          String.length_utf8EncodeChar] at ih hc ⊢
        omega
  have hs := hbody s.toList
  have hquote : '"'.utf8Size = 1 := by decide
  rw [String.ofList_toList] at hs
  rw [← Text.length_bytes, ← Text.length_bytes, writeString]
  simp only [Text.bytes_ofList, List.flatMap_cons, List.flatMap_append, List.flatMap_nil,
    List.length_append, List.length_nil, String.length_utf8EncodeChar, hquote] at hs ⊢
  omega

/-! ## Sizes -/

/-- The bytes of a list of characters. -/
def textSize (cs : List Char) : Nat := (cs.map Char.utf8Size).sum

/-- The bytes of a character between quotes. -/
def charSize (c : Char) : Nat :=
  if (lookup c shortEscapes).isSome then 2 else if c < ' ' then 6 else c.utf8Size

/-- The bytes of a written string, quotes included. -/
def stringSize (s : String) : Nat := (s.toList.map charSize).sum + 2

theorem textSize_append (cs ds : List Char) : textSize (cs ++ ds) = textSize cs + textSize ds := by
  simp [textSize]

theorem textSize_cons (c : Char) (cs : List Char) :
    textSize (c :: cs) = c.utf8Size + textSize cs := by
  simp [textSize]

theorem textSize_nil : textSize [] = 0 := rfl

/-- One byte for each character, where every character takes one. -/
theorem textSize_eq_length {cs : List Char} (h : ∀ c ∈ cs, c.utf8Size = 1) :
    textSize cs = cs.length := by
  induction cs with
  | nil => rfl
  | cons c cs ih =>
      rw [textSize_cons, h c List.mem_cons_self, List.length_cons,
        ih fun d hd => h d (List.mem_cons_of_mem _ hd)]
      omega

theorem utf8ByteSize_ofList (cs : List Char) :
    (String.ofList cs).utf8ByteSize = textSize cs := by
  rw [← Text.length_bytes, Text.bytes_ofList]
  induction cs with
  | nil => rfl
  | cons c cs ih => simp [textSize_cons, ih]

theorem textSize_escape (c : Char) : textSize (escape c) = charSize c := by
  have hascii : ∀ n < 16, (Nat.digitChar n).utf8Size = 1 := by decide
  have hslash : '\\'.utf8Size = 1 := by decide
  unfold escape charSize
  split
  · rename_i e he
    have hshort : ∀ p ∈ shortEscapes, p.2.utf8Size = 1 := by decide
    rw [if_pos (by simp [he])]
    simp [textSize, hshort _ (mem_of_lookup he), hslash]
  · rename_i hnone
    rw [if_neg (show ¬(lookup c shortEscapes).isSome = true by simp [hnone])]
    split
    · rename_i hlt
      have hlt : c.toNat < 32 := hlt
      have hwords : 'u'.utf8Size = 1 ∧ '0'.utf8Size = 1 := by decide
      simp [textSize, hslash, hwords, hascii _ (show c.toNat / 16 < 16 by omega),
        hascii _ (show c.toNat % 16 < 16 by omega)]
    · simp [textSize]

theorem textSize_writeString (s : String) : textSize (writeString s) = stringSize s := by
  have hbody : ∀ cs : List Char, textSize (cs.flatMap escape) = (cs.map charSize).sum := by
    intro cs
    induction cs with
    | nil => rfl
    | cons c cs ih => simp [textSize_append, textSize_escape, ih]
  have hquote : '"'.utf8Size = 1 := by decide
  rw [writeString, textSize_cons, textSize_append, hbody, textSize_cons, textSize_nil, hquote,
    stringSize]
  omega

/-! ## Values -/

section

variable (double : UInt64 → List Char)

def writeNumber : Number → List Char
  | .posInt n => Nat.toDigits 10 n
  | .negInt n => '-' :: Nat.toDigits 10 n.natAbs
  | .float bits => double bits

mutual

/-- The text of a value. -/
def write : Value → List Char
  | .null => ['n', 'u', 'l', 'l']
  | .bool true => ['t', 'r', 'u', 'e']
  | .bool false => ['f', 'a', 'l', 's', 'e']
  | .number n => writeNumber double n
  | .string s => writeString s
  | .array [] => ['[', ']']
  | .array (v :: items) => '[' :: (write v ++ writeItems items)
  | .object [] => ['\x7b', '\x7d']
  | .object ((key, v) :: entries) =>
      '\x7b' :: (writeString key ++ ':' :: (write v ++ writeEntries entries))

/-- The items after the first one and the closing bracket. -/
def writeItems : List Value → List Char
  | [] => [']']
  | v :: items => ',' :: (write v ++ writeItems items)

/-- The entries after the first one and the closing brace. -/
def writeEntries : List (String × Value) → List Char
  | [] => ['\x7d']
  | (key, v) :: entries =>
      ',' :: (writeString key ++ ':' :: (write v ++ writeEntries entries))

end

end

def isSpace (c : Char) : Bool := c == ' ' || c == '\t' || c == '\n' || c == '\r'

def skip (cs : List Char) : List Char := cs.dropWhile isSpace

/-- A natural number without leading zeros, not followed by a fraction or an
exponent. -/
def readNat (cs : List Char) : Option (Nat × List Char) :=
  let digits := cs.takeWhile Char.isDigit
  let rest := cs.dropWhile Char.isDigit
  let n := Nat.ofDigitChars 10 digits 0
  let whole := rest.head?.all fun c => c != '.' && c != 'e' && c != 'E'
  if digits = Nat.toDigits 10 n ∧ whole then some (n, rest) else none

def readNumber : List Char → Option (Value × List Char)
  | '-' :: rest => do
      let (n, rest) ← readNat rest
      if 0 < n ∧ n ≤ 2 ^ 63 then some (.number (.negInt (-n)), rest) else none
  | cs => do
      let (n, rest) ← readNat cs
      if n < 2 ^ 64 then some (.number (.posInt n), rest) else none

/-- A quoted key and the colon after it. -/
def readKey (cs : List Char) : Option (String × List Char) :=
  match skip cs with
  | '"' :: rest => do
      let (key, rest) ← readString rest
      match skip rest with
      | ':' :: rest => some (String.ofList key, rest)
      | _ => none
  | _ => none

/-- Store entries in the order of the text; a repeated key keeps its last
value. -/
def ofEntries (entries : List (String × Value)) : List (String × Value) :=
  entries.foldl (fun m e => insertEntry e.1 e.2 m) []

mutual

/-- The value at the start of a text and the text after it. -/
def read : Nat → List Char → Option (Value × List Char)
  | 0, _ => none
  | fuel + 1, cs =>
      match skip cs with
      | 'n' :: 'u' :: 'l' :: 'l' :: rest => some (.null, rest)
      | 't' :: 'r' :: 'u' :: 'e' :: rest => some (.bool true, rest)
      | 'f' :: 'a' :: 'l' :: 's' :: 'e' :: rest => some (.bool false, rest)
      | '"' :: rest => (readString rest).map fun p => (.string (String.ofList p.1), p.2)
      | '[' :: rest =>
          if (skip rest).head? = some ']' then some (.array [], (skip rest).tail)
          else do
            let (v, rest) ← read fuel rest
            let (items, rest) ← readItems fuel rest
            some (.array (v :: items), rest)
      | '\x7b' :: rest =>
          if (skip rest).head? = some '\x7d' then some (.object [], (skip rest).tail)
          else do
            let (key, rest) ← readKey rest
            let (v, rest) ← read fuel rest
            let (entries, rest) ← readEntries fuel rest
            some (.object (ofEntries ((key, v) :: entries)), rest)
      | cs => readNumber cs

/-- The items after the first one, up to the closing bracket. -/
def readItems : Nat → List Char → Option (List Value × List Char)
  | 0, _ => none
  | fuel + 1, cs =>
      match skip cs with
      | ']' :: rest => some ([], rest)
      | ',' :: rest => do
          let (v, rest) ← read fuel rest
          let (items, rest) ← readItems fuel rest
          some (v :: items, rest)
      | _ => none

/-- The entries after the first one, up to the closing brace. -/
def readEntries : Nat → List Char → Option (List (String × Value) × List Char)
  | 0, _ => none
  | fuel + 1, cs =>
      match skip cs with
      | '\x7d' :: rest => some ([], rest)
      | ',' :: rest => do
          let (key, rest) ← readKey rest
          let (v, rest) ← read fuel rest
          let (entries, rest) ← readEntries fuel rest
          some ((key, v) :: entries, rest)
      | _ => none

end

/-- The value of a whole text. -/
def parse (text : String) : Option Value := do
  let (v, rest) ← read (text.toList.length + 1) text.toList
  if skip rest = [] then some v else none

section

variable (double : UInt64 → List Char)

/-- The brackets, commas and colons take one byte each. -/
theorem utf8Size_punctuation : '['.utf8Size = 1 ∧ ']'.utf8Size = 1 ∧ '\x7b'.utf8Size = 1 ∧
    '\x7d'.utf8Size = 1 ∧ ','.utf8Size = 1 ∧ ':'.utf8Size = 1 := by
  decide

theorem textSize_object (key : String) (v : Value) (entries : List (String × Value)) :
    textSize (write double (.object ((key, v) :: entries))) =
      stringSize key + textSize (write double v) + textSize (writeEntries double entries) + 2 := by
  obtain ⟨-, -, hopen, -, -, hcolon⟩ := utf8Size_punctuation
  rw [write, textSize_cons, textSize_append, textSize_cons, textSize_append, textSize_writeString,
    hopen, hcolon]
  omega

theorem textSize_writeEntries_nil : textSize (writeEntries double []) = 1 := by
  obtain ⟨-, -, -, hclose, -, -⟩ := utf8Size_punctuation
  rw [writeEntries, textSize_cons, textSize_nil, hclose]

theorem textSize_writeEntries_cons (key : String) (v : Value) (entries : List (String × Value)) :
    textSize (writeEntries double ((key, v) :: entries)) =
      stringSize key + textSize (write double v) + textSize (writeEntries double entries) + 2 := by
  obtain ⟨-, -, -, -, hcomma, hcolon⟩ := utf8Size_punctuation
  rw [writeEntries, textSize_cons, textSize_append, textSize_cons, textSize_append,
    textSize_writeString, hcomma, hcolon]
  omega

theorem textSize_string (s : String) : textSize (write double (.string s)) = stringSize s := by
  rw [write, textSize_writeString]

theorem textSize_nat (n : Nat) :
    textSize (write double (.nat n)) = (Nat.toDigits 10 n).length := by
  have hdigits : ∀ c ∈ Nat.toDigits 10 n, c.utf8Size = 1 := by
    intro c hc
    have hdigit := Nat.isDigit_of_mem_toDigits (by decide) (by decide) hc
    simp only [Char.isDigit, Bool.and_eq_true, decide_eq_true_eq] at hdigit
    exact Char.utf8Size_eq_one_iff.mpr (UInt32.le_trans hdigit.2 (by decide))
  rw [Value.nat, write, writeNumber]
  exact textSize_eq_length hdigits

/-- An array takes its brackets, its items and the commas between them. -/
theorem textSize_array (items : List Value) :
    textSize (write double (.array items)) =
      2 + (items.map fun v => textSize (write double v)).sum + (items.length - 1) := by
  obtain ⟨hopen, hclose, -, -, hcomma, -⟩ := utf8Size_punctuation
  have hitems : ∀ items : List Value, textSize (writeItems double items) =
      1 + (items.map fun v => textSize (write double v)).sum + items.length := by
    intro items
    induction items with
    | nil => rw [writeItems, textSize_cons, textSize_nil, hclose]; rfl
    | cons v items ih =>
        rw [writeItems, textSize_cons, textSize_append, ih, hcomma, List.map_cons, List.sum_cons,
          List.length_cons]
        omega
  cases items with
  | nil => rw [write, textSize_cons, textSize_cons, textSize_nil, hopen, hclose]; rfl
  | cons v items =>
      rw [write, textSize_cons, textSize_append, hitems, hopen, List.map_cons, List.sum_cons,
        List.length_cons]
      omega

end

/-- A field of an object is written inside it. -/
theorem textSize_get {v w : Value} {key : String} (h : v.get key = some w) :
    textSize (write double w) ≤ textSize (write double v) := by
  have hentries : ∀ entries : List (String × Value), lookup key entries = some w →
      textSize (write double w) ≤ textSize (writeEntries double entries) := by
    intro entries hlookup
    induction entries with
    | nil => cases hlookup
    | cons entry entries ih =>
        obtain ⟨k, v⟩ := entry
        rw [textSize_writeEntries_cons]
        rw [lookup] at hlookup
        split at hlookup
        · cases hlookup
          omega
        · have := ih hlookup
          omega
  unfold Value.get at h
  split at h
  · rename_i entries
    cases entries with
    | nil => cases h
    | cons entry entries =>
        obtain ⟨k, v⟩ := entry
        have hall := hentries _ h
        rw [textSize_writeEntries_cons] at hall
        rw [textSize_object]
        omega
  · cases h

/-- An item of an array is written inside it. -/
theorem textSize_item {items : List Value} {w : Value} (h : w ∈ items) :
    textSize (write double w) ≤ textSize (write double (.array items)) := by
  have hsum := List.single_le_sum (l := items.map fun v => textSize (write double v)) (by simp) _
    (List.mem_map_of_mem h)
  rw [textSize_array]
  omega

/-- A letter is written as itself. -/
theorem stringSize_replicate (n : Nat) : stringSize (String.ofList (List.replicate n 'a')) = n + 2 := by
  have hletter : charSize 'a' = 1 := by decide
  rw [stringSize, String.toList_ofList, List.map_replicate, hletter, List.sum_replicate]
  simp

mutual

/-- Values without doubles, with integers of 64 bits and entries in key
order. -/
def Exact : Value → Prop
  | .null | .bool _ | .string _ => True
  | .number (.posInt n) => n < 2 ^ 64
  | .number (.negInt n) => -(2 ^ 63) ≤ n ∧ n < 0
  | .number (.float _) => False
  | .array items => ExactItems items
  | .object entries => Ordered entries ∧ ExactEntries entries

def ExactItems : List Value → Prop
  | [] => True
  | v :: items => Exact v ∧ ExactItems items

def ExactEntries : List (String × Value) → Prop
  | [] => True
  | (_, v) :: entries => Exact v ∧ ExactEntries entries

end

mutual

/-- How deeply arrays and objects are nested. -/
def depth : Value → Nat
  | .array items => depthItems items + 1
  | .object entries => depthEntries entries + 1
  | _ => 0

def depthItems : List Value → Nat
  | [] => 0
  | v :: items => max (depth v) (depthItems items)

def depthEntries : List (String × Value) → Nat
  | [] => 0
  | (_, v) :: entries => max (depth v) (depthEntries entries)

end

/-! ## Reading what was written -/

/-- What may follow a value inside a larger text. -/
def Follows (rest : List Char) : Prop := ∀ c ∈ rest.head?, c ∈ [',', ']', '\x7d']

theorem Follows.cons {c : Char} (h : c ∈ [',', ']', '\x7d']) (rest : List Char) :
    Follows (c :: rest) := by
  intro d hd
  cases hd
  exact h

theorem skip_cons {c : Char} (h : isSpace c = false) (rest : List Char) :
    skip (c :: rest) = c :: rest := by
  rw [skip, List.dropWhile_cons, h]
  rfl

theorem readNat_toDigits (n : Nat) {rest : List Char} (hrest : Follows rest) :
    readNat (Nat.toDigits 10 n ++ rest) = some (n, rest) := by
  have hdigits : ∀ c ∈ Nat.toDigits 10 n, c.isDigit = true := fun c hc =>
    Nat.isDigit_of_mem_toDigits (by decide) (by decide) hc
  have hstop : rest.takeWhile Char.isDigit = [] ∧ rest.dropWhile Char.isDigit = rest := by
    cases rest with
    | nil => exact ⟨rfl, rfl⟩
    | cons c rest =>
        have hc : ∀ d ∈ [',', ']', '\x7d'], d.isDigit = false := by simp
        simp [hc c (hrest c rfl)]
  have hplain : rest.head?.all (fun c => c != '.' && c != 'e' && c != 'E') = true := by
    cases rest with
    | nil => rfl
    | cons c rest =>
        have hsep : ∀ d ∈ [',', ']', '\x7d'], (d != '.' && d != 'e' && d != 'E') = true := by simp
        exact hsep c (hrest c rfl)
  rw [readNat, List.takeWhile_append_of_pos hdigits, List.dropWhile_append_of_pos hdigits,
    hstop.1, hstop.2, List.append_nil, Nat.ofDigitChars_ten_toDigits]
  exact if_pos ⟨rfl, hplain⟩

theorem read_number {c : Char} (h : c.isDigit = true ∨ c = '-') (fuel : Nat) (rest : List Char) :
    read (fuel + 1) (c :: rest) = readNumber (c :: rest) := by
  have hspace : isSpace c = false := by
    rcases h with h | rfl
    · unfold isSpace
      simp only [Bool.or_eq_false_iff, beq_eq_false_iff_ne]
      refine ⟨⟨⟨?_, ?_⟩, ?_⟩, ?_⟩ <;> rintro rfl <;> exact absurd h (by decide)
    · rfl
  have hne : ∀ d ∈ ['n', 't', 'f', '"', '[', '\x7b'], c ≠ d := by
    have hletters : ∀ d ∈ ['n', 't', 'f', '"', '[', '\x7b'], d.isDigit = false ∧ d ≠ '-' := by
      simp
    rintro d hd rfl
    rcases h with h | h
    · simp [(hletters c hd).1] at h
    · exact (hletters c hd).2 h
  rw [read, skip_cons hspace]
  split <;> first | rfl | (rename_i heq; exact absurd (List.cons.inj heq).1 (hne _ (by simp)))

theorem writeString_append (s : String) (rest : List Char) :
    writeString s ++ rest = '"' :: (s.toList.flatMap escape ++ '"' :: rest) := by
  simp [writeString]

theorem readKey_write (key : String) (rest : List Char) :
    readKey (writeString key ++ ':' :: rest) = some (key, rest) := by
  rw [writeString_append, readKey, skip_cons (by decide)]
  simp [readString_write, skip_cons (show isSpace ':' = false by decide)]

variable (double : UInt64 → List Char)

theorem ofEntries_ordered {entries : List (String × Value)} (h : Ordered entries) :
    ofEntries entries = entries := by
  have hstored : Ordered ([] ++ entries) := h
  rw [ofEntries, foldl_insertEntry hstored, List.nil_append]

theorem toDigits_head (n : Nat) :
    ∃ c rest, Nat.toDigits 10 n = c :: rest ∧ c.isDigit = true := by
  cases h : Nat.toDigits 10 n with
  | nil => exact absurd h Nat.toDigits_ne_nil
  | cons c rest =>
      refine ⟨c, rest, rfl, ?_⟩
      apply Nat.isDigit_of_mem_toDigits (b := 10) (n := n) (by decide) (by decide)
      simp [h]

theorem isSpace_digit {c : Char} (h : c.isDigit = true) : isSpace c = false ∧ c ≠ ']' := by
  have hspaces : ∀ d ∈ [' ', '\t', '\n', '\r', ']'], d.isDigit = false := by simp
  have hne : ∀ d ∈ [' ', '\t', '\n', '\r', ']'], c ≠ d := by
    rintro d hd rfl
    simp [hspaces c hd] at h
  refine ⟨?_, hne _ (by simp)⟩
  simp [isSpace, hne]

/-- A written value starts neither with a space nor with a closing bracket. -/
theorem write_head {v : Value} (h : Exact v) :
    ∃ c rest, write double v = c :: rest ∧ isSpace c = false ∧ c ≠ ']' := by
  match v with
  | .null => exact ⟨'n', _, by rw [write], by decide, by decide⟩
  | .bool true => exact ⟨'t', _, by rw [write], by decide, by decide⟩
  | .bool false => exact ⟨'f', _, by rw [write], by decide, by decide⟩
  | .string s => exact ⟨'"', _, by rw [write, writeString], by decide, by decide⟩
  | .array [] => exact ⟨'[', _, by rw [write], by decide, by decide⟩
  | .array (_ :: _) => exact ⟨'[', _, by rw [write], by decide, by decide⟩
  | .object [] => exact ⟨'\x7b', _, by rw [write], by decide, by decide⟩
  | .object ((_, _) :: _) => exact ⟨'\x7b', _, by rw [write], by decide, by decide⟩
  | .number (.posInt n) =>
      obtain ⟨c, rest, hdigits, hc⟩ := toDigits_head n
      exact ⟨c, rest, by rw [write, writeNumber, hdigits], isSpace_digit hc⟩
  | .number (.negInt n) => exact ⟨'-', _, by rw [write, writeNumber], by decide, by decide⟩
  | .number (.float _) => simp [Exact] at h

theorem follows_items (items : List Value) (rest : List Char) :
    Follows (writeItems double items ++ rest) := by
  cases items with
  | nil => exact Follows.cons (by decide) _
  | cons v items => exact Follows.cons (by decide) _

theorem follows_entries (entries : List (String × Value)) (rest : List Char) :
    Follows (writeEntries double entries ++ rest) := by
  cases entries with
  | nil => exact Follows.cons (by decide) _
  | cons e entries => exact Follows.cons (by decide) _

theorem read_posInt {n : Nat} (h : n < 2 ^ 64) (fuel : Nat) {rest : List Char}
    (hrest : Follows rest) :
    read (fuel + 1) (Nat.toDigits 10 n ++ rest) = some (.number (.posInt n), rest) := by
  have hread := readNat_toDigits n hrest
  obtain ⟨c, tail, hdigits, hc⟩ := toDigits_head n
  have hminus : c ≠ '-' := by
    rintro rfl
    exact absurd hc (by decide)
  rw [hdigits, List.cons_append] at hread ⊢
  rw [read_number (.inl hc), readNumber, hread]
  · simpa using h
  · intro r heq
    exact hminus (List.cons.inj heq).1

theorem read_negInt {n : Int} (h : -(2 ^ 63) ≤ n ∧ n < 0) (fuel : Nat) {rest : List Char}
    (hrest : Follows rest) :
    read (fuel + 1) ('-' :: (Nat.toDigits 10 n.natAbs ++ rest)) =
      some (.number (.negInt n), rest) := by
  have hrange : 0 < n.natAbs ∧ n.natAbs ≤ 2 ^ 63 := by omega
  have hneg : -(n.natAbs : Int) = n := by omega
  rw [read_number (.inr rfl), readNumber, readNat_toDigits _ hrest]
  simp only [Option.bind_eq_bind, Option.bind_some, hneg, if_pos hrange]

mutual

theorem read_write : ∀ (v : Value) (fuel : Nat) (rest : List Char), Exact v →
    (write double v).length ≤ fuel → Follows rest →
    read fuel (write double v ++ rest) = some (v, rest)
  | .null, fuel + 1, rest, _, _, _ => by
      simp [write, read, skip_cons (show isSpace 'n' = false by decide)]
  | .bool true, fuel + 1, rest, _, _, _ => by
      simp [write, read, skip_cons (show isSpace 't' = false by decide)]
  | .bool false, fuel + 1, rest, _, _, _ => by
      simp [write, read, skip_cons (show isSpace 'f' = false by decide)]
  | .number (.posInt n), fuel + 1, rest, h, _, hrest => by
      rw [write, writeNumber]
      exact read_posInt (by simpa [Exact] using h) fuel hrest
  | .number (.negInt n), fuel + 1, rest, h, _, hrest => by
      rw [write, writeNumber]
      exact read_negInt (by simpa [Exact] using h) fuel hrest
  | .number (.float bits), _, _, h, _, _ => by
      simp [Exact] at h
  | .string s, fuel + 1, rest, _, _, _ => by
      rw [write, writeString_append, read, skip_cons (by decide)]
      simp [readString_write]
  | .array [], fuel + 1, rest, _, _, _ => by
      simp [write, read, skip_cons (show isSpace '[' = false by decide),
        skip_cons (show isSpace ']' = false by decide)]
  | .array (v :: items), fuel + 1, rest, h, hfuel, _ => by
      rw [Exact, ExactItems] at h
      rw [write, List.length_cons, List.length_append] at hfuel
      obtain ⟨c, tail, hhead, hspace, hclose⟩ := write_head double h.1
      have hv := read_write v fuel (writeItems double items ++ rest) h.1 (by omega)
        (follows_items double items rest)
      have hitems := readItems_write items fuel rest h.2 (by omega)
      have hopen : (skip (write double v ++ (writeItems double items ++ rest))).head? ≠
          some ']' := by
        rw [hhead, List.cons_append, skip_cons hspace]
        simpa using hclose
      rw [write, List.cons_append, List.append_assoc, read, skip_cons (by decide)]
      simp [hopen, hv, hitems]
  | .object [], fuel + 1, rest, _, _, _ => by
      simp [write, read, skip_cons (show isSpace '\x7b' = false by decide),
        skip_cons (show isSpace '\x7d' = false by decide)]
  | .object ((key, v) :: entries), fuel + 1, rest, h, hfuel, _ => by
      rw [Exact, ExactEntries] at h
      rw [write, List.length_cons, List.length_append, List.length_cons,
        List.length_append] at hfuel
      have hv := read_write v fuel (writeEntries double entries ++ rest) h.2.1 (by omega)
        (follows_entries double entries rest)
      have hentries := readEntries_write entries fuel rest h.2.2 (by omega)
      have hkey := readKey_write key (write double v ++ (writeEntries double entries ++ rest))
      have hopen : (skip (writeString key ++
          ':' :: (write double v ++ (writeEntries double entries ++ rest)))).head? ≠
          some '\x7d' := by
        rw [writeString_append, skip_cons (by decide)]
        simp
      have hordered := ofEntries_ordered h.1
      rw [write, List.cons_append, List.append_assoc, List.cons_append, List.append_assoc, read,
        skip_cons (by decide)]
      simp [hopen, hkey, hv, hentries, hordered]
  | v, 0, _, h, hfuel, _ => by
      obtain ⟨c, tail, hhead, -, -⟩ := write_head double h
      rw [hhead] at hfuel
      simp at hfuel

theorem readItems_write : ∀ (items : List Value) (fuel : Nat) (rest : List Char),
    ExactItems items → (writeItems double items).length ≤ fuel →
    readItems fuel (writeItems double items ++ rest) = some (items, rest)
  | [], fuel + 1, rest, _, _ => by
      simp [writeItems, readItems, skip_cons (show isSpace ']' = false by decide)]
  | v :: items, fuel + 1, rest, h, hfuel => by
      rw [ExactItems] at h
      rw [writeItems, List.length_cons, List.length_append] at hfuel
      have hv := read_write v fuel (writeItems double items ++ rest) h.1 (by omega)
        (follows_items double items rest)
      have hitems := readItems_write items fuel rest h.2 (by omega)
      rw [writeItems, List.cons_append, List.append_assoc, readItems, skip_cons (by decide)]
      simp [hv, hitems]
  | [], 0, _, _, hfuel => by
      simp [writeItems] at hfuel
  | v :: items, 0, _, _, hfuel => by
      simp [writeItems] at hfuel

theorem readEntries_write : ∀ (entries : List (String × Value)) (fuel : Nat) (rest : List Char),
    ExactEntries entries → (writeEntries double entries).length ≤ fuel →
    readEntries fuel (writeEntries double entries ++ rest) = some (entries, rest)
  | [], fuel + 1, rest, _, _ => by
      simp [writeEntries, readEntries, skip_cons (show isSpace '\x7d' = false by decide)]
  | (key, v) :: entries, fuel + 1, rest, h, hfuel => by
      rw [ExactEntries] at h
      rw [writeEntries, List.length_cons, List.length_append, List.length_cons,
        List.length_append] at hfuel
      have hv := read_write v fuel (writeEntries double entries ++ rest) h.1 (by omega)
        (follows_entries double entries rest)
      have hentries := readEntries_write entries fuel rest h.2 (by omega)
      have hkey := readKey_write key (write double v ++ (writeEntries double entries ++ rest))
      rw [writeEntries, List.cons_append, List.append_assoc, List.cons_append, List.append_assoc,
        readEntries, skip_cons (by decide)]
      simp [hkey, hv, hentries]
  | [], 0, _, _, hfuel => by
      simp [writeEntries] at hfuel
  | (_, _) :: _, 0, _, _, hfuel => by
      simp [writeEntries] at hfuel

end

theorem writeNumber_printable {n : Nat} : ∀ c ∈ Nat.toDigits 10 n, ' ' ≤ c := by
  intro c hc
  have hdigit := Nat.isDigit_of_mem_toDigits (by decide) (by decide) hc
  have hle : '0' ≤ c := by
    simp only [Char.isDigit, Bool.and_eq_true, decide_eq_true_eq] at hdigit
    exact hdigit.1
  exact Char.le_trans (by decide) hle

mutual

/-- A written value holds no control character. -/
theorem write_printable : ∀ v : Value, Exact v → ∀ c ∈ write double v, ' ' ≤ c
  | .null, _ => by simp [write]
  | .bool true, _ => by simp [write]
  | .bool false, _ => by simp [write]
  | .number (.posInt n), _ => by
      rw [write, writeNumber]
      exact writeNumber_printable
  | .number (.negInt n), _ => by
      rw [write, writeNumber]
      exact List.forall_mem_cons.mpr ⟨by decide, writeNumber_printable⟩
  | .number (.float _), h => by simp [Exact] at h
  | .string s, _ => writeString_printable s
  | .array [], _ => by simp [write]
  | .array (v :: items), h => by
      rw [Exact, ExactItems] at h
      rw [write]
      refine List.forall_mem_cons.mpr ⟨by decide, List.forall_mem_append.mpr
        ⟨write_printable v h.1, writeItems_printable items h.2⟩⟩
  | .object [], _ => by simp [write]
  | .object ((key, v) :: entries), h => by
      rw [Exact, ExactEntries] at h
      rw [write]
      refine List.forall_mem_cons.mpr ⟨by decide, List.forall_mem_append.mpr
        ⟨writeString_printable key, List.forall_mem_cons.mpr ⟨by decide,
          List.forall_mem_append.mpr
            ⟨write_printable v h.2.1, writeEntries_printable entries h.2.2⟩⟩⟩⟩

theorem writeItems_printable : ∀ items : List Value, ExactItems items →
    ∀ c ∈ writeItems double items, ' ' ≤ c
  | [], _ => by simp [writeItems]
  | v :: items, h => by
      rw [ExactItems] at h
      rw [writeItems]
      exact List.forall_mem_cons.mpr ⟨by decide, List.forall_mem_append.mpr
        ⟨write_printable v h.1, writeItems_printable items h.2⟩⟩

theorem writeEntries_printable : ∀ entries : List (String × Value), ExactEntries entries →
    ∀ c ∈ writeEntries double entries, ' ' ≤ c
  | [], _ => by simp [writeEntries]
  | (key, v) :: entries, h => by
      rw [ExactEntries] at h
      rw [writeEntries]
      exact List.forall_mem_cons.mpr ⟨by decide, List.forall_mem_append.mpr
        ⟨writeString_printable key, List.forall_mem_cons.mpr ⟨by decide,
          List.forall_mem_append.mpr
            ⟨write_printable v h.1, writeEntries_printable entries h.2⟩⟩⟩⟩

end

/-- A written value reads back as itself. -/
theorem parse_write {v : Value} (h : Exact v) :
    parse (String.ofList (write double v)) = some v := by
  have hnone : Follows [] := by
    intro c hc
    cases hc
  have hread := read_write double v ((write double v).length + 1) [] h (by omega) hnone
  rw [List.append_nil] at hread
  unfold parse
  rw [String.toList_ofList, hread, Option.bind_eq_bind, Option.bind_some]
  rfl

end TokenStation.Library.Json
