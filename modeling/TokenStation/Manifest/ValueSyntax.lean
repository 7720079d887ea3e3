import TokenStation.Library.TextCuts

/-!
# Value syntaxes

The closed set of syntaxes an operator's value may have. Every character a
syntax admits is ASCII, so bytes and characters are counted alike.
-/

namespace TokenStation.Manifest

open Library.TextCuts

instance lawfulBEqText : LawfulBEq (List Char) := inferInstance

/-- The longest bound of printable text that a key may declare. -/
def maxPrintableAscii : Nat := 4096

inductive ValueSyntaxV1 where
  | awsRegion
  | awsArn
  | gcpProjectId
  | apiVersionDate
  | digits
  | token
  | printableAscii (max : Nat)
  | enum (values : List (List Char))
deriving DecidableEq, Repr

def isLabelChar (c : Char) : Bool := c.isLower || c.isDigit || c == '-'

/-- A lowercase DNS label. -/
def isDnsLabel (value : List Char) : Bool :=
  1 ≤ utf8Len value && utf8Len value ≤ 63 && value.all isLabelChar &&
    value.head? != some '-' && value.getLast? != some '-'

def arnMark : List Char := ['a', 'r', 'n', ':']

def isArnChar (c : Char) : Bool :=
  c.isAlphanum || c ∈ [':', '/', '.', '_', '+', '=', ',', '@', '*', '-']

def previewMark : List Char := ['-', 'p', 'r', 'e', 'v', 'i', 'e', 'w']

/-- The characters of a date, by their places. -/
def isDateChar (c : Char) (index : Nat) : Bool :=
  if index = 4 ∨ index = 7 then c == '-' else c.isDigit

def isTokenChar (c : Char) : Bool :=
  c.isAlphanum ||
    c ∈ ['!', '#', '$', '%', '&', '\'', '*', '+', '-', '.', '^', '_', '\x60', '|', '~']

def isPrintable (c : Char) : Bool := ' ' ≤ c && c ≤ '~'

/-- Printable and no space. -/
def isGraphic (c : Char) : Bool := '!' ≤ c && c ≤ '~'

/-- Whether a value has the syntax. -/
def ValueSyntaxV1.admits : ValueSyntaxV1 → List Char → Bool
  | .awsRegion, value => utf8Len value ≤ 32 && isDnsLabel value
  | .awsArn, value =>
      utf8Len value ≤ 2048 && arnMark.isPrefixOf value && 5 ≤ value.count ':' &&
        value.all isArnChar
  | .gcpProjectId, value =>
      6 ≤ utf8Len value && utf8Len value ≤ 30 && value.head?.any Char.isLower && isDnsLabel value
  | .apiVersionDate, value =>
      let date := (value.dropSuffix? previewMark).getD value
      utf8Len date == 10 && date.zipIdx.all fun (c, index) => isDateChar c index
  | .digits, value => 1 ≤ utf8Len value && utf8Len value ≤ 32 && value.all Char.isDigit
  | .token, value => 1 ≤ utf8Len value && utf8Len value ≤ 256 && value.all isTokenChar
  | .printableAscii max, value =>
      !value.isEmpty && utf8Len value ≤ max && value.all isPrintable
  | .enum values, value => values.any (· == value)

/-- Whether every value of the syntax can stand inside a DNS label. -/
def ValueSyntaxV1.isLabelSafe : ValueSyntaxV1 → Bool
  | .awsRegion | .gcpProjectId | .digits => true
  | .enum values => values.all isDnsLabel
  | .awsArn | .apiVersionDate | .token | .printableAscii _ => false

def ValueSyntaxV1.isWellFormed : ValueSyntaxV1 → Bool
  | .printableAscii max => 1 ≤ max && max ≤ maxPrintableAscii
  | .enum values =>
      !values.isEmpty && values.Nodup &&
        values.all fun value => 1 ≤ utf8Len value && utf8Len value ≤ 64 && value.all isGraphic
  | _ => true

/-! ## Labels -/

theorem ne_nil_of_utf8Len {text : List Char} (h : 1 ≤ utf8Len text) : text ≠ [] := by
  rintro rfl
  cases h

theorem isDnsLabel_ne_nil {value : List Char} (h : isDnsLabel value = true) : value ≠ [] := by
  simp only [isDnsLabel, Bool.and_eq_true, decide_eq_true_eq] at h
  exact ne_nil_of_utf8Len h.1.1.1.1

theorem isDnsLabel_chars {value : List Char} (h : isDnsLabel value = true) :
    ∀ c ∈ value, isLabelChar c = true := by
  simp only [isDnsLabel, Bool.and_eq_true] at h
  exact List.all_eq_true.mp h.1.1.2

theorem isLabelChar_ne {c other : Char} (h : isLabelChar c = true)
    (hother : isLabelChar other = false) : c ≠ other := by
  rintro rfl
  rw [h] at hother
  cases hother

/-- Digits are a label. -/
theorem isDnsLabel_of_digits {value : List Char} (hlow : 1 ≤ utf8Len value)
    (hhigh : utf8Len value ≤ 32) (hdigits : ∀ c ∈ value, c.isDigit = true) :
    isDnsLabel value = true := by
  have hdash (h : '-' ∈ value) : False := by cases hdigits '-' h
  simp only [isDnsLabel, Bool.and_eq_true, decide_eq_true_eq, bne_iff_ne, List.all_eq_true]
  refine ⟨⟨⟨⟨hlow, by omega⟩, fun c hc => by rw [isLabelChar, hdigits c hc]; simp⟩, ?_⟩, ?_⟩
  · exact fun h => hdash (List.mem_of_mem_head? h)
  · exact fun h => hdash (List.mem_of_getLast? h)

/-- A label-safe syntax admits labels only. -/
theorem ValueSyntaxV1.isDnsLabel_of_admits {syn : ValueSyntaxV1} (hsafe : syn.isLabelSafe = true)
    {value : List Char} (h : syn.admits value = true) : isDnsLabel value = true := by
  cases syn with
  | awsRegion =>
      simp only [admits, Bool.and_eq_true] at h
      exact h.2
  | gcpProjectId =>
      simp only [admits, Bool.and_eq_true] at h
      exact h.2
  | digits =>
      simp only [admits, Bool.and_eq_true, decide_eq_true_eq, List.all_eq_true] at h
      exact isDnsLabel_of_digits h.1.1 h.1.2 h.2
  | enum values =>
      simp only [admits, List.any_eq_true, beq_iff_eq] at h
      obtain ⟨allowed, hallowed, rfl⟩ := h
      exact List.all_eq_true.mp hsafe allowed hallowed
  | awsArn => cases hsafe
  | apiVersionDate => cases hsafe
  | token => cases hsafe
  | printableAscii max => cases hsafe

/-- Every label has a label-safe syntax. -/
theorem ValueSyntaxV1.exists_labelSafe {value : List Char} (h : isDnsLabel value = true) :
    ∃ syn : ValueSyntaxV1, syn.isLabelSafe = true ∧ syn.admits value = true :=
  ⟨.enum [value], by simp [isLabelSafe, h], by simp [admits]⟩

/-! ## Well-formed syntaxes -/

theorem isDnsLabel_length {value : List Char} (h : isDnsLabel value = true) :
    value.length ≤ 63 := by
  simp only [isDnsLabel, Bool.and_eq_true, decide_eq_true_eq] at h
  exact (length_le_utf8Len value).trans h.1.1.1.2

/-- A date, with or without the mark of a preview. -/
theorem date_length {value : List Char}
    (h : utf8Len ((value.dropSuffix? previewMark).getD value) = 10) :
    value ≠ [] ∧ value.length ≤ 18 := by
  cases hdrop : value.dropSuffix? previewMark with
  | none =>
      rw [hdrop, Option.getD_none] at h
      have hlength := length_le_utf8Len value
      exact ⟨ne_nil_of_utf8Len (by omega), by omega⟩
  | some date =>
      rw [hdrop, Option.getD_some] at h
      have hlength := length_le_utf8Len date
      rw [dropSuffix?_eq hdrop]
      refine ⟨by simp [previewMark], ?_⟩
      rw [List.length_append]
      change date.length + 8 ≤ 18
      omega

/-- A value of a well-formed syntax is not empty, and not long. -/
theorem ValueSyntaxV1.bounds {syn : ValueSyntaxV1} (hwell : syn.isWellFormed = true)
    {value : List Char} (h : syn.admits value = true) : value ≠ [] ∧ value.length ≤ 4096 := by
  have hlength := length_le_utf8Len value
  cases syn with
  | awsRegion =>
      simp only [admits, Bool.and_eq_true] at h
      exact ⟨isDnsLabel_ne_nil h.2, (isDnsLabel_length h.2).trans (by decide)⟩
  | awsArn =>
      simp only [admits, Bool.and_eq_true, decide_eq_true_eq] at h
      refine ⟨?_, by omega⟩
      rintro rfl
      cases h.1.1.2
  | gcpProjectId =>
      simp only [admits, Bool.and_eq_true] at h
      exact ⟨isDnsLabel_ne_nil h.2, (isDnsLabel_length h.2).trans (by decide)⟩
  | apiVersionDate =>
      simp only [admits, Bool.and_eq_true, beq_iff_eq] at h
      obtain ⟨hne, hle⟩ := date_length h.1
      exact ⟨hne, hle.trans (by decide)⟩
  | digits =>
      simp only [admits, Bool.and_eq_true, decide_eq_true_eq] at h
      exact ⟨ne_nil_of_utf8Len h.1.1, by omega⟩
  | token =>
      simp only [admits, Bool.and_eq_true, decide_eq_true_eq] at h
      exact ⟨ne_nil_of_utf8Len h.1.1, by omega⟩
  | printableAscii max =>
      simp only [admits, Bool.and_eq_true, decide_eq_true_eq, Bool.not_eq_true',
        List.isEmpty_eq_false_iff] at h
      simp only [isWellFormed, Bool.and_eq_true, decide_eq_true_eq] at hwell
      exact ⟨h.1.1, hlength.trans (h.1.2.trans hwell.2)⟩
  | enum values =>
      simp only [admits, List.any_eq_true, beq_iff_eq] at h
      obtain ⟨allowed, hallowed, rfl⟩ := h
      simp only [isWellFormed, Bool.and_eq_true, List.all_eq_true, decide_eq_true_eq] at hwell
      obtain ⟨⟨hlow, hhigh⟩, -⟩ := hwell.2 allowed hallowed
      exact ⟨ne_nil_of_utf8Len hlow, by omega⟩

/-- Every well-formed syntax admits a value. -/
theorem ValueSyntaxV1.exists_admits {syn : ValueSyntaxV1} (hwell : syn.isWellFormed = true) :
    ∃ value, syn.admits value = true := by
  cases syn with
  | awsRegion => exact ⟨['a'], by decide⟩
  | awsArn => exact ⟨['a', 'r', 'n', ':', ':', ':', ':', ':'], by decide⟩
  | gcpProjectId => exact ⟨['a', 'a', 'a', 'a', 'a', 'a'], by decide⟩
  | apiVersionDate =>
      exact ⟨['2', '0', '2', '4', '-', '0', '1', '-', '0', '1'], by decide⟩
  | digits => exact ⟨['0'], by decide⟩
  | token => exact ⟨['a'], by decide⟩
  | printableAscii max =>
      simp only [isWellFormed, Bool.and_eq_true, decide_eq_true_eq] at hwell
      refine ⟨['a'], ?_⟩
      simp only [admits, Bool.and_eq_true, decide_eq_true_eq]
      exact ⟨⟨rfl, hwell.1⟩, rfl⟩
  | enum values =>
      simp only [isWellFormed, Bool.and_eq_true, Bool.not_eq_true', List.isEmpty_eq_false_iff]
        at hwell
      obtain ⟨value, values, rfl⟩ := List.exists_cons_of_ne_nil hwell.1.1
      exact ⟨value, by simp [admits]⟩

/-! ## Printable values -/

theorem isPrintable_of_isAlphanum {c : Char} (h : c.isAlphanum = true) : isPrintable c = true := by
  simp only [Char.isAlphanum, Char.isAlpha, Char.isUpper, Char.isLower, Char.isDigit,
    Bool.or_eq_true, Bool.and_eq_true, decide_eq_true_eq, ge_iff_le, UInt32.le_iff_toNat_le] at h
  simp only [isPrintable, Bool.and_eq_true, decide_eq_true_eq, Char.le_def, UInt32.le_iff_toNat_le]
  simp only [UInt32.toNat_ofNat, Char.reduceVal] at h ⊢
  omega

theorem isAlphanum_of_isDigit {c : Char} (h : c.isDigit = true) : c.isAlphanum = true := by
  rw [Char.isAlphanum, h, Bool.or_true]

theorem isAlphanum_of_isLower {c : Char} (h : c.isLower = true) : c.isAlphanum = true := by
  rw [Char.isAlphanum, Char.isAlpha, h, Bool.or_true, Bool.true_or]

theorem isPrintable_of_isLabelChar {c : Char} (h : isLabelChar c = true) : isPrintable c = true := by
  rw [isLabelChar, Bool.or_eq_true, Bool.or_eq_true, beq_iff_eq] at h
  rcases h with (h | h) | rfl
  · exact isPrintable_of_isAlphanum (isAlphanum_of_isLower h)
  · exact isPrintable_of_isAlphanum (isAlphanum_of_isDigit h)
  · rfl

/-- A letter, a digit or one of some printable characters. -/
theorem isPrintable_of_mem {c : Char} {marks : List Char} (hmarks : ∀ c ∈ marks, isPrintable c = true)
    (h : (c.isAlphanum || decide (c ∈ marks)) = true) : isPrintable c = true := by
  rw [Bool.or_eq_true, decide_eq_true_eq] at h
  exact h.elim isPrintable_of_isAlphanum (hmarks c)

theorem isPrintable_of_isDateChar {c : Char} {index : Nat} (h : isDateChar c index = true) :
    isPrintable c = true := by
  rw [isDateChar] at h
  split at h
  · rw [beq_iff_eq] at h
    rw [h]
    rfl
  · exact isPrintable_of_isAlphanum (isAlphanum_of_isDigit h)

theorem isPrintable_of_isGraphic {c : Char} (h : isGraphic c = true) : isPrintable c = true := by
  simp only [isGraphic, isPrintable, Bool.and_eq_true, decide_eq_true_eq] at h ⊢
  exact ⟨le_trans (by decide) h.1, h.2⟩

theorem date_printable {date : List Char}
    (h : date.zipIdx.all (fun e => isDateChar e.1 e.2) = true) :
    ∀ c ∈ date, isPrintable c = true := by
  intro c hc
  obtain ⟨index, hindex, rfl⟩ := List.mem_iff_getElem.mp hc
  exact isPrintable_of_isDateChar (List.all_eq_true.mp h (date[index], index)
    (List.mem_zipIdx_iff_getElem?.mpr (List.getElem?_eq_getElem hindex)))

/-- A value of a well-formed syntax is printable. -/
theorem ValueSyntaxV1.printable {syn : ValueSyntaxV1} (hwell : syn.isWellFormed = true)
    {value : List Char} (h : syn.admits value = true) : ∀ c ∈ value, isPrintable c = true := by
  cases syn with
  | awsRegion =>
      simp only [admits, Bool.and_eq_true] at h
      exact fun c hc => isPrintable_of_isLabelChar (isDnsLabel_chars h.2 c hc)
  | awsArn =>
      simp only [admits, Bool.and_eq_true, List.all_eq_true] at h
      exact fun c hc => isPrintable_of_mem (List.all_eq_true.mp (by decide)) (h.2 c hc)
  | gcpProjectId =>
      simp only [admits, Bool.and_eq_true] at h
      exact fun c hc => isPrintable_of_isLabelChar (isDnsLabel_chars h.2 c hc)
  | apiVersionDate =>
      simp only [admits, Bool.and_eq_true] at h
      have hdate := date_printable h.2
      cases hdrop : value.dropSuffix? previewMark with
      | none => rwa [hdrop] at hdate
      | some date =>
          rw [hdrop, Option.getD_some] at hdate
          rw [dropSuffix?_eq hdrop]
          intro c hc
          rcases List.mem_append.mp hc with hc | hc
          · exact hdate c hc
          · exact List.all_eq_true.mp (by decide : previewMark.all isPrintable = true) c hc
  | digits =>
      simp only [admits, Bool.and_eq_true, List.all_eq_true] at h
      exact fun c hc => isPrintable_of_isAlphanum (isAlphanum_of_isDigit (h.2 c hc))
  | token =>
      simp only [admits, Bool.and_eq_true, List.all_eq_true] at h
      exact fun c hc => isPrintable_of_mem (List.all_eq_true.mp (by decide)) (h.2 c hc)
  | printableAscii max =>
      simp only [admits, Bool.and_eq_true, List.all_eq_true] at h
      exact h.2
  | enum values =>
      simp only [admits, List.any_eq_true, beq_iff_eq] at h
      obtain ⟨allowed, hallowed, rfl⟩ := h
      simp only [isWellFormed, Bool.and_eq_true, List.all_eq_true] at hwell
      exact fun c hc => isPrintable_of_isGraphic ((hwell.2 allowed hallowed).2 c hc)

theorem utf8Size_of_isPrintable {c : Char} (h : isPrintable c = true) : c.utf8Size = 1 := by
  simp only [isPrintable, Bool.and_eq_true, decide_eq_true_eq] at h
  have hval : c.val ≤ '~'.val := Char.le_def.mp h.2
  rw [Char.utf8Size, if_pos (UInt32.le_trans hval (by decide))]

/-- Printable characters and their bytes are counted alike. -/
theorem utf8Len_of_printable {text : List Char} (h : ∀ c ∈ text, isPrintable c = true) :
    utf8Len text = text.length := by
  induction text with
  | nil => rfl
  | cons c text ih =>
      rw [utf8Len_cons, List.length_cons, utf8Size_of_isPrintable (h c List.mem_cons_self),
        ih fun c hc => h c (List.mem_cons_of_mem _ hc), Nat.add_comm]

end TokenStation.Manifest
