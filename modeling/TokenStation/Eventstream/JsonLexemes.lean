import TokenStation.Eventstream.ComponentFrames
import TokenStation.Media.JsonGrammar

/-!
# The lexemes of a JSON text

RFC 8259 as a relation between a text and the value it writes, the lexemes a text is cut
into, and what is left of a text without the white space between them. A number or a
literal ends where no such character follows, so that a text is cut in one way only.
-/

namespace TokenStation.Eventstream

open Library.Text Sse
open Library.Json (isSpace hexValue)
open Media.Json (Digits NumberText Ws literals)

/-! ## Grammar -/

/-- What stands between the quotes of a string. A unicode escape need not be half of a pair. -/
inductive StringBody : List Char → Prop
  | nil : StringBody []
  | plain {c : Char} {rest : List Char} (hquote : c ≠ '"') (hslash : c ≠ '\\')
      (hcontrol : ¬c < ' ') (h : StringBody rest) : StringBody (c :: rest)
  | letter {c : Char} {rest : List Char} (hc : c ∈ ['"', '\\', '/', 'b', 'f', 'n', 'r', 't'])
      (h : StringBody rest) : StringBody ('\\' :: c :: rest)
  | unicode {digits rest : List Char} (hlength : digits.length = 4)
      (hdigits : ∀ c ∈ digits, (hexValue c).isSome = true) (h : StringBody rest) :
      StringBody ('\\' :: 'u' :: (digits ++ rest))

def quoted (body : List Char) : List Char := '"' :: (body ++ ['"'])

/-- A value as it is written: its scalars and keys are kept as texts. -/
inductive Spelling where
  | scalar (text : List Char)
  | array (items : List Spelling)
  | object (members : List (List Char × Spelling))

mutual

/-- A value. -/
inductive ValueText : List Char → Spelling → Prop
  | literal {word : String} (h : word ∈ literals) : ValueText word.toList (.scalar word.toList)
  | number {text : List Char} (h : NumberText text) : ValueText text (.scalar text)
  | string {body : List Char} (h : StringBody body) :
      ValueText (quoted body) (.scalar (quoted body))
  | emptyArray {ws : List Char} (hws : Ws ws) : ValueText ('[' :: (ws ++ [']'])) (.array [])
  | array {ws text rest : List Char} {value : Spelling} {items : List Spelling} (hws : Ws ws)
      (h : ValueText text value) (hrest : ItemsText rest items) :
      ValueText ('[' :: (ws ++ (text ++ rest))) (.array (value :: items))
  | emptyObject {ws : List Char} (hws : Ws ws) :
      ValueText ('\x7b' :: (ws ++ ['\x7d'])) (.object [])
  | object {ws key before after text rest : List Char} {value : Spelling}
      {members : List (List Char × Spelling)} (hws : Ws ws) (hkey : StringBody key)
      (hbefore : Ws before) (hafter : Ws after) (h : ValueText text value)
      (hrest : MembersText rest members) :
      ValueText ('\x7b' :: (ws ++ (quoted key ++ (before ++ ':' :: (after ++ (text ++ rest))))))
        (.object ((quoted key, value) :: members))

/-- The items after the first one, with the closing bracket. -/
inductive ItemsText : List Char → List Spelling → Prop
  | nil {ws : List Char} (hws : Ws ws) : ItemsText (ws ++ [']']) []
  | cons {before after text rest : List Char} {value : Spelling} {items : List Spelling}
      (hbefore : Ws before) (hafter : Ws after) (h : ValueText text value)
      (hrest : ItemsText rest items) :
      ItemsText (before ++ ',' :: (after ++ (text ++ rest))) (value :: items)

/-- The members after the first one, with the closing brace. -/
inductive MembersText : List Char → List (List Char × Spelling) → Prop
  | nil {ws : List Char} (hws : Ws ws) : MembersText (ws ++ ['\x7d']) []
  | cons {lead ws key before after text rest : List Char} {value : Spelling}
      {members : List (List Char × Spelling)} (hlead : Ws lead) (hws : Ws ws)
      (hkey : StringBody key) (hbefore : Ws before) (hafter : Ws after)
      (h : ValueText text value) (hrest : MembersText rest members) :
      MembersText (lead ++ ',' :: (ws ++ (quoted key ++ (before ++ ':' :: (after ++
        (text ++ rest)))))) ((quoted key, value) :: members)

end

/-- A JSON text: one value with white space around it. -/
inductive JsonText : List Char → Spelling → Prop
  | mk {before text after : List Char} {value : Spelling} (hbefore : Ws before)
      (h : ValueText text value) (hafter : Ws after) : JsonText (before ++ (text ++ after)) value

/-! ## Lexemes -/

def marks : List Char := ['[', ']', '\x7b', '\x7d', ',', ':']

/-- The characters a number or a literal may go on with. -/
def isWord (c : Char) : Bool := !isSpace c && !marks.contains c && c != '"'

/-- No number or literal goes on after this point. -/
def Ends (rest : List Char) : Prop := ∀ c, rest.head? = some c → isWord c = false

/-- A text cut into its lexemes. -/
inductive Lexed : List Char → List (List Char) → Prop
  | nil : Lexed [] []
  | space {c : Char} {rest : List Char} {lexemes : List (List Char)} (hc : isSpace c = true)
      (h : Lexed rest lexemes) : Lexed (c :: rest) lexemes
  | mark {c : Char} {rest : List Char} {lexemes : List (List Char)} (hc : c ∈ marks)
      (h : Lexed rest lexemes) : Lexed (c :: rest) ([c] :: lexemes)
  | string {body rest : List Char} {lexemes : List (List Char)} (hbody : StringBody body)
      (h : Lexed rest lexemes) : Lexed (quoted body ++ rest) (quoted body :: lexemes)
  | word {word rest : List Char} {lexemes : List (List Char)} (hne : word ≠ [])
      (hword : ∀ c ∈ word, isWord c = true) (hends : Ends rest) (h : Lexed rest lexemes) :
      Lexed (word ++ rest) (word :: lexemes)

/-- A text without the white space outside its string literals. -/
inductive Stripped : List Char → List Char → Prop
  | nil : Stripped [] []
  | space {c : Char} {rest out : List Char} (hc : isSpace c = true) (h : Stripped rest out) :
      Stripped (c :: rest) out
  | keep {c : Char} {rest out : List Char} (hc : isSpace c = false) (hquote : c ≠ '"')
      (h : Stripped rest out) : Stripped (c :: rest) (c :: out)
  | string {body rest out : List Char} (hbody : StringBody body) (h : Stripped rest out) :
      Stripped (quoted body ++ rest) (quoted body ++ out)

theorem isWord_split {c : Char} (h : isWord c = true) :
    isSpace c = false ∧ c ∉ marks ∧ c ≠ '"' := by
  simpa [isWord, and_assoc] using h

/-! ### A text is cut in one way -/

theorem StringBody.unique {a b s t : List Char} (ha : StringBody a) (hb : StringBody b)
    (h : a ++ '"' :: s = b ++ '"' :: t) : a = b ∧ s = t := by
  induction ha generalizing b with
  | nil =>
      cases hb with
      | nil => exact ⟨rfl, (List.cons.inj h).2⟩
      | plain hquote => exact absurd (List.cons.inj h).1.symm hquote
      | letter => cases (List.cons.inj h).1
      | unicode => cases (List.cons.inj h).1
  | plain hquote hslash _ _ ih =>
      cases hb with
      | nil => exact absurd (List.cons.inj h).1 hquote
      | plain _ _ _ hb =>
          obtain ⟨rfl, hrest⟩ := List.cons.inj h
          obtain ⟨rfl, hst⟩ := ih hb hrest
          exact ⟨rfl, hst⟩
      | letter => exact absurd (List.cons.inj h).1 hslash
      | unicode => exact absurd (List.cons.inj h).1 hslash
  | letter hc _ ih =>
      cases hb with
      | nil => cases (List.cons.inj h).1
      | plain _ hslash => exact absurd (List.cons.inj h).1.symm hslash
      | letter _ hb =>
          obtain ⟨rfl, hrest⟩ := List.cons.inj (List.cons.inj h).2
          obtain ⟨rfl, hst⟩ := ih hb hrest
          exact ⟨rfl, hst⟩
      | unicode =>
          obtain ⟨rfl, -⟩ := List.cons.inj (List.cons.inj h).2
          exact absurd hc (by decide)
  | @unicode digits rest hlength _ _ ih =>
      cases hb with
      | nil => cases (List.cons.inj h).1
      | plain _ hslash => exact absurd (List.cons.inj h).1.symm hslash
      | letter hc =>
          obtain ⟨rfl, -⟩ := List.cons.inj (List.cons.inj h).2
          exact absurd hc (by decide)
      | unicode hlengthB _ hb =>
          have hrest := (List.cons.inj (List.cons.inj h).2).2
          simp only [List.append_eq, List.append_assoc] at hrest
          obtain ⟨rfl, hmore⟩ := List.append_inj hrest (hlength.trans hlengthB.symm)
          obtain ⟨rfl, hst⟩ := ih hb hmore
          exact ⟨rfl, hst⟩

/-- A run of word characters up to where none goes on. -/
theorem word_unique {v w s t : List Char} (hv : ∀ c ∈ v, isWord c = true)
    (hw : ∀ c ∈ w, isWord c = true) (hs : Ends s) (ht : Ends t) (h : v ++ s = w ++ t) :
    v = w ∧ s = t := by
  induction v generalizing w with
  | nil =>
      cases w with
      | nil => exact ⟨rfl, h⟩
      | cons d w =>
          have hd := hs d (by rw [show s = d :: w ++ t from h]; rfl)
          rw [hw d List.mem_cons_self] at hd
          cases hd
  | cons c v ih =>
      cases w with
      | nil =>
          have hc := ht c (by rw [← show c :: v ++ s = t from h]; rfl)
          rw [hv c List.mem_cons_self] at hc
          cases hc
      | cons d w =>
          obtain ⟨rfl, hrest⟩ := List.cons.inj h
          obtain ⟨rfl, hst⟩ := ih (fun x hx => hv x (List.mem_cons_of_mem _ hx))
            (fun x hx => hw x (List.mem_cons_of_mem _ hx)) hrest
          exact ⟨rfl, hst⟩

theorem marks_plain {c : Char} (h : c ∈ marks) :
    isSpace c = false ∧ c ≠ '"' ∧ isWord c = false := by
  have hall : ∀ c ∈ marks, isSpace c = false ∧ c ≠ '"' ∧ isWord c = false := by
    simp [marks, isWord, isSpace]
  exact hall c h

/-- Two ways of cutting one text agree. -/
theorem Lexed.unique {text : List Char} {a b : List (List Char)} (ha : Lexed text a)
    (hb : Lexed text b) : a = b := by
  induction ha generalizing b with
  | nil =>
      generalize htext : ([] : List Char) = text at hb
      cases hb with
      | nil => rfl
      | word hne => exact absurd (List.append_eq_nil_iff.mp htext.symm).1 hne
      | space | mark | string => cases htext
  | @space c rest lexemes hc h ih =>
      generalize htext : c :: rest = text at hb
      cases hb with
      | nil => cases htext
      | space _ hb =>
          cases htext
          exact ih hb
      | mark hmark =>
          cases htext
          rw [(marks_plain hmark).1] at hc
          cases hc
      | string =>
          obtain ⟨rfl, -⟩ := List.cons.inj htext
          cases hc
      | @word word _ _ hne hword =>
          obtain ⟨d, word, rfl⟩ := List.exists_cons_of_ne_nil hne
          obtain ⟨rfl, -⟩ := List.cons.inj htext
          rw [(isWord_split (hword c List.mem_cons_self)).1] at hc
          cases hc
  | @mark c rest lexemes hc h ih =>
      generalize htext : c :: rest = text at hb
      cases hb with
      | nil => cases htext
      | space hspace =>
          cases htext
          rw [(marks_plain hc).1] at hspace
          cases hspace
      | mark _ hb =>
          cases htext
          rw [ih hb]
      | string =>
          obtain ⟨rfl, -⟩ := List.cons.inj htext
          exact absurd rfl (marks_plain hc).2.1
      | @word word _ _ hne hword =>
          obtain ⟨d, word, rfl⟩ := List.exists_cons_of_ne_nil hne
          obtain ⟨rfl, -⟩ := List.cons.inj htext
          exact absurd hc (isWord_split (hword c List.mem_cons_self)).2.1
  | @string body rest lexemes hbody h ih =>
      generalize htext : quoted body ++ rest = text at hb
      cases hb with
      | nil => cases htext
      | space hspace =>
          obtain ⟨rfl, -⟩ := List.cons.inj htext
          cases hspace
      | mark hmark =>
          obtain ⟨rfl, -⟩ := List.cons.inj htext
          exact absurd rfl (marks_plain hmark).2.1
      | string hbodyB hb =>
          have hinner := (List.cons.inj htext).2
          simp only [List.append_eq, List.append_assoc] at hinner
          obtain ⟨rfl, rfl⟩ := hbody.unique hbodyB hinner
          rw [ih hb]
      | @word word _ _ hne hword =>
          obtain ⟨d, word, rfl⟩ := List.exists_cons_of_ne_nil hne
          obtain ⟨rfl, -⟩ := List.cons.inj htext
          exact absurd rfl (isWord_split (hword _ List.mem_cons_self)).2.2
  | @word word rest lexemes hne hword hends h ih =>
      obtain ⟨c, word, rfl⟩ := List.exists_cons_of_ne_nil hne
      obtain ⟨hspace, hmark, hquote⟩ := isWord_split (hword c List.mem_cons_self)
      generalize htext : c :: word ++ rest = text at hb
      cases hb with
      | nil => cases htext
      | space hc =>
          obtain ⟨rfl, -⟩ := List.cons.inj htext
          rw [hspace] at hc
          cases hc
      | mark hc =>
          obtain ⟨rfl, -⟩ := List.cons.inj htext
          exact absurd hc hmark
      | string =>
          obtain ⟨rfl, -⟩ := List.cons.inj htext
          exact absurd rfl hquote
      | word _ hwordB hendsB hb =>
          obtain ⟨rfl, rfl⟩ := word_unique hword hwordB hends hendsB htext
          rw [ih hb]

/-! ### Lexemes of a value -/

mutual

/-- The lexemes of a value in the order they are written. -/
def lexemes : Spelling → List (List Char)
  | .scalar text => [text]
  | .array [] => [['['], [']']]
  | .array (value :: items) => ['['] :: (lexemes value ++ lexemesOfItems items)
  | .object [] => [['\x7b'], ['\x7d']]
  | .object ((key, value) :: members) =>
      ['\x7b'] :: key :: [':'] :: (lexemes value ++ lexemesOfMembers members)

/-- The lexemes of the items after the first one. -/
def lexemesOfItems : List Spelling → List (List Char)
  | [] => [[']']]
  | value :: items => [','] :: (lexemes value ++ lexemesOfItems items)

/-- The lexemes of the members after the first one. -/
def lexemesOfMembers : List (List Char × Spelling) → List (List Char)
  | [] => [['\x7d']]
  | (key, value) :: members =>
      [','] :: key :: [':'] :: (lexemes value ++ lexemesOfMembers members)

end

/-- A text that is cut into some lexemes wherever no word goes on after it. -/
def Lexes (text : List Char) (out : List (List Char)) : Prop :=
  ∀ rest more, Ends rest → Lexed rest more → Lexed (text ++ rest) (out ++ more)

theorem Lexed.ws {ws rest : List Char} {out : List (List Char)} (hws : Ws ws)
    (h : Lexed rest out) : Lexed (ws ++ rest) out := by
  induction ws with
  | nil => exact h
  | cons c ws ih =>
      exact .space (hws c List.mem_cons_self) (ih fun d hd => hws d (List.mem_cons_of_mem _ hd))

theorem Ends.ws {ws rest : List Char} (hws : Ws ws) (h : Ends rest) : Ends (ws ++ rest) := by
  cases ws with
  | nil => exact h
  | cons c ws =>
      intro d hd
      obtain rfl := Option.some.inj hd
      rw [isWord, hws c List.mem_cons_self]
      rfl

theorem Ends.mark {c : Char} (hc : c ∈ marks) (rest : List Char) : Ends (c :: rest) := by
  intro d hd
  obtain rfl := Option.some.inj hd
  exact (marks_plain hc).2.2

/-! ### Words -/

theorem digit_word {c : Char} (h : c.isDigit = true) : isWord c = true := by
  have hall : ∀ d ∈ '"' :: ' ' :: '\t' :: '\n' :: '\r' :: marks, d.isDigit = false := by
    simp [marks]
  have hne : ∀ d ∈ '"' :: ' ' :: '\t' :: '\n' :: '\r' :: marks, c ≠ d := by
    rintro d hd rfl
    rw [hall c hd] at h
    cases h
  simp only [marks, List.forall_mem_cons] at hne
  simp [isWord, isSpace, marks, hne]

theorem digits_word {text : List Char} (h : Digits text) : ∀ c ∈ text, isWord c = true :=
  fun c hc => digit_word (h.digits c hc)

/-- A number is one word. -/
theorem number_word {text : List Char} (h : NumberText text) :
    text ≠ [] ∧ ∀ c ∈ text, isWord c = true := by
  have hother : ∀ c ∈ ['-', '+', '.', 'e', 'E', '0'], isWord c = true := by
    simp [marks, isWord, isSpace]
  obtain ⟨hsign, hint, hfraction, hexponent⟩ := h
  rename_i sign int fraction exponent
  have hintWord : int ≠ [] ∧ ∀ c ∈ int, isWord c = true := by
    rcases hint with rfl | ⟨hdigits, -⟩
    · exact ⟨List.cons_ne_nil _ _, fun c hc => hother c (by simp_all)⟩
    · exact ⟨hdigits.nonempty, digits_word hdigits⟩
  have hsignWord : ∀ c ∈ sign, isWord c = true := by
    rcases hsign with rfl | rfl
    · exact fun c hc => by cases hc
    · exact fun c hc => hother c (by simp_all)
  have hfractionWord : ∀ c ∈ fraction, isWord c = true := by
    rcases hfraction with rfl | ⟨digits, hdigits, rfl⟩
    · exact fun c hc => by cases hc
    · intro c hc
      rcases List.mem_cons.mp hc with rfl | hc
      · exact hother _ (by decide)
      · exact digits_word hdigits c hc
  have hexponentWord : ∀ c ∈ exponent, isWord c = true := by
    rcases hexponent with rfl | ⟨e, sign, digits, he, hsign, hdigits, rfl⟩
    · exact fun c hc => by cases hc
    · intro c hc
      rcases List.mem_cons.mp hc with rfl | hc
      · rcases he with rfl | rfl <;> exact hother _ (by decide)
      · rcases List.mem_append.mp hc with hc | hc
        · rcases hsign with rfl | rfl | rfl
          · cases hc
          · rw [List.mem_singleton.mp hc]
            exact hother _ (by decide)
          · rw [List.mem_singleton.mp hc]
            exact hother _ (by decide)
        · exact digits_word hdigits c hc
  refine ⟨by simp [hintWord.1], fun c hc => ?_⟩
  simp only [List.mem_append] at hc
  rcases hc with hc | hc | hc | hc
  · exact hsignWord c hc
  · exact hintWord.2 c hc
  · exact hfractionWord c hc
  · exact hexponentWord c hc

theorem literal_word {word : String} (h : word ∈ literals) :
    word.toList ≠ [] ∧ ∀ c ∈ word.toList, isWord c = true := by
  have hall : ∀ word ∈ literals, word.toList ≠ [] ∧ ∀ c ∈ word.toList, isWord c = true := by
    simp [literals, marks, isWord, isSpace]
  exact hall word h

theorem Lexes.word {text : List Char} (h : text ≠ [] ∧ ∀ c ∈ text, isWord c = true) :
    Lexes text [text] := fun _ _ hends hrest => .word h.1 h.2 hends hrest

theorem Lexes.quoted {body : List Char} (h : StringBody body) :
    Lexes (quoted body) [quoted body] := fun _ _ _ hrest => .string h hrest

/-! ### A text of a value has the lexemes of the value -/

theorem ItemsText.ends {text : List Char} {items : List Spelling} (h : ItemsText text items)
    (rest : List Char) : Ends (text ++ rest) := by
  cases h with
  | nil hws =>
      rw [List.append_assoc]
      exact .ws hws (.mark (by decide) _)
  | cons hbefore =>
      rw [List.append_assoc]
      exact .ws hbefore (.mark (by decide) _)

theorem MembersText.ends {text : List Char} {members : List (List Char × Spelling)}
    (h : MembersText text members) (rest : List Char) : Ends (text ++ rest) := by
  cases h with
  | nil hws =>
      rw [List.append_assoc]
      exact .ws hws (.mark (by decide) _)
  | cons hlead =>
      rw [List.append_assoc]
      exact .ws hlead (.mark (by decide) _)

mutual

theorem ValueText.lexes : ∀ {text : List Char} {value : Spelling}, ValueText text value →
    Lexes text (lexemes value)
  | _, _, .literal h => .word (literal_word h)
  | _, _, .number h => .word (number_word h)
  | _, _, .string h => .quoted h
  | _, _, .emptyArray hws => by
      intro rest more hends hrest
      rw [List.cons_append, List.append_assoc]
      exact .mark (by decide) (.ws hws (.mark (by decide) hrest))
  | _, _, .array hws h hitems => by
      intro rest more hends hrest
      have htail := hitems.lexes rest more hends hrest
      have hvalue := h.lexes _ _ (hitems.ends rest) htail
      rw [List.cons_append, List.append_assoc, List.append_assoc, lexemes, List.cons_append,
        List.append_assoc]
      exact .mark (by decide) (.ws hws hvalue)
  | _, _, .emptyObject hws => by
      intro rest more hends hrest
      rw [List.cons_append, List.append_assoc]
      exact .mark (by decide) (.ws hws (.mark (by decide) hrest))
  | _, _, .object hws hkey hbefore hafter h hmembers => by
      intro rest more hends hrest
      have htail := hmembers.lexes rest more hends hrest
      have hvalue := h.lexes _ _ (hmembers.ends rest) htail
      simp only [List.cons_append, List.append_assoc, lexemes]
      exact .mark (by decide) (.ws hws (.string hkey (.ws hbefore (.mark (by decide)
        (.ws hafter hvalue)))))

theorem ItemsText.lexes : ∀ {text : List Char} {items : List Spelling}, ItemsText text items →
    Lexes text (lexemesOfItems items)
  | _, _, .nil hws => by
      intro rest more hends hrest
      rw [List.append_assoc]
      exact .ws hws (.mark (by decide) hrest)
  | _, _, .cons hbefore hafter h hitems => by
      intro rest more hends hrest
      have htail := hitems.lexes rest more hends hrest
      have hvalue := h.lexes _ _ (hitems.ends rest) htail
      simp only [List.cons_append, List.append_assoc, lexemesOfItems]
      exact .ws hbefore (.mark (by decide) (.ws hafter hvalue))

theorem MembersText.lexes : ∀ {text : List Char} {members : List (List Char × Spelling)},
    MembersText text members → Lexes text (lexemesOfMembers members)
  | _, _, .nil hws => by
      intro rest more hends hrest
      rw [List.append_assoc]
      exact .ws hws (.mark (by decide) hrest)
  | _, _, .cons hlead hws hkey hbefore hafter h hmembers => by
      intro rest more hends hrest
      have htail := hmembers.lexes rest more hends hrest
      have hvalue := h.lexes _ _ (hmembers.ends rest) htail
      simp only [List.cons_append, List.append_assoc, lexemesOfMembers]
      exact .ws hlead (.mark (by decide) (.ws hws (.string hkey (.ws hbefore (.mark (by decide)
        (.ws hafter hvalue))))))

end

theorem JsonText.lexed {text : List Char} {value : Spelling} (h : JsonText text value) :
    Lexed text (lexemes value) := by
  obtain ⟨hbefore, hvalue, hafter⟩ := h
  rename_i before text after
  have hrest : Lexed after [] := by
    have hnil := Lexed.ws hafter .nil
    rwa [List.append_nil] at hnil
  have hends : Ends after := by
    have hnil : Ends [] := fun _ hc => by cases hc
    have hws := Ends.ws hafter hnil
    rwa [List.append_nil] at hws
  have hlexed := hvalue.lexes after [] hends hrest
  rw [List.append_nil] at hlexed
  exact .ws hbefore hlexed

/-! ### The lexemes of a value are a text of it -/

theorem ws_nil : Ws [] := fun _ hc => by cases hc

mutual

theorem ValueText.flatten : ∀ {text : List Char} {value : Spelling}, ValueText text value →
    ValueText (lexemes value).flatten value
  | _, _, .literal h => by simpa [lexemes] using ValueText.literal h
  | _, _, .number h => by simpa [lexemes] using ValueText.number h
  | _, _, .string h => by simpa [lexemes] using ValueText.string h
  | _, _, .emptyArray _ => by simpa [lexemes] using ValueText.emptyArray ws_nil
  | _, _, .array _ h hitems => by
      simpa [lexemes] using ValueText.array ws_nil h.flatten hitems.flatten
  | _, _, .emptyObject _ => by simpa [lexemes] using ValueText.emptyObject ws_nil
  | _, _, .object _ hkey _ _ h hmembers => by
      simpa [lexemes] using
        ValueText.object ws_nil hkey ws_nil ws_nil h.flatten hmembers.flatten

theorem ItemsText.flatten : ∀ {text : List Char} {items : List Spelling}, ItemsText text items →
    ItemsText (lexemesOfItems items).flatten items
  | _, _, .nil _ => by simpa [lexemesOfItems] using ItemsText.nil ws_nil
  | _, _, .cons _ _ h hitems => by
      simpa [lexemesOfItems] using ItemsText.cons ws_nil ws_nil h.flatten hitems.flatten

theorem MembersText.flatten : ∀ {text : List Char} {members : List (List Char × Spelling)},
    MembersText text members → MembersText (lexemesOfMembers members).flatten members
  | _, _, .nil _ => by simpa [lexemesOfMembers] using MembersText.nil ws_nil
  | _, _, .cons _ _ hkey _ _ h hmembers => by
      simpa [lexemesOfMembers] using
        MembersText.cons ws_nil ws_nil hkey ws_nil ws_nil h.flatten hmembers.flatten

end

theorem JsonText.flatten {text : List Char} {value : Spelling} (h : JsonText text value) :
    JsonText (lexemes value).flatten value := by
  obtain ⟨-, hvalue, -⟩ := h
  simpa using JsonText.mk ws_nil hvalue.flatten ws_nil

/-! ### Compaction keeps the lexemes -/

theorem Stripped.word {word rest out : List Char} (hword : ∀ c ∈ word, isWord c = true)
    (h : Stripped rest out) : Stripped (word ++ rest) (word ++ out) := by
  induction word with
  | nil => exact h
  | cons c word ih =>
      obtain ⟨hspace, -, hquote⟩ := isWord_split (hword c List.mem_cons_self)
      exact .keep hspace hquote (ih fun d hd => hword d (List.mem_cons_of_mem _ hd))

/-- What is left of a text are its lexemes. -/
theorem Lexed.stripped {text : List Char} {out : List (List Char)} (h : Lexed text out) :
    Stripped text out.flatten := by
  induction h with
  | nil => exact .nil
  | space hc _ ih => exact .space hc ih
  | mark hc _ ih => exact .keep (marks_plain hc).1 (marks_plain hc).2.1 ih
  | string hbody _ ih => exact .string hbody ih
  | word _ hword _ _ ih => exact .word hword ih

/-- One step of the scanner inside a string. -/
theorem compactChars_inside {c : Char} {escaped : Bool} (hcontrol : ¬c < ' ')
    {rest out : List Char}
    (h : compactChars (!(!escaped && c == '"')) (!escaped && c == '\\') rest = .ok out) :
    compactChars true escaped (c :: rest) = .ok (c :: out) := by
  rw [compactChars, if_pos rfl, if_neg hcontrol]
  dsimp only
  rw [h]
  rfl

theorem compactChars_plain {c : Char} (hquote : c ≠ '"') (hslash : c ≠ '\\')
    (hcontrol : ¬c < ' ') {rest out : List Char} (h : compactChars true false rest = .ok out) :
    compactChars true false (c :: rest) = .ok (c :: out) := by
  refine compactChars_inside hcontrol ?_
  rwa [beq_false_of_ne hquote, beq_false_of_ne hslash]

/-- A backslash is kept with what it escapes. -/
theorem compactChars_escaped {c : Char} (hcontrol : ¬c < ' ') {rest out : List Char}
    (h : compactChars true false rest = .ok out) :
    compactChars true false ('\\' :: c :: rest) = .ok ('\\' :: c :: out) :=
  compactChars_inside (by decide) (compactChars_inside hcontrol h)

theorem hexValue_plain {c : Char} (h : (hexValue c).isSome = true) :
    c ≠ '"' ∧ c ≠ '\\' ∧ ¬c < ' ' := by
  have hquote : c ≠ '"' := by
    rintro rfl
    revert h
    decide
  have hslash : c ≠ '\\' := by
    rintro rfl
    revert h
    decide
  refine ⟨hquote, hslash, fun hcontrol => ?_⟩
  have hlt : c.toNat < 32 := hcontrol
  have hsmall : ∀ n < 32, (hexValue (Char.ofNat n)).isSome = false := by decide
  have hnone := hsmall c.toNat hlt
  rw [Char.ofNat_toNat, h] at hnone
  cases hnone

/-- The scanner is in a string from the opening quote to the closing one. -/
theorem compactChars_body {body rest out : List Char} (hbody : StringBody body)
    (h : compactChars false false rest = .ok out) :
    compactChars true false (body ++ '"' :: rest) = .ok (body ++ '"' :: out) := by
  induction hbody with
  | nil => exact compactChars_inside (by decide) h
  | plain hquote hslash hcontrol _ ih => exact compactChars_plain hquote hslash hcontrol ih
  | letter hc _ ih =>
      have hall : ∀ c ∈ ['"', '\\', '/', 'b', 'f', 'n', 'r', 't'], ¬c < ' ' := by simp
      exact compactChars_escaped (hall _ hc) ih
  | @unicode digits body hlength hdigits _ ih =>
      clear hlength
      have hkept : compactChars true false (digits ++ (body ++ '"' :: rest)) =
          .ok (digits ++ (body ++ '"' :: out)) := by
        induction digits with
        | nil => exact ih
        | cons d digits ihd =>
            obtain ⟨hquote, hslash, hcontrol⟩ := hexValue_plain (hdigits d List.mem_cons_self)
            exact compactChars_plain hquote hslash hcontrol
              (ihd fun x hx => hdigits x (List.mem_cons_of_mem _ hx))
      simpa using compactChars_escaped (by decide) hkept

theorem Stripped.compacts {text out : List Char} (h : Stripped text out) :
    compactChars false false text = .ok out := by
  induction h with
  | nil => rfl
  | space hc _ ih => rw [compactChars_space hc, ih]
  | keep hc hquote _ ih =>
      rw [compactChars_keep hc, beq_false_of_ne hquote, ih]
      rfl
  | string hbody _ ih =>
      have hkept := compactChars_body hbody ih
      simp only [quoted, List.cons_append, List.append_assoc, List.nil_append]
      rw [compactChars_keep (by decide), beq_self_eq_true, hkept]
      rfl

/-! ## The payload of a message -/

/-- What compaction relies on: a text is accepted when it is a JSON text. -/
def SerdeJson.ReadsJson (serde : SerdeJson) : Prop :=
  ∀ text, serde.accepts text = true ↔ ∃ value, JsonText text.toList value

theorem compactJson_eq_ok {serde : SerdeJson} (hserde : serde.ReadsJson) {payload : List UInt8}
    {data : String} : compactJson serde payload = .ok data ↔
      ∃ text value, fromUtf8 payload = some text ∧ JsonText text.toList value ∧
        data = String.ofList (lexemes value).flatten := by
  unfold compactJson
  cases fromUtf8 payload with
  | none => simp
  | some text =>
      dsimp only
      constructor
      · intro h
        split at h
        · next haccepts =>
            obtain ⟨value, hvalue⟩ := (hserde text).mp haccepts
            rw [hvalue.lexed.stripped.compacts] at h
            exact ⟨text, value, rfl, hvalue, (Except.ok.inj h).symm⟩
        · cases h
      · rintro ⟨_, value, htext, hvalue, rfl⟩
        obtain rfl := Option.some.inj htext
        rw [if_pos ((hserde text).mpr ⟨value, hvalue⟩), hvalue.lexed.stripped.compacts]
        rfl

/-- Compaction takes the white space outside the strings and nothing else: the lexemes of a
payload, and so its value, stay, and a second compaction changes nothing. -/
theorem compaction_keeps_lexemes (serde : SerdeJson) (hserde : serde.ReadsJson)
    (payload : List UInt8) (data : String) (h : compactJson serde payload = .ok data) :
    ∃ text value, fromUtf8 payload = some text ∧ JsonText text.toList value ∧
      Stripped text.toList data.toList ∧ OneLine data ∧
      (∀ out, Lexed text.toList out ↔ out = lexemes value) ∧
      (∀ out, Lexed data.toList out ↔ out = lexemes value) ∧
      JsonText data.toList value ∧ compactJson serde (bytes data) = .ok data := by
  obtain ⟨text, value, htext, hvalue, rfl⟩ := (compactJson_eq_ok hserde).mp h
  have hline := (compactJson_ok h).1
  have hcut : ∀ {chars : List Char}, JsonText chars value →
      ∀ out, Lexed chars out ↔ out = lexemes value := by
    intro chars hchars out
    exact ⟨fun hout => hout.unique hchars.lexed, fun hout => hout ▸ hchars.lexed⟩
  rw [String.toList_ofList]
  refine ⟨text, value, htext, hvalue, hvalue.lexed.stripped, hline, hcut hvalue,
    hcut hvalue.flatten, hvalue.flatten, ?_⟩
  refine (compactJson_eq_ok hserde).mpr ⟨_, value, fromUtf8_bytes _, ?_, rfl⟩
  rw [String.toList_ofList]
  exact hvalue.flatten

/-- The texts of the grammar, and the strings of the writer. -/
noncomputable def grammarSerde : SerdeJson where
  accepts text := open Classical in decide (∃ value, JsonText text.toList value)
  writeString := textualSerde.writeString
  writeString_control := textualSerde.writeString_control
  writeString_size := textualSerde.writeString_size

theorem grammarSerde_reads : grammarSerde.ReadsJson := fun text => by simp [grammarSerde]

/-- A spaced list with a space in its string. -/
theorem spaced_list_compacted : ∃ text value,
    fromUtf8 (bytes "[ \" \" ]") = some text ∧ JsonText text.toList value ∧
      Stripped text.toList "[\" \"]".toList ∧ OneLine "[\" \"]" ∧
      (∀ out, Lexed text.toList out ↔ out = lexemes value) ∧
      (∀ out, Lexed "[\" \"]".toList out ↔ out = lexemes value) ∧
      JsonText "[\" \"]".toList value ∧
      compactJson grammarSerde (bytes "[\" \"]") = .ok "[\" \"]" := by
  have hbody : StringBody [' '] := .plain (by decide) (by decide) (by decide) .nil
  have hws : Ws [' '] := by simp [Ws, Library.Json.isSpace]
  have htext : JsonText ("[ \" \" ]").toList (.array [.scalar (quoted [' '])]) :=
    JsonText.mk ws_nil (.array hws (.string hbody) (.nil hws)) ws_nil
  exact compaction_keeps_lexemes grammarSerde grammarSerde_reads (bytes "[ \" \" ]") "[\" \"]"
    ((compactJson_eq_ok grammarSerde_reads).mpr ⟨_, _, fromUtf8_bytes _, htext, by decide⟩)

end TokenStation.Eventstream
