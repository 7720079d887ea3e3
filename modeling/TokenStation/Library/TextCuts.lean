import Mathlib

/-!
# Cutting texts

Where a text is cut at the first place of a mark, or at the first character of
a kind.
-/

namespace TokenStation.Library.TextCuts

/-- The bytes of a text. -/
def utf8Len (text : List Char) : Nat := (text.map Char.utf8Size).sum

@[simp] theorem utf8Len_nil : utf8Len [] = 0 := rfl

@[simp] theorem utf8Len_cons (c : Char) (text : List Char) :
    utf8Len (c :: text) = c.utf8Size + utf8Len text := rfl

@[simp] theorem utf8Len_append (text more : List Char) :
    utf8Len (text ++ more) = utf8Len text + utf8Len more := by
  rw [utf8Len, List.map_append, List.sum_append]
  rfl

theorem length_le_utf8Len (text : List Char) : text.length ≤ utf8Len text := by
  induction text with
  | nil => exact Nat.le_refl 0
  | cons c text ih =>
      have hc := Char.utf8Size_pos c
      rw [utf8Len_cons, List.length_cons]
      omega

def isSlash (c : Char) : Bool := c == '/'

theorem dropInfix?_eq {text mark front rest : List Char}
    (h : text.dropInfix? mark = some (front, rest)) : text = front ++ mark ++ rest := by
  obtain ⟨⟨mark', rfl, hmark⟩, -⟩ := List.dropInfix?_eq_some_iff.mp h
  rw [eq_of_beq hmark]

/-- The first place of a mark depends on nothing after it. -/
theorem dropInfix?_replace {text mark front rest : List Char}
    (h : text.dropInfix? mark = some (front, rest)) (other : List Char) :
    (front ++ mark ++ other).dropInfix? mark = some (front, other) := by
  obtain rfl := dropInfix?_eq h
  obtain ⟨-, hfirst⟩ := List.dropInfix?_eq_some_iff.mp h
  refine List.dropInfix?_eq_some_iff.mpr ⟨⟨mark, rfl, beq_self_eq_true mark⟩, ?_⟩
  intro earlier mark' later heq hmark
  obtain rfl := eq_of_beq hmark
  by_contra hshort
  have hfront : earlier ++ mark' <+: front ++ mark' := by
    have hwhole : earlier ++ mark' <+: front ++ mark' ++ other := ⟨later, heq.symm⟩
    refine List.prefix_of_prefix_length_le hwhole ⟨other, rfl⟩ ?_
    rw [List.length_append, List.length_append]
    omega
  obtain ⟨between, hbetween⟩ := hfront
  refine hshort (hfirst earlier mark' (between ++ rest) ?_ hmark)
  rw [← hbetween]
  simp only [List.append_assoc]

theorem dropSuffix?_eq {text suffix stem : List Char}
    (h : text.dropSuffix? suffix = some stem) : text = stem ++ suffix := by
  obtain ⟨suffix', rfl, hsuffix⟩ := List.dropSuffix?_eq_some_iff.mp h
  rw [eq_of_beq hsuffix]

/-! ## Cuts at a kind of character -/

/-- A text that ends, or goes on with a character of the kind. -/
def StopsAt (p : Char → Bool) (text : List Char) : Prop := ∀ c ∈ text.head?, p c = true

theorem takeWhile_append_stop {p : Char → Bool} {front rest : List Char}
    (hfront : ∀ c ∈ front, p c = false) (hrest : StopsAt p rest) :
    (front ++ rest).takeWhile (fun c => !p c) = front := by
  rw [List.takeWhile_append_of_pos fun c hc => by rw [hfront c hc]; rfl]
  cases rest with
  | nil => exact List.append_nil front
  | cons c rest => rw [List.takeWhile_cons, hrest c rfl]; exact List.append_nil front

theorem dropWhile_append_stop {p : Char → Bool} {front rest : List Char}
    (hfront : ∀ c ∈ front, p c = false) (hrest : StopsAt p rest) :
    (front ++ rest).dropWhile (fun c => !p c) = rest := by
  rw [List.dropWhile_append_of_pos fun c hc => by rw [hfront c hc]; rfl]
  cases rest with
  | nil => rfl
  | cons c rest => rw [List.dropWhile_cons, hrest c rfl]; rfl

theorem mem_takeWhile_not {p : Char → Bool} {text : List Char} :
    ∀ c ∈ text.takeWhile (fun c => !p c), p c = false := by
  intro c hc
  simpa using List.mem_takeWhile_imp hc

theorem stopsAt_dropWhile (p : Char → Bool) (text : List Char) :
    StopsAt p (text.dropWhile fun c => !p c) := by
  intro c hc
  have h := List.head?_dropWhile_not (fun c => !p c) text
  rw [Option.mem_def] at hc
  rw [hc] at h
  simpa using h

/-- What is kept and what is cut off. -/
theorem takeWhile_append_dropWhile_not (p : Char → Bool) (text : List Char) :
    text.takeWhile (fun c => !p c) ++ text.dropWhile (fun c => !p c) = text :=
  List.takeWhile_append_dropWhile

end TokenStation.Library.TextCuts
