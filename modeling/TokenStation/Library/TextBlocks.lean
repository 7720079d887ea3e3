import Mathlib

/-!
# Blocks of lines

A text is cut into lines at line feeds, carriage returns and pairs of both, and
its lines into blocks at the empty ones. Blocks of non-empty lines, written with
an empty line behind each, are read back.
-/

namespace TokenStation.Library.TextBlocks

/-- A text with a line feed for every line ending. -/
def unifyEndings : List Char → List Char
  | [] => []
  | '\r' :: '\n' :: rest => '\n' :: unifyEndings rest
  | '\r' :: rest => '\n' :: unifyEndings rest
  | c :: rest => c :: unifyEndings rest

def textLines (text : List Char) : List (List Char) := (unifyEndings text).splitOn '\n'

/-- The runs of non-empty lines. -/
def blocksOf (lines : List (List Char)) : List (List (List Char)) :=
  (lines.splitOn []).filter fun block => block != []

def textBlocks (text : List Char) : List (List (List Char)) := blocksOf (textLines text)

def joinLines (lines : List (List Char)) : List Char := ['\n'].intercalate lines

/-- A text that holds its lines together: no carriage return and no empty line. -/
def OneBlock (text : List Char) : Prop := '\r' ∉ text ∧ [] ∉ text.splitOn '\n'

theorem unifyEndings_eq {text : List Char} (h : '\r' ∉ text) : unifyEndings text = text := by
  fun_induction unifyEndings text with
  | case1 => rfl
  | case2 rest ih => simp at h
  | case3 rest hnext ih => simp at h
  | case4 c rest _ _ ih => rw [ih fun hc => h (List.mem_cons_of_mem _ hc)]

theorem not_mem_unifyEndings (text : List Char) : '\r' ∉ unifyEndings text := by
  fun_induction unifyEndings text with
  | case1 => simp
  | case2 rest ih => simpa using ih
  | case3 rest hnext ih => simpa using ih
  | case4 c rest _ hc ih =>
      rw [List.mem_cons, not_or]
      exact ⟨fun h => hc h.symm, ih⟩

/-- The pieces of a split do not hold what it was split at. -/
theorem not_mem_of_mem_splitOn {α : Type} [BEq α] [LawfulBEq α] {sep : α} {items piece : List α}
    (h : piece ∈ items.splitOn sep) : sep ∉ piece := by
  induction items generalizing piece with
  | nil =>
      obtain rfl : piece = [] := by simpa using h
      exact List.not_mem_nil
  | cons item items ih =>
      rw [List.splitOn_cons_eq_if_modifyHead] at h
      obtain ⟨first, pieces, hsplit⟩ := List.exists_cons_of_ne_nil (List.splitOn_ne_nil sep items)
      rw [hsplit] at h ih
      split at h
      · rcases List.mem_cons.mp h with rfl | h
        · exact List.not_mem_nil
        · exact ih h
      · rename_i hitem
        rcases List.mem_cons.mp h with rfl | h
        · rw [List.mem_cons, not_or]
          exact ⟨fun heq => hitem (by simp [heq]), ih (by simp)⟩
        · exact ih (List.mem_cons_of_mem _ h)

theorem mem_of_mem_splitOn {α : Type} [BEq α] [LawfulBEq α] {sep item : α} {items piece : List α}
    (hpiece : piece ∈ items.splitOn sep) (hitem : item ∈ piece) : item ∈ items := by
  have hflat : item ∈ [sep].intercalate (items.splitOn sep) := by
    rw [List.intercalate, List.mem_flatten]
    refine ⟨piece, ?_, hitem⟩
    obtain ⟨front, rest, hsplit⟩ := List.append_of_mem hpiece
    rw [hsplit]
    clear hsplit hpiece
    induction front with
    | nil => cases rest <;> simp
    | cons first front ih => cases front <;> simp_all
  rwa [List.intercalate_splitOn] at hflat

/-- The lines of a block are not empty and hold no line ending. -/
theorem textBlocks_lines {text : List Char} {block : List (List Char)} {line : List Char}
    (hblock : block ∈ textBlocks text) (hline : line ∈ block) :
    line ≠ [] ∧ '\r' ∉ line ∧ '\n' ∉ line := by
  have hsplit := List.mem_of_mem_filter hblock
  have hmem : line ∈ textLines text := mem_of_mem_splitOn hsplit hline
  refine ⟨?_, fun h => not_mem_unifyEndings text (mem_of_mem_splitOn hmem h),
    not_mem_of_mem_splitOn hmem⟩
  rintro rfl
  exact not_mem_of_mem_splitOn hsplit hline

theorem mem_joinLines {c : Char} {lines : List (List Char)} (h : c ∈ joinLines lines) :
    c = '\n' ∨ ∃ line ∈ lines, c ∈ line := by
  induction lines with
  | nil => simp [joinLines] at h
  | cons line lines ih =>
      cases lines with
      | nil => exact .inr ⟨line, by simp, by simpa [joinLines] using h⟩
      | cons next lines =>
          rw [joinLines, List.intercalate_cons_cons, List.append_assoc, List.mem_append] at h
          rcases h with h | h
          · exact .inr ⟨line, by simp, h⟩
          · rcases List.mem_append.mp h with h | h
            · exact .inl (List.mem_singleton.mp h)
            · obtain rfl | ⟨other, hother, hc⟩ := ih h
              · exact .inl rfl
              · exact .inr ⟨other, List.mem_cons_of_mem _ hother, hc⟩

/-- Lines joined again are one block. -/
theorem oneBlock_joinLines {lines : List (List Char)} (hne : lines ≠ [])
    (h : ∀ line ∈ lines, line ≠ [] ∧ '\r' ∉ line ∧ '\n' ∉ line) : OneBlock (joinLines lines) := by
  have hsplit : (joinLines lines).splitOn '\n' = lines :=
    List.splitOn_intercalate _ (fun line hline => (h line hline).2.2) hne
  constructor
  · intro hmem
    obtain hfeed | ⟨line, hline, hcr⟩ := mem_joinLines hmem
    · exact absurd hfeed (by decide)
    · exact (h line hline).2.1 hcr
  · rw [hsplit]
    exact fun hnil => (h [] hnil).1 rfl

/-! ## Reading what was written -/

/-- A text and an empty line behind it. -/
def closed (text : List Char) : List Char := text ++ ['\n', '\n']

theorem splitOn_closed (text rest : List Char) :
    (closed text ++ rest).splitOn '\n' = text.splitOn '\n' ++ [] :: rest.splitOn '\n' := by
  rw [closed, List.append_assoc, List.cons_append, List.splitOn_append_cons_self, List.cons_append,
    List.nil_append, ← List.nil_append ('\n' :: rest), List.splitOn_append_cons_self]
  rfl

/-- Texts of one block each are the blocks of the document that closes them. -/
theorem textBlocks_closed {texts : List (List Char)} (h : ∀ text ∈ texts, OneBlock text) :
    textBlocks (texts.flatMap closed) = texts.map fun text => text.splitOn '\n' := by
  have hcr : '\r' ∉ texts.flatMap closed := by
    simp only [List.mem_flatMap, closed, List.mem_append, not_exists, not_and]
    intro text htext hmem
    rcases hmem with hmem | hmem
    · exact (h text htext).1 hmem
    · simp at hmem
  rw [textBlocks, textLines, unifyEndings_eq hcr]
  clear hcr
  induction texts with
  | nil => rfl
  | cons text texts ih =>
      have htext := h text (by simp)
      have hblock : (text.splitOn '\n' != []) = true := by
        simp [List.splitOn_ne_nil]
      rw [List.flatMap_cons, splitOn_closed, blocksOf, List.splitOn_append_cons_self_of_not_mem
        htext.2, List.filter_cons_of_pos (by exact hblock), List.map_cons]
      exact congrArg _ (ih fun other hother => h other (List.mem_cons_of_mem _ hother))

end TokenStation.Library.TextBlocks
