import TokenStation.Manifest.Template

/-!
# What a template spells

Parts spell a text when each parameter is given one. Splitting a template and
filling it agree on which parameters are in the host part.
-/

namespace TokenStation.Manifest

open Library.TextCuts

/-- The text of parts, each parameter given its own. -/
def spell : List Part → List (List Char) → List Char
  | [], _ => []
  | .literal text :: later, texts => text ++ spell later texts
  | .param _ :: later, texts => texts.headD [] ++ spell later texts.tail

/-- The template parts were split from. -/
def source : List Part → List Char
  | [] => []
  | .literal text :: later => text ++ source later
  | .param name :: later => openBrace :: (name ++ closeBrace :: source later)

/-- Parts after parts: literals that meet are one literal. -/
def joinParts : List Part → List Part → List Part
  | [], later => later
  | [.literal text], .literal more :: later => .literal (text ++ more) :: later
  | part :: parts, later => part :: joinParts parts later

/-! ## Joining -/

theorem literalPart_of_ne_nil {text : List Char} (h : text ≠ []) :
    literalPart text = [.literal text] := if_neg (by simpa using h)

theorem joinParts_param (name : List Char) (parts later : List Part) :
    joinParts (.param name :: parts) later = .param name :: joinParts parts later := by
  cases parts <;> rfl

theorem joinParts_cons_cons (part next : Part) (parts later : List Part) :
    joinParts (part :: next :: parts) later = part :: joinParts (next :: parts) later := by
  cases part <;> rfl

theorem joinParts_literalPart (lead : List Char) (name : List Char) (parts later : List Part) :
    joinParts (literalPart lead ++ .param name :: parts) later =
      literalPart lead ++ .param name :: joinParts parts later := by
  unfold literalPart
  split
  · exact joinParts_param name parts later
  · rw [List.singleton_append, joinParts_cons_cons, joinParts_param, List.singleton_append]

/-- A literal is joined to whatever literal comes first. -/
theorem joinParts_literalPart_literalPart (lead more : List Char) (later : List Part)
    (hlater : ∀ text rest, later ≠ .literal text :: rest) :
    joinParts (literalPart lead) (literalPart more ++ later) = literalPart (lead ++ more) ++ later := by
  by_cases hlead : lead = []
  · subst hlead
    rfl
  · by_cases hmore : more = []
    · subst hmore
      rw [literalPart_of_ne_nil hlead, List.append_nil, literalPart_of_ne_nil hlead]
      match later, hlater with
      | [], _ => rfl
      | .param _ :: _, _ => rfl
      | .literal text :: rest, h => exact absurd rfl (h text rest)
    · rw [literalPart_of_ne_nil hlead, literalPart_of_ne_nil hmore, literalPart_of_ne_nil (by simp [hlead])]
      rfl

/-! ## Splitting -/

/-- A text without braces. -/
def Plain (text : List Char) : Prop := ∀ c ∈ text, c ≠ openBrace ∧ c ≠ closeBrace

/-- A name a parameter may have. -/
def IsName (name : List Char) : Prop := name ≠ [] ∧ ∀ c ∈ name, isNameChar c = true

/-- A text and the parts it is split into. -/
inductive Splits : List Char → List Part → Prop
  | literal {text : List Char} (hplain : Plain text) : Splits text (literalPart text)
  | param {lead name rest : List Char} {later : List Part} (hlead : Plain lead)
      (hname : IsName name) (hrest : Splits rest later) :
      Splits (lead ++ openBrace :: (name ++ closeBrace :: rest))
        (literalPart lead ++ .param name :: later)

theorem cut_of_forall_ne {mark : Char} {text : List Char} (h : ∀ c ∈ text, c ≠ mark) :
    text.takeWhile (· != mark) = text ∧ text.dropWhile (· != mark) = [] := by
  rw [List.takeWhile_eq_self_iff, List.dropWhile_eq_nil_iff]
  exact ⟨fun c hc => bne_iff_ne.mpr (h c hc), fun c hc => bne_iff_ne.mpr (h c hc)⟩

theorem cut_at {mark : Char} {front : List Char} (h : ∀ c ∈ front, c ≠ mark) (rest : List Char) :
    (front ++ mark :: rest).takeWhile (· != mark) = front ∧
      (front ++ mark :: rest).dropWhile (· != mark) = mark :: rest := by
  have hfront : ∀ c ∈ front, (c != mark) = true := fun c hc => bne_iff_ne.mpr (h c hc)
  rw [List.takeWhile_append_of_pos hfront, List.dropWhile_append_of_pos hfront,
    List.takeWhile_cons, List.dropWhile_cons, bne_self_eq_false]
  exact ⟨List.append_nil front, rfl⟩

/-- A cut text is its front, the mark and the rest. -/
theorem eq_of_cut {mark c : Char} {text rest : List Char}
    (h : text.dropWhile (· != mark) = c :: rest) :
    text = text.takeWhile (· != mark) ++ mark :: rest ∧
      ∀ d ∈ text.takeWhile (· != mark), d ≠ mark := by
  have hc : c = mark := by
    have hhead := List.head?_dropWhile_not (· != mark) text
    rw [h] at hhead
    simpa using hhead
  constructor
  · conv_lhs => rw [← List.takeWhile_append_dropWhile (p := (· != mark)) (l := text), h, hc]
  · intro d hd
    have hd := List.mem_takeWhile_imp hd
    exact bne_iff_ne.mp hd

theorem IsName.ne_closeBrace {name : List Char} (h : IsName name) :
    ∀ c ∈ name, c ≠ closeBrace := by
  rintro c hc rfl
  cases h.2 closeBrace hc

theorem parts_literal {text : List Char} (h : Plain text) : parts text = some (literalPart text) := by
  obtain ⟨htake, hdrop⟩ := cut_of_forall_ne fun c hc => (h c hc).1
  rw [parts.eq_def]
  dsimp only
  split
  · rw [htake, if_neg fun hclose => (h closeBrace hclose).2 rfl]
  · rename_i heq
    rw [hdrop] at heq
    cases heq

theorem parts_param {lead name : List Char} (hlead : Plain lead) (hname : IsName name)
    (rest : List Char) :
    parts (lead ++ openBrace :: (name ++ closeBrace :: rest)) =
      (parts rest).map fun later => literalPart lead ++ .param name :: later := by
  obtain ⟨htake, hdrop⟩ := cut_at (fun c hc => (hlead c hc).1) (name ++ closeBrace :: rest)
  obtain ⟨htakeName, hdropName⟩ := cut_at hname.ne_closeBrace rest
  rw [parts.eq_def]
  dsimp only
  split
  · rename_i heq
    rw [hdrop] at heq
    cases heq
  · rename_i heq
    rw [hdrop] at heq
    cases heq
    rw [htake, if_neg fun hclose => (hlead closeBrace hclose).2 rfl]
    split
    · rename_i heq
      rw [hdropName] at heq
      cases heq
    · rename_i heq
      rw [hdropName] at heq
      cases heq
      rw [htakeName, if_neg]
      simp only [Bool.or_eq_true, List.isEmpty_iff, Bool.not_eq_true', not_or]
      refine ⟨hname.1, ?_⟩
      rw [List.all_eq_true.mpr hname.2]
      exact Bool.true_eq_false_eq_False

/-- What the splitter gives, and when. -/
theorem splits_of_parts {text : List Char} {split : List Part} (h : parts text = some split) :
    Splits text split := by
  induction hlength : text.length using Nat.strong_induction_on generalizing text split with
  | _ n ih =>
      rw [parts.eq_def] at h
      dsimp only at h
      split at h
      · rename_i hdrop
        have hall : ∀ c ∈ text, c ≠ openBrace := by
          rw [List.dropWhile_eq_nil_iff] at hdrop
          exact fun c hc => bne_iff_ne.mp (hdrop c hc)
        rw [(cut_of_forall_ne hall).1] at h
        split at h
        · cases h
        · rename_i hclose
          cases h
          exact .literal fun c hc => ⟨hall c hc, fun heq => hclose (heq ▸ hc)⟩
      · rename_i inner hdrop
        obtain ⟨htext, hlead⟩ := eq_of_cut hdrop
        split at h
        · cases h
        · rename_i hclose
          split at h
          · cases h
          · rename_i rest hdropName
            obtain ⟨hinner, -⟩ := eq_of_cut hdropName
            split at h
            · cases h
            · rename_i hname
              simp only [Bool.or_eq_true, List.isEmpty_iff, Bool.not_eq_true', not_or,
                Bool.not_eq_false, List.all_eq_true] at hname
              obtain ⟨later, hlater, rfl⟩ := Option.map_eq_some_iff.mp h
              have hshort : rest.length < n := by
                rw [← hlength, htext, hinner]
                simp only [List.length_append, List.length_cons]
                omega
              have hsplits := Splits.param
                (fun c hc => ⟨hlead c hc, fun heq => hclose (heq ▸ hc)⟩) hname
                (ih rest.length hshort hlater rfl)
              rwa [← hinner, ← htext] at hsplits

theorem Splits.parts_eq {text : List Char} {split : List Part} (h : Splits text split) :
    parts text = some split := by
  induction h with
  | literal hplain => exact parts_literal hplain
  | param hlead hname _ ih => rw [parts_param hlead hname, ih, Option.map_some]

theorem parts_eq_some_iff {text : List Char} {split : List Part} :
    parts text = some split ↔ Splits text split := ⟨splits_of_parts, Splits.parts_eq⟩

theorem names_literalPart (text : List Char) : names (literalPart text) = [] := by
  unfold literalPart
  split <;> rfl

theorem names_literalPart_append (text : List Char) (later : List Part) :
    names (literalPart text ++ later) = names later := by
  rw [names, List.filterMap_append]
  exact congrArg (· ++ _) (names_literalPart text)

theorem names_param (name : List Char) (later : List Part) :
    names (.param name :: later) = name :: names later := rfl

theorem spell_literalPart (text : List Char) (later : List Part) (texts : List (List Char)) :
    spell (literalPart text ++ later) texts = text ++ spell later texts := by
  by_cases h : text = []
  · subst h
    rfl
  · rw [literalPart_of_ne_nil h]
    rfl

theorem source_literalPart (text : List Char) (later : List Part) :
    source (literalPart text ++ later) = text ++ source later := by
  by_cases h : text = []
  · subst h
    rfl
  · rw [literalPart_of_ne_nil h]
    rfl

/-- Parts say which template they were split from. -/
theorem Splits.source_eq {text : List Char} {split : List Part} (h : Splits text split) :
    source split = text := by
  induction h with
  | @literal text _ =>
      have hsource := source_literalPart text []
      rw [List.append_nil] at hsource
      rw [hsource]
      exact List.append_nil text
  | @param lead name rest later _ _ _ ih =>
      rw [source_literalPart]
      change lead ++ openBrace :: (name ++ closeBrace :: source later) = _
      rw [ih]

theorem Plain.append {text more : List Char} (h : Plain text) (hmore : Plain more) :
    Plain (text ++ more) := by
  intro c hc
  rcases List.mem_append.mp hc with hc | hc
  · exact h c hc
  · exact hmore c hc

/-- A text after literal text. -/
theorem Splits.lead {text more : List Char} {later : List Part} (htext : Plain text)
    (h : Splits more later) : Splits (text ++ more) (joinParts (literalPart text) later) := by
  cases h with
  | @literal more hmore =>
      have hjoin := joinParts_literalPart_literalPart text more [] (by simp)
      rw [List.append_nil, List.append_nil] at hjoin
      rw [hjoin]
      exact .literal (htext.append hmore)
  | @param lead name rest later hlead hname hrest =>
      rw [joinParts_literalPart_literalPart _ _ _ (by simp), ← List.append_assoc]
      exact .param (htext.append hlead) hname hrest

/-- Splitting goes text by text. -/
theorem Splits.append {text more : List Char} {split later : List Part} (h : Splits text split)
    (hmore : Splits more later) : Splits (text ++ more) (joinParts split later) := by
  induction h with
  | literal hplain => exact hmore.lead hplain
  | param hlead hname _ ih =>
      rw [joinParts_literalPart, List.append_assoc, List.cons_append, List.append_assoc,
        List.cons_append]
      exact .param hlead hname ih

/-! ## Spelling joined parts -/

theorem names_joinParts (split later : List Part) :
    names (joinParts split later) = names split ++ names later := by
  induction split, later using joinParts.induct with
  | case1 later => rfl
  | case2 text more later => rfl
  | case3 part split later hliteral ih =>
      rw [joinParts.eq_3 _ _ _ hliteral]
      cases part with
      | literal text => exact ih
      | param name => exact congrArg (name :: ·) ih

theorem spell_joinParts (split later : List Part) (texts more : List (List Char))
    (hlength : texts.length = (names split).length) :
    spell (joinParts split later) (texts ++ more) = spell split texts ++ spell later more := by
  induction split, later using joinParts.induct generalizing texts with
  | case1 later =>
      obtain rfl := List.length_eq_zero_iff.mp hlength
      rfl
  | case2 text also later =>
      obtain rfl := List.length_eq_zero_iff.mp hlength
      simp [joinParts, spell]
  | case3 part split later hliteral ih =>
      rw [joinParts.eq_3 _ _ _ hliteral]
      cases part with
      | literal text =>
          rw [spell, spell, ih texts hlength, List.append_assoc]
      | param name =>
          match texts, hlength with
          | text :: texts, hlength =>
              rw [List.cons_append, spell, spell, List.tail_cons, List.tail_cons,
                ih texts (Nat.succ.inj hlength), List.headD_cons, List.headD_cons,
                List.append_assoc]

theorem source_append (split later : List Part) :
    source (split ++ later) = source split ++ source later := by
  induction split with
  | nil => rfl
  | cons part split ih => cases part <;> simp [source, ih]

theorem names_append (split later : List Part) :
    names (split ++ later) = names split ++ names later := List.filterMap_append

theorem spell_append (split later : List Part) (texts more : List (List Char))
    (hlength : texts.length = (names split).length) :
    spell (split ++ later) (texts ++ more) = spell split texts ++ spell later more := by
  induction split generalizing texts with
  | nil =>
      obtain rfl := List.length_eq_zero_iff.mp hlength
      rfl
  | cons part split ih =>
      cases part with
      | literal text => simp [spell, ih texts hlength]
      | param name =>
          match texts, hlength with
          | text :: texts, hlength => simp [spell, ih texts (Nat.succ.inj hlength)]

/-! ## Filling -/

section Filling

variable {value : List Char → Option (List Char)} {hostEnd : Nat}

theorem fillFrom_joinParts (split later : List Part) (offset : Nat) (filled : List Char) :
    fillFrom value hostEnd offset filled (joinParts split later) =
      fillFrom value hostEnd offset filled split >>= fun filled =>
        fillFrom value hostEnd (offset + utf8Len (source split)) filled later := by
  induction split, later using joinParts.induct generalizing offset filled with
  | case1 later => rfl
  | case2 text also later =>
      simp only [joinParts, fillFrom, source, List.append_nil, utf8Len_append]
      rw [← Nat.add_assoc, ← List.append_assoc]
      rfl
  | case3 part split later hliteral ih =>
      rw [joinParts.eq_3 _ _ _ hliteral]
      cases part with
      | literal text =>
          rw [fillFrom, fillFrom, ih, source, utf8Len_append, Nat.add_assoc]
      | param name =>
          rw [fillFrom, fillFrom]
          cases value name with
          | none => rfl
          | some text =>
              dsimp only
              have hbraces : openBrace.utf8Size + (utf8Len name + (closeBrace.utf8Size +
                  utf8Len (source split))) = utf8Len name + 2 + utf8Len (source split) := by
                have hopen : openBrace.utf8Size = 1 := rfl
                have hclose : closeBrace.utf8Size = 1 := rfl
                omega
              rw [ih, source, utf8Len_cons, utf8Len_append, utf8Len_cons, hbraces, Nat.add_assoc]

/-- Up to the end of the host part, values stand as they are. -/
theorem fillFrom_host {split : List Part} {given : List Char → List Char}
    (hvalue : ∀ name ∈ names split, value name = some (given name)) {offset : Nat}
    (hend : offset + utf8Len (source split) ≤ hostEnd) (filled : List Char) :
    fillFrom value hostEnd offset filled split =
      .ok (filled ++ spell split ((names split).map given)) := by
  induction split generalizing offset filled with
  | nil => rw [fillFrom, spell, List.append_nil]
  | cons part split ih =>
      cases part with
      | literal text =>
          rw [source, utf8Len_append] at hend
          rw [fillFrom, ih hvalue (by omega), spell, List.append_assoc]
          rfl
      | param name =>
          rw [source, utf8Len_cons, utf8Len_append, utf8Len_cons] at hend
          have hopen : openBrace.utf8Size = 1 := rfl
          have hclose : closeBrace.utf8Size = 1 := rfl
          have hlater := fun n hn => hvalue n (List.mem_cons_of_mem _ hn)
          rw [fillFrom, hvalue name List.mem_cons_self]
          dsimp only
          rw [if_pos (by omega), ih hlater (by omega), names_param, List.map_cons, spell,
            List.append_assoc]
          rfl

/-- From the end of the host part on, values are encoded. -/
theorem fillFrom_path {split : List Part} {given : List Char → List Char}
    (hvalue : ∀ name ∈ names split, value name = some (given name)) {offset : Nat}
    (hend : hostEnd ≤ offset) (filled : List Char) :
    fillFrom value hostEnd offset filled split =
      .ok (filled ++ spell split ((names split).map fun name => encodeSegment (given name))) := by
  induction split generalizing offset filled with
  | nil => rw [fillFrom, spell, List.append_nil]
  | cons part split ih =>
      cases part with
      | literal text =>
          rw [fillFrom, ih hvalue (by omega), spell, List.append_assoc]
          rfl
      | param name =>
          have hlater := fun n hn => hvalue n (List.mem_cons_of_mem _ hn)
          rw [fillFrom, hvalue name List.mem_cons_self]
          dsimp only
          rw [if_neg (by omega), ih hlater (by omega), names_param, List.map_cons, spell,
            List.append_assoc]
          rfl

end Filling

/-! ## Templates -/

/-- The pieces of an accepted template. -/
structure TemplatePieces where
  authority : List Char
  path : List Char
  host : List Part
  tail : List Part
  authority_plain : ∀ c ∈ authority, isSlash c = false
  path_starts : StopsAt isSlash path
  host_splits : Splits authority host
  tail_splits : Splits path tail
  domain : endsInDomain host = true
  chars : ∀ c ∈ authority ++ path, isTemplateChar c = true

namespace TemplatePieces

def template (pieces : TemplatePieces) : List Char :=
  httpsMark ++ (pieces.authority ++ pieces.path)

def params (pieces : TemplatePieces) : List (List Char × Bool) :=
  (names pieces.host).map (·, true) ++ (names pieces.tail).map (·, false)

/-- The parts of the whole template. -/
def whole (pieces : TemplatePieces) : List Part :=
  joinParts (literalPart httpsMark) (joinParts pieces.host pieces.tail)

end TemplatePieces

theorem templateRest_eq_some {template rest : List Char} (h : templateRest template = some rest) :
    template = httpsMark ++ rest ∧ ∀ c ∈ rest, isTemplateChar c = true := by
  unfold templateRest at h
  split at h
  · rename_i found hdrop
    split at h
    · rename_i hall
      cases h
      obtain ⟨mark, htemplate, hmark⟩ := List.dropPrefix?_eq_some_iff.mp hdrop
      rw [eq_of_beq hmark] at htemplate
      exact ⟨htemplate, List.all_eq_true.mp hall.2⟩
    · cases h
  · cases h

theorem exists_pieces {template : List Char} {params : List (List Char × Bool)}
    (h : templateParams template = .ok params) :
    ∃ pieces : TemplatePieces, template = pieces.template ∧ params = pieces.params := by
  unfold templateParams at h
  split at h
  · cases h
  · rename_i rest hrest
    split at h
    · cases h
    · rename_i host hhost
      split at h
      · cases h
      · rename_i tail htail
        split at h
        · rename_i hdomain
          cases h
          obtain ⟨htemplate, hchars⟩ := templateRest_eq_some hrest
          have hcut := takeWhile_append_dropWhile_not isSlash rest
          exact ⟨{
            authority := rest.takeWhile fun c => !isSlash c
            path := rest.dropWhile fun c => !isSlash c
            host := host
            tail := tail
            authority_plain := mem_takeWhile_not
            path_starts := stopsAt_dropWhile isSlash rest
            host_splits := splits_of_parts hhost
            tail_splits := splits_of_parts htail
            domain := hdomain
            chars := by rw [hcut]; exact hchars },
            by rw [TemplatePieces.template, hcut]; exact htemplate, rfl⟩
        · cases h

theorem httpsMark_plain : Plain httpsMark := by
  intro c hc
  simp only [httpsMark, List.mem_cons, List.not_mem_nil, or_false] at hc
  rcases hc with rfl | rfl | rfl | rfl | rfl | rfl | rfl | rfl <;> decide

/-- How a value stands at a place of the template. -/
def shown (value : List Char) (inHost : Bool) : List Char :=
  if inHost then value else encodeSegment value

namespace TemplatePieces

variable (pieces : TemplatePieces)

theorem parts_eq : parts pieces.template = some pieces.whole := by
  rw [parts_eq_some_iff]
  exact (pieces.host_splits.append pieces.tail_splits).lead httpsMark_plain

theorem names_whole : names pieces.whole = names pieces.host ++ names pieces.tail := by
  rw [whole, names_joinParts, names_joinParts, names_literalPart, List.nil_append]

theorem names_params : pieces.params.map Prod.fst = names pieces.whole := by
  rw [names_whole, params, List.map_append, List.map_map, List.map_map]
  exact congrArg₂ _ (List.map_id _) (List.map_id _)

/-- What one text per parameter spells. -/
theorem spell_whole {texts more : List (List Char)}
    (hlength : texts.length = (names pieces.host).length) :
    spell pieces.whole (texts ++ more) =
      httpsMark ++ (spell pieces.host texts ++ spell pieces.tail more) := by
  have hmark : spell (literalPart httpsMark) [] = httpsMark := rfl
  have hjoin := spell_joinParts (literalPart httpsMark) (joinParts pieces.host pieces.tail) []
    (texts ++ more) (by rw [names_literalPart])
  rw [List.nil_append, hmark, spell_joinParts _ _ _ _ hlength] at hjoin
  exact hjoin

theorem authorityEnd_eq : authorityEnd pieces.template = 8 + utf8Len pieces.authority := by
  have hrest : pieces.template.drop httpsMark.length = pieces.authority ++ pieces.path :=
    List.drop_left
  rw [authorityEnd, hrest, takeWhile_append_stop pieces.authority_plain pieces.path_starts]
  rfl

/-- A filled template spells its values, those of the path encoded. -/
theorem fillTemplate_eq {value : List Char → Option (List Char)}
    {given : List Char → List Char}
    (hvalue : ∀ name ∈ pieces.params.map Prod.fst, value name = some (given name)) :
    fillTemplate value pieces.template =
      .ok (spell pieces.whole (pieces.params.map fun p => shown (given p.1) p.2)) := by
  rw [names_params, names_whole] at hvalue
  have hhost := fun name h => hvalue name (List.mem_append_left _ h)
  have htail := fun name h => hvalue name (List.mem_append_right _ h)
  have hsource := pieces.host_splits.source_eq
  have hmap : pieces.params.map (fun p => shown (given p.1) p.2) =
      (names pieces.host).map given ++
        (names pieces.tail).map fun name => encodeSegment (given name) := by
    rw [params, List.map_append, List.map_map, List.map_map]
    rfl
  have hmark : fillFrom value (authorityEnd pieces.template) 0 [] (literalPart httpsMark) =
      .ok httpsMark := rfl
  have hend := pieces.authorityEnd_eq
  rw [fillTemplate, pieces.parts_eq, Option.getD_some, whole, fillFrom_joinParts, hmark]
  change fillFrom value (authorityEnd pieces.template) (0 + 8) httpsMark
    (joinParts pieces.host pieces.tail) = _
  rw [fillFrom_joinParts, fillFrom_host hhost (by rw [hsource]; omega)]
  change fillFrom value (authorityEnd pieces.template) _ _ pieces.tail = _
  rw [fillFrom_path htail (by rw [hsource]; omega), ← whole, hmap,
    pieces.spell_whole (List.length_map _), List.append_assoc]

end TemplatePieces

end TokenStation.Manifest
