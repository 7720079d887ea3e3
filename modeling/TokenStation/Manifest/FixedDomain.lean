import TokenStation.Manifest.Spelling

/-!
# The domain of a filled endpoint

Values admitted by label-safe syntaxes choose labels of the host. They leave
the last two labels alone when the literal that ends the host part holds both
of them whole.
-/

namespace TokenStation.Manifest

open Library.TextCuts

/-- The text between `https://` and the next slash. -/
def hostOf (url : List Char) : List Char :=
  (url.drop httpsMark.length).takeWhile fun c => !isSlash c

/-- The last two labels of a host, the last one first. -/
def domain (host : List Char) : List (List Char) := (host.splitOn '.').reverse.take 2

/-- Each host parameter has a value that some label-safe syntax admits. -/
def Admitted (params : List (List Char × Bool)) (value : List Char → List Char) : Prop :=
  ∀ p ∈ params, p.2 = true →
    ∃ syn : ValueSyntaxV1, syn.isLabelSafe = true ∧ syn.admits (value p.1) = true

/-- Two non-empty labels end the host of every filled endpoint. -/
def KeepsDomain (template : List Char) (params : List (List Char × Bool)) : Prop :=
  ∀ value other, Admitted params value → Admitted params other →
    ∃ filled otherFilled top second,
      fillTemplate (fun name => some (value name)) template = .ok filled ∧
      fillTemplate (fun name => some (other name)) template = .ok otherFilled ∧
      domain (hostOf filled) = [top, second] ∧ domain (hostOf otherFilled) = [top, second] ∧
      top ≠ [] ∧ second ≠ []

/-- The text of the host part after its last parameter. -/
def fixedSuffix (template : List Char) : List Char :=
  (hostOf template).rtakeWhile fun c => c != closeBrace

/-- Both labels are whole in the text after the last parameter. -/
def FixesDomain (template : List Char) : Prop :=
  (∀ label ∈ domain (fixedSuffix template), label ≠ []) ∧
    (2 ≤ (fixedSuffix template).count '.' ∨ openBrace ∉ hostOf template)

/-! ## Labels -/

/-- A text cut at its last dot. -/
theorem exists_last_dot {text : List Char} (h : '.' ∈ text) :
    ∃ front last, text = front ++ '.' :: last ∧ '.' ∉ last := by
  obtain ⟨last, front, htext, hlast⟩ := List.eq_append_cons_of_mem (List.mem_reverse.mpr h)
  refine ⟨front.reverse, last.reverse, ?_, by simpa using hlast⟩
  have hreverse := congrArg List.reverse htext
  simpa using hreverse

theorem domain_two {second top : List Char} (hsecond : '.' ∉ second) (htop : '.' ∉ top) :
    domain (second ++ '.' :: top) = [top, second] := by
  rw [domain, List.splitOn_append_cons_self_of_not_mem hsecond, List.splitOn_eq_singleton htop]
  rfl

theorem domain_more (front : List Char) {second top : List Char} (hsecond : '.' ∉ second)
    (htop : '.' ∉ top) : domain (front ++ '.' :: (second ++ '.' :: top)) = [top, second] := by
  rw [domain, List.splitOn_append_cons_self, List.splitOn_append_cons_self_of_not_mem hsecond,
    List.splitOn_eq_singleton htop, List.reverse_append]
  rfl

/-- A text that ends in no dot has a last label with the same end. -/
theorem exists_last_label {text : List Char} {c : Char} (hc : c ≠ '.') :
    ∃ label, '.' ∉ label ∧ label.getLast? = some c ∧
      (text ++ [c] = label ∨ ∃ front, text ++ [c] = front ++ '.' :: label) := by
  by_cases h : '.' ∈ text ++ [c]
  · obtain ⟨front, last, htext, hlast⟩ := exists_last_dot h
    refine ⟨last, hlast, ?_, .inr ⟨front, htext⟩⟩
    have hend := congrArg List.getLast? htext
    rw [List.getLast?_concat, List.getLast?_append_cons] at hend
    cases last with
    | nil => exact absurd (Option.some.inj hend) hc
    | cons d last => rw [hend, List.getLast?_cons_cons]
  · exact ⟨text ++ [c], h, List.getLast?_concat, .inl rfl⟩

/-- A label that goes on after a parameter. -/
theorem domain_glued {text second top : List Char} {c : Char} (hc : c ≠ '.')
    (hsecond : '.' ∉ second) (htop : '.' ∉ top) :
    ∃ label, label.getLast? = some c ∧
      domain (text ++ [c] ++ (second ++ '.' :: top)) = [top, label ++ second] := by
  obtain ⟨label, hlabel, hend, htext⟩ := @exists_last_label text _ hc
  have hglued : '.' ∉ label ++ second := by simp [hlabel, hsecond]
  refine ⟨label, hend, ?_⟩
  rcases htext with htext | ⟨front, htext⟩
  · rw [htext, ← List.append_assoc]
    exact domain_two hglued htop
  · rw [htext, List.append_assoc, List.cons_append, ← List.append_assoc label]
    exact domain_more front hglued htop

/-! ## The end of the host part -/

/-- Parts that end in a literal: it is all there is, or a parameter is before
it. -/
theorem Splits.last_literal {text : List Char} {split : List Part} (h : Splits text split)
    {suffix : List Char} (hlast : split.getLast? = some (.literal suffix)) :
    Plain suffix ∧ (split = [.literal suffix] ∨
      ∃ init name, split = init ++ [.param name, .literal suffix]) := by
  induction h with
  | @literal text hplain =>
      unfold literalPart at hlast ⊢
      split at hlast
      · cases hlast
      · cases hlast
        rename_i hne
        rw [if_neg hne]
        exact ⟨hplain, .inl rfl⟩
  | @param lead name rest later hlead hname hrest ih =>
      match later, ih, hlast with
      | [], _, hlast =>
          rw [List.getLast?_append_cons] at hlast
          cases hlast
      | part :: later, ih, hlast =>
          rw [List.getLast?_append_cons, List.getLast?_cons_cons] at hlast
          obtain ⟨hplain, hsplit⟩ := ih hlast
          refine ⟨hplain, .inr ?_⟩
          rcases hsplit with hsplit | ⟨init, last, hsplit⟩
          · exact ⟨literalPart lead, name, by rw [hsplit]⟩
          · exact ⟨literalPart lead ++ .param name :: init, last, by rw [hsplit]; simp⟩

/-- The literal that ends a host part has a dot inside. -/
theorem TemplatePieces.exists_suffix (pieces : TemplatePieces) :
    ∃ suffix, Plain suffix ∧ '.' ∈ suffix.dropWhile (· == '.') ∧
      (pieces.host = [.literal suffix] ∨
        ∃ init name, pieces.host = init ++ [.param name, .literal suffix]) := by
  have hdomain := pieces.domain
  unfold endsInDomain at hdomain
  split at hdomain
  · rename_i suffix hlast
    obtain ⟨hplain, hhost⟩ := pieces.host_splits.last_literal hlast
    simp only [Bool.and_eq_true, List.contains_iff_mem] at hdomain
    exact ⟨suffix, hplain, hdomain.1, hhost⟩
  · cases hdomain

theorem hostOf_append {host rest : List Char} (hhost : ∀ c ∈ host, isSlash c = false)
    (hrest : StopsAt isSlash rest) : hostOf (httpsMark ++ (host ++ rest)) = host := by
  rw [hostOf, List.drop_left]
  exact takeWhile_append_stop hhost hrest

theorem TemplatePieces.hostOf_template (pieces : TemplatePieces) :
    hostOf pieces.template = pieces.authority :=
  hostOf_append pieces.authority_plain pieces.path_starts

/-- What follows the last parameter. -/
theorem rtakeWhile_suffix {suffix : List Char} (hplain : Plain suffix) (front : List Char) :
    (front ++ closeBrace :: suffix).rtakeWhile (fun c => c != closeBrace) = suffix := by
  have hall : ∀ c ∈ suffix.reverse, (c != closeBrace) = true := fun c hc =>
    bne_iff_ne.mpr (hplain c (List.mem_reverse.mp hc)).2
  rw [List.rtakeWhile, List.reverse_append, List.reverse_cons, List.append_assoc,
    List.takeWhile_append_of_pos hall, List.singleton_append, List.takeWhile_cons,
    bne_self_eq_false]
  simp

theorem rtakeWhile_whole {suffix : List Char} (hplain : Plain suffix) :
    suffix.rtakeWhile (fun c => c != closeBrace) = suffix := by
  rw [List.rtakeWhile_eq_self_iff]
  exact fun c hc => bne_iff_ne.mpr (hplain c hc).2

/-! ## Filled hosts -/

section Filled

variable {split : List Part}

/-- Text spelled by slash-free parts and values has no slash. -/
theorem spell_plain {split : List Part} (hsource : ∀ c ∈ source split, isSlash c = false)
    {texts : List (List Char)} (htexts : ∀ text ∈ texts, ∀ c ∈ text, isSlash c = false) :
    ∀ c ∈ spell split texts, isSlash c = false := by
  induction split generalizing texts with
  | nil => simp [spell]
  | cons part split ih =>
      intro c hc
      cases part with
      | literal text =>
          rw [source] at hsource
          rcases List.mem_append.mp hc with hc | hc
          · exact hsource c (List.mem_append_left _ hc)
          · exact ih (fun d hd => hsource d (List.mem_append_right _ hd)) htexts c hc
      | param name =>
          rw [source] at hsource
          rcases List.mem_append.mp hc with hc | hc
          · cases texts with
            | nil => cases hc
            | cons text texts => exact htexts text List.mem_cons_self c hc
          · refine ih (fun d hd => hsource d (by simp [hd])) (fun text htext => ?_) c hc
            exact htexts text (List.mem_of_mem_tail htext)

/-- What a path spells starts like the path. -/
theorem Splits.stopsAt_spell {text : List Char} (h : Splits text split)
    (htext : StopsAt isSlash text) (texts : List (List Char)) :
    StopsAt isSlash (spell split texts) := by
  cases h with
  | literal _ =>
      have hspell := spell_literalPart text [] texts
      rw [List.append_nil] at hspell
      rw [hspell]
      intro c hc
      exact htext c (by simpa [spell] using hc)
  | @param lead name rest later _ _ _ =>
      cases lead with
      | nil => exact absurd (htext openBrace rfl) (by decide)
      | cons c lead =>
          rw [spell_literalPart]
          exact htext

end Filled

/-- The host of a filled endpoint. -/
theorem TemplatePieces.hostOf_filled (pieces : TemplatePieces) {value : List Char → List Char}
    (hvalue : Admitted pieces.params value) :
    ∃ filled, fillTemplate (fun name => some (value name)) pieces.template = .ok filled ∧
      hostOf filled = spell pieces.host ((names pieces.host).map value) := by
  refine ⟨_, pieces.fillTemplate_eq fun name _ => rfl, ?_⟩
  have hmap : pieces.params.map (fun p => shown (value p.1) p.2) =
      (names pieces.host).map value ++
        (names pieces.tail).map fun name => encodeSegment (value name) := by
    rw [params, List.map_append, List.map_map, List.map_map]
    rfl
  rw [hmap, pieces.spell_whole (List.length_map _)]
  refine hostOf_append (spell_plain ?_ ?_) (pieces.tail_splits.stopsAt_spell pieces.path_starts _)
  · rw [pieces.host_splits.source_eq]
    exact pieces.authority_plain
  · intro text htext c hc
    obtain ⟨name, hname, rfl⟩ := List.mem_map.mp htext
    obtain ⟨syn, hsafe, hadmits⟩ := hvalue (name, true)
      (List.mem_append_left _ (List.mem_map.mpr ⟨name, hname, rfl⟩)) rfl
    have hlabel := isDnsLabel_chars (ValueSyntaxV1.isDnsLabel_of_admits hsafe hadmits) c hc
    exact beq_false_of_ne (isLabelChar_ne hlabel (by decide))

/-- The last two labels of a suffix with a dot inside. -/
theorem exists_two_labels {suffix : List Char} (h : '.' ∈ suffix.dropWhile (· == '.')) :
    ∃ second top, '.' ∉ second ∧ '.' ∉ top ∧
      ((∃ front, suffix = front ++ '.' :: (second ++ '.' :: top)) ∨
        suffix = second ++ '.' :: top) := by
  have hmem : '.' ∈ suffix := (List.dropWhile_suffix _).subset h
  obtain ⟨front, top, rfl, htop⟩ := exists_last_dot hmem
  by_cases hfront : '.' ∈ front
  · obtain ⟨front, second, rfl, hsecond⟩ := exists_last_dot hfront
    exact ⟨second, top, hsecond, htop, .inl ⟨front, by simp⟩⟩
  · exact ⟨front, top, hfront, htop, .inr rfl⟩

/-- A label every parameter may have. -/
theorem admitted_const (params : List (List Char × Bool)) {label : List Char}
    (h : isDnsLabel label = true) : Admitted params fun _ => label :=
  fun _ _ _ => ValueSyntaxV1.exists_labelSafe h

section Cases

variable {pieces : TemplatePieces}

/-- Where the values leave the last two labels alone, only their text matters. -/
theorem keepsDomain_iff_of_domain {second top : List Char}
    (hdomain : ∀ texts, texts.length = (names pieces.host).length →
      domain (spell pieces.host texts) = [top, second]) :
    KeepsDomain pieces.template pieces.params ↔ top ≠ [] ∧ second ≠ [] := by
  constructor
  · intro h
    have hadmitted := @admitted_const pieces.params ['a'] (by decide)
    obtain ⟨filled, -, top', second', hfilled, -, heq, -, htop, hsecond⟩ :=
      h _ _ hadmitted hadmitted
    obtain ⟨filled', hfilled', hhost⟩ := pieces.hostOf_filled hadmitted
    rw [hfilled'] at hfilled
    cases hfilled
    rw [hhost, hdomain _ (List.length_map _)] at heq
    cases heq
    exact ⟨htop, hsecond⟩
  · rintro ⟨htop, hsecond⟩ value other hvalue hother
    obtain ⟨filled, hfilled, hhost⟩ := pieces.hostOf_filled hvalue
    obtain ⟨otherFilled, hotherFilled, hotherHost⟩ := pieces.hostOf_filled hother
    refine ⟨filled, otherFilled, top, second, hfilled, hotherFilled, ?_, ?_, htop, hsecond⟩
    · rw [hhost]
      exact hdomain _ (List.length_map _)
    · rw [hotherHost]
      exact hdomain _ (List.length_map _)

/-- A host part that is one literal. -/
theorem keepsDomain_literal {suffix : List Char} (hplain : Plain suffix)
    (hdots : '.' ∈ suffix.dropWhile (· == '.')) (hhost : pieces.host = [.literal suffix]) :
    KeepsDomain pieces.template pieces.params ↔ FixesDomain pieces.template := by
  have hauthority : pieces.authority = suffix := by
    rw [← pieces.host_splits.source_eq, hhost]
    exact List.append_nil suffix
  have hopen : openBrace ∉ suffix := fun h => (hplain openBrace h).1 rfl
  obtain ⟨second, top, hsecond, htop, hsuffix⟩ := exists_two_labels hdots
  have hdomain : domain suffix = [top, second] := by
    rcases hsuffix with ⟨front, rfl⟩ | rfl
    · exact domain_more front hsecond htop
    · exact domain_two hsecond htop
  have hspell (texts : List (List Char)) : spell pieces.host texts = suffix := by
    rw [hhost]
    exact List.append_nil suffix
  rw [keepsDomain_iff_of_domain fun texts _ => by rw [hspell]; exact hdomain, FixesDomain,
    fixedSuffix, pieces.hostOf_template, hauthority, rtakeWhile_whole hplain, hdomain]
  simp [hopen]

/-- What a host part spells up to its last parameter. -/
theorem spell_last {init : List Part} {name suffix : List Char}
    (hhost : pieces.host = init ++ [.param name, .literal suffix]) {texts : List (List Char)}
    {text : List Char} (hlength : texts.length = (names init).length) :
    spell pieces.host (texts ++ [text]) = spell init texts ++ text ++ suffix := by
  rw [hhost, spell_append _ _ _ _ hlength, List.append_assoc]
  simp [spell]

/-- One dot after the last parameter: the second label is the parameter's. -/
theorem not_keepsDomain {init : List Part} {name second top : List Char}
    (hhost : pieces.host = init ++ [.param name, .literal (second ++ '.' :: top)])
    (hsecond : '.' ∉ second) (htop : '.' ∉ top) :
    ¬ KeepsDomain pieces.template pieces.params := by
  intro h
  have hends (c : Char) (hc : c ≠ '.') (hlabel : isDnsLabel [c] = true) :
      ∃ filled label, fillTemplate (fun _ => some [c]) pieces.template = .ok filled ∧
        label.getLast? = some c ∧ domain (hostOf filled) = [top, label ++ second] := by
    obtain ⟨filled, hfilled, hfilledHost⟩ :=
      pieces.hostOf_filled (admitted_const pieces.params hlabel)
    have hnames : (names pieces.host).map (fun _ => [c]) =
        (names init).map (fun _ => [c]) ++ [[c]] := by
      rw [hhost, names_append, List.map_append]
      rfl
    rw [hnames, spell_last hhost (List.length_map _)] at hfilledHost
    obtain ⟨label, hlast, hdomain⟩ := @domain_glued
      (spell init ((names init).map fun _ => [c])) _ _ _ hc hsecond htop
    exact ⟨filled, label, hfilled, hlast, by rw [hfilledHost]; exact hdomain⟩
  obtain ⟨filled, label, hfilled, hlast, hdomain⟩ := hends 'a' (by decide) (by decide)
  obtain ⟨other, otherLabel, hother, hotherLast, hotherDomain⟩ :=
    hends 'b' (by decide) (by decide)
  obtain ⟨filled', other', top', second', hfilled', hother', heq, hotherEq, -, -⟩ :=
    h _ _ (@admitted_const pieces.params ['a'] (by decide))
      (@admitted_const pieces.params ['b'] (by decide))
  rw [hfilled] at hfilled'
  cases hfilled'
  rw [hother] at hother'
  cases hother'
  rw [hdomain] at heq
  rw [hotherDomain, ← heq] at hotherEq
  have hlabels : otherLabel ++ second = label ++ second := by simpa using hotherEq
  rw [List.append_cancel_right hlabels, hlast] at hotherLast
  exact absurd hotherLast (by decide)

/-- A host part with parameters. -/
theorem keepsDomain_param {init : List Part} {name suffix : List Char} (hplain : Plain suffix)
    (hdots : '.' ∈ suffix.dropWhile (· == '.'))
    (hhost : pieces.host = init ++ [.param name, .literal suffix]) :
    KeepsDomain pieces.template pieces.params ↔ FixesDomain pieces.template := by
  have hauthority : pieces.authority =
      (source init ++ openBrace :: name) ++ closeBrace :: suffix := by
    rw [← pieces.host_splits.source_eq, hhost, source_append]
    simp [source]
  have hopen : openBrace ∈ pieces.authority := by
    rw [hauthority]
    simp
  rw [FixesDomain, fixedSuffix, pieces.hostOf_template]
  rw [hauthority] at hopen ⊢
  rw [rtakeWhile_suffix hplain]
  obtain ⟨second, top, hsecond, htop, hsuffix⟩ := exists_two_labels hdots
  rcases hsuffix with ⟨front, rfl⟩ | rfl
  · have hdomain (texts : List (List Char)) (hlength : texts.length = (names pieces.host).length) :
        domain (spell pieces.host texts) = [top, second] := by
      have hnames : names pieces.host = names init ++ [name] := by
        rw [hhost, names_append]
        rfl
      rw [hnames, List.length_append, List.length_singleton] at hlength
      have hne : texts ≠ [] := List.ne_nil_of_length_eq_add_one hlength
      have hbefore : texts.dropLast.length = (names init).length := by
        rw [List.length_dropLast, hlength, Nat.add_sub_cancel]
      rw [← List.dropLast_append_getLast hne, spell_last hhost hbefore, ← List.append_assoc]
      exact domain_more _ hsecond htop
    rw [keepsDomain_iff_of_domain hdomain, domain_more front hsecond htop]
    have hcount : 2 ≤ (front ++ '.' :: (second ++ '.' :: top)).count '.' := by
      simp only [List.count_append, List.count_cons_self]
      omega
    rw [and_iff_left (Or.inl hcount)]
    simp
  · refine iff_of_false (not_keepsDomain hhost hsecond htop) ?_
    rintro ⟨-, hcount | hnone⟩
    · rw [List.count_append, List.count_cons_self, List.count_eq_zero_of_not_mem hsecond,
        List.count_eq_zero_of_not_mem htop] at hcount
      omega
    · exact hnone hopen

end Cases

/-- Values choose labels but not the domain exactly when the literal that ends
the host part holds two whole labels. -/
theorem keeps_domain_iff {template : List Char} {params : List (List Char × Bool)}
    (h : templateParams template = .ok params) :
    KeepsDomain template params ↔ FixesDomain template := by
  obtain ⟨pieces, rfl, rfl⟩ := exists_pieces h
  obtain ⟨suffix, hplain, hdots, hhost | ⟨init, name, hhost⟩⟩ := pieces.exists_suffix
  · exact keepsDomain_literal hplain hdots hhost
  · exact keepsDomain_param hplain hdots hhost

/-- A region in front of a whole domain. -/
def regionTemplate : List Char := "https://\x7bregion\x7d.example.com/v1".toList

theorem region_keeps_domain :
    KeepsDomain regionTemplate [("region".toList, true)] ↔ FixesDomain regionTemplate :=
  keeps_domain_iff (by decide +kernel)

/-- A region glued to the domain: each value has its own. -/
def gluedTemplate : List Char := "https://\x7bregion\x7dexample.com".toList

theorem glued_loses_domain :
    ∃ template params, templateParams template = .ok params ∧ ¬ KeepsDomain template params := by
  refine ⟨gluedTemplate, [("region".toList, true)], by decide +kernel, fun h => ?_⟩
  obtain ⟨filled, other, top, second, hfilled, hother, hdomain, hotherDomain, -⟩ :=
    h _ _ (@admitted_const _ "eu".toList (by decide))
      (@admitted_const _ "us".toList (by decide))
  have heu : fillTemplate (fun _ => some "eu".toList) gluedTemplate =
      .ok "https://euexample.com".toList := by decide +kernel
  have hus : fillTemplate (fun _ => some "us".toList) gluedTemplate =
      .ok "https://usexample.com".toList := by decide +kernel
  rw [heu] at hfilled
  cases hfilled
  rw [hus] at hother
  cases hother
  rw [← hotherDomain] at hdomain
  revert hdomain
  decide

end TokenStation.Manifest
