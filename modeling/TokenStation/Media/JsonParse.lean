import TokenStation.Media.JsonStrings

/-!
# The parser accepts its grammar

A document is accepted exactly when the grammar derives it within the nesting bound, and
the tree is the one the grammar names. The compact text of a tree is again a document of
that tree, so writing and reading settle after one round.
-/

namespace TokenStation.Media.Json

open Library.Checked
open Library.Json (skip isSpace skip_cons)

theorem orNotJson_eq_ok {α : Type} {value : Option α} {a : α} :
    orNotJson value = .ok a ↔ value = some a := by
  cases value <;> simp [orNotJson]

/-! ## Whitespace and keys -/

theorem skip_eq (text : List Char) : ∃ ws, Ws ws ∧ text = ws ++ skip text :=
  ⟨text.takeWhile isSpace, fun _ hc => List.mem_takeWhile_imp hc,
    List.takeWhile_append_dropWhile.symm⟩

theorem skip_append {ws : List Char} (hws : Ws ws) {c : Char} (hc : isSpace c = false)
    (rest : List Char) : skip (ws ++ c :: rest) = c :: rest := by
  rw [skip, List.dropWhile_append_of_pos hws, ← skip, skip_cons hc]

theorem readKey_sound {text rest : List Char} {key : JsonString}
    (h : readKey text = some (key, rest)) :
    ∃ before after, key.Spelled ∧ Ws before ∧ Ws after ∧
      text = key.quoted ++ (before ++ ':' :: (after ++ rest)) := by
  unfold readKey at h
  split at h
  · obtain ⟨⟨s, left⟩, hstring, hafter⟩ := Option.bind_eq_some_iff.mp h
    obtain ⟨hs, rfl⟩ := readString_eq_some.mp hstring
    dsimp only at hafter
    clear h
    split at hafter
    · rename_i tail hcolon
      obtain ⟨rfl, rfl⟩ := Prod.mk.inj (Option.some.inj hafter)
      obtain ⟨before, hbefore, hleft⟩ := skip_eq left
      obtain ⟨after, hspace, htail⟩ := skip_eq tail
      refine ⟨before, after, hs, hbefore, hspace, ?_⟩
      rw [← htail, ← hcolon, ← hleft, JsonString.quoted]
      simp
    · cases hafter
  · cases h

theorem readKey_complete {key : JsonString} (hkey : key.Spelled) {before after : List Char}
    (hbefore : Ws before) (hafter : Ws after) {c : Char} (hc : isSpace c = false)
    (rest : List Char) :
    readKey (key.quoted ++ (before ++ ':' :: (after ++ c :: rest))) = some (key, c :: rest) := by
  have hsplit : key.quoted ++ (before ++ ':' :: (after ++ c :: rest)) =
      '"' :: (key.raw.toList ++ '"' :: (before ++ ':' :: (after ++ c :: rest))) := by
    simp [JsonString.quoted]
  have hread := readString_eq_some.mpr
    ⟨hkey, Eq.refl (key.raw.toList ++ '"' :: (before ++ ':' :: (after ++ c :: rest)))⟩
  have hcolon : skip (before ++ ':' :: (after ++ c :: rest)) = ':' :: (after ++ c :: rest) :=
    skip_append hbefore (by decide) _
  rw [hsplit, readKey, hread]
  simp only [Option.bind_eq_bind, Option.bind_some, hcolon, skip_append hafter hc]

/-! ## What is accepted -/

theorem skip_head_eq {text : List Char} {c : Char} (h : (skip text).head? = some c) :
    ∃ ws, Ws ws ∧ text = ws ++ c :: (skip text).tail := by
  obtain ⟨ws, hws, htext⟩ := skip_eq text
  refine ⟨ws, hws, ?_⟩
  rw [List.head?_eq_some_iff] at h
  obtain ⟨tail, htail⟩ := h
  rw [htail] at htext ⊢
  exact htext

mutual

theorem readValue_sound (limit : Nat) : ∀ (fuel depth : Nat) (text rest : List Char) (node : Node),
    readValue limit fuel depth text = .ok (node, rest) →
    ∃ part, ValueText (limit - depth) part node ∧ text = part ++ rest
  | 0, _, _, _, _, h => by cases h
  | fuel + 1, depth, text, rest, node, h => by
      rw [readValue.eq_def] at h
      dsimp only at h
      split at h
      · split at h
        · cases h
        · rename_i tail hdepth
          have hlevel : limit - depth = (limit - (depth + 1)) + 1 := by omega
          rw [hlevel]
          split at h
          · rename_i hclose
            obtain ⟨rfl, rfl⟩ := Prod.mk.inj (Except.ok.inj h)
            obtain ⟨ws, hws, htail⟩ := skip_head_eq hclose
            refine ⟨_, .emptyObject hws, ?_⟩
            conv_lhs => rw [htail]
            simp
          · simp only [bind_eq_ok, Except.ok.injEq, Prod.mk.injEq] at h
            obtain ⟨⟨key, afterKey⟩, hkey, ⟨value, afterValue⟩, hvalue, ⟨members, left⟩, hmembers,
              rfl, rfl⟩ := h
            obtain ⟨before, after, hspelled, hbefore, hafter, hskip⟩ :=
              readKey_sound (orNotJson_eq_ok.mp hkey)
            obtain ⟨part, hpart, rfl⟩ := readValue_sound limit fuel _ _ _ _ hvalue
            obtain ⟨more, hmore, rfl⟩ := readMembers_sound limit fuel _ _ _ _ hmembers
            obtain ⟨ws, hws, htail⟩ := skip_eq tail
            refine ⟨_, .object hws hspelled hbefore hafter hpart hmore, ?_⟩
            rw [htail, hskip]
            simp
      · split at h
        · cases h
        · rename_i tail hdepth
          have hlevel : limit - depth = (limit - (depth + 1)) + 1 := by omega
          rw [hlevel]
          split at h
          · rename_i hclose
            obtain ⟨rfl, rfl⟩ := Prod.mk.inj (Except.ok.inj h)
            obtain ⟨ws, hws, htail⟩ := skip_head_eq hclose
            refine ⟨_, .emptyArray hws, ?_⟩
            conv_lhs => rw [htail]
            simp
          · simp only [bind_eq_ok, Except.ok.injEq, Prod.mk.injEq] at h
            obtain ⟨⟨value, afterValue⟩, hvalue, ⟨items, left⟩, hitems, rfl, rfl⟩ := h
            obtain ⟨part, hpart, hskip⟩ := readValue_sound limit fuel _ _ _ _ hvalue
            obtain ⟨more, hmore, rfl⟩ := readItems_sound limit fuel _ _ _ _ hitems
            obtain ⟨ws, hws, htail⟩ := skip_eq tail
            refine ⟨_, .array hws hpart hmore, ?_⟩
            rw [htail, hskip]
            simp
      · obtain ⟨⟨s, left⟩, hstring, hpair⟩ := map_eq_ok.mp h
        obtain ⟨rfl, rfl⟩ := Prod.mk.inj hpair
        obtain ⟨hs, rfl⟩ := readString_eq_some.mp (orNotJson_eq_ok.mp hstring)
        exact ⟨_, .string hs, by simp [JsonString.quoted]⟩
      · obtain ⟨rfl, rfl⟩ := Prod.mk.inj (Except.ok.inj h)
        exact ⟨_, .literal (by decide), by simp⟩
      · obtain ⟨rfl, rfl⟩ := Prod.mk.inj (Except.ok.inj h)
        exact ⟨_, .literal (by decide), by simp⟩
      · obtain ⟨rfl, rfl⟩ := Prod.mk.inj (Except.ok.inj h)
        exact ⟨_, .literal (by decide), by simp⟩
      · obtain ⟨left, hnumber, hpair⟩ := Option.map_eq_some_iff.mp (orNotJson_eq_ok.mp h)
        obtain ⟨rfl, rfl⟩ := Prod.mk.inj hpair
        obtain ⟨part, hpart, rfl⟩ := number_sound hnumber
        rw [consumed_append]
        exact ⟨part, .number hpart, rfl⟩

theorem readItems_sound (limit : Nat) :
    ∀ (fuel depth : Nat) (text rest : List Char) (items : List Node),
    readItems limit fuel depth text = .ok (items, rest) →
    ∃ part, ItemsText (limit - depth) part items ∧ text = part ++ rest
  | 0, _, _, _, _, h => by cases h
  | fuel + 1, depth, text, rest, items, h => by
      obtain ⟨ws, hws, htext⟩ := skip_eq text
      rw [readItems] at h
      split at h
      · rename_i hclose
        obtain ⟨rfl, rfl⟩ := Prod.mk.inj (Except.ok.inj h)
        refine ⟨_, .nil hws, ?_⟩
        rw [htext, hclose]
        simp
      · rename_i tail hcomma
        simp only [bind_eq_ok, Except.ok.injEq, Prod.mk.injEq] at h
        obtain ⟨⟨value, afterValue⟩, hvalue, ⟨items, left⟩, hitems, rfl, rfl⟩ := h
        obtain ⟨part, hpart, hskip⟩ := readValue_sound limit fuel _ _ _ _ hvalue
        obtain ⟨more, hmore, rfl⟩ := readItems_sound limit fuel _ _ _ _ hitems
        obtain ⟨after, hafter, htail⟩ := skip_eq tail
        refine ⟨_, .cons hws hafter hpart hmore, ?_⟩
        rw [htext, hcomma, htail, hskip]
        simp
      · cases h

theorem readMembers_sound (limit : Nat) :
    ∀ (fuel depth : Nat) (text rest : List Char) (members : List (JsonString × Node)),
    readMembers limit fuel depth text = .ok (members, rest) →
    ∃ part, MembersText (limit - depth) part members ∧ text = part ++ rest
  | 0, _, _, _, _, h => by cases h
  | fuel + 1, depth, text, rest, members, h => by
      obtain ⟨lead, hlead, htext⟩ := skip_eq text
      rw [readMembers] at h
      split at h
      · rename_i hclose
        obtain ⟨rfl, rfl⟩ := Prod.mk.inj (Except.ok.inj h)
        refine ⟨_, .nil hlead, ?_⟩
        rw [htext, hclose]
        simp
      · rename_i tail hcomma
        simp only [bind_eq_ok, Except.ok.injEq, Prod.mk.injEq] at h
        obtain ⟨⟨key, afterKey⟩, hkey, ⟨value, afterValue⟩, hvalue, ⟨members, left⟩, hmembers,
          rfl, rfl⟩ := h
        obtain ⟨before, after, hspelled, hbefore, hafter, hskip⟩ :=
          readKey_sound (orNotJson_eq_ok.mp hkey)
        obtain ⟨part, hpart, rfl⟩ := readValue_sound limit fuel _ _ _ _ hvalue
        obtain ⟨more, hmore, rfl⟩ := readMembers_sound limit fuel _ _ _ _ hmembers
        obtain ⟨ws, hws, htail⟩ := skip_eq tail
        refine ⟨_, .cons hlead hws hspelled hbefore hafter hpart hmore, ?_⟩
        rw [htext, hcomma, htail, hskip]
        simp
      · cases h

end

/-! ## What is in the grammar -/

/-- What may follow a value: nothing, whitespace, a comma or a closing bracket. -/
def ValueEnds (rest : List Char) : Prop :=
  ∀ c ∈ rest.head?, isSpace c = true ∨ c ∈ [',', ']', '\x7d']

theorem ValueEnds.nil : ValueEnds [] := by
  intro c hc
  cases hc

theorem ValueEnds.cons {c : Char} (h : c ∈ [',', ']', '\x7d']) (rest : List Char) :
    ValueEnds (c :: rest) := by
  intro d hd
  cases hd
  exact .inr h

theorem ValueEnds.ws {ws rest : List Char} (hws : Ws ws) (h : ValueEnds rest) :
    ValueEnds (ws ++ rest) := by
  cases ws with
  | nil => exact h
  | cons c ws =>
      intro d hd
      cases hd
      exact .inl (hws c List.mem_cons_self)

theorem ValueEnds.number {rest : List Char} (h : ValueEnds rest) : NumberEnds rest := by
  intro c hc
  have hends : ∀ d ∈ [' ', '\t', '\n', '\r', ',', ']', '\x7d'],
      d.isDigit = false ∧ d ≠ '.' ∧ d ≠ 'e' ∧ d ≠ 'E' := by simp
  refine hends c ?_
  rcases h c hc with hspace | hmem
  · simp only [isSpace, Bool.or_eq_true, beq_iff_eq] at hspace
    rcases hspace with ((rfl | rfl) | rfl) | rfl <;> decide
  · rcases List.mem_cons.mp hmem with rfl | hmem
    · decide
    · rcases List.mem_cons.mp hmem with rfl | hmem
      · decide
      · rw [List.mem_singleton.mp hmem]
        decide

theorem ItemsText.ends {depth : Nat} {text : List Char} {items : List Node}
    (h : ItemsText depth text items) (rest : List Char) : ValueEnds (text ++ rest) := by
  cases h with
  | nil hws =>
      rw [List.append_assoc]
      exact ValueEnds.ws hws (ValueEnds.cons (by decide) _)
  | cons hbefore =>
      rw [List.append_assoc]
      exact ValueEnds.ws hbefore (ValueEnds.cons (by decide) _)

theorem MembersText.ends {depth : Nat} {text : List Char} {members : List (JsonString × Node)}
    (h : MembersText depth text members) (rest : List Char) : ValueEnds (text ++ rest) := by
  cases h with
  | nil hws =>
      rw [List.append_assoc]
      exact ValueEnds.ws hws (ValueEnds.cons (by decide) _)
  | cons hlead =>
      rw [List.append_assoc]
      exact ValueEnds.ws hlead (ValueEnds.cons (by decide) _)

/-- The characters a value starts with. -/
def startLetters : List Char := ['\x7b', '[', '"', 't', 'f', 'n', '-']

theorem ValueText.exists_cons {depth : Nat} {text : List Char} {node : Node}
    (h : ValueText depth text node) :
    ∃ c tail, text = c :: tail ∧ (c.isDigit = true ∨ c ∈ startLetters) := by
  cases h with
  | @literal _ word hword =>
      simp only [literals, List.mem_cons, List.not_mem_nil, or_false] at hword
      rcases hword with rfl | rfl | rfl
      · exact ⟨'t', ['r', 'u', 'e'], by simp, .inr (by decide)⟩
      · exact ⟨'f', ['a', 'l', 's', 'e'], by simp, .inr (by decide)⟩
      · exact ⟨'n', ['u', 'l', 'l'], by simp, .inr (by decide)⟩
  | number hnumber =>
      obtain ⟨c, tail, rfl, hc⟩ := hnumber.exists_cons
      refine ⟨c, tail, rfl, hc.imp_right ?_⟩
      rintro rfl
      decide
  | string => exact ⟨'"', _, rfl, .inr (by decide)⟩
  | emptyArray => exact ⟨'[', _, rfl, .inr (by decide)⟩
  | array => exact ⟨'[', _, rfl, .inr (by decide)⟩
  | emptyObject => exact ⟨'\x7b', _, rfl, .inr (by decide)⟩
  | object => exact ⟨'\x7b', _, rfl, .inr (by decide)⟩

theorem start_plain {c : Char} (h : c.isDigit = true ∨ c ∈ startLetters) :
    isSpace c = false ∧ c ≠ ']' := by
  rcases h with h | h
  · exact Library.Json.isSpace_digit h
  · have hletters : ∀ d ∈ startLetters, isSpace d = false ∧ d ≠ ']' := by
      simp [startLetters, isSpace]
    exact hletters c h

theorem readValue_brace (limit fuel depth : Nat) (rest : List Char) :
    readValue limit (fuel + 1) depth ('\x7b' :: rest) =
      if limit < depth + 1 then .error .tooDeep
      else if (skip rest).head? = some '\x7d' then .ok (.object [], (skip rest).tail)
      else orNotJson (readKey (skip rest)) >>= fun p =>
        readValue limit fuel (depth + 1) p.2 >>= fun q =>
          readMembers limit fuel (depth + 1) q.2 >>= fun r =>
            .ok (.object ((p.1, q.1) :: r.1), r.2) := rfl

theorem readValue_bracket (limit fuel depth : Nat) (rest : List Char) :
    readValue limit (fuel + 1) depth ('[' :: rest) =
      if limit < depth + 1 then .error .tooDeep
      else if (skip rest).head? = some ']' then .ok (.array [], (skip rest).tail)
      else readValue limit fuel (depth + 1) (skip rest) >>= fun q =>
        readItems limit fuel (depth + 1) q.2 >>= fun r => .ok (.array (q.1 :: r.1), r.2) := rfl

theorem readItems_comma {limit fuel depth : Nat} {text rest : List Char}
    (h : skip text = ',' :: rest) :
    readItems limit (fuel + 1) depth text =
      (readValue limit fuel depth (skip rest) >>= fun q =>
        readItems limit fuel depth q.2 >>= fun r => .ok (q.1 :: r.1, r.2)) := by
  rw [readItems, h]
  rfl

theorem readMembers_comma {limit fuel depth : Nat} {text rest : List Char}
    (h : skip text = ',' :: rest) :
    readMembers limit (fuel + 1) depth text =
      (orNotJson (readKey (skip rest)) >>= fun p =>
        readValue limit fuel depth p.2 >>= fun q =>
          readMembers limit fuel depth q.2 >>= fun r => .ok ((p.1, q.1) :: r.1, r.2)) := by
  rw [readMembers, h]
  rfl

/-- A text that starts like a number is read as one. -/
theorem readValue_number (limit fuel depth : Nat) {c : Char} (h : c.isDigit = true ∨ c = '-')
    (rest : List Char) :
    readValue limit (fuel + 1) depth (c :: rest) = orNotJson (readNumber (c :: rest)) := by
  have hne : ∀ d ∈ ['\x7b', '[', '"', 't', 'f', 'n'], c ≠ d := by
    have hletters : ∀ d ∈ ['\x7b', '[', '"', 't', 'f', 'n'], d.isDigit = false ∧ d ≠ '-' := by
      simp
    rintro d hd rfl
    rcases h with h | h
    · rw [(hletters c hd).1] at h
      cases h
    · exact (hletters c hd).2 h
  rw [readValue.eq_def]
  dsimp only
  split <;> first | rfl | (rename_i heq; exact absurd (List.cons.inj heq).1 (hne _ (by simp)))

theorem head?_skip {ws : List Char} (hws : Ws ws) {c d : Char} (hc : isSpace c = false)
    (hne : c ≠ d) (rest : List Char) : ¬(skip (ws ++ c :: rest)).head? = some d := by
  rw [skip_append hws hc]
  exact fun h => hne (Option.some.inj h)

mutual

theorem readValue_complete (limit : Nat) : ∀ (node : Node) (level depth fuel : Nat)
    (text rest : List Char), ValueText level text node → level + depth ≤ limit →
    text.length < fuel → ValueEnds rest →
    readValue limit fuel depth (text ++ rest) = .ok (node, rest)
  | node, _, _, 0, _, _, _, _, hfuel, _ => absurd hfuel (Nat.not_lt_zero _)
  | .scalar word, level, depth, fuel + 1, text, rest, h, _, _, hends => by
      cases h with
      | literal hword =>
          simp only [literals, List.mem_cons, List.not_mem_nil, or_false] at hword
          rcases hword with rfl | rfl | rfl
          · rw [show "true".toList = ['t', 'r', 'u', 'e'] by simp]
            rfl
          · rw [show "false".toList = ['f', 'a', 'l', 's', 'e'] by simp]
            rfl
          · rw [show "null".toList = ['n', 'u', 'l', 'l'] by simp]
            rfl
      | number hnumber =>
          obtain ⟨c, tail, rfl, hc⟩ := hnumber.exists_cons
          have hread := number_complete hnumber hends.number
          rw [List.cons_append, readValue_number limit fuel depth hc, ← List.cons_append,
            readNumber, hread, Option.map_some, consumed_append]
          rfl
  | .string s, level, depth, fuel + 1, text, rest, h, _, _, _ => by
      cases h with
      | string hs =>
          have hsplit : s.quoted ++ rest = '"' :: (s.raw.toList ++ '"' :: rest) := by
            simp [JsonString.quoted]
          rw [hsplit]
          change (orNotJson (readString (s.raw.toList ++ '"' :: rest))).map _ = _
          rw [readString_eq_some.mpr ⟨hs, rfl⟩]
          rfl
  | .array [], level, depth, fuel + 1, text, rest, h, hlevel, _, _ => by
      cases h with
      | @emptyArray level ws hws =>
          have hclose : skip (ws ++ [']'] ++ rest) = ']' :: rest := by
            rw [List.append_assoc]
            exact skip_append hws (by decide) rest
          rw [List.cons_append, readValue_bracket, if_neg (by omega), hclose]
          rfl
  | .array (node :: items), level, depth, fuel + 1, text, rest, h, hlevel, hfuel, _ => by
      cases h with
      | @array level ws text more _ _ hws hvalue hitems =>
          simp only [List.length_cons, List.length_append] at hfuel
          have hread := readValue_complete limit node level (depth + 1) fuel text (more ++ rest)
            hvalue (by omega) (by omega) (hitems.ends rest)
          have hrest := readItems_complete limit items level (depth + 1) fuel more rest hitems
            (by omega) (by omega)
          obtain ⟨c, tail, rfl, hc⟩ := hvalue.exists_cons
          obtain ⟨hspace, hclose⟩ := start_plain hc
          have hopen := head?_skip hws hspace hclose (tail ++ (more ++ rest))
          simp only [List.cons_append, List.append_assoc] at hread ⊢
          rw [readValue_bracket, if_neg (by omega), if_neg hopen, skip_append hws hspace, hread]
          change (readItems limit fuel (depth + 1) (more ++ rest) >>= _) = _
          rw [hrest]
          rfl
  | .object [], level, depth, fuel + 1, text, rest, h, hlevel, _, _ => by
      cases h with
      | @emptyObject level ws hws =>
          have hclose : skip (ws ++ ['\x7d'] ++ rest) = '\x7d' :: rest := by
            rw [List.append_assoc]
            exact skip_append hws (by decide) rest
          rw [List.cons_append, readValue_brace, if_neg (by omega), hclose]
          rfl
  | .object ((key, node) :: members), level, depth, fuel + 1, text, rest, h, hlevel, hfuel, _ => by
      cases h with
      | @object level ws before after text more _ _ _ hws hkey hbefore hafter hvalue hmembers =>
          simp only [List.length_cons, List.length_append] at hfuel
          have hread := readValue_complete limit node level (depth + 1) fuel text (more ++ rest)
            hvalue (by omega) (by omega) (hmembers.ends rest)
          have hrest := readMembers_complete limit members level (depth + 1) fuel more rest
            hmembers (by omega) (by omega)
          obtain ⟨c, tail, rfl, hc⟩ := hvalue.exists_cons
          have hname := readKey_complete hkey hbefore hafter (start_plain hc).1
            (tail ++ (more ++ rest))
          have hopen := head?_skip hws (show isSpace '"' = false by decide)
            (show '"' ≠ '\x7d' by decide)
            (key.raw.toList ++ '"' :: (before ++ ':' :: (after ++ c :: (tail ++ (more ++ rest)))))
          have hskip := skip_append hws (show isSpace '"' = false by decide)
            (key.raw.toList ++ '"' :: (before ++ ':' :: (after ++ c :: (tail ++ (more ++ rest)))))
          simp only [JsonString.quoted, List.cons_append, List.append_assoc, List.nil_append]
            at hread hname ⊢
          rw [readValue_brace, if_neg (by omega), if_neg hopen, hskip, hname]
          change (readValue limit fuel (depth + 1) (c :: (tail ++ (more ++ rest))) >>= _) = _
          rw [hread]
          change (readMembers limit fuel (depth + 1) (more ++ rest) >>= _) = _
          rw [hrest]
          rfl

theorem readItems_complete (limit : Nat) : ∀ (items : List Node) (level depth fuel : Nat)
    (text rest : List Char), ItemsText level text items → level + depth ≤ limit →
    text.length < fuel → readItems limit fuel depth (text ++ rest) = .ok (items, rest)
  | items, _, _, 0, _, _, _, _, hfuel => absurd hfuel (Nat.not_lt_zero _)
  | [], level, depth, fuel + 1, text, rest, h, _, _ => by
      cases h with
      | @nil _ ws hws =>
          rw [List.append_assoc, readItems]
          change (match skip (ws ++ ']' :: rest) with
            | ']' :: rest => Except.ok ([], rest)
            | ',' :: rest => _
            | _ => _) = _
          rw [skip_append hws (by decide)]
          rfl
  | node :: items, level, depth, fuel + 1, text, rest, h, hlevel, hfuel => by
      cases h with
      | @cons _ before after text more _ _ hbefore hafter hvalue hitems =>
          simp only [List.length_cons, List.length_append] at hfuel
          have hread := readValue_complete limit node level depth fuel text (more ++ rest)
            hvalue hlevel (by omega) (hitems.ends rest)
          have hrest := readItems_complete limit items level depth fuel more rest hitems
            hlevel (by omega)
          obtain ⟨c, tail, rfl, hc⟩ := hvalue.exists_cons
          simp only [List.cons_append, List.append_assoc] at hread ⊢
          rw [readItems_comma (skip_append hbefore (by decide) _),
            skip_append hafter (start_plain hc).1, hread]
          change (readItems limit fuel depth (more ++ rest) >>= _) = _
          rw [hrest]
          rfl

theorem readMembers_complete (limit : Nat) : ∀ (members : List (JsonString × Node))
    (level depth fuel : Nat) (text rest : List Char), MembersText level text members →
    level + depth ≤ limit → text.length < fuel →
    readMembers limit fuel depth (text ++ rest) = .ok (members, rest)
  | members, _, _, 0, _, _, _, _, hfuel => absurd hfuel (Nat.not_lt_zero _)
  | [], level, depth, fuel + 1, text, rest, h, _, _ => by
      cases h with
      | @nil _ ws hws =>
          rw [List.append_assoc, readMembers]
          change (match skip (ws ++ '\x7d' :: rest) with
            | '\x7d' :: rest => Except.ok ([], rest)
            | ',' :: rest => _
            | _ => _) = _
          rw [skip_append hws (by decide)]
          rfl
  | (key, node) :: members, level, depth, fuel + 1, text, rest, h, hlevel, hfuel => by
      cases h with
      | @cons _ ws lead before after text more _ _ _ hlead hws hkey hbefore hafter hvalue
          hmembers =>
          simp only [List.length_cons, List.length_append] at hfuel
          have hread := readValue_complete limit node level depth fuel text (more ++ rest)
            hvalue hlevel (by omega) (hmembers.ends rest)
          have hrest := readMembers_complete limit members level depth fuel more rest hmembers
            hlevel (by omega)
          obtain ⟨c, tail, rfl, hc⟩ := hvalue.exists_cons
          have hname := readKey_complete hkey hbefore hafter (start_plain hc).1
            (tail ++ (more ++ rest))
          have hskip := skip_append hws (show isSpace '"' = false by decide)
            (key.raw.toList ++ '"' :: (before ++ ':' :: (after ++ c :: (tail ++ (more ++ rest)))))
          simp only [JsonString.quoted, List.cons_append, List.append_assoc, List.nil_append]
            at hread hname ⊢
          rw [readMembers_comma (skip_append hlead (by decide) _), hskip, hname]
          change (readValue limit fuel depth (c :: (tail ++ (more ++ rest))) >>= _) = _
          rw [hread]
          change (readMembers limit fuel depth (more ++ rest) >>= _) = _
          rw [hrest]
          rfl

end

/-! ## Documents -/

theorem skip_ws {ws : List Char} (hws : Ws ws) : skip ws = [] :=
  List.dropWhile_eq_nil_iff.mpr hws

/-- A document is accepted exactly when the grammar derives it, as the tree it derives. -/
theorem parseWithin_eq_ok {limit : Nat} {text : String} {node : Node} :
    parseWithin limit text = .ok node ↔ DocumentText limit text.toList node := by
  unfold parseWithin
  constructor
  · intro h
    obtain ⟨⟨value, rest⟩, hvalue, hend⟩ := bind_eq_ok.mp h
    obtain ⟨part, hpart, hskip⟩ := readValue_sound limit _ _ _ _ _ hvalue
    dsimp only at hend
    split at hend
    · rename_i hrest
      obtain rfl := Except.ok.inj hend
      obtain ⟨before, hbefore, htext⟩ := skip_eq text.toList
      have hafter : Ws rest := List.dropWhile_eq_nil_iff.mp hrest
      rw [htext, hskip]
      exact .mk hbefore hpart hafter
    · cases hend
  · intro h
    generalize text.toList = chars at h ⊢
    obtain ⟨hbefore, hvalue, hafter⟩ := h
    rename_i before part after
    obtain ⟨c, tail, rfl, hc⟩ := hvalue.exists_cons
    have hends : ValueEnds after := by
      have hall := ValueEnds.ws hafter ValueEnds.nil
      rwa [List.append_nil] at hall
    have hread := readValue_complete limit node limit 0
      ((before ++ (c :: tail ++ after)).length + 1) (c :: tail) after hvalue (by omega)
      (by simp only [List.length_append]; omega) hends
    have hskip : skip (before ++ (c :: tail ++ after)) = c :: tail ++ after :=
      skip_append hbefore (start_plain hc).1 (tail ++ after)
    rw [hskip, hread]
    exact if_pos (skip_ws hafter)

/-! ## Compact texts -/

theorem Ws.nil : Ws [] := fun _ hc => absurd hc List.not_mem_nil

mutual

/-- The compact text of a tree is a text of it. -/
theorem valueText_write : ∀ (node : Node) (level : Nat) (text : List Char),
    ValueText level text node → ValueText level (write node) node
  | .scalar word, level, text, h => by
      cases h with
      | literal hword => exact .literal hword
      | number hnumber =>
          rw [write, String.toList_ofList]
          exact .number hnumber
  | .string s, level, text, h => by
      cases h with
      | string hs => exact .string hs
  | .array [], level, text, h => by
      cases h with
      | emptyArray => exact .emptyArray Ws.nil
  | .array (node :: items), level, text, h => by
      cases h with
      | array _ hvalue hitems =>
          exact @ValueText.array _ [] _ _ node items Ws.nil (valueText_write node _ _ hvalue)
            (itemsText_write items _ _ hitems)
  | .object [], level, text, h => by
      cases h with
      | emptyObject => exact .emptyObject Ws.nil
  | .object ((key, node) :: members), level, text, h => by
      cases h with
      | object _ hkey _ _ hvalue hmembers =>
          exact @ValueText.object _ [] [] [] _ _ key node members Ws.nil hkey Ws.nil Ws.nil
            (valueText_write node _ _ hvalue) (membersText_write members _ _ hmembers)

theorem itemsText_write : ∀ (items : List Node) (level : Nat) (text : List Char),
    ItemsText level text items → ItemsText level (writeItems items) items
  | [], level, text, h => by
      cases h with
      | nil => exact .nil Ws.nil
  | node :: items, level, text, h => by
      cases h with
      | cons _ _ hvalue hitems =>
          exact @ItemsText.cons _ [] [] _ _ node items Ws.nil Ws.nil
            (valueText_write node _ _ hvalue) (itemsText_write items _ _ hitems)

theorem membersText_write : ∀ (members : List (JsonString × Node)) (level : Nat)
    (text : List Char), MembersText level text members →
    MembersText level (writeMembers members) members
  | [], level, text, h => by
      cases h with
      | nil => exact .nil Ws.nil
  | (key, node) :: members, level, text, h => by
      cases h with
      | cons _ _ hkey _ _ hvalue hmembers =>
          exact @MembersText.cons _ [] [] [] [] _ _ key node members Ws.nil Ws.nil hkey Ws.nil
            Ws.nil (valueText_write node _ _ hvalue) (membersText_write members _ _ hmembers)

end

theorem documentText_write {level : Nat} {text : List Char} {node : Node}
    (h : ValueText level text node) : DocumentText level (write node) node := by
  have hcompact := @DocumentText.mk level [] _ [] node Ws.nil (valueText_write node _ _ h) Ws.nil
  rwa [List.nil_append, List.append_nil] at hcompact

/-- The compact text of a parsed tree parses to it within the same bound. -/
theorem parseWithin_writeCompact {limit : Nat} {text : String} {node : Node}
    (h : parseWithin limit text = .ok node) : parseWithin limit (writeCompact node) = .ok node := by
  rw [parseWithin_eq_ok] at h ⊢
  generalize text.toList = chars at h
  obtain ⟨-, hvalue, -⟩ := h
  rw [writeCompact, String.toList_ofList]
  exact documentText_write hvalue

/-- The text of a string parses to a string node. -/
theorem parseWithin_string {s : JsonString} (hs : s.Spelled) (limit : Nat) :
    parseWithin limit (String.ofList s.quoted) = .ok (.string s) := by
  rw [parseWithin_eq_ok, String.toList_ofList]
  exact documentText_write (.string hs)

theorem parseBytes_eq_ok {document : List UInt8} {node : Node} :
    parseBytes document = .ok node ↔ ∃ text, Library.Text.fromUtf8 document = some text ∧
      DocumentText maxMediaJsonDepth text.toList node := by
  unfold parseBytes
  cases htext : Library.Text.fromUtf8 document with
  | none => simp
  | some text => simp [parse, parseWithin_eq_ok]

theorem parseBytes_bytes (text : String) :
    parseBytes (Library.Text.bytes text) = parse text := by
  rw [parseBytes, Library.Text.fromUtf8_bytes]

/-- The parser accepts exactly the UTF-8 documents of its grammar, as the trees the grammar
names. Writing a parsed tree and parsing the text gives the tree, and so the text, again,
and a written string is read as what was written. -/
theorem parse_exact_and_settles :
    (∀ document node, parseBytes document = .ok node ↔
      ∃ text, Library.Text.fromUtf8 document = some text ∧
        DocumentText maxMediaJsonDepth text.toList node) ∧
    (∀ document node, parseBytes document = .ok node →
      parseBytes (Library.Text.bytes (writeCompact node)) = .ok node ∧
      ∀ again, parseBytes (Library.Text.bytes (writeCompact node)) = .ok again →
        writeCompact again = writeCompact node) ∧
    ∀ value, ∃ s, parseBytes (Library.Text.bytes (String.ofList (writeString value).quoted)) =
      .ok (.string s) ∧ s.decoded = value := by
  refine ⟨fun _ _ => parseBytes_eq_ok, fun document node h => ?_, fun value => ?_⟩
  · obtain ⟨text, -, htext⟩ := parseBytes_eq_ok.mp h
    have hsettled : parse (writeCompact node) = .ok node :=
      parseWithin_writeCompact (parseWithin_eq_ok.mpr htext)
    rw [parseBytes_bytes]
    refine ⟨hsettled, fun again hagain => ?_⟩
    rw [hsettled] at hagain
    rw [Except.ok.inj hagain]
  · refine ⟨writeString value, ?_, rfl⟩
    rw [parseBytes_bytes]
    exact parseWithin_string (writeString_spelled value) maxMediaJsonDepth

end TokenStation.Media.Json
