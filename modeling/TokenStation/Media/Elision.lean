import TokenStation.Media.View

/-!
# Elision loses nothing and cannot be forged

The pass over a document is the numbered view of its tree. The view is a document again,
its only objects in the placeholder namespace are the placeholders, and putting the blobs
back gives the document's own tree.
-/

namespace TokenStation.Media

open Library.Checked Library.Text Json
open Library.Json (escape)

section

variable (declared : List PathPatternV1) (limits : MediaLimitsV1)

/-! ## Keys -/

/-- What the keys of an object have to be. -/
structure KeysFine (members : List (JsonString × Node)) : Prop where
  unreserved : ∀ member ∈ members, isReserved member.1.decoded = false
  short : ∀ member ∈ members, (bytes member.1.decoded).length ≤ limits.inlineStringBytes
  distinct : (members.map fun member => member.1.decoded).Nodup

theorem checkKeys_eq_ok {seen : List String} {members : List (JsonString × Node)} {u : Unit}
    (h : checkKeys limits seen members = .ok u) :
    KeysFine limits members ∧ ∀ member ∈ members, member.1.decoded ∉ seen := by
  induction members generalizing seen with
  | nil =>
      refine ⟨⟨?_, ?_, List.nodup_nil⟩, ?_⟩ <;> exact fun _ hmem => absurd hmem List.not_mem_nil
  | cons first members ih =>
      obtain ⟨key, value⟩ := first
      rw [checkKeys, andThen_eq_ok, andThen_eq_ok, andThen_eq_ok] at h
      obtain ⟨hreserved, hlong, hseen, hrest⟩ := h
      rw [refuse_eq_ok] at hreserved hlong hseen
      obtain ⟨hfine, hnew⟩ := ih hrest
      refine ⟨⟨?_, ?_, ?_⟩, ?_⟩
      · rw [List.forall_mem_cons]
        exact ⟨Bool.eq_false_iff.mpr hreserved, hfine.unreserved⟩
      · rw [List.forall_mem_cons]
        exact ⟨Nat.not_lt.mp hlong, hfine.short⟩
      · rw [List.map_cons, List.nodup_cons]
        refine ⟨fun hmem => ?_, hfine.distinct⟩
        obtain ⟨member, hmember, hkey⟩ := List.mem_map.mp hmem
        exact hnew member hmember (hkey ▸ List.mem_cons_self)
      · rw [List.forall_mem_cons]
        exact ⟨hseen, fun member hmember hmem =>
          hnew member hmember (List.mem_cons_of_mem _ hmem)⟩

/-! ## The pass -/

theorem write_placeholder (index : Nat) (text : String) :
    write (.object (placeholderFor limits index text)) =
      (placeholderText limits index text).toList := by
  have hopen : "\x7b\"$south.blob\":\x7b\"id\":\"".toList =
      '\x7b' :: ((plain blobKey).quoted ++ ':' :: '\x7b' :: ((plain "id").quoted ++ [':', '"'])) := by
    simp [plain, blobKey, JsonString.quoted]
  have hbytes : "\",\"bytes\":".toList = '"' :: ',' :: ((plain "bytes").quoted ++ [':']) := by
    simp [plain, JsonString.quoted]
  have hhead : ",\"head\":".toList = ',' :: ((plain "head").quoted ++ [':']) := by
    simp [plain, JsonString.quoted]
  have hclose : "\x7d\x7d".toList = ['\x7d', '\x7d'] := by simp
  have hid : (plain (blobId index)).quoted = '"' :: ((blobId index).toList ++ ['"']) := rfl
  unfold placeholderText placeholderFor placeholderMembers
  generalize blobId index = id at hid ⊢
  generalize writeString (utf8Prefix text limits.blobHeadBytes) = head
  simp only [write, writeMembers, String.toList_append, String.toList_ofList, hopen, hbytes, hhead,
    hclose, hid, List.append_assoc, List.cons_append, List.nil_append]

theorem write_array {items items' : List Node} (h : writeItems items = writeItems items') :
    write (.array items) = write (.array items') := by
  cases items <;> cases items' <;> simp_all [write, writeItems]

theorem write_object {members members' : List (JsonString × Node)}
    (h : writeMembers members = writeMembers members') :
    write (.object members) = write (.object members') := by
  cases members <;> cases members' <;> simp_all [write, writeMembers]

/-- The state after texts left. -/
def ElisionState.after (state : ElisionState) (texts : List String) : ElisionState :=
  ⟨state.blobs ++ blobsFrom state.nextId texts, state.nextId + texts.length⟩

theorem ElisionState.after_nil (state : ElisionState) : state.after [] = state := by
  simp [ElisionState.after, blobsFrom]

theorem ElisionState.after_append (state : ElisionState) (texts more : List String) :
    (state.after texts).after more = state.after (texts ++ more) := by
  simp [ElisionState.after, blobsFrom_append, Nat.add_assoc]

mutual

/-- The pass writes what the view writes, and its keys were all fine. -/
theorem visit_eq_ok : ∀ (node : Node) {path : List PathStep} {state : ElisionState} {out : Node}
    {after : ElisionState}, visit declared limits path node state = .ok (out, after) →
    after = state.after (elided declared limits path node) ∧
      write out = write (view declared limits path state.nextId node) ∧
      ∀ members ∈ objectsOf node, KeysFine limits members
  | .scalar text, path, state, out, after, h => by
      cases h
      exact ⟨state.after_nil.symm, rfl, fun _ hmem => by cases hmem⟩
  | .string string, path, state, out, after, h => by
      rw [visit] at h
      rw [elided, view, elides]
      refine ⟨?_, ?_, fun _ hmem => by cases hmem⟩
      · split at h
        · cases h
          next hout => rw [if_pos hout]; rfl
        · cases h
          next hout => rw [if_neg hout, state.after_nil]
      · split at h
        · cases h
          next hout => rw [if_pos hout, write_placeholder, write]
        · cases h
          next hout => rw [if_neg hout]
  | .array items, path, state, out, after, h => by
      rw [visit, bind_eq_ok] at h
      obtain ⟨⟨outs, last⟩, hitems, hpure⟩ := h
      cases hpure
      obtain ⟨hafter, hwrite, hkeys⟩ := visitItems_eq_ok items hitems
      exact ⟨hafter, write_array hwrite, hkeys⟩
  | .object members, path, state, out, after, h => by
      rw [visit, andThen_eq_ok, bind_eq_ok] at h
      obtain ⟨hfine, ⟨outs, last⟩, hmembers, hpure⟩ := h
      cases hpure
      obtain ⟨hafter, hwrite, hkeys⟩ := visitMembers_eq_ok members hmembers
      refine ⟨hafter, write_object hwrite, ?_⟩
      rw [objectsOf, List.forall_mem_cons]
      exact ⟨(checkKeys_eq_ok limits hfine).1, hkeys⟩

theorem visitItems_eq_ok : ∀ (items : List Node) {path : List PathStep} {position : Nat}
    {state : ElisionState} {outs : List Node} {after : ElisionState},
    visitItems declared limits path position items state = .ok (outs, after) →
    after = state.after (elidedItems declared limits path position items) ∧
      writeItems outs = writeItems (viewItems declared limits path position state.nextId items) ∧
      ∀ members ∈ objectsOfItems items, KeysFine limits members
  | [], path, position, state, outs, after, h => by
      cases h
      exact ⟨state.after_nil.symm, rfl, fun _ hmem => by cases hmem⟩
  | item :: items, path, position, state, outs, after, h => by
      rw [visitItems, bind_eq_ok] at h
      obtain ⟨⟨out, middle⟩, hitem, hrest⟩ := h
      dsimp only at hrest
      rw [bind_eq_ok] at hrest
      obtain ⟨⟨rest, last⟩, hitems, hpure⟩ := hrest
      cases hpure
      obtain ⟨rfl, hwrite, hkeys⟩ := visit_eq_ok item hitem
      obtain ⟨hafter, hwrites, hmore⟩ := visitItems_eq_ok items hitems
      refine ⟨?_, ?_, ?_⟩
      · rw [hafter, ElisionState.after_append, elidedItems]
      · rw [writeItems, viewItems, writeItems, hwrite, hwrites]
        rfl
      · rw [objectsOfItems, List.forall_mem_append]
        exact ⟨hkeys, hmore⟩

theorem visitMembers_eq_ok : ∀ (members : List (JsonString × Node)) {path : List PathStep}
    {state : ElisionState} {outs : List (JsonString × Node)} {after : ElisionState},
    visitMembers declared limits path members state = .ok (outs, after) →
    after = state.after (elidedMembers declared limits path members) ∧
      writeMembers outs =
        writeMembers (viewMembers declared limits path state.nextId members) ∧
      ∀ inner ∈ objectsOfMembers members, KeysFine limits inner
  | [], path, state, outs, after, h => by
      cases h
      exact ⟨state.after_nil.symm, rfl, fun _ hmem => by cases hmem⟩
  | (key, value) :: members, path, state, outs, after, h => by
      rw [visitMembers, bind_eq_ok] at h
      obtain ⟨⟨out, middle⟩, hvalue, hrest⟩ := h
      dsimp only at hrest
      rw [bind_eq_ok] at hrest
      obtain ⟨⟨rest, last⟩, hmembers, hpure⟩ := hrest
      cases hpure
      obtain ⟨rfl, hwrite, hkeys⟩ := visit_eq_ok value hvalue
      obtain ⟨hafter, hwrites, hmore⟩ := visitMembers_eq_ok members hmembers
      refine ⟨?_, ?_, ?_⟩
      · rw [hafter, ElisionState.after_append, elidedMembers]
      · rw [writeMembers, viewMembers, writeMembers, hwrite, hwrites]
        rfl
      · rw [objectsOfMembers, List.forall_mem_append]
        exact ⟨hkeys, hmore⟩

end

/-! ## The view is a document -/

theorem stringText_plain {text : List Char}
    (h : ∀ c ∈ text, c ≠ '"' ∧ c ≠ '\\' ∧ ¬c < ' ') : StringText text text := by
  induction text with
  | nil => exact .nil
  | cons c text ih =>
      rw [List.forall_mem_cons] at h
      exact .cons (.plain h.1.1 h.1.2.1 h.1.2.2) (ih h.2)

theorem digits_toString (n : Nat) : ∀ c ∈ (toString n).toList, c.isDigit = true := by
  intro c hc
  rw [Nat.toString_eq_ofList_toDigits, String.toList_ofList] at hc
  exact Nat.isDigit_of_mem_toDigits (by decide) (by decide) hc

theorem digit_plain {c : Char} (h : c.isDigit = true) : c ≠ '"' ∧ c ≠ '\\' ∧ ¬c < ' ' := by
  have hrange : 48 ≤ c.toNat ∧ c.toNat ≤ 57 := by
    simpa [Char.isDigit, UInt32.le_iff_toNat_le] using h
  refine ⟨?_, ?_, ?_⟩
  · rintro rfl
    exact absurd hrange (by decide)
  · rintro rfl
    exact absurd hrange (by decide)
  · intro hlt
    have hcode : c.toNat < 32 := hlt
    omega

theorem blobId_spelled (index : Nat) : (plain (blobId index)).Spelled := by
  refine stringText_plain fun c hc => ?_
  rw [plain, blobId, String.toList_append, List.mem_append] at hc
  rcases hc with hb | hdigit
  · have hletter : ∀ d ∈ "b".toList, d ≠ '"' ∧ d ≠ '\\' ∧ ¬d < ' ' := by simp
    exact hletter c hb
  · exact digit_plain (digits_toString index c hdigit)

/-- No decimal number but zero starts with a zero. -/
theorem head?_toDigits {n : Nat} (h : 0 < n) : (Nat.toDigits 10 n).head? ≠ some '0' := by
  induction n using Nat.strong_induction_on with
  | _ n ih =>
      by_cases hsmall : n < 10
      · rw [Nat.toDigits_of_lt_base hsmall]
        have hdigit : ∀ k < 10, 0 < k → [k.digitChar].head? ≠ some '0' := by decide
        exact hdigit n hsmall h
      · rw [Nat.toDigits_of_base_le (by decide) (by omega),
          List.head?_append_of_ne_nil _ Nat.toDigits_ne_nil]
        exact ih (n / 10) (by omega) (by omega)

theorem numberText_toString (n : Nat) : NumberText (toString n).toList := by
  have hdigits : Digits (toString n).toList := by
    refine ⟨?_, digits_toString n⟩
    rw [Nat.toString_eq_ofList_toDigits, String.toList_ofList]
    exact Nat.toDigits_ne_nil
  have hint : IntText (toString n).toList := by
    rcases Nat.eq_zero_or_pos n with rfl | hpos
    · exact .inl (by simp)
    · refine .inr ⟨hdigits, ?_⟩
      rw [Nat.toString_eq_ofList_toDigits, String.toList_ofList]
      exact head?_toDigits hpos
  have hnumber := NumberText.mk (.inl rfl) hint (.inl rfl) (.inl rfl)
  simpa only [List.nil_append, List.append_nil] using hnumber

theorem valueText_placeholder (level index : Nat) (text : String) :
    ∃ chars, ValueText (level + 2) chars (.object (placeholderFor limits index text)) := by
  have hkeys : ∀ key ∈ ["$south.blob", "id", "bytes", "head"], (plain key).Spelled := by
    have hletters : ∀ key ∈ ["$south.blob", "id", "bytes", "head"],
        ∀ c ∈ key.toList, c ≠ '"' ∧ c ≠ '\\' ∧ ¬c < ' ' := by simp
    exact fun key hkey => stringText_plain (hletters key hkey)
  have hsize : ValueText level (toString (bytes text).length).toList
      (.scalar (toString (bytes text).length)) := by
    have hnumber := @ValueText.number level _ (numberText_toString (bytes text).length)
    rwa [String.ofList_toList] at hnumber
  exact ⟨_, .object Ws.nil (hkeys _ (by simp [blobKey])) Ws.nil Ws.nil
    (.object Ws.nil (hkeys _ (by simp)) Ws.nil Ws.nil (.string (blobId_spelled index))
      (.cons Ws.nil Ws.nil (hkeys _ (by simp)) Ws.nil Ws.nil hsize
        (.cons Ws.nil Ws.nil (hkeys _ (by simp)) Ws.nil Ws.nil
          (.string (writeString_spelled _)) (.nil Ws.nil))))
    (.nil Ws.nil)⟩

mutual

/-- A placeholder nests two levels deeper than the string it stands for. -/
theorem valueText_view : ∀ (node : Node) (path : List PathStep) (next level : Nat)
    (chars : List Char), ValueText level chars node →
    ∃ chars', ValueText (level + 2) chars' (view declared limits path next node)
  | .scalar text, path, next, level, chars, h => by
      cases h with
      | literal hword => exact ⟨_, .literal hword⟩
      | number hnumber => exact ⟨_, .number hnumber⟩
  | .string string, path, next, level, chars, h => by
      cases h with
      | string hspelled =>
          rw [view]
          split
          · exact valueText_placeholder limits level next string.decoded
          · exact ⟨_, .string hspelled⟩
  | .array [], path, next, level, chars, h => by
      cases h with
      | emptyArray hws => exact ⟨_, .emptyArray hws⟩
  | .array (item :: items), path, next, level, chars, h => by
      cases h with
      | array hws hitem hrest =>
          obtain ⟨itemChars, hitem⟩ := valueText_view item (path ++ [.index 0]) next _ _ hitem
          obtain ⟨restChars, hrest⟩ := itemsText_view items path 1 _ _ _ hrest
          exact ⟨_, .array hws hitem hrest⟩
  | .object [], path, next, level, chars, h => by
      cases h with
      | emptyObject hws => exact ⟨_, .emptyObject hws⟩
  | .object ((key, value) :: members), path, next, level, chars, h => by
      cases h with
      | object hws hkey hbefore hafter hvalue hrest =>
          obtain ⟨valueChars, hvalue⟩ :=
            valueText_view value (path ++ [.key key.decoded]) next _ _ hvalue
          obtain ⟨restChars, hrest⟩ := membersText_view members path _ _ _ hrest
          exact ⟨_, .object hws hkey hbefore hafter hvalue hrest⟩

theorem itemsText_view : ∀ (items : List Node) (path : List PathStep) (position next level : Nat)
    (chars : List Char), ItemsText level chars items →
    ∃ chars', ItemsText (level + 2) chars' (viewItems declared limits path position next items)
  | [], path, position, next, level, chars, h => by
      cases h with
      | nil hws => exact ⟨_, .nil hws⟩
  | item :: items, path, position, next, level, chars, h => by
      cases h with
      | cons hbefore hafter hitem hrest =>
          obtain ⟨itemChars, hitem⟩ :=
            valueText_view item (path ++ [.index position]) next _ _ hitem
          obtain ⟨restChars, hrest⟩ := itemsText_view items path (position + 1) _ _ _ hrest
          exact ⟨_, .cons hbefore hafter hitem hrest⟩

theorem membersText_view : ∀ (members : List (JsonString × Node)) (path : List PathStep)
    (next level : Nat) (chars : List Char), MembersText level chars members →
    ∃ chars', MembersText (level + 2) chars' (viewMembers declared limits path next members)
  | [], path, next, level, chars, h => by
      cases h with
      | nil hws => exact ⟨_, .nil hws⟩
  | (key, value) :: members, path, next, level, chars, h => by
      cases h with
      | cons hlead hws hkey hbefore hafter hvalue hrest =>
          obtain ⟨valueChars, hvalue⟩ :=
            valueText_view value (path ++ [.key key.decoded]) next _ _ hvalue
          obtain ⟨restChars, hrest⟩ := membersText_view members path _ _ _ hrest
          exact ⟨_, .cons hlead hws hkey hbefore hafter hvalue hrest⟩

end

/-! ## The placeholders of a view -/

/-- No key of the tree is in the placeholder namespace. -/
def Unreserved (objects : List (List (JsonString × Node))) : Prop :=
  ∀ members ∈ objects, hasReserved members = false

theorem hasReserved_placeholder (id : String) (size : Nat) (head : String) :
    hasReserved (placeholderMembers id size head) = true := by
  have hkey : isReserved blobKey = true := by decide
  simp [hasReserved, placeholderMembers, plain, hkey]

theorem objectsOf_placeholder (id : String) (size : Nat) (head : String) :
    (objectsOf (.object (placeholderMembers id size head))).filter hasReserved =
      [placeholderMembers id size head] := by
  have hinner : ∀ key ∈ ["id", "bytes", "head"], isReserved key = false := by decide
  rw [objectsOf, List.filter_cons_of_pos (hasReserved_placeholder id size head)]
  simp [placeholderMembers, objectsOfMembers, objectsOf, hasReserved, plain, hinner]

/-- The placeholders of texts that leave one after another. -/
def placeholdersFrom (next : Nat) : List String → List (List (JsonString × Node))
  | [] => []
  | text :: texts => placeholderFor limits next text :: placeholdersFrom (next + 1) texts

theorem placeholdersFrom_append (next : Nat) (texts more : List String) :
    placeholdersFrom limits next (texts ++ more) =
      placeholdersFrom limits next texts ++ placeholdersFrom limits (next + texts.length) more := by
  induction texts generalizing next with
  | nil => simp [placeholdersFrom]
  | cons text texts ih =>
      rw [List.cons_append, placeholdersFrom, ih, placeholdersFrom, List.cons_append,
        List.length_cons]
      congr 3
      omega

theorem hasReserved_viewMembers (path : List PathStep) (next : Nat)
    (members : List (JsonString × Node)) :
    hasReserved (viewMembers declared limits path next members) = hasReserved members := by
  induction members generalizing next with
  | nil => rfl
  | cons first members ih =>
      obtain ⟨key, value⟩ := first
      unfold hasReserved at ih ⊢
      rw [viewMembers, List.any_cons, List.any_cons, ih]

mutual

theorem reserved_view : ∀ (node : Node) (path : List PathStep) (next : Nat),
    Unreserved (objectsOf node) →
    (objectsOf (view declared limits path next node)).filter hasReserved =
      placeholdersFrom limits next (elided declared limits path node)
  | .scalar text, path, next, h => rfl
  | .string string, path, next, h => by
      rw [view, elided]
      split
      · exact objectsOf_placeholder _ _ _
      · rfl
  | .array items, path, next, h => by
      rw [view, elided, objectsOf]
      exact reserved_viewItems items path 0 next h
  | .object members, path, next, h => by
      rw [objectsOf, Unreserved, List.forall_mem_cons] at h
      rw [view, elided, objectsOf, List.filter_cons_of_neg]
      · exact reserved_viewMembers members path next h.2
      · rw [hasReserved_viewMembers, h.1]
        exact Bool.false_ne_true

theorem reserved_viewItems : ∀ (items : List Node) (path : List PathStep) (position next : Nat),
    Unreserved (objectsOfItems items) →
    (objectsOfItems (viewItems declared limits path position next items)).filter hasReserved =
      placeholdersFrom limits next (elidedItems declared limits path position items)
  | [], path, position, next, h => rfl
  | item :: items, path, position, next, h => by
      rw [objectsOfItems, Unreserved, List.forall_mem_append] at h
      rw [viewItems, elidedItems, objectsOfItems, List.filter_append, placeholdersFrom_append,
        reserved_view item _ _ h.1, reserved_viewItems items _ _ _ h.2]

theorem reserved_viewMembers : ∀ (members : List (JsonString × Node)) (path : List PathStep)
    (next : Nat), Unreserved (objectsOfMembers members) →
    (objectsOfMembers (viewMembers declared limits path next members)).filter hasReserved =
      placeholdersFrom limits next (elidedMembers declared limits path members)
  | [], path, next, h => rfl
  | (key, value) :: members, path, next, h => by
      rw [objectsOfMembers, Unreserved, List.forall_mem_append] at h
      rw [viewMembers, elidedMembers, objectsOfMembers, List.filter_append,
        placeholdersFrom_append, reserved_view value _ _ h.1, reserved_viewMembers members _ _ h.2]

end

theorem describes_placeholders (next : Nat) (texts : List String) :
    List.Forall₂ (Describes limits) (blobsFrom next texts) (placeholdersFrom limits next texts) := by
  induction texts generalizing next with
  | nil => exact .nil
  | cons text texts ih =>
      refine .cons ⟨⟨text, _, rfl, utf8Prefix_isHead text limits.blobHeadBytes, rfl⟩, rfl⟩ ?_
      exact ih (next + 1)

/-! ## Putting the blobs back -/

/-- The blobs of texts are found by their numbers. -/
def Holds (blobs : List BlobV1) (next : Nat) (texts : List String) : Prop :=
  ∀ i text, texts[i]? = some text →
    blobs.find? (fun blob => blob.id == blobId (next + i)) =
      some ⟨blobId (next + i), bytes text, true⟩

theorem Holds.append {blobs : List BlobV1} {next : Nat} {texts more : List String}
    (h : Holds blobs next (texts ++ more)) :
    Holds blobs next texts ∧ Holds blobs (next + texts.length) more := by
  constructor
  · intro i text htext
    have hbound := (List.getElem?_eq_some_iff.mp htext).1
    exact h i text (by rwa [List.getElem?_append_left hbound])
  · intro i text htext
    rw [Nat.add_assoc]
    refine h (texts.length + i) text ?_
    rwa [List.getElem?_append_right (Nat.le_add_right _ _), Nat.add_sub_cancel_left]

theorem blobIn_unreserved {blobs : List BlobV1} {members : List (JsonString × Node)}
    (h : hasReserved members = false) : blobIn blobs members = none := by
  unfold blobIn
  split
  · next key inner id more =>
      have hkey : key.decoded ≠ blobKey := by
        intro heq
        have hreserved : isReserved blobKey = true := by decide
        simp [hasReserved, heq, hreserved] at h
      exact if_neg hkey
  · rfl

theorem restore_placeholder {blobs : List BlobV1} {next : Nat} {text : String}
    (h : Holds blobs next [text]) :
    restore blobs (.object (placeholderFor limits next text)) = .string (writeString text) := by
  have hfound := h 0 text rfl
  rw [Nat.add_zero] at hfound
  have hblob : blobIn blobs (placeholderFor limits next text) =
      some ⟨blobId next, bytes text, true⟩ := by
    rw [placeholderFor, placeholderMembers, blobIn,
      if_pos (show (plain blobKey).decoded = blobKey from rfl)]
    exact hfound
  rw [restore, hblob]
  simp only [BlobV1.string, fromUtf8_bytes, Option.getD_some]

mutual

theorem restore_view {blobs : List BlobV1} : ∀ (node : Node) (path : List PathStep) (next : Nat),
    Unreserved (objectsOf node) → Holds blobs next (elided declared limits path node) →
    meant (restore blobs (view declared limits path next node)) = meant node
  | .scalar text, path, next, h, hblobs => rfl
  | .string string, path, next, h, hblobs => by
      rw [elided] at hblobs
      rw [view]
      split
      · next hout =>
          rw [if_pos hout] at hblobs
          rw [restore_placeholder limits hblobs, meant, meant]
          rfl
      · rfl
  | .array items, path, next, h, hblobs => by
      rw [view, restore, meant, meant, restore_viewItems items path 0 next h hblobs]
  | .object members, path, next, h, hblobs => by
      rw [objectsOf, Unreserved, List.forall_mem_cons] at h
      rw [view, restore, blobIn_unreserved (by rw [hasReserved_viewMembers, h.1]), meant, meant,
        restore_viewMembers members path next h.2 hblobs]

theorem restore_viewItems {blobs : List BlobV1} : ∀ (items : List Node) (path : List PathStep)
    (position next : Nat), Unreserved (objectsOfItems items) →
    Holds blobs next (elidedItems declared limits path position items) →
    meantItems (restoreItems blobs (viewItems declared limits path position next items)) =
      meantItems items
  | [], path, position, next, h, hblobs => rfl
  | item :: items, path, position, next, h, hblobs => by
      rw [objectsOfItems, Unreserved, List.forall_mem_append] at h
      obtain ⟨hfirst, hrest⟩ := hblobs.append
      rw [viewItems, restoreItems, meantItems, meantItems, restore_view item _ _ h.1 hfirst,
        restore_viewItems items _ _ _ h.2 hrest]

theorem restore_viewMembers {blobs : List BlobV1} : ∀ (members : List (JsonString × Node))
    (path : List PathStep) (next : Nat), Unreserved (objectsOfMembers members) →
    Holds blobs next (elidedMembers declared limits path members) →
    meantMembers (restoreMembers blobs (viewMembers declared limits path next members)) =
      meantMembers members
  | [], path, next, h, hblobs => rfl
  | (key, value) :: members, path, next, h, hblobs => by
      rw [objectsOfMembers, Unreserved, List.forall_mem_append] at h
      obtain ⟨hfirst, hrest⟩ := hblobs.append
      rw [viewMembers, restoreMembers, meantMembers, meantMembers,
        restore_view value _ _ h.1 hfirst, restore_viewMembers members _ _ h.2 hrest]

end

/-! ## Which strings leave -/

theorem viewItems_item (path : List PathStep) {child : Node} : ∀ (items : List Node)
    (position next i : Nat), items[i]? = some child →
    ∃ before after, elidedItems declared limits path position items =
        before ++ elided declared limits (path ++ [.index (position + i)]) child ++ after ∧
      (viewItems declared limits path position next items)[i]? =
        some (view declared limits (path ++ [.index (position + i)]) (next + before.length) child)
  | item :: items, position, next, 0, h => by
      obtain rfl := Option.some.inj h
      exact ⟨[], elidedItems declared limits path (position + 1) items, rfl, rfl⟩
  | item :: items, position, next, i + 1, h => by
      obtain ⟨before, after, helided, hview⟩ := viewItems_item path items (position + 1)
        (next + (elided declared limits (path ++ [.index position]) item).length) i h
      rw [show position + 1 + i = position + (i + 1) by omega] at helided hview
      refine ⟨elided declared limits (path ++ [.index position]) item ++ before, after, ?_, ?_⟩
      · rw [elidedItems, helided, List.append_assoc, List.append_assoc, List.append_assoc]
      · rw [viewItems, List.getElem?_cons_succ, hview, List.length_append, Nat.add_assoc]

theorem viewMembers_member (path : List PathStep) {key : JsonString} {child : Node} :
    ∀ (members : List (JsonString × Node)) (next : Nat), (key, child) ∈ members →
    ∃ before after, elidedMembers declared limits path members =
        before ++ elided declared limits (path ++ [.key key.decoded]) child ++ after ∧
      (key, view declared limits (path ++ [.key key.decoded]) (next + before.length) child) ∈
        viewMembers declared limits path next members
  | (first, value) :: members, next, h => by
      rcases List.mem_cons.mp h with heq | hmem
      · obtain ⟨rfl, rfl⟩ := Prod.mk.inj heq
        exact ⟨[], elidedMembers declared limits path members, rfl, List.mem_cons_self⟩
      · obtain ⟨before, after, helided, hview⟩ := viewMembers_member path members
          (next + (elided declared limits (path ++ [.key first.decoded]) value).length) hmem
        refine ⟨elided declared limits (path ++ [.key first.decoded]) value ++ before, after, ?_, ?_⟩
        · rw [elidedMembers, helided, List.append_assoc, List.append_assoc, List.append_assoc]
        · rw [viewMembers, List.length_append, ← Nat.add_assoc]
          exact List.mem_cons_of_mem _ hview

/-- The string at a path stays, or the placeholder with its number stands there. -/
theorem at_view {node target : Node} {rest : List PathStep} (h : At node rest target)
    {string : JsonString} (hstring : target = .string string) :
    ∀ (path : List PathStep) (next : Nat),
    (elides declared limits (path ++ rest) string.decoded = true →
      ∃ i, (elided declared limits path node)[i]? = some string.decoded ∧
        At (view declared limits path next node) rest
          (.object (placeholderFor limits (next + i) string.decoded))) ∧
    (elides declared limits (path ++ rest) string.decoded = false →
      At (view declared limits path next node) rest (.string string)) := by
  induction h with
  | here node =>
      intro path next
      rw [hstring, List.append_nil, elided, view]
      constructor
      · intro hout
        rw [if_pos hout, if_pos hout]
        exact ⟨0, rfl, .here _⟩
      · intro hstays
        rw [if_neg (Bool.eq_false_iff.mp hstays)]
        exact .here _
  | @item items position child node rest hitem h ih =>
      intro path next
      obtain ⟨before, after, helided, hview⟩ :=
        viewItems_item declared limits path items 0 next position hitem
      rw [Nat.zero_add] at helided hview
      obtain ⟨hout, hstays⟩ := ih hstring (path ++ [.index position]) (next + before.length)
      rw [List.append_assoc, List.singleton_append] at hout hstays
      rw [elided, view, helided]
      constructor
      · intro helides
        obtain ⟨i, htext, hat⟩ := hout helides
        have hbound := (List.getElem?_eq_some_iff.mp htext).1
        refine ⟨before.length + i, ?_, .item hview (by rwa [← Nat.add_assoc])⟩
        rwa [List.append_assoc, List.getElem?_append_right (Nat.le_add_right _ _),
          Nat.add_sub_cancel_left, List.getElem?_append_left hbound]
      · intro hkept
        exact .item hview (hstays hkept)
  | @member members key child node rest hmember h ih =>
      intro path next
      obtain ⟨before, after, helided, hview⟩ :=
        viewMembers_member declared limits path members next hmember
      obtain ⟨hout, hstays⟩ := ih hstring (path ++ [.key key.decoded]) (next + before.length)
      rw [List.append_assoc, List.singleton_append] at hout hstays
      rw [elided, view, helided]
      constructor
      · intro helides
        obtain ⟨i, htext, hat⟩ := hout helides
        have hbound := (List.getElem?_eq_some_iff.mp htext).1
        refine ⟨before.length + i, ?_, .member hview (by rwa [← Nat.add_assoc])⟩
        rwa [List.append_assoc, List.getElem?_append_right (Nat.le_add_right _ _),
          Nat.add_sub_cancel_left, List.getElem?_append_left hbound]
      · intro hkept
        exact .member hview (hstays hkept)

/-! ## Elision as a whole -/

/-- What a view and its blobs are to the tree of a document. -/
structure Lossless (node tree : Node) (blobs : List BlobV1) : Prop where
  ids : blobs.map (·.id) = (List.range blobs.length).map blobId
  placeholders :
    List.Forall₂ (Describes limits) blobs ((objectsOf tree).filter hasReserved)
  restored : meant (restore blobs tree) = meant node
  kept : ∀ path string, At node path (.string string) →
    ¬Elides declared limits path string.decoded → At tree path (.string string)
  out : ∀ path string, At node path (.string string) → Elides declared limits path string.decoded →
    ∃ blob ∈ blobs, ∃ members, blob.bytes = bytes string.decoded ∧
      Describes limits blob members ∧ At tree path (.object members)

theorem view_lossless (node : Node) (h : Unreserved (objectsOf node)) :
    Lossless declared limits node (view declared limits [] 0 node)
      (blobsFrom 0 (elided declared limits [] node)) := by
  refine ⟨?_, ?_, ?_, ?_, ?_⟩
  · rw [blobsFrom_ids, length_blobsFrom, List.range_eq_range']
  · rw [reserved_view declared limits node [] 0 h]
    exact describes_placeholders limits 0 _
  · exact restore_view declared limits node [] 0 h fun i text htext => find?_blobsFrom htext
  · intro path string hat hkept
    refine (at_view declared limits hat rfl [] 0).2 (Bool.eq_false_iff.mpr fun helides => hkept ?_)
    rwa [elides_iff] at helides
  · intro path string hat hout
    obtain ⟨i, htext, hplace⟩ := (at_view declared limits hat rfl [] 0).1 ((elides_iff declared limits).mpr hout)
    have hblob := blobsFrom_getElem? 0 (elided declared limits [] node) i
    rw [htext, Option.map_some] at hblob
    exact ⟨_, List.mem_of_getElem? hblob, _, rfl,
      ⟨⟨string.decoded, _, rfl, utf8Prefix_isHead _ _, rfl⟩, rfl⟩, hplace⟩

/-- A key no object of a document may have. -/
def BadKeys (members : List (JsonString × Node)) : Prop :=
  (∃ member ∈ members, isReserved member.1.decoded = true) ∨
    (∃ member ∈ members, limits.inlineStringBytes < (bytes member.1.decoded).length) ∨
    ¬(members.map fun member => member.1.decoded).Nodup

theorem KeysFine.not_bad {members : List (JsonString × Node)} (h : KeysFine limits members) :
    ¬BadKeys limits members := by
  rintro (⟨member, hmember, hreserved⟩ | ⟨member, hmember, hlong⟩ | hrepeated)
  · exact Bool.false_ne_true ((h.unreserved member hmember).symm.trans hreserved)
  · exact absurd (h.short member hmember) (Nat.not_le.mpr hlong)
  · exact hrepeated h.distinct

theorem KeysFine.not_reserved {members : List (JsonString × Node)} (h : KeysFine limits members) :
    hasReserved members = false := by
  simpa [hasReserved] using h.unreserved

theorem elideV1_eq_ok {document : List UInt8} {text : String} {blobs : List BlobV1}
    (h : elideV1 declared limits document = .ok (text, blobs)) :
    ∃ node, parseBytes document = .ok node ∧
      (∀ members ∈ objectsOf node, KeysFine limits members) ∧
      blobs = blobsFrom 0 (elided declared limits [] node) ∧
      text = writeCompact (view declared limits [] 0 node) := by
  rw [elideV1, elideFrom, andThen_eq_ok, bind_eq_ok] at h
  obtain ⟨-, node, hparse, hvisit⟩ := h
  rw [bind_eq_ok] at hvisit
  obtain ⟨⟨out, after⟩, hvisit, hpure⟩ := hvisit
  cases hpure
  obtain ⟨rfl, hwrite, hkeys⟩ := visit_eq_ok declared limits node hvisit
  refine ⟨node, mapError_eq_ok.mp hparse, hkeys, rfl, ?_⟩
  rw [writeCompact, writeCompact, hwrite]

theorem parse_view {document : List UInt8} {node : Node} (h : parseBytes document = .ok node) :
    parseWithin (maxMediaJsonDepth + 2) (writeCompact (view declared limits [] 0 node)) =
      .ok (view declared limits [] 0 node) := by
  obtain ⟨text, -, hdocument⟩ := parseBytes_eq_ok.mp h
  generalize text.toList = chars at hdocument
  obtain ⟨-, hvalue, -⟩ := hdocument
  obtain ⟨viewed, hview⟩ := valueText_view declared limits node [] 0 _ _ hvalue
  rw [parseWithin_eq_ok, writeCompact, String.toList_ofList]
  exact documentText_write hview

/-- An elided document is a document whose placeholders are numbered in order, describe
their blobs and give the tree back, with just the strings out that a rule takes out; a
document with a forged, over-long or repeated key is refused. -/
theorem elision_is_lossless (document : List UInt8) :
    (∀ text blobs, elideV1 declared limits document = .ok (text, blobs) →
      ∃ node tree, parseBytes document = .ok node ∧
        parseWithin (maxMediaJsonDepth + 2) text = .ok tree ∧
        Lossless declared limits node tree blobs) ∧
    (∀ node members, parseBytes document = .ok node → members ∈ objectsOf node →
      BadKeys limits members → ∃ e, elideV1 declared limits document = .error e) := by
  constructor
  · intro text blobs h
    obtain ⟨node, hparse, hkeys, rfl, rfl⟩ := elideV1_eq_ok declared limits h
    exact ⟨node, _, hparse, parse_view declared limits hparse,
      view_lossless declared limits node fun members hmem =>
        (hkeys members hmem).not_reserved limits⟩
  · intro node members hparse hmem hbad
    cases h : elideV1 declared limits document with
    | error e => exact ⟨e, rfl⟩
    | ok result =>
        obtain ⟨text, blobs⟩ := result
        obtain ⟨same, hsame, hkeys, -, -⟩ := elideV1_eq_ok declared limits h
        obtain rfl := Except.ok.inj (hparse.symm.trans hsame)
        exact absurd hbad ((hkeys members hmem).not_bad limits)

end

def imageUrl : PathPatternV1 := ⟨"/*/url", [.any, .exact "url"], by decide +kernel⟩

theorem declared_url_leaves :
    ∃ node tree, parseBytes (bytes "[\x7b\"url\":\"x\"\x7d]") = .ok node ∧
      parseWithin (maxMediaJsonDepth + 2)
        "[\x7b\"url\":\x7b\"$south.blob\":\x7b\"id\":\"b0\",\"bytes\":1,\"head\":\"x\"\x7d\x7d\x7d]" =
          .ok tree ∧
      Lossless [imageUrl] .v1 node tree [⟨"b0", bytes "x", true⟩] :=
  (elision_is_lossless [imageUrl] .v1 _).1 _ _ (by decide +kernel)

end TokenStation.Media
