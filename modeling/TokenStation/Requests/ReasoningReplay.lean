import TokenStation.Requests.ChatRequest

/-!
# Replayed reasoning

A message can carry the layout of an earlier turn: the order in which its parts, calls
and opaque items came. A layout is read only if it refers to each of them once.
-/

namespace TokenStation.Requests

open Library Library.Checked Library.Json Responses

def maxBlocks : Nat := 128

def familyKey : String := "reasoning_replay_protocol_family"
def layoutKey : String := "reasoning_replay_block_layout"

/-! ## References -/

/-- What must be there. -/
def required {α : Type} (value : Option α) : Except Unit α :=
  match value with
  | some value => .ok value
  | none => .error ()

/-- What a layout referred to so far, by place, and its entries in order. -/
structure LayoutState (ρ : Type) where
  items : List Bool
  parts : List Bool
  tools : List Bool
  ordered : List ρ

/-- Nothing is referred to yet. -/
def LayoutState.start {ρ : Type} (items parts tools : Nat) : LayoutState ρ :=
  ⟨List.replicate items false, List.replicate parts false, List.replicate tools false, []⟩

/-- Refer to a place, which must be there and must not have been referred to. -/
def referTo (refs : List Bool) (place : Nat) : Except Unit (List Bool) :=
  if refs[place]? = some false then .ok (refs.set place true) else .error ()

/-- The calls have ids, and no two the same. -/
def distinctCalls (calls : List ToolCall) : Bool :=
  calls.all (fun call => call.id ≠ "") && decide (calls.map ToolCall.id).Nodup

/-- The call with an id, and its place. -/
def callAt (calls : List ToolCall) (id : String) : Option (Nat × ToolCall) :=
  (calls.findIdx? fun call => call.id == id).bind fun place =>
    calls[place]?.map fun call => (place, call)

def asParts : Content → Option (List ContentPart)
  | .parts parts => some parts
  | .text _ => none

/-- An ordinal of an entry. -/
def ordinalOf (key : String) (object : List (String × Value)) : Option Nat :=
  (lookup key object).bind Value.asU64

/-! ## Claude's signed thinking -/

inductive ReplayRef where
  | content (part : ContentPart)
  | tool (call : ToolCall)

/-- Whether a part can be sent again; thinking needs its signature. -/
def isReplayable : ContentPart → Bool
  | .text _ | .redactedThinking _ => true
  | .thinking _ (some signature) => signature ≠ ""
  | .thinking _ none | .imageUrl _ | .unknown _ => false

/-- One entry of a layout. -/
def claudeEntry (parts : List ContentPart) (calls : List ToolCall) (s : LayoutState ReplayRef)
    (entry : Value) : Except Unit (LayoutState ReplayRef) := do
  let object ← required entry.asObject
  let kind := (lookup "kind" object).bind Value.asStr
  if kind = some "content" ∧ object.length = 2 then do
    let ordinal ← required (ordinalOf "ordinal" object)
    let refs ← referTo s.parts ordinal
    let part ← required parts[ordinal]?
    refuse (isReplayable part = false) ()
    return { s with parts := refs, ordered := s.ordered ++ [.content part] }
  else if kind = some "tool_call" ∧ object.length = 2 then do
    let id ← required ((lookup "call_id" object).bind Value.asStr)
    let found ← required (callAt calls id)
    let refs ← referTo s.tools found.1
    return { s with tools := refs, ordered := s.ordered ++ [.tool found.2] }
  else .error ()

def claudeTurn (message : Message) (family layout : Value) : Except Unit (List ReplayRef) := do
  refuse (family.asStr ≠ some claudeFamily) ()
  refuse (message.role ≠ .assistant) ()
  let layout ← required layout.asArray
  refuse (maxBlocks < layout.length) ()
  let parts ← required (message.content.bind asParts)
  refuse (distinctCalls message.toolCalls = false) ()
  let s ← layout.foldlM (claudeEntry parts message.toolCalls)
    (.start 0 parts.length message.toolCalls.length)
  refuse ((s.parts.all id && s.tools.all id) = false) ()
  return s.ordered

/-- The entries of a turn with a layout, or nothing for a message without one; refused
where the markers form no turn. -/
def validatedLayout (message : Message) : Except Unit (Option (List ReplayRef)) :=
  match lookup familyKey message.extensions, lookup layoutKey message.extensions with
  | none, none => .ok none
  | some family, some layout => (claudeTurn message family layout).map some
  | _, _ => .error ()

/-! ## OpenAI's encrypted reasoning -/

def openaiFamily : String := "openai-encrypted-reasoning"
def openaiItems : String := "responses_opaque_reasoning_items"
def maxOpenaiItemBytes : Nat := 1024 * 1024
def maxOpenaiMessageBytes : Nat := 4 * 1024 * 1024

inductive OpenAiReplayRef where
  | item (item : Value)
  | text (text : String)
  | tool (call : ToolCall)

def isOpenaiFamily (message : Message) : Bool := replayFamily message == some openaiFamily

/-- The bytes of an item's encrypted content, if the item is a valid one. -/
def validItem (item : Value) : Except Unit Nat := do
  let object ← required item.asObject
  refuse ((object.all fun entry =>
    ["type", "id", "summary", "encrypted_content", "content"].contains entry.1) = false) ()
  refuse ((lookup "type" object).bind Value.asStr ≠ some "reasoning") ()
  refuse ((((lookup "id" object).bind Value.asStr).any fun id => id ≠ "") = false) ()
  refuse (((lookup "summary" object).any Value.isArray) = false) ()
  refuse (((lookup "content" object).all Value.isArray) = false) ()
  let encrypted ← required ((lookup "encrypted_content" object).bind Value.asStr)
  refuse ((encrypted ≠ "" && !"tsr.".toList.isPrefixOf encrypted.toList &&
    encrypted.utf8ByteSize ≤ maxOpenaiItemBytes) = false) ()
  return encrypted.utf8ByteSize

/-- One entry of a layout. -/
def openaiEntry (items : List Value) (parts : List ContentPart) (calls : List ToolCall)
    (s : LayoutState OpenAiReplayRef) (entry : Value) :
    Except Unit (LayoutState OpenAiReplayRef) := do
  let object ← required entry.asObject
  refuse (object.length ≠ 2) ()
  let kind := (lookup "kind" object).bind Value.asStr
  if kind = some "reasoning_item" then do
    let index ← required (ordinalOf "index" object)
    let refs ← referTo s.items index
    let item ← required items[index]?
    return { s with items := refs, ordered := s.ordered ++ [.item item] }
  else if kind = some "content" then do
    let index ← required (ordinalOf "ordinal" object)
    let refs ← referTo s.parts index
    let part ← required parts[index]?
    let text ← required part.asText
    return { s with parts := refs, ordered := s.ordered ++ [.text text] }
  else if kind = some "tool_call" then do
    let id ← required ((lookup "call_id" object).bind Value.asStr)
    let found ← required (callAt calls id)
    let refs ← referTo s.tools found.1
    return { s with tools := refs, ordered := s.ordered ++ [.tool found.2] }
  else .error ()

/-- A part that a layout may leave out. -/
def isUnsignedThinking : ContentPart → Bool
  | .thinking _ none => true
  | _ => false

def openaiParts (message : Message) : Option (List ContentPart) :=
  match message.content with
  | none => some []
  | some content => asParts content

def openaiTurn (message : Message) : Except Unit (List OpenAiReplayRef) := do
  let layout ← required ((lookup layoutKey message.extensions).bind Value.asArray)
  let items ← required ((lookup openaiItems message.extensions).bind Value.asArray)
  refuse (message.role ≠ .assistant ∨ maxBlocks < layout.length) ()
  let sizes ← items.mapM validItem
  refuse (maxOpenaiMessageBytes < sizes.sum) ()
  let parts ← required (openaiParts message)
  refuse (distinctCalls message.toolCalls = false) ()
  let s ← layout.foldlM (openaiEntry items parts message.toolCalls)
    (.start items.length parts.length message.toolCalls.length)
  refuse (((parts.zip s.parts).all (fun part => part.2 || isUnsignedThinking part.1) &&
    s.items.all id && s.tools.all id) = false) ()
  return s.ordered

/-- The entries of an OpenAI turn, or nothing for a message of another family. -/
def openaiLayout (message : Message) : Except Unit (Option (List OpenAiReplayRef)) :=
  if isOpenaiFamily message then (openaiTurn message).map some else .ok none

/-! ## Each once -/

section Referred

variable {α β : Type}

/-- The elements that were referred to. -/
def referred (xs : List α) (refs : List Bool) : List α :=
  (xs.zip refs).filterMap fun x => if x.2 then some x.1 else none

theorem required_eq_ok {value : Option α} {a : α} : required value = .ok a ↔ value = some a := by
  cases value <;> simp [required]

theorem referTo_eq_ok {refs next : List Bool} {place : Nat} :
    referTo refs place = .ok next ↔ refs[place]? = some false ∧ refs.set place true = next := by
  unfold referTo
  split <;> simp_all

theorem referred_true (x : α) (xs : List α) (refs : List Bool) :
    referred (x :: xs) (true :: refs) = x :: referred xs refs := rfl

theorem referred_false (x : α) (xs : List α) (refs : List Bool) :
    referred (x :: xs) (false :: refs) = referred xs refs := rfl

/-- Referring to a place adds its element. -/
theorem referred_set {xs : List α} {refs : List Bool} {place : Nat} {x : α}
    (hfalse : refs[place]? = some false) (hx : xs[place]? = some x) :
    (referred xs (refs.set place true)).Perm (x :: referred xs refs) := by
  induction xs generalizing refs place with
  | nil => simp at hx
  | cons y xs ih =>
      cases refs with
      | nil => simp at hfalse
      | cons r refs =>
          cases place with
          | zero =>
              obtain rfl : r = false := by simpa using hfalse
              obtain rfl : y = x := by simpa using hx
              rfl
          | succ place =>
              have hrest := ih (by simpa using hfalse) (by simpa using hx)
              cases r with
              | false => exact hrest
              | true => exact (hrest.cons y).trans (.swap x y _)

/-- What was not referred to does not count where it says nothing. -/
theorem filterMap_referred {f : α → Option β} {xs : List α} {refs : List Bool}
    (hlength : refs.length = xs.length)
    (h : ∀ x ∈ xs.zip refs, x.2 = true ∨ f x.1 = none) :
    (referred xs refs).filterMap f = xs.filterMap f := by
  induction xs generalizing refs with
  | nil => rfl
  | cons x xs ih =>
      cases refs with
      | nil => simp at hlength
      | cons r refs =>
          have hrest := ih (by simpa using hlength)
            fun y hy => h y (by simp [List.zip_cons_cons, hy])
          cases r with
          | true => rw [referred_true, List.filterMap_cons, List.filterMap_cons, hrest]
          | false =>
              have hnone : f x = none := by simpa using h (x, false) (by simp)
              rw [referred_false, List.filterMap_cons_none hnone, hrest]

theorem referred_replicate (xs : List α) :
    referred xs (List.replicate xs.length false) = [] := by
  induction xs with
  | nil => rfl
  | cons x xs ih => exact ih

/-- Everything was referred to. -/
theorem referred_of_all {xs : List α} {refs : List Bool} (hlength : refs.length = xs.length)
    (h : refs.all id = true) : referred xs refs = xs := by
  have hall := filterMap_referred (f := some) hlength fun x hx =>
    .inl (List.all_eq_true.mp h x.2 (List.of_mem_zip hx).2)
  simpa using hall

theorem callAt_eq_some {calls : List ToolCall} {id : String} {found : Nat × ToolCall}
    (h : callAt calls id = some found) : calls[found.1]? = some found.2 := by
  obtain ⟨place, -, h⟩ := Option.bind_eq_some_iff.mp h
  obtain ⟨call, hcall, rfl⟩ := Option.map_eq_some_iff.mp h
  exact hcall

end Referred

/-! ## Turns -/

/-- The entries so far are what was referred to so far, each written its way. -/
structure LayoutState.Holds {ρ : Type} (s : LayoutState ρ) (items : List Value)
    (parts : List ContentPart) (calls : List ToolCall) (item : Value → Option ρ)
    (content : ContentPart → Option ρ) (tool : ToolCall → ρ) : Prop where
  items_length : s.items.length = items.length
  parts_length : s.parts.length = parts.length
  tools_length : s.tools.length = calls.length
  ordered : s.ordered.Perm ((referred items s.items).filterMap item ++
    (referred parts s.parts).filterMap content ++ (referred calls s.tools).map tool)

namespace LayoutState.Holds

variable {ρ : Type} {s : LayoutState ρ} {items : List Value} {parts : List ContentPart}
  {calls : List ToolCall} {item : Value → Option ρ} {content : ContentPart → Option ρ}
  {tool : ToolCall → ρ} {refs : List Bool} {place : Nat}

theorem start : (LayoutState.start items.length parts.length calls.length).Holds items parts calls
    item content tool :=
  ⟨List.length_replicate, List.length_replicate, List.length_replicate, by
    simp [LayoutState.start, referred_replicate]⟩

theorem item_step (h : s.Holds items parts calls item content tool)
    (hrefs : referTo s.items place = .ok refs) {value : Value}
    (hvalue : items[place]? = some value) {entry : ρ} (hentry : item value = some entry) :
    LayoutState.Holds { s with items := refs, ordered := s.ordered ++ [entry] } items parts calls
      item content tool := by
  obtain ⟨hfalse, rfl⟩ := referTo_eq_ok.mp hrefs
  refine ⟨by simpa using h.items_length, h.parts_length, h.tools_length, ?_⟩
  have hnew := (referred_set hfalse hvalue).filterMap item
  rw [List.filterMap_cons_some hentry] at hnew
  have hlast : (s.ordered ++ [entry]).Perm (entry :: s.ordered) :=
    List.perm_append_singleton _ _
  refine (hlast.trans (h.ordered.cons _)).trans ?_
  exact (hnew.symm.append_right _).append_right _

theorem part_step (h : s.Holds items parts calls item content tool)
    (hrefs : referTo s.parts place = .ok refs) {part : ContentPart}
    (hpart : parts[place]? = some part) {entry : ρ} (hentry : content part = some entry) :
    LayoutState.Holds { s with parts := refs, ordered := s.ordered ++ [entry] } items parts calls
      item content tool := by
  obtain ⟨hfalse, rfl⟩ := referTo_eq_ok.mp hrefs
  refine ⟨h.items_length, by simpa using h.parts_length, h.tools_length, ?_⟩
  have hnew := (referred_set hfalse hpart).filterMap content
  rw [List.filterMap_cons_some hentry] at hnew
  have hlast : (s.ordered ++ [entry]).Perm (entry :: s.ordered) :=
    List.perm_append_singleton _ _
  refine (hlast.trans (h.ordered.cons _)).trans ?_
  refine List.Perm.trans ?_ ((hnew.symm.append_left _).append_right _)
  rw [List.append_assoc, List.append_assoc, List.cons_append]
  exact List.perm_middle.symm

theorem tool_step (h : s.Holds items parts calls item content tool)
    (hrefs : referTo s.tools place = .ok refs) {call : ToolCall} (hcall : calls[place]? = some call) :
    LayoutState.Holds { s with tools := refs, ordered := s.ordered ++ [tool call] } items parts
      calls item content tool := by
  obtain ⟨hfalse, rfl⟩ := referTo_eq_ok.mp hrefs
  refine ⟨h.items_length, h.parts_length, by simpa using h.tools_length, ?_⟩
  have hnew := (referred_set hfalse hcall).map tool
  have hlast : (s.ordered ++ [tool call]).Perm (tool call :: s.ordered) :=
    List.perm_append_singleton _ _
  refine (hlast.trans (h.ordered.cons _)).trans ?_
  exact List.perm_middle.symm.trans (hnew.symm.append_left _)

end LayoutState.Holds

theorem claudeEntry_holds {parts : List ContentPart} {calls : List ToolCall}
    {s next : LayoutState ReplayRef} {entry : Value}
    (h : claudeEntry parts calls s entry = .ok next)
    (hs : s.Holds [] parts calls (fun _ => none) (fun part => some (.content part)) .tool) :
    next.Holds [] parts calls (fun _ => none) (fun part => some (.content part)) .tool := by
  obtain ⟨object, -, h⟩ := bind_eq_ok.mp h
  dsimp only at h
  split_ifs at h
  · obtain ⟨ordinal, -, h⟩ := bind_eq_ok.mp h
    obtain ⟨refs, hrefs, h⟩ := bind_eq_ok.mp h
    obtain ⟨part, hpart, h⟩ := bind_eq_ok.mp h
    obtain ⟨-, h⟩ := andThen_eq_ok.mp h
    cases h
    exact hs.part_step hrefs (required_eq_ok.mp hpart) rfl
  · obtain ⟨id, -, h⟩ := bind_eq_ok.mp h
    obtain ⟨found, hfound, h⟩ := bind_eq_ok.mp h
    obtain ⟨refs, hrefs, h⟩ := bind_eq_ok.mp h
    cases h
    exact hs.tool_step hrefs (callAt_eq_some (required_eq_ok.mp hfound))

theorem openaiEntry_holds {items : List Value} {parts : List ContentPart} {calls : List ToolCall}
    {s next : LayoutState OpenAiReplayRef} {entry : Value}
    (h : openaiEntry items parts calls s entry = .ok next)
    (hs : s.Holds items parts calls (fun value => some (.item value))
      (fun part => part.asText.map .text) .tool) :
    next.Holds items parts calls (fun value => some (.item value))
      (fun part => part.asText.map .text) .tool := by
  obtain ⟨object, -, h⟩ := bind_eq_ok.mp h
  obtain ⟨-, h⟩ := andThen_eq_ok.mp h
  dsimp only at h
  split_ifs at h
  · obtain ⟨index, -, h⟩ := bind_eq_ok.mp h
    obtain ⟨refs, hrefs, h⟩ := bind_eq_ok.mp h
    obtain ⟨item, hitem, h⟩ := bind_eq_ok.mp h
    cases h
    exact hs.item_step hrefs (required_eq_ok.mp hitem) rfl
  · obtain ⟨index, -, h⟩ := bind_eq_ok.mp h
    obtain ⟨refs, hrefs, h⟩ := bind_eq_ok.mp h
    obtain ⟨part, hpart, h⟩ := bind_eq_ok.mp h
    obtain ⟨text, htext, h⟩ := bind_eq_ok.mp h
    cases h
    exact hs.part_step hrefs (required_eq_ok.mp hpart) (by rw [required_eq_ok.mp htext]; rfl)
  · obtain ⟨id, -, h⟩ := bind_eq_ok.mp h
    obtain ⟨found, hfound, h⟩ := bind_eq_ok.mp h
    obtain ⟨refs, hrefs, h⟩ := bind_eq_ok.mp h
    cases h
    exact hs.tool_step hrefs (callAt_eq_some (required_eq_ok.mp hfound))

/-- A Claude turn is the parts and the calls of its message, each once. -/
theorem perm_of_validatedLayout {message : Message} {turn : List ReplayRef}
    (h : validatedLayout message = .ok (some turn)) :
    ∃ parts, message.content = some (.parts parts) ∧
      turn.Perm (parts.map .content ++ message.toolCalls.map .tool) := by
  unfold validatedLayout at h
  split at h
  · cases h
  · obtain ⟨_, hturn, h⟩ := map_eq_ok.mp h
    cases h
    obtain ⟨-, h⟩ := andThen_eq_ok.mp hturn
    obtain ⟨-, h⟩ := andThen_eq_ok.mp h
    obtain ⟨entries, -, h⟩ := bind_eq_ok.mp h
    obtain ⟨-, h⟩ := andThen_eq_ok.mp h
    obtain ⟨parts, hparts, h⟩ := bind_eq_ok.mp h
    obtain ⟨-, h⟩ := andThen_eq_ok.mp h
    obtain ⟨s, hrun, h⟩ := bind_eq_ok.mp h
    obtain ⟨hall, h⟩ := andThen_eq_ok.mp h
    cases h
    have hholds := foldlM_keeps (fun _ _ _ _ hstep hs => claudeEntry_holds hstep hs)
      LayoutState.Holds.start hrun
    obtain ⟨hallParts, hallTools⟩ : s.parts.all id = true ∧ s.tools.all id = true := by
      simpa using refuse_eq_ok.mp hall
    have hordered := hholds.ordered
    rw [referred_of_all hholds.parts_length hallParts,
      referred_of_all hholds.tools_length hallTools] at hordered
    obtain ⟨content, hcontent, hasParts⟩ := Option.bind_eq_some_iff.mp (required_eq_ok.mp hparts)
    cases content with
    | text text => cases hasParts
    | parts given =>
        cases hasParts
        exact ⟨parts, hcontent, by simpa [referred, List.filterMap_eq_map] using hordered⟩
  · cases h

def lookupCall : ToolCall := ⟨"c", "lookup", "", none⟩

/-- A turn in another order than its message. -/
def signedMessage : Message :=
  ⟨.assistant, some (.parts [.thinking "t" (some "s"), .text "a"]), [lookupCall], none, none,
    [(familyKey, .string claudeFamily),
      (layoutKey, .array [.obj [("kind", .string "content"), ("ordinal", .nat 1)],
        .obj [("kind", .string "tool_call"), ("call_id", .string "c")],
        .obj [("kind", .string "content"), ("ordinal", .nat 0)]])]⟩

theorem signedMessage_once :
    ∃ parts, signedMessage.content = some (.parts parts) ∧
      [ReplayRef.content (.text "a"), .tool lookupCall, .content (.thinking "t" (some "s"))].Perm
        (parts.map .content ++ [lookupCall].map .tool) :=
  @perm_of_validatedLayout signedMessage _ rfl

theorem asText_of_isUnsignedThinking {part : ContentPart} (h : isUnsignedThinking part = true) :
    part.asText = none := by
  cases part with
  | thinking => rfl
  | _ => cases h

/-- An OpenAI turn is the items, the texts and the calls of its message, each once. -/
theorem perm_of_openaiLayout {message : Message} {turn : List OpenAiReplayRef}
    (h : openaiLayout message = .ok (some turn)) :
    ∃ items parts, lookup openaiItems message.extensions = some (.array items) ∧
      openaiParts message = some parts ∧
      turn.Perm (items.map .item ++ (parts.filterMap ContentPart.asText).map .text ++
        message.toolCalls.map .tool) := by
  unfold openaiLayout at h
  split at h
  · obtain ⟨_, hturn, h⟩ := map_eq_ok.mp h
    cases h
    obtain ⟨layout, -, h⟩ := bind_eq_ok.mp hturn
    obtain ⟨items, hitems, h⟩ := bind_eq_ok.mp h
    obtain ⟨-, h⟩ := andThen_eq_ok.mp h
    obtain ⟨sizes, -, h⟩ := bind_eq_ok.mp h
    obtain ⟨-, h⟩ := andThen_eq_ok.mp h
    obtain ⟨parts, hparts, h⟩ := bind_eq_ok.mp h
    obtain ⟨-, h⟩ := andThen_eq_ok.mp h
    obtain ⟨s, hrun, h⟩ := bind_eq_ok.mp h
    obtain ⟨hall, h⟩ := andThen_eq_ok.mp h
    cases h
    have hholds := foldlM_keeps (fun _ _ _ _ hstep hs => openaiEntry_holds hstep hs)
      LayoutState.Holds.start hrun
    rw [refuse_eq_ok, Bool.not_eq_false, Bool.and_eq_true, Bool.and_eq_true] at hall
    obtain ⟨⟨hallParts, hallItems⟩, hallTools⟩ := hall
    have hordered := hholds.ordered
    have htexts := filterMap_referred hholds.parts_length
      (f := fun part : ContentPart => part.asText.map OpenAiReplayRef.text) fun part hpart => by
        rcases Bool.or_eq_true_iff.mp (List.all_eq_true.mp hallParts part hpart) with hr | hunsigned
        · exact .inl hr
        · right
          rw [asText_of_isUnsignedThinking hunsigned, Option.map_none]
    rw [referred_of_all hholds.items_length hallItems, htexts,
      referred_of_all hholds.tools_length hallTools] at hordered
    obtain ⟨value, hvalue, harray⟩ := Option.bind_eq_some_iff.mp (required_eq_ok.mp hitems)
    cases value with
    | array given =>
        cases harray
        refine ⟨items, parts, hvalue, required_eq_ok.mp hparts, ?_⟩
        simpa [List.map_filterMap, List.filterMap_eq_map'] using hordered
    | _ => cases harray
  · cases h

def encryptedItem : Value :=
  .obj [("type", .string "reasoning"), ("id", .string "r"), ("summary", .array []),
    ("encrypted_content", .string "e")]

/-- A call, an encrypted item and a text; the unsigned thought is left out. -/
def encryptedMessage : Message :=
  ⟨.assistant, some (.parts [.thinking "t" none, .text "a"]), [lookupCall], none, none,
    [(familyKey, .string openaiFamily), (openaiItems, .array [encryptedItem]),
      (layoutKey, .array [.obj [("kind", .string "tool_call"), ("call_id", .string "c")],
        .obj [("kind", .string "reasoning_item"), ("index", .nat 0)],
        .obj [("kind", .string "content"), ("ordinal", .nat 1)]])]⟩

theorem encryptedMessage_once :
    ∃ items parts, lookup openaiItems encryptedMessage.extensions = some (.array items) ∧
      openaiParts encryptedMessage = some parts ∧
      [OpenAiReplayRef.tool lookupCall, .item encryptedItem, .text "a"].Perm
        (items.map .item ++ (parts.filterMap ContentPart.asText).map .text ++
          [lookupCall].map .tool) :=
  @perm_of_openaiLayout encryptedMessage _ rfl

end TokenStation.Requests
