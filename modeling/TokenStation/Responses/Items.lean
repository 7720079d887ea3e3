import TokenStation.Responses.Envelope

/-!
# What an event does to the items

The renderer keeps its books inside nested steps that can fail. Read off the
successful runs, each event is a total change of the output items, and emits
frames that belong to them: the state after an accepted event is `after`, and
`emits` lists, for each output index, what its frames say about the item.
-/

namespace TokenStation.Responses

open Library Library.Json Library.Fallible

/-! ## What a frame says about an item -/

def addedEvent : String := "response.output_item.added"

def doneEvent : String := "response.output_item.done"

/-- The output index of a frame about an item. -/
def ResponsesFrame.outputIndex (f : ResponsesFrame) : Option Nat :=
  (f.data.field "output_index").asU64

/-- The item a delta, part or done frame names. -/
def ResponsesFrame.itemId (f : ResponsesFrame) : Option String := (f.data.field "item_id").asStr

/-- The id of the item an added or done frame carries. -/
def ResponsesFrame.carriedId (f : ResponsesFrame) : Option String :=
  ((f.data.field "item").field "id").asStr

/-- A frame of an item: it announces the item, continues it or ends it. -/
inductive Mark where
  | added (id : Option String)
  | inner (id : Option String)
  | done (id : Option String)
deriving DecidableEq, Repr

def ResponsesFrame.mark (f : ResponsesFrame) : Mark :=
  if f.event = addedEvent then .added f.carriedId
  else if f.event = doneEvent then .done f.carriedId
  else .inner f.itemId

/-- What the frames say about one output index, in order. -/
def marks (frames : List ResponsesFrame) (index : Nat) : List Mark :=
  (frames.filter fun f => f.outputIndex == some index).map (·.mark)

@[simp] theorem marks_nil (index : Nat) : marks [] index = [] := rfl

@[simp] theorem marks_append (frames more : List ResponsesFrame) (index : Nat) :
    marks (frames ++ more) index = marks frames index ++ marks more index := by
  simp [marks]

/-- Marks at one output index only. -/
def onlyAt (index : Nat) (ms : List Mark) (q : Nat) : List Mark := if q = index then ms else []

/-- The step from `s` to `t` hands out frames with the marks `ms`. -/
def Emits (ms : Nat → List Mark) (s t : Rendering) : Prop :=
  ∀ q, marks t.out q = marks s.out q ++ ms q

theorem Emits.of_out {s t : Rendering} (h : t.out = s.out) : Emits (fun _ => []) s t := by
  intro q
  rw [h, List.append_nil]

theorem Emits.onlyAt_trans {index : Nat} {ms ns : List Mark} {s t u : Rendering}
    (h : Emits (onlyAt index ms) s t) (h' : Emits (onlyAt index ns) t u) :
    Emits (onlyAt index (ms ++ ns)) s u := by
  intro q
  rw [h' q, h q, List.append_assoc]
  by_cases hq : q = index <;> simp [onlyAt, hq]

theorem stamp_field {fields : List (String × Value)} (kind : String) (n : Nat) {key : String}
    (htype : key ≠ "type") (hnumber : key ≠ "sequence_number") :
    (stamp kind (.obj fields) n).field key = (lookup key fields).getD .null := by
  simp [stamp, Value.field, Ne.symm htype, Ne.symm hnumber]

theorem emit_marks {kind : String} {data : Value} {s t : Rendering}
    (h : Returns (emit kind data) s () t) :
    t.toItems = s.toItems ∧ ∃ n, Emits (marks [⟨kind, stamp kind data n⟩]) s t := by
  obtain rfl := emit_returns h
  refine ⟨rfl, s.sequence, fun q => ?_⟩
  rw [marks_append]

/-- An added frame announces the item it carries. -/
theorem emit_added {index : Nat} {item : Value} {s t : Rendering}
    (h : Returns (emit "response.output_item.added"
      (.obj [("output_index", .nat index), ("item", item)])) s () t) :
    t.toItems = s.toItems ∧ Emits (onlyAt index [.added (item.field "id").asStr]) s t := by
  obtain ⟨hitems, n, hmarks⟩ := emit_marks h
  refine ⟨hitems, fun q => (hmarks q).trans ?_⟩
  congr 1
  by_cases hq : q = index
  · simp [marks, ResponsesFrame.outputIndex, ResponsesFrame.mark, ResponsesFrame.carriedId,
      stamp_field, lookup, onlyAt, hq, addedEvent]
  · simp [marks, ResponsesFrame.outputIndex, stamp_field, lookup, onlyAt, hq, Ne.symm hq]

/-- A done frame ends the item it carries. -/
theorem emit_done {index : Nat} {item : Value} {s t : Rendering}
    (h : Returns (emit "response.output_item.done"
      (.obj [("output_index", .nat index), ("item", item)])) s () t) :
    t.toItems = s.toItems ∧ Emits (onlyAt index [.done (item.field "id").asStr]) s t := by
  obtain ⟨hitems, n, hmarks⟩ := emit_marks h
  refine ⟨hitems, fun q => (hmarks q).trans ?_⟩
  congr 1
  by_cases hq : q = index
  · simp [marks, ResponsesFrame.outputIndex, ResponsesFrame.mark, ResponsesFrame.carriedId,
      stamp_field, lookup, onlyAt, hq, addedEvent, doneEvent]
  · simp [marks, ResponsesFrame.outputIndex, stamp_field, lookup, onlyAt, hq, Ne.symm hq]

/-- Any other frame of an item names it. -/
theorem emit_inner {kind : String} (hadded : kind ≠ addedEvent) (hdone : kind ≠ doneEvent)
    {id : Value} {index : Nat} {fields : List (String × Value)} {s t : Rendering}
    (h : Returns (emit kind
      (.obj (("item_id", id) :: ("output_index", .nat index) :: fields))) s () t) :
    t.toItems = s.toItems ∧ Emits (onlyAt index [.inner id.asStr]) s t := by
  obtain ⟨hitems, n, hmarks⟩ := emit_marks h
  refine ⟨hitems, fun q => (hmarks q).trans ?_⟩
  congr 1
  by_cases hq : q = index
  · simp [marks, ResponsesFrame.outputIndex, ResponsesFrame.mark, ResponsesFrame.itemId,
      stamp_field, lookup, onlyAt, hq, hadded, hdone]
  · simp [marks, ResponsesFrame.outputIndex, stamp_field, lookup, onlyAt, hq, Ne.symm hq]

/-! ## Closing items -/

/-- The id of the item a slot becomes. -/
def Items.itemId (s : Items) (slot : Slot) : String :=
  match slot.kind with
  | .text | .reasoning => slot.id
  | .tool =>
      match resolvedKind (s.restore.getD []) slot.name with
      | .custom => "ctc_" ++ slot.callId
      | .shell => "ls_" ++ slot.callId
      | _ => "fc_" ++ slot.callId

/-- Slots in their places. -/
def Items.Indexed (s : Items) : Prop :=
  ∀ (q : Nat) (slot : Slot), s.slots[q]? = some slot → slot.index = q

def Items.touchSlot (s : Items) (position : Nat) (f : Slot → Slot) : Items :=
  { s with slots := s.slots.modify position f }

/-- Close a slot if it is selected. -/
def closing (select : Slot → Bool) (slot : Slot) : Slot :=
  if select slot then { slot with closed := true } else slot

section

variable (packages : Packages)

/-- The marks of a slot that closes. -/
def Items.closeMarks (s : Items) (slot : Slot) : List Mark :=
  let id := some (s.itemId slot)
  match slot.kind with
  | .text => [.inner (some slot.id), .inner (some slot.id), .done id]
  | .reasoning =>
      match s.context.reasoning with
      | .rawContent => [.inner (some slot.id), .done id]
      | .summary => [.inner (some slot.id), .inner (some slot.id), .done id]
  | .tool =>
      match s.restore.bind (Library.lookup slot.name) with
      | some .custom =>
          if (customInput packages slot.text).asStr = some "" then [.inner id, .done id]
          else [.inner id, .inner id, .done id]
      | some .shell => [.added id, .done id]
      | _ => [.inner (some slot.id), .done id]

/-- What closing the selected slots says about an output index. -/
def Items.closeEmits (s : Items) (select : Slot → Bool) (q : Nat) : List Mark :=
  match s.slots[q]? with
  | some slot => if select slot && !slot.closed then s.closeMarks packages slot else []
  | none => []

theorem toolItem_id {id name args status : String} {map : ToolMap} {item : Value}
    (h : toolItem packages id name args status map = .ok item) :
    (item.field "id").asStr = some (match resolvedKind map name with
      | .custom => "ctc_" ++ id
      | .shell => "ls_" ++ id
      | _ => "fc_" ++ id) := by
  unfold toolItem at h
  cases hkind : resolvedKind map name with
  | custom | search | namespaced | function =>
      simp only [hkind, Except.ok.injEq] at h
      subst h
      simp [Value.field, lookup]
  | shell =>
      simp only [hkind] at h
      split at h
      · cases h
      · split at h
        · cases h
          simp [Value.field, lookup]
        · cases h

theorem reasoningItem_id (id text : String) (signature : Option String)
    (context : ResponsesContext) :
    (reasoningItem id text signature context).isObject = true ∧
      (reasoningItem id text signature context).get "id" = some (.string id) := by
  unfold reasoningItem
  cases context.reasoning <;> cases context.renderLegacyEncryptedReasoning <;> simp [lookup]

theorem item_id {s : Items} {slot : Slot} {item : Value} (h : s.item packages slot = .ok item) :
    (item.field "id").asStr = some (s.itemId slot) := by
  unfold Items.item at h
  unfold Items.itemId
  cases hkind : slot.kind with
  | text =>
      simp only [hkind, Except.ok.injEq] at h
      subst h
      simp [Value.field, lookup]
  | reasoning =>
      obtain ⟨hobject, hid⟩ := reasoningItem_id slot.id slot.text
        (if slot.signature = "" then none else some slot.signature) s.context
      simp only [hkind] at h
      split at h
      · cases h
        simp [Value.field, hobject, hid]
      · cases h
        simp [Value.field, hid]
  | tool =>
      simp only [hkind] at h
      split at h
      · cases h
      · rename_i map hmap
        simpa [hmap] using toolItem_id packages h

/-- A custom call repeats its input before it ends. -/
theorem closeCustom_returns {text id : String} {index : Nat} {item : Value} {s t : Rendering}
    (hitem : (item.field "id").asStr = some id)
    (h : Returns (match (customInput packages text).asStr with
      | none => fail (invalid "tool_calls.arguments.input" "custom tool input must be a string")
      | some input => do
          when (input != "") (emit "response.custom_tool_call_input.delta" (.obj
            ([("item_id", item.field "id"), ("output_index", .nat index)] ++
              [("delta", .string input)])))
          emit "response.custom_tool_call_input.done" (.obj
            ([("item_id", item.field "id"), ("output_index", .nat index)] ++
              [("input", .string input)]))) s () t) :
    t.toItems = s.toItems ∧ ∃ content, Emits (onlyAt index content) s t ∧
      content ++ [.done (some id)] =
        if (customInput packages text).asStr = some "" then [.inner (some id), .done (some id)]
        else [.inner (some id), .inner (some id), .done (some id)] := by
  cases hinput : (customInput packages text).asStr with
  | none =>
      simp only [hinput] at h
      exact absurd h not_returns_fail
  | some input =>
      simp only [hinput] at h
      obtain ⟨_, u, hfirst, hsecond⟩ := returns_bind.mp h
      obtain ⟨hitems₂, hmarks₂⟩ := emit_inner (by decide) (by decide) hsecond
      rw [hitem] at hmarks₂
      rcases returns_when.mp hfirst with ⟨hne, hfirst⟩ | ⟨hempty, rfl⟩
      · obtain ⟨hitems₁, hmarks₁⟩ := emit_inner (by decide) (by decide) hfirst
        rw [hitem] at hmarks₁
        refine ⟨hitems₂.trans hitems₁, _, hmarks₁.onlyAt_trans hmarks₂, ?_⟩
        have hne : input ≠ "" := by simpa using hne
        simp [hne]
      · have hempty : input = "" := by simpa using hempty
        exact ⟨hitems₂, _, hmarks₂, by simp [hempty]⟩

theorem closeContent_returns {r : Rendering} {slot : Slot} {item : Value} {s t : Rendering}
    (hitem : (item.field "id").asStr = some (r.itemId slot))
    (h : Returns (closeContent packages r slot item) s () t) :
    t.toItems = s.toItems ∧ ∃ content, Emits (onlyAt slot.index content) s t ∧
      content ++ [.done (some (r.itemId slot))] = r.closeMarks packages slot := by
  unfold closeContent at h
  unfold Items.closeMarks
  cases hkind : slot.kind with
  | text =>
      simp only [hkind] at h ⊢
      obtain ⟨_, u, hfirst, hsecond⟩ := returns_bind.mp h
      obtain ⟨hitems₁, hmarks₁⟩ := emit_inner (by decide) (by decide) hfirst
      obtain ⟨hitems₂, hmarks₂⟩ := emit_inner (by decide) (by decide) hsecond
      exact ⟨hitems₂.trans hitems₁, _, hmarks₁.onlyAt_trans hmarks₂, rfl⟩
  | reasoning =>
      simp only [hkind] at h ⊢
      cases hmode : r.context.reasoning with
      | rawContent =>
          simp only [hmode] at h ⊢
          obtain ⟨hitems, hmarks⟩ := emit_inner (by decide) (by decide) h
          exact ⟨hitems, _, hmarks, rfl⟩
      | summary =>
          simp only [hmode] at h ⊢
          obtain ⟨_, u, hfirst, hsecond⟩ := returns_bind.mp h
          obtain ⟨hitems₁, hmarks₁⟩ := emit_inner (by decide) (by decide) hfirst
          obtain ⟨hitems₂, hmarks₂⟩ := emit_inner (by decide) (by decide) hsecond
          exact ⟨hitems₂.trans hitems₁, _, hmarks₁.onlyAt_trans hmarks₂, rfl⟩
  | tool =>
      simp only [hkind] at h ⊢
      cases hlookup : r.restore.bind (Library.lookup slot.name) with
      | none =>
          simp only [hlookup] at h ⊢
          obtain ⟨hitems, hmarks⟩ := emit_inner (by decide) (by decide) h
          exact ⟨hitems, _, hmarks, rfl⟩
      | some kind =>
          cases kind with
          | custom =>
              simp only [hlookup] at h ⊢
              exact closeCustom_returns packages hitem h
          | shell =>
              simp only [hlookup] at h ⊢
              obtain ⟨hitems, hmarks⟩ := emit_added h
              rw [hitem] at hmarks
              exact ⟨hitems, _, hmarks, rfl⟩
          | function | search | namespaced =>
              simp only [hlookup] at h ⊢
              obtain ⟨hitems, hmarks⟩ := emit_inner (by decide) (by decide) h
              exact ⟨hitems, _, hmarks, rfl⟩

theorem updateSlot_returns {position : Nat} {f : Slot → Slot} {s t : Rendering}
    (h : Returns (updateSlot position f) s () t) :
    t.toItems = s.toItems.touchSlot position f ∧ t.out = s.out := by
  obtain rfl := returns_modify.mp h
  exact ⟨rfl, rfl⟩

theorem touchSlot_congr {s : Items} {position : Nat} {slot : Slot} {f g : Slot → Slot}
    (hslot : s.slots[position]? = some slot) (h : f slot = g slot) :
    s.touchSlot position f = s.touchSlot position g := by
  unfold Items.touchSlot
  congr 1
  apply List.ext_getElem?
  intro q
  rw [List.getElem?_modify, List.getElem?_modify]
  by_cases hq : position = q
  · subst hq
    simp [hslot, h]
  · simp [hq]

theorem touchSlot_id {s : Items} {position : Nat} {slot : Slot} {f : Slot → Slot}
    (hslot : s.slots[position]? = some slot) (h : f slot = slot) :
    s.touchSlot position f = s := by
  rw [touchSlot_congr hslot (g := id) h]
  simp [Items.touchSlot]

theorem slotAt_of_getElem? {s : Items} {position : Nat} {slot : Slot}
    (h : s.slots[position]? = some slot) : s.slotAt position = slot := by
  simp [Items.slotAt, List.getD, h]

theorem close_returns {position : Nat} {slot : Slot} {s t : Rendering}
    (hslot : s.slots[position]? = some slot) (hindex : slot.index = position)
    (h : Returns (close packages position) s () t) :
    t.toItems = s.toItems.touchSlot position (closing fun _ => true) ∧
      Emits (onlyAt position (if slot.closed then [] else s.closeMarks packages slot)) s t := by
  rw [close, returns_get_bind, returns_when, slotAt_of_getElem? hslot] at h
  rcases h with ⟨hopen, h⟩ | ⟨hclosed, rfl⟩
  · obtain ⟨item, hitem, h⟩ := returns_lift_bind.mp h
    obtain ⟨_, s₁, hcontent, h⟩ := returns_bind.mp h
    obtain ⟨_, s₂, hdone, hupdate⟩ := returns_bind.mp h
    have hid := item_id packages hitem
    obtain ⟨hitems₁, content, hmarks₁, hcontent⟩ := closeContent_returns packages hid hcontent
    obtain ⟨hitems₂, hmarks₂⟩ := emit_done hdone
    obtain ⟨hitems₃, hout⟩ := updateSlot_returns hupdate
    have hopen : slot.closed = false := by simpa using hopen
    have hmarks := hmarks₁.onlyAt_trans hmarks₂
    rw [hid, hcontent, hindex] at hmarks
    refine ⟨?_, ?_⟩
    · rw [hitems₃, hitems₂, hitems₁]
      exact touchSlot_congr hslot rfl
    · intro q
      rw [hout, hmarks q]
      simp [hopen]
  · have hclosed : slot.closed = true := by simpa using hclosed
    refine ⟨(touchSlot_id hslot ?_).symm, ?_⟩
    · cases slot
      simp_all [closing]
    · intro q
      simp [hclosed, onlyAt]

/-- What one pass of a closing loop does. -/
def ClosesAt (select : Slot → Bool) (position : Nat) (s t : Rendering) : Prop :=
  t.toItems = s.toItems.touchSlot position (closing select) ∧
    Emits (onlyAt position (s.closeEmits packages select position)) s t

theorem indexed_touchSlot {s : Items} (hs : s.Indexed) (position : Nat) {f : Slot → Slot}
    (hf : ∀ slot, (f slot).index = slot.index) : (s.touchSlot position f).Indexed := by
  intro q slot hslot
  rw [Items.touchSlot, List.getElem?_modify] at hslot
  obtain ⟨slot', hslot', rfl⟩ := Option.map_eq_some_iff.mp hslot
  rw [← hs q slot' hslot']
  split
  · exact hf slot'
  · rfl

theorem closing_index (select : Slot → Bool) (slot : Slot) :
    (closing select slot).index = slot.index := by
  unfold closing
  split <;> rfl

theorem closing_kind (select : Slot → Bool) (slot : Slot) :
    (closing select slot).kind = slot.kind := by
  unfold closing
  split <;> rfl

/-- A loop over some positions closes the selected slots there. -/
theorem closes_forM {select : Slot → Bool} {body : Nat → Render PUnit}
    (hbody : ∀ (p : Nat) (s t : Rendering), p < s.slots.length → s.Indexed →
      Returns (body p) s () t → ClosesAt packages select p s t) :
    ∀ (l : List Nat) (s t : Rendering), l.Nodup → (∀ p ∈ l, p < s.slots.length) → s.Indexed →
      Returns (l.forM body) s () t →
      t.toItems = { s.toItems with slots := t.slots } ∧
        (∀ q, t.slots[q]? = s.slots[q]?.map (if q ∈ l then closing select else id)) ∧
        Emits (fun q => if q ∈ l then s.closeEmits packages select q else []) s t := by
  intro l
  induction l with
  | nil =>
      intro s t _ _ _ h
      obtain rfl := returns_forM_nil.mp h
      exact ⟨rfl, by simp, by intro q; simp⟩
  | cons p l ih =>
      intro s t hnodup hlt hindexed h
      obtain ⟨u, hfirst, hrest⟩ := returns_forM_cons.mp h
      obtain ⟨hp, hnodup⟩ := List.nodup_cons.mp hnodup
      obtain ⟨hitems, hmarks⟩ := hbody p s u (hlt p (by simp)) hindexed hfirst
      have hslots : u.slots = s.slots.modify p (closing select) :=
        congrArg Items.slots hitems
      have hget : ∀ q, u.slots[q]? = s.slots[q]?.map (if q = p then closing select else id) := by
        intro q
        rw [hslots, List.getElem?_modify]
        by_cases hq : p = q
        · simp [hq]
        · simp [hq, Ne.symm hq]
      obtain ⟨hitems', hget', hmarks'⟩ := ih u t hnodup
        (fun q hq => by simpa [hslots] using hlt q (by simp [hq]))
        (hitems ▸ indexed_touchSlot hindexed p (closing_index select)) hrest
      refine ⟨?_, ?_, ?_⟩
      · rw [hitems', hitems]
        rfl
      · intro q
        rw [hget' q, hget q]
        by_cases hq : q = p
        · subst hq
          simp [hp]
        · simp [hq]
      · intro q
        rw [hmarks' q, hmarks q]
        by_cases hq : q = p
        · subst hq
          simp [hp, onlyAt]
        · have hsame : u.closeEmits packages select q = s.closeEmits packages select q := by
            unfold Items.closeEmits
            rw [hget q, hitems]
            simp [hq]
            rfl
          simp [hq, onlyAt, hsame]

/-! ## Ending raw reasoning -/

/-- Whether text and tool calls of a choice end its reasoning. -/
def Items.endsRaw (s : Items) (index : Nat) : Bool :=
  !s.hasReplay index && s.context.reasoning == .rawContent

def isReasoningOf (index : Nat) (slot : Slot) : Bool :=
  slot.kind == .reasoning && slot.sourceIndex == index

def Items.closedRaw (s : Items) (index : Nat) : Items :=
  if s.endsRaw index then { s with slots := s.slots.map (closing (isReasoningOf index)) } else s

def Items.rawEmits (s : Items) (index q : Nat) : List Mark :=
  if s.endsRaw index then s.closeEmits packages (isReasoningOf index) q else []

theorem closeEmits_of_length {s : Items} {select : Slot → Bool} {q : Nat}
    (h : ¬q < s.slots.length) : s.closeEmits packages select q = [] := by
  unfold Items.closeEmits
  rw [List.getElem?_eq_none (Nat.not_lt.mp h)]

theorem closes_all {select : Slot → Bool} {body : Nat → Render PUnit}
    (hbody : ∀ (p : Nat) (s t : Rendering), p < s.slots.length → s.Indexed →
      Returns (body p) s () t → ClosesAt packages select p s t) {s t : Rendering}
    (hs : s.Indexed) (h : Returns ((List.range s.slots.length).forM body) s () t) :
    t.toItems = { s.toItems with slots := s.slots.map (closing select) } ∧
      Emits (s.closeEmits packages select) s t := by
  obtain ⟨hitems, hget, hmarks⟩ := closes_forM packages hbody (List.range s.slots.length) s t
    List.nodup_range (by simp) hs h
  refine ⟨?_, ?_⟩
  · have hslots : t.slots = s.slots.map (closing select) := by
      apply List.ext_getElem?
      intro q
      rw [hget q, List.getElem?_map]
      by_cases hq : q < s.slots.length
      · simp [hq]
      · simp [List.getElem?_eq_none (Nat.not_lt.mp hq)]
    rw [hitems, hslots]
  · intro q
    rw [hmarks q]
    by_cases hq : q < s.slots.length
    · simp [hq]
    · simp [hq, closeEmits_of_length packages hq]

/-- One pass of the loop that ends raw reasoning. -/
theorem closeRaw_pass {index p : Nat} {u v : Rendering} (hp : p < u.slots.length) (hu : u.Indexed)
    (h : Returns (do
      let s ← get
      let slot := s.slotAt p
      when (slot.kind == .reasoning && slot.sourceIndex == index) (close packages p)) u () v) :
    ClosesAt packages (isReasoningOf index) p u v := by
  obtain ⟨slot, hslot⟩ : ∃ slot, u.slots[p]? = some slot := ⟨_, List.getElem?_eq_getElem hp⟩
  rw [returns_get_bind, returns_when, slotAt_of_getElem? hslot] at h
  rcases h with ⟨hselect, hclose⟩ | ⟨hselect, rfl⟩
  · have hselect : isReasoningOf index slot = true := hselect
    obtain ⟨hitems, hmarks⟩ := close_returns packages hslot (hu p slot hslot) hclose
    refine ⟨hitems.trans (touchSlot_congr hslot (by simp [closing, hselect])), ?_⟩
    intro q
    rw [hmarks q]
    cases hclosed : slot.closed <;> simp [Items.closeEmits, hslot, hselect, hclosed]
  · have hselect : isReasoningOf index slot = false := hselect
    refine ⟨(touchSlot_id hslot (by simp [closing, hselect])).symm, ?_⟩
    intro q
    simp [Items.closeEmits, hslot, hselect, onlyAt]

theorem closeRawReasoning_returns {index : Nat} {s t : Rendering} (hs : s.Indexed)
    (h : Returns (closeRawReasoning packages index) s () t) :
    t.toItems = s.toItems.closedRaw index ∧ Emits (s.rawEmits packages index) s t := by
  rw [closeRawReasoning, returns_get_bind, returns_when] at h
  rcases h with ⟨hgo, h⟩ | ⟨hskip, rfl⟩
  · have hends : s.endsRaw index = true := hgo
    obtain ⟨hitems, hmarks⟩ := closes_all packages
      (fun p u v hp hu hbody => closeRaw_pass packages hp hu hbody) hs h
    refine ⟨by rw [hitems, Items.closedRaw, if_pos hends], ?_⟩
    intro q
    rw [hmarks q, Items.rawEmits, if_pos hends]
  · have hends : t.endsRaw index = false := hskip
    refine ⟨by rw [Items.closedRaw, hends]; rfl, ?_⟩
    intro q
    simp [Items.rawEmits, hends]

theorem closeAll_returns {s t : Rendering} (hs : s.Indexed)
    (h : Returns ((List.range s.slots.length).forM (close packages)) s () t) :
    t.toItems = { s.toItems with slots := s.slots.map (closing fun _ => true) } ∧
      Emits (s.closeEmits packages fun _ => true) s t := by
  apply closes_all packages _ hs h
  intro p u v hp hu hclose
  obtain ⟨slot, hslot⟩ : ∃ slot, u.slots[p]? = some slot := ⟨_, List.getElem?_eq_getElem hp⟩
  obtain ⟨hitems, hmarks⟩ := close_returns packages hslot (hu p slot hslot) hclose
  refine ⟨hitems, ?_⟩
  intro q
  rw [hmarks q]
  cases hclosed : slot.closed <;> simp [Items.closeEmits, hslot, hclosed]

end

/-! ## Finding slots -/

namespace Items

/-- Slots in their places, and the table of open slots names slots of its kind
and source. -/
structure Orderly (s : Items) : Prop where
  indexed : s.Indexed
  named : ∀ kind index position, Library.lookup (kind, index) s.lookup = some position →
    ∃ slot, s.slots[position]? = some slot ∧ slot.kind = kind ∧ slot.sourceIndex = index

/-- Where the item of a kind and source goes. -/
def place (s : Items) (kind : SlotKind) (index : Nat) : Nat :=
  (s.openSlot kind index).getD s.slots.length

def isNew (s : Items) (kind : SlotKind) (index : Nat) : Bool := (s.openSlot kind index).isNone

def placed (s : Items) (kind : SlotKind) (index : Nat) : Items :=
  if s.isNew kind index then
    { s with
      slots := s.slots ++ [s.newSlot kind index],
      lookup := store (kind, index) s.slots.length s.lookup }
  else s

end Items

theorem slot_returns {kind : SlotKind} {index : Nat} {p : Nat × Bool} {s t : Rendering}
    (h : Returns (slot kind index) s p t) :
    p = (s.place kind index, s.isNew kind index) ∧ t.toItems = s.toItems.placed kind index ∧
      t.out = s.out := by
  rw [slot, returns_get_bind] at h
  cases hopen : s.openSlot kind index with
  | some position =>
      simp only [hopen, returns_pure] at h
      obtain ⟨rfl, rfl⟩ := h
      simp [Items.place, Items.isNew, Items.placed, hopen]
  | none =>
      simp only [hopen] at h
      split at h
      · rw [returns_modify_bind, returns_pure] at h
        obtain ⟨rfl, rfl⟩ := h
        simp [Items.place, Items.isNew, Items.placed, hopen]
      · exact absurd h not_returns_fail

theorem openSlot_eq_some {s : Items} (hs : s.Orderly) {kind : SlotKind} {index position : Nat}
    (h : s.openSlot kind index = some position) :
    ∃ slot, s.slots[position]? = some slot ∧ slot.kind = kind ∧ slot.sourceIndex = index ∧
      slot.closed = false := by
  obtain ⟨hlookup, hopen⟩ := Option.filter_eq_some_iff.mp h
  obtain ⟨slot, hslot, hkind, hsource⟩ := hs.named kind index position hlookup
  rw [slotAt_of_getElem? hslot] at hopen
  exact ⟨slot, hslot, hkind, hsource, by simpa using hopen⟩

/-- The slot found or made has the kind and source asked for. -/
theorem placed_slot {s : Items} (hs : s.Orderly) (kind : SlotKind) (index : Nat) :
    ∃ slot, (s.placed kind index).slots[s.place kind index]? = some slot ∧ slot.kind = kind ∧
      slot.sourceIndex = index ∧ slot.closed = false ∧ slot.index = s.place kind index ∧
      (s.isNew kind index = true → slot = s.newSlot kind index) := by
  cases hopen : s.openSlot kind index with
  | some position =>
      obtain ⟨slot, hslot, hkind, hsource, hclosed⟩ := openSlot_eq_some hs hopen
      refine ⟨slot, ?_, hkind, hsource, hclosed, ?_, ?_⟩
      · simpa [Items.placed, Items.isNew, Items.place, hopen] using hslot
      · simpa [Items.place, hopen] using hs.indexed _ _ hslot
      · simp [Items.isNew, hopen]
  | none =>
      refine ⟨s.newSlot kind index, ?_, rfl, rfl, rfl, ?_, fun _ => rfl⟩
      · simp [Items.placed, Items.isNew, Items.place, hopen]
      · simp [Items.place, hopen, Items.newSlot]

theorem orderly_placed {s : Items} (hs : s.Orderly) (kind : SlotKind) (index : Nat) :
    (s.placed kind index).Orderly := by
  unfold Items.placed
  split
  · refine ⟨?_, ?_⟩
    · intro q slot hslot
      rw [List.getElem?_append] at hslot
      split at hslot
      · exact hs.indexed q slot hslot
      · rename_i hq
        obtain ⟨hlt, rfl⟩ := List.getElem?_eq_some_iff.mp hslot
        simp only [List.length_singleton] at hlt
        simp only [List.getElem_singleton, Items.newSlot]
        omega
    · intro k i position hlookup
      simp only [lookup_store] at hlookup
      split at hlookup
      · rename_i heq
        cases hlookup
        cases heq
        exact ⟨s.newSlot kind index, by simp, rfl, rfl⟩
      · obtain ⟨slot, hslot, hkind, hsource⟩ := hs.named k i position hlookup
        refine ⟨slot, ?_, hkind, hsource⟩
        rw [List.getElem?_append_left (List.getElem?_eq_some_iff.mp hslot).1]
        exact hslot
  · exact hs

/-- A change of slots that keeps their places, kinds and sources. -/
theorem Items.Orderly.map {s t : Items} (hs : s.Orderly) {f : Nat → Slot → Slot}
    (hslots : ∀ q, t.slots[q]? = s.slots[q]?.map (f q)) (hlookup : t.lookup = s.lookup)
    (hf : ∀ q slot, (f q slot).index = slot.index ∧ (f q slot).kind = slot.kind ∧
      (f q slot).sourceIndex = slot.sourceIndex) : t.Orderly := by
  refine ⟨?_, ?_⟩
  · intro q slot hslot
    rw [hslots] at hslot
    obtain ⟨slot', hslot', rfl⟩ := Option.map_eq_some_iff.mp hslot
    rw [(hf q slot').1]
    exact hs.indexed q slot' hslot'
  · intro kind index position h
    rw [hlookup] at h
    obtain ⟨slot, hslot, hkind, hsource⟩ := hs.named kind index position h
    refine ⟨f position slot, by rw [hslots, hslot]; rfl, ?_, ?_⟩
    · rw [(hf position slot).2.1, hkind]
    · rw [(hf position slot).2.2, hsource]

theorem orderly_closedRaw {s : Items} (hs : s.Orderly) (index : Nat) :
    (s.closedRaw index).Orderly := by
  unfold Items.closedRaw
  split
  · refine hs.map (f := fun _ => closing (isReasoningOf index)) (by simp) rfl ?_
    intro q slot
    unfold closing
    split <;> exact ⟨rfl, rfl, rfl⟩
  · exact hs

theorem orderly_touchSlot {s : Items} (hs : s.Orderly) (position : Nat) {f : Slot → Slot}
    (hf : ∀ slot, (f slot).index = slot.index ∧ (f slot).kind = slot.kind ∧
      (f slot).sourceIndex = slot.sourceIndex) : (s.touchSlot position f).Orderly := by
  refine hs.map (f := fun q => if position = q then f else id) ?_ rfl ?_
  · intro q
    rw [Items.touchSlot, List.getElem?_modify]
    split <;> simp
  · intro q slot
    split
    · exact hf slot
    · exact ⟨rfl, rfl, rfl⟩

theorem place_new {s : Items} {kind : SlotKind} {index : Nat} (h : s.isNew kind index = true) :
    s.place kind index = s.slots.length := by
  have hnone : s.openSlot kind index = none := by simpa [Items.isNew] using h
  simp [Items.place, hnone]

theorem placed_old {s : Items} {kind : SlotKind} {index : Nat} (h : s.isNew kind index = false) :
    s.placed kind index = s := by
  rw [Items.placed, h]
  rfl

/-- Away from its place, finding or making a slot changes nothing. -/
theorem placed_other (s : Items) {kind : SlotKind} {index q : Nat}
    (hq : q ≠ s.place kind index) : (s.placed kind index).slots[q]? = s.slots[q]? := by
  cases hnew : s.isNew kind index with
  | false => rw [placed_old hnew]
  | true =>
      rw [place_new hnew] at hq
      rw [Items.placed, if_pos hnew]
      simp only [List.getElem?_append]
      split
      · rfl
      · rename_i hlt
        rw [List.getElem?_eq_none (by simp; omega), List.getElem?_eq_none (by omega)]

theorem lookup_placed (s : Items) {kind k : SlotKind} {index i : Nat} (h : (k, i) ≠ (kind, index)) :
    Library.lookup (k, i) (s.placed kind index).lookup = Library.lookup (k, i) s.lookup := by
  unfold Items.placed
  split
  · rw [lookup_store, if_neg (Ne.symm h)]
  · rfl

theorem touchSlot_other (s : Items) {p q : Nat} (f : Slot → Slot) (hq : q ≠ p) :
    (s.touchSlot p f).slots[q]? = s.slots[q]? := by
  rw [Items.touchSlot, List.getElem?_modify]
  simp [Ne.symm hq]

/-- A slot that is found was there with its kind and source. -/
theorem slot_before {s : Items} (hs : s.Orderly) {kind : SlotKind} {index : Nat} {slot : Slot}
    (h : s.slots[s.place kind index]? = some slot) :
    s.isNew kind index = false ∧ slot.kind = kind ∧ slot.sourceIndex = index := by
  cases hnew : s.isNew kind index with
  | true =>
      rw [place_new hnew, List.getElem?_eq_none (Nat.le_refl _)] at h
      cases h
  | false =>
      obtain ⟨slot', hslot', hkind, hsource, -⟩ := placed_slot hs kind index
      rw [placed_old hnew, h] at hslot'
      cases hslot'
      exact ⟨rfl, hkind, hsource⟩

/-- The table finds the slot that was found or made. -/
theorem lookup_place (s : Items) (kind : SlotKind) (index : Nat) :
    Library.lookup (kind, index) (s.placed kind index).lookup = some (s.place kind index) := by
  cases hopen : s.openSlot kind index with
  | none =>
      have hnew : s.isNew kind index = true := by simp [Items.isNew, hopen]
      rw [Items.placed, if_pos hnew, place_new hnew, lookup_store, if_pos rfl]
  | some position =>
      have hold : s.isNew kind index = false := by simp [Items.isNew, hopen]
      obtain ⟨hlookup, -⟩ := Option.filter_eq_some_iff.mp hopen
      rw [placed_old hold, hlookup, Items.place, hopen]
      rfl

end TokenStation.Responses
