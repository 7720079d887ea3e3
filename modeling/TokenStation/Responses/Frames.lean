import TokenStation.Responses.Events

/-!
# The frames of each event

What an accepted event hands out, as the list of its frames before they are
numbered: their names and payloads, as functions of the items before it.
-/

namespace TokenStation.Responses

open Library Library.Json Library.Fallible

/-- The name and the payload of a frame, before it is numbered. -/
abbrev Payload := String × Value

/-- The frame is the payload under some number. -/
def Stamped (f : ResponsesFrame) (p : Payload) : Prop := ∃ n, f = ⟨p.1, stamp p.1 p.2 n⟩

/-- A payload as a frame without its number. -/
def Payload.frame (p : Payload) : ResponsesFrame := ⟨p.1, p.2⟩

/-- The number and the type of a frame leave its other fields as they are. -/
theorem field_stamp (kind : String) (v : Value) (n : Nat) {key : String} (htype : key ≠ "type")
    (hnumber : key ≠ "sequence_number") : (stamp kind v n).field key = v.field key := by
  cases v with
  | object entries =>
      have hobject : (Value.object entries).isObject = true := rfl
      simp [stamp, Value.field, hobject, Ne.symm htype, Ne.symm hnumber]
  | null =>
      have hobject : (Value.object [("type", .string kind)]).isObject = true := rfl
      change ((Value.object [("type", .string kind)]).set "sequence_number" (.nat n)).field key = _
      rw [Value.field, Value.get_set hobject, if_neg (Ne.symm hnumber)]
      simp [Value.field, Value.get, lookup, Ne.symm htype]
  | bool | number | string | array => rfl

/-- The step from `s` to `t` hands out the payloads `ps`. -/
def Sends (ps : List Payload) (s t : Rendering) : Prop :=
  ∃ fs, t.out = s.out ++ fs ∧ List.Forall₂ Stamped fs ps

theorem Sends.trans {ps qs : List Payload} {s t u : Rendering} (h : Sends ps s t)
    (h' : Sends qs t u) : Sends (ps ++ qs) s u := by
  obtain ⟨fs, hfs, hstamped⟩ := h
  obtain ⟨gs, hgs, hstamped'⟩ := h'
  refine ⟨fs ++ gs, ?_, List.rel_append hstamped hstamped'⟩
  rw [hgs, hfs, List.append_assoc]

theorem Sends.of_out {s t : Rendering} (h : t.out = s.out) : Sends [] s t :=
  ⟨[], by rw [h, List.append_nil], .nil⟩

theorem emit_sends {kind : String} {data : Value} {s t : Rendering}
    (h : Returns (emit kind data) s () t) : t.toItems = s.toItems ∧ Sends [(kind, data)] s t := by
  obtain rfl := emit_returns h
  exact ⟨rfl, [_], rfl, .cons ⟨s.sequence, rfl⟩ .nil⟩

/-! ## Payloads -/

/-- The fields by which a frame names its item. -/
def itemFields (slot : Slot) : List (String × Value) :=
  [("item_id", .string slot.id), ("output_index", .nat slot.index)]

def addedPayload (slot : Slot) (item : Value) : Payload :=
  ("response.output_item.added", .obj [("output_index", .nat slot.index), ("item", item)])

def donePayload (slot : Slot) (item : Value) : Payload :=
  ("response.output_item.done", .obj [("output_index", .nat slot.index), ("item", item)])

def textDelta (slot : Slot) (content : String) : Payload :=
  ("response.output_text.delta",
    .obj (itemFields slot ++ [("content_index", .nat 0), ("delta", .string content)]))

def argumentsDelta (slot : Slot) (arguments : String) : Payload :=
  ("response.function_call_arguments.delta", .obj (itemFields slot ++ [("delta", .string arguments)]))

def rawDelta (slot : Slot) (text : String) : Payload :=
  ("response.reasoning_text.delta",
    .obj (itemFields slot ++ [("delta", .string text), ("content_index", .nat 0)]))

def summaryDelta (slot : Slot) (text : String) : Payload :=
  ("response.reasoning_summary_text.delta",
    .obj (itemFields slot ++ [("delta", .string text), ("summary_index", .nat 0)]))

/-- The item a text starts with. -/
def openedText (slot : Slot) : Value :=
  .obj [("type", .string "message"), ("id", .string slot.id), ("status", .string "in_progress"),
    ("role", .string "assistant"), ("content", .array [])]

def textPartAdded (slot : Slot) : Payload :=
  ("response.content_part.added", .obj (itemFields slot ++ [("content_index", .nat 0),
    ("part", .obj [("type", .string "output_text"), ("text", .string ""),
      ("annotations", .array [])])]))

/-- The item a reasoning starts with. -/
def openedReasoning (slot : Slot) : Value :=
  .obj [("type", .string "reasoning"), ("id", .string slot.id), ("status", .string "in_progress"),
    ("summary", .array [])]

def summaryPartAdded (slot : Slot) : Payload :=
  ("response.reasoning_summary_part.added", .obj (itemFields slot ++ [("summary_index", .nat 0),
    ("part", .obj [("type", .string "summary_text"), ("text", .string "")])]))

namespace Items

section

variable (packages : Packages)

/-- The frames that end the content of an item. -/
def contentSends (s : Items) (slot : Slot) (item : Value) : List Payload :=
  match slot.kind with
  | .text =>
      [("response.output_text.done",
        .obj (itemFields slot ++ [("content_index", .nat 0), ("text", .string slot.text)])),
      ("response.content_part.done", .obj (itemFields slot ++ [("content_index", .nat 0),
        ("part", .obj [("type", .string "output_text"), ("text", .string slot.text)])]))]
  | .reasoning =>
      match s.context.reasoning with
      | .rawContent => [("response.reasoning_text.done",
          .obj (itemFields slot ++ [("content_index", .nat 0), ("text", .string slot.text)]))]
      | .summary =>
          [("response.reasoning_summary_text.done",
            .obj (itemFields slot ++ [("summary_index", .nat 0), ("text", .string slot.text)])),
          ("response.reasoning_summary_part.done", .obj (itemFields slot ++
            [("summary_index", .nat 0),
              ("part", .obj [("type", .string "summary_text"), ("text", .string slot.text)])]))]
  | .tool =>
      match s.restore.bind (Library.lookup slot.name) with
      | some .custom =>
          let fields := [("item_id", item.field "id"), ("output_index", .nat slot.index)]
          let input := (customInput packages slot.text).asStr.getD ""
          (if input != "" then [("response.custom_tool_call_input.delta",
              .obj (fields ++ [("delta", .string input)]))] else []) ++
            [("response.custom_tool_call_input.done", .obj (fields ++ [("input", .string input)]))]
      | some .shell => [addedPayload slot item]
      | _ => [("response.function_call_arguments.done",
          .obj (itemFields slot ++ [("arguments", .string slot.text)]))]

/-- The item of a slot, when it can be rendered. -/
def itemOf (s : Items) (slot : Slot) : Value := (s.item packages slot).toOption.getD .null

/-- The frames of a slot that closes. -/
def closeSends (s : Items) (slot : Slot) : List Payload :=
  s.contentSends packages slot (s.itemOf packages slot) ++
    [donePayload slot (s.itemOf packages slot)]

/-- The frames of closing the selected slots, in output order. -/
def closingSends (s : Items) (select : Slot → Bool) : List Payload :=
  s.slots.flatMap fun slot =>
    if select slot && !slot.closed then s.closeSends packages slot else []

def rawSends (s : Items) (index : Nat) : List Payload :=
  if s.endsRaw index then s.closingSends packages (isReasoningOf index) else []

def deltaSends (s : Items) (index : Nat) (content : String) : List Payload :=
  let r := s.closedRaw index
  let slot := (r.placed .text index).slotAt (r.place .text index)
  s.rawSends packages index ++
    (if r.isNew .text index then [addedPayload slot (openedText slot), textPartAdded slot] else []) ++
    [textDelta slot content]

def toolSends (s : Items) (index : Nat) (id name : Option String) (arguments : String) :
    List Payload :=
  let r := s.closedRaw index
  let t := r.toolNamed index id name
  let slot := t.slotAt (r.place .tool index)
  s.rawSends packages index ++
    (if r.isNew .tool index && slot.name != localShell then
      [addedPayload slot
        ((toolItem packages slot.callId slot.name "" "in_progress" t.toolMap).toOption.getD .null)]
      else []) ++
    (if !isCustom t.toolMap slot.name && slot.name != localShell then
      [argumentsDelta slot arguments] else [])

end

def thinkingSends (s : Items) (index blockIndex : Nat) (text : String) : List Payload :=
  let r := s.thought index blockIndex text
  let slot := (r.placed .reasoning index).slotAt (r.place .reasoning index)
  (if r.isNew .reasoning index then
    addedPayload slot (openedReasoning slot) ::
      (if s.context.reasoning = .summary then [summaryPartAdded slot] else []) else []) ++
    [match s.context.reasoning with
      | .rawContent => rawDelta slot text
      | .summary => summaryDelta slot text]

/-- The frame of a reasoning item that opens without a thinking fragment. -/
def addSends (r : Items) (index : Nat) : List Payload :=
  let slot := (r.placed .reasoning index).slotAt (r.place .reasoning index)
  if r.isNew .reasoning index then [addedPayload slot (openedReasoning slot)] else []

end Items

/-! ## Names -/

section

variable (packages : Packages)

/-- Every payload is sent under an ordinary name. -/
def AllOrdinary (ps : List Payload) : Prop := ∀ p ∈ ps, Ordinary p.1

theorem AllOrdinary.nil : AllOrdinary [] := by simp [AllOrdinary]

theorem AllOrdinary.cons {kind : String} {data : Value} {ps : List Payload}
    (hkind : Ordinary kind) (hps : AllOrdinary ps) : AllOrdinary ((kind, data) :: ps) :=
  List.forall_mem_cons.mpr ⟨hkind, hps⟩

theorem AllOrdinary.single {kind : String} {data : Value} (hkind : Ordinary kind) :
    AllOrdinary [(kind, data)] :=
  AllOrdinary.cons hkind .nil

theorem AllOrdinary.append {ps qs : List Payload} (hps : AllOrdinary ps) (hqs : AllOrdinary qs) :
    AllOrdinary (ps ++ qs) :=
  List.forall_mem_append.mpr ⟨hps, hqs⟩

theorem AllOrdinary.ite {c : Prop} [Decidable c] {ps qs : List Payload} (hps : AllOrdinary ps)
    (hqs : AllOrdinary qs) : AllOrdinary (if c then ps else qs) := by
  split
  · exact hps
  · exact hqs

theorem contentSends_ordinary (s : Items) (slot : Slot) (item : Value) :
    AllOrdinary (s.contentSends packages slot item) := by
  unfold Items.contentSends
  cases hkind : slot.kind with
  | text => exact .cons (by decide) (.single (by decide))
  | reasoning =>
      cases hmode : s.context.reasoning with
      | rawContent => exact .single (by decide)
      | summary => exact .cons (by decide) (.single (by decide))
  | tool =>
      cases hrestored : s.restore.bind (Library.lookup slot.name) with
      | none => exact .single (by decide)
      | some kind =>
          cases kind with
          | custom => exact .append (.ite (.single (by decide)) .nil) (.single (by decide))
          | shell => exact .single (by decide)
          | function | search | namespaced => exact .single (by decide)

theorem closingSends_ordinary (s : Items) (select : Slot → Bool) :
    AllOrdinary (s.closingSends packages select) := by
  intro p hp
  obtain ⟨slot, -, hp⟩ := List.mem_flatMap.mp hp
  have hclose : AllOrdinary (s.closeSends packages slot) :=
    (contentSends_ordinary packages s slot _).append (.single (by decide))
  exact AllOrdinary.ite hclose .nil p hp

theorem rawSends_ordinary (s : Items) (index : Nat) : AllOrdinary (s.rawSends packages index) :=
  AllOrdinary.ite (closingSends_ordinary packages s _) .nil

end

/-! ## Closing items -/

section

variable (packages : Packages)

theorem closeContent_sends {r : Rendering} {slot : Slot} {item : Value} {s t : Rendering}
    (h : Returns (closeContent packages r slot item) s () t) :
    Sends (r.contentSends packages slot item) s t := by
  unfold closeContent at h
  unfold Items.contentSends
  cases hkind : slot.kind with
  | text =>
      simp only [hkind] at h ⊢
      obtain ⟨_, u, hfirst, hsecond⟩ := returns_bind.mp h
      exact (emit_sends hfirst).2.trans (emit_sends hsecond).2
  | reasoning =>
      simp only [hkind] at h ⊢
      cases hmode : r.context.reasoning with
      | rawContent =>
          simp only [hmode] at h ⊢
          exact (emit_sends h).2
      | summary =>
          simp only [hmode] at h ⊢
          obtain ⟨_, u, hfirst, hsecond⟩ := returns_bind.mp h
          exact (emit_sends hfirst).2.trans (emit_sends hsecond).2
  | tool =>
      simp only [hkind] at h ⊢
      cases hlookup : r.restore.bind (Library.lookup slot.name) with
      | none =>
          simp only [hlookup] at h ⊢
          exact (emit_sends h).2
      | some kind =>
          cases kind with
          | custom =>
              simp only [hlookup] at h ⊢
              cases hinput : (customInput packages slot.text).asStr with
              | none =>
                  simp only [hinput] at h
                  exact absurd h not_returns_fail
              | some input =>
                  simp only [hinput, Option.getD_some] at h ⊢
                  obtain ⟨_, u, hfirst, hsecond⟩ := returns_bind.mp h
                  rcases returns_when.mp hfirst with ⟨hne, hfirst⟩ | ⟨hempty, rfl⟩
                  · rw [if_pos hne]
                    exact (emit_sends hfirst).2.trans (emit_sends hsecond).2
                  · rw [hempty]
                    exact (emit_sends hsecond).2
          | shell =>
              simp only [hlookup] at h ⊢
              exact (emit_sends h).2
          | function | search | namespaced =>
              simp only [hlookup] at h ⊢
              exact (emit_sends h).2

theorem close_sends {position : Nat} {slot : Slot} {s t : Rendering}
    (hslot : s.slots[position]? = some slot) (h : Returns (close packages position) s () t) :
    Sends (if slot.closed then [] else s.closeSends packages slot) s t := by
  rw [close, returns_get_bind, returns_when, slotAt_of_getElem? hslot] at h
  rcases h with ⟨hopen, h⟩ | ⟨hclosed, rfl⟩
  · obtain ⟨item, hitem, h⟩ := returns_lift_bind.mp h
    obtain ⟨_, s₁, hcontent, h⟩ := returns_bind.mp h
    obtain ⟨_, s₂, hdone, hupdate⟩ := returns_bind.mp h
    have hopen : slot.closed = false := by simpa using hopen
    have hsame : s.itemOf packages slot = item := by
      simp [Items.itemOf, hitem, Except.toOption]
    have hsends := (closeContent_sends packages hcontent).trans (emit_sends hdone).2
    rw [hopen, Items.closeSends, hsame]
    have hall := hsends.trans (Sends.of_out (updateSlot_returns hupdate).2)
    rw [List.append_nil] at hall
    exact hall
  · have hclosed : slot.closed = true := by simpa using hclosed
    rw [hclosed]
    exact Sends.of_out rfl

/-- What one pass of a closing loop sends. -/
def Items.passSends (s : Items) (select : Slot → Bool) (position : Nat) : List Payload :=
  (s.slots[position]?.map fun slot =>
    if select slot && !slot.closed then s.closeSends packages slot else []).getD []

/-- The frames of a slot depend on the host facts, the tools and the carriers. -/
theorem closeSends_congr {s t : Items} (hcontext : t.context = s.context)
    (hrestore : t.restore = s.restore) (hcarriers : t.replayCarriers = s.replayCarriers)
    (slot : Slot) : t.closeSends packages slot = s.closeSends packages slot := by
  unfold Items.closeSends Items.contentSends Items.itemOf Items.item
  rw [hcontext, hrestore, hcarriers]

theorem sends_forM {select : Slot → Bool} {body : Nat → Render PUnit}
    (hbody : ∀ (p : Nat) (s t : Rendering), p < s.slots.length → s.Indexed →
      Returns (body p) s () t → ClosesAt packages select p s t ∧
        Sends (s.passSends packages select p) s t) :
    ∀ (l : List Nat) (s t : Rendering), l.Nodup → (∀ p ∈ l, p < s.slots.length) → s.Indexed →
      Returns (l.forM body) s () t → Sends (l.flatMap (s.passSends packages select)) s t := by
  intro l
  induction l with
  | nil =>
      intro s t _ _ _ h
      obtain rfl := returns_forM_nil.mp h
      exact Sends.of_out rfl
  | cons p l ih =>
      intro s t hnodup hlt hindexed h
      obtain ⟨u, hfirst, hrest⟩ := returns_forM_cons.mp h
      obtain ⟨hp, hnodup⟩ := List.nodup_cons.mp hnodup
      obtain ⟨⟨hitems, -⟩, hsends⟩ := hbody p s u (hlt p (by simp)) hindexed hfirst
      have hslots : u.slots = s.slots.modify p (closing select) := congrArg Items.slots hitems
      have hsends' := ih u t hnodup
        (fun q hq => by simpa [hslots] using hlt q (by simp [hq]))
        (hitems ▸ indexed_touchSlot hindexed p (closing_index select)) hrest
      have hsame : ∀ q ∈ l, u.passSends packages select q = s.passSends packages select q := by
        intro q hq
        have hne : p ≠ q := fun heq => hp (heq ▸ hq)
        have hget : u.slots[q]? = s.slots[q]? := by
          rw [hslots, List.getElem?_modify]
          simp [hne]
        have hcontext : u.context = s.context := by
          rw [hitems]
          rfl
        have hrestore : u.restore = s.restore := by
          rw [hitems]
          rfl
        have hcarriers : u.replayCarriers = s.replayCarriers := by
          rw [hitems]
          rfl
        unfold Items.passSends
        rw [hget]
        simp only [closeSends_congr packages hcontext hrestore hcarriers]
      rw [List.flatMap_congr hsame] at hsends'
      exact hsends.trans hsends'

theorem flatMap_range_getElem? {α β : Type} (l : List α) (f : α → List β) :
    ((List.range l.length).flatMap fun p => (l[p]?.map f).getD []) = l.flatMap f := by
  induction l using List.reverseRecOn with
  | nil => rfl
  | append_singleton l a ih =>
      rw [List.length_append, List.length_singleton, List.range_succ, List.flatMap_append,
        List.flatMap_append, ← ih]
      congr 1
      · refine List.flatMap_congr fun p hp => ?_
        rw [List.getElem?_append_left (List.mem_range.mp hp)]
      · simp

theorem closingSends_eq (s : Items) (select : Slot → Bool) :
    (List.range s.slots.length).flatMap (s.passSends packages select) =
      s.closingSends packages select :=
  flatMap_range_getElem? s.slots fun slot =>
    if select slot && !slot.closed then s.closeSends packages slot else []

theorem closeRawReasoning_sends {index : Nat} {s t : Rendering} (hs : s.Indexed)
    (h : Returns (closeRawReasoning packages index) s () t) :
    Sends (s.rawSends packages index) s t := by
  rw [closeRawReasoning, returns_get_bind, returns_when] at h
  unfold Items.rawSends
  rcases h with ⟨hgo, h⟩ | ⟨hskip, rfl⟩
  · have hends : s.endsRaw index = true := hgo
    rw [if_pos hends, ← closingSends_eq]
    refine sends_forM packages ?_ _ s t List.nodup_range (by simp) hs h
    intro p u v hp hu hpass
    refine ⟨closeRaw_pass packages hp hu hpass, ?_⟩
    obtain ⟨slot, hslot⟩ : ∃ slot, u.slots[p]? = some slot := ⟨_, List.getElem?_eq_getElem hp⟩
    rw [returns_get_bind, returns_when, slotAt_of_getElem? hslot] at hpass
    rw [Items.passSends, hslot]
    rcases hpass with ⟨hselect, hclose⟩ | ⟨hselect, rfl⟩
    · have hselect : isReasoningOf index slot = true := hselect
      have hsends := close_sends packages hslot hclose
      cases hclosed : slot.closed <;> simpa [hselect, hclosed] using hsends
    · have hselect : isReasoningOf index slot = false := hselect
      simpa [hselect] using (Sends.of_out rfl : Sends [] v v)
  · have hends : t.endsRaw index = false := hskip
    rw [hends]
    exact Sends.of_out rfl

theorem closeAll_sends {s t : Rendering} (hs : s.Indexed)
    (h : Returns ((List.range s.slots.length).forM (close packages)) s () t) :
    Sends (s.closingSends packages fun _ => true) s t := by
  rw [← closingSends_eq]
  refine sends_forM packages ?_ _ s t List.nodup_range (by simp) hs h
  intro p u v hp hu hclose
  obtain ⟨slot, hslot⟩ : ∃ slot, u.slots[p]? = some slot := ⟨_, List.getElem?_eq_getElem hp⟩
  obtain ⟨hitems, hmarks⟩ := close_returns packages hslot (hu p slot hslot) hclose
  refine ⟨⟨hitems, fun q => ?_⟩, ?_⟩
  · rw [hmarks q]
    cases hclosed : slot.closed <;> simp [Items.closeEmits, hslot, hclosed]
  · have hsends := close_sends packages hslot hclose
    rw [Items.passSends, hslot]
    cases hclosed : slot.closed <;> simpa [hclosed] using hsends

/-! ## Events -/

theorem openText_sends {position index : Nat} {slot : Slot} {s t : Rendering}
    (hslot : s.slots[position]? = some slot) (h : Returns (openText position index) s () t) :
    Sends [addedPayload slot (openedText slot), textPartAdded slot] s t := by
  rw [openText, returns_get_bind, slotAt_of_getElem? hslot] at h
  obtain ⟨_, s₁, hfits, h⟩ := returns_bind.mp h
  obtain ⟨_, s₂, hlayout, h⟩ := returns_bind.mp h
  obtain ⟨_, s₃, husage, h⟩ := returns_bind.mp h
  obtain ⟨_, s₄, hadded, hpart⟩ := returns_bind.mp h
  obtain ⟨-, hout₁⟩ := when_preflight_quiet hfits
  obtain rfl := returns_modify.mp hlayout
  obtain rfl := returns_modify.mp husage
  have hfirst : Sends [] s s₁ := Sends.of_out hout₁
  exact hfirst.trans ((emit_sends hadded).2.trans (emit_sends hpart).2)

theorem renderDelta_sends {index : Nat} {content : String} {s t : Rendering} (hs : s.Orderly)
    (h : Returns (renderDelta packages index content) s () t) :
    Sends (s.deltaSends packages index content) s t := by
  obtain ⟨_, s₁, hraw, h⟩ := returns_bind.mp h
  obtain ⟨hitems₁, -⟩ := closeRawReasoning_returns packages hs.indexed hraw
  have hsends₁ := closeRawReasoning_sends packages hs.indexed hraw
  have hr := orderly_closedRaw hs index
  unfold Items.deltaSends
  simp only
  generalize s.toItems.closedRaw index = r at hr hitems₁ ⊢
  obtain ⟨⟨p, new⟩, s₂, hplace, h⟩ := returns_bind.mp h
  obtain ⟨hp, hitems₂, hout₂, slot, hget, hslot, -⟩ := slot_placed hr hitems₁ hplace
  obtain ⟨rfl, rfl⟩ := Prod.mk.inj hp
  rw [← hslot]
  obtain ⟨_, s₃, hopen, h⟩ := returns_bind.mp h
  obtain ⟨_, s₄, hwrite, h⟩ := returns_bind.mp h
  obtain ⟨hitems₄, hout₄⟩ := updateSlot_returns hwrite
  have hsends₃ : Sends (if r.isNew .text index then
      [addedPayload slot (openedText slot), textPartAdded slot] else []) s₂ s₃ ∧
      s₃.slots[r.place .text index]? = some slot := by
    rcases returns_when.mp hopen with ⟨hnew, hopen⟩ | ⟨hold, rfl⟩
    · obtain ⟨hitems, -⟩ := openText_returns hopen
      rw [if_pos hnew, hitems]
      exact ⟨openText_sends hget hopen, hget⟩
    · rw [hold]
      exact ⟨Sends.of_out rfl, hget⟩
  have hget₄ := touchSlot_get (·.write content) hsends₃.2
  rw [← hitems₄] at hget₄
  rw [returns_get_bind, slotAt_of_getElem? hget₄] at h
  have hlast := hsends₃.1.trans ((Sends.of_out hout₄).trans (emit_sends h).2)
  have hall := hsends₁.trans ((Sends.of_out hout₂).trans hlast)
  rw [List.append_assoc]
  exact hall

/-- The only frames of a signature or a redacted block: the item they open. -/
theorem addReasoning_sends {r : Items} {index : Nat} {slot : Slot} {s t : Rendering}
    (hget : s.slots[r.place .reasoning index]? = some slot)
    (hslot : slot = (r.placed .reasoning index).slotAt (r.place .reasoning index))
    (h : Returns (when (r.isNew .reasoning index)
      (addReasoning (r.place .reasoning index))) s () t) :
    t.toItems = s.toItems ∧ Sends (r.addSends index) s t := by
  unfold Items.addSends
  rw [← hslot]
  rcases returns_when.mp h with ⟨hnew, h⟩ | ⟨hold, rfl⟩
  · rw [if_pos hnew]
    rw [addReasoning, returns_get_bind, slotAt_of_getElem? hget] at h
    exact emit_sends h
  · rw [hold]
    exact ⟨rfl, Sends.of_out rfl⟩

theorem openThinking_sends {position : Nat} {slot : Slot} {s t : Rendering}
    (hslot : s.slots[position]? = some slot) (h : Returns (openThinking position) s () t) :
    Sends (addedPayload slot (openedReasoning slot) ::
      (if s.context.reasoning = .summary then [summaryPartAdded slot] else [])) s t := by
  obtain ⟨_, s₁, hadd, h⟩ := returns_bind.mp h
  rw [addReasoning, returns_get_bind, slotAt_of_getElem? hslot] at hadd
  obtain ⟨hitems₁, hsends₁⟩ := emit_sends hadd
  rw [← hitems₁] at hslot
  rw [returns_get_bind, returns_when, slotAt_of_getElem? hslot, hitems₁] at h
  rcases h with ⟨hmode, h⟩ | ⟨hmode, rfl⟩
  · have hmode : s.context.reasoning = .summary := by simpa using hmode
    rw [if_pos hmode]
    exact hsends₁.trans (emit_sends h).2
  · have hmode : s.context.reasoning ≠ .summary := by simpa using hmode
    rw [if_neg hmode]
    exact hsends₁

theorem renderThinkingDelta_sends {index blockIndex : Nat} {text : String} {s t : Rendering}
    (hs : (s.toItems.thought index blockIndex text).Orderly)
    (h : Returns (renderThinkingDelta index blockIndex text) s () t) :
    Sends (s.thinkingSends index blockIndex text) s t := by
  obtain ⟨_, s₁, happend, h⟩ := returns_bind.mp h
  obtain ⟨hitems₁, hout₁⟩ := appendThinking_returns happend
  have hcontext : (s.toItems.thought index blockIndex text).context = s.context := by
    unfold Items.thought
    split <;> rfl
  unfold Items.thinkingSends
  simp only
  generalize s.toItems.thought index blockIndex text = r at hs hitems₁ hcontext ⊢
  obtain ⟨⟨p, new⟩, s₂, hplace, h⟩ := returns_bind.mp h
  obtain ⟨hp, hitems₂, hout₂, slot, hget, hslot, -⟩ := slot_placed hs hitems₁ hplace
  obtain ⟨rfl, rfl⟩ := Prod.mk.inj hp
  rw [← hslot]
  have hmode : s₂.context = s.context := by
    rw [hitems₂, ← hcontext]
    exact (placed_fields r .reasoning index).1
  obtain ⟨_, s₃, hopen, h⟩ := returns_bind.mp h
  obtain ⟨_, s₄, hwrite, h⟩ := returns_bind.mp h
  obtain ⟨hitems₄, hout₄⟩ := updateSlot_returns hwrite
  have hafter : s₃.toItems = s₂.toItems ∧ Sends (if r.isNew .reasoning index then
      addedPayload slot (openedReasoning slot) ::
        (if s.context.reasoning = .summary then [summaryPartAdded slot] else []) else []) s₂ s₃ := by
    rcases returns_when.mp hopen with ⟨hnew, hopen⟩ | ⟨hold, rfl⟩
    · have hsends := openThinking_sends hget hopen
      rw [hmode] at hsends
      rw [if_pos hnew]
      exact ⟨(openThinking_returns hget hopen).1, hsends⟩
    · rw [hold]
      exact ⟨rfl, Sends.of_out rfl⟩
  obtain ⟨hitems₃, hsends₃⟩ := hafter
  rw [← hitems₃] at hget
  have hget₄ := touchSlot_get (·.write text) hget
  rw [← hitems₄] at hget₄
  have hmode₄ : s₄.context = s.context := by
    rw [hitems₄, ← hmode, ← hitems₃]
    rfl
  rw [returns_get_bind, slotAt_of_getElem? hget₄, hmode₄] at h
  have hlast : Sends [match s.context.reasoning with
      | .rawContent => rawDelta slot text
      | .summary => summaryDelta slot text] s₄ t := by
    cases hreasoning : s.context.reasoning with
    | rawContent =>
        simp only [hreasoning] at h ⊢
        exact (emit_sends h).2
    | summary =>
        simp only [hreasoning] at h ⊢
        exact (emit_sends h).2
  have hquiet : Sends [] s s₂ := Sends.of_out (hout₂.trans hout₁)
  exact hquiet.trans (hsends₃.trans ((Sends.of_out hout₄).trans hlast))

theorem renderSignatureDelta_sends {index blockIndex : Nat} {text : String} {s t : Rendering}
    (hs : (s.toItems.signed index blockIndex text).Orderly)
    (h : Returns (renderSignatureDelta index blockIndex text) s () t) :
    Sends ((s.toItems.signed index blockIndex text).addSends index) s t := by
  obtain ⟨r, u, v, slot, rfl, -, hout, hget, hslot, -, hadd, hsign⟩ := signature_steps hs h
  have hquiet : Sends [] s u := Sends.of_out hout
  have hlast : Sends [] v t := by
    rcases returns_when.mp hsign with ⟨-, hsign⟩ | ⟨-, rfl⟩
    · exact Sends.of_out (updateSlot_returns hsign).2
    · exact Sends.of_out rfl
  have hall := hquiet.trans ((addReasoning_sends hget hslot hadd).2.trans hlast)
  rw [List.nil_append, List.append_nil] at hall
  exact hall

theorem renderRedacted_sends {index blockIndex : Nat} {data : String} {s t : Rendering}
    (hs : (s.toItems.redacted index blockIndex data).Orderly)
    (h : Returns (renderRedacted index blockIndex data) s () t) :
    Sends ((s.toItems.redacted index blockIndex data).addSends index) s t := by
  rw [renderRedacted, returns_get_bind] at h
  split at h
  · exact absurd h not_returns_fail
  · rename_i hnew
    obtain ⟨_, s₁, hfits, h⟩ := returns_bind.mp h
    obtain ⟨hitems₁, hout₁⟩ := preflight_quiet hfits
    obtain ⟨_, s₂, horder, h⟩ := returns_bind.mp h
    obtain ⟨hitems₂, hout₂⟩ := ensureReplayBlockOrder_returns
      (by rw [hitems₁]; simpa using hnew) horder
    rw [storeReplayBlock, returns_modify_bind, recordReplayAppend, returns_modify_bind,
      activateReplay, returns_modify_bind] at h
    obtain ⟨⟨p, new⟩, s₃, hplace, h⟩ := returns_bind.mp h
    obtain ⟨hp, -, hout₃, slot, hget, hslot, -⟩ := slot_placed hs
      (by simp only [hitems₂, hitems₁]; rfl) hplace
    obtain ⟨rfl, rfl⟩ := Prod.mk.inj hp
    have hquiet : Sends [] s s₃ := Sends.of_out (hout₃.trans (hout₂.trans hout₁))
    exact hquiet.trans (addReasoning_sends hget hslot h).2

theorem openTool_sends {index : Nat} {id name : Option String} {s t : Rendering} {position : Nat}
    {slot : Slot} (hslot : s.slots[position]? = some slot)
    (h : Returns (openTool packages position index id name) s () t) :
    let call := s.identity index id name
    let named := slot.identify call.1 call.2
      ((if isCustom s.toolMap call.2 then "ctc_" else "fc_") ++ call.1)
    Sends (if call.2 != localShell then [addedPayload named
      ((toolItem packages call.1 call.2 "" "in_progress" s.toolMap).toOption.getD .null)]
      else []) s t := by
  rw [openTool, returns_get_bind] at h
  obtain ⟨⟨callId, callName⟩, hcall, h⟩ := returns_lift_bind.mp h
  have hidentity := firstIdentity_eq_ok hcall
  simp only at h
  split at h
  · exact absurd h not_returns_fail
  · rename_i map hmap
    have htools : s.toolMap = map := by simp [Items.toolMap, hmap]
    simp only [← hidentity, htools]
    obtain ⟨_, s₁, hfits, h⟩ := returns_bind.mp h
    obtain ⟨hitems₁, hout₁⟩ := when_preflight_quiet hfits
    rw [pushLayout, returns_modify_bind, recordNonReplayLayout, returns_modify_bind] at h
    obtain ⟨_, s₂, hidentify, h⟩ := returns_bind.mp h
    obtain ⟨hitems₂, hout₂⟩ := updateSlot_returns hidentify
    have hquiet : Sends [] s s₂ := Sends.of_out (hout₂.trans hout₁)
    rcases returns_when.mp h with ⟨hname, h⟩ | ⟨hname, rfl⟩
    · obtain ⟨item, hitem, h⟩ := returns_lift_bind.mp h
      have hget₂ : s₂.slots[position]? = some (slot.identify callId callName
          ((if isCustom map callName then "ctc_" else "fc_") ++ callId)) := by
        rw [hitems₂]
        refine touchSlot_get _ ?_
        simp only [hitems₁]
        exact hslot
      rw [returns_get_bind, slotAt_of_getElem? hget₂] at h
      rw [if_pos hname, hitem]
      exact hquiet.trans (emit_sends h).2
    · rw [hname]
      exact hquiet

theorem toolNamed_sends {index : Nat} {id name : Option String} {r : Items} (hr : r.Orderly)
    {s t : Rendering} (hs : s.toItems = r.placed .tool index)
    (h : Returns (if r.isNew .tool index then
      openTool packages (r.place .tool index) index id name
      else continueTool (r.place .tool index) id name) s () t) :
    Sends (if r.isNew .tool index &&
        ((r.toolNamed index id name).slotAt (r.place .tool index)).name != localShell then
      [addedPayload ((r.toolNamed index id name).slotAt (r.place .tool index))
        ((toolItem packages ((r.toolNamed index id name).slotAt (r.place .tool index)).callId
          ((r.toolNamed index id name).slotAt (r.place .tool index)).name "" "in_progress"
          (r.toolNamed index id name).toolMap).toOption.getD .null)] else []) s t := by
  obtain ⟨slot, hget, -, -, -, -, -⟩ := placed_slot hr .tool index
  rw [← hs] at hget
  cases hnew : r.isNew .tool index with
  | true =>
      rw [if_pos hnew] at h
      obtain ⟨hcontext, hrestore⟩ := placed_fields r .tool index
      have htools : s.toolMap = r.toolMap := by
        simp only [Items.toolMap, hs, hrestore]
      have hcall : s.identity index id name = r.identity index id name := by
        simp only [Items.identity, hs, hcontext]
      have hsends := openTool_sends packages hget h
      simp only [htools, hcall] at hsends
      have hat : (r.toolNamed index id name).slotAt (r.place .tool index) =
          slot.identify (r.identity index id name).1 (r.identity index id name).2
            ((if isCustom r.toolMap (r.identity index id name).2 then "ctc_" else "fc_") ++
              (r.identity index id name).1) := by
        rw [Items.toolNamed, if_pos hnew]
        refine slotAt_of_getElem? (touchSlot_get _ ?_)
        rw [hs] at hget
        simpa [Items.laidOut] using hget
      have hmap : (r.toolNamed index id name).toolMap = r.toolMap := by
        rw [Items.toolMap, Items.toolNamed, if_pos hnew]
        exact congrArg (Option.getD · []) hrestore
      rw [hat, hmap]
      exact hsends
  | false =>
      rw [hnew] at h
      exact Sends.of_out (continueTool_returns hget h).2

theorem renderTool_sends {index : Nat} {id name : Option String} {arguments : String}
    {s t : Rendering} (hs : s.Orderly)
    (h : Returns (renderTool packages index id name arguments) s () t) :
    Sends (s.toolSends packages index id name arguments) s t := by
  obtain ⟨_, s₁, hraw, h⟩ := returns_bind.mp h
  obtain ⟨hitems₁, -⟩ := closeRawReasoning_returns packages hs.indexed hraw
  have hsends₁ := closeRawReasoning_sends packages hs.indexed hraw
  have hr := orderly_closedRaw hs index
  unfold Items.toolSends
  simp only
  generalize s.toItems.closedRaw index = r at hr hitems₁ ⊢
  obtain ⟨⟨p, new⟩, s₂, hplace, h⟩ := returns_bind.mp h
  obtain ⟨hp, hitems₂, hout₂, -, -, -, -⟩ := slot_placed hr hitems₁ hplace
  obtain ⟨rfl, rfl⟩ := Prod.mk.inj hp
  obtain ⟨_, s₃, hnamed, h⟩ := returns_bind.mp h
  obtain ⟨hitems₃, -⟩ := toolNamed_returns packages hr hitems₂ hnamed
  have hsends₃ := toolNamed_sends packages hr hitems₂ hnamed
  obtain ⟨slot, hget, -, -, -, -⟩ := toolNamed_slot hr index id name
  rw [slotAt_of_getElem? hget] at hsends₃ ⊢
  generalize r.toolNamed index id name = u at hget hitems₃ hsends₃ ⊢
  obtain ⟨_, s₄, hwrite, h⟩ := returns_bind.mp h
  obtain ⟨hitems₄, hout₄⟩ := updateSlot_returns hwrite
  rw [hitems₃] at hitems₄
  have hget₄ := touchSlot_get (·.write arguments) hget
  rw [← hitems₄] at hget₄
  rw [returns_get_bind, returns_when, slotAt_of_getElem? hget₄] at h
  have hcustom : (s₄.restore.any fun map => isCustom map (slot.write arguments).name) =
      isCustom u.toolMap slot.name := by
    rw [hitems₄]
    change (u.restore.any fun map => isCustom map slot.name) = isCustom (u.restore.getD []) slot.name
    cases u.restore <;> rfl
  have hlast : Sends (if !isCustom u.toolMap slot.name && slot.name != localShell then
      [argumentsDelta slot arguments] else []) s₄ t := by
    rw [hcustom] at h
    rcases h with ⟨hgo, h⟩ | ⟨hskip, rfl⟩
    · have hgo : (!isCustom u.toolMap slot.name && slot.name != localShell) = true := hgo
      rw [if_pos hgo]
      exact (emit_sends h).2
    · have hskip : (!isCustom u.toolMap slot.name && slot.name != localShell) = false := hskip
      rw [hskip]
      exact Sends.of_out rfl
  have hquiet : Sends [] s₁ s₂ := Sends.of_out hout₂
  have hall := hsends₁.trans (hquiet.trans (hsends₃.trans ((Sends.of_out hout₄).trans hlast)))
  rw [List.append_assoc]
  exact hall

end

end TokenStation.Responses
