import TokenStation.Responses.Items

/-!
# The step of each event

For every event that the renderer accepts: the items after it as a function of
the items before it, and what its frames say about each output index.
-/

namespace TokenStation.Responses

open Library Library.Json Library.Fallible

/-- Steps that change neither the items nor the frames. -/
def Quiet (s t : Rendering) : Prop := t.toItems = s.toItems ∧ t.out = s.out

theorem preflight_quiet {index current appended : Nat} {newLayout : Bool} {s t : Rendering}
    (h : Returns (preflightReplayAppend index current appended newLayout) s () t) :
    Quiet s t := by
  rw [preflightReplayAppend, returns_get_bind] at h
  split at h
  · obtain ⟨-, rfl⟩ := returns_pure.mp h
    exact ⟨rfl, rfl⟩
  · exact absurd h not_returns_fail

theorem when_preflight_quiet {c : Bool} {index current appended : Nat} {newLayout : Bool}
    {s t : Rendering}
    (h : Returns (when c (preflightReplayAppend index current appended newLayout)) s () t) :
    Quiet s t := by
  rcases returns_when.mp h with ⟨-, h⟩ | ⟨-, rfl⟩
  · exact preflight_quiet h
  · exact ⟨rfl, rfl⟩

theorem touchSlot_get {s : Items} {position : Nat} {slot : Slot} (f : Slot → Slot)
    (h : s.slots[position]? = some slot) :
    (s.touchSlot position f).slots[position]? = some (f slot) := by
  simp [Items.touchSlot, h]

/-! ## Text -/

namespace Items

/-- Record a new item in the order of the turn. -/
def laidOut (s : Items) (new : Bool) (entry : ReplayLayout) : Items :=
  if new then { s with replayLayout := s.replayLayout ++ [entry] } else s

def afterDelta (s : Items) (index : Nat) (content : String) : Items :=
  let r := s.closedRaw index
  let p := r.place .text index
  ((r.placed .text index).laidOut (r.isNew .text index) (.text p)).touchSlot p (·.write content)

def deltaEmits (packages : Packages) (s : Items) (index q : Nat) : List Mark :=
  let r := s.closedRaw index
  let p := r.place .text index
  let id := some ((r.placed .text index).slotAt p).id
  s.rawEmits packages index q ++
    onlyAt p (if r.isNew .text index then [.added id, .inner id, .inner id] else [.inner id]) q

end Items

theorem openText_returns {position index : Nat} {s t : Rendering}
    (h : Returns (openText position index) s () t) :
    t.toItems = s.toItems.laidOut true (.text position) ∧
      Emits (onlyAt (s.slotAt position).index [.added (some (s.slotAt position).id),
        .inner (some (s.slotAt position).id)]) s t := by
  rw [openText, returns_get_bind] at h
  obtain ⟨_, s₁, hfits, h⟩ := returns_bind.mp h
  obtain ⟨_, s₂, hlayout, h⟩ := returns_bind.mp h
  obtain ⟨_, s₃, husage, h⟩ := returns_bind.mp h
  obtain ⟨_, s₄, hadded, hpart⟩ := returns_bind.mp h
  obtain ⟨hitems₁, hout₁⟩ := when_preflight_quiet hfits
  obtain rfl := returns_modify.mp hlayout
  obtain rfl := returns_modify.mp husage
  obtain ⟨hitems₄, hmarks₄⟩ := emit_added hadded
  obtain ⟨hitems₅, hmarks₅⟩ := emit_inner (by decide) (by decide) hpart
  refine ⟨?_, ?_⟩
  · rw [hitems₅, hitems₄, Items.laidOut, if_pos rfl, ← hitems₁]
  · intro q
    rw [(hmarks₄.onlyAt_trans hmarks₅) q]
    simp [hout₁, Value.field, lookup]

theorem renderDelta_returns (packages : Packages) {index : Nat} {content : String}
    {s t : Rendering} (hs : s.Orderly) (h : Returns (renderDelta packages index content) s () t) :
    t.toItems = s.toItems.afterDelta index content ∧ Emits (s.deltaEmits packages index) s t := by
  obtain ⟨_, s₁, hraw, h⟩ := returns_bind.mp h
  obtain ⟨hitems₁, hmarks₁⟩ := closeRawReasoning_returns packages hs.indexed hraw
  obtain ⟨⟨p, new⟩, s₂, hslot, h⟩ := returns_bind.mp h
  obtain ⟨hp, hitems₂, hout₂⟩ := slot_returns hslot
  rw [hitems₁] at hp hitems₂
  obtain ⟨rfl, rfl⟩ := Prod.mk.inj hp
  obtain ⟨slot, hget, -, -, -, hindex, -⟩ := placed_slot (orderly_closedRaw hs index) .text index
  rw [← hitems₂] at hget
  obtain ⟨_, s₃, hopen, h⟩ := returns_bind.mp h
  obtain ⟨_, s₄, hwrite, h⟩ := returns_bind.mp h
  obtain ⟨hitems₄, hout₄⟩ := updateSlot_returns hwrite
  have hafter : s₃.toItems = s₂.toItems.laidOut ((s.toItems.closedRaw index).isNew .text index)
      (.text ((s.toItems.closedRaw index).place .text index)) ∧
      Emits (onlyAt slot.index (if (s.toItems.closedRaw index).isNew .text index then
        [.added (some slot.id), .inner (some slot.id)] else [])) s₂ s₃ := by
    rcases returns_when.mp hopen with ⟨hnew, hopen⟩ | ⟨hold, rfl⟩
    · obtain ⟨hitems, hmarks⟩ := openText_returns hopen
      rw [slotAt_of_getElem? hget] at hmarks
      exact ⟨by rw [hnew, hitems], by rwa [if_pos hnew]⟩
    · rw [hold]
      exact ⟨rfl, fun q => by simp [onlyAt]⟩
  obtain ⟨hitems₃, hmarks₃⟩ := hafter
  have hget₃ : s₃.slots[(s.toItems.closedRaw index).place .text index]? = some slot := by
    rw [hitems₃]
    unfold Items.laidOut
    split <;> exact hget
  have hget₄ := touchSlot_get (·.write content) hget₃
  rw [← hitems₄] at hget₄
  rw [returns_get_bind, slotAt_of_getElem? hget₄] at h
  obtain ⟨hitems₅, hmarks₅⟩ := emit_inner (by decide) (by decide) h
  refine ⟨?_, ?_⟩
  · rw [hitems₅, hitems₄, hitems₃, hitems₂]
    rfl
  · intro q
    have hat : ((s.toItems.closedRaw index).placed .text index).slotAt
        ((s.toItems.closedRaw index).place .text index) = slot := by
      rw [← hitems₂, slotAt_of_getElem? hget]
    rw [hmarks₅ q, hout₄, hmarks₃ q, hout₂, hmarks₁ q, Items.deltaEmits]
    simp only [hat, hindex]
    by_cases hq : q = (s.toItems.closedRaw index).place .text index
    · cases (s.toItems.closedRaw index).isNew .text index <;>
        simp [onlyAt, Slot.write, hindex, hq]
    · simp [onlyAt, Slot.write, hindex, hq]

/-! ## Reasoning -/

namespace Items

def thought (s : Items) (index blockIndex : Nat) (text : String) : Items :=
  match Library.lookup (index, blockIndex) s.replayBlocks with
  | none => { s with
      replayBlocks := store (index, blockIndex) (.thinking text "") s.replayBlocks,
      replayLayout := s.replayLayout ++ [.reasoning index blockIndex] }
  | some (.thinking thinking signature) => { s with
      replayBlocks := store (index, blockIndex) (.thinking (thinking ++ text) signature)
        s.replayBlocks }
  | some (.redacted _) => s

def afterThinking (s : Items) (index blockIndex : Nat) (text : String) : Items :=
  let r := s.thought index blockIndex text
  (r.placed .reasoning index).touchSlot (r.place .reasoning index) (·.write text)

def thinkingEmits (s : Items) (index blockIndex : Nat) (text : String) (q : Nat) : List Mark :=
  let r := s.thought index blockIndex text
  let p := r.place .reasoning index
  let id := some ((r.placed .reasoning index).slotAt p).id
  onlyAt p ((if r.isNew .reasoning index then
    .added id :: (if s.context.reasoning = .summary then [.inner id] else []) else []) ++
      [.inner id]) q

def activated (s : Items) (index : Nat) : Items :=
  { s with replayActive := if s.hasReplay index then s.replayActive else index :: s.replayActive }

def signed (s : Items) (index blockIndex : Nat) (text : String) : Items :=
  match Library.lookup (index, blockIndex) s.replayBlocks with
  | some (.thinking thinking signature) =>
      let r := { s with
        replayBlocks := store (index, blockIndex) (.thinking thinking (signature ++ text))
          s.replayBlocks }
      if text = "" then r else r.activated index
  | _ => s

def afterSignature (s : Items) (index blockIndex : Nat) (text : String) : Items :=
  let r := s.signed index blockIndex text
  let t := r.placed .reasoning index
  if s.context.renderLegacyEncryptedReasoning then
    t.touchSlot (r.place .reasoning index) (·.sign text)
  else t

/-- The added frame of a reasoning item that opens without a thinking fragment. -/
def addEmits (r : Items) (index q : Nat) : List Mark :=
  let p := r.place .reasoning index
  onlyAt p (if r.isNew .reasoning index then
    [.added (some ((r.placed .reasoning index).slotAt p).id)] else []) q

def redacted (s : Items) (index blockIndex : Nat) (data : String) : Items :=
  activated { s with
    replayBlocks := store (index, blockIndex) (.redacted data) s.replayBlocks,
    replayLayout := s.replayLayout ++ [.reasoning index blockIndex] } index

def afterRedacted (s : Items) (index blockIndex : Nat) (data : String) : Items :=
  (s.redacted index blockIndex data).placed .reasoning index

end Items

theorem ensureReplayBlockOrder_returns {index blockIndex : Nat} {s t : Rendering}
    (hnew : Library.lookup (index, blockIndex) s.replayBlocks = none)
    (h : Returns (ensureReplayBlockOrder index blockIndex) s () t) :
    t.toItems = { s.toItems with
      replayLayout := s.replayLayout ++ [.reasoning index blockIndex] } ∧ t.out = s.out := by
  rw [ensureReplayBlockOrder, returns_get_bind, hnew] at h
  simp only [Option.isSome_none, Bool.false_eq_true, if_false] at h
  split at h
  · exact absurd h not_returns_fail
  · rw [returns_modify_bind] at h
    obtain rfl := returns_modify.mp h
    exact ⟨rfl, rfl⟩

theorem appendThinking_returns {index blockIndex : Nat} {text : String} {s t : Rendering}
    (h : Returns (appendThinking index blockIndex text) s () t) :
    t.toItems = s.toItems.thought index blockIndex text ∧ t.out = s.out := by
  rw [appendThinking, returns_get_bind] at h
  unfold Items.thought
  cases hblock : Library.lookup (index, blockIndex) s.replayBlocks with
  | none =>
      simp only [hblock] at h ⊢
      obtain ⟨_, s₁, hfits, h⟩ := returns_bind.mp h
      obtain ⟨_, s₂, horder, h⟩ := returns_bind.mp h
      obtain ⟨hitems₁, hout₁⟩ := preflight_quiet hfits
      obtain ⟨hitems₂, hout₂⟩ := ensureReplayBlockOrder_returns (by rw [hitems₁, hblock]) horder
      rw [storeReplayBlock, returns_modify_bind] at h
      obtain rfl := returns_modify.mp h
      refine ⟨?_, hout₂.trans hout₁⟩
      simp only [hitems₂, hitems₁]
  | some block =>
      cases block with
      | thinking thinking signature =>
          simp only [hblock] at h ⊢
          obtain ⟨_, s₁, hfits, h⟩ := returns_bind.mp h
          obtain ⟨hitems₁, hout₁⟩ := preflight_quiet hfits
          rw [storeReplayBlock, returns_modify_bind] at h
          obtain rfl := returns_modify.mp h
          refine ⟨?_, hout₁⟩
          simp only [hitems₁]
      | redacted data =>
          simp only [hblock] at h
          exact absurd h not_returns_fail

theorem addReasoning_returns {position : Nat} {slot : Slot} {s t : Rendering}
    (hslot : s.slots[position]? = some slot) (h : Returns (addReasoning position) s () t) :
    t.toItems = s.toItems ∧ Emits (onlyAt slot.index [.added (some slot.id)]) s t := by
  rw [addReasoning, returns_get_bind, slotAt_of_getElem? hslot] at h
  obtain ⟨hitems, hmarks⟩ := emit_added h
  refine ⟨hitems, fun q => ?_⟩
  rw [hmarks q]
  simp [Value.field, lookup]

theorem openThinking_returns {position : Nat} {slot : Slot} {s t : Rendering}
    (hslot : s.slots[position]? = some slot) (h : Returns (openThinking position) s () t) :
    t.toItems = s.toItems ∧ Emits (onlyAt slot.index (.added (some slot.id) ::
      if s.context.reasoning = .summary then [.inner (some slot.id)] else [])) s t := by
  obtain ⟨_, s₁, hadd, h⟩ := returns_bind.mp h
  obtain ⟨hitems₁, hmarks₁⟩ := addReasoning_returns hslot hadd
  rw [← hitems₁] at hslot
  rw [returns_get_bind, returns_when, slotAt_of_getElem? hslot, hitems₁] at h
  rcases h with ⟨hmode, h⟩ | ⟨hmode, rfl⟩
  · have hmode : s.context.reasoning = .summary := by simpa using hmode
    obtain ⟨hitems₂, hmarks₂⟩ := emit_inner (by decide) (by decide) h
    refine ⟨hitems₂.trans hitems₁, ?_⟩
    simpa [hmode] using hmarks₁.onlyAt_trans hmarks₂
  · have hmode : s.context.reasoning ≠ .summary := by simpa using hmode
    exact ⟨hitems₁, by simpa [hmode] using hmarks₁⟩

/-- Finding or making the slot of an item, from the items `r`. -/
theorem slot_placed {r : Items} (hr : r.Orderly) {kind : SlotKind} {index : Nat} {p : Nat × Bool}
    {s t : Rendering} (hs : s.toItems = r) (h : Returns (slot kind index) s p t) :
    p = (r.place kind index, r.isNew kind index) ∧ t.toItems = r.placed kind index ∧
      t.out = s.out ∧ ∃ slot, t.slots[r.place kind index]? = some slot ∧
        slot = (r.placed kind index).slotAt (r.place kind index) ∧
        slot.index = r.place kind index := by
  subst hs
  obtain ⟨hp, hitems, hout⟩ := slot_returns h
  obtain ⟨slot, hget, -, -, -, hindex, -⟩ := placed_slot hr kind index
  refine ⟨hp, hitems, hout, slot, by rw [hitems, hget], ?_, hindex⟩
  exact (slotAt_of_getElem? hget).symm

theorem renderThinkingDelta_returns {index blockIndex : Nat} {text : String} {s t : Rendering}
    (hs : (s.toItems.thought index blockIndex text).Orderly)
    (h : Returns (renderThinkingDelta index blockIndex text) s () t) :
    t.toItems = s.toItems.afterThinking index blockIndex text ∧
      Emits (s.thinkingEmits index blockIndex text) s t := by
  obtain ⟨_, s₁, happend, h⟩ := returns_bind.mp h
  obtain ⟨hitems₁, hout₁⟩ := appendThinking_returns happend
  have hcontext : (s.toItems.thought index blockIndex text).context = s.context := by
    unfold Items.thought
    split <;> rfl
  obtain ⟨⟨p, new⟩, s₂, hplace, h⟩ := returns_bind.mp h
  obtain ⟨hp, hitems₂, hout₂, slot, hget, hslot, hindex⟩ := slot_placed hs hitems₁ hplace
  obtain ⟨rfl, rfl⟩ := Prod.mk.inj hp
  have hmode : s₂.context = s.context := by
    rw [hitems₂, ← hcontext]
    unfold Items.placed
    split <;> rfl
  obtain ⟨_, s₃, hopen, h⟩ := returns_bind.mp h
  obtain ⟨_, s₄, hwrite, h⟩ := returns_bind.mp h
  obtain ⟨hitems₄, hout₄⟩ := updateSlot_returns hwrite
  have hafter : s₃.toItems = s₂.toItems ∧ Emits (onlyAt slot.index
      (if (s.toItems.thought index blockIndex text).isNew .reasoning index then
        .added (some slot.id) :: (if s.context.reasoning = .summary then
          [.inner (some slot.id)] else []) else [])) s₂ s₃ := by
    rcases returns_when.mp hopen with ⟨hnew, hopen⟩ | ⟨hold, rfl⟩
    · obtain ⟨hitems, hmarks⟩ := openThinking_returns hget hopen
      rw [hmode] at hmarks
      exact ⟨hitems, by rwa [if_pos hnew]⟩
    · rw [hold]
      exact ⟨rfl, fun q => by simp [onlyAt]⟩
  obtain ⟨hitems₃, hmarks₃⟩ := hafter
  rw [← hitems₃] at hget
  have hget₄ := touchSlot_get (·.write text) hget
  rw [← hitems₄] at hget₄
  rw [returns_get_bind, slotAt_of_getElem? hget₄] at h
  have hemit : t.toItems = s₄.toItems ∧ Emits (onlyAt slot.index [.inner (some slot.id)]) s₄ t := by
    simp only at h
    split at h
    · exact emit_inner (by decide) (by decide) h
    · exact emit_inner (by decide) (by decide) h
  obtain ⟨hitems₅, hmarks₅⟩ := hemit
  refine ⟨by rw [hitems₅, hitems₄, hitems₃, hitems₂]; rfl, fun q => ?_⟩
  rw [hmarks₅ q, hout₄, hmarks₃ q, hout₂, hout₁, Items.thinkingEmits]
  simp only [← hslot, hindex]
  by_cases hq : q = (s.toItems.thought index blockIndex text).place .reasoning index
  · simp [onlyAt, hq]
  · simp [onlyAt, hq]

/-- A signature signs its block, then finds or makes the slot of the reasoning. -/
theorem signature_steps {index blockIndex : Nat} {text : String} {s t : Rendering}
    (hs : (s.toItems.signed index blockIndex text).Orderly)
    (h : Returns (renderSignatureDelta index blockIndex text) s () t) :
    ∃ r u v slot, r = s.toItems.signed index blockIndex text ∧
      u.toItems = r.placed .reasoning index ∧ u.out = s.out ∧
      u.slots[r.place .reasoning index]? = some slot ∧
      slot = (r.placed .reasoning index).slotAt (r.place .reasoning index) ∧
      slot.index = r.place .reasoning index ∧
      Returns (when (r.isNew .reasoning index) (addReasoning (r.place .reasoning index))) u () v ∧
      Returns (when s.context.renderLegacyEncryptedReasoning
        (updateSlot (r.place .reasoning index) (·.sign text))) v () t := by
  rw [renderSignatureDelta, returns_get_bind] at h
  split at h
  · rename_i thinking signature hblock
    obtain ⟨_, s₁, hfits, h⟩ := returns_bind.mp h
    obtain ⟨hitems₁, hout₁⟩ := preflight_quiet hfits
    rw [storeReplayBlock, returns_modify_bind, recordReplayAppend, returns_modify_bind] at h
    obtain ⟨_, s₂, hactive, h⟩ := returns_bind.mp h
    have hsigned : s₂.toItems = s.toItems.signed index blockIndex text ∧ s₂.out = s.out := by
      rw [← hout₁, Items.signed, hblock]
      rcases returns_when.mp hactive with ⟨hne, hactive⟩ | ⟨hempty, rfl⟩
      · have hne : text ≠ "" := by simpa using hne
        obtain rfl := returns_modify.mp hactive
        refine ⟨?_, rfl⟩
        simp only [hne, if_false, Items.activated, hitems₁]
      · have hempty : text = "" := by simpa using hempty
        refine ⟨?_, rfl⟩
        simp only [hempty, if_true, hitems₁]
    obtain ⟨hitems₂, hout₂⟩ := hsigned
    obtain ⟨⟨p, new⟩, s₃, hplace, h⟩ := returns_bind.mp h
    obtain ⟨hp, hitems₃, hout₃, slot, hget, hslot, hindex⟩ := slot_placed hs hitems₂ hplace
    obtain ⟨rfl, rfl⟩ := Prod.mk.inj hp
    obtain ⟨_, s₄, hadd, h⟩ := returns_bind.mp h
    exact ⟨_, s₃, s₄, slot, rfl, hitems₃, hout₃.trans hout₂, hget, hslot, hindex, hadd, h⟩
  · exact absurd h not_returns_fail

theorem renderSignatureDelta_returns {index blockIndex : Nat} {text : String} {s t : Rendering}
    (hs : (s.toItems.signed index blockIndex text).Orderly)
    (h : Returns (renderSignatureDelta index blockIndex text) s () t) :
    t.toItems = s.toItems.afterSignature index blockIndex text ∧
      Emits ((s.toItems.signed index blockIndex text).addEmits index) s t := by
  obtain ⟨r, u, v, slot, rfl, hitems, hout, hget, hslot, hindex, hadd, hsign⟩ :=
    signature_steps hs h
  have hafter : v.toItems = u.toItems ∧
      Emits ((s.toItems.signed index blockIndex text).addEmits index) u v := by
    unfold Items.addEmits
    simp only [← hslot]
    rcases returns_when.mp hadd with ⟨hnew, hadd⟩ | ⟨hold, rfl⟩
    · obtain ⟨hitems, hmarks⟩ := addReasoning_returns hget hadd
      exact ⟨hitems, by simpa only [if_pos hnew, hindex] using hmarks⟩
    · rw [hold]
      exact ⟨rfl, fun q => by simp [onlyAt]⟩
  obtain ⟨hitems', hmarks⟩ := hafter
  have hlast : t.toItems = s.toItems.afterSignature index blockIndex text ∧ t.out = v.out := by
    unfold Items.afterSignature
    rcases returns_when.mp hsign with ⟨hlegacy, h⟩ | ⟨hlegacy, rfl⟩
    · obtain ⟨hitems'', hout'⟩ := updateSlot_returns h
      simp only [hlegacy, if_true]
      exact ⟨by rw [hitems'', hitems', hitems], hout'⟩
    · simp only [hlegacy, Bool.false_eq_true, if_false]
      exact ⟨by rw [hitems', hitems], trivial⟩
  refine ⟨hlast.1, fun q => ?_⟩
  rw [hlast.2, hmarks q, hout]

theorem renderRedacted_returns {index blockIndex : Nat} {data : String} {s t : Rendering}
    (hs : (s.toItems.redacted index blockIndex data).Orderly)
    (h : Returns (renderRedacted index blockIndex data) s () t) :
    t.toItems = s.toItems.afterRedacted index blockIndex data ∧
      Emits ((s.toItems.redacted index blockIndex data).addEmits index) s t := by
  rw [renderRedacted, returns_get_bind] at h
  split at h
  · exact absurd h not_returns_fail
  · rename_i hnew
    obtain ⟨_, s₁, hfits, h⟩ := returns_bind.mp h
    obtain ⟨hitems₁, hout₁⟩ := preflight_quiet hfits
    obtain ⟨_, s₂, horder, h⟩ := returns_bind.mp h
    obtain ⟨hitems₂, hout₂⟩ := ensureReplayBlockOrder_returns
      (by rw [hitems₁]; simpa using hnew) horder
    rw [storeReplayBlock, returns_modify_bind, recordReplayAppend, returns_modify_bind,
      activateReplay, returns_modify_bind] at h
    obtain ⟨⟨p, new⟩, s₃, hplace, h⟩ := returns_bind.mp h
    obtain ⟨hp, hitems₃, hout₃, slot, hget, hslot, hindex⟩ := slot_placed hs
      (by simp only [hitems₂, hitems₁]; rfl) hplace
    obtain ⟨rfl, rfl⟩ := Prod.mk.inj hp
    have hout : s₃.out = s.out := hout₃.trans (hout₂.trans hout₁)
    unfold Items.addEmits
    simp only [← hslot]
    rcases returns_when.mp h with ⟨hnew, h⟩ | ⟨hold, rfl⟩
    · obtain ⟨hitems, hmarks⟩ := addReasoning_returns hget h
      refine ⟨hitems.trans hitems₃, fun q => ?_⟩
      rw [hmarks q, hout, if_pos hnew, hindex]
    · refine ⟨hitems₃, fun q => ?_⟩
      rw [hout, hold]
      simp [onlyAt]

/-! ## Tool calls -/

namespace Items

def toolMap (s : Items) : ToolMap := s.restore.getD []

/-- The identity of a call, from its first fragment. -/
def identity (s : Items) (index : Nat) (id name : Option String) : String × String :=
  (id.getD ("call_" ++ s.context.responseId ++ "_" ++ toString index), name.getD "")

def toolOpened (r : Items) (index : Nat) (id name : Option String) : Items :=
  let p := r.place .tool index
  let call := r.identity index id name
  ((r.placed .tool index).laidOut true (.tool p)).touchSlot p
    (·.identify call.1 call.2 ((if isCustom r.toolMap call.2 then "ctc_" else "fc_") ++ call.1))

/-- The name of a call after a further fragment. -/
def lateName (s : Items) (slot : Slot) (name : Option String) : String :=
  match name with
  | some name =>
      if slot.name = "" ∧ s.context.allowIncompleteToolCalls = true then name else slot.name
  | none => slot.name

def toolContinued (r : Items) (index : Nat) (name : Option String) : Items :=
  r.touchSlot (r.place .tool index) fun slot => slot.rename (r.lateName slot name)

/-- The items once a fragment has named its call. -/
def toolNamed (r : Items) (index : Nat) (id name : Option String) : Items :=
  if r.isNew .tool index then r.toolOpened index id name else r.toolContinued index name

def afterTool (s : Items) (index : Nat) (id name : Option String) (arguments : String) : Items :=
  let r := s.closedRaw index
  (r.toolNamed index id name).touchSlot (r.place .tool index) (·.write arguments)

def toolEmits (packages : Packages) (s : Items) (index : Nat) (id name : Option String) (q : Nat) :
    List Mark :=
  let r := s.closedRaw index
  let p := r.place .tool index
  let t := r.toolNamed index id name
  let slot := t.slotAt p
  s.rawEmits packages index q ++
    onlyAt p ((if r.isNew .tool index && slot.name != localShell then
        [.added (some (t.itemId slot))] else []) ++
      (if !isCustom t.toolMap slot.name && slot.name != localShell then
        [.inner (some slot.id)] else [])) q

end Items

theorem firstIdentity_eq_ok {s : Items} {index : Nat} {id name : Option String}
    {call : String × String} (h : firstIdentity s.context index id name = .ok call) :
    call = s.identity index id name := by
  unfold firstIdentity at h
  split at h
  · cases h
    rfl
  · split at h
    · cases h
    · cases h
    · cases h
      rfl

theorem openTool_returns (packages : Packages) {index : Nat} {id name : Option String}
    {s t : Rendering} {position : Nat} {slot : Slot} (hslot : s.slots[position]? = some slot)
    (hkind : slot.kind = .tool) (hindex : slot.index = position)
    (h : Returns (openTool packages position index id name) s () t) :
    let call := s.identity index id name
    let identify := fun slot : Slot => slot.identify call.1 call.2
      ((if isCustom s.toolMap call.2 then "ctc_" else "fc_") ++ call.1)
    t.toItems = (s.toItems.laidOut true (.tool position)).touchSlot position identify ∧
      Emits (onlyAt position (if call.2 != localShell then
        [.added (some (s.itemId (identify slot)))] else [])) s t := by
  rw [openTool, returns_get_bind] at h
  obtain ⟨⟨callId, callName⟩, hcall, h⟩ := returns_lift_bind.mp h
  have hidentity := firstIdentity_eq_ok hcall
  simp only at h
  split at h
  · exact absurd h not_returns_fail
  · rename_i map hmap
    have htools : s.toolMap = map := by simp [Items.toolMap, hmap]
    simp only [← hidentity, htools]
    obtain ⟨_, s₁, hfits, h⟩ := returns_bind.mp h
    obtain ⟨hitems₁, hout₁⟩ := when_preflight_quiet hfits
    rw [pushLayout, returns_modify_bind, recordNonReplayLayout, returns_modify_bind] at h
    obtain ⟨_, s₂, hidentify, h⟩ := returns_bind.mp h
    obtain ⟨hitems₂, hout₂⟩ := updateSlot_returns hidentify
    simp only at hout₂
    have hlaid : s₂.toItems = (s.toItems.laidOut true (.tool position)).touchSlot position
        (·.identify callId callName ((if isCustom map callName then "ctc_" else "fc_") ++ callId)) := by
      rw [hitems₂]
      simp only [Items.laidOut, if_true, hitems₁]
    rcases returns_when.mp h with ⟨hname, h⟩ | ⟨hname, rfl⟩
    · obtain ⟨item, hitem, h⟩ := returns_lift_bind.mp h
      have hget₂ : s₂.slots[position]? = some (slot.identify callId callName
          ((if isCustom map callName then "ctc_" else "fc_") ++ callId)) := by
        rw [hlaid]
        exact touchSlot_get _ (by simpa [Items.laidOut] using hslot)
      rw [returns_get_bind, slotAt_of_getElem? hget₂] at h
      obtain ⟨hitems₃, hmarks₃⟩ := emit_added h
      have hid := toolItem_id packages hitem
      refine ⟨hitems₃.trans hlaid, fun q => ?_⟩
      rw [hmarks₃ q, hout₂, hout₁, hid]
      simp [Slot.identify, hindex, hname, Items.itemId, hkind, hmap]
    · refine ⟨hlaid, fun q => ?_⟩
      rw [hout₂, hout₁]
      simp [hname, onlyAt]

theorem continueTool_returns {s t : Rendering} {position : Nat} {slot : Slot}
    {id name : Option String} (hslot : s.slots[position]? = some slot)
    (h : Returns (continueTool position id name) s () t) :
    t.toItems = s.toItems.touchSlot position
      (fun slot => slot.rename (s.toItems.lateName slot name)) ∧ t.out = s.out := by
  rw [continueTool, returns_get_bind, slotAt_of_getElem? hslot] at h
  have hsame : ∀ {u : Option String}, s.toItems.lateName slot u = slot.name →
      s.toItems = s.toItems.touchSlot position
        (fun slot => slot.rename (s.toItems.lateName slot u)) := by
    intro u hu
    refine (touchSlot_id hslot ?_).symm
    rw [hu]
    rfl
  simp only at h
  split at h
  · exact absurd h not_returns_fail
  · cases name with
    | none =>
        obtain ⟨-, rfl⟩ := returns_pure.mp h
        exact ⟨hsame rfl, rfl⟩
    | some name =>
        simp only at h
        split at h
        · rename_i hlate
          obtain ⟨hitems, hout⟩ := updateSlot_returns h
          refine ⟨hitems.trans (touchSlot_congr hslot ?_), hout⟩
          simp [Items.lateName, hlate]
        · rename_i hlate
          split at h
          · obtain ⟨-, rfl⟩ := returns_pure.mp h
            exact ⟨hsame (by simp only [Items.lateName, if_neg hlate]), rfl⟩
          · exact absurd h not_returns_fail

theorem placed_fields (r : Items) (kind : SlotKind) (index : Nat) :
    (r.placed kind index).context = r.context ∧ (r.placed kind index).restore = r.restore := by
  unfold Items.placed
  split <;> exact ⟨rfl, rfl⟩

theorem toolNamed_returns (packages : Packages) {index : Nat} {id name : Option String}
    {r : Items} (hr : r.Orderly) {s t : Rendering} (hs : s.toItems = r.placed .tool index)
    (h : Returns (if r.isNew .tool index then
      openTool packages (r.place .tool index) index id name
      else continueTool (r.place .tool index) id name) s () t) :
    t.toItems = r.toolNamed index id name ∧
      Emits (onlyAt (r.place .tool index) (if r.isNew .tool index &&
        ((r.toolNamed index id name).slotAt (r.place .tool index)).name != localShell then
        [.added (some ((r.toolNamed index id name).itemId
          ((r.toolNamed index id name).slotAt (r.place .tool index))))] else [])) s t := by
  obtain ⟨slot, hget, hkind, -, -, hindex, -⟩ := placed_slot hr .tool index
  rw [← hs] at hget
  cases hnew : r.isNew .tool index with
  | true =>
      rw [if_pos hnew] at h
      obtain ⟨hcontext, hrestore⟩ := placed_fields r .tool index
      have htools : s.toolMap = r.toolMap := by
        simp only [Items.toolMap, hs, hrestore]
      have hcall : s.identity index id name = r.identity index id name := by
        simp only [Items.identity, hs, hcontext]
      obtain ⟨hitems, hmarks⟩ := openTool_returns packages hget hkind hindex h
      simp only [htools, hcall] at hitems hmarks
      have hnamed : t.toItems = r.toolNamed index id name := by
        rw [hitems, hs, Items.toolNamed, if_pos hnew]
        rfl
      have hat : (r.toolNamed index id name).slotAt (r.place .tool index) =
          slot.identify (r.identity index id name).1 (r.identity index id name).2
            ((if isCustom r.toolMap (r.identity index id name).2 then "ctc_" else "fc_") ++
              (r.identity index id name).1) := by
        rw [← hnamed, hitems]
        exact slotAt_of_getElem? (touchSlot_get _ (by simpa [Items.laidOut] using hget))
      refine ⟨hnamed, fun q => ?_⟩
      have hid : ∀ sl, (r.toolNamed index id name).itemId sl = s.itemId sl := by
        intro sl
        rw [← hnamed, hitems]
        rfl
      rw [hmarks q, hat, hid]
      rfl
  | false =>
      rw [hnew] at h
      obtain ⟨hitems, hout⟩ := continueTool_returns hget h
      have hplaced : r.placed .tool index = r := by
        rw [Items.placed, hnew]
        rfl
      refine ⟨?_, fun q => ?_⟩
      · rw [hitems, hs, hplaced, Items.toolNamed, hnew]
        rfl
      · rw [hout]
        simp [onlyAt]

/-- A named call has its slot. -/
theorem toolNamed_slot {r : Items} (hr : r.Orderly) (index : Nat) (id name : Option String) :
    ∃ slot, (r.toolNamed index id name).slots[r.place .tool index]? = some slot ∧
      slot.kind = .tool ∧ slot.sourceIndex = index ∧ slot.closed = false ∧
      slot.index = r.place .tool index := by
  obtain ⟨slot, hget, hkind, hsource, hclosed, hindex, -⟩ := placed_slot hr .tool index
  unfold Items.toolNamed
  split
  · exact ⟨_, touchSlot_get _ (by simpa [Items.laidOut] using hget), hkind, hsource, hclosed,
      hindex⟩
  · rename_i hold
    have hplaced : r.placed .tool index = r := by
      rw [Items.placed, if_neg hold]
    rw [hplaced] at hget
    exact ⟨_, touchSlot_get _ hget, hkind, hsource, hclosed, hindex⟩

theorem toolNamed_other (s : Items) {index q : Nat} (id name : Option String)
    (hq : q ≠ s.place .tool index) : (s.toolNamed index id name).slots[q]? = s.slots[q]? := by
  unfold Items.toolNamed
  split
  · rw [Items.toolOpened, touchSlot_other _ _ hq]
    exact placed_other s hq
  · exact touchSlot_other s _ hq

theorem toolNamed_lookup (s : Items) (index : Nat) (id name : Option String) :
    (s.toolNamed index id name).lookup = (s.placed .tool index).lookup := by
  unfold Items.toolNamed
  split
  · rfl
  · rename_i hold
    rw [placed_old (by simpa using hold)]
    rfl

theorem renderTool_returns (packages : Packages) {index : Nat} {id name : Option String}
    {arguments : String} {s t : Rendering} (hs : s.Orderly)
    (h : Returns (renderTool packages index id name arguments) s () t) :
    t.toItems = s.toItems.afterTool index id name arguments ∧
      Emits (s.toolEmits packages index id name) s t := by
  obtain ⟨_, s₁, hraw, h⟩ := returns_bind.mp h
  obtain ⟨hitems₁, hmarks₁⟩ := closeRawReasoning_returns packages hs.indexed hraw
  have hr := orderly_closedRaw hs index
  unfold Items.afterTool Items.toolEmits
  simp only
  generalize s.toItems.closedRaw index = r at hr hitems₁ ⊢
  obtain ⟨⟨p, new⟩, s₂, hplace, h⟩ := returns_bind.mp h
  obtain ⟨hp, hitems₂, hout₂, -, -, -, -⟩ := slot_placed hr hitems₁ hplace
  obtain ⟨rfl, rfl⟩ := Prod.mk.inj hp
  obtain ⟨_, s₃, hnamed, h⟩ := returns_bind.mp h
  obtain ⟨hitems₃, hmarks₃⟩ := toolNamed_returns packages hr hitems₂ hnamed
  obtain ⟨slot, hget, -, -, -, hindex⟩ := toolNamed_slot hr index id name
  rw [slotAt_of_getElem? hget] at hmarks₃ ⊢
  generalize r.toolNamed index id name = u at hget hitems₃ hmarks₃ ⊢
  obtain ⟨_, s₄, hwrite, h⟩ := returns_bind.mp h
  obtain ⟨hitems₄, hout₄⟩ := updateSlot_returns hwrite
  rw [hitems₃] at hitems₄
  have hget₄ := touchSlot_get (·.write arguments) hget
  rw [← hitems₄] at hget₄
  rw [returns_get_bind, returns_when, slotAt_of_getElem? hget₄] at h
  have hcustom : (s₄.restore.any fun map => isCustom map (slot.write arguments).name) =
      isCustom u.toolMap slot.name := by
    rw [hitems₄]
    change (u.restore.any fun map => isCustom map slot.name) = isCustom (u.restore.getD []) slot.name
    cases u.restore <;> rfl
  have hlast : t.toItems = s₄.toItems ∧ Emits (onlyAt (r.place .tool index)
      (if !isCustom u.toolMap slot.name && slot.name != localShell then
        [.inner (some slot.id)] else [])) s₄ t := by
    rw [hcustom] at h
    rcases h with ⟨hgo, h⟩ | ⟨hskip, rfl⟩
    · obtain ⟨hitems, hmarks⟩ := emit_inner (by decide) (by decide) h
      have hgo : (!isCustom u.toolMap slot.name && slot.name != localShell) = true := hgo
      have hplace : (slot.write arguments).index = r.place .tool index := hindex
      rw [hplace] at hmarks
      rw [if_pos hgo]
      exact ⟨hitems, hmarks⟩
    · have hskip : (!isCustom u.toolMap slot.name && slot.name != localShell) = false := hskip
      exact ⟨rfl, fun q => by simp [hskip, onlyAt]⟩
  obtain ⟨hitems₅, hmarks₅⟩ := hlast
  refine ⟨hitems₅.trans hitems₄, fun q => ?_⟩
  rw [hmarks₅ q, hout₄, hmarks₃ q, hout₂, hmarks₁ q]
  by_cases hq : q = r.place .tool index
  · simp [onlyAt, hq]
  · simp [onlyAt, hq]

end TokenStation.Responses
