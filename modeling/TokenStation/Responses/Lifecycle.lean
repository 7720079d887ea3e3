import TokenStation.Responses.Fragments
import TokenStation.Responses.Runs

/-!
# The lifecycle of output items

Every output index of a completed stream should be announced once, ended once,
and named by one id in between. Text and reasoning items always are. A tool
call is, exactly when the name it ends with is restored the way its first
fragment announced it.
-/

namespace TokenStation.Responses

open Library Library.Json Library.Fallible

/-- The frames of an output index: one that announces the item, one that ends
it, and between them only frames that name it. -/
def Lifecycle (frames : List ResponsesFrame) (index : Nat) : Prop :=
  ∃ id added inner done,
    frames.filter (fun f => f.outputIndex == some index) = added :: (inner ++ [done]) ∧
      (added.event = addedEvent ∧ added.carriedId = some id) ∧
      (∀ f ∈ inner, f.event ≠ addedEvent ∧ f.event ≠ doneEvent ∧ f.itemId = some id) ∧
      (done.event = doneEvent ∧ done.carriedId = some id)

/-! ## Lifecycles by their marks -/

/-- Announced as `id` and not ended. -/
def Begun (id : String) (ms : List Mark) : Prop :=
  ∃ n, ms = .added (some id) :: List.replicate n (.inner (some id))

/-- Announced and ended as `id`. -/
def Ended (id : String) (ms : List Mark) : Prop :=
  ∃ n, ms = .added (some id) :: (List.replicate n (.inner (some id)) ++ [.done (some id)])

theorem Begun.more {id : String} {ms : List Mark} (h : Begun id ms) (n : Nat) :
    Begun id (ms ++ List.replicate n (.inner (some id))) := by
  obtain ⟨m, rfl⟩ := h
  exact ⟨m + n, by rw [List.cons_append, List.replicate_append_replicate]⟩

theorem Begun.ends {id : String} {ms : List Mark} (h : Begun id ms) (n : Nat) :
    Ended id (ms ++ (List.replicate n (.inner (some id)) ++ [.done (some id)])) := by
  obtain ⟨m, rfl⟩ := h
  refine ⟨m + n, ?_⟩
  rw [List.cons_append, ← List.append_assoc, List.replicate_append_replicate]

/-- An item that is announced as `id` and then named `a` and ended as `b`. -/
theorem Begun.ended_iff {id : String} {ms : List Mark} (h : Begun id ms) (n : Nat) (a b : String) :
    (∃ i, Ended i (ms ++ (List.replicate (n + 1) (.inner (some a)) ++ [.done (some b)]))) ↔
      a = id ∧ b = id := by
  constructor
  · obtain ⟨m, rfl⟩ := h
    rintro ⟨i, k, hk⟩
    rw [List.cons_append, ← List.append_assoc] at hk
    obtain ⟨hhead, hk⟩ := List.cons.inj hk
    obtain ⟨hinner, hlast⟩ := List.append_inj' hk rfl
    have hi : id = i := by simpa using hhead
    have ha : Mark.inner (some a) ∈ List.replicate k (Mark.inner (some i)) := by
      rw [← hinner]
      simp
    have ha : a = i := by simpa using List.eq_of_mem_replicate ha
    have hb : b = i := by simpa using hlast
    exact ⟨ha.trans hi.symm, hb.trans hi.symm⟩
  · rintro ⟨ha, hb⟩
    rw [ha, hb]
    exact ⟨id, h.ends (n + 1)⟩

/-- An item is not announced twice. -/
theorem Begun.not_again {id : String} {ms : List Mark} (h : Begun id ms) (a b : Option String) :
    ¬∃ i, Ended i (ms ++ [.added a, .done b]) := by
  obtain ⟨m, rfl⟩ := h
  rintro ⟨i, k, hk⟩
  have hk : List.replicate m (Mark.inner (some id)) ++ [.added a] ++ [.done b] =
      List.replicate k (.inner (some i)) ++ [.done (some i)] := by
    simpa using (List.cons.inj hk).2
  have ha : Mark.added a ∈ List.replicate k (Mark.inner (some i)) := by
    rw [← (List.append_inj' hk rfl).1]
    simp
  cases List.eq_of_mem_replicate ha

theorem mark_eq_added {f : ResponsesFrame} {id : Option String} :
    f.mark = .added id ↔ f.event = addedEvent ∧ f.carriedId = id := by
  unfold ResponsesFrame.mark
  split
  · simp_all
  · split <;> simp_all

theorem mark_eq_done {f : ResponsesFrame} {id : Option String} :
    f.mark = .done id ↔ f.event = doneEvent ∧ f.carriedId = id := by
  unfold ResponsesFrame.mark
  split
  · rename_i hadded
    simp [hadded, addedEvent, doneEvent]
  · split <;> simp_all

theorem mark_eq_inner {f : ResponsesFrame} {id : Option String} :
    f.mark = .inner id ↔ f.event ≠ addedEvent ∧ f.event ≠ doneEvent ∧ f.itemId = id := by
  unfold ResponsesFrame.mark
  split
  · simp_all
  · split <;> simp_all

theorem lifecycle_iff_ended {frames : List ResponsesFrame} {index : Nat} :
    Lifecycle frames index ↔ ∃ id, Ended id (marks frames index) := by
  constructor
  · rintro ⟨id, added, inner, done, hframes, hadded, hinner, hdone⟩
    refine ⟨id, inner.length, ?_⟩
    rw [marks, hframes, List.map_cons, List.map_append, mark_eq_added.mpr hadded, List.map_singleton,
      mark_eq_done.mpr hdone]
    congr 2
    rw [List.eq_replicate_iff]
    refine ⟨by simp, fun m hm => ?_⟩
    obtain ⟨f, hf, rfl⟩ := List.mem_map.mp hm
    exact mark_eq_inner.mpr (hinner f hf)
  · rintro ⟨id, n, hmarks⟩
    rw [marks, List.map_eq_cons_iff] at hmarks
    obtain ⟨added, rest, hframes, hadded, hrest⟩ := hmarks
    obtain ⟨inner, last, rfl, hinner, hlast⟩ := List.map_eq_append_iff.mp hrest
    obtain ⟨done, none, rfl, hdone, hnil⟩ := List.map_eq_cons_iff.mp hlast
    obtain rfl := List.map_eq_nil_iff.mp hnil
    refine ⟨id, added, inner, done, hframes, mark_eq_added.mp hadded, fun f hf => ?_,
      mark_eq_done.mp hdone⟩
    apply mark_eq_inner.mp
    exact List.eq_of_mem_replicate (hinner ▸ List.mem_map_of_mem hf)

/-! ## Names that settle -/

/-- The name a call ends with is restored as its first fragment was announced:
a local shell call by a local shell tool, any other call by no local shell, and
by a custom tool only if announced so. -/
def NamesSettle (map : ToolMap) (allowIncomplete : Bool) (names : List (Option String)) : Prop :=
  if firstName names = localShell then lookup localShell map = some .shell
  else resolvedKind map (settledName allowIncomplete names) ≠ .shell ∧
    isCustom map (settledName allowIncomplete names) = isCustom map (firstName names)

instance (map : ToolMap) (allowIncomplete : Bool) (names : List (Option String)) :
    Decidable (NamesSettle map allowIncomplete names) :=
  inferInstanceAs (Decidable (if firstName names = localShell then
    lookup localShell map = some .shell
    else resolvedKind map (settledName allowIncomplete names) ≠ .shell ∧
      isCustom map (settledName allowIncomplete names) = isCustom map (firstName names)))

/-! ## The trace of each slot -/

/-- What has been said of an open call whose fragments carried `names`. -/
structure Called (map : ToolMap) (allowIncomplete : Bool) (names : List (Option String))
    (slot : Slot) (ms : List Mark) : Prop where
  id : slot.id = (if isCustom map (firstName names) then "ctc_" else "fc_") ++ slot.callId
  name : slot.name = settledName allowIncomplete names
  marks : if firstName names = localShell then ms = [] else Begun slot.id ms

/-- What has been said of each output index, for the calls whose fragments
carried `names`. -/
structure Tracked (map : ToolMap) (names : Nat → List (Option String)) (s : Items)
    (ms : Nat → List Mark) : Prop where
  orderly : s.Orderly
  restore : s.restore = some map
  plain : ∀ (q : Nat) (slot : Slot), s.slots[q]? = some slot → slot.kind ≠ .tool →
    if slot.closed then Ended slot.id (ms q) else Begun slot.id (ms q)
  call : ∀ (q : Nat) (slot : Slot), s.slots[q]? = some slot → slot.kind = .tool →
    slot.closed = false ∧ Library.lookup (.tool, slot.sourceIndex) s.lookup = some q ∧
      names slot.sourceIndex ≠ [] ∧
      Called map s.context.allowIncompleteToolCalls (names slot.sourceIndex) slot (ms q)
  found : ∀ index, names index ≠ [] → ∃ (q : Nat) (slot : Slot), s.slots[q]? = some slot ∧
    slot.kind = .tool ∧ slot.sourceIndex = index
  beyond : ∀ q, s.slots.length ≤ q → ms q = []

section

variable {map : ToolMap} {names : Nat → List (Option String)} {s : Items} {ms : Nat → List Mark}

/-- Changes of the replay tables alone. -/
theorem Tracked.of_slots {t : Items} (h : Tracked map names s ms) (hslots : t.slots = s.slots)
    (hlookup : t.lookup = s.lookup) (hcontext : t.context = s.context)
    (hrestore : t.restore = s.restore) : Tracked map names t ms := by
  refine ⟨h.orderly.of_slots hslots hlookup, hrestore.trans h.restore, ?_, ?_, ?_, ?_⟩
  · rw [hslots]
    exact h.plain
  · rw [hslots, hlookup, hcontext]
    exact h.call
  · rw [hslots]
    exact h.found
  · rw [hslots]
    exact h.beyond

theorem tracked_start (context : ResponsesContext) (map : ToolMap) :
    Tracked map (fun _ => []) (.start context map) fun _ => [] := by
  refine ⟨orderly_start context map, rfl, ?_, ?_, ?_, fun _ _ => rfl⟩
  · intro q slot hslot
    simp [Items.start] at hslot
  · intro q slot hslot
    simp [Items.start] at hslot
  · intro index hne
    exact absurd rfl hne

/-- Ending raw reasoning ends the lifecycles of the reasoning items it closes. -/
theorem tracked_closedRaw (packages : Packages) (h : Tracked map names s ms) (index : Nat) :
    Tracked map names (s.closedRaw index) fun q => ms q ++ s.rawEmits packages index q := by
  unfold Items.closedRaw Items.rawEmits
  split
  · have hget : ∀ (q : Nat) (slot : Slot),
        (s.slots.map (closing (isReasoningOf index)))[q]? = some slot →
        ∃ slot', s.slots[q]? = some slot' ∧ slot = closing (isReasoningOf index) slot' := by
      intro q slot hslot
      rw [List.getElem?_map] at hslot
      obtain ⟨slot', hslot', rfl⟩ := Option.map_eq_some_iff.mp hslot
      exact ⟨slot', hslot', rfl⟩
    have horderly := orderly_closedRaw h.orderly index
    rename_i hends
    rw [Items.closedRaw, if_pos hends] at horderly
    refine ⟨horderly, h.restore, ?_, ?_, ?_, ?_⟩
    · intro q slot hslot hkind
      obtain ⟨slot', hslot', rfl⟩ := hget q slot hslot
      unfold Items.closeEmits
      simp only [hslot']
      cases hselect : isReasoningOf index slot' with
      | false =>
          simp only [closing, hselect] at hkind ⊢
          simpa using h.plain q slot' hslot' hkind
      | true =>
          simp only [closing, hselect, if_true] at hkind ⊢
          have hplain := h.plain q slot' hslot' hkind
          cases hclosed : slot'.closed with
          | true => simpa [hclosed] using hplain
          | false =>
              simp only [hclosed, Bool.false_eq_true, if_false] at hplain
              have hreasoning : slot'.kind = .reasoning := by
                simp only [isReasoningOf, Bool.and_eq_true, beq_iff_eq] at hselect
                exact hselect.1
              have hmarks : s.closeMarks packages slot' =
                  List.replicate 1 (.inner (some slot'.id)) ++ [.done (some slot'.id)] := by
                have hmode : s.context.reasoning = .rawContent := by
                  simp only [Items.endsRaw, Bool.and_eq_true, beq_iff_eq] at hends
                  exact hends.2
                simp [Items.closeMarks, Items.itemId, hreasoning, hmode]
              simp only [Bool.not_false, Bool.and_self, if_true, hmarks]
              exact hplain.ends 1
    · intro q slot hslot hkind
      obtain ⟨slot', hslot', rfl⟩ := hget q slot hslot
      rw [closing_kind] at hkind
      have hselect : isReasoningOf index slot' = false := by simp [isReasoningOf, hkind]
      simp only [closing, hselect, Bool.false_eq_true, if_false]
      simpa [Items.closeEmits, hslot', hselect] using h.call q slot' hslot' hkind
    · intro i hne
      obtain ⟨q, slot, hslot, hkind, hsource⟩ := h.found i hne
      refine ⟨q, slot, ?_, hkind, hsource⟩
      simp [hslot, closing, isReasoningOf, hkind]
    · intro q hq
      rw [List.length_map] at hq
      simp [Items.closeEmits, h.beyond q hq, List.getElem?_eq_none hq]
  · simpa using h

/-- A step that touches one slot, and the names of its call if it is one. -/
theorem Tracked.update (h : Tracked map names s ms) {t : Items} {p : Nat} {slot : Slot}
    {names' : Nat → List (Option String)} {ms' : Nat → List Mark} (horderly : t.Orderly)
    (hcontext : t.context = s.context) (hrestore : t.restore = s.restore)
    (hhere : t.slots[p]? = some slot) (hother : ∀ q : Nat, q ≠ p → t.slots[q]? = s.slots[q]?)
    (hmarks : ∀ q, q ≠ p → ms' q = ms q)
    (hsame : ∀ slot', s.slots[p]? = some slot' →
      slot'.kind = slot.kind ∧ slot'.sourceIndex = slot.sourceIndex)
    (hnames : ∀ i, (slot.kind = .tool → i ≠ slot.sourceIndex) → names' i = names i)
    (hlookup : ∀ (q : Nat) (slot' : Slot), q ≠ p → s.slots[q]? = some slot' → slot'.kind = .tool →
      (slot.kind = .tool → slot'.sourceIndex ≠ slot.sourceIndex) ∧
        Library.lookup (.tool, slot'.sourceIndex) t.lookup =
          Library.lookup (.tool, slot'.sourceIndex) s.lookup)
    (hplain : slot.kind ≠ .tool →
      if slot.closed then Ended slot.id (ms' p) else Begun slot.id (ms' p))
    (hcall : slot.kind = .tool → slot.closed = false ∧
      Library.lookup (.tool, slot.sourceIndex) t.lookup = some p ∧ names' slot.sourceIndex ≠ [] ∧
      Called map s.context.allowIncompleteToolCalls (names' slot.sourceIndex) slot (ms' p)) :
    Tracked map names' t ms' := by
  refine ⟨horderly, hrestore.trans h.restore, ?_, ?_, ?_, ?_⟩
  · intro q slot' hslot' hkind
    by_cases hq : q = p
    · subst hq
      obtain rfl := Option.some.inj (hhere.symm.trans hslot')
      exact hplain hkind
    · rw [hother q hq] at hslot'
      rw [hmarks q hq]
      exact h.plain q slot' hslot' hkind
  · intro q slot' hslot' hkind
    rw [hcontext]
    by_cases hq : q = p
    · subst hq
      obtain rfl := Option.some.inj (hhere.symm.trans hslot')
      exact hcall hkind
    · rw [hother q hq] at hslot'
      obtain ⟨hapart, hkept⟩ := hlookup q slot' hq hslot' hkind
      rw [hmarks q hq, hkept, hnames _ hapart]
      exact h.call q slot' hslot' hkind
  · intro i hi
    by_cases hcalled : slot.kind = .tool ∧ i = slot.sourceIndex
    · exact ⟨p, slot, hhere, hcalled.1, hcalled.2.symm⟩
    · have hapart : slot.kind = .tool → i ≠ slot.sourceIndex := fun hk heq => hcalled ⟨hk, heq⟩
      rw [hnames i hapart] at hi
      obtain ⟨q, slot', hslot', hkind, hsource⟩ := h.found i hi
      have hq : q ≠ p := by
        rintro rfl
        obtain ⟨hk, hs⟩ := hsame slot' hslot'
        exact hapart (hk ▸ hkind) (hs ▸ hsource.symm)
      exact ⟨q, slot', (hother q hq).trans hslot', hkind, hsource⟩
  · intro q hq
    have hnone := List.getElem?_eq_none hq
    have hne : q ≠ p := by
      rintro rfl
      rw [hhere] at hnone
      cases hnone
    rw [hother q hne] at hnone
    rw [hmarks q hne]
    exact h.beyond q (List.getElem?_eq_none_iff.mp hnone)

end

section

variable {map : ToolMap} {names : Nat → List (Option String)} {s : Items} {ms : Nat → List Mark}

/-- A text or reasoning item is found or announced, and then named. -/
theorem tracked_plain (h : Tracked map names s ms) (kind : SlotKind) (hkind : kind ≠ .tool)
    (index n : Nat) {f : Slot → Slot}
    (hf : ∀ slot, (f slot).index = slot.index ∧ (f slot).kind = slot.kind ∧
      (f slot).sourceIndex = slot.sourceIndex ∧ (f slot).id = slot.id ∧
      (f slot).closed = slot.closed) :
    let p := s.place kind index
    let id := ((s.placed kind index).slotAt p).id
    Tracked map names ((s.placed kind index).touchSlot p f) fun q => ms q ++ onlyAt p
      ((if s.isNew kind index then [.added (some id)] else []) ++
        List.replicate n (.inner (some id))) q := by
  intro p id
  obtain ⟨slot, hslot, hslotKind, hsource, hopen, -, -⟩ := placed_slot h.orderly kind index
  obtain ⟨-, hfkind, hfsource, hfid, hfclosed⟩ := hf slot
  have hid : id = slot.id := congrArg Slot.id (slotAt_of_getElem? hslot)
  obtain ⟨hcontext, hrestore⟩ := placed_fields s kind index
  refine h.update ?_ hcontext hrestore (touchSlot_get f hslot) ?_ ?_ ?_
    (fun _ _ => rfl) ?_ ?_ ?_
  · exact orderly_touchSlot (orderly_placed h.orderly kind index) p
      fun slot => ⟨(hf slot).1, (hf slot).2.1, (hf slot).2.2.1⟩
  · intro q hq
    rw [touchSlot_other _ f hq, placed_other s hq]
  · intro q hq
    simp [onlyAt, hq]
  · intro slot' hslot'
    obtain ⟨-, hk, hs⟩ := slot_before h.orderly hslot'
    rw [hfkind, hfsource, hslotKind, hsource]
    exact ⟨hk, hs⟩
  · intro q slot' _ _ hk
    refine ⟨fun heq => absurd (hslotKind.symm.trans (hfkind.symm.trans heq)) hkind, ?_⟩
    refine lookup_placed s fun heq => hkind ?_
    exact (congrArg Prod.fst heq).symm
  · intro _
    rw [hfclosed, hopen, hfid, ← hid]
    simp only [Bool.false_eq_true, if_false, onlyAt, if_true]
    cases hnew : s.isNew kind index with
    | true =>
        rw [h.beyond p (place_new hnew).ge]
        exact ⟨n, by simp⟩
    | false =>
        rw [placed_old hnew] at hslot
        have hplain := h.plain p slot hslot (hslotKind ▸ hkind)
        rw [hopen, ← hid] at hplain
        simpa using Begun.more hplain n
  · intro heq
    exact absurd (hslotKind.symm.trans (hfkind.symm.trans heq)) hkind

/-! ## Tool calls -/

/-- A call has at most one slot, and that one is open. -/
theorem Tracked.place_call (h : Tracked map names s ms) {q : Nat} {slot : Slot}
    (hslot : s.slots[q]? = some slot) (hkind : slot.kind = .tool) :
    s.isNew .tool slot.sourceIndex = false ∧ s.place .tool slot.sourceIndex = q := by
  obtain ⟨hopen, hlookup, -, -⟩ := h.call q slot hslot hkind
  have hfound : s.openSlot .tool slot.sourceIndex = some q := by
    rw [Items.openSlot, hlookup, Option.filter_some, slotAt_of_getElem? hslot, hopen]
    rfl
  simp [Items.isNew, Items.place, hfound]

theorem Tracked.names_new (h : Tracked map names s ms) {index : Nat}
    (hnew : s.isNew .tool index = true) : names index = [] := by
  by_contra hne
  obtain ⟨q, slot, hslot, hkind, rfl⟩ := h.found index hne
  rw [(h.place_call hslot hkind).1] at hnew
  cases hnew

/-- Calls under another name than the reserved one are announced by their own id. -/
theorem itemId_tool (hmap : map.Named) (hrestore : s.restore = some map) {slot : Slot}
    (hkind : slot.kind = .tool) (hname : slot.name ≠ localShell) :
    s.itemId slot = (if isCustom map slot.name then "ctc_" else "fc_") ++ slot.callId := by
  have hcases : resolvedKind map slot.name = .custom ∨ (resolvedKind map slot.name ≠ .custom ∧
      resolvedKind map slot.name ≠ .shell) := by
    by_cases hcustom : resolvedKind map slot.name = .custom
    · exact .inl hcustom
    · refine .inr ⟨hcustom, fun hshell => hname ?_⟩
      unfold resolvedKind at hshell
      cases hlookup : Library.lookup slot.name map with
      | none => simp [hlookup, hname] at hshell
      | some kind =>
          simp only [hlookup, Option.getD_some] at hshell
          exact lookup_shell hmap (hshell ▸ hlookup)
  have hcustom : isCustom map slot.name = true ↔ resolvedKind map slot.name = .custom := by
    unfold isCustom resolvedKind
    cases Library.lookup slot.name map with
    | none => simp [hname]
    | some kind => simp
  unfold Items.itemId
  simp only [hkind, hrestore, Option.getD_some]
  rcases hcases with hkind | ⟨hcustom', hshell⟩
  · simp [hkind, hcustom]
  · rw [if_neg (fun h => hcustom' (hcustom.mp h))]
    split
    · exact absurd ‹_› hcustom'
    · exact absurd ‹_› hshell
    · rfl

/-- The names after one more fragment of a call. -/
def addName (names : Nat → List (Option String)) (index : Nat) (name : Option String) (i : Nat) :
    List (Option String) :=
  if i = index then names i ++ [name] else names i

/-- A fragment says of its call what its names so far allow. -/
theorem called_toolNamed (hmap : map.Named) (h : Tracked map names s ms) (index : Nat)
    (id name : Option String) :
    let t := s.toolNamed index id name
    let p := s.place .tool index
    let slot := t.slotAt p
    Called map s.context.allowIncompleteToolCalls (names index ++ [name]) slot (ms p ++
      ((if s.isNew .tool index && slot.name != localShell then [.added (some (t.itemId slot))]
          else []) ++
        (if !isCustom map slot.name && slot.name != localShell then [.inner (some slot.id)]
          else []))) := by
  intro t p slot
  have ht : t.restore = some map := (toolNamed_fields s index id name).2.trans h.restore
  cases hnew : s.isNew .tool index with
  | true =>
      have hslot : slot = (s.newSlot .tool index).identify (s.identity index id name).1
          (name.getD "") ((if isCustom map (name.getD "") then "ctc_" else "fc_") ++
            (s.identity index id name).1) := by
        refine slotAt_of_getElem? ?_
        change (s.toolNamed index id name).slots[s.place .tool index]? = _
        obtain ⟨slot', hslot', -, -, -, -, hslotNew⟩ := placed_slot h.orderly .tool index
        rw [hslotNew hnew] at hslot'
        have htools : s.toolMap = map := by simp [Items.toolMap, h.restore]
        rw [Items.toolNamed, if_pos hnew, Items.toolOpened, htools]
        exact touchSlot_get _ (by simpa [Items.laidOut] using hslot')
      have hids : slot.id = (if isCustom map slot.name then "ctc_" else "fc_") ++ slot.callId := by
        rw [hslot]
        rfl
      have hname : slot.name = name.getD "" := by
        rw [hslot]
        rfl
      have hkind : slot.kind = .tool := by
        rw [hslot]
        rfl
      rw [h.names_new hnew, h.beyond p (place_new hnew).ge, List.nil_append, List.nil_append]
      refine ⟨?_, ?_, ?_⟩
      · rw [hids, hname]
        rfl
      · rw [hname, settledName_singleton]
      · have hfirst : firstName [name] = slot.name := hname.symm
        rw [hfirst]
        by_cases hshell : slot.name = localShell
        · simp [hshell]
        · rw [if_neg hshell, itemId_tool hmap ht hkind hshell, ← hids]
          cases isCustom map slot.name with
          | true => exact ⟨0, by simp [hshell]⟩
          | false => exact ⟨1, by simp [hshell]⟩
  | false =>
      obtain ⟨slot', hslot', hkind', hsource', -⟩ := placed_slot h.orderly .tool index
      rw [placed_old hnew] at hslot'
      obtain ⟨-, -, hne, hcalled⟩ := h.call p slot' hslot' hkind'
      rw [hsource'] at hne hcalled
      have hslot : slot = slot'.rename (s.lateName slot' name) := by
        refine slotAt_of_getElem? ?_
        change (s.toolNamed index id name).slots[s.place .tool index]? = _
        rw [Items.toolNamed, hnew]
        exact touchSlot_get _ hslot'
      have hname : slot.name = settledName s.context.allowIncompleteToolCalls
          (names index ++ [name]) := by
        rw [settledName_snoc _ hne, ← hcalled.name, hslot]
        cases name <;> rfl
      have hids : slot.id = slot'.id ∧ slot.callId = slot'.callId := by
        rw [hslot]
        exact ⟨rfl, rfl⟩
      refine ⟨?_, hname, ?_⟩
      · rw [firstName_snoc hne, hids.1, hids.2]
        exact hcalled.id
      · have hmarks := hcalled.marks
        rw [firstName_snoc hne]
        by_cases hshell : firstName (names index) = localShell
        · rw [if_pos hshell] at hmarks ⊢
          have hkept : slot.name = localShell := by
            have hfirst : firstName (names index ++ [name]) = localShell := by
              rw [firstName_snoc hne, hshell]
            rw [hname, settledName_of_first _ (by rw [hfirst]; decide), hfirst]
          simp [hmarks, hkept]
        · rw [if_neg hshell] at hmarks ⊢
          rw [hids.1]
          by_cases hsaid : (!isCustom map slot.name && slot.name != localShell) = true
          · simpa [hsaid] using hmarks.more 1
          · simpa [hsaid] using hmarks

theorem tracked_tool (hmap : map.Named) (h : Tracked map names s ms) (index : Nat)
    (id name : Option String) (arguments : String) :
    let t := s.toolNamed index id name
    let p := s.place .tool index
    let slot := t.slotAt p
    Tracked map (addName names index name) (t.touchSlot p (·.write arguments)) fun q =>
      ms q ++ onlyAt p ((if s.isNew .tool index && slot.name != localShell then
          [.added (some (t.itemId slot))] else []) ++
        (if !isCustom map slot.name && slot.name != localShell then [.inner (some slot.id)]
          else [])) q := by
  intro t p slot
  have hcalled := called_toolNamed hmap h index id name
  obtain ⟨hcontext, hrestore⟩ := toolNamed_fields s index id name
  obtain ⟨slot', hslot, hkind, hsource, hopen, -⟩ := toolNamed_slot h.orderly index id name
  have hat : slot = slot' := slotAt_of_getElem? hslot
  rw [← hat] at hslot hkind hsource hopen
  refine h.update ?_ hcontext hrestore (touchSlot_get _ hslot) ?_ ?_ ?_ ?_ ?_ ?_ ?_
  · exact orderly_touchSlot (orderly_toolNamed h.orderly index id name) p
      fun _ => ⟨rfl, rfl, rfl⟩
  · intro q hq
    rw [touchSlot_other _ _ hq, toolNamed_other s id name hq]
  · intro q hq
    have hq : q ≠ p := hq
    simp [onlyAt, hq]
  · intro before hbefore
    obtain ⟨-, hk, hs⟩ := slot_before h.orderly hbefore
    exact ⟨hk.trans hkind.symm, hs.trans hsource.symm⟩
  · intro i hi
    have hne : i ≠ index := fun heq => hi hkind (heq.trans hsource.symm)
    rw [addName, if_neg hne]
  · intro q other hq hother hk
    have hne : other.sourceIndex ≠ index := by
      intro heq
      have hplace := (h.place_call hother hk).2
      rw [heq] at hplace
      exact hq hplace.symm
    refine ⟨fun _ heq => hne (heq.trans hsource), ?_⟩
    change Library.lookup _ t.lookup = _
    rw [toolNamed_lookup]
    exact lookup_placed s fun heq => hne (congrArg Prod.snd heq)
  · intro hplain
    exact absurd hkind hplain
  · intro _
    change slot.closed = false ∧ Library.lookup (.tool, slot.sourceIndex) t.lookup = some p ∧
      addName names index name slot.sourceIndex ≠ [] ∧ Called _ _
        (addName names index name slot.sourceIndex) (slot.write arguments) _
    rw [toolNamed_lookup, hsource, addName, if_pos rfl]
    refine ⟨hopen, lookup_place s .tool index, by simp, ?_⟩
    simp only [onlyAt, if_true]
    exact ⟨hcalled.id, hcalled.name, hcalled.marks⟩

/-! ## Every event, and whole runs -/

theorem toolNames_snoc (events : List StreamEvent) (event : StreamEvent) :
    (fun i => toolNames i (events ++ [event])) =
      match event with
      | .toolCallDelta index _ name _ _ => addName (fun i => toolNames i events) index name
      | _ => fun i => toolNames i events := by
  funext i
  cases event with
  | toolCallDelta index id name arguments =>
      by_cases hi : index = i
      · subst hi
        simp [toolNames, addName]
      · simp [toolNames, addName, hi, Ne.symm hi]
  | _ => simp [toolNames]

theorem tracked_delta (packages : Packages) (h : Tracked map names s ms) (index : Nat)
    (content : String) :
    Tracked map names (s.after (.delta index content)) fun q =>
      ms q ++ s.emits packages (.delta index content) q := by
  have hraw := tracked_closedRaw packages h index
  simp only [Items.after, Items.afterDelta, Items.emits, Items.deltaEmits, ← List.append_assoc]
  generalize s.closedRaw index = r at hraw ⊢
  obtain ⟨hslots, hlookup, hcontext, hrestore⟩ := laidOut_fields (r.placed .text index)
    (r.isNew .text index) (.text (r.place .text index))
  have hplain := tracked_plain hraw .text (by decide) index
    (if r.isNew .text index then 2 else 1) (f := (·.write content))
    fun _ => ⟨rfl, rfl, rfl, rfl, rfl⟩
  have hlaid := hplain.of_slots
    (t := ((r.placed .text index).laidOut (r.isNew .text index)
      (.text (r.place .text index))).touchSlot (r.place .text index) (·.write content))
    (congrArg (·.modify (r.place .text index) (·.write content)) hslots) hlookup hcontext hrestore
  cases hnew : r.isNew .text index with
  | true =>
      rw [hnew] at hlaid
      exact hlaid
  | false =>
      rw [hnew] at hlaid
      exact hlaid

theorem tracked_thinkingDelta (packages : Packages) (h : Tracked map names s ms)
    (index blockIndex : Nat) (text : String) :
    Tracked map names (s.after (.thinkingDelta index blockIndex text)) fun q =>
      ms q ++ s.emits packages (.thinkingDelta index blockIndex text) q := by
  obtain ⟨hslots, hlookup, hcontext, hrestore⟩ := thought_fields s index blockIndex text
  have hthought := h.of_slots hslots hlookup hcontext hrestore
  simp only [Items.after, Items.afterThinking, Items.emits, Items.thinkingEmits]
  generalize s.thought index blockIndex text = r at hthought ⊢
  have hplain := fun n => tracked_plain hthought .reasoning (by decide) index n
    (f := (·.write text)) fun _ => ⟨rfl, rfl, rfl, rfl, rfl⟩
  cases hnew : r.isNew .reasoning index with
  | true =>
      rw [hnew] at hplain
      by_cases hmode : s.context.reasoning = .summary
      · rw [if_pos hmode]
        exact hplain 2
      · rw [if_neg hmode]
        exact hplain 1
  | false =>
      rw [hnew] at hplain
      exact hplain 1

theorem tracked_signatureDelta (packages : Packages) (h : Tracked map names s ms)
    (index blockIndex : Nat) (text : String) :
    Tracked map names (s.after (.thinkingSignatureDelta index blockIndex text)) fun q =>
      ms q ++ s.emits packages (.thinkingSignatureDelta index blockIndex text) q := by
  obtain ⟨hslots, hlookup, hcontext, hrestore⟩ := signed_fields s index blockIndex text
  have hsigned := h.of_slots hslots hlookup hcontext hrestore
  simp only [Items.after, Items.afterSignature, Items.emits, Items.addEmits]
  generalize s.signed index blockIndex text = r at hsigned ⊢
  split
  · simpa using tracked_plain hsigned .reasoning (by decide) index 0 (f := (·.sign text))
      fun _ => ⟨rfl, rfl, rfl, rfl, rfl⟩
  · have hplain := tracked_plain hsigned .reasoning (by decide) index 0 (f := id)
      fun _ => ⟨rfl, rfl, rfl, rfl, rfl⟩
    simpa [Items.touchSlot] using hplain

theorem tracked_redacted (packages : Packages) (h : Tracked map names s ms)
    (index blockIndex : Nat) (data : String) :
    Tracked map names (s.after (.redactedThinking index blockIndex data)) fun q =>
      ms q ++ s.emits packages (.redactedThinking index blockIndex data) q := by
  have hredacted : Tracked map names (s.redacted index blockIndex data) ms :=
    h.of_slots rfl rfl rfl rfl
  simp only [Items.after, Items.afterRedacted, Items.emits, Items.addEmits]
  generalize s.redacted index blockIndex data = r at hredacted ⊢
  have hplain := tracked_plain hredacted .reasoning (by decide) index 0 (f := id)
    fun _ => ⟨rfl, rfl, rfl, rfl, rfl⟩
  simpa [Items.touchSlot] using hplain

theorem tracked_toolCallDelta (packages : Packages) (hmap : map.Named)
    (h : Tracked map names s ms) (index : Nat) (id name : Option String) (arguments : String)
    (signature : Option String) :
    Tracked map (addName names index name)
      (s.after (.toolCallDelta index id name arguments signature))
      fun q => ms q ++ s.emits packages (.toolCallDelta index id name arguments signature) q := by
  have hraw := tracked_closedRaw packages h index
  simp only [Items.after, Items.afterTool, Items.emits, Items.toolEmits, ← List.append_assoc]
  have htools : ((s.closedRaw index).toolNamed index id name).toolMap = map := by
    rw [Items.toolMap, (toolNamed_fields _ _ _ _).2, hraw.restore]
    rfl
  rw [htools]
  simpa only [List.append_assoc] using tracked_tool hmap hraw index id name arguments

theorem tracked_after (packages : Packages) (hmap : map.Named) {events : List StreamEvent}
    (h : Tracked map (fun i => toolNames i events) s ms) (event : StreamEvent) :
    Tracked map (fun i => toolNames i (events ++ [event])) (s.after event) fun q =>
      ms q ++ s.emits packages event q := by
  rw [toolNames_snoc]
  cases event with
  | delta index content => exact tracked_delta packages h index content
  | thinkingDelta index blockIndex text =>
      exact tracked_thinkingDelta packages h index blockIndex text
  | thinkingSignatureDelta index blockIndex text =>
      exact tracked_signatureDelta packages h index blockIndex text
  | redactedThinking index blockIndex data =>
      exact tracked_redacted packages h index blockIndex data
  | toolCallDelta index id name arguments signature =>
      exact tracked_toolCallDelta packages hmap h index id name arguments signature
  | usage => simpa [Items.emits, Items.after] using h
  | finish => simpa [Items.emits, Items.after] using h
  | done => simpa [Items.emits, Items.after] using h
  | error => simpa [Items.emits, Items.after] using h

theorem tracked_afterAll (packages : Packages) (hmap : map.Named) (context : ResponsesContext)
    (events : List StreamEvent) :
    Tracked map (fun i => toolNames i events) ((Items.start context map).afterAll events)
      ((Items.start context map).emitsAll packages events) := by
  induction events using List.reverseRecOn with
  | nil => exact tracked_start context map
  | append_singleton events event ih =>
      have hafter := tracked_after packages hmap ih event
      rw [afterAll_snoc]
      have hmarks : (Items.start context map).emitsAll packages (events ++ [event]) = fun q =>
          (Items.start context map).emitsAll packages events q ++
            ((Items.start context map).afterAll events).emits packages event q := by
        funext q
        exact emitsAll_snoc packages _ events event q
      rw [hmarks]
      exact hafter

/-! ## Closing -/

/-- Text and reasoning items always get their lifecycle. -/
theorem ended_plain (packages : Packages) (h : Tracked map names s ms) {q : Nat} {slot : Slot}
    (hslot : s.slots[q]? = some slot) (hkind : slot.kind ≠ .tool) :
    ∃ id, Ended id (ms q ++ s.closeEmits packages (fun _ => true) q) := by
  have hplain := h.plain q slot hslot hkind
  refine ⟨slot.id, ?_⟩
  unfold Items.closeEmits
  simp only [hslot, Bool.true_and]
  cases hclosed : slot.closed with
  | true => simpa [hclosed] using hplain
  | false =>
      simp only [hclosed, Bool.false_eq_true, if_false] at hplain
      simp only [Bool.not_false, if_true]
      cases hk : slot.kind with
      | text => simpa [Items.closeMarks, Items.itemId, hk] using hplain.ends 2
      | reasoning =>
          cases hmode : s.context.reasoning with
          | rawContent => simpa [Items.closeMarks, Items.itemId, hk, hmode] using hplain.ends 1
          | summary => simpa [Items.closeMarks, Items.itemId, hk, hmode] using hplain.ends 2
      | tool => exact absurd hk hkind

theorem prefix_ne (callId : String) :
    "ctc_" ++ callId ≠ "fc_" ++ callId ∧ "ls_" ++ callId ≠ "fc_" ++ callId ∧
      "ls_" ++ callId ≠ "ctc_" ++ callId := by
  refine ⟨?_, ?_, ?_⟩ <;>
  · intro h
    have hlist := congrArg String.toList h
    simp only [String.toList_append, List.append_cancel_right_eq] at hlist
    revert hlist
    decide

/-- The id a call was announced under tells whether it was announced as custom. -/
theorem slotId_eq_iff {id callId : String} {custom : Bool}
    (h : id = (if custom then "ctc_" else "fc_") ++ callId) :
    ("ctc_" ++ callId = id ↔ true = custom) ∧ ("fc_" ++ callId = id ↔ false = custom) ∧
      ("ls_" ++ callId ≠ id) := by
  obtain ⟨hcf, hlf, hlc⟩ := prefix_ne callId
  cases custom with
  | true => simp [h, hcf.symm, hlc]
  | false => simp [h, hcf, hlf]

theorem itemId_call (hrestore : s.restore = some map) {slot : Slot} (hkind : slot.kind = .tool) :
    s.itemId slot = match resolvedKind map slot.name with
      | .custom => "ctc_" ++ slot.callId
      | .shell => "ls_" ++ slot.callId
      | _ => "fc_" ++ slot.callId := by
  cases hresolved : resolvedKind map slot.name <;>
    simp only [Items.itemId, hkind, hrestore, Option.getD_some, hresolved]

/-- A call that was announced ends as announced, unless its name has become that
of a local shell or of a tool that is custom where the first name was not. -/
theorem ended_announced (packages : Packages) (hrestore : s.restore = some map) {slot : Slot}
    (hkind : slot.kind = .tool) {said : List Mark} (hsaid : Begun slot.id said) {custom : Bool}
    (hid : slot.id = (if custom then "ctc_" else "fc_") ++ slot.callId) :
    (∃ id, Ended id (said ++ s.closeMarks packages slot)) ↔
      resolvedKind map slot.name ≠ .shell ∧ isCustom map slot.name = custom := by
  obtain ⟨hcustom, hfunction, hshell⟩ := slotId_eq_iff hid
  have hother : ∀ id : String, s.itemId slot = id → s.closeMarks packages slot =
      List.replicate 1 (.inner (some slot.id)) ++ [.done (some (s.itemId slot))] →
      ((∃ id, Ended id (said ++ s.closeMarks packages slot)) ↔ id = slot.id) := by
    intro id hitem hmarks
    rw [hmarks, hsaid.ended_iff 0, hitem]
    simp
  have hitem := itemId_call hrestore hkind
  cases hlookup : Library.lookup slot.name map with
  | none =>
      have hmarks : s.closeMarks packages slot =
          List.replicate 1 (.inner (some slot.id)) ++ [.done (some (s.itemId slot))] := by
        simp [Items.closeMarks, hkind, hrestore, hlookup]
      simp only [resolvedKind, hlookup, Option.getD_none] at hitem ⊢
      simp only [isCustom, hlookup]
      by_cases hreserved : slot.name = localShell
      · simp only [hreserved, if_true] at hitem ⊢
        rw [hother _ hitem hmarks]
        simp [hshell]
      · simp only [hreserved, if_false] at hitem ⊢
        rw [hother _ hitem hmarks, hfunction]
        simp
  | some kind =>
      simp only [resolvedKind, hlookup, Option.getD_some] at hitem ⊢
      simp only [isCustom, hlookup]
      cases kind with
      | shell =>
          refine iff_of_false ?_ (by simp)
          simp only [Items.closeMarks, hkind, hrestore, Option.bind_some, hlookup]
          exact hsaid.not_again _ _
      | custom =>
          simp only [Items.closeMarks, hkind, hrestore, Option.bind_some, hlookup, hitem]
          have hended := fun n => hsaid.ended_iff n ("ctc_" ++ slot.callId) ("ctc_" ++ slot.callId)
          simp only [hcustom, and_self] at hended
          split
          · simpa using hended 0
          · simpa using hended 1
      | function | search | namespaced =>
          rw [hother _ hitem (by simp [Items.closeMarks, hkind, hrestore, hlookup]), hfunction]
          exact ⟨fun h => ⟨by simp, h⟩, fun h => h.2⟩

/-- A call gets its lifecycle exactly when its names settle. -/
theorem ended_call (packages : Packages) (h : Tracked map names s ms) {q : Nat} {slot : Slot}
    (hslot : s.slots[q]? = some slot) (hkind : slot.kind = .tool) :
    (∃ id, Ended id (ms q ++ s.closeEmits packages (fun _ => true) q)) ↔
      NamesSettle map s.context.allowIncompleteToolCalls (names slot.sourceIndex) := by
  obtain ⟨hopen, -, -, hcalled⟩ := h.call q slot hslot hkind
  have hmarks := hcalled.marks
  have hid := hcalled.id
  have hname := hcalled.name
  unfold Items.closeEmits NamesSettle
  simp only [hslot, hopen, Bool.not_false, Bool.and_self, if_true, Items.closeMarks, hkind,
    h.restore, Option.bind_some]
  by_cases hshell : firstName (names slot.sourceIndex) = localShell
  · -- Nothing was said of the call, so closing must announce it.
    have hsame : slot.name = localShell := by
      rw [hname, settledName_of_first _ (by rw [hshell]; decide), hshell]
    rw [if_pos hshell] at hmarks ⊢
    rw [hmarks, hsame]
    cases hlookup : Library.lookup localShell map with
    | none =>
        refine iff_of_false ?_ (by simp)
        rintro ⟨id, n, hn⟩
        cases hn
    | some kind =>
        cases kind with
        | shell => exact iff_of_true ⟨_, 0, rfl⟩ rfl
        | custom =>
            refine iff_of_false ?_ (by simp)
            rintro ⟨id, n, hn⟩
            simp only at hn
            split at hn <;> cases hn
        | _ =>
            refine iff_of_false ?_ (by simp)
            rintro ⟨id, n, hn⟩
            cases hn
  · rw [if_neg hshell] at hmarks ⊢
    rw [← hname]
    have hannounced := ended_announced packages h.restore hkind hmarks hid
    simp only [Items.closeMarks, hkind, h.restore, Option.bind_some] at hannounced
    exact hannounced

end

/-! ## Completed streams -/

theorem occurs_iff {frames : List ResponsesFrame} {index : Nat} :
    (∃ f ∈ frames, f.outputIndex = some index) ↔ marks frames index ≠ [] := by
  rw [marks, ne_eq, List.map_eq_nil_iff, List.filter_eq_nil_iff]
  simp

theorem closeMarks_ne_nil (packages : Packages) (s : Items) (slot : Slot) :
    s.closeMarks packages slot ≠ [] := by
  unfold Items.closeMarks
  simp only
  split
  · simp
  · split <;> simp
  · split
    · split <;> simp
    · simp
    · simp

theorem lifecycle_finished {packages : Packages} {context : ResponsesContext} {map : ToolMap}
    {live : List StreamEvent} {frames : List ResponsesFrame} {s : Items} {output : List Value}
    (h : Finished packages context map live frames s output) :
    (∀ index, (∃ f ∈ frames, f.outputIndex = some index) → Lifecycle frames index) ↔
      ∀ index, toolNames index live ≠ [] →
        NamesSettle map context.allowIncompleteToolCalls (toolNames index live) := by
  have hmap := named_restoreMap packages h.tools
  have htracked := tracked_afterAll packages hmap context live
  have hcontext : ((Items.start context map).afterAll live).context = context :=
    (afterAll_fields (Items.start context map) live).1
  obtain ⟨front, last, rfl, hterminal, hfront, -⟩ := h.frames
  have hmarks : ∀ q, marks (front ++ [last]) q =
      (Items.start context map).emitsAll packages live q ++
        ((Items.start context map).afterAll live).closeEmits packages (fun _ => true) q := by
    intro q
    have hlast : marks [last] q = [] := by simp [marks, hterminal.unindexed]
    rw [marks_append, hlast, List.append_nil, hfront q]
  generalize (Items.start context map).afterAll live = r at htracked hcontext hmarks
  generalize (Items.start context map).emitsAll packages live = ms at htracked hmarks
  have hlived : ∀ (q : Nat) (slot : Slot), r.slots[q]? = some slot →
      (Lifecycle (front ++ [last]) q ↔ (slot.kind = .tool →
        NamesSettle map context.allowIncompleteToolCalls (toolNames slot.sourceIndex live))) := by
    intro q slot hslot
    rw [lifecycle_iff_ended, hmarks q]
    by_cases hkind : slot.kind = .tool
    · rw [ended_call packages htracked hslot hkind, hcontext]
      simp [hkind]
    · exact iff_of_true (ended_plain packages htracked hslot hkind) fun h => absurd h hkind
  constructor
  · intro hlifecycle index hnames
    obtain ⟨q, slot, hslot, hkind, rfl⟩ := htracked.found index hnames
    refine (hlived q slot hslot).mp (hlifecycle q (occurs_iff.mpr ?_)) hkind
    have hopen := (htracked.call q slot hslot hkind).1
    rw [hmarks q, Items.closeEmits, hslot]
    simp [hopen, closeMarks_ne_nil]
  · intro hsettle q hoccurs
    rw [occurs_iff, hmarks q] at hoccurs
    have hq : q < r.slots.length := by
      by_contra hq
      rw [htracked.beyond q (Nat.not_lt.mp hq), closeEmits_of_length packages hq] at hoccurs
      exact hoccurs rfl
    have hslot := List.getElem?_eq_getElem hq
    refine (hlived q _ hslot).mpr fun hkind => hsettle _ ?_
    exact (htracked.call q _ hslot hkind).2.2.1

/-- The lifecycle of every output index of a completed stream holds exactly when
each tool call ends with a name that is restored as the call was announced. -/
theorem items_lifecycle_iff_names_settle (packages : Packages) (context : ResponsesContext)
    (batches : List (List StreamEvent))
    (h : (responsesCalls packages (.new context) batches).2.status = .completed) :
    let frames := delivered (responsesCalls packages (.new context) batches).1
    (∀ index, (∃ f ∈ frames, f.outputIndex = some index) → Lifecycle frames index) ↔
      ∃ map, restoreMap packages context.inboundTools = .ok map ∧
        ∀ index, toolNames index (liveEvents batches) ≠ [] →
          NamesSettle map context.allowIncompleteToolCalls
            (toolNames index (liveEvents batches)) := by
  intro frames
  obtain ⟨map, output, hfinished⟩ := completed_run packages context batches h
  rw [lifecycle_finished hfinished]
  constructor
  · intro hsettle
    exact ⟨map, hfinished.tools, hsettle⟩
  · rintro ⟨map', htools, hsettle⟩
    obtain rfl : map = map' := by
      rw [hfinished.tools] at htools
      exact Except.ok.inj htools
    exact hsettle

/-- A client with one custom tool that lets calls arrive incomplete. -/
def customToolContext : ResponsesContext :=
  ⟨"r", "m", 0, .array [.obj [("type", .string "custom"), ("name", .string "apply")]], .summary,
    true, false⟩

/-- A call whose name comes with its first fragment. -/
def namedCall : List StreamEvent :=
  [.toolCallDelta 0 (some "c") (some "apply") "x" none, .done none none]

/-- A call whose name comes after its id. -/
def lateNamedCall : List StreamEvent :=
  [.toolCallDelta 0 (some "c") none "" none, .toolCallDelta 0 none (some "apply") "x" none,
    .done none none]

theorem items_lifecycle_named_call :
    (responsesCalls .textual (.new customToolContext) [namedCall]).2.status = .completed ∧
      ∀ index, (∃ f ∈ delivered (responsesCalls .textual (.new customToolContext) [namedCall]).1,
          f.outputIndex = some index) →
        Lifecycle (delivered (responsesCalls .textual (.new customToolContext) [namedCall]).1)
          index := by
  have hcompleted :
      (responsesCalls .textual (.new customToolContext) [namedCall]).2.status = .completed := by
    decide +kernel
  refine ⟨hcompleted, (items_lifecycle_iff_names_settle .textual customToolContext [namedCall]
    hcompleted).mpr ⟨[("apply", .custom)], by rfl, fun index hnames => ?_⟩⟩
  have hindex : index = 0 := by
    by_contra hne
    refine hnames ?_
    simp [toolNames, liveEvents, namedCall, StreamEvent.isContent, Ne.symm hne]
  subst hindex
  decide +kernel

/-- The item of a late named call is announced under one id and ended under
another. -/
theorem late_name_breaks_lifecycle :
    (responsesCalls .textual (.new customToolContext) [lateNamedCall]).2.status = .completed ∧
      (∃ f ∈ delivered (responsesCalls .textual (.new customToolContext) [lateNamedCall]).1,
        f.outputIndex = some 0) ∧
      ¬Lifecycle (delivered (responsesCalls .textual (.new customToolContext) [lateNamedCall]).1)
        0 := by
  have hmarks : marks (delivered (responsesCalls .textual (.new customToolContext)
      [lateNamedCall]).1) 0 = [.added (some "fc_c"), .inner (some "fc_c"), .inner (some "ctc_c"),
        .inner (some "ctc_c"), .done (some "ctc_c")] := by
    decide +kernel
  refine ⟨by decide +kernel, occurs_iff.mpr (by rw [hmarks]; simp), ?_⟩
  rw [lifecycle_iff_ended, hmarks]
  rintro ⟨id, n, hn⟩
  obtain ⟨hhead, htail⟩ := List.cons.inj hn
  have hid : "fc_c" = id := by simpa using hhead
  subst hid
  have hlast := congrArg List.getLast? htail
  simp at hlast

end TokenStation.Responses
