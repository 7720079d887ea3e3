import TokenStation.Responses.Slots
import TokenStation.Responses.Turn

/-!
# The snapshot of a completed stream

A host keeps the answer of a completed stream for the next turn. Without
carriers each choice is its thinking, then its text, then its calls; with
carriers every choice is laid out in the order of the stream.
-/

namespace TokenStation.Responses

open Library Library.Json Library.Checked

/-! ## Choices without carriers -/

/-- An assistant message without content. -/
def emptyMessage : Message := { Message.text .assistant "" with content := none }

/-- The part of a text or reasoning slot. -/
def Slot.part (slot : Slot) : ContentPart :=
  match slot.kind with
  | .reasoning =>
      .thinking slot.text (if slot.signature = "" then none else some slot.signature)
  | _ => .text slot.text

def Slot.call (slot : Slot) : ToolCall := ⟨slot.callId, slot.name, slot.text, none⟩

theorem closing_call (select : Slot → Bool) (slot : Slot) : (closing select slot).call = slot.call := by
  unfold closing
  split <;> rfl

/-- Add a slot to the message of its choice. -/
def Message.addSlot (message : Message) (slot : Slot) : Message :=
  match slot.kind with
  | .tool => { message with toolCalls := message.toolCalls ++ [slot.call] }
  | _ =>
      match message.content with
      | some (.parts parts) => { message with content := some (.parts (parts ++ [slot.part])) }
      | _ => { message with content := some (.parts [slot.part]) }

def addToChoice (messages : List (Nat × Message)) (slot : Slot) : List (Nat × Message) :=
  insertEntry slot.sourceIndex
    (((lookup slot.sourceIndex messages).getD emptyMessage).addSlot slot) messages

/-- The slots in the order of a continuation: thinking, text, then calls. -/
def Items.byKind (s : Items) : List Slot :=
  [SlotKind.reasoning, .text, .tool].flatMap fun kind => s.slots.filter (·.kind == kind)

def Items.plainMessages (s : Items) : List (Nat × Message) := s.byKind.foldl addToChoice []

/-! ## Choices with carriers -/

/-- The choices of the slots and the blocks, in increasing order. -/
def Items.choiceIndexes (s : Items) : List Nat :=
  (s.slots.map (·.sourceIndex) ++ s.replayBlocks.map (·.1.1)).dedup.insertionSort (· ≤ ·)

/-- A choice that is being laid out. -/
structure TurnRead where
  parts : List ContentPart
  toolCalls : List ToolCall
  layout : List Value

def TurnRead.addPart (turn : TurnRead) (part : ContentPart) : TurnRead :=
  { turn with
    parts := turn.parts ++ [part], layout := turn.layout ++ [contentEntry turn.parts.length] }

def TurnRead.addCall (turn : TurnRead) (call : ToolCall) : TurnRead :=
  { turn with
    toolCalls := turn.toolCalls ++ [call], layout := turn.layout ++ [toolCallEntry call.id] }

/-- The part of a block of the stream. -/
def replayPart : ReplayBlockState → ContentPart
  | .thinking thinking signature =>
      .thinking thinking (if signature = "" then none else some signature)
  | .redacted data => .redactedThinking data

/-- One entry of the stream's layout, for one choice. -/
def Items.layEntry (s : Items) (choice : Nat) (turn : TurnRead) : ReplayLayout → Option TurnRead
  | .reasoning index blockIndex =>
      if index = choice then
        (Library.lookup (index, blockIndex) s.replayBlocks).map fun block => turn.addPart (replayPart block)
      else some turn
  | .text position =>
      (s.slots[position]?).map fun slot =>
        if slot.sourceIndex = choice then turn.addPart (.text slot.text) else turn
  | .tool position =>
      (s.slots[position]?).map fun slot =>
        if slot.sourceIndex = choice then turn.addCall slot.call else turn

/-- The message of a choice, laid out in the order of the stream. -/
def Items.replayMessage (s : Items) (choice : Nat) : Option Message := do
  let turn ← s.replayLayout.foldlM (s.layEntry choice) ⟨[], [], []⟩
  let extensions :=
    if (Library.lookup choice s.replayCarriers).isSome then
      insertEntry layoutKey (.array turn.layout) (insertEntry familyKey (.string claudeFamily) [])
    else []
  pure ⟨.assistant, if turn.parts.isEmpty then none else some (.parts turn.parts), turn.toolCalls,
    none, none, extensions⟩

namespace ResponsesSseState

/-- The response of a list of messages by choice. -/
def responseOf (s : ResponsesSseState) (messages : List (Nat × Message)) : ChatResponse :=
  ⟨s.context.responseId, s.context.model,
    messages.map fun entry => ⟨entry.1, entry.2, s.finish, none⟩, s.usage⟩

def replayTerminalResponse (s : ResponsesSseState) : Option ChatResponse :=
  if s.replayCarriers.isEmpty then none
  else
    (s.choiceIndexes.mapM fun choice =>
      (s.replayMessage choice).map fun message => (choice, message)).map s.responseOf

/-- The answer of a completed stream, for the history of the next turn. -/
def terminalResponse (s : ResponsesSseState) : Option ChatResponse :=
  if s.status ≠ .completed then none
  else
    match s.replayTerminalResponse with
    | some response => some response
    | none => some (s.responseOf s.plainMessages)

end ResponsesSseState

end TokenStation.Responses
