import TokenStation.Library.PairedTables
import TokenStation.Responses.Conversation

/-!
# What a stream assembles to

A consumer of canonical events gathers the text, the thinking and its
signature, the calls slot by slot, and the last usage report.
-/

namespace TokenStation.Responses

open Library

theorem streamedText_append (events more : List StreamEvent) :
    streamedText (events ++ more) = streamedText events ++ streamedText more :=
  List.filterMap_append

theorem streamedThinking_append (events more : List StreamEvent) :
    streamedThinking (events ++ more) = streamedThinking events ++ streamedThinking more :=
  List.filterMap_append

def streamedSignature (events : List StreamEvent) : List String :=
  events.filterMap fun
    | .thinkingSignatureDelta _ _ signature => some signature
    | _ => none

theorem streamedSignature_append (events more : List StreamEvent) :
    streamedSignature (events ++ more) = streamedSignature events ++ streamedSignature more :=
  List.filterMap_append

/-- The usage reports of a stream. -/
def reports (events : List StreamEvent) : List Usage :=
  events.filterMap fun
    | .usage usage => some usage
    | _ => none

/-- The events of a stream that finishes once. -/
def finishedStream (content : List StreamEvent) (reason : FinishReason) (sequence : Option String)
    (usage : Option Usage) (doneReason : Option FinishReason) (doneSequence : Option String) :
    List StreamEvent :=
  content ++ (.finish (some reason) sequence :: (usage.map StreamEvent.usage).toList ++
    [.done doneReason doneSequence])

/-! ## Calls by slot -/

/-- The call of a slot once a fragment is added. -/
def ToolCall.extend (call : Option ToolCall) (id name : Option String) (arguments : String) :
    ToolCall :=
  match call with
  | some call => { call with arguments := call.arguments ++ arguments }
  | none => ⟨id.getD "", name.getD "", arguments, none⟩

/-- A fragment goes on with the call of its slot, or begins it. -/
def addToSlot (calls : List (Nat × ToolCall)) : StreamEvent → List (Nat × ToolCall)
  | .toolCallDelta slot id name arguments _ =>
      store slot (ToolCall.extend (lookup slot calls) id name arguments) calls
  | _ => calls

/-- The calls of a stream by slot, in order of first appearance. -/
def slotCalls (events : List StreamEvent) : List (Nat × ToolCall) := events.foldl addToSlot []

theorem slotCalls_append (events more : List StreamEvent) :
    slotCalls (events ++ more) = more.foldl addToSlot (slotCalls events) :=
  List.foldl_append

/-- The calls of a stream, in order of first appearance. -/
def callsBySlot (events : List StreamEvent) : List ToolCall := (slotCalls events).map Prod.snd

end TokenStation.Responses
