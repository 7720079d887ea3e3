import TokenStation.Media.Heads

/-!
# Views of documents

A view is a document's tree with numbered placeholders in it. Which strings leave, what
stands in their place and how they are put back are said of trees here; no tree is
written or parsed.
-/

namespace TokenStation.Media

open Library.Text Json

/-! ## Trees -/

/-- Where a value stands in a tree. -/
inductive At : Node → List PathStep → Node → Prop
  | here (node : Node) : At node [] node
  | item {items : List Node} {position : Nat} {child node : Node} {path : List PathStep}
      (hitem : items[position]? = some child) (h : At child path node) :
      At (.array items) (.index position :: path) node
  | member {members : List (JsonString × Node)} {key : JsonString} {child node : Node}
      {path : List PathStep} (hmember : (key, child) ∈ members) (h : At child path node) :
      At (.object members) (.key key.decoded :: path) node

/-- A string without escapes. -/
def plain (text : String) : JsonString := ⟨text, text⟩

mutual

/-- The objects of a tree in document order, each as its members. -/
def objectsOf : Node → List (List (JsonString × Node))
  | .scalar _ => []
  | .string _ => []
  | .array items => objectsOfItems items
  | .object members => members :: objectsOfMembers members

def objectsOfItems : List Node → List (List (JsonString × Node))
  | [] => []
  | item :: items => objectsOf item ++ objectsOfItems items

def objectsOfMembers : List (JsonString × Node) → List (List (JsonString × Node))
  | [] => []
  | (_, value) :: members => objectsOf value ++ objectsOfMembers members

end

/-- An object with a key in the placeholder namespace. -/
def hasReserved (members : List (JsonString × Node)) : Bool :=
  members.any fun member => isReserved member.1.decoded

mutual

/-- The tree with each string spelled the same way. -/
def meant : Node → Node
  | .scalar text => .scalar text
  | .string string => .string (writeString string.decoded)
  | .array items => .array (meantItems items)
  | .object members => .object (meantMembers members)

def meantItems : List Node → List Node
  | [] => []
  | item :: items => meant item :: meantItems items

def meantMembers : List (JsonString × Node) → List (JsonString × Node)
  | [] => []
  | (key, value) :: members =>
      (writeString key.decoded, meant value) :: meantMembers members

end

/-! ## Placeholders -/

/-- The members of a placeholder. -/
def placeholderMembers (id : String) (size : Nat) (head : String) : List (JsonString × Node) :=
  [(plain blobKey, .object [(plain "id", .string (plain id)),
    (plain "bytes", .scalar (toString size)), (plain "head", .string (writeString head))])]

/-- The placeholder describes the text behind a blob. -/
structure Describes (limits : MediaLimitsV1) (blob : BlobV1) (members : List (JsonString × Node)) :
    Prop where
  described : ∃ text head, blob.bytes = bytes text ∧ IsHead limits.blobHeadBytes text head ∧
    members = placeholderMembers blob.id blob.bytes.length head
  text : blob.text = true

/-- The blob an object refers to. -/
def blobIn (blobs : List BlobV1) : List (JsonString × Node) → Option BlobV1
  | [(key, .object ((_, .string id) :: _))] =>
      if key.decoded = blobKey then blobs.find? fun blob => blob.id == id.decoded else none
  | _ => none

/-- The string of a blob's bytes. -/
def BlobV1.string (blob : BlobV1) : Node :=
  .string (writeString ((fromUtf8 blob.bytes).getD ""))

mutual

/-- Put the string of its blob in the place of each placeholder. -/
def restore (blobs : List BlobV1) : Node → Node
  | .scalar text => .scalar text
  | .string string => .string string
  | .array items => .array (restoreItems blobs items)
  | .object members =>
      match blobIn blobs members with
      | some blob => blob.string
      | none => .object (restoreMembers blobs members)

def restoreItems (blobs : List BlobV1) : List Node → List Node
  | [] => []
  | item :: items => restore blobs item :: restoreItems blobs items

def restoreMembers (blobs : List BlobV1) : List (JsonString × Node) → List (JsonString × Node)
  | [] => []
  | (key, value) :: members => (key, restore blobs value) :: restoreMembers blobs members

end

/-! ## Views -/

section

variable (declared : List PathPatternV1) (limits : MediaLimitsV1)

/-- The rule that takes a string out. -/
def Elides (path : List PathStep) (text : String) : Prop :=
  (∃ pattern ∈ declared, pattern.Matches path) ∨ limits.inlineStringBytes < (bytes text).length

/-- The same rule as the code decides it. -/
def elides (path : List PathStep) (text : String) : Bool :=
  declared.any (·.accepts path) || limits.inlineStringBytes < (bytes text).length

theorem elides_iff {path : List PathStep} {text : String} :
    elides declared limits path text = true ↔ Elides declared limits path text := by
  simp [elides, Elides, PathPatternV1.accepts_iff]

mutual

/-- The strings that leave, in document order. -/
def elided (path : List PathStep) : Node → List String
  | .scalar _ => []
  | .string string => if elides declared limits path string.decoded then [string.decoded] else []
  | .array items => elidedItems path 0 items
  | .object members => elidedMembers path members

def elidedItems (path : List PathStep) (position : Nat) : List Node → List String
  | [] => []
  | item :: items =>
      elided (path ++ [.index position]) item ++ elidedItems path (position + 1) items

def elidedMembers (path : List PathStep) : List (JsonString × Node) → List String
  | [] => []
  | (key, value) :: members =>
      elided (path ++ [.key key.decoded]) value ++ elidedMembers path members

end

/-- The placeholder of a text with a number. -/
def placeholderFor (index : Nat) (text : String) : List (JsonString × Node) :=
  placeholderMembers (blobId index) (bytes text).length (utf8Prefix text limits.blobHeadBytes)

mutual

/-- The tree with placeholders, numbered from `next` on. -/
def view (path : List PathStep) (next : Nat) : Node → Node
  | .scalar text => .scalar text
  | .string string =>
      if elides declared limits path string.decoded then
        .object (placeholderFor limits next string.decoded)
      else .string string
  | .array items => .array (viewItems path 0 next items)
  | .object members => .object (viewMembers path next members)

def viewItems (path : List PathStep) (position next : Nat) : List Node → List Node
  | [] => []
  | item :: items =>
      view (path ++ [.index position]) next item ::
        viewItems path (position + 1)
          (next + (elided declared limits (path ++ [.index position]) item).length) items

def viewMembers (path : List PathStep) (next : Nat) :
    List (JsonString × Node) → List (JsonString × Node)
  | [] => []
  | (key, value) :: members =>
      (key, view (path ++ [.key key.decoded]) next value) ::
        viewMembers path
          (next + (elided declared limits (path ++ [.key key.decoded]) value).length) members

end

/-- The blobs of texts that leave one after another. -/
def blobsFrom (next : Nat) : List String → List BlobV1
  | [] => []
  | text :: texts => ⟨blobId next, bytes text, true⟩ :: blobsFrom (next + 1) texts

theorem blobsFrom_append (next : Nat) (texts more : List String) :
    blobsFrom next (texts ++ more) = blobsFrom next texts ++ blobsFrom (next + texts.length) more := by
  induction texts generalizing next with
  | nil => simp [blobsFrom]
  | cons text texts ih =>
      rw [List.cons_append, blobsFrom, ih, blobsFrom, List.cons_append, List.length_cons]
      congr 3
      omega

theorem length_blobsFrom (next : Nat) (texts : List String) :
    (blobsFrom next texts).length = texts.length := by
  induction texts generalizing next with
  | nil => rfl
  | cons text texts ih => rw [blobsFrom, List.length_cons, ih, List.length_cons]

theorem blobsFrom_ids (next : Nat) (texts : List String) :
    (blobsFrom next texts).map (·.id) = (List.range' next texts.length).map blobId := by
  induction texts generalizing next with
  | nil => rfl
  | cons text texts ih => rw [blobsFrom, List.map_cons, ih, List.length_cons, List.range'_succ,
      List.map_cons]

theorem blobId_injective : Function.Injective blobId := by
  intro m n h
  have hlist := congrArg String.toList h
  rw [blobId, blobId, String.toList_append, String.toList_append] at hlist
  have hdigits := String.toList_injective (List.append_cancel_left hlist)
  exact Nat.repr_injective hdigits

theorem blobsFrom_getElem? (next : Nat) (texts : List String) (i : Nat) :
    (blobsFrom next texts)[i]? = texts[i]?.map fun text => ⟨blobId (next + i), bytes text, true⟩ := by
  induction texts generalizing next i with
  | nil => rfl
  | cons text texts ih =>
      cases i with
      | zero => rfl
      | succ i =>
          rw [blobsFrom, List.getElem?_cons_succ, List.getElem?_cons_succ, ih, Nat.add_right_comm,
            Nat.add_assoc]

theorem find?_blobsFrom {next : Nat} {texts : List String} {i : Nat} {text : String}
    (h : texts[i]? = some text) :
    (blobsFrom next texts).find? (fun blob => blob.id == blobId (next + i)) =
      some ⟨blobId (next + i), bytes text, true⟩ := by
  induction texts generalizing next i with
  | nil => cases h
  | cons first texts ih =>
      rw [blobsFrom]
      cases i with
      | zero =>
          obtain rfl := Option.some.inj h
          rw [List.find?_cons, Nat.add_zero, beq_self_eq_true]
      | succ i =>
          have hne : (blobId next == blobId (next + (i + 1))) = false := by
            refine beq_eq_false_iff_ne.mpr fun heq => ?_
            have hindex := blobId_injective heq
            omega
          rw [List.find?_cons, hne, show next + (i + 1) = next + 1 + i by omega]
          exact ih h

end

end TokenStation.Media
