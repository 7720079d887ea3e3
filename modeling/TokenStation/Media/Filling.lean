import TokenStation.Media.Elision

/-!
# Filling marked nodes

A pass goes over a tree in document order, checks what it meets, and puts a node in
the place of each marked object without looking inside it. It succeeds exactly when
its checks do, and then its tree is the old one with the marked objects replaced.
-/

namespace TokenStation.Media

open Library.Checked Library.Text Json

/-! ## Replacing -/

section Places

variable {μ ν : Type} (mark : List (JsonString × Node) → Option μ)

mutual

/-- The marked objects in document order. -/
def marks : Node → List μ
  | .scalar _ => []
  | .string _ => []
  | .array items => marksOfItems items
  | .object members =>
      match mark members with
      | some m => [m]
      | none => marksOfMembers members

def marksOfItems : List Node → List μ
  | [] => []
  | item :: items => marks item ++ marksOfItems items

def marksOfMembers : List (JsonString × Node) → List μ
  | [] => []
  | (_, value) :: members => marks value ++ marksOfMembers members

end

mutual

/-- The tree with a node in the place of each marked object. -/
def placed (value : μ → Node) : Node → Node
  | .scalar text => .scalar text
  | .string string => .string string
  | .array items => .array (placedItems value items)
  | .object members =>
      match mark members with
      | some m => value m
      | none => .object (placedMembers value members)

def placedItems (value : μ → Node) : List Node → List Node
  | [] => []
  | item :: items => placed value item :: placedItems value items

def placedMembers (value : μ → Node) :
    List (JsonString × Node) → List (JsonString × Node)
  | [] => []
  | (key, node) :: members => (key, placed value node) :: placedMembers value members

end

variable {mark}

theorem placedMembers_keys (value : μ → Node) (members : List (JsonString × Node)) :
    (placedMembers mark value members).map Prod.fst = members.map Prod.fst := by
  induction members with
  | nil => rfl
  | cons member members ih =>
      obtain ⟨key, node⟩ := member
      rw [placedMembers, List.map_cons, List.map_cons, ih]

mutual

/-- Nodes of one text may stand for each other. -/
theorem write_placed {value other : μ → Node} : ∀ (node : Node),
    (∀ m ∈ marks mark node, write (value m) = write (other m)) →
      write (placed mark value node) = write (placed mark other node)
  | .scalar text, h => rfl
  | .string string, h => rfl
  | .array items, h => by
      rw [placed, placed]
      exact write_array (write_placedItems items h)
  | .object members, h => by
      rw [placed, placed]
      rw [marks] at h
      cases hmark : mark members with
      | some m =>
          rw [hmark] at h
          exact h m (by simp)
      | none =>
          rw [hmark] at h
          exact write_object (write_placedMembers members h)

theorem write_placedItems {value other : μ → Node} : ∀ (items : List Node),
    (∀ m ∈ marksOfItems mark items, write (value m) = write (other m)) →
      writeItems (placedItems mark value items) = writeItems (placedItems mark other items)
  | [], h => rfl
  | item :: items, h => by
      rw [marksOfItems, List.forall_mem_append] at h
      rw [placedItems, placedItems, writeItems, writeItems, write_placed item h.1,
        write_placedItems items h.2]

theorem write_placedMembers {value other : μ → Node} : ∀ (members : List (JsonString × Node)),
    (∀ m ∈ marksOfMembers mark members, write (value m) = write (other m)) →
      writeMembers (placedMembers mark value members) =
        writeMembers (placedMembers mark other members)
  | [], h => rfl
  | (key, node) :: members, h => by
      rw [marksOfMembers, List.forall_mem_append] at h
      rw [placedMembers, placedMembers, writeMembers, writeMembers, write_placed node h.1,
        write_placedMembers members h.2]

end

/-- The text of a written string, as a scalar. -/
def literal (text : String) : Node := .scalar (String.ofList (writeString text).quoted)

/-- The string such a text is read as. -/
def spoken (text : String) : Node := .string (writeString text)

theorem write_literal (text : String) : write (literal text) = write (spoken text) := by
  rw [literal, spoken, write, write, String.toList_ofList]

mutual

/-- Strings in the place of objects nest no deeper. -/
theorem valueText_placed (text : μ → String) : ∀ (node : Node) (level : Nat) (chars : List Char),
    ValueText level chars node →
      ∃ chars', ValueText level chars' (placed mark (fun m => spoken (text m)) node)
  | .scalar word, level, chars, h => ⟨chars, h⟩
  | .string string, level, chars, h => ⟨chars, h⟩
  | .array [], level, chars, h => ⟨chars, h⟩
  | .array (item :: items), level, chars, h => by
      cases h with
      | array hws hitem hrest =>
          obtain ⟨itemChars, hitem⟩ := valueText_placed text item _ _ hitem
          obtain ⟨restChars, hrest⟩ := itemsText_placed text items _ _ hrest
          exact ⟨_, .array hws hitem hrest⟩
  | .object members, level, chars, h => by
      rw [placed]
      cases hmark : mark members with
      | some m => exact ⟨_, .string (writeString_spelled _)⟩
      | none =>
          cases members with
          | nil => exact ⟨chars, h⟩
          | cons member members =>
              obtain ⟨key, value⟩ := member
              cases h with
              | object hws hkey hbefore hafter hvalue hrest =>
                  obtain ⟨valueChars, hvalue⟩ := valueText_placed text value _ _ hvalue
                  obtain ⟨restChars, hrest⟩ := membersText_placed text members _ _ hrest
                  exact ⟨_, .object hws hkey hbefore hafter hvalue hrest⟩

theorem itemsText_placed (text : μ → String) : ∀ (items : List Node) (level : Nat)
    (chars : List Char), ItemsText level chars items →
      ∃ chars', ItemsText level chars' (placedItems mark (fun m => spoken (text m)) items)
  | [], level, chars, h => ⟨chars, h⟩
  | item :: items, level, chars, h => by
      cases h with
      | cons hbefore hafter hitem hrest =>
          obtain ⟨itemChars, hitem⟩ := valueText_placed text item _ _ hitem
          obtain ⟨restChars, hrest⟩ := itemsText_placed text items _ _ hrest
          exact ⟨_, .cons hbefore hafter hitem hrest⟩

theorem membersText_placed (text : μ → String) : ∀ (members : List (JsonString × Node))
    (level : Nat) (chars : List Char), MembersText level chars members →
      ∃ chars', MembersText level chars' (placedMembers mark (fun m => spoken (text m)) members)
  | [], level, chars, h => ⟨chars, h⟩
  | (key, value) :: members, level, chars, h => by
      cases h with
      | cons hlead hws hkey hbefore hafter hvalue hrest =>
          obtain ⟨valueChars, hvalue⟩ := valueText_placed text value _ _ hvalue
          obtain ⟨restChars, hrest⟩ := membersText_placed text members _ _ hrest
          exact ⟨_, .cons hlead hws hkey hbefore hafter hvalue hrest⟩

end

/-- A filled document is a document: the tree with the strings in place. -/
theorem parse_placed {source : String} {node : Node} (h : parse source = .ok node)
    (text : μ → String) :
    parse (writeCompact (placed mark (fun m => literal (text m)) node)) =
      .ok (placed mark (fun m => spoken (text m)) node) := by
  have hdocument := parseWithin_eq_ok.mp h
  generalize source.toList = chars at hdocument
  obtain ⟨-, hvalue, -⟩ := hdocument
  obtain ⟨chars, hfilled⟩ := valueText_placed text node _ _ hvalue
  rw [parse, parseWithin_eq_ok, writeCompact, String.toList_ofList,
    write_placed node fun m _ => write_literal (text m)]
  exact documentText_write hfilled

end Places

/-! ## Passes -/

/-- The mark of an object, when it has one. -/
def markIn {ε μ : Type} (markOf : List (JsonString × Node) → Except ε (Option μ))
    (members : List (JsonString × Node)) : Option μ :=
  match markOf members with
  | .ok (some m) => some m
  | _ => none

/-- What a pass does with what it meets. -/
structure Pass (ε μ : Type) where
  markOf : List (JsonString × Node) → Except ε (Option μ)
  key : JsonString → Except ε Unit
  string : JsonString → Except ε Unit
  put : μ → Except ε Node

namespace Pass

variable {ε μ : Type} (pass : Pass ε μ)

mutual

/-- The new tree and the marks that were met. -/
def walk : Node → Except ε (Node × List μ)
  | .scalar text => .ok (.scalar text, [])
  | .string string => do
      pass.string string
      return (.string string, [])
  | .array items => do
      let (items, found) ← walkItems items
      return (.array items, found)
  | .object members => do
      match ← pass.markOf members with
      | some m => do
          let node ← pass.put m
          return (node, [m])
      | none => do
          let (members, found) ← walkMembers members
          return (.object members, found)

def walkItems : List Node → Except ε (List Node × List μ)
  | [] => .ok ([], [])
  | item :: items => do
      let (item, found) ← walk item
      let (items, more) ← walkItems items
      return (item :: items, found ++ more)

def walkMembers : List (JsonString × Node) → Except ε (List (JsonString × Node) × List μ)
  | [] => .ok ([], [])
  | (key, value) :: members => do
      pass.key key
      let (value, found) ← walk value
      let (members, more) ← walkMembers members
      return ((key, value) :: members, found ++ more)

end

/-- The marks a pass sees. -/
def mark : List (JsonString × Node) → Option μ := markIn pass.markOf

/-- The node of a mark, when there is one. -/
def node (m : μ) : Node :=
  match pass.put m with
  | .ok node => node
  | .error _ => .scalar ""

mutual

/-- The checks of the pass below a node. -/
def Fine : Node → Prop
  | .scalar _ => True
  | .string string => pass.string string = .ok ()
  | .array items => FineItems items
  | .object members =>
      (∃ m, pass.markOf members = .ok (some m)) ∨
        pass.markOf members = .ok none ∧ FineMembers members

def FineItems : List Node → Prop
  | [] => True
  | item :: items => Fine item ∧ FineItems items

def FineMembers : List (JsonString × Node) → Prop
  | [] => True
  | (key, value) :: members => pass.key key = .ok () ∧ Fine value ∧ FineMembers members

end

variable {pass}

theorem mark_some {members : List (JsonString × Node)} {m : μ}
    (h : pass.markOf members = .ok (some m)) : pass.mark members = some m := by
  rw [mark, markIn, h]

theorem mark_none {members : List (JsonString × Node)} (h : pass.markOf members = .ok none) :
    pass.mark members = none := by
  rw [mark, markIn, h]

theorem node_ok {m : μ} {node : Node} (h : pass.put m = .ok node) : pass.node m = node := by
  rw [Pass.node, h]

mutual

/-- A pass succeeds when its checks do and every mark it meets has a node. -/
theorem walk_eq_ok : ∀ (node : Node) (out : Node × List μ), pass.walk node = .ok out ↔
    pass.Fine node ∧ (∀ m ∈ marks pass.mark node, ∃ node, pass.put m = .ok node) ∧
      out = (placed pass.mark pass.node node, marks pass.mark node)
  | .scalar text, out => by
      rw [walk]
      simp [Fine, marks, placed, eq_comm]
  | .string string, out => by
      rw [walk, bind_eq_ok, Fine, marks, placed]
      constructor
      · rintro ⟨_, hstring, hout⟩
        exact ⟨hstring, by simp, (pure_eq_ok.mp hout).symm⟩
      · rintro ⟨hstring, -, rfl⟩
        exact ⟨(), hstring, rfl⟩
  | .array items, out => by
      rw [walk, bind_eq_ok, Fine, marks, placed]
      constructor
      · rintro ⟨found, hitems, hout⟩
        obtain ⟨hfine, hput, rfl⟩ := (walkItems_eq_ok items found).mp hitems
        exact ⟨hfine, hput, (pure_eq_ok.mp hout).symm⟩
      · rintro ⟨hfine, hput, rfl⟩
        exact ⟨_, (walkItems_eq_ok items _).mpr ⟨hfine, hput, rfl⟩, rfl⟩
  | .object members, out => by
      rw [walk, bind_eq_ok, Fine, marks, placed]
      rcases hmark : pass.markOf members with e | m
      · simp
      · cases m with
        | some m =>
            rw [mark_some hmark]
            constructor
            · rintro ⟨found, hfound, hout⟩
              obtain rfl := Except.ok.inj hfound
              obtain ⟨node, hput, hout⟩ := bind_eq_ok.mp hout
              refine ⟨.inl ⟨m, rfl⟩, ?_, ?_⟩
              · rw [List.forall_mem_singleton]
                exact ⟨node, hput⟩
              · dsimp only
                rw [node_ok hput]
                exact (pure_eq_ok.mp hout).symm
            · rintro ⟨-, hput, rfl⟩
              obtain ⟨node, hput⟩ := List.forall_mem_singleton.mp hput
              refine ⟨some m, rfl, bind_eq_ok.mpr ⟨node, hput, ?_⟩⟩
              dsimp only
              rw [node_ok hput]
              rfl
        | none =>
            rw [mark_none hmark]
            constructor
            · rintro ⟨found, hfound, hout⟩
              obtain rfl := Except.ok.inj hfound
              obtain ⟨result, hmembers, hout⟩ := bind_eq_ok.mp hout
              obtain ⟨hfine, hput, rfl⟩ := (walkMembers_eq_ok members result).mp hmembers
              exact ⟨.inr ⟨rfl, hfine⟩, hput, (pure_eq_ok.mp hout).symm⟩
            · rintro ⟨hfine, hput, rfl⟩
              obtain ⟨m, hm⟩ | ⟨-, hfine⟩ := hfine
              · cases hm
              · exact ⟨none, rfl, bind_eq_ok.mpr
                  ⟨_, (walkMembers_eq_ok members _).mpr ⟨hfine, hput, rfl⟩, rfl⟩⟩

theorem walkItems_eq_ok : ∀ (items : List Node) (out : List Node × List μ),
    pass.walkItems items = .ok out ↔
      pass.FineItems items ∧ (∀ m ∈ marksOfItems pass.mark items, ∃ node, pass.put m = .ok node) ∧
        out = (placedItems pass.mark pass.node items, marksOfItems pass.mark items)
  | [], out => by
      rw [walkItems]
      simp [FineItems, marksOfItems, placedItems, eq_comm]
  | item :: items, out => by
      rw [walkItems, bind_eq_ok, FineItems, marksOfItems, placedItems, List.forall_mem_append]
      constructor
      · rintro ⟨first, hfirst, hrest⟩
        obtain ⟨rest, hitems, hout⟩ := bind_eq_ok.mp hrest
        obtain ⟨hfine, hput, rfl⟩ := (walk_eq_ok item first).mp hfirst
        obtain ⟨hfines, hputs, rfl⟩ := (walkItems_eq_ok items rest).mp hitems
        exact ⟨⟨hfine, hfines⟩, ⟨hput, hputs⟩, (pure_eq_ok.mp hout).symm⟩
      · rintro ⟨⟨hfine, hfines⟩, ⟨hput, hputs⟩, rfl⟩
        exact ⟨_, (walk_eq_ok item _).mpr ⟨hfine, hput, rfl⟩, bind_eq_ok.mpr
          ⟨_, (walkItems_eq_ok items _).mpr ⟨hfines, hputs, rfl⟩, rfl⟩⟩

theorem walkMembers_eq_ok : ∀ (members : List (JsonString × Node))
    (out : List (JsonString × Node) × List μ), pass.walkMembers members = .ok out ↔
      pass.FineMembers members ∧
        (∀ m ∈ marksOfMembers pass.mark members, ∃ node, pass.put m = .ok node) ∧
        out = (placedMembers pass.mark pass.node members, marksOfMembers pass.mark members)
  | [], out => by
      rw [walkMembers]
      simp [FineMembers, marksOfMembers, placedMembers, eq_comm]
  | (key, value) :: members, out => by
      rw [walkMembers, bind_eq_ok, FineMembers, marksOfMembers, placedMembers,
        List.forall_mem_append]
      constructor
      · rintro ⟨_, hkey, hrest⟩
        obtain ⟨first, hfirst, hrest⟩ := bind_eq_ok.mp hrest
        obtain ⟨rest, hmembers, hout⟩ := bind_eq_ok.mp hrest
        obtain ⟨hfine, hput, rfl⟩ := (walk_eq_ok value first).mp hfirst
        obtain ⟨hfines, hputs, rfl⟩ := (walkMembers_eq_ok members rest).mp hmembers
        exact ⟨⟨hkey, hfine, hfines⟩, ⟨hput, hputs⟩, (pure_eq_ok.mp hout).symm⟩
      · rintro ⟨⟨hkey, hfine, hfines⟩, ⟨hput, hputs⟩, rfl⟩
        exact ⟨(), hkey, bind_eq_ok.mpr ⟨_, (walk_eq_ok value _).mpr ⟨hfine, hput, rfl⟩,
          bind_eq_ok.mpr ⟨_, (walkMembers_eq_ok members _).mpr ⟨hfines, hputs, rfl⟩, rfl⟩⟩⟩

end

/-! ## Passes that write strings -/

mutual

/-- Passes of the same marks and weaker checks succeed on the same trees. -/
theorem Fine.weaken {other : Pass ε μ} (hmark : pass.markOf = other.markOf)
    (hkey : ∀ key, pass.key key = .ok () → other.key key = .ok ())
    (hstring : ∀ string, pass.string string = .ok () → other.string string = .ok ()) :
    ∀ (node : Node), pass.Fine node → other.Fine node
  | .scalar _, _ => trivial
  | .string string, h => hstring string h
  | .array items, h => FineItems.weaken hmark hkey hstring items h
  | .object members, h => by
      rw [Fine, ← hmark]
      obtain hmarked | ⟨hnone, hmembers⟩ := h
      · exact .inl hmarked
      · exact .inr ⟨hnone, FineMembers.weaken hmark hkey hstring members hmembers⟩

theorem FineItems.weaken {other : Pass ε μ} (hmark : pass.markOf = other.markOf)
    (hkey : ∀ key, pass.key key = .ok () → other.key key = .ok ())
    (hstring : ∀ string, pass.string string = .ok () → other.string string = .ok ()) :
    ∀ (items : List Node), pass.FineItems items → other.FineItems items
  | [], _ => trivial
  | item :: items, h =>
      ⟨Fine.weaken hmark hkey hstring item h.1, FineItems.weaken hmark hkey hstring items h.2⟩

theorem FineMembers.weaken {other : Pass ε μ} (hmark : pass.markOf = other.markOf)
    (hkey : ∀ key, pass.key key = .ok () → other.key key = .ok ())
    (hstring : ∀ string, pass.string string = .ok () → other.string string = .ok ()) :
    ∀ (members : List (JsonString × Node)), pass.FineMembers members → other.FineMembers members
  | [], _ => trivial
  | (key, value) :: members, h =>
      ⟨hkey key h.1, Fine.weaken hmark hkey hstring value h.2.1,
        FineMembers.weaken hmark hkey hstring members h.2.2⟩

end

/-- Each mark becomes the text it is given; a mark without one stops the pass. -/
structure Writes (pass : Pass ε μ) (value : μ → Option String) : Prop where
  put_some : ∀ m text, value m = some text → pass.put m = .ok (literal text)
  put_none : ∀ m, value m = none → ∃ e, pass.put m = .error e

theorem Writes.put_iff {value : μ → Option String} (h : pass.Writes value) {m : μ} :
    (∃ node, pass.put m = .ok node) ↔ (value m).isSome = true := by
  cases hvalue : value m with
  | none =>
      obtain ⟨e, he⟩ := h.put_none m hvalue
      simp [he]
  | some text => simp [h.put_some m text hvalue]

theorem Writes.node_eq {value : μ → Option String} (h : pass.Writes value) {m : μ}
    (hsome : (value m).isSome = true) : pass.node m = literal ((value m).getD "") := by
  obtain ⟨text, htext⟩ := Option.isSome_iff_exists.mp hsome
  rw [node_ok (h.put_some m text htext), htext, Option.getD_some]

/-- A writing pass over a tree that its checks let through succeeds exactly when every mark has
a text, and the new tree is written as the old one with the texts in place. -/
theorem Writes.walk_iff {value : μ → Option String} (h : pass.Writes value) {tree : Node}
    (hfine : pass.Fine tree) {text : String} :
    (∃ out, pass.walk tree = .ok out ∧ writeCompact out.1 = text) ↔
      (∀ m ∈ marks pass.mark tree, (value m).isSome = true) ∧
        text = writeCompact (placed pass.mark (fun m => literal ((value m).getD "")) tree) := by
  have hwrite : (∀ m ∈ marks pass.mark tree, (value m).isSome = true) →
      writeCompact (placed pass.mark pass.node tree) =
        writeCompact (placed pass.mark (fun m => literal ((value m).getD "")) tree) := by
    intro hall
    rw [writeCompact, writeCompact, write_placed tree fun m hm => by rw [h.node_eq (hall m hm)]]
  constructor
  · rintro ⟨out, hout, rfl⟩
    obtain ⟨-, hput, rfl⟩ := (walk_eq_ok tree out).mp hout
    have hall : ∀ m ∈ marks pass.mark tree, (value m).isSome = true :=
      fun m hm => h.put_iff.mp (hput m hm)
    exact ⟨hall, hwrite hall⟩
  · rintro ⟨hall, rfl⟩
    exact ⟨_, (walk_eq_ok tree _).mpr ⟨hfine, fun m hm => h.put_iff.mpr (hall m hm), rfl⟩,
      hwrite hall⟩

/-! ## Reserved keys -/

mutual

/-- A pass that refuses reserved keys leaves none. -/
theorem unreserved_placed (text : μ → String)
    (hkey : ∀ key, pass.key key = .ok () → isReserved key.decoded = false) : ∀ (node : Node),
    pass.Fine node → Unreserved (objectsOf (placed pass.mark (fun m => spoken (text m)) node))
  | .scalar word, h => by simp [placed, objectsOf, Unreserved]
  | .string string, h => by simp [placed, objectsOf, Unreserved]
  | .array items, h => by
      rw [placed, objectsOf]
      exact unreserved_placedItems text hkey items h
  | .object members, h => by
      rw [placed]
      rcases h with ⟨m, hmark⟩ | ⟨hmark, hfine⟩
      · rw [mark_some hmark]
        simp [spoken, objectsOf, Unreserved]
      · rw [mark_none hmark]
        obtain ⟨hkeys, hinner⟩ := unreserved_placedMembers text hkey members hfine
        rw [objectsOf, Unreserved, List.forall_mem_cons]
        exact ⟨hkeys, hinner⟩

theorem unreserved_placedItems (text : μ → String)
    (hkey : ∀ key, pass.key key = .ok () → isReserved key.decoded = false) :
    ∀ (items : List Node), pass.FineItems items →
      Unreserved (objectsOfItems (placedItems pass.mark (fun m => spoken (text m)) items))
  | [], h => by simp [placedItems, objectsOfItems, Unreserved]
  | item :: items, h => by
      rw [placedItems, objectsOfItems, Unreserved, List.forall_mem_append]
      exact ⟨unreserved_placed text hkey item h.1, unreserved_placedItems text hkey items h.2⟩

theorem unreserved_placedMembers (text : μ → String)
    (hkey : ∀ key, pass.key key = .ok () → isReserved key.decoded = false) :
    ∀ (members : List (JsonString × Node)), pass.FineMembers members →
      hasReserved (placedMembers pass.mark (fun m => spoken (text m)) members) = false ∧
        Unreserved (objectsOfMembers (placedMembers pass.mark (fun m => spoken (text m)) members))
  | [], h => by simp [placedMembers, objectsOfMembers, Unreserved, hasReserved]
  | (key, value) :: members, h => by
      obtain ⟨hfirst, hvalue, hrest⟩ := h
      obtain ⟨hkeys, hinner⟩ := unreserved_placedMembers text hkey members hrest
      rw [placedMembers, objectsOfMembers]
      constructor
      · rw [hasReserved, List.any_cons, hkey key hfirst]
        exact hkeys
      · rw [Unreserved, List.forall_mem_append]
        exact ⟨unreserved_placed text hkey value hvalue, hinner⟩

end

end Pass

end TokenStation.Media
