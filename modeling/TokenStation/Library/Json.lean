import Mathlib
import TokenStation.Library.SortedMap

/-!
# JSON values

Values as a JSON library holds them: objects are maps in key order, numbers
are unsigned, negative or floating. Reading a field of something that is not
an object, or of an object without that field, gives `null`.
-/

namespace TokenStation.Library.Json

/-- A number: an unsigned 64-bit integer, a negative 64-bit integer, or a
double, kept as its bits. -/
inductive Number where
  | posInt (n : Nat)
  | negInt (n : Int)
  | float (bits : UInt64)
deriving DecidableEq, Repr

/-- A JSON value. -/
inductive Value where
  | null
  | bool (b : Bool)
  | number (n : Number)
  | string (s : String)
  | array (items : List Value)
  | object (entries : List (String × Value))
deriving Repr, Inhabited

namespace Value

def nat (n : Nat) : Value := .number (.posInt n)

/-- A signed integer. -/
def int (n : Int) : Value := .number (if 0 ≤ n then .posInt n.toNat else .negInt n)

/-- An object written out with distinct keys. -/
def obj (entries : List (String × Value)) : Value :=
  .object (entries.foldr (fun e m => insertEntry e.1 e.2 m) [])

def isNull : Value → Bool
  | .null => true
  | _ => false

def isObject : Value → Bool
  | .object _ => true
  | _ => false

def isArray : Value → Bool
  | .array _ => true
  | _ => false

def isString : Value → Bool
  | .string _ => true
  | _ => false

def asStr : Value → Option String
  | .string s => some s
  | _ => none

def asBool : Value → Option Bool
  | .bool b => some b
  | _ => none

def asU64 : Value → Option Nat
  | .number (.posInt n) => some n
  | _ => none

def asNumber : Value → Option Number
  | .number n => some n
  | _ => none

def asArray : Value → Option (List Value)
  | .array items => some items
  | _ => none

def asObject : Value → Option (List (String × Value))
  | .object entries => some entries
  | _ => none

/-- The field of an object. -/
def get (v : Value) (key : String) : Option Value :=
  match v with
  | .object entries => lookup key entries
  | _ => none

/-- The field of an object, `null` when there is none. -/
def field (v : Value) (key : String) : Value := (v.get key).getD .null

/-- Store a field of an object; `null` counts as an empty object. -/
def set (v : Value) (key : String) (value : Value) : Value :=
  match v with
  | .object entries => .object (insertEntry key value entries)
  | .null => .object [(key, value)]
  | v => v

@[simp] theorem asStr_string (s : String) : (Value.string s).asStr = some s := rfl

@[simp] theorem asStr_null : Value.null.asStr = none := rfl

@[simp] theorem asU64_nat (n : Nat) : (nat n).asU64 = some n := rfl

@[simp] theorem asU64_null : Value.null.asU64 = none := rfl

@[simp] theorem asArray_array (items : List Value) : (Value.array items).asArray = some items := rfl

@[simp] theorem asArray_null : Value.null.asArray = none := rfl

@[simp] theorem isObject_obj (entries : List (String × Value)) :
    (obj entries).isObject = true := by
  rw [obj, isObject]

@[simp] theorem get_obj (entries : List (String × Value)) (key : String) :
    (obj entries).get key = lookup key entries := by
  unfold obj get
  simp only
  induction entries with
  | nil => rfl
  | cons e entries ih => rw [List.foldr_cons, lookup_insertEntry, lookup, ih]

@[simp] theorem get_set {v : Value} (h : v.isObject = true) (key k : String) (value : Value) :
    (v.set key value).get k = if key = k then some value else v.get k := by
  cases v with
  | object entries => exact lookup_insertEntry key k value entries
  | null | bool | number | string | array => cases h

@[simp] theorem isObject_set {v : Value} (h : v.isObject = true) (key : String) (value : Value) :
    (v.set key value).isObject = true := by
  cases v with
  | object entries => rfl
  | null | bool | number | string | array => cases h

theorem asStr_eq_some {v : Value} {s : String} : v.asStr = some s ↔ v = .string s := by
  cases v <;> simp [asStr]

theorem asArray_eq_some {v : Value} {items : List Value} :
    v.asArray = some items ↔ v = .array items := by
  cases v <;> simp [asArray]

end Value

end TokenStation.Library.Json
