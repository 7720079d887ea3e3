import TokenStation.Media.Json

/-!
# The grammar of JSON texts

The values, strings and numbers of RFC 8259 as relations between a text and what it
means, with a bound on the nesting. No relation mentions the parser.
-/

namespace TokenStation.Media.Json

open Library.Json (skip isSpace hexValue unescape escape shortEscapes)

/-! ## Strings -/

/-- The letters of two-character escapes and what they stand for. -/
def escapeLetters : List (Char × Char) :=
  [('"', '"'), ('\\', '\\'), ('/', '/'), ('b', '\x08'), ('f', '\x0c'), ('n', '\n'), ('r', '\r'),
    ('t', '\t')]

/-- Four hexadecimal digits. -/
inductive Hex4 : List Char → Nat → Prop
  | mk {a b c d : Char} {w x y z : Nat} (ha : hexValue a = some w) (hb : hexValue b = some x)
      (hc : hexValue c = some y) (hd : hexValue d = some z) :
      Hex4 [a, b, c, d] ((w * 16 + x) * 256 + y * 16 + z)

/-- One character of a string; a surrogate is spelled as one of a pair only. -/
inductive CharText : List Char → Char → Prop
  | plain {c : Char} (hquote : c ≠ '"') (hslash : c ≠ '\\') (hcontrol : ¬c < ' ') : CharText [c] c
  | letter {e c : Char} (h : (e, c) ∈ escapeLetters) : CharText ['\\', e] c
  | unicode {digits : List Char} {n : Nat} (h : Hex4 digits n) (hhigh : isHighSurrogate n = false)
      (hlow : isLowSurrogate n = false) : CharText ('\\' :: 'u' :: digits) (Char.ofNat n)
  | pair {digits more : List Char} {first second : Nat} (h : Hex4 digits first)
      (hhigh : isHighSurrogate first = true) (hmore : Hex4 more second)
      (hlow : isLowSurrogate second = true) :
      CharText ('\\' :: 'u' :: (digits ++ '\\' :: 'u' :: more))
        (Char.ofNat (0x10000 + (first - 0xD800) * 2 ^ 10 + (second - 0xDC00)))

/-- What stands between the quotes, and what it means. -/
inductive StringText : List Char → List Char → Prop
  | nil : StringText [] []
  | cons {raw rest : List Char} {c : Char} {decoded : List Char} (hc : CharText raw c)
      (hrest : StringText rest decoded) : StringText (raw ++ rest) (c :: decoded)

def JsonString.Spelled (s : JsonString) : Prop := StringText s.raw.toList s.decoded.toList

/-! ## Numbers -/

structure Digits (text : List Char) : Prop where
  nonempty : text ≠ []
  digits : ∀ c ∈ text, c.isDigit = true

/-- Digits without a leading zero. -/
def IntText (text : List Char) : Prop := text = ['0'] ∨ Digits text ∧ text.head? ≠ some '0'

def FractionText (text : List Char) : Prop :=
  text = [] ∨ ∃ digits, Digits digits ∧ text = '.' :: digits

def ExponentText (text : List Char) : Prop :=
  text = [] ∨ ∃ e sign digits, (e = 'e' ∨ e = 'E') ∧ (sign = [] ∨ sign = ['+'] ∨ sign = ['-']) ∧
    Digits digits ∧ text = e :: (sign ++ digits)

/-- A number, in its parts. -/
inductive NumberText : List Char → Prop
  | mk {sign int fraction exponent : List Char} (hsign : sign = [] ∨ sign = ['-'])
      (hint : IntText int) (hfraction : FractionText fraction)
      (hexponent : ExponentText exponent) :
      NumberText (sign ++ (int ++ (fraction ++ exponent)))

/-! ## Values -/

/-- Insignificant whitespace. -/
def Ws (text : List Char) : Prop := ∀ c ∈ text, isSpace c = true

def literals : List String := ["true", "false", "null"]

mutual

/-- A value nested at most so deep, and its tree. -/
inductive ValueText : Nat → List Char → Node → Prop
  | literal {depth : Nat} {word : String} (h : word ∈ literals) :
      ValueText depth word.toList (.scalar word)
  | number {depth : Nat} {text : List Char} (h : NumberText text) :
      ValueText depth text (.scalar (String.ofList text))
  | string {depth : Nat} {s : JsonString} (h : s.Spelled) : ValueText depth s.quoted (.string s)
  | emptyArray {depth : Nat} {ws : List Char} (hws : Ws ws) :
      ValueText (depth + 1) ('[' :: (ws ++ [']'])) (.array [])
  | array {depth : Nat} {ws text rest : List Char} {node : Node} {items : List Node} (hws : Ws ws)
      (h : ValueText depth text node) (hrest : ItemsText depth rest items) :
      ValueText (depth + 1) ('[' :: (ws ++ (text ++ rest))) (.array (node :: items))
  | emptyObject {depth : Nat} {ws : List Char} (hws : Ws ws) :
      ValueText (depth + 1) ('\x7b' :: (ws ++ ['\x7d'])) (.object [])
  | object {depth : Nat} {ws before after text rest : List Char} {key : JsonString} {node : Node}
      {members : List (JsonString × Node)} (hws : Ws ws) (hkey : key.Spelled)
      (hbefore : Ws before) (hafter : Ws after) (h : ValueText depth text node)
      (hrest : MembersText depth rest members) :
      ValueText (depth + 1) ('\x7b' :: (ws ++ (key.quoted ++ (before ++ ':' :: (after ++
        (text ++ rest)))))) (.object ((key, node) :: members))

/-- The items after the first one, with the closing bracket. -/
inductive ItemsText : Nat → List Char → List Node → Prop
  | nil {depth : Nat} {ws : List Char} (hws : Ws ws) : ItemsText depth (ws ++ [']']) []
  | cons {depth : Nat} {before after text rest : List Char} {node : Node} {items : List Node}
      (hbefore : Ws before) (hafter : Ws after) (h : ValueText depth text node)
      (hrest : ItemsText depth rest items) :
      ItemsText depth (before ++ ',' :: (after ++ (text ++ rest))) (node :: items)

/-- The members after the first one, with the closing brace. -/
inductive MembersText : Nat → List Char → List (JsonString × Node) → Prop
  | nil {depth : Nat} {ws : List Char} (hws : Ws ws) : MembersText depth (ws ++ ['\x7d']) []
  | cons {depth : Nat} {ws lead before after text rest : List Char} {key : JsonString}
      {node : Node} {members : List (JsonString × Node)} (hlead : Ws lead) (hws : Ws ws)
      (hkey : key.Spelled) (hbefore : Ws before) (hafter : Ws after)
      (h : ValueText depth text node) (hrest : MembersText depth rest members) :
      MembersText depth (lead ++ ',' :: (ws ++ (key.quoted ++ (before ++ ':' :: (after ++
        (text ++ rest)))))) ((key, node) :: members)

end

/-- One value with whitespace around it. -/
inductive DocumentText (depth : Nat) : List Char → Node → Prop
  | mk {before text after : List Char} {node : Node} (hbefore : Ws before)
      (h : ValueText depth text node) (hafter : Ws after) :
      DocumentText depth (before ++ (text ++ after)) node

end TokenStation.Media.Json
