import SpriteMachine.Json
import SpriteMachine.Decimal.Reader

/-!
Reading JSON text: first into tokens, then by a stack of the containers that are still open. Reading
refuses containers nested too deep, numbers beyond the range of doubles and unpaired surrogates.
-/

namespace SpriteMachine.Json

inductive Token where
  | beginArray | endArray | beginObject | endObject | colon | comma
  | value (v : Json)
  /-- A number or a string that has the right form and no value. Another one of its kind is given. -/
  | flawed (like : Json)

def hexValue? (c : Char) : Option Nat :=
  if '0' ≤ c ∧ c ≤ '9' then some (c.toNat - 0x30)
  else if 'a' ≤ c ∧ c ≤ 'f' then some (c.toNat - 0x57)
  else if 'A' ≤ c ∧ c ≤ 'F' then some (c.toNat - 0x37)
  else none

def hex4? (a b c d : Char) : Option Nat := do
  return (((← hexValue? a) * 16 + (← hexValue? b)) * 16 + (← hexValue? c)) * 16 + (← hexValue? d)

def isHighSurrogate (n : Nat) : Bool := 0xD800 ≤ n && n < 0xDC00

def isLowSurrogate (n : Nat) : Bool := 0xDC00 ≤ n && n < 0xE000

def simpleEscape? : Char → Option Char
  | '"' => some '"'
  | '\\' => some '\\'
  | '/' => some '/'
  | 'b' => some '\x08'
  | 'f' => some '\x0c'
  | 'n' => some '\n'
  | 'r' => some '\r'
  | 't' => some '\t'
  | _ => none

/-- The rest of a string after its opening quote, and what follows the closing one. -/
def stringBody : List Char → List Char → Option (String × List Char)
  | acc, '"' :: rest => some (String.ofList acc.reverse,rest)
  | acc, '\\' :: 'u' :: a :: b :: c :: d :: rest =>
    match hex4? a b c d with
    | none => none
    | some n =>
      if isLowSurrogate n then none
      else if isHighSurrogate n then
        match rest with
        | '\\' :: 'u' :: e :: f :: g :: h :: rest' =>
          match hex4? e f g h with
          | some m =>
            if isLowSurrogate m then
              stringBody (Char.ofNat (0x10000 + (n - 0xD800) * 0x400 + (m - 0xDC00)) :: acc) rest'
            else none
          | none => none
        | _ => none
      else stringBody (Char.ofNat n :: acc) rest
  | acc, '\\' :: c :: rest =>
    match simpleEscape? c with
    | some e => stringBody (e :: acc) rest
    | none => none
  | acc, c :: rest => if c.toNat < 0x20 then none else stringBody (c :: acc) rest
  | _, [] => none

/-- What follows a string, after its opening quote, in which any surrogates may stand. -/
def afterString : List Char → Option (List Char)
  | '"' :: rest => some rest
  | '\\' :: 'u' :: a :: b :: c :: d :: rest => if (hex4? a b c d).isSome then afterString rest else none
  | '\\' :: c :: rest => if (simpleEscape? c).isSome then afterString rest else none
  | c :: rest => if c.toNat < 0x20 then none else afterString rest
  | [] => none

def stringToken (cs : List Char) : Option (Token × List Char) :=
  match stringBody [] cs with
  | some (s,rest) => some (.value (.string s),rest)
  | none => (afterString cs).map (.flawed (.string ""),·)

def numberToken (cs : List Char) : Option (Token × List Char) := do
  let (neg,cs) := match cs with
    | '-' :: rest => (true,rest)
    | cs => (false,cs)
  let whole := cs.takeWhile Char.isDigit
  if whole.isEmpty || (whole.length > 1 && whole.head? == some '0') then none
  let afterWhole := cs.dropWhile Char.isDigit
  let (places,rest) := Decimal.placesPart afterWhole
  if afterWhole.head? == some '.' && places.isEmpty then none
  let (exponent,rest) ← Decimal.exponentPart rest
  let n := Decimal.digitsValue whole
  if places.isEmpty && exponent.isNone && (if neg then 0 < n && n ≤ Nat.pow 2 63 else n < Nat.pow 2 64) then
    return (.value (.number (.integer (if neg then -(n : Int) else n))),rest)
  let x := Decimal.toFloat ⟨Decimal.digitsValue (whole ++ places),exponent.getD 0 - places.length⟩
  if x.isInf then return (.flawed (.number (.fraction 0.0)),rest)
  return (.value (.number (.fraction (if neg then -x else x))),rest)

/-- The tokens of a text, each of which takes at least one character. -/
def tokens : Nat → List Token → List Char → Option (List Token)
  | _, acc, [] => some acc.reverse
  | 0, _, _ => none
  | fuel + 1, acc, c :: rest =>
    match c with
    | ' ' | '\n' | '\t' | '\r' => tokens fuel acc rest
    | '[' => tokens fuel (.beginArray :: acc) rest
    | ']' => tokens fuel (.endArray :: acc) rest
    | '\x7b' => tokens fuel (.beginObject :: acc) rest
    | '\x7d' => tokens fuel (.endObject :: acc) rest
    | ':' => tokens fuel (.colon :: acc) rest
    | ',' => tokens fuel (.comma :: acc) rest
    | '"' =>
      match stringToken rest with
      | some (t,rest) => tokens fuel (t :: acc) rest
      | none => none
    | 't' =>
      match rest with
      | 'r' :: 'u' :: 'e' :: rest => tokens fuel (.value (.bool true) :: acc) rest
      | _ => none
    | 'f' =>
      match rest with
      | 'a' :: 'l' :: 's' :: 'e' :: rest => tokens fuel (.value (.bool false) :: acc) rest
      | _ => none
    | 'n' =>
      match rest with
      | 'u' :: 'l' :: 'l' :: rest => tokens fuel (.value .null :: acc) rest
      | _ => none
    | c =>
      match numberToken (c :: rest) with
      | some (t,rest) => tokens fuel (t :: acc) rest
      | none => none

def tokensOf (text : String) : Option (List Token) :=
  tokens text.toList.length [] text.toList

/-- A container that is still open, its contents last first. -/
inductive Pending where
  | array (items : List Json)
  | object (entries : List (String × Json)) (key : String)

inductive Expected where
  | value | valueOrEnd | keyOrEnd | key | colon | commaOrEnd | nothing (result : Json)

structure ReaderState where
  pending : List Pending
  expected : Expected

def deliver (v : Json) : List Pending → ReaderState
  | [] => ⟨[],.nothing v⟩
  | .array items :: rest => ⟨.array (v :: items) :: rest,.commaOrEnd⟩
  | .object entries key :: rest => ⟨.object ((key,v) :: entries) key :: rest,.commaOrEnd⟩

def close (array : Bool) : List Pending → Option ReaderState
  | .array items :: rest => if array then some (deliver (.array items.reverse) rest) else none
  | .object entries _ :: rest => if array then none else some (deliver (.object entries.reverse) rest)
  | [] => none

def readToken (limit : Nat) (s : ReaderState) (t : Token) : Option ReaderState :=
  match s.expected, t with
  | .value, .value v | .valueOrEnd, .value v => some (deliver v s.pending)
  | .value, .beginArray | .valueOrEnd, .beginArray =>
    if s.pending.length + 1 < limit then some ⟨.array [] :: s.pending,.valueOrEnd⟩ else none
  | .value, .beginObject | .valueOrEnd, .beginObject =>
    if s.pending.length + 1 < limit then some ⟨.object [] "" :: s.pending,.keyOrEnd⟩ else none
  | .valueOrEnd, .endArray | .commaOrEnd, .endArray => close true s.pending
  | .keyOrEnd, .endObject | .commaOrEnd, .endObject => close false s.pending
  | .keyOrEnd, .value (.string key) | .key, .value (.string key) =>
    match s.pending with
    | .object entries _ :: rest => some ⟨.object entries key :: rest,.colon⟩
    | _ => none
  | .colon, .colon => some ⟨s.pending,.value⟩
  | .commaOrEnd, .comma =>
    match s.pending with
    | .array _ :: _ => some ⟨s.pending,.value⟩
    | .object _ _ :: _ => some ⟨s.pending,.key⟩
    | [] => none
  | _, _ => none

def ofTokens (limit : Nat) (ts : List Token) : Option Json := do
  match (← ts.foldlM (readToken limit) ⟨[],.value⟩).expected with
  | .nothing v => return v
  | _ => none

def parseWithin (limit : Nat) (text : String) : Option Json :=
  (tokensOf text).bind (ofTokens limit)

def nestingLimit : Nat := 128

def parse (text : String) : Option Json :=
  parseWithin nestingLimit text

end SpriteMachine.Json
