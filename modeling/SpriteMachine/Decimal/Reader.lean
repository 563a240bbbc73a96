import SpriteMachine.Decimal

/-!
Reading decimal notation: digits with or without a point, then perhaps a signed exponent.
-/

namespace SpriteMachine.Decimal

def digitsValue (ds : List Char) : Nat :=
  ds.foldl (fun n c => n * 10 + (c.toNat - 0x30)) 0

/-- The exponent at the start of a text, if there is one, and what follows it. A mark without digits
is no exponent. -/
def exponentPart : List Char → Option (Option Int × List Char)
  | c :: rest =>
    if c == 'e' || c == 'E' then
      let (neg,ds) := match rest with
        | '-' :: ds => (true,ds)
        | '+' :: ds => (false,ds)
        | ds => (false,ds)
      match ds.takeWhile Char.isDigit with
      | [] => none
      | es =>
        let n : Int := digitsValue es
        some (some (if neg then -n else n),ds.dropWhile Char.isDigit)
    else some (none,c :: rest)
  | [] => some (none,[])

/-- The digits after a point at the start of a text, and what follows them. -/
def placesPart : List Char → List Char × List Char
  | '.' :: rest => (rest.takeWhile Char.isDigit,rest.dropWhile Char.isDigit)
  | cs => ([],cs)

/-- The decimal that a whole text spells: at least one digit before or after the point. -/
def ofChars? (cs : List Char) : Option Decimal :=
  let whole := cs.takeWhile Char.isDigit
  let (places,rest) := placesPart (cs.dropWhile Char.isDigit)
  if whole.isEmpty && places.isEmpty then none
  else
    match exponentPart rest with
    | some (exponent,[]) => some ⟨digitsValue (whole ++ places),exponent.getD 0 - places.length⟩
    | _ => none

end SpriteMachine.Decimal
