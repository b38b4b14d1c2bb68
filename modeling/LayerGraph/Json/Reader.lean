import LayerGraph.Json

/-! Reading JSON text. -/

namespace LayerGraph.Json

/-- Takes a value off the front of a text and leaves the rest, or refuses. -/
abbrev Reader (α : Type) := List Char → Option (α × List Char)

def skipBlank (text : List Char) : List Char :=
  text.dropWhile fun c => c == ' ' || c == '\t' || c == '\n' || c == '\r'

def hexDigit? (c : Char) : Option Nat :=
  if '0' ≤ c ∧ c ≤ '9' then some (c.toNat - '0'.toNat)
  else if 'a' ≤ c ∧ c ≤ 'f' then some (c.toNat - 'a'.toNat + 10)
  else if 'A' ≤ c ∧ c ≤ 'F' then some (c.toNat - 'A'.toNat + 10)
  else none

/-- The four digits of a unicode escape. -/
def readUnit : Reader Nat
  | a :: b :: c :: d :: rest => do
    let a ← hexDigit? a
    let b ← hexDigit? b
    let c ← hexDigit? c
    let d ← hexDigit? d
    return (((a * 16 + b) * 16 + c) * 16 + d, rest)
  | _ => none

/-- Two escapes that stand for one character outside the basic plane. -/
def joinSurrogates (high low : Nat) : Option Char :=
  if 0xdc00 ≤ low ∧ low < 0xe000 then
    some (Char.ofNat (0x10000 + (high - 0xd800) * 0x400 + (low - 0xdc00)))
  else none

def unescape? : Char → Option Char
  | '\"' => some '\"'
  | '\\' => some '\\'
  | '/' => some '/'
  | 'b' => some '\x08'
  | 'f' => some '\x0c'
  | 'n' => some '\n'
  | 'r' => some '\r'
  | 't' => some '\t'
  | _ => none

/-- One character of a string, its escape resolved. -/
def readChar : Reader Char
  | '\\' :: 'u' :: rest => do
    let (unit, rest) ← readUnit rest
    if 0xd800 ≤ unit ∧ unit < 0xdc00 then
      match rest with
      | '\\' :: 'u' :: rest => do
        let (low, rest) ← readUnit rest
        let c ← joinSurrogates unit low
        return (c, rest)
      | _ => none
    else if 0xdc00 ≤ unit ∧ unit < 0xe000 then none
    else some (Char.ofNat unit, rest)
  | '\\' :: c :: rest => (unescape? c).map (·, rest)
  | c :: rest => if c.toNat < 0x20 then none else some (c, rest)
  | [] => none

/-- The rest of a string after its opening quote; at most so many characters. -/
def readString : Nat → Reader (List Char)
  | 0, _ => none
  | limit + 1, text =>
    match text with
    | '\"' :: rest => some ([], rest)
    | text => do
      let (c, rest) ← readChar text
      let (cs, rest) ← readString limit rest
      return (c :: cs, rest)

def naturalOf (digits : List Char) : Nat :=
  digits.foldl (fun n c => n * 10 + (c.toNat - '0'.toNat)) 0

/-- A point with digits after it, or nothing. -/
def readFraction : Reader (List Char)
  | '.' :: rest =>
    match rest.span Char.isDigit with
    | ([], _) => none
    | (digits, rest) => some ('.' :: digits, rest)
  | text => some ([], text)

/-- An exponent mark, a sign and digits, or nothing. -/
def readExponent : Reader (List Char)
  | c :: rest =>
    if c == 'e' || c == 'E' then
      let (sign, rest) := rest.span fun c => c == '+' || c == '-'
      match rest.span Char.isDigit with
      | ([], _) => none
      | (digits, rest) => if sign.length ≤ 1 then some (c :: sign ++ digits, rest) else none
    else some ([], c :: rest)
  | [] => some ([], [])

/-- A number. Without fraction and exponent it is an integer, except for a negative zero. -/
def readNumber : Reader Json := fun text => do
  let (sign, unsigned) := text.span (· == '-')
  let (digits, rest) := unsigned.span Char.isDigit
  if 1 < sign.length ∨ digits.isEmpty ∨ (digits.head? = some '0' ∧ 1 < digits.length) then none
  else
    let (fraction, rest) ← readFraction rest
    let (exponent, rest) ← readExponent rest
    let negative := !sign.isEmpty
    if fraction.isEmpty && exponent.isEmpty && !(negative && naturalOf digits == 0) then
      let n : Int := naturalOf digits
      return (.int (if negative then -n else n), rest)
    else return (.real (String.ofList (sign ++ digits ++ fraction ++ exponent)), rest)

/-- Items between commas up to the closing character; at most so many. -/
def readUntil {α : Type} (closing : Char) (item : Reader α) : Nat → Reader (List α)
  | 0, _ => none
  | limit + 1, text => do
    let (first, rest) ← item text
    match skipBlank rest with
    | c :: rest =>
      if c = ',' then do
        let (others, rest) ← readUntil closing item limit rest
        return (first :: others, rest)
      else if c = closing then some ([first], rest)
      else none
    | [] => none

/-- A possibly empty list of items after its opening character. -/
def readList {α : Type} (closing : Char) (item : Reader α) (limit : Nat) : Reader (List α) :=
  fun text =>
    match skipBlank text with
    | c :: rest => if c = closing then some ([], rest) else readUntil closing item limit (c :: rest)
    | [] => none

def readMember (limit : Nat) (value : Reader Json) : Reader (String × Json) := fun text =>
  match skipBlank text with
  | '\"' :: rest => do
    let (name, rest) ← readString limit rest
    match skipBlank rest with
    | ':' :: rest => do
      let (value, rest) ← value rest
      return ((String.ofList name, value), rest)
    | _ => none
  | _ => none

/-- A value; the limit bounds its depth and the length of each of its parts. -/
def readValue : Nat → Reader Json
  | 0, _ => none
  | limit + 1, text =>
    match skipBlank text with
    | 'n' :: 'u' :: 'l' :: 'l' :: rest => some (.null, rest)
    | 't' :: 'r' :: 'u' :: 'e' :: rest => some (.bool true, rest)
    | 'f' :: 'a' :: 'l' :: 's' :: 'e' :: rest => some (.bool false, rest)
    | '\"' :: rest => do
      let (text, rest) ← readString (limit + 1) rest
      return (.str (String.ofList text), rest)
    | '[' :: rest => do
      let (items, rest) ← readList ']' (readValue limit) limit rest
      return (.arr items, rest)
    | '\x7b' :: rest => do
      let (members, rest) ← readList '\x7d' (readMember limit (readValue limit)) limit rest
      return (.obj members, rest)
    | text => readNumber text

/-- The value that the text writes, if it writes exactly one. Every part is shorter than the
text, so the text's length is limit enough. -/
def parse? (text : String) : Option Json := do
  let chars := text.toList
  let (value, rest) ← readValue (chars.length + 1) chars
  if (skipBlank rest).isEmpty then some value else none

end LayerGraph.Json
