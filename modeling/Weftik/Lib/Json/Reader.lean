import Mathlib

/-!
# A Reader of JSON

JSON as RFC 8259 has it, on lists of characters: the reader takes a text whole or not at
all. A number is kept as the decimal that its text is, an object as its members in the
order of the text, and a string as its characters, so a surrogate that has no partner is
refused.

## Main definitions

* `Json`: the values.
* `Json.readValue`: the reader of a value at the beginning of a text.
* `Json.parse`: the reader of a whole text.
-/

/-- A decimal number, `± mantissa * 10 ^ exponent`. -/
structure Decimal where
  negative : Bool
  mantissa : ℕ
  exponent : ℤ
  deriving DecidableEq

/-- The decimal of an integer. -/
def Decimal.ofInt (n : ℤ) : Decimal := ⟨decide (n < 0), n.natAbs, 0⟩

/-- A JSON value. -/
inductive Json
  | null
  | bool (b : Bool)
  | number (d : Decimal)
  | string (text : List Char)
  | array (items : List Json)
  | object (members : List (List Char × Json))

namespace Json

/-- What reads the beginning of a text, and gives what it has read and what is left. -/
abbrev Reader (α : Type) : Type := List Char → Option (α × List Char)

/-- The white space of JSON. -/
def isWhite (c : Char) : Bool := c == ' ' || c == '\t' || c == '\n' || c == '\r'

/-- The text after its white space. -/
def skipWhite (cs : List Char) : List Char := cs.dropWhile isWhite

/-- The text after a character that has to be there. -/
def expect (c : Char) : List Char → Option (List Char)
  | [] => none
  | d :: cs => if d = c then some cs else none

/-! ### Numbers -/

/-- One or more digits. -/
def readDigits : Reader (List Char) := fun cs =>
  if cs.takeWhile Char.isDigit = [] then none
  else some (cs.takeWhile Char.isDigit, cs.dropWhile Char.isDigit)

/-- The integer part of a number, which begins with a zero only when it is the zero. -/
def readInteger : Reader (List Char)
  | '0' :: cs => some (['0'], cs)
  | cs => readDigits cs

/-- The digits after the point, when there is one. -/
def readFraction : Reader (List Char)
  | '.' :: cs => readDigits cs
  | cs => some ([], cs)

/-- The sign of a number. -/
def readMinus : List Char → Bool × List Char
  | '-' :: cs => (true, cs)
  | cs => (false, cs)

/-- The sign of an exponent. -/
def readSign : List Char → Bool × List Char
  | '+' :: cs => (false, cs)
  | cs => readMinus cs

/-- The number with a sign. -/
def signed (negative : Bool) (n : ℕ) : ℤ := if negative then -n else n

/-- The number with the given decimal digits. -/
def ofDigits (digits : List Char) : ℕ := Nat.ofDigitChars 10 digits 0

/-- The exponent of a number, when it has one. -/
def readExponent : Reader ℤ
  | [] => some (0, [])
  | c :: cs =>
      if c = 'e' ∨ c = 'E' then
        (readDigits (readSign cs).2).map fun p => (signed (readSign cs).1 (ofDigits p.1), p.2)
      else some (0, c :: cs)

/-- A number. -/
def readNumber : Reader Decimal := fun cs => do
  let (integer, cs') ← readInteger (readMinus cs).2
  let (fraction, cs') ← readFraction cs'
  let (exponent, cs') ← readExponent cs'
  some (⟨(readMinus cs).1, ofDigits (integer ++ fraction), exponent - fraction.length⟩, cs')

/-! ### Strings -/

/-- The value of a hexadecimal digit, of either case. -/
def hexDigit (c : Char) : Option ℕ :=
  if c.isDigit then some (c.toNat - 48)
  else if 97 ≤ c.toNat ∧ c.toNat ≤ 102 then some (c.toNat - 87)
  else if 65 ≤ c.toNat ∧ c.toNat ≤ 70 then some (c.toNat - 55)
  else none

/-- Four hexadecimal digits. -/
def readHex : Reader ℕ
  | a :: b :: c :: d :: cs => do
      let a ← hexDigit a
      let b ← hexDigit b
      let c ← hexDigit c
      let d ← hexDigit d
      some (((a * 16 + b) * 16 + c) * 16 + d, cs)
  | _ => none

/-- The character whose code unit follows `\u`; a high surrogate takes the low one that has
to come next. -/
def readUnicode : Reader Char := fun cs => do
  let (unit, cs) ← readHex cs
  if unit < 0xD800 ∨ 0xE000 ≤ unit then some (Char.ofNat unit, cs)
  else if unit < 0xDC00 then do
    let cs ← expect '\\' cs
    let cs ← expect 'u' cs
    let (low, cs) ← readHex cs
    if 0xDC00 ≤ low ∧ low < 0xE000 then
      some (Char.ofNat (0x10000 + (unit - 0xD800) * 0x400 + (low - 0xDC00)), cs)
    else none
  else none

/-- The character that follows a backslash stands for. -/
def readEscape : Reader Char
  | [] => none
  | c :: cs =>
      if c = '"' ∨ c = '\\' ∨ c = '/' then some (c, cs)
      else if c = 'b' then some ('\x08', cs)
      else if c = 'f' then some ('\x0c', cs)
      else if c = 'n' then some ('\n', cs)
      else if c = 'r' then some ('\r', cs)
      else if c = 't' then some ('\t', cs)
      else if c = 'u' then readUnicode cs
      else none

/-- A control character, which a string may have only escaped. -/
def IsControl (c : Char) : Prop := c.toNat < 0x20

instance (c : Char) : Decidable (IsControl c) := inferInstanceAs (Decidable (c.toNat < 0x20))

/-- The characters of a string up to the quotation mark that ends it. -/
def readChars : ℕ → Reader (List Char)
  | 0, _ => none
  | _ + 1, [] => none
  | fuel + 1, c :: cs =>
      if c = '"' then some ([], cs)
      else if c = '\\' then
        match readEscape cs with
        | none => none
        | some (e, cs) => (readChars fuel cs).map fun p => (e :: p.1, p.2)
      else if IsControl c then none
      else (readChars fuel cs).map fun p => (c :: p.1, p.2)

/-- A string, from one quotation mark to the other. -/
def readString : Reader (List Char) := fun cs => do
  let cs ← expect '"' cs
  readChars (cs.length + 1) cs

/-! ### Values -/

/-- The items of an array, after its bracket. -/
def readItems (value : Reader Json) : ℕ → Reader (List Json)
  | 0, _ => none
  | fuel + 1, cs => do
      let (v, cs) ← value cs
      match skipWhite cs with
      | ',' :: cs => (readItems value fuel cs).map fun p => (v :: p.1, p.2)
      | ']' :: cs => some ([v], cs)
      | _ => none

/-- The members of an object, after its brace. -/
def readMembers (value : Reader Json) : ℕ → Reader (List (List Char × Json))
  | 0, _ => none
  | fuel + 1, cs => do
      let (key, cs) ← readString (skipWhite cs)
      let cs ← expect ':' (skipWhite cs)
      let (v, cs) ← value cs
      match skipWhite cs with
      | ',' :: cs => (readMembers value fuel cs).map fun p => ((key, v) :: p.1, p.2)
      | '\x7d' :: cs => some ([(key, v)], cs)
      | _ => none

/-- A value. -/
def readValue : ℕ → Reader Json
  | 0, _ => none
  | fuel + 1, cs =>
      match skipWhite cs with
      | [] => none
      | c :: cs =>
          if c = '\x7b' then
            match skipWhite cs with
            | '\x7d' :: cs => some (.object [], cs)
            | cs => (readMembers (readValue fuel) fuel cs).map fun p => (.object p.1, p.2)
          else if c = '[' then
            match skipWhite cs with
            | ']' :: cs => some (.array [], cs)
            | cs => (readItems (readValue fuel) fuel cs).map fun p => (.array p.1, p.2)
          else if c = '"' then (readString (c :: cs)).map fun p => (.string p.1, p.2)
          else if c = 't' then ("rue".toList.isPrefixOf? cs).map fun cs => (.bool true, cs)
          else if c = 'f' then ("alse".toList.isPrefixOf? cs).map fun cs => (.bool false, cs)
          else if c = 'n' then ("ull".toList.isPrefixOf? cs).map fun cs => (.null, cs)
          else (readNumber (c :: cs)).map fun p => (.number p.1, p.2)

/-- The value that a text is. Every step of the reader takes a character, so there is fuel
for the whole text. -/
def parse (cs : List Char) : Option Json := do
  let (v, rest) ← readValue (cs.length + 1) cs
  if skipWhite rest = [] then some v else none

end Json
