/-!
Numerals in the forms that assembly text, listings and messages use: decimal without leading zeros,
decimal with a minus sign, and hexadecimal padded with zeros to a least width. The decimal form has
a reader that accepts exactly the numerals without leading zeros, the hexadecimal forms have one
that accepts any number of them.
-/

set_option autoImplicit false

namespace Mov8086.Numeral

/-- The decimal text of `n`, without leading zeros. -/
def decimal (n : Nat) : String :=
  String.ofList (Nat.toDigits 10 n)

/-- The decimal text of `z`, with a minus sign in front when `z` is negative. -/
def signedDecimal (z : Int) : String :=
  if z < 0 then "-" ++ decimal z.natAbs else decimal z.natAbs

/-- The lower-case hexadecimal digits of `n`, led by zeros up to `width` digits. -/
def hexDigits (width n : Nat) : List Char :=
  (Nat.toDigits 16 n).leftpad width '0'

def hex (width n : Nat) : String :=
  String.ofList (hexDigits width n)

def upperHexDigits (width n : Nat) : List Char :=
  (hexDigits width n).map Char.toUpper

def upperHex (width n : Nat) : String :=
  String.ofList (upperHexDigits width n)

/-- A row of decimal digits without a leading zero, and the number that it stands for. -/
structure IsDecimal (digits : List Char) (n : Nat) : Prop where
  nonempty : digits ≠ []
  isDigit : ∀ c ∈ digits, c.isDigit = true
  unpadded : digits.head? = some '0' → digits = ['0']
  value : Nat.ofDigitChars 10 digits 0 = n

def digit? (c : Char) : Option Nat :=
  if '0' ≤ c ∧ c ≤ '9' then some (c.toNat - '0'.toNat) else none

/-- The value of the digits read so far, `value`, followed by the digits given. -/
def appendDigits? (value : Nat) : List Char → Option Nat
  | [] => some value
  | c :: cs => (digit? c).bind fun d => appendDigits? (10 * value + d) cs

/-- Reads a decimal numeral without leading zeros. -/
def decimal? : List Char → Option Nat
  | [] => none
  | c :: cs => if c = '0' ∧ cs ≠ [] then none else appendDigits? 0 (c :: cs)

/-- The value of a hexadecimal digit, where `ten` is the digit for ten. -/
def hexDigit? (ten c : Char) : Option Nat :=
  if '0' ≤ c ∧ c ≤ '9' then some (c.toNat - '0'.toNat)
  else if ten.toNat ≤ c.toNat ∧ c.toNat < ten.toNat + 6 then some (c.toNat - ten.toNat + 10)
  else none

/-- Reads hexadecimal digits, where `ten` is the digit for ten. -/
def hexNumber? (ten : Char) (digits : List Char) : Option Nat :=
  digits.foldlM (fun value c => (hexDigit? ten c).map (16 * value + ·)) 0

/-- Reads hexadecimal digits in lower case. -/
def hex? : List Char → Option Nat :=
  hexNumber? 'a'

/-- Reads hexadecimal digits in upper case. -/
def upperHex? : List Char → Option Nat :=
  hexNumber? 'A'

/-- A row of at least `width` hexadecimal digits, without a leading zero if there are more, and the
number that it stands for. -/
structure IsHex (ten : Char) (width : Nat) (digits : List Char) (n : Nat) : Prop where
  least : width ≤ digits.length
  unpadded : width < digits.length → digits.head? ≠ some '0'
  value : hexNumber? ten digits = some n

end Mov8086.Numeral
