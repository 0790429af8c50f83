import SecureFileSystem.Base

/-!
`uuid.UUID(str)` and `str(uuid)` of the standard library, with the lenient
`int(_, 16)` that `UUID` parses its digits with.
-/

namespace SecureFileSystem.Uuid

open Base

def hexDigit (value : Nat) : Char :=
  if value < 10 then Char.ofNat (48 + value) else Char.ofNat (87 + value)

/-- `'%0{width}x' % value` for values of at most `width` digits -/
def hexText : Nat → Nat → Text
  | 0, _ => []
  | width + 1, value => hexText width (value / 16) ++ [hexDigit (value % 16)]

def uuidText (id : Uuid) : Text :=
  let hex := hexText 32 id.toNat
  hex.take 8 ++ '-' :: (hex.drop 8).take 4 ++ '-' :: (hex.drop 12).take 4 ++
    '-' :: (hex.drop 16).take 4 ++ '-' :: hex.drop 20

/-- `text.replace(word, "")`, with `skip` characters of a match still to drop -/
def removeFrom (word : Text) : Nat → Text → Text
  | _, [] => []
  | skip + 1, _ :: rest => removeFrom word skip rest
  | 0, first :: rest =>
      if word.isPrefixOf (first :: rest) then removeFrom word (word.length - 1) rest
      else first :: removeFrom word 0 rest

def remove (word text : Text) : Text := removeFrom word 0 text

def strip (drop : Char → Bool) (text : Text) : Text :=
  ((text.dropWhile drop).reverse.dropWhile drop).reverse

/-- `isspace` of the C locale -/
def asciiSpace (character : Char) : Bool := character ∈ [' ', '\t', '\n', '\x0b', '\x0c', '\r']

/-- Text with any non-ASCII character has its spaces and decimal digits mapped
to ASCII ones before `int` reads it; any other such character is an error. -/
def toAscii (unicode : Unicode) (text : Text) : Text :=
  if text.all (·.toNat < 128) then text
  else text.map fun character =>
    if character.toNat < 127 then character
    else if unicode.isSpace character then ' '
    else match unicode.decimal character with
      | some digit => Char.ofNat (48 + digit)
      | none => '?'

def hexValue (character : Char) : Option Nat :=
  if '0' ≤ character ∧ character ≤ '9' then some (character.toNat - 48)
  else if 'a' ≤ character ∧ character ≤ 'f' then some (character.toNat - 87)
  else if 'A' ≤ character ∧ character ≤ 'F' then some (character.toNat - 55)
  else none

/-- Digits with single underscores between them, up to the first other
character: the value, whether a digit came last, and what is left. -/
def scanHex : Nat → Bool → Text → Option (Nat × Bool × Text)
  | value, digitLast, [] => some (value, digitLast, [])
  | value, digitLast, first :: rest =>
      if first = '_' then if digitLast then scanHex value false rest else none
      else match hexValue first with
        | some digit => scanHex (value * 16 + digit) true rest
        | none => some (value, digitLast, first :: rest)

def signOf : Text → Bool × Text
  | '-' :: rest => (true, rest)
  | '+' :: rest => (false, rest)
  | text => (false, text)

def unprefixed : Text → Text
  | '0' :: 'x' :: '_' :: rest | '0' :: 'X' :: '_' :: rest => rest
  | '0' :: 'x' :: rest | '0' :: 'X' :: rest => rest
  | text => text

/-- `int(text, 16)`; `none` is the `ValueError`. -/
def intBase16 (unicode : Unicode) (text : Text) : Option Int :=
  let (negative, text) := signOf ((toAscii unicode text).dropWhile asciiSpace)
  match scanHex 0 false (unprefixed text) with
  | some (value, true, rest) =>
      if rest.dropWhile asciiSpace = [] then some (if negative then -(value : Int) else value)
      else none
  | _ => none

/-- `uuid.UUID(text)`; `none` is the `ValueError`. -/
def uuidOf (unicode : Unicode) (text : Text) : Option Uuid :=
  let hex := remove "uuid:".toList (remove "urn:".toList text)
  let hex := remove "-".toList (strip (· ∈ ['{', '}']) hex)
  if hex.length ≠ 32 then none
  else (intBase16 unicode hex).bind fun value =>
    if 0 ≤ value ∧ value < 2 ^ 128 then some (BitVec.ofNat 128 value.toNat) else none

end SecureFileSystem.Uuid
