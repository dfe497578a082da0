import MirrorAdapter.Json.Basic
import MirrorAdapter.Text.Numeral

/-!
# Reading JSON

Texts of the JSON grammar become values; any other text has none. A number
keeps its digits: it is an integer iff it is written without fraction and
exponent. In strings, two escaped surrogates in a row are one character, and
one that stands alone is replaced.
-/
namespace MirrorAdapter
namespace JsonValue

def isBlank (b : Byte) : Bool :=
  b == ' ' || b == '\t' || b == '\n' || b == '\r'

def skipBlanks (s : Text) : Text := s.dropWhile isBlank

/-! ## Strings -/

/-- A part of a string: a byte of its text, or an escaped UTF-16 unit. -/
inductive StringPiece where
  | byte (b : Byte)
  | unit (code : Nat)
deriving Repr, DecidableEq, Inhabited

def hexValue? (b : Byte) : Option Nat :=
  if b.isDigit then some (b.toNat - 48)
  else if 97 ≤ b ∧ b ≤ 102 then some (b.toNat - 87)
  else if 65 ≤ b ∧ b ≤ 70 then some (b.toNat - 55)
  else none

/-- The number that four hexadecimal digits stand for. -/
def unitOf? (w x y z : Byte) : Option Nat := do
  return 4096 * (← hexValue? w) + 256 * (← hexValue? x) + 16 *
      (← hexValue? y) + (← hexValue? z)

/-- The byte that a one-letter escape stands for. -/
def unescape? (b : Byte) : Option Byte :=
  if b = '"' ∨ b = '\\' ∨ b = '/' then some b
  else if b = 'b' then some 8
  else if b = 'f' then some 12
  else if b = 'n' then some 10
  else if b = 'r' then some 13
  else if b = 't' then some 9
  else none

/-- The pieces of a string after its opening quote, and what follows the
closing one. -/
def readPieces : Text → Option (List StringPiece × Text)
  | [] => none
  | b :: rest =>
    if b = '"' then some ([], rest)
    else if b < 32 then none
    else if b ≠ '\\' then
      (readPieces rest).map fun (ps, rest) => (.byte b :: ps, rest)
    else
      match rest with
      | [] => none
      | e :: rest =>
        if e ≠ 'u' then do
          let c ← unescape? e
          (readPieces rest).map fun (ps, rest) => (.byte c :: ps, rest)
        else
          match rest with
          | w :: x :: y :: z :: rest => do
            let code ← unitOf? w x y z
            (readPieces rest).map fun (ps, rest) => (.unit code :: ps, rest)
          | _ => none

/-- A character in UTF-8. -/
def utf8 (code : Nat) : Text :=
  let tail (n : Nat) : Byte := UInt8.ofNat (128 + n % 64)
  if code < 0x80 then [UInt8.ofNat code]
  else if code < 0x800 then [UInt8.ofNat (0xc0 + code / 64), tail code]
  else if code < 0x10000 then
    [UInt8.ofNat (0xe0 + code / 4096), tail (code / 64), tail code]
  else [UInt8.ofNat (0xf0 + code / 262144), tail (code / 4096),
    tail (code / 64), tail code]

def isHighSurrogate (code : Nat) : Bool := 0xd800 ≤ code && code < 0xdc00

def isLowSurrogate (code : Nat) : Bool := 0xdc00 ≤ code && code < 0xe000

/-- The character that takes the place of what is none. -/
def replacement : Nat := 0xfffd

/-- What a high surrogate amounts to that no low one follows. -/
def unpaired (pending : Option Nat) : Text :=
  if pending.isSome then utf8 replacement else []

/-- The character of a low surrogate after what may be its partner. -/
def paired (pending : Option Nat) (low : Nat) : Text :=
  match pending with
  | some high => utf8 (0x10000 + 1024 * (high - 0xd800) + (low - 0xdc00))
  | none => utf8 replacement

/-- The bytes that pieces stand for, given the high surrogate that they
follow, if any. -/
def bytesOf (pending : Option Nat) : List StringPiece → Text
  | [] => unpaired pending
  | .byte b :: ps => unpaired pending ++ b :: bytesOf none ps
  | .unit code :: ps =>
    if isHighSurrogate code then unpaired pending ++ bytesOf (some code) ps
    else if isLowSurrogate code then paired pending code ++ bytesOf none ps
    else unpaired pending ++ utf8 code ++ bytesOf none ps

/-- The text of a string after its opening quote, and what follows the closing
one. -/
def readString (s : Text) : Option (Text × Text) :=
  (readPieces s).map fun (ps, rest) => (bytesOf none ps, rest)

/-! ## Numbers -/

/-- A run of digits, at least one. -/
def readDigits (s : Text) : Option (Text × Text) :=
  let digits := s.takeWhile Byte.isDigit
  if digits.isEmpty then none else some (digits, s.dropWhile Byte.isDigit)

/-- The digits before the point: either one zero or a run that does not start
with one. -/
def readWhole (s : Text) : Option (Text × Text) :=
  match s with
  | [] => none
  | b :: rest => if b = '0' then some ([b], rest) else readDigits s

/-- The digits after the point; there need not be a point. -/
def readFraction (s : Text) : Option (Option Text × Text) :=
  match s with
  | [] => some (none, [])
  | b :: rest =>
    if b = '.' then
      (readDigits rest).map fun (digits, rest) => (some digits, rest)
    else some (none, s)

/-- The exponent of ten; there need not be one. -/
def readExponent (s : Text) : Option (Option Int × Text) :=
  match s with
  | [] => some (none, [])
  | b :: rest =>
    if b = 'e' ∨ b = 'E' then
      let negative := rest.head? == some 45
      let digits :=
        if negative || rest.head? == some 43 then rest.drop 1 else rest
      (readDigits digits).map fun (digits, rest) =>
        let n := Int.ofNat ((digits.numeral? 10).getD 0)
        (some (if negative then -n else n), rest)
    else some (none, s)

def readNumber (s : Text) : Option (JsonValue × Text) := do
  let negative := s.head? == some 45
  let (whole, rest) ← readWhole (if negative then s.drop 1 else s)
  let (fraction, rest) ← readFraction rest
  let (exponent, rest) ← readExponent rest
  let digits := Int.ofNat (((whole ++ fraction.getD []).numeral? 10).getD 0)
  let mantissa := if negative then -digits else digits
  return match fraction, exponent with
    | none, none => (.integer mantissa, rest)
    | _, _ =>
      (.decimal mantissa (exponent.getD 0 - (fraction.getD []).length), rest)

/-! ## Values -/

/-- A literal that is one of the words of the grammar. -/
def readWord (s : Text) : Option (JsonValue × Text) :=
  let word (name : Text) (value : JsonValue) : Option (JsonValue × Text) :=
    if name.isPrefixOf s then some (value, s.drop name.length) else none
  word "null" .null <|> word "true" (.bool true) <|> word "false" (.bool false)

/-- What follows a given mark, blanks before it being skipped. -/
def skipMark (mark : Byte) (s : Text) : Option Text :=
  match skipBlanks s with
  | [] => none
  | b :: rest => if b = mark then some rest else none

mutual

/-- A value at the start of a text, blanks before it being skipped, and what
follows it. The first argument bounds the number of nested and successive
values. -/
def readValue : Nat → Text → Option (JsonValue × Text)
  | 0, _ => none
  | fuel + 1, s =>
    match skipBlanks s with
    | [] => none
    | b :: rest =>
      if b = '"' then
        (readString rest).map fun (value, rest) => (.string value, rest)
      else if b = '[' then
        match skipMark ']' rest with
        | some rest => some (.array [], rest)
        | none =>
          (readItems fuel rest).map fun (items, rest) => (.array items, rest)
      else if b = '\x7b' then
        match skipMark '\x7d' rest with
        | some rest => some (.object [], rest)
        | none =>
          (readMembers fuel rest).map
            fun (members, rest) => (.object members, rest)
      else if b = '-' || b.isDigit then readNumber (b :: rest)
      else readWord (b :: rest)

/-- One or more items of an array up to its closing bracket. -/
def readItems : Nat → Text → Option (List JsonValue × Text)
  | 0, _ => none
  | fuel + 1, s => do
    let (item, rest) ← readValue fuel s
    match skipMark ',' rest with
    | some rest =>
      (readItems fuel rest).map fun (items, rest) => (item :: items, rest)
    | none => (skipMark ']' rest).map fun rest => ([item], rest)

/-- One or more members of an object up to its closing brace. -/
def readMembers : Nat → Text → Option (List (Text × JsonValue) × Text)
  | 0, _ => none
  | fuel + 1, s => do
    let rest ← skipMark '"' s
    let (key, rest) ← readString rest
    let rest ← skipMark ':' rest
    let (value, rest) ← readValue fuel rest
    match skipMark ',' rest with
    | some rest =>
      (readMembers fuel rest).map
        fun (members, rest) => ((key, value) :: members, rest)
    | none => (skipMark '\x7d' rest).map fun rest => ([(key, value)], rest)

end

/-- The value that a whole text stands for. Every value and every list of them
takes a byte at least, so twice the length bounds the nesting of their
calls. -/
def parse? (s : Text) : Option JsonValue :=
  match readValue (2 * s.length + 2) s with
  | none => none
  | some (value, rest) =>
    if (skipBlanks rest).isEmpty then some value else none

end JsonValue
end MirrorAdapter
