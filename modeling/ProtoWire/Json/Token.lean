import ProtoWire.Bytes.Hex
import ProtoWire.Json.Value
import ProtoWire.Number.Decimal

/-!
# JSON tokens

A text is cut into marks, strings and words, one character at a time. Strings
hold no control characters, and a word is a name of a constant or a numeral
without leading zeros. Tokens still say how they were written: an escaped code
unit is not yet a character, and a numeral not yet a number. Not all of them have
a meaning, since half of a surrogate pair is no character and a numeral may lie
beyond the range of binary64.
-/

set_option autoImplicit false

namespace ProtoWire.Json

/-! ## Strings -/

/-- What a string is written with. -/
inductive Piece where
  | char (c : Char)
  /-- A code unit of sixteen bits, written as four digits. -/
  | unit (code : Nat)
  deriving DecidableEq, Repr

/-- Whether a code unit is the first half of a surrogate pair. -/
def isFirstHalf (code : Nat) : Bool :=
  0xD800 ≤ code && code ≤ 0xDBFF

/-- Whether a code unit is the second half of a surrogate pair. -/
def isSecondHalf (code : Nat) : Bool :=
  0xDC00 ≤ code && code ≤ 0xDFFF

/-- The characters that pieces stand for, behind those given in reverse. Each
first half of a pair must be followed by a second half, and no second half may
stand elsewhere. -/
def decodePieces (read : List Char) : List Piece → Option (List Char)
  | [] => some read.reverse
  | .char c :: pieces => decodePieces (c :: read) pieces
  | .unit code :: pieces =>
      if isSecondHalf code then none
      else if isFirstHalf code then
        match pieces with
        | .unit second :: pieces =>
            if isSecondHalf second then
              let c := Char.ofNat (0x10000 + (code - 0xD800) * 0x400 + (second - 0xDC00))
              decodePieces (c :: read) pieces
            else none
        | _ => none
      else decodePieces (Char.ofNat code :: read) pieces

/-- The text that pieces stand for. -/
def textOf? (pieces : List Piece) : Option String :=
  (decodePieces [] pieces).map String.ofList

/-- The code unit that four hexadecimal digits denote. -/
def codeUnit? (a b c d : Char) : Option Nat := do
  let a ← Bytes.hexValue? a.toNat
  let b ← Bytes.hexValue? b.toNat
  let c ← Bytes.hexValue? c.toNat
  let d ← Bytes.hexValue? d.toNat
  return ((a * 16 + b) * 16 + c) * 16 + d

/-- The character that a one-letter escape stands for. -/
def simpleEscape? : Char → Option Char
  | '"' => some '"'
  | '\\' => some '\\'
  | '/' => some '/'
  | 'b' => some '\x08'
  | 'f' => some '\x0c'
  | 'n' => some '\n'
  | 'r' => some '\r'
  | 't' => some '\t'
  | _ => none

/-! ## Numerals -/

/-- A number as it is written. -/
structure Numeral where
  negative : Bool
  /-- The digits in front of the point. -/
  whole : List Char
  /-- The digits behind the point, if there is one. -/
  fraction : Option (List Char)
  exponent : Option Int
  deriving DecidableEq, Repr

/-- The number that decimal digits denote. -/
def numberOf (digits : List Char) : Nat :=
  digits.foldl (fun n c => 10 * n + (c.toNat - 48)) 0

/-- Takes the digits off the front of a text. -/
def spanDigits (text : List Char) : List Char × List Char :=
  (text.takeWhile Char.isDigit, text.dropWhile Char.isDigit)

/-- The digits of a whole part: a single zero, or digits that start with none. -/
def readWhole (text : List Char) : Option (List Char × List Char) :=
  match spanDigits text with
  | ([], _) => none
  | ('0' :: _ :: _, _) => none
  | split => some split

/-- The digits behind a point, none if there is no point. -/
def readFraction : List Char → Option (Option (List Char) × List Char)
  | '.' :: text =>
      match spanDigits text with
      | ([], _) => none
      | (digits, rest) => some (some digits, rest)
  | text => some (none, text)

/-- Takes a sign off the front of a text; it says whether that is a minus. -/
def readSign : List Char → Bool × List Char
  | '-' :: text => (true, text)
  | '+' :: text => (false, text)
  | text => (false, text)

/-- The exponent, none if there is no mark for one. -/
def readExponent : List Char → Option (Option Int × List Char)
  | c :: text =>
      if c = 'e' ∨ c = 'E' then
        let (negative, text) := readSign text
        match spanDigits text with
        | ([], _) => none
        | (digits, rest) =>
            let magnitude : Int := numberOf digits
            some (some (if negative then -magnitude else magnitude), rest)
      else some (none, c :: text)
  | [] => some (none, [])

/-- The numeral that a word is. -/
def Numeral.ofWord? (word : List Char) : Option Numeral := do
  let (negative, text) :=
    match word with
    | '-' :: text => (true, text)
    | text => (false, text)
  let (whole, text) ← readWhole text
  let (fraction, text) ← readFraction text
  let (exponent, text) ← readExponent text
  if text.isEmpty then return ⟨negative, whole, fraction, exponent⟩ else none

/-- The number that a numeral denotes. Minus zero is no integer, and a number
beyond the range of binary64 is none at all. -/
def Numeral.value? (numeral : Numeral) : Option Json :=
  let magnitude := numberOf numeral.whole
  let isInt :=
    numeral.fraction.isNone && numeral.exponent.isNone &&
      (if numeral.negative then 0 < magnitude && magnitude ≤ UInt64.size / 2
        else magnitude < UInt64.size)
  if isInt then some (.int (if numeral.negative then -(magnitude : Int) else magnitude))
  else
    let behind := numeral.fraction.getD []
    let bits := Decimal.toDouble numeral.negative
      ⟨numberOf (numeral.whole ++ behind), numeral.exponent.getD 0 - behind.length⟩
    if BinaryFormat.double.isFinite (bits % BinaryFormat.double.signBit) then
      some (.float (UInt64.ofNat bits))
    else none

/-! ## Tokens -/

/-- A value without parts, as it is written. -/
inductive Scalar where
  | null
  | bool (value : Bool)
  | number (numeral : Numeral)
  | string (pieces : List Piece)
  deriving DecidableEq, Repr

/-- The value that a scalar denotes, if it denotes one. -/
def Scalar.value? : Scalar → Option Json
  | .null => some .null
  | .bool value => some (.bool value)
  | .number numeral => numeral.value?
  | .string pieces => (textOf? pieces).map .string

/-- A part of a text between spaces. -/
inductive Token where
  | openArray
  | closeArray
  | openObject
  | closeObject
  | comma
  | colon
  | scalar (scalar : Scalar)
  deriving DecidableEq, Repr

/-- The token that a single mark is. -/
def Token.ofMark? : Char → Option Token
  | '[' => some .openArray
  | ']' => some .closeArray
  | '\x7b' => some .openObject
  | '\x7d' => some .closeObject
  | ',' => some .comma
  | ':' => some .colon
  | _ => none

/-- The token that a word is. -/
def Token.ofWord? (word : List Char) : Option Token :=
  if word = "null".toList then some (.scalar .null)
  else if word = "true".toList then some (.scalar (.bool true))
  else if word = "false".toList then some (.scalar (.bool false))
  else (Numeral.ofWord? word).map fun numeral => .scalar (.number numeral)

/-- The characters that may stand between tokens. -/
def isSpace (c : Char) : Bool :=
  c == ' ' || c == '\n' || c == '\t' || c == '\r'

/-- Where the cutting of a text stands. -/
inductive ScanPhase where
  /-- Between tokens. -/
  | gap
  /-- Inside a word, of which these letters are read, in reverse. -/
  | word (letters : List Char)
  /-- Inside a string, of which these pieces are read, in reverse. -/
  | string (pieces : List Piece)

/-- Cuts a text into tokens, which follow those given in reverse. A word ends at
a space, at a mark or with the text; a string has to be closed. -/
def scan : ScanPhase → List Token → List Char → Option (List Token)
  | .gap, tokens, [] => some tokens.reverse
  | .word letters, tokens, [] =>
      (Token.ofWord? letters.reverse).map fun token => (token :: tokens).reverse
  | .string _, _, [] => none
  | .gap, tokens, c :: text =>
      if isSpace c then scan .gap tokens text
      else if c = '"' then scan (.string []) tokens text
      else
        match Token.ofMark? c with
        | some mark => scan .gap (mark :: tokens) text
        | none => scan (.word [c]) tokens text
  | .word letters, tokens, c :: text =>
      if isSpace c then
        match Token.ofWord? letters.reverse with
        | some token => scan .gap (token :: tokens) text
        | none => none
      else
        match Token.ofMark? c with
        | some mark =>
            match Token.ofWord? letters.reverse with
            | some token => scan .gap (mark :: token :: tokens) text
            | none => none
        | none => scan (.word (c :: letters)) tokens text
  | .string pieces, tokens, c :: text =>
      if c = '"' then scan .gap (.scalar (.string pieces.reverse) :: tokens) text
      else if c = '\\' then
        match text with
        | 'u' :: a :: b :: c :: d :: text =>
            match codeUnit? a b c d with
            | some code => scan (.string (.unit code :: pieces)) tokens text
            | none => none
        | letter :: text =>
            match simpleEscape? letter with
            | some c => scan (.string (.char c :: pieces)) tokens text
            | none => none
        | [] => none
      else if c.toNat < 0x20 then none
      else scan (.string (.char c :: pieces)) tokens text

/-- The tokens of a text. -/
def tokens? (text : String) : Option (List Token) :=
  scan .gap [] text.toList

end ProtoWire.Json
