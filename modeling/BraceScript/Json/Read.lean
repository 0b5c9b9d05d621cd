-- Reading a JSON document off a text. The first thing that is wrong is
-- reported with its line and column; columns count bytes, and a column is
-- that of the last byte looked at.
import BraceScript.Json
import BraceScript.Span

namespace BraceScript.Json

/-! ## Places and errors -/

/-- A line, and the number of bytes read on it. -/
structure Place where
  line : Nat
  column : Nat
deriving DecidableEq

/-- What is wrong with a text. -/
inductive Cause where
  | endInValue | endInList | endInObject | endInText
  | noValue | noWord | badNumber | numberTooLarge
  | trailingCharacters | trailingComma
  | noCommaInList | noCommaInObject | noColon | keyIsNoText
  | badEscape | brokenPair | lonePart | controlCharacter | tooDeep
deriving DecidableEq

def Cause.message : Cause → String
  | .endInValue => "EOF while parsing a value"
  | .endInList => "EOF while parsing a list"
  | .endInObject => "EOF while parsing an object"
  | .endInText => "EOF while parsing a string"
  | .noValue => "expected value"
  | .noWord => "expected ident"
  | .badNumber => "invalid number"
  | .numberTooLarge => "number out of range"
  | .trailingCharacters => "trailing characters"
  | .trailingComma => "trailing comma"
  | .noCommaInList => "expected `,` or `]`"
  | .noCommaInObject => "expected `,` or `\x7d`"
  | .noColon => "expected `:`"
  | .keyIsNoText => "key must be a string"
  | .badEscape => "invalid escape"
  | .brokenPair => "unexpected end of hex escape"
  | .lonePart => "lone leading surrogate in hex escape"
  | .controlCharacter => "control character (\\u0000-\\u001F) found while parsing a string"
  | .tooDeep => "recursion limit exceeded"

structure Error where
  cause : Cause
  place : Place
deriving DecidableEq

def Error.message (e : Error) : String :=
  e.cause.message ++ " at line " ++ toString e.place.line ++ " column " ++
    toString e.place.column

/-! ## The text still to be read -/

structure Input where
  rest : List Char
  place : Place

namespace Input

def ofText (text : String) : Input := ⟨text.toList, ⟨1, 0⟩⟩

/-- The place behind a character. -/
def after (place : Place) (c : Char) : Place :=
  if c == '\n' then ⟨place.line + 1, 0⟩ else ⟨place.line, place.column + c.utf8Size⟩

/-- The place behind the next byte. -/
def next (i : Input) : Place :=
  match i.rest with
  | [] => i.place
  | '\n' :: _ => ⟨i.place.line + 1, 0⟩
  | _ => ⟨i.place.line, i.place.column + 1⟩

/-- The place behind the next `count` bytes, or behind the last one. -/
def afterBytes (place : Place) : Nat → List Char → Place
  | 0, _ | _, [] => place
  | count, c :: cs =>
    if c.utf8Size ≤ count then afterBytes (after place c) (count - c.utf8Size) cs
    else ⟨place.line, place.column + count⟩

/-- The text behind its first character. -/
def drop (i : Input) : Input :=
  match i.rest with
  | [] => i
  | c :: rest => ⟨rest, after i.place c⟩

/-- The text behind the characters that pass the test. -/
def dropWhile (i : Input) (test : Char → Bool) : Input :=
  ⟨i.rest.dropWhile test, (i.rest.takeWhile test).foldl after i.place⟩

def isBlank (c : Char) : Bool := c == ' ' || c == '\n' || c == '\t' || c == '\r'

def skipBlanks (i : Input) : Input := i.dropWhile isBlank

/-- Refuses what has been read. -/
def refuse {α : Type} (i : Input) (cause : Cause) : Except Error α := .error ⟨cause, i.place⟩

/-- Refuses what comes next. -/
def refuseNext {α : Type} (i : Input) (cause : Cause) : Except Error α := .error ⟨cause, i.next⟩

end Input

/-! ## Words -/

/-- Reads the letters of a word whose first letter has been seen. -/
def readWord : List Char → Input → Except Error Input
  | [], i => .ok i
  | letter :: letters, i =>
    match i.rest with
    | [] => i.refuse .endInValue
    | c :: _ => if c = letter then readWord letters i.drop else i.refuseNext .noWord

/-! ## Numbers -/

/-- The largest exponent that is taken as it is written. -/
def largestExponent : Nat := 2147483647

/-- The digits of an exponent, one or more. Larger exponents than the
largest make zero of a small number and are refused for a large one. -/
def readExponent (isZero negative : Bool) (i : Input) : Except Error (Option Int × Input) :=
  let digits := i.rest.takeWhile Number.isDigit
  if digits.isEmpty then
    if i.rest.isEmpty then i.refuse .endInValue else i.refuseNext .badNumber
  else
    let value := Number.digitsValue digits 0
    if value ≤ largestExponent then
      .ok (some (if negative then -(value : Int) else value), i.dropWhile Number.isDigit)
    else if isZero || negative then .ok (none, i.dropWhile Number.isDigit)
    else
      -- the refused digit is the first that takes the exponent too far
      let kept := (List.range digits.length).takeWhile fun n =>
        Number.digitsValue (digits.take (n + 1)) 0 ≤ largestExponent
      .error ⟨.numberTooLarge, ⟨i.place.line, i.place.column + kept.length + 1⟩⟩

/-- The digits in front of the point: one at least, and no zero in front of
others. -/
def readWhole (i : Input) : Except Error (List Char × Input) :=
  match i.rest.takeWhile Number.isDigit with
  | [] => if i.rest.isEmpty then i.refuse .endInValue else i.refuseNext .badNumber
  | '0' :: _ :: _ => i.drop.refuseNext .badNumber
  | whole => .ok (whole, i.dropWhile Number.isDigit)

/-- The digits behind the point, if there is one. -/
def readFraction (i : Input) : Except Error (List Char × Input) :=
  match i.rest with
  | '.' :: rest =>
    match rest.takeWhile Number.isDigit with
    | [] => i.drop.refuseNext (if rest.isEmpty then .endInValue else .badNumber)
    | fraction => .ok (fraction, i.drop.dropWhile Number.isDigit)
  | _ => .ok ([], i)

/-- The exponent, if there is one. -/
def readPower (isZero : Bool) (i : Input) : Except Error (Option Int × Input) :=
  match i.rest with
  | [] => .ok (some 0, i)
  | c :: rest =>
    if c == 'e' || c == 'E' then
      match rest with
      | '+' :: _ => readExponent isZero false i.drop.drop
      | '-' :: _ => readExponent isZero true i.drop.drop
      | _ => readExponent isZero false i.drop
    else .ok (some 0, i)

/-- A number without its sign. -/
def readNumber (negative : Bool) (i : Input) : Except Error (Json × Input) := do
  let signed (x : Float) : Json := .number (if negative then -x else x)
  let (whole, i) ← readWhole i
  let (fraction, i) ← readFraction i
  let units := Number.digitsValue fraction (Number.digitsValue whole 0)
  let (exponent, i) ← readPower (units == 0) i
  match exponent with
  | none => return (signed 0.0, i)
  | some exponent =>
    let x := Number.ofDecimal units (exponent - fraction.length)
    if x.isInf then i.refuse .numberTooLarge else return (signed x, i)

/-! ## Texts -/

def hexValue? (c : Char) : Option Nat :=
  if '0' ≤ c && c ≤ '9' then some (c.toNat - '0'.toNat)
  else if 'a' ≤ c && c ≤ 'f' then some (c.toNat - 'a'.toNat + 10)
  else if 'A' ≤ c && c ≤ 'F' then some (c.toNat - 'A'.toNat + 10)
  else none

/-- The number that four hexadecimal digits spell. -/
def readHex (i : Input) : Except Error (Nat × Input) :=
  if byteLength (i.rest.take 4) < 4 then
    .error ⟨.endInText, i.rest.foldl Input.after i.place⟩
  else
    match (i.rest.take 4).mapM hexValue? with
    | some digits => .ok (digits.foldl (fun n d => n * 16 + d) 0, i.drop.drop.drop.drop)
    | none => .error ⟨.badEscape, Input.afterBytes i.place 4 i.rest⟩

/-- The given character, which has to be next in the middle of a pair. -/
def readInPair (c : Char) (i : Input) : Except Error Input :=
  match i.rest with
  | [] => i.refuse .endInText
  | d :: _ => if d = c then .ok i.drop else i.refuseNext .brokenPair

/-- A character by its number, or by the two numbers of a pair if it lies
beyond the first 65536. -/
def readCodePoint (i : Input) : Except Error (Char × Input) := do
  let (high, i) ← readHex i
  if 0xdc00 ≤ high && high ≤ 0xdfff then i.refuse .lonePart
  else if high < 0xd800 || 0xdbff < high then return (Char.ofNat high, i)
  else
    let (low, i) ← readHex (← readInPair 'u' (← readInPair '\\' i))
    if low < 0xdc00 || 0xdfff < low then i.refuse .lonePart
    else return (Char.ofNat ((high - 0xd800) * 0x400 + (low - 0xdc00) + 0x10000), i)

/-- The character that stands for what follows a backslash. -/
def readEscape (i : Input) : Except Error (Char × Input) :=
  match i.rest with
  | [] => i.refuse .endInText
  | '"' :: _ => .ok ('"', i.drop)
  | '\\' :: _ => .ok ('\\', i.drop)
  | '/' :: _ => .ok ('/', i.drop)
  | 'b' :: _ => .ok ('\x08', i.drop)
  | 'f' :: _ => .ok ('\x0c', i.drop)
  | 'n' :: _ => .ok ('\n', i.drop)
  | 'r' :: _ => .ok ('\r', i.drop)
  | 't' :: _ => .ok ('\t', i.drop)
  | 'u' :: _ => readCodePoint i.drop
  | _ => i.refuseNext .badEscape

/-- The characters of a text up to its closing quote, behind those already
read, which come last first. The number is at least the number of
characters left. -/
def readTextFrom : Nat → List Char → Input → Except Error (String × Input)
  | 0, _, i => i.refuse .endInText
  | fuel + 1, read, i =>
    match i.rest with
    | [] => i.refuse .endInText
    | '"' :: _ => .ok (String.ofList read.reverse, i.drop)
    | '\\' :: _ =>
      match readEscape i.drop with
      | .ok (c, i) => readTextFrom fuel (c :: read) i
      | .error e => .error e
    | c :: _ =>
      if c.toNat < 0x20 then i.refuseNext .controlCharacter
      else readTextFrom fuel (c :: read) i.drop

/-- A text whose opening quote has been read. -/
def readText (i : Input) : Except Error (String × Input) := readTextFrom i.rest.length [] i

/-! ## Arrays and objects

Both loops are given at least as many steps as there are characters left, so
without a step left the text has ended. -/

/-- What comes in front of an item that is not the closing bracket: nothing if
it is the first one, and else a comma. -/
def readSeparator (closing : Char) (missing : Cause) (first : Bool) (i : Input) :
    Except Error Input :=
  if first then .ok i
  else
    match i.rest with
    | ',' :: _ =>
      let i := i.drop.skipBlanks
      match i.rest with
      | [] => i.refuseNext .endInValue
      | c :: _ => if c = closing then i.refuseNext .trailingComma else .ok i
    | _ => i.refuseNext missing

/-- The items of an array up to its closing bracket. -/
def readItems (value : Input → Except Error (Json × Input)) (first : Bool) :
    Nat → Input → Except Error (List Json × Input)
  | 0, i => i.refuseNext .endInList
  | fuel + 1, i =>
    let i := i.skipBlanks
    match i.rest with
    | [] => i.refuseNext .endInList
    | ']' :: _ => .ok ([], i.drop)
    | _ => do
      let i ← readSeparator ']' .noCommaInList first i
      let (item, i) ← value i
      let (items, i) ← readItems value false fuel i
      return (item :: items, i)

/-- The colon behind a key. -/
def readColon (i : Input) : Except Error Input :=
  let i := i.skipBlanks
  match i.rest with
  | [] => i.refuseNext .endInObject
  | ':' :: _ => .ok i.drop
  | _ => i.refuseNext .noColon

/-- The members of an object up to its closing brace. -/
def readMembers (value : Input → Except Error (Json × Input)) (first : Bool) :
    Nat → Input → Except Error Input
  | 0, i => i.refuseNext .endInObject
  | fuel + 1, i =>
    let i := i.skipBlanks
    match i.rest with
    | [] => i.refuseNext .endInObject
    | '}' :: _ => .ok i.drop
    | _ => do
      let i ← readSeparator '}' .noCommaInObject first i
      match i.rest with
      | '"' :: _ =>
        let (_, i) ← readText i.drop
        let (_, i) ← value (← readColon i)
        readMembers value false fuel i
      | _ => i.refuseNext .keyIsNoText

/-! ## Documents -/

/-- The number of brackets that may be open at once, and one more. -/
def depthLimit : Nat := 128

/-- A document with no more brackets open at once than there is depth left. -/
def readValue : Nat → Input → Except Error (Json × Input)
  | depth, i =>
    let i := i.skipBlanks
    match i.rest with
    | [] => i.refuseNext .endInValue
    | 'n' :: _ => (readWord ['u', 'l', 'l'] i.drop).map (.null, ·)
    | 't' :: _ => (readWord ['r', 'u', 'e'] i.drop).map (.boolean true, ·)
    | 'f' :: _ => (readWord ['a', 'l', 's', 'e'] i.drop).map (.boolean false, ·)
    | '"' :: _ => (readText i.drop).map fun r => (.text r.1, r.2)
    | '-' :: _ => readNumber true i.drop
    | '[' :: _ =>
      match depth with
      | depth + 2 =>
        (readItems (readValue (depth + 1)) true i.rest.length i.drop).map fun r => (.array r.1, r.2)
      | _ => i.refuseNext .tooDeep
    | '{' :: _ =>
      match depth with
      | depth + 2 =>
        (readMembers (readValue (depth + 1)) true i.rest.length i.drop).map fun i => (.object, i)
      | _ => i.refuseNext .tooDeep
    | c :: _ => if Number.isDigit c then readNumber false i else i.refuseNext .noValue

/-- The document that a whole text holds. -/
def read (text : String) : Except Error Json := do
  let (j, i) ← readValue depthLimit (Input.ofText text)
  let i := i.skipBlanks
  if i.rest.isEmpty then return j else i.refuseNext .trailingCharacters

end BraceScript.Json
