-- The grammar of JSON: which characters are a document, and which document
-- they are, without a word on how they are read.
import BraceScript.Json.Read
import BraceScript.Proofs.Number.Range

namespace BraceScript.Json

open Number

/-! ## Numbers -/

/-- Digits, at least one of them. -/
structure Digits (ds : List Char) : Prop where
  nonempty : ds ≠ []
  all : ∀ c ∈ ds, isDigit c = true

/-- The digits in front of the point: no zero in front of others. -/
structure Whole (ds : List Char) : Prop extends Digits ds where
  head : ds = ['0'] ∨ ds.head? ≠ some '0'

/-- The point and the digits behind it, if there are any. -/
inductive Fraction : List Char → List Char → Prop where
  | none : Fraction [] []
  | some {ds} (digits : Digits ds) : Fraction ('.' :: ds) ds

/-- The sign of an exponent, and whether it is a minus. -/
inductive PowerSign : List Char → Bool → Prop where
  | none : PowerSign [] false
  | plus : PowerSign ['+'] false
  | minus : PowerSign ['-'] true

/-- The exponent, if there is one. -/
inductive Power : List Char → Int → Prop where
  | none : Power [] 0
  | some {letter sign negative ds} (isLetter : letter = 'e' ∨ letter = 'E')
      (isSign : PowerSign sign negative) (digits : Digits ds) :
    Power (letter :: (sign ++ ds))
      (if negative then -(digitsValue ds 0 : Int) else digitsValue ds 0)

/-- The double nearest to `units * 10 ^ (power - places)`, which has to be in the range of
doubles. An exponent that does not fit into 32 bits is not computed with: below zero it makes zero
of every number, and above zero it leaves the range, but for zero itself. -/
inductive Nearest (units places : Nat) (power : Int) : Float → Prop where
  | inRange (fits : power.natAbs ≤ largestExponent)
      (below : (units : Rat) * 10 ^ (power - places) < rangeEnd) :
    Nearest units places power (ofDecimal units (power - places))
  | vanishing (large : largestExponent < power.natAbs) (small : units = 0 ∨ power < 0) :
    Nearest units places power 0.0

/-- A number without its sign. -/
inductive Size : List Char → Float → Prop where
  | of {whole fractionText fraction powerText power x} (isWhole : Whole whole)
      (isFraction : Fraction fractionText fraction) (isPower : Power powerText power)
      (nearest : Nearest (digitsValue fraction (digitsValue whole 0)) fraction.length power x) :
    Size (whole ++ (fractionText ++ powerText)) x

inductive Numeric : List Char → Float → Prop where
  | positive {cs x} (size : Size cs x) : Numeric cs x
  | negative {cs x} (size : Size cs x) : Numeric ('-' :: cs) (-x)

/-! ## Texts -/

/-- Four hexadecimal digits, and the number they spell. -/
inductive Hex : List Char → Nat → Prop where
  | of {a b c d : Char} {k l m n : Nat} (first : hexValue? a = some k)
      (second : hexValue? b = some l) (third : hexValue? c = some m)
      (fourth : hexValue? d = some n) :
    Hex [a, b, c, d] (((k * 16 + l) * 16 + m) * 16 + n)

/-- The letters that stand for a character behind a backslash. -/
def escapes : List (Char × Char) :=
  [('"', '"'), ('\\', '\\'), ('/', '/'), ('b', '\x08'), ('f', '\x0c'), ('n', '\n'), ('r', '\r'),
    ('t', '\t')]

/-- How a character is spelled in a text: as itself, behind a backslash, by its number, or by the
two numbers of a surrogate pair. -/
inductive Spelled : List Char → Char → Prop where
  | itself {c} (noControl : 0x20 ≤ c.toNat) (noQuote : c ≠ '"') (noBackslash : c ≠ '\\') :
    Spelled [c] c
  | escape {letter c} (known : (letter, c) ∈ escapes) : Spelled ['\\', letter] c
  | number {ds n} (hex : Hex ds n) (alone : n < 0xd800 ∨ 0xdfff < n) :
    Spelled ('\\' :: 'u' :: ds) (Char.ofNat n)
  | pair {ds es high low} (hex : Hex ds high) (hex' : Hex es low)
      (isHigh : 0xd800 ≤ high ∧ high ≤ 0xdbff) (isLow : 0xdc00 ≤ low ∧ low ≤ 0xdfff) :
    Spelled ('\\' :: 'u' :: (ds ++ '\\' :: 'u' :: es))
      (Char.ofNat ((high - 0xd800) * 0x400 + (low - 0xdc00) + 0x10000))

/-- The characters of a text, one after the other. -/
inductive Spelling : List Char → List Char → Prop where
  | nil : Spelling [] []
  | cons {cs c rest text} (first : Spelled cs c) (others : Spelling rest text) :
    Spelling (cs ++ rest) (c :: text)

/-! ## Documents -/

def Blanks (cs : List Char) : Prop := ∀ c ∈ cs, c = ' ' ∨ c = '\n' ∨ c = '\t' ∨ c = '\r'

/-- The parts of a document: a document without and with blanks around it, and what stands
between brackets. Of an object nothing is kept. -/
inductive Part where
  | value (j : Json)
  | element (j : Json)
  | elements (js : List Json)
  | member
  | members

/-- What the characters are a spelling of, if at most so many brackets are open at once. -/
inductive Derives : Nat → Part → List Char → Prop where
  | nullWord {n} : Derives n (.value .null) ['n', 'u', 'l', 'l']
  | trueWord {n} : Derives n (.value (.boolean true)) ['t', 'r', 'u', 'e']
  | falseWord {n} : Derives n (.value (.boolean false)) ['f', 'a', 'l', 's', 'e']
  | number {n cs x} (numeric : Numeric cs x) : Derives n (.value (.number x)) cs
  | text {n cs text} (spelling : Spelling cs text) :
    Derives n (.value (.text (String.ofList text))) ('"' :: (cs ++ ['"']))
  | noElements {n blanks} (isBlank : Blanks blanks) :
    Derives (n + 1) (.value (.array [])) ('[' :: (blanks ++ [']']))
  | array {n js cs} (items : Derives n (.elements js) cs) :
    Derives (n + 1) (.value (.array js)) ('[' :: (cs ++ [']']))
  | noMembers {n blanks} (isBlank : Blanks blanks) :
    Derives (n + 1) (.value .object) ('{' :: (blanks ++ ['}']))
  | object {n cs} (items : Derives n .members cs) :
    Derives (n + 1) (.value .object) ('{' :: (cs ++ ['}']))
  | element {n j front cs back} (before : Blanks front) (value : Derives n (.value j) cs)
      (behind : Blanks back) : Derives n (.element j) (front ++ (cs ++ back))
  | lastElement {n j cs} (element : Derives n (.element j) cs) : Derives n (.elements [j]) cs
  | moreElements {n j js cs rest} (element : Derives n (.element j) cs)
      (others : Derives n (.elements js) rest) : Derives n (.elements (j :: js)) (cs ++ ',' :: rest)
  | member {n front key text back j cs} (before : Blanks front) (isKey : Spelling key text)
      (behind : Blanks back) (element : Derives n (.element j) cs) :
    Derives n .member (front ++ '"' :: (key ++ '"' :: (back ++ ':' :: cs)))
  | lastMember {n cs} (member : Derives n .member cs) : Derives n .members cs
  | moreMembers {n cs rest} (member : Derives n .member cs) (others : Derives n .members rest) :
    Derives n .members (cs ++ ',' :: rest)

/-- The text is the document, with at most 127 brackets open at once. -/
def IsDocument (text : String) (j : Json) : Prop := Derives 127 (.element j) text.toList

end BraceScript.Json
