import LessonPlot.Decimal.Numeral
import LessonPlot.Json.Basic
import LessonPlot.Json.Fault
import LessonPlot.Text.Space

namespace LessonPlot

namespace Json

/-- The value of a hexadecimal digit. -/
def hexValue? (c : Char) : Option Nat :=
  if c.isDigit then some (c.toNat - '0'.toNat)
  else if 'a' ≤ c && c ≤ 'f' then some (c.toNat - 'a'.toNat + 10)
  else if 'A' ≤ c && c ≤ 'F' then some (c.toNat - 'A'.toNat + 10)
  else none

/-- The number that four hexadecimal digits write. -/
def hexCode? (a b c d : Char) : Option Nat := do
  let a ← hexValue? a
  let b ← hexValue? b
  let c ← hexValue? c
  let d ← hexValue? d
  some (((a * 16 + b) * 16 + c) * 16 + d)

/-- The first of the two units of a character beyond the basic plane. -/
def isLeadingUnit (code : Nat) : Bool :=
  0xD800 ≤ code && code ≤ 0xDBFF

/-- The second of the two units of a character beyond the basic plane. -/
def isTrailingUnit (code : Nat) : Bool :=
  0xDC00 ≤ code && code ≤ 0xDFFF

/-- The character that two units make up. -/
def joinUnits (leading trailing : Nat) : Char :=
  Char.ofNat (0x10000 + (leading - 0xD800) * 0x400 + (trailing - 0xDC00))

/-- What a character after a backslash stands for. -/
def escaped? : Char → Option Char
  | '"' => some '"'
  | '\\' => some '\\'
  | '/' => some '/'
  | 'b' => some '\x08'
  | 'f' => some '\x0c'
  | 'n' => some '\n'
  | 'r' => some '\r'
  | 't' => some '\t'
  | _ => none

/-- The fault of an escape by number with fewer than four characters after it: the text has ended
only if fewer than four bytes are left. -/
def shortEscape (rest : List Char) : Fault :=
  if (String.ofList rest).utf8ByteSize < 4 then .truncated else .malformed

/-- Adds a character to what the rest of a string holds. -/
def prepend (c : Char) (rest : Except Fault (List Char × List Char)) :
    Except Fault (List Char × List Char) :=
  rest.map fun (cs, text) => (c :: cs, text)

/-- The rest of a string after its opening quote; a leading unit is kept until its trailing unit
follows. -/
def scanString (leading : Option Nat) : List Char → Except Fault (List Char × List Char)
  | [] => .error .truncated
  | '"' :: rest => if leading.isSome then .error .malformed else .ok ([], rest)
  | ['\\'] => .error .truncated
  | '\\' :: 'u' :: a :: b :: c :: d :: rest =>
    match hexCode? a b c d, leading with
    | none, _ => .error .malformed
    | some code, some unit =>
      if isTrailingUnit code then prepend (joinUnits unit code) (scanString none rest)
      else .error .malformed
    | some code, none =>
      if isTrailingUnit code then .error .malformed
      else if isLeadingUnit code then scanString (some code) rest
      else prepend (Char.ofNat code) (scanString none rest)
  | '\\' :: 'u' :: rest => .error (shortEscape rest)
  | '\\' :: mark :: rest =>
    match escaped? mark, leading with
    | some c, none => prepend c (scanString none rest)
    | _, _ => .error .malformed
  | c :: rest =>
    if leading.isSome || c.val < 0x20 then .error .malformed
    else prepend c (scanString none rest)

/-- A string after its opening quote. -/
def scanQuoted : Reader String := fun text =>
  (scanString none text).map fun (cs, rest) => (String.ofList cs, rest)

/-- Passes over a given word. -/
def scanWord : List Char → List Char → Except Fault (List Char)
  | [], text => .ok text
  | _ :: _, [] => .error .truncated
  | c :: cs, d :: rest => if c = d then scanWord cs rest else .error .malformed

/-- Takes in digits for as long as the number fits 64 bits. -/
def absorb (significand : Nat) : List Char → Nat × List Char
  | [] => (significand, [])
  | c :: rest =>
    let next := 10 * significand + Numeral.digitValue c
    if next < Nat.pow 2 64 then absorb next rest else (significand, c :: rest)

/-- A power of ten, rounded to nearest. -/
def powerOfTen (exponent : Nat) : Float :=
  Scalar.ofDecimal ⟨1, exponent⟩

/-- Divides by a power of ten, the largest finite power at a time. -/
def scaleDown (value : Float) (places : Nat) : Float :=
  if places ≤ 308 then value / powerOfTen places
  else if value == 0 then value
  else scaleDown (value / powerOfTen 308) (places - 308)
termination_by places

/-- A significand times a power of ten, each step rounded by itself; nothing if it is too large. -/
def scaled (significand : Nat) (exponent : Int) : Option Float :=
  let value := Float.ofNat significand
  if exponent < 0 then some (scaleDown value exponent.natAbs)
  else if significand = 0 then some value
  else if 308 < exponent then none
  else
    let product := value * powerOfTen exponent.toNat
    if product.isFinite then some product else none

/-- The fault of a number that ends where a digit has to follow. -/
def digitFault (text : List Char) : Fault :=
  if text.isEmpty then .truncated else .malformed

/-- The exponents that are read as they stand. -/
def maxExponent : Nat := 2147483647

/-- A number that has a fraction or an exponent or does not fit 64 bits. -/
def realNumber (negative : Bool) (significand : Nat) (exponent : Int) (text : List Char) :
    Except Fault (JsonNumber × List Char) :=
  match scaled significand exponent with
  | some value => .ok (.real (if negative then -value else value), text)
  | none => .error .malformed

/-- What follows the mantissa of a number that is no whole number of 64 bits. -/
def exponentPart (negative : Bool) (significand : Nat) (exponent : Int) :
    List Char → Except Fault (JsonNumber × List Char)
  | [] => realNumber negative significand exponent []
  | mark :: text =>
    if mark = 'e' || mark = 'E' then
      let (down, digits) := Numeral.sign text
      let written := Numeral.ofDigits (digits.takeWhile Char.isDigit)
      let rest := digits.dropWhile Char.isDigit
      if (digits.takeWhile Char.isDigit).isEmpty then .error (digitFault digits)
      else if written ≤ maxExponent then
        realNumber negative significand (if down then exponent - written else exponent + written)
          rest
      else if significand ≠ 0 && !down then .error .malformed
      else realNumber negative 0 0 rest
    else realNumber negative significand exponent (mark :: text)

/-- A whole number of 64 bits; a negative one that is too small, or zero, is taken as real. -/
def wholeNumber (negative : Bool) (significand : Nat) : JsonNumber :=
  if !negative then .natural significand
  else if 0 < significand && significand ≤ Nat.pow 2 63 then .negative significand
  else .real (-Float.ofNat significand)

/-- A number after its sign. Digits beyond 64 bits only count for the magnitude. -/
def scanNumber (negative : Bool) : Reader JsonNumber := fun text =>
  let whole := text.takeWhile Char.isDigit
  let rest := text.dropWhile Char.isDigit
  if whole.isEmpty then .error (digitFault text)
  else if whole.head? = some '0' && 1 < whole.length then .error .malformed
  else
    let (significand, excess) := absorb 0 whole
    match rest with
    | '.' :: rest =>
      let fraction := rest.takeWhile Char.isDigit
      let (significand, unused) := absorb significand fraction
      let exponent : Int := excess.length - (fraction.length - unused.length : Nat)
      if fraction.isEmpty then .error (digitFault rest)
      else exponentPart negative significand exponent (rest.dropWhile Char.isDigit)
    | 'e' :: _ => exponentPart negative significand excess.length rest
    | 'E' :: _ => exponentPart negative significand excess.length rest
    | _ =>
      if excess.isEmpty then .ok (wholeNumber negative significand, rest)
      else realNumber negative significand excess.length rest

/-- Where the next item or member starts, or what follows the closing bracket. -/
inductive Next where
  | item (text : List Char)
  | closed (rest : List Char)

/-- What comes next in an array. -/
def nextItem (first : Bool) (text : List Char) : Except Fault Next :=
  match skipBlanks text with
  | [] => .error .truncated
  | ']' :: rest => .ok (.closed rest)
  | c :: rest =>
    if first then .ok (.item (c :: rest))
    else if c = ',' then
      match skipBlanks rest with
      | [] => .error .truncated
      | ']' :: _ => .error .malformed
      | item => .ok (.item item)
    else .error .malformed

/-- What comes next in an object; a member starts after the quote that opens its name. -/
def nextMember (first : Bool) (text : List Char) : Except Fault Next :=
  match skipBlanks text with
  | [] => .error .truncated
  | '}' :: rest => .ok (.closed rest)
  | c :: rest =>
    if first then if c = '"' then .ok (.item rest) else .error .malformed
    else if c = ',' then
      match skipBlanks rest with
      | [] => .error .truncated
      | '"' :: name => .ok (.item name)
      | _ => .error .malformed
    else .error .malformed

/-- Passes over the colon between a name and its value. -/
def colon (text : List Char) : Except Fault (List Char) :=
  match skipBlanks text with
  | [] => .error .truncated
  | ':' :: rest => .ok rest
  | _ => .error .malformed

/-- Passes over the end of an array that can have no more items. -/
def closeArray (text : List Char) : Except Fault (List Char) :=
  match skipBlanks text with
  | [] => .error .truncated
  | ']' :: rest => .ok rest
  | _ => .error .malformed

end Json

end LessonPlot
