import Bytecheck.Decimal.Shortest

/-!
# Reading Numbers

Integers within bounds, and decimals rounded to the nearest number of a binary
format, a tie to the even one.
-/

namespace Bytecheck.Decimal

inductive NumberFault where
  | emptyInteger
  | invalidDigit
  | tooLarge
  | tooSmall
  | emptyFloat
  | invalidFloat
deriving DecidableEq, Repr

def NumberFault.message : NumberFault → String
  | .emptyInteger => "cannot parse integer from empty string"
  | .invalidDigit => "invalid digit found in string"
  | .tooLarge => "number too large to fit in target type"
  | .tooSmall => "number too small to fit in target type"
  | .emptyFloat => "cannot parse float from empty string"
  | .invalidFloat => "invalid float literal"

def digit? (c : Char) : Option Nat := if '0' ≤ c ∧ c ≤ '9' then some (c.toNat - '0'.toNat) else none

/-- The bounds of an integer type; only with a lower bound below zero is there a minus sign. -/
structure Bounds where
  lo : Int
  hi : Int

def Bounds.unsigned16 : Bounds := ⟨0, 65535⟩
def Bounds.signed32 : Bounds := ⟨-2147483648, 2147483647⟩
def Bounds.signed64 : Bounds := ⟨-9223372036854775808, 9223372036854775807⟩

/-- Digits from left to right, after those that make `acc`. The first digit that is none, or that
leaves the bounds, decides. -/
def digits (b : Bounds) (negative : Bool) : Int → List Char → Except NumberFault Int
  | acc, [] => .ok acc
  | acc, c :: cs =>
    match digit? c with
    | none => .error .invalidDigit
    | some d =>
      let next := if negative then acc * 10 - d else acc * 10 + d
      if b.hi < next then .error .tooLarge
      else if next < b.lo then .error .tooSmall
      else digits b negative next cs

def readInt (b : Bounds) (cs : List Char) : Except NumberFault Int :=
  match cs with
  | [] => .error .emptyInteger
  | ['+'] | ['-'] => .error .invalidDigit
  | '+' :: rest => digits b false 0 rest
  | '-' :: rest => if b.lo < 0 then digits b true 0 rest else .error .invalidDigit
  | _ => digits b false 0 cs

/-- The longest run of digits in front. -/
def digitRun (cs : List Char) : List Char × List Char :=
  (cs.takeWhile Char.isDigit, cs.dropWhile Char.isDigit)

def digitValue (cs : List Char) : Nat := cs.foldl (fun n c => n * 10 + (c.toNat - '0'.toNat)) 0

/-- An exponent after its mark: an optional sign and at least one digit, up to the end. -/
def readExponent (cs : List Char) : Option Int :=
  let (negative, cs) :=
    match cs with
    | '+' :: r => (false, r)
    | '-' :: r => (true, r)
    | _ => (false, cs)
  let (ds, rest) := digitRun cs
  if ds.isEmpty ∨ !rest.isEmpty then none
  else some (if negative then -(digitValue ds : Int) else digitValue ds)

/-- An unsigned decimal `n · 10 ^ e`: digits with an optional point among them or at an end, then an
optional exponent. -/
def readDecimal (cs : List Char) : Option (Nat × Int) :=
  let (whole, rest) := digitRun cs
  let (fraction, rest) :=
    match rest with
    | '.' :: r => digitRun r
    | _ => ([], rest)
  if whole.isEmpty ∧ fraction.isEmpty then none
  else
    let n := digitValue (whole ++ fraction)
    match rest with
    | [] => some (n, -(fraction.length : Int))
    | c :: r =>
      if c = 'e' ∨ c = 'E' then (readExponent r).map fun e => (n, e - fraction.length)
      else none

/-- Round a quotient to the nearest natural number, a tie to the even one. -/
def roundEven (num den : Nat) : Nat :=
  let q := num / den
  let r := num % den
  if 2 * r < den then q
  else if den < 2 * r then q + 1
  else if q % 2 = 0 then q else q + 1

/-- The greatest `e` with `2 ^ e ≤ r`. -/
def Ratio.log2 (r : Ratio) : Int :=
  let e : Int := (r.num.log2 : Int) - r.den.log2
  let s : Ratio :=
    if 0 ≤ e then ⟨r.num, r.den * Nat.pow 2 e.toNat⟩ else ⟨r.num * Nat.pow 2 (-e).toNat, r.den⟩
  if s.den ≤ s.num then e else e - 1

namespace Format

/-- The bits of the number nearest to a positive quotient. A significand that rounds up to the next
power of two carries into the exponent. -/
def ofRatio (f : Format) (r : Ratio) : Nat :=
  let q := max f.least (r.log2 - f.fraction)
  let m :=
    if 0 ≤ q then roundEven r.num (r.den * Nat.pow 2 q.toNat)
    else roundEven (r.num * Nat.pow 2 (-q).toNat) r.den
  let bits :=
    if m < Nat.pow 2 f.fraction then m
    else ((q - f.least).toNat + 1) * Nat.pow 2 f.fraction + (m - Nat.pow 2 f.fraction)
  min bits f.infinity

/-- The bits of the number nearest to `n · 10 ^ e`. Numbers far out of range are decided by their
magnitude alone. -/
def ofDecimal (f : Format) (n : Nat) (e : Int) : Nat :=
  let top := e + (Nat.toDigits 10 n).length
  if n = 0 ∨ top < -400 then 0
  else if 400 < top then f.infinity
  else f.ofRatio (Ratio.scaled n 10 e)

/-- A number without a sign: a decimal, or a word for what is not finite, in any case. -/
def readUnsigned (f : Format) (cs : List Char) : Option Nat :=
  match readDecimal cs with
  | some (n, e) => some (f.ofDecimal n e)
  | none =>
    let word := String.ofList (cs.map Char.toLower)
    if word = "inf" ∨ word = "infinity" then some f.infinity
    else if word = "nan" then some (f.infinity + Nat.pow 2 (f.fraction - 1))
    else none

/-- The bits of the number that a text stands for. -/
def read (f : Format) (cs : List Char) : Except NumberFault Nat :=
  let (negative, body) :=
    match cs with
    | '+' :: r => (false, r)
    | '-' :: r => (true, r)
    | _ => (false, cs)
  if cs.isEmpty then .error .emptyFloat
  else
    match f.readUnsigned body with
    | some bits => .ok (if negative then bits + f.sign else bits)
    | none => .error .invalidFloat

end Format

end Bytecheck.Decimal
