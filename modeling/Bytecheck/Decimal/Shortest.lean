/-!
# Shortest Decimals

Binary floating-point numbers in decimal. A finite number is `m · 2 ^ q`; it is written with the
fewest digits that read back as the same number, and of those with the digits nearest to it. All
arithmetic is on natural numbers.
-/

namespace Bytecheck.Decimal

/-- A binary format: the bits of the fraction, those of the exponent, and the exponent of the last
place of the smallest numbers. -/
structure Format where
  fraction : Nat
  exponent : Nat
  least : Int

def single : Format := ⟨23, 8, -149⟩

def double : Format := ⟨52, 11, -1074⟩

/-- What the bits of a number mean. -/
inductive Value where
  | nan
  | infinite (negative : Bool)
  /-- The number `m · 2 ^ q`. `first` marks the first significand of an exponent, where the numbers
  below lie closer together than those above. -/
  | finite (negative : Bool) (m : Nat) (q : Int) (first : Bool)
deriving DecidableEq, Repr

namespace Format

def infinity (f : Format) : Nat := (Nat.pow 2 f.exponent - 1) * Nat.pow 2 f.fraction

def sign (f : Format) : Nat := Nat.pow 2 (f.exponent + f.fraction)

def decode (f : Format) (bits : Nat) : Value :=
  let negative := bits / f.sign % 2 = 1
  let e := bits / Nat.pow 2 f.fraction % Nat.pow 2 f.exponent
  let m := bits % Nat.pow 2 f.fraction
  if e = Nat.pow 2 f.exponent - 1 then
    if m = 0 then .infinite negative else .nan
  else if e = 0 then .finite negative m f.least false
  else .finite negative (m + Nat.pow 2 f.fraction) (f.least + (e - 1 : Nat)) (m = 0)

end Format

structure Ratio where
  num : Nat
  den : Nat
deriving Repr

/-- `n · b ^ e` as a quotient. -/
def Ratio.scaled (n b : Nat) (e : Int) : Ratio :=
  if 0 ≤ e then ⟨n * Nat.pow b e.toNat, 1⟩ else ⟨n, Nat.pow b (-e).toNat⟩

/-- The quotient by `10 ^ e`. -/
def Ratio.shift (r : Ratio) (e : Int) : Ratio :=
  if 0 ≤ e then ⟨r.num, r.den * Nat.pow 10 e.toNat⟩ else ⟨r.num * Nat.pow 10 (-e).toNat, r.den⟩

/-- The greatest `e` with `10 ^ e ≤ r`. The numbers of digits bound it from both sides. -/
def Ratio.magnitude (r : Ratio) : Int :=
  let e : Int := (Nat.toDigits 10 r.num).length - (Nat.toDigits 10 r.den).length
  let s := r.shift e
  if s.den ≤ s.num then e else e - 1

/-- Digits and the exponent of the first of them: `d.ddd · 10 ^ exponent`. -/
structure Digits where
  digits : List Char
  exponent : Int
deriving DecidableEq, Repr

/-- The digits of `n` units of the last of `count` places, of which the first has the exponent `e`. A
count of ten to the number of places moves the exponent up. -/
def Digits.ofCount (n count : Nat) (e : Int) : Digits :=
  if n = Nat.pow 10 count then ⟨['1'], e + 1⟩ else ⟨Nat.toDigits 10 n, e⟩

/-- One grid: the multiples of the last of `count` places that neighbour `m`, if they lie between
`low` and `high`. All four are over the denominator `den`, in units of that place. The nearer wins and
a tie goes up. -/
def gridHit (low m high den : Nat) (closed : Bool) : Option Nat :=
  let down := m / den
  let up := down + 1
  let downHit := if closed then low ≤ down * den else low < down * den
  let upHit := if closed then up * den ≤ high else up * den < high
  if downHit ∧ upHit then
    if 2 * (m - down * den) < den then some down else some up
  else if downHit then some down
  else if upHit then some up
  else none

/-- The fewest digits that lie between the neighbours' midpoints, trying one more place at a time. -/
def search (low m high : Ratio) (closed : Bool) (e : Int) : Nat → Nat → Digits
  | 0, count => Digits.ofCount ((m.shift (e - (count : Int) + 1)).num) count e
  | n + 1, count =>
    let place := e - (count : Int) + 1
    let l := low.shift place
    let v := m.shift place
    let h := high.shift place
    match gridHit l.num v.num h.num v.den closed with
    | some k => Digits.ofCount k count e
    | none => search low m high closed e n (count + 1)

/-- The shortest digits of `m · 2 ^ q`. The interval of numbers that read back reaches half a step
to both sides, a quarter step down from the first significand of an exponent, and includes its ends
when `m` is even. -/
def shortest (m : Nat) (q : Int) (first : Bool) : Digits :=
  let low := if first then 4 * m - 1 else 4 * m - 2
  let v := Ratio.scaled (4 * m) 2 (q - 2)
  search (Ratio.scaled low 2 (q - 2)) v (Ratio.scaled (4 * m + 2) 2 (q - 2)) (m % 2 = 0)
    v.magnitude 17 1

structure Style where
  /-- Exponents from which on a number is written with an exponent. -/
  large : Int
  /-- Least exponent of a number that is written without one. -/
  small : Int

/-- Numbers from a ten-thousandth up to ten to the sixteenth are written out, with a fraction. -/
def plain : Style := ⟨16, -4⟩

def Style.text (s : Style) (d : Digits) : String :=
  let n := d.digits.length
  if d.exponent < s.small ∨ s.large ≤ d.exponent then
    let fraction := d.digits.drop 1
    String.ofList (d.digits.take 1) ++
      (if fraction.isEmpty then "" else "." ++ String.ofList fraction) ++ "e" ++ toString d.exponent
  else if d.exponent < 0 then
    "0." ++ String.ofList (List.replicate ((-d.exponent).toNat - 1) '0' ++ d.digits)
  else
    let whole := d.exponent.toNat + 1
    if n ≤ whole then
      String.ofList (d.digits ++ List.replicate (whole - n) '0') ++ ".0"
    else
      String.ofList (d.digits.take whole) ++ "." ++ String.ofList (d.digits.drop whole)

def Format.text (f : Format) (bits : Nat) : String :=
  let signed (negative : Bool) (s : String) : String := if negative then "-" ++ s else s
  match f.decode bits with
  | .nan => "NaN"
  | .infinite negative => signed negative "inf"
  | .finite negative m q first =>
    if m = 0 then signed negative "0.0"
    else signed negative (plain.text (shortest m q first))

end Bytecheck.Decimal
