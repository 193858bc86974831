/-!
# Byte Readers

A reader is a tree that asks for one byte after another, so what it returns depends on the bytes it
took and on nothing behind them, and it fails for want of bytes exactly when they end before it is
done.
-/

namespace Bytecheck.Decode

/-- A reader that fails with `ε` or returns `α`. -/
inductive Reader (ε α : Type) where
  | done (a : α)
  | fail (e : ε)
  | byte (next : UInt8 → Reader ε α)

namespace Reader

variable {ε α β : Type}

def bind : Reader ε α → (α → Reader ε β) → Reader ε β
  | .done a, f => f a
  | .fail e, _ => .fail e
  | .byte next, f => .byte fun b => (next b).bind f

instance : Monad (Reader ε) where
  pure := .done
  bind := bind

/-- Read from the front of some bytes and return the rest; `short` is the failure when they end too
early. -/
def run (short : ε) : Reader ε α → List UInt8 → Except ε (α × List UInt8)
  | .done a, bytes => .ok (a, bytes)
  | .fail e, _ => .error e
  | .byte _, [] => .error short
  | .byte next, b :: bytes => (next b).run short bytes

def u1 : Reader ε Nat := .byte fun b => .done b.toNat

/-- Two bytes, the more significant one first. -/
def u2 : Reader ε Nat := do
  let a ← u1
  let b ← u1
  return a * 256 + b

/-- Four bytes, the most significant one first. -/
def u4 : Reader ε Nat := do
  let a ← u2
  let b ← u2
  return a * 65536 + b

/-- A number below `2 ^ bits` as a two's complement. -/
def signed (bits n : Nat) : Int :=
  if n < Nat.pow 2 (bits - 1) then n else (n : Int) - Nat.pow 2 bits

def s1 : Reader ε Int := return signed 8 (← u1)
def s2 : Reader ε Int := return signed 16 (← u2)
def s4 : Reader ε Int := return signed 32 (← u4)

def skip : Nat → Reader ε Unit
  | 0 => .done ()
  | n + 1 => .byte fun _ => skip n

def times (r : Reader ε α) : Nat → Reader ε (List α)
  | 0 => .done []
  | n + 1 => do
    let a ← r
    let as ← times r n
    return a :: as

/-- A value that may be missing. -/
def orFail (e : ε) : Option α → Reader ε α
  | some a => .done a
  | none => .fail e

/-- What is left is the end of what was there. -/
theorem suffix_of_run {short : ε} {r : Reader ε α} {bytes rest : List UInt8} {a : α}
    (h : r.run short bytes = .ok (a, rest)) : rest <:+ bytes := by
  induction r generalizing bytes with
  | done b =>
    simp only [run, Except.ok.injEq, Prod.mk.injEq] at h
    exact h.2 ▸ List.suffix_refl _
  | fail e => simp [run] at h
  | byte next ih =>
    cases bytes with
    | nil => simp [run] at h
    | cons b bytes => exact (ih b h).trans (List.suffix_cons b bytes)

end Reader

end Bytecheck.Decode
