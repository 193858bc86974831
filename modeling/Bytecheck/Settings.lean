import Bytecheck.Text.Inspect

/-!
# Settings

What a verification can be told: how long the analysis may go on, and what it logs.
-/

namespace Bytecheck

structure Settings where
  /-- Visits allowed for each block and frame slot. -/
  iterationFactor : Nat
  /-- Whether unreachable code is logged. -/
  logDeadCode : Bool
deriving DecidableEq, Repr

namespace Settings

def standard : Settings := ⟨8, true⟩

instance : Inhabited Settings := ⟨standard⟩

def maxLimit : Nat := Nat.pow 2 64 - 1

/-- The ceiling on block visits, for a number of blocks and of slots in a frame. -/
def iterationLimit (s : Settings) (blocks slots : Nat) : Nat :=
  min (s.iterationFactor * blocks * (slots + 1)) maxLimit

instance : Inspect Settings where
  inspect s :=
    Text.braced "Settings"
      [("iteration_factor", inspect s.iterationFactor), ("log_dead_code", inspect s.logDeadCode)]

end Settings

end Bytecheck
