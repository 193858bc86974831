import Bytecheck.Analysis
import Bytecheck.Transfer.Stack

/-!
# Scripted Interpreters

Scripted interpreters: each instruction does what a script lists for it, whatever the instruction
is. They drive the analysis through frames that no code would give.
-/

namespace Bytecheck.Script

/-- One thing that a scripted instruction does. -/
inductive Action where
  | push (t : VType)
  | pop
  /-- Look at a local variable. -/
  | look (slot : Nat)
  | set (slot : Nat) (t : VType)
  | failType (f : TypeFault)
  | failInternal (f : InternalFault)
deriving DecidableEq

def act (f : Frame) : Action → Except StepFault Frame
  | .push t => .ok { f with stack := f.stack.push t }
  | .pop => do
    let (_, s) ← f.stack.pop.mapError .type
    .ok { f with stack := s }
  | .look slot => do
    let _ ← (f.get slot).mapError .internal
    .ok f
  | .set slot t => (f.set slot t).mapError .internal
  | .failType e => .error (.type e)
  | .failInternal e => .error (.internal e)

/-- The interpreter of a script; every exception has the given type. -/
def interpreter (script : Nat → List Action) (exception : VType) : Interpreter where
  step index _ f := (script index).foldlM act f
  caught _ := exception
  notes _ _ := []

end Bytecheck.Script
