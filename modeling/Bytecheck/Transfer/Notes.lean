import Bytecheck.Transfer.Step

/-!
# Log Records of Calls

The log records of interpreting an instruction: a call whose arguments or receiver do not fit is
reported in detail.
-/

namespace Bytecheck.Transfer

/-- The record of a value that does not fit a call. -/
def misfit (what : String) (found expected : VType) (d : MethodDescriptor) : Log.Entry :=
  ⟨.error, what ++ ": found " ++ found.render ++ " but expected " ++ expected.render ++ " (for " ++
    d.render ++ ")"⟩

def callNotes (h : Hierarchy) (k : InvokeKind) (m : MethodRef) (s : Stack) : List Log.Entry :=
  match s.popArguments h m.descriptor.parameters with
  | .error (.incompatible found expected) =>
    [misfit "Incompatible argument types" found expected m.descriptor]
  | .error _ => []
  | .ok s =>
    if isInit k m ∨ k = .static ∨ ¬ callFits k m.onInterface then []
    else
      match s.popAssignable h (.object m.owner) with
      | .error (.incompatible found expected) =>
        [misfit "Incompatible receiver" found expected m.descriptor]
      | _ => []

def notes (c : Context) (i : Instruction Nat) (f : Frame) : List Log.Entry :=
  match i with
  | .op (.invoke k m) => callNotes c.hierarchy k m f.stack
  | _ => []

end Bytecheck.Transfer
