import Bytecheck.Analysis
import Bytecheck.LineTable
import Bytecheck.Transfer.Notes

/-!
# Verification

Verification of a method: the flow graph is built, the entry frame is made, and the analysis is run.
A fault is traced to a source line.
-/

namespace Bytecheck

structure Verified where
  /-- The frame before each instruction, none if it is dead. -/
  before : List (Option Frame)
  /-- The frame after each instruction, none if it is dead. -/
  after : List (Option Frame)
  /-- First and end of each run of instructions that cannot be reached. -/
  deadCode : List (Nat × Nat)
deriving DecidableEq

namespace Verified

def frame? (v : Verified) (index : Nat) : Option Frame := (v.before[index]?).join

def frameAfter? (v : Verified) (index : Nat) : Option Frame := (v.after[index]?).join

def depths (v : Verified) : List (Option Nat) := v.before.map (Option.map Frame.depth)

/-- The greatest height that the stack has anywhere. -/
def maxDepth (v : Verified) : Nat :=
  ((v.before ++ v.after).filterMap id).foldl (fun m f => max m f.depth) 0

def isDead (v : Verified) (index : Nat) : Bool :=
  v.deadCode.any fun r => r.1 ≤ index && index < r.2

end Verified

/-- A method as a class file gives it. -/
structure RawCode where
  bytes : List UInt8
  maxStack : Nat
  maxLocals : Nat
  handlers : List RawHandler
  /-- Offsets and lines. -/
  lines : List (Nat × Nat)

namespace Transfer

def interpreter (c : Context) : Interpreter := ⟨step c, caught, notes c⟩

end Transfer

namespace Verify

/-- The graph of the code, and its log record. -/
def buildGraph (code : Code) : Traced AnalysisFault FlowGraph := do
  let g ← .lift ((FlowGraph.build code).mapError .structural)
  .note [g.note code]
  return g

/-- Build the graph, make the entry frame, and run the analysis. -/
def analyze (i : Interpreter) (h : Hierarchy) (settings : Settings) (m : Method) (code : Code) :
    Traced AnalysisFault (FlowGraph × Analysis) := do
  let g ← buildGraph code
  let entry ← .lift ((Frame.entry m code.maxLocals).mapError .structural)
  let a ← Analysis.run ⟨i, h, g, code⟩ settings entry
  return (g, a)

def deadNotes (m : Method) (dead : List (Nat × Nat)) : List Log.Entry :=
  dead.map fun r =>
    ⟨.warn, "Dead code in " ++ m.owner.text ++ "." ++ m.name.text ++ ": instructions " ++
      inspect r.1 ++ ".." ++ inspect r.2⟩

def failureNote (m : Method) (f : Failure) : Log.Entry :=
  ⟨.debug, "Failed to verify " ++ m.owner.text ++ "." ++ m.name.text ++ ": " ++ f.message⟩

/-- Verify with an interpreter, up to the source line. -/
def verified (i : Interpreter) (h : Hierarchy) (settings : Settings) (m : Method) (code : Code) :
    Traced AnalysisFault Verified := do
  let (g, a) ← analyze i h settings m code
  if settings.logDeadCode then .note (deadNotes m g.deadCode)
  return ⟨a.before, a.after, g.deadCode⟩

def withInterpreter (i : Interpreter) (h : Hierarchy) (settings : Settings) (m : Method)
    (code : Code) (lineOf? : Nat → Option Nat) : Traced Failure Verified :=
  let run := verified i h settings m code
  match run.outcome with
  | .ok v => ⟨run.log, .ok v⟩
  | .error cause =>
    let failure : Failure := ⟨cause, cause.instruction.bind lineOf?⟩
    ⟨run.log ++ [failureNote m failure], .error failure⟩

def method (h : Hierarchy) (settings : Settings) (m : Method) (code : Code)
    (lineOf? : Nat → Option Nat) : Traced Failure Verified :=
  withInterpreter (Transfer.interpreter ⟨h, m, code.maxStack⟩) h settings m code lineOf?

/-- Decode a method and verify it. A fault in decoding has no line. -/
def bytes (h : Hierarchy) (settings : Settings) (m : Method) (raw : RawCode) (pool : ConstantPool) :
    Traced Failure Verified := do
  let malformed (f : CodeFault) : Failure := ⟨.structural f, none⟩
  let d ← .lift ((DecodedCode.ofBytes pool raw.bytes).mapError malformed)
  .note (LineTable.dropNotes raw.lines d)
  let code ← .lift ((d.toCode pool raw.maxStack raw.maxLocals raw.handlers).mapError malformed)
  method h settings m code (LineTable.ofOffsets raw.lines d).lineOf?

end Verify

end Bytecheck
