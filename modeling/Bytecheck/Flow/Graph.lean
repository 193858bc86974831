import Bytecheck.Fault
import Bytecheck.Method

/-!
# Flow Graphs

The flow graph of a method: the code is checked, cut into basic blocks, and the blocks are linked by
the ways control can take. An exception can happen within a block, so each instruction keeps the
handlers that cover it.
-/

namespace Bytecheck

/-- How control gets from one block to another. -/
inductive EdgeKind where
  /-- By going on, a jump or a switch. -/
  | normal
  /-- By an exception in a covered instruction. -/
  | exception
deriving DecidableEq, Repr

/-- An edge as seen from one end: the block at the other end, and the kind. -/
abbrev Edge := Nat × EdgeKind

/-- A run of instructions that is entered at its first and left at its last only, or by an
exception. -/
structure Block where
  start : Nat
  /-- The first instruction after the block. -/
  stop : Nat
  successors : List Edge
  predecessors : List Edge
deriving DecidableEq

/-- The flow graph of a method. Blocks are numbered in the order of the code, so block 0 is where the
method starts. -/
structure FlowGraph where
  blocks : List Block
  /-- The block of each instruction. -/
  blockOf : List Nat
  /-- The handlers that cover each instruction, by their place in the exception table. -/
  handlersAt : List (List Nat)
  /-- Whether each block can be reached from the start. -/
  reachable : List Bool

namespace Flow

section Checks

/-- The fault of an instruction that no flow graph can have. -/
def instructionFault (c : Code) (index : Nat) : Instruction Nat → Option CodeFault
  | .branch b =>
    if b.isSubroutine then some (.subroutine index)
    else (b.targets.find? fun t => c.size ≤ t).map (.invalidJumpTarget index)
  | .op o =>
    match o.localAccess with
    | some (slot, slots) =>
      if c.maxLocals < slot + slots then some (.localOutOfRange index slot c.maxLocals) else none
    | none => none

def handlerFault (c : Code) (entry : Nat) (h : Handler) : Option CodeFault :=
  if h.stop ≤ h.start ∨ c.size < h.stop then some (.invalidExceptionRange entry h.start h.stop)
  else if c.size ≤ h.entry then some (.invalidHandlerTarget entry h.entry)
  else none

/-- The fault of a last instruction that may go on. -/
def endFault (c : Code) : Option CodeFault :=
  match c.instructions.getLast? with
  | none => some .emptyCode
  | some i => if i.fallsThrough then some (.fallsOffEnd (c.size - 1)) else none

/-- The first fault of the code: of an instruction, then of the end, then of the exception table. -/
def firstFault (c : Code) : Option CodeFault :=
  (c.instructions.zipIdx.findSome? fun p => instructionFault c p.2 p.1) <|>
    endFault c <|>
    (c.handlers.zipIdx.findSome? fun p => handlerFault c p.2 p.1)

end Checks

section Blocks

/-- Where a block has to start, if code is there: at the first instruction, at targets, after
branches, and where handling begins. -/
def marks (c : Code) : List Nat :=
  0 :: (c.instructions.zipIdx.flatMap fun p =>
    p.1.targets ++ if p.1.isBranch then [p.2 + 1] else []) ++ c.handlers.map Handler.entry

/-- The instructions that blocks start at, in order. -/
def leaders (c : Code) : List Nat :=
  let places := marks c
  (List.range c.size).filter places.contains

/-- The first and the end of each block: a block ends where the next one starts. -/
def ranges (c : Code) : List (Nat × Nat) :=
  let starts := leaders c
  starts.zip (starts.drop 1 ++ [c.size])

/-- The block of an instruction: the last one that starts at it or before. -/
def blockAt (starts : List Nat) (index : Nat) : Nat := (starts.filter (· ≤ index)).length - 1

/-- The handlers that cover an instruction, by their place in the table. -/
def covering (c : Code) (index : Nat) : List Nat :=
  (c.handlers.zipIdx.filter fun p => p.1.covers index).map Prod.snd

/-- The instructions that may follow the last instruction of a block by normal control, the next one
first. -/
def exits (c : Code) (stop : Nat) : List Nat :=
  match c.instructions[stop - 1]? with
  | none => []
  | some i => (if i.fallsThrough && stop < c.size then [stop] else []) ++ i.targets

/-- Where handling begins for the handlers that cover the instructions of a block. -/
def handlerEntries (c : Code) (start stop : Nat) : List Nat :=
  (List.range' start (stop - start)).flatMap fun index =>
    (c.handlers.filter fun h => h.covers index).map Handler.entry

/-- The edges out of a block, each once: normal ones first. -/
def successors (c : Code) (starts : List Nat) (start stop : Nat) : List Edge :=
  ((exits c stop).map (fun t => (blockAt starts t, EdgeKind.normal)) ++
    (handlerEntries c start stop).map fun t => (blockAt starts t, EdgeKind.exception)).eraseDups

/-- The edges into a block, given the edges out of all blocks. -/
def predecessors (edges : List (List Edge)) (block : Nat) : List Edge :=
  edges.zipIdx.flatMap fun p =>
    (p.1.filter fun e => e.1 = block).map fun e => (p.2, e.2)

end Blocks

def graphOf (c : Code) : FlowGraph :=
  let starts := leaders c
  let bounds := ranges c
  let edges := bounds.map fun r => successors c starts r.1 r.2
  let next (block : Nat) : List Nat := ((edges[block]?).getD []).map Prod.fst
  let reached := Reach.closure next bounds.length 0
  { blocks := (bounds.zip edges).zipIdx.map fun p =>
      ⟨p.1.1.1, p.1.1.2, p.1.2, predecessors edges p.2⟩
    blockOf := (List.range c.size).map (blockAt starts)
    handlersAt := (List.range c.size).map (covering c)
    reachable := (List.range bounds.length).map reached.contains }

end Flow

namespace FlowGraph

/-- The flow graph of code, or its first fault. -/
def build (c : Code) : Except CodeFault FlowGraph :=
  match Flow.firstFault c with
  | some f => .error f
  | none => .ok (Flow.graphOf c)

def size (g : FlowGraph) : Nat := g.blocks.length

def block? (g : FlowGraph) (index : Nat) : Option Nat := g.blockOf[index]?

def handlers (g : FlowGraph) (index : Nat) : List Nat := (g.handlersAt[index]?).getD []

/-- The instructions of the blocks that cannot be reached. -/
def deadCode (g : FlowGraph) : List (Nat × Nat) :=
  ((g.blocks.zip g.reachable).filter fun p => !p.2).map fun p => (p.1.start, p.1.stop)

def note (g : FlowGraph) (c : Code) : Log.Entry :=
  let blocks := g.size
  let count := c.size
  ⟨.debug, s!"Built control flow graph with {blocks} blocks for {count} instructions"⟩

end FlowGraph

end Bytecheck
