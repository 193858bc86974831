import Bytecheck.Flow.Graph
import Bytecheck.Frame
import Bytecheck.Settings

/-!
# The Dataflow Analysis

Blocks wait in a queue, the first one at the start of the method. A block is
interpreted from its entry frame, and the frames at its exit and around covered instructions are
merged into the blocks that can follow; those whose entry frame changed are queued again. When the
queue is empty every entry frame is the merge of the frames that flow into it.
-/

namespace Bytecheck

/-- A way to interpret instructions. -/
structure Interpreter where
  step : Nat → Instruction Nat → Frame → Except StepFault Frame
  caught : Handler → VType
  notes : Instruction Nat → Frame → List Log.Entry

inductive BlockState where
  /-- No path to the block was interpreted. -/
  | unvisited
  /-- The entry frame changed since the block was interpreted. -/
  | queued (f : Frame)
  /-- The block was interpreted from this entry frame. -/
  | stable (f : Frame)
deriving DecidableEq

namespace BlockState

def frame? : BlockState → Option Frame
  | .unvisited => none
  | .queued f | .stable f => some f

end BlockState

/-- The frames around each instruction; instructions that are not reached have none. -/
structure Analysis where
  before : List (Option Frame)
  after : List (Option Frame)
  /-- How many times a block was interpreted. -/
  visits : Nat
deriving DecidableEq

namespace Analysis

structure Problem where
  interpreter : Interpreter
  hierarchy : Hierarchy
  graph : FlowGraph
  code : Code

structure State where
  states : List BlockState
  queue : List Nat
  before : List (Option Frame)
  after : List (Option Frame)
deriving DecidableEq

abbrev Run := Traced AnalysisFault

/-- At the start, the first block waits with the entry frame. -/
def initial (p : Problem) (entry : Frame) : State where
  states := (List.replicate p.graph.size .unvisited).set 0 (.queued entry)
  queue := [0]
  before := List.replicate p.code.size none
  after := List.replicate p.code.size none

/-- Merge a frame into the entry frame of a block that starts at the given place: whether it changed,
and what it is now. -/
def mergeEntry (p : Problem) (place : Nat) (old f : Frame) : Run (Bool × Frame) := do
  .note (old.mergeNotes p.hierarchy f)
  let (outcome, new) := old.mergeInto p.hierarchy f
  let changed ← .lift (outcome.mapError (.type place))
  pure (changed, new)

/-- Bring a frame to a block. The block is queued if its entry frame is new or changed, unless it
waits already. A fault is at the first instruction of the block. -/
def propagate (p : Problem) (s : State) (target : Nat) (f : Frame) : Run State :=
  let place := ((p.graph.blocks[target]?).map Block.start).getD 0
  match s.states[target]? with
  | none => pure s
  | some .unvisited =>
    pure { s with states := s.states.set target (.queued f), queue := s.queue ++ [target] }
  | some (.queued old) => do
    let (_, new) ← mergeEntry p place old f
    pure { s with states := s.states.set target (.queued new) }
  | some (.stable old) => do
    let (changed, new) ← mergeEntry p place old f
    if changed then
      pure { s with states := s.states.set target (.queued new), queue := s.queue ++ [target] }
    else pure { s with states := s.states.set target (.stable new) }

/-- The frame on entry to a handler, from a frame around the instruction that threw. -/
def handlerFrame (value : VType) (f : Frame) : Frame := ⟨f.locals, .ofList [value]⟩

/-- The frames that an exception at an instruction can leave: the one before it, and the one after it
if it writes a local. -/
def throwing (i : Instruction Nat) (before after : Frame) : List Frame :=
  if i.writesLocal then [before, after] else [before]

/-- An exception at an instruction, caught by the handler in the given place of the table. -/
def propagateTo (p : Problem) (index : Nat) (i : Instruction Nat) (before after : Frame) (s : State)
    (place : Nat) : Run State :=
  match p.code.handlers[place]? with
  | none => pure s
  | some h =>
    if p.code.maxStack < 1 then .fail (.type index (.stackOverflow p.code.maxStack))
    else
      match p.graph.block? h.entry with
      | none => pure s
      | some target =>
        (throwing i before after).foldlM
          (fun s f => propagate p s target (handlerFrame (p.interpreter.caught h) f)) s

/-- Interpret an instruction: its exceptions are propagated and its frames are recorded. -/
def visitInstruction (p : Problem) (s : State) (f : Frame) (index : Nat) : Run (State × Frame) :=
  match p.code.instructions[index]? with
  | none => pure (s, f)
  | some i => do
    .note (p.interpreter.notes i f)
    let after ← .lift ((p.interpreter.step index i f).mapError (.ofStep index))
    let s ← (p.graph.handlers index).foldlM (propagateTo p index i f after) s
    pure ({ s with before := s.before.set index (some f), after := s.after.set index (some after) },
      after)

/-- Interpret a block from its entry frame and propagate the frame at its exit. -/
def visitBlock (p : Problem) (s : State) (b : Block) (entry : Frame) : Run State := do
  let (s, f) ← (List.range' b.start (b.stop - b.start)).foldlM
    (fun r index => visitInstruction p r.1 r.2 index) (s, entry)
  (b.successors.filter fun e => e.2 = .normal).foldlM (fun s e => propagate p s e.1 f) s

def visitNote (id : Nat) (b : Block) (waiting : Nat) : Log.Entry :=
  let first := b.start
  let stop := b.stop
  ⟨.debug, "Interpreting block " ++ blockText id ++
    s!" (instructions {first}..{stop}, {waiting} queued)"⟩

/-- Interpret the block with the given number, which was just taken from the queue. -/
def visit (p : Problem) (s : State) (id : Nat) : Run State :=
  match p.graph.blocks[id]? with
  | none => .fail (.internal none (.unvisitedBlock id))
  | some b =>
    match (s.states[id]?).bind BlockState.frame? with
    | none => .fail (.internal (some b.start) (.unvisitedBlock id))
    | some entry =>
      if b.stop ≤ b.start then .fail (.internal none (.emptyBlock id))
      else do
        .note [visitNote id b s.queue.length]
        visitBlock p { s with states := s.states.set id (.stable entry) } b entry

/-- Visit blocks in the order of the queue until it is empty; at most `fuel` more visits are
allowed. Returns the last state and the number of visits. -/
def loop (p : Problem) (limit : Nat) : Nat → State → Run (State × Nat)
  | fuel, s =>
    match s.queue with
    | [] => pure (s, 0)
    | id :: rest =>
      match fuel with
      | 0 => .fail (.internal none (.iterationLimit limit))
      | fuel + 1 => do
        let s ← visit p { s with queue := rest } id
        let (s, n) ← loop p limit fuel s
        pure (s, n + 1)

def ceiling (p : Problem) (settings : Settings) : Nat :=
  settings.iterationLimit p.graph.size (p.code.maxStack + p.code.maxLocals)

def doneNote (p : Problem) (visits : Nat) : Log.Entry :=
  let blocks := p.graph.size
  ⟨.debug, s!"Reached a fixed point after {visits} block visits ({blocks} blocks)"⟩

/-- Analyze from an entry frame until nothing changes, or the ceiling is reached. -/
def run (p : Problem) (settings : Settings) (entry : Frame) : Run Analysis := do
  let limit := ceiling p settings
  let (s, visits) ← loop p limit limit (initial p entry)
  .note [doneNote p visits]
  pure ⟨s.before, s.after, visits⟩

end Analysis

end Bytecheck
