import Bytecheck.Fault
import Bytecheck.Method

/-!
# Frames

What is known about the local variables and the operand stack at a point of the code. Locals
are slots, so a wide value is followed by `top`; the stack holds one entry a value.
-/

namespace Bytecheck

abbrev Stack := SlotVec VType

structure Frame where
  locals : List VType
  stack : Stack
deriving DecidableEq

namespace Frame

/-- All locals unset and nothing on the stack. -/
def unset (maxLocals : Nat) : Frame := ⟨List.replicate maxLocals .top, .empty⟩

def depth (f : Frame) : Nat := f.stack.height

/-- The slots of a value: a wide one is followed by `top`. -/
def slotsOf (t : VType) : List VType := t :: List.replicate (width t - 1) .top

/-- The receiver of a method on entry. In a constructor it is uninitialized, unless there is nothing
to set up. -/
def receiver (m : Method) : VType := if m.mustInitialize then .uninitThis else .ofClass m.owner

def arguments (m : Method) : List VType :=
  (if m.hasReceiver then [receiver m] else []) ++ m.descriptor.parameters.map VType.ofField

/-- The frame on entry to a method: the arguments fill the first locals. -/
def entry (m : Method) (maxLocals : Nat) : Except CodeFault Frame :=
  let required := m.descriptor.argumentSlots m.hasReceiver
  if maxLocals < required then .error (.argumentsExceedLocals required maxLocals)
  else
    let slots := (arguments m).flatMap slotsOf
    .ok ⟨slots ++ List.replicate (maxLocals - required) .top, .empty⟩

def get (f : Frame) (slot : Nat) : Except InternalFault VType :=
  match f.locals[slot]? with
  | some t => .ok t
  | none => .error (.localOutOfRange slot f.locals.length)

/-- Whether a slot holds the first half of a wide value. -/
def isWideAt (locals : List VType) (slot : Nat) : Bool :=
  match locals[slot]? with
  | some t => width t = 2
  | none => false

def unsetIf (c : Bool) (slot : Nat) (locals : List VType) : List VType :=
  if c then locals.set slot .top else locals

/-- Write a value to a slot. A wide value takes the next slot too. A wide value that loses one of its
halves loses the other. -/
def write (locals : List VType) (slot : Nat) (t : VType) : List VType :=
  let cleared := unsetIf (0 < slot && isWideAt locals (slot - 1)) (slot - 1) locals
  if width t = 2 then
    let cleared := unsetIf (isWideAt cleared (slot + 1)) (slot + 2) cleared
    (cleared.set slot t).set (slot + 1) .top
  else
    let cleared := unsetIf (isWideAt cleared slot) (slot + 1) cleared
    cleared.set slot t

/-- What there is to go on with after an operation in place: the frame, unless there was a fault. -/
def proceed {ε α : Type} (r : Except ε α × Frame) : Except ε Frame := r.1.map fun _ => r.2

/-- Set a local variable in place: the outcome, and what the frame is afterwards. All slots of the
value must be within the frame, and a fault leaves it as it was. Slots are operands of instructions
and far below what a machine word holds, so their sums need no bounds. -/
def setInto (f : Frame) (slot : Nat) (t : VType) : Except InternalFault Unit × Frame :=
  if f.locals.length < slot + width t then
    (.error (.localOutOfRange (slot + width t - 1) f.locals.length), f)
  else (.ok (), { f with locals := write f.locals slot t })

def set (f : Frame) (slot : Nat) (t : VType) : Except InternalFault Frame :=
  proceed (f.setInto slot t)

def replace (f : Frame) (old new : VType) : Frame :=
  let change (t : VType) : VType := if t = old then new else t
  ⟨f.locals.map change, f.stack.map change⟩

def any (f : Frame) (p : VType → Bool) : Bool := f.stack.toList.any p || f.locals.any p

/-- Frames are the same when their locals and stack entries are. -/
def same (f g : Frame) : Bool := f.stack.same g.stack && f.locals = g.locals

/-- Join stack values from the bottom up; a pair without a common type is a fault at its offset. -/
def joinStack (h : Hierarchy) : List (Nat × VType) → List VType → Except TypeFault (List VType)
  | (offset, t) :: ts, u :: us =>
    match t.join h u with
    | .bottom => .error (.incompatibleMerge offset t u)
    | joined => (joinStack h ts us).map (joined :: ·)
  | _, _ => .ok []

/-- The join of two locals; what cannot be reconciled is unset. -/
def joinLocal (h : Hierarchy) (t u : VType) : VType :=
  match t.join h u with
  | .bottom => .top
  | joined => joined

/-- Whether two stacks have as many values and as many slots. -/
def sameShape (f g : Frame) : Bool := f.stack.size = g.stack.size && f.depth = g.depth

/-- Merge another frame into a frame in place, where two paths meet: whether the frame changed, and
what it is afterwards. A fault leaves it as it was. -/
def mergeInto (h : Hierarchy) (f g : Frame) : Except TypeFault Bool × Frame :=
  if f.sameShape g then
    match joinStack h f.stack.entries.reverse g.stack.toList with
    | .error e => (.error e, f)
    | .ok stack =>
      let m : Frame := ⟨List.zipWith (joinLocal h) f.locals g.locals, .ofList stack⟩
      (.ok (!m.same f), m)
  else (.error (.mismatchedHeights f.depth g.depth), f)

def merge (h : Hierarchy) (f g : Frame) : Except TypeFault Frame := proceed (f.mergeInto h g)

/-- The log records of joining stack values, up to the first pair without a common type. -/
def joinStackNotes (h : Hierarchy) : List VType → List VType → List Log.Entry
  | t :: ts, u :: us =>
    t.joinNotes h u ++ if t.join h u = .bottom then [] else joinStackNotes h ts us
  | _, _ => []

def mergeNotes (h : Hierarchy) (f g : Frame) : List Log.Entry :=
  if f.sameShape g then
    joinStackNotes h f.stack.toList g.stack.toList ++
      match joinStack h f.stack.entries.reverse g.stack.toList with
      | .ok _ => (List.zipWith (VType.joinNotes h) f.locals g.locals).flatten
      | .error _ => []
  else []

instance : Inspect Frame where
  inspect f := Text.braced "Frame" [("locals", inspect f.locals), ("stack", inspect f.stack)]

def listing (f : Frame) : String :=
  let texts (ts : List VType) : String := Text.bracketed (ts.map VType.render)
  "locals=" ++ texts f.locals ++ " stack=" ++ texts f.stack.toList

section View

theorem set_eq (f : Frame) (slot : Nat) (t : VType) :
    f.set slot t =
      if f.locals.length < slot + width t then
        .error (.localOutOfRange (slot + width t - 1) f.locals.length)
      else .ok { f with locals := write f.locals slot t } := by
  unfold set setInto
  split <;> rfl

theorem merge_eq (h : Hierarchy) (f g : Frame) :
    f.merge h g =
      if f.sameShape g then do
        let stack ← joinStack h f.stack.entries.reverse g.stack.toList
        .ok ⟨List.zipWith (joinLocal h) f.locals g.locals, .ofList stack⟩
      else .error (.mismatchedHeights f.depth g.depth) := by
  unfold merge mergeInto
  split
  · cases joinStack h f.stack.entries.reverse g.stack.toList <;> rfl
  · rfl

/-- A merge in place, in terms of what there is to go on with. -/
theorem mergeInto_eq (h : Hierarchy) (f g : Frame) :
    f.mergeInto h g =
      match f.merge h g with
      | .ok m => (.ok (!m.same f), m)
      | .error e => (.error e, f) := by
  unfold merge mergeInto
  split
  · cases joinStack h f.stack.entries.reverse g.stack.toList <;> rfl
  · rfl

theorem same_eq_true_iff {f g : Frame} :
    f.same g = true ↔ f.stack.entries = g.stack.entries ∧ f.locals = g.locals := by
  simp [same, SlotVec.same]

end View

end Frame

end Bytecheck
