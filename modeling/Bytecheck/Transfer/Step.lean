import Bytecheck.Transfer.Stack

/-!
# Transfer: the Effect of an Instruction

The effect of an instruction on a frame. Most instructions see the operand stack alone; only loads
and stores of locals, `new`, calls of constructors and returns look at the rest of the frame.
-/

namespace Bytecheck

def Num.vtype : Num → VType
  | .int => .int
  | .long => .long
  | .float => .float
  | .double => .double

namespace Conversion

def source : Conversion → Num
  | .i2l | .i2f | .i2d | .i2b | .i2c | .i2s => .int
  | .l2i | .l2f | .l2d => .long
  | .f2i | .f2l | .f2d => .float
  | .d2i | .d2l | .d2f => .double

def target : Conversion → Num
  | .l2i | .f2i | .d2i | .i2b | .i2c | .i2s => .int
  | .i2l | .f2l | .d2l => .long
  | .i2f | .l2f | .d2f => .float
  | .i2d | .l2d | .f2d => .double

end Conversion

namespace Calc

/-- The operands, the top one first. -/
def operands : Calc → List Num
  | .iconst _ | .lconst _ | .fconst _ | .dconst _ | .bipush _ | .sipush _ => []
  | .arith _ n => [n, n]
  | .neg n => [n]
  | .ishift _ | .ibits _ => [.int, .int]
  | .lshift _ => [.int, .long]
  | .lbits _ | .lcmp => [.long, .long]
  | .convert c => [c.source]
  | .fcmp _ => [.float, .float]
  | .dcmp _ => [.double, .double]

def result : Calc → Num
  | .iconst _ | .bipush _ | .sipush _ | .ishift _ | .ibits _ | .lcmp | .fcmp _ | .dcmp _ => .int
  | .lconst _ | .lshift _ | .lbits _ => .long
  | .fconst _ => .float
  | .dconst _ => .double
  | .arith _ n => n
  | .neg n => n
  | .convert c => c.target

end Calc

def Constant.vtype : Constant → VType
  | .string _ => .ofClass .string
  | .cls _ => .ofClass .classOfClass
  | .int _ => .int
  | .float _ => .float
  | .long _ => .long
  | .double _ => .double
  | .methodHandle _ _ _ => .ofClass .methodHandle
  | .methodType _ => .ofClass .methodType
  | .dynamic _ t => .ofField t

namespace Transfer

structure Context where
  hierarchy : Hierarchy
  method : Method
  maxStack : Nat

/-- The elements of an array instruction that holds primitive values: the element type, others that
it stands for, and the type of the value on the stack. -/
def primitives : ElementKind → Option (BaseType × List BaseType × VType)
  | .int => some (.int, [], .int)
  | .long => some (.long, [], .long)
  | .float => some (.float, [], .float)
  | .double => some (.double, [], .double)
  | .byte => some (.byte, [.boolean], .int)
  | .char => some (.char, [], .int)
  | .short => some (.short, [], .int)
  | .ref => none

/-- Take an index and an array, put an element. -/
def arrayLoad (k : ElementKind) (s : Stack) : Except TypeFault Stack := do
  let s ← s.popExact .int
  match primitives k with
  | some (first, others, value) =>
    let s ← s.popPrimitives first others
    .ok (s.push value)
  | none =>
    let (element, s) ← s.popReferences
    .ok (s.push (element.elim .null .object))

/-- Take a value, an index and an array that may hold the value. -/
def arrayStore (h : Hierarchy) (k : ElementKind) (s : Stack) : Except TypeFault Stack :=
  match primitives k with
  | some (first, others, value) => do
    let s ← s.popExact value
    let s ← s.popExact .int
    s.popPrimitives first others
  | none => do
    let (value, s) ← s.popInitialized
    let s ← s.popExact .int
    let (element, s) ← s.popReferences
    match element with
    | none => .ok s
    | some e =>
      if value.isAssignable h (.object e) then .ok s else .error (.incompatible value (.object e))

def loadConstant (slots : Nat) (c : Constant) (s : Stack) : Except TypeFault Stack :=
  if width c.vtype = slots then .ok (s.push c.vtype) else .error (.invalidWidth (width c.vtype))

/-- Put the result of a call, if it has one. -/
def pushResult (s : Stack) : Option FieldType → Stack
  | none => s
  | some t => s.push (.ofField t)

/-- The receiver of a field store. A constructor may set fields of its own class before it called
another constructor. -/
def popFieldOwner (c : Context) (f : FieldRef) (s : Stack) : Except TypeFault Stack :=
  if c.method.isConstructor ∧ f.owner = c.method.owner ∧ s.top? = some .uninitThis then do
    let (_, s) ← s.pop
    .ok s
  else s.popAssignable c.hierarchy (.ofClass f.owner)

/-- Whether a way to call a method fits its being on an interface or not. -/
def callFits : InvokeKind → Bool → Bool
  | .static, _ | .special, _ => true
  | .virtual, onInterface => !onInterface
  | .interface _, onInterface => onInterface

def call (h : Hierarchy) (k : InvokeKind) (m : MethodRef) (s : Stack) : Except TypeFault Stack := do
  let s ← s.popArguments h m.descriptor.parameters
  if ¬ callFits k m.onInterface then throw .interfaceMismatch
  let s ← if k = .static then pure s else s.popAssignable h (.object m.owner)
  return pushResult s m.descriptor.returns

def isInit (k : InvokeKind) (m : MethodRef) : Bool := k = .special && m.name = .init

/-- The effect on the stack of an operation that sees the stack alone; loads and stores of locals,
`new` and constructor calls have none here. -/
def stackEffect (c : Context) (o : Op) (s : Stack) : Except TypeFault Stack :=
  match o with
  | .aconstNull => .ok (s.push .null)
  | .calc f => do
    let s ← s.popAll (f.operands.map Num.vtype)
    .ok (s.push f.result.vtype)
  | .ldc k => loadConstant 1 k s
  | .ldc2 k => loadConstant 2 k s
  | .arrayLoad k => arrayLoad k s
  | .arrayStore k => arrayStore c.hierarchy k s
  | .stack f => s.shuffle f
  | .getStatic f => .ok (s.push (.ofField f.type))
  | .putStatic f => s.popAssignable c.hierarchy (.ofField f.type)
  | .getField f => do
    let s ← s.popAssignable c.hierarchy (.ofClass f.owner)
    .ok (s.push (.ofField f.type))
  | .putField f => do
    let s ← s.popAssignable c.hierarchy (.ofField f.type)
    popFieldOwner c f s
  | .invoke k m => call c.hierarchy k m s
  | .invokeDynamic d => do
    let s ← s.popArguments c.hierarchy d.descriptor.parameters
    .ok (pushResult s d.descriptor.returns)
  | .newArray b => do
    let s ← s.popExact .int
    .ok (s.push (.object (.primitiveArray 0 b)))
  | .anewArray r => do
    let s ← s.popExact .int
    .ok (s.push (.object (.arrayOf (.ref r))))
  | .multiANewArray r dims =>
    if dims = 0 ∨ r.dimensions < dims then .error (.invalidDimensions dims)
    else do
      let s ← s.popAll (List.replicate dims .int)
      .ok (s.push (.object r))
  | .arrayLength => do
    let (t, s) ← s.pop
    match t with
    | .null => .ok (s.push .int)
    | .object r => if r.isArray then .ok (s.push .int) else .error (.notArray t)
    | _ => .error (.notArray t)
  | .checkCast r => do
    let (_, s) ← s.popInitialized
    .ok (s.push (.object r))
  | .instanceOf _ => do
    let (_, s) ← s.popInitialized
    .ok (s.push .int)
  | .monitorEnter | .monitorExit => do
    let (_, s) ← s.popInitialized
    .ok s
  | .nop | .load _ _ | .store _ _ | .iinc _ _ | .new _ => .ok s

/-- The value of a local variable that must be set. -/
def readLocal (f : Frame) (slot : Nat) : Except StepFault VType := do
  let t ← (f.get slot).mapError .internal
  if t = .top then .error (.type (.unsetLocal slot)) else .ok t

/-- The value of a local variable that must have the given type. -/
def readExact (f : Frame) (slot : Nat) (expected : VType) : Except StepFault VType := do
  let t ← readLocal f slot
  if t = expected then .ok t else .error (.type (.incompatible t expected))

/-- The value that a load puts on the stack. -/
def loaded (f : Frame) (k : Kind) (slot : Nat) : Except StepFault VType :=
  match k with
  | .num n => readExact f slot n.vtype
  | .ref => do
    let t ← readLocal f slot
    if t.isReference then .ok t else .error (.type (.notReference t))

/-- The value that a store takes from the stack. -/
def stored (k : Kind) (s : Stack) : Except TypeFault (VType × Stack) :=
  match k with
  | .num n => (s.popExact n.vtype).map fun s => (n.vtype, s)
  | .ref => s.popReference

/-- What an uninitialized receiver becomes when a constructor of the given owner returns. -/
def initialized (c : Context) (owner : RefType) (receiver : VType) : Except TypeFault VType :=
  match receiver with
  | .uninitThis =>
    let parent := (c.hierarchy.superclass c.method.owner).getD .object
    if owner = .object c.method.owner ∨ owner = .object parent then .ok (.ofClass c.method.owner)
    else .error (.wrongConstructor owner receiver)
  | .uninit r _ =>
    if r = owner then .ok (.object r) else .error (.wrongConstructor owner receiver)
  | _ => .error (.wrongConstructor owner receiver)

/-- A constructor call: every copy of the receiver becomes initialized. -/
def construct (c : Context) (m : MethodRef) (f : Frame) : Except TypeFault Frame := do
  let s ← f.stack.popArguments c.hierarchy m.descriptor.parameters
  if m.onInterface then throw .interfaceMismatch
  if m.descriptor.returns.isSome then throw (.returnMismatch none)
  let (receiver, s) ← s.pop
  let object ← initialized c m.owner receiver
  return Frame.replace { f with stack := s } receiver object

/-- The effect of an operation at the given index. -/
def stepOp (c : Context) (index : Nat) (o : Op) (f : Frame) : Except StepFault Frame :=
  match o with
  | .load k slot => do
    let t ← loaded f k slot
    .ok { f with stack := f.stack.push t }
  | .store k slot => do
    let (t, s) ← (stored k f.stack).mapError .type
    (Frame.set { f with stack := s } slot t).mapError .internal
  | .iinc slot _ => do
    let _ ← readExact f slot .int
    .ok f
  | .new r =>
    if r.isArray then .error (.type (.notClass r))
    else if f.any (VType.isUninitFrom index) then .error (.type (.staleUninitialized index))
    else .ok { f with stack := f.stack.push (.uninit r index) }
  | .invoke k m =>
    if isInit k m then (construct c m f).mapError .type
    else do
      let s ← (stackEffect c o f.stack).mapError .type
      .ok { f with stack := s }
  | _ => do
    let s ← (stackEffect c o f.stack).mapError .type
    .ok { f with stack := s }

def returnFits (k : Option Kind) (expected : Option VType) : Bool :=
  match k, expected with
  | none, none => true
  | some .ref, some (.object _) => true
  | some (.num n), some t => t = n.vtype
  | _, _ => false

def returnEffect (c : Context) (k : Option Kind) (s : Stack) : Except TypeFault Stack :=
  let returns := c.method.descriptor.returns
  if returnFits k (returns.map VType.ofField) then
    match returns with
    | none => .ok s
    | some t => s.popAssignable c.hierarchy (.ofField t)
  else .error (.returnMismatch returns)

/-- The effect on the stack of a throw: only the exception is left. -/
def throwEffect (h : Hierarchy) (s : Stack) : Except TypeFault Stack := do
  let (t, _) ← s.pop
  match t with
  | .null => .ok (.ofList [t])
  | .object (.object e) =>
    if h.isSubtype e .throwable then .ok (.ofList [t]) else .error (.notThrowable t)
  | _ => .error (.notThrowable t)

/-- Whether a constructor may return: no local holds an uninitialized receiver. -/
def returnAllowed (m : Method) (f : Frame) : Bool :=
  !(m.mustInitialize && f.locals.contains .uninitThis)

def stepBranch (c : Context) (b : Branch Nat) (f : Frame) : Except StepFault Frame :=
  let onStack (s : Except TypeFault Stack) : Except StepFault Frame :=
    (s.mapError .type).map fun s => { f with stack := s }
  match b with
  | .ifZero _ _ | .tableSwitch _ _ _ | .lookupSwitch _ _ => onStack (f.stack.popExact .int)
  | .ifInt _ _ => onStack (f.stack.popAll [.int, .int])
  | .ifRef _ _ => onStack do
    let (_, s) ← f.stack.popReference
    let (_, s) ← s.popReference
    .ok s
  | .ifNull _ _ => onStack ((f.stack.popReference).map Prod.snd)
  | .goto _ => .ok f
  | .leave k =>
    if returnAllowed c.method f then onStack (returnEffect c k f.stack)
    else .error (.type .returnBeforeInit)
  | .athrow => onStack (throwEffect c.hierarchy f.stack)
  | .jsr _ | .ret _ => .error (.internal .unexpectedSubroutine)

/-- The effect of an instruction before the limit of the stack is looked at. -/
def effect (c : Context) (index : Nat) (i : Instruction Nat) (f : Frame) : Except StepFault Frame :=
  match i with
  | .op o => stepOp c index o f
  | .branch b => stepBranch c b f

/-- The frame after an instruction. The stack may not exceed its limit. -/
def step (c : Context) (index : Nat) (i : Instruction Nat) (f : Frame) : Except StepFault Frame := do
  let f ← effect c index i f
  if c.maxStack < f.depth then .error (.type (.stackOverflow c.maxStack)) else .ok f

def caught (h : Handler) : VType := .ofClass (h.catches.getD .throwable)

end Transfer

end Bytecheck
