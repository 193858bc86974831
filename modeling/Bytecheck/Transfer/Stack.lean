import Bytecheck.Frame

/-!
# The Operand Stack

Taking operands from the stack. Every operation here sees the operand stack only.
-/

namespace Bytecheck.Stack

def pop (s : Stack) : Except TypeFault (VType × Stack) :=
  match s.pop? with
  | some (e, rest) => .ok (e.2, rest)
  | none => .error .emptyStack

def popNarrow (s : Stack) : Except TypeFault (VType × Stack) := do
  let (t, s) ← pop s
  if width t = 1 then .ok (t, s) else .error (.invalidWidth (width t))

def popExact (expected : VType) (s : Stack) : Except TypeFault Stack := do
  let (t, s) ← pop s
  if t = expected then .ok s else .error (.incompatible t expected)

/-- Take values of exactly the given types, the top one first. -/
def popAll (s : Stack) (expected : List VType) : Except TypeFault Stack :=
  expected.foldlM (fun s t => popExact t s) s

def popAssignable (h : Hierarchy) (expected : VType) (s : Stack) : Except TypeFault Stack := do
  let (t, s) ← pop s
  if t.isAssignable h expected then .ok s else .error (.incompatible t expected)

/-- Take arguments for the parameters, the last one first. -/
def popArguments (h : Hierarchy) (parameters : List FieldType) (s : Stack) :
    Except TypeFault Stack :=
  parameters.reverse.foldlM (fun s p => popAssignable h (.ofField p) s) s

def popReference (s : Stack) : Except TypeFault (VType × Stack) := do
  let (t, s) ← pop s
  if t.isReference then .ok (t, s) else .error (.notReference t)

def popInitialized (s : Stack) : Except TypeFault (VType × Stack) := do
  let (t, s) ← pop s
  match t with
  | .null | .object _ => .ok (t, s)
  | _ => .error (.notReference t)

/-- Take an array of one of the given primitive types, or `null`. The first of them stands for what
was expected. -/
def popPrimitives (first : BaseType) (others : List BaseType) (s : Stack) :
    Except TypeFault Stack := do
  let (t, s) ← pop s
  let fits : Bool :=
    match t with
    | .null => true
    | .object r => (first :: others).any fun b => r.element? = some (.base b)
    | _ => false
  if fits then .ok s else .error (.incompatible t (.object (.primitiveArray 0 first)))

/-- Take an array of references and return its element type, or none for `null`. -/
def popReferences (s : Stack) : Except TypeFault (Option RefType × Stack) := do
  let (t, s) ← pop s
  match t with
  | .null => .ok (none, s)
  | .object r =>
    match r.element? with
    | some (.ref e) => .ok (some e, s)
    | _ => .error (.notArray t)
  | _ => .error (.notArray t)

/-- Move values on the stack. A value of two slots counts as two values of one slot that cannot be
taken apart. -/
def shuffle (s : Stack) : StackOp → Except TypeFault Stack
  | .pop => do
    let (_, s) ← popNarrow s
    .ok s
  | .pop2 => do
    let (a, s) ← pop s
    if width a = 1 then
      let (_, s) ← popNarrow s
      .ok s
    else .ok s
  | .dup => do
    let (a, s) ← popNarrow s
    .ok (s.append [a, a])
  | .dupX1 => do
    let (a, s) ← popNarrow s
    let (b, s) ← popNarrow s
    .ok (s.append [a, b, a])
  | .dupX2 => do
    let (a, s) ← popNarrow s
    let (b, s) ← pop s
    if width b = 1 then
      let (c, s) ← popNarrow s
      .ok (s.append [a, c, b, a])
    else .ok (s.append [a, b, a])
  | .dup2 => do
    let (a, s) ← pop s
    if width a = 1 then
      let (b, s) ← popNarrow s
      .ok (s.append [b, a, b, a])
    else .ok (s.append [a, a])
  | .dup2X1 => do
    let (a, s) ← pop s
    if width a = 1 then
      let (b, s) ← popNarrow s
      let (c, s) ← popNarrow s
      .ok (s.append [b, a, c, b, a])
    else
      let (b, s) ← popNarrow s
      .ok (s.append [a, b, a])
  | .dup2X2 => do
    let (a, s) ← pop s
    if width a = 1 then
      let (b, s) ← popNarrow s
      let (c, s) ← pop s
      if width c = 1 then
        let (d, s) ← popNarrow s
        .ok (s.append [b, a, d, c, b, a])
      else .ok (s.append [b, a, c, b, a])
    else
      let (b, s) ← pop s
      if width b = 1 then
        let (c, s) ← popNarrow s
        .ok (s.append [a, c, b, a])
      else .ok (s.append [a, b, a])
  | .swap => do
    let (a, s) ← popNarrow s
    let (b, s) ← popNarrow s
    .ok (s.append [a, b])

end Bytecheck.Stack
