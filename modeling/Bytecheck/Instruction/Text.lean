import Bytecheck.Instruction.Basic

/-!
# Instructions as Text

The inspection text of instructions, as listings show it.
-/

namespace Bytecheck

namespace Num

/-- The letter that mnemonics start with. -/
def letter : Num → String
  | .int => "I"
  | .long => "L"
  | .float => "F"
  | .double => "D"

end Num

namespace Kind

def letter : Kind → String
  | .num n => n.letter
  | .ref => "A"

end Kind

namespace ElementKind

def letter : ElementKind → String
  | .int => "I"
  | .long => "L"
  | .float => "F"
  | .double => "D"
  | .ref => "A"
  | .byte => "B"
  | .char => "C"
  | .short => "S"

end ElementKind

instance : Inspect Shift where
  inspect
    | .left => "Left"
    | .logicalRight => "LogicalRight"
    | .arithmeticRight => "ArithmeticRight"

instance : Inspect NanOrder where
  inspect
    | .less => "L"
    | .greater => "G"

instance : Inspect Order where
  inspect
    | .eq => "EQ"
    | .ge => "GE"
    | .gt => "GT"
    | .le => "LE"
    | .lt => "LT"
    | .ne => "NE"

instance : Inspect Equality where
  inspect
    | .eq => "EQ"
    | .ne => "NE"

instance : Inspect InvokeKind where
  inspect
    | .virtual => "Virtual"
    | .special => "Special"
    | .static => "Static"
    | .interface count => Text.applied "Interface" [inspect count]

def Arith.name : Arith → String
  | .add => "Add"
  | .sub => "Sub"
  | .mul => "Mul"
  | .div => "Div"
  | .rem => "Rem"

def Bitwise.name : Bitwise → String
  | .and => "And"
  | .or => "Or"
  | .xor => "Xor"

def Conversion.name : Conversion → String
  | .i2l => "I2L"
  | .i2f => "I2F"
  | .i2d => "I2D"
  | .l2i => "L2I"
  | .l2f => "L2F"
  | .l2d => "L2D"
  | .f2i => "F2I"
  | .f2l => "F2L"
  | .f2d => "F2D"
  | .d2i => "D2I"
  | .d2l => "D2L"
  | .d2f => "D2F"
  | .i2b => "I2B"
  | .i2c => "I2C"
  | .i2s => "I2S"

def StackOp.name : StackOp → String
  | .pop => "Pop"
  | .pop2 => "Pop2"
  | .dup => "Dup"
  | .dupX1 => "DupX1"
  | .dupX2 => "DupX2"
  | .dup2 => "Dup2"
  | .dup2X1 => "Dup2X1"
  | .dup2X2 => "Dup2X2"
  | .swap => "Swap"

instance : Inspect Calc where
  inspect
    | .iconst n => if n.val = 0 then "IConstM1" else "IConst" ++ inspect (n.val - 1)
    | .lconst n => "LConst" ++ inspect n.val
    | .fconst n => "FConst" ++ inspect n.val
    | .dconst n => "DConst" ++ inspect n.val
    | .bipush n => Text.applied "BiPush" [inspect n]
    | .sipush n => Text.applied "SiPush" [inspect n]
    | .arith f n => n.letter ++ f.name
    | .neg n => n.letter ++ "Neg"
    | .ishift s => Text.applied "ISh" [inspect s]
    | .lshift s => Text.applied "LSh" [inspect s]
    | .ibits b => "I" ++ b.name
    | .lbits b => "L" ++ b.name
    | .convert c => c.name
    | .lcmp => "LCmp"
    | .fcmp o => Text.applied "FCmp" [inspect o]
    | .dcmp o => Text.applied "DCmp" [inspect o]

instance : Inspect Op where
  inspect
    | .nop => "Nop"
    | .aconstNull => "AConstNull"
    | .calc c => inspect c
    | .ldc c => Text.applied "Ldc" [inspect c]
    | .ldc2 c => Text.applied "Ldc2" [inspect c]
    | .load k slot => Text.applied (k.letter ++ "Load") [inspect slot]
    | .store k slot => Text.applied (k.letter ++ "Store") [inspect slot]
    | .arrayLoad k => k.letter ++ "ALoad"
    | .arrayStore k => k.letter ++ "AStore"
    | .stack s => s.name
    | .iinc slot delta => Text.applied "IInc" [inspect slot, inspect delta]
    | .getStatic f => Text.applied "GetStatic" [inspect f]
    | .putStatic f => Text.applied "PutStatic" [inspect f]
    | .getField f => Text.applied "GetField" [inspect f]
    | .putField f => Text.applied "PutField" [inspect f]
    | .invoke k m => Text.applied "Invoke" [inspect k, inspect m]
    | .invokeDynamic d => Text.applied "InvokeDynamic" [inspect d]
    | .new r => Text.applied "New" [inspect r]
    | .newArray b => Text.applied "NewArray" [inspect b]
    | .anewArray r => Text.applied "ANewArray" [inspect r]
    | .multiANewArray r dims => Text.applied "MultiANewArray" [inspect r, inspect dims]
    | .arrayLength => "ArrayLength"
    | .checkCast r => Text.applied "CheckCast" [inspect r]
    | .instanceOf r => Text.applied "InstanceOf" [inspect r]
    | .monitorEnter => "MonitorEnter"
    | .monitorExit => "MonitorExit"

instance {L : Type} [Inspect L] : Inspect (Branch L) where
  inspect
    | .ifZero c t => Text.applied "If" [inspect c, inspect t]
    | .ifInt c t => Text.applied "IfICmp" [inspect c, inspect t]
    | .ifRef c t => Text.applied "IfACmp" [inspect c, inspect t]
    | .ifNull c t => Text.applied "IfNull" [inspect c, inspect t]
    | .goto t => Text.applied "Goto" [inspect t]
    | .tableSwitch fallback low ts =>
      Text.braced "TableSwitch"
        [("default", inspect fallback), ("low", inspect low), ("targets", inspect ts)]
    | .lookupSwitch fallback cases =>
      Text.braced "LookupSwitch" [("default", inspect fallback), ("targets", inspect cases)]
    | .leave none => "Return"
    | .leave (some k) => k.letter ++ "Return"
    | .athrow => "AThrow"
    | .jsr t => Text.applied "Jsr" [inspect t]
    | .ret slot => Text.applied "Ret" [inspect slot]

instance {L : Type} [Inspect L] : Inspect (Instruction L) where
  inspect
    | .op o => Text.applied "Regular" [inspect o]
    | .branch b => Text.applied "Branch" [inspect b]

end Bytecheck
