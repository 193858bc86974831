import Bytecheck.ClassTable.Basic

/-!
# The Library Classes

The library classes that verification reasons about, and the exceptions that code catches most. Every
class stands after its supertypes.
-/

namespace Bytecheck.ClassTable.Library

/-- A name of the library. -/
private def named (text : String)
    (legal : BinaryName.isLegal text.toList = true := by decide +kernel) : BinaryName :=
  ⟨text, legal⟩

private def row (flags : ClassFlags) (name superclass : BinaryName)
    (interfaces : List BinaryName := []) : ClassInfo :=
  ⟨name, some superclass, interfaces, flags⟩

def comparable : BinaryName := named "java/lang/Comparable"
def charSequence : BinaryName := named "java/lang/CharSequence"
def runnable : BinaryName := named "java/lang/Runnable"
def autoCloseable : BinaryName := named "java/lang/AutoCloseable"
def iterable : BinaryName := named "java/lang/Iterable"
def stringBuilder : BinaryName := named "java/lang/StringBuilder"
def system : BinaryName := named "java/lang/System"
def math : BinaryName := named "java/lang/Math"
def enum : BinaryName := named "java/lang/Enum"
def number : BinaryName := named "java/lang/Number"
def byte : BinaryName := named "java/lang/Byte"
def short : BinaryName := named "java/lang/Short"
def integer : BinaryName := named "java/lang/Integer"
def long : BinaryName := named "java/lang/Long"
def float : BinaryName := named "java/lang/Float"
def double : BinaryName := named "java/lang/Double"
def boolean : BinaryName := named "java/lang/Boolean"
def character : BinaryName := named "java/lang/Character"
def void : BinaryName := named "java/lang/Void"
def callSite : BinaryName := named "java/lang/invoke/CallSite"
def error : BinaryName := named "java/lang/Error"
def assertionError : BinaryName := named "java/lang/AssertionError"
def linkageError : BinaryName := named "java/lang/LinkageError"
def virtualMachineError : BinaryName := named "java/lang/VirtualMachineError"
def outOfMemoryError : BinaryName := named "java/lang/OutOfMemoryError"
def stackOverflowError : BinaryName := named "java/lang/StackOverflowError"
def exception : BinaryName := named "java/lang/Exception"
def interruptedException : BinaryName := named "java/lang/InterruptedException"
def reflectiveOperationException : BinaryName := named "java/lang/ReflectiveOperationException"
def classNotFoundException : BinaryName := named "java/lang/ClassNotFoundException"
def cloneNotSupportedException : BinaryName := named "java/lang/CloneNotSupportedException"
def ioException : BinaryName := named "java/io/IOException"
def fileNotFoundException : BinaryName := named "java/io/FileNotFoundException"
def runtimeException : BinaryName := named "java/lang/RuntimeException"
def uncheckedIOException : BinaryName := named "java/io/UncheckedIOException"
def arithmeticException : BinaryName := named "java/lang/ArithmeticException"
def arrayStoreException : BinaryName := named "java/lang/ArrayStoreException"
def classCastException : BinaryName := named "java/lang/ClassCastException"
def illegalArgumentException : BinaryName := named "java/lang/IllegalArgumentException"
def numberFormatException : BinaryName := named "java/lang/NumberFormatException"
def illegalStateException : BinaryName := named "java/lang/IllegalStateException"
def illegalMonitorStateException : BinaryName := named "java/lang/IllegalMonitorStateException"
def indexOutOfBoundsException : BinaryName := named "java/lang/IndexOutOfBoundsException"
def arrayIndexOutOfBoundsException : BinaryName := named "java/lang/ArrayIndexOutOfBoundsException"
def stringIndexOutOfBoundsException : BinaryName := named "java/lang/StringIndexOutOfBoundsException"
def negativeArraySizeException : BinaryName := named "java/lang/NegativeArraySizeException"
def nullPointerException : BinaryName := named "java/lang/NullPointerException"
def unsupportedOperationException : BinaryName := named "java/lang/UnsupportedOperationException"

/-- The root class, which has no superclass. -/
def root : ClassInfo := ⟨.object, none, [], .ofClass⟩

/-- Interfaces. -/
def interfaces : List ClassInfo := [
  row .ofInterface .serializable .object,
  row .ofInterface .cloneable .object,
  row .ofInterface comparable .object,
  row .ofInterface charSequence .object,
  row .ofInterface runnable .object,
  row .ofInterface autoCloseable .object,
  row .ofInterface iterable .object]

/-- Classes of values and of the run-time system. -/
def values : List ClassInfo := [
  row .ofFinalClass .string .object [.serializable, comparable, charSequence],
  row .ofFinalClass stringBuilder .object [.serializable, charSequence],
  row .ofFinalClass .classOfClass .object [.serializable],
  row .ofFinalClass system .object,
  row .ofFinalClass math .object,
  row .ofAbstractClass enum .object [comparable, .serializable],
  row .ofAbstractClass number .object [.serializable],
  row .ofFinalClass byte number [comparable],
  row .ofFinalClass short number [comparable],
  row .ofFinalClass integer number [comparable],
  row .ofFinalClass long number [comparable],
  row .ofFinalClass float number [comparable],
  row .ofFinalClass double number [comparable],
  row .ofFinalClass boolean .object [.serializable, comparable],
  row .ofFinalClass character .object [.serializable, comparable],
  row .ofFinalClass void .object,
  row .ofFinalClass .methodType .object [.serializable],
  row .ofAbstractClass .methodHandle .object,
  row .ofAbstractClass callSite .object]

/-- Errors and exceptions. -/
def throwables : List ClassInfo := [
  row .ofClass .throwable .object [.serializable],
  row .ofClass error .throwable,
  row .ofClass assertionError error,
  row .ofClass linkageError error,
  row .ofAbstractClass virtualMachineError error,
  row .ofClass outOfMemoryError virtualMachineError,
  row .ofClass stackOverflowError virtualMachineError,
  row .ofClass exception .throwable,
  row .ofClass interruptedException exception,
  row .ofClass reflectiveOperationException exception,
  row .ofClass classNotFoundException reflectiveOperationException,
  row .ofClass cloneNotSupportedException exception,
  row .ofClass ioException exception,
  row .ofClass fileNotFoundException ioException,
  row .ofClass runtimeException exception,
  row .ofClass uncheckedIOException runtimeException,
  row .ofClass arithmeticException runtimeException,
  row .ofClass arrayStoreException runtimeException,
  row .ofClass classCastException runtimeException,
  row .ofClass illegalArgumentException runtimeException,
  row .ofClass numberFormatException illegalArgumentException,
  row .ofClass illegalStateException runtimeException,
  row .ofClass illegalMonitorStateException runtimeException,
  row .ofClass indexOutOfBoundsException runtimeException,
  row .ofClass arrayIndexOutOfBoundsException indexOutOfBoundsException,
  row .ofClass stringIndexOutOfBoundsException indexOutOfBoundsException,
  row .ofClass negativeArraySizeException runtimeException,
  row .ofClass nullPointerException runtimeException,
  row .ofClass unsupportedOperationException runtimeException]

/-- The library classes in the order of recording. -/
def classes : List ClassInfo := root :: interfaces ++ values ++ throwables

end Bytecheck.ClassTable.Library

namespace Bytecheck.ClassTable

/-- The table of the library classes. -/
def library : ClassTable := addAll empty Library.classes

end Bytecheck.ClassTable
