import Bytecheck.Descriptor.Basic

/-!
# Reading Descriptors

Each scanner takes the characters ahead and returns a value with the characters it left; a whole
text is read when nothing is left.
-/

namespace Bytecheck

inductive DescriptorFault where
  | invalidBase (c : Char)
  | missingBase
  | missingTerminator (name : String)
  | expectedClass
  | invalidName (fault : NameFault)
  | invalidReference (c : Char)
  | missingField
  | expectedOpen
  | expectedClose
  | leftover (c : Char)
deriving DecidableEq, Repr

namespace DescriptorFault

/-- Whether more text could have helped. -/
def isEarlyEnd : DescriptorFault → Bool
  | .missingBase | .missingTerminator _ | .missingField | .expectedClose => true
  | _ => false

def message : DescriptorFault → String
  | .invalidBase c => s!"Invalid base type character '{c}'"
  | .missingBase => "Missing base type character"
  | .missingTerminator name => s!"Missing terminator for 'L{name}'"
  | .expectedClass => "Expected object type to start with `L`"
  | .invalidName fault => fault.message
  | .invalidReference c => s!"Invalid reference type character '{c}'"
  | .missingField => "Missing field type"
  | .expectedOpen => "Expected '(' for method"
  | .expectedClose => "Expected ')' for method"
  | .leftover c => s!"Unexpected leftover input '{c}'"

end DescriptorFault

/-- A reader of the front of a text. -/
abbrev Scanner (α : Type) := List Char → Except DescriptorFault (α × List Char)

/-- Read a whole text: nothing may be left. -/
def Scanner.parse {α : Type} (scan : Scanner α) (s : String) : Except DescriptorFault α := do
  let (a, rest) ← scan s.toList
  match rest with
  | [] => .ok a
  | c :: _ => .error (.leftover c)

namespace BaseType

def scan : Scanner BaseType
  | [] => .error .missingBase
  | c :: cs =>
    match ofLetter? c with
    | some b => .ok (b, cs)
    | none => .error (.invalidBase c)

def parse (s : String) : Except DescriptorFault BaseType := Scanner.parse scan s

end BaseType

namespace BinaryName

/-- A class between `L` and `;`. -/
def scan : Scanner BinaryName
  | 'L' :: cs =>
    let name := String.ofList (cs.takeWhile (· ≠ ';'))
    match cs.dropWhile (· ≠ ';') with
    | [] => .error (.missingTerminator name)
    | _ :: rest =>
      match ofString name with
      | .ok c => .ok (c, rest)
      | .error e => .error (.invalidName e)
  | _ => .error .expectedClass

def parse (s : String) : Except DescriptorFault BinaryName := Scanner.parse scan s

end BinaryName

namespace RefType

/-- What follows the brackets of an array type with `extra + 1` dimensions. -/
def scanElement (extra : Nat) (cs : List Char) : Except DescriptorFault (RefType × List Char) :=
  match cs with
  | 'L' :: _ => (BinaryName.scan cs).map fun p => (.objectArray extra p.1, p.2)
  | _ => (BaseType.scan cs).map fun p => (.primitiveArray extra p.1, p.2)

def scan : Scanner RefType
  | [] => .error .missingField
  | 'L' :: cs => (BinaryName.scan ('L' :: cs)).map fun p => (.object p.1, p.2)
  | '[' :: cs => scanElement (cs.takeWhile (· = '[')).length (cs.dropWhile (· = '['))
  | c :: _ => .error (.invalidReference c)

def parse (s : String) : Except DescriptorFault RefType := Scanner.parse scan s

/-- The type that a class constant names: an array by its descriptor, a class by its name. -/
def ofConstant (s : String) : Except DescriptorFault RefType :=
  if s.toList.head? = some '[' then parse s
  else
    match BinaryName.ofString s with
    | .ok c => .ok (.object c)
    | .error e => .error (.invalidName e)

end RefType

namespace FieldType

def scan : Scanner FieldType
  | [] => .error .missingField
  | c :: cs =>
    if (BaseType.ofLetter? c).isSome then
      (BaseType.scan (c :: cs)).map fun p => (.base p.1, p.2)
    else if c = 'L' ∨ c = '[' then
      (RefType.scan (c :: cs)).map fun p => (.ref p.1, p.2)
    else .error (.invalidReference c)

def parse (s : String) : Except DescriptorFault FieldType := Scanner.parse scan s

end FieldType

section Progress

/-- Changing what was read leaves the same characters. -/
theorem Scanner.exists_of_map {α β : Type} {x : Except DescriptorFault (α × List Char)} {f : α → β}
    {b : β} {rest : List Char} (h : (x.map fun p => (f p.1, p.2)) = .ok (b, rest)) :
    ∃ a, x = .ok (a, rest) ∧ f a = b := by
  cases x with
  | error e => simp [Except.map] at h
  | ok p =>
    simp only [Except.map, Except.ok.injEq, Prod.mk.injEq] at h
    exact ⟨p.1, by rw [← h.2], h.1⟩

theorem BaseType.length_of_scan {cs rest : List Char} {b : BaseType}
    (h : BaseType.scan cs = .ok (b, rest)) : rest.length < cs.length := by
  unfold BaseType.scan at h
  split at h
  · simp at h
  · split at h <;> simp_all

theorem BinaryName.length_of_scan {cs rest : List Char} {c : BinaryName}
    (h : BinaryName.scan cs = .ok (c, rest)) : rest.length < cs.length := by
  unfold BinaryName.scan at h
  split at h
  · rename_i cs
    have hd : (cs.dropWhile (· ≠ ';')).length ≤ cs.length := (List.dropWhile_suffix _).length_le
    dsimp only at h
    split at h
    · simp at h
    · rename_i x r hr
      rw [hr] at hd
      split at h
      · obtain ⟨-, rfl⟩ : _ ∧ r = rest := by simpa using h
        simp only [List.length_cons] at hd ⊢
        omega
      · simp at h
  · simp at h

theorem RefType.length_of_scan {cs rest : List Char} {r : RefType}
    (h : RefType.scan cs = .ok (r, rest)) : rest.length < cs.length := by
  unfold RefType.scan at h
  split at h
  · simp at h
  · obtain ⟨c, hc, -⟩ := Scanner.exists_of_map h
    exact BinaryName.length_of_scan hc
  · rename_i cs
    have hd : (cs.dropWhile (· = '[')).length ≤ cs.length := (List.dropWhile_suffix _).length_le
    unfold RefType.scanElement at h
    rw [List.length_cons]
    split at h
    · obtain ⟨c, hc, -⟩ := Scanner.exists_of_map h
      have := BinaryName.length_of_scan hc
      omega
    · obtain ⟨c, hc, -⟩ := Scanner.exists_of_map h
      have := BaseType.length_of_scan hc
      omega
  · simp at h

/-- A field type takes at least one character. -/
theorem FieldType.length_of_scan {cs rest : List Char} {t : FieldType}
    (h : FieldType.scan cs = .ok (t, rest)) : rest.length < cs.length := by
  unfold FieldType.scan at h
  split at h
  · simp at h
  · split at h
    · obtain ⟨b, hb, -⟩ := Scanner.exists_of_map h
      exact BaseType.length_of_scan hb
    · split at h
      · obtain ⟨r, hr, -⟩ := Scanner.exists_of_map h
        exact RefType.length_of_scan hr
      · simp at h

end Progress

namespace MethodDescriptor

/-- Parameters up to the closing parenthesis, which is taken too. -/
def scanParameters (cs : List Char) : Except DescriptorFault (List FieldType × List Char) :=
  match cs with
  | [] => .error .expectedClose
  | ')' :: rest => .ok ([], rest)
  | c :: cs =>
    match _h : FieldType.scan (c :: cs) with
    | .error e => .error e
    | .ok (t, rest) => (scanParameters rest).map fun p => (t :: p.1, p.2)
termination_by cs.length
decreasing_by exact FieldType.length_of_scan (by assumption)

def scanReturn (cs : List Char) : Except DescriptorFault (Option FieldType × List Char) :=
  match cs with
  | 'V' :: rest => .ok (none, rest)
  | _ => (FieldType.scan cs).map fun p => (some p.1, p.2)

def scan : Scanner MethodDescriptor
  | '(' :: cs => do
    let (parameters, rest) ← scanParameters cs
    let (returns, rest) ← scanReturn rest
    .ok (⟨parameters, returns⟩, rest)
  | _ => .error .expectedOpen

def parse (s : String) : Except DescriptorFault MethodDescriptor := Scanner.parse scan s

end MethodDescriptor

end Bytecheck
