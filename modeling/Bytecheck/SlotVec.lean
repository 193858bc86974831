import Bytecheck.Text.Inspect

/-!
# Slot Vectors

Vectors of values of different widths, addressed in slots. The offset of a value is the number of
slots below it and the height is the number of slots in use. Each value is one entry, so a value of
width two is never taken in halves.
-/

namespace Bytecheck

/-- Types whose values take a number of slots. -/
class Width (α : Type) where
  width : α → Nat

export Width (width)

/-- Values with the slot offsets they were pushed at, the last one first, and the offset of the next
push. -/
structure SlotVec (α : Type) where
  entries : List (Nat × α)
  height : Nat
deriving DecidableEq, Repr

namespace SlotVec

variable {α : Type}

def empty : SlotVec α := ⟨[], 0⟩

instance : EmptyCollection (SlotVec α) := ⟨empty⟩
instance : Inhabited (SlotVec α) := ⟨empty⟩

def size (v : SlotVec α) : Nat := v.entries.length

def isEmpty (v : SlotVec α) : Bool := v.entries.isEmpty

/-- Put a value on top, at the offset `v.height`. -/
def push [Width α] (v : SlotVec α) (a : α) : SlotVec α :=
  ⟨(v.height, a) :: v.entries, v.height + width a⟩

/-- Take the top value: its offset and the value, and the rest, whose height is that offset. -/
def pop? (v : SlotVec α) : Option ((Nat × α) × SlotVec α) :=
  match v.entries with
  | [] => none
  | e :: es => some (e, ⟨es, e.1⟩)

def top? (v : SlotVec α) : Option α := v.entries.head?.map Prod.snd

def append [Width α] (v : SlotVec α) (as : List α) : SlotVec α := as.foldl push v

def ofList [Width α] (as : List α) : SlotVec α := append empty as

/-- The values, bottom first. -/
def toList (v : SlotVec α) : List α := v.entries.reverse.map Prod.snd

/-- Change every value in place. Offsets are kept, so `f` should keep widths. -/
def map (f : α → α) (v : SlotVec α) : SlotVec α :=
  ⟨v.entries.map fun e => (e.1, f e.2), v.height⟩

/-- Offset, position and value of every entry, bottom first. -/
def indexed (v : SlotVec α) : List (Nat × Nat × α) :=
  v.entries.reverse.zipIdx.map fun e => (e.1.1, e.2, e.1.2)

/-- Vectors are the same when their entries are, by the equality that the values have. -/
def same [BEq α] (v w : SlotVec α) : Bool := v.entries == w.entries

/-- Change the values of a list in order, with a state that each change hands on to the next. -/
def changeAll {σ : Type} (f : σ → α → α × σ) : σ → List α → List α
  | _, [] => []
  | s, a :: as => (f s a).1 :: changeAll f (f s a).2 as

/-- Change every value in place, bottom first, with a state. Offsets are kept, so `f` should keep
widths. -/
def mapState {σ : Type} (f : σ → α → α × σ) (s : σ) (v : SlotVec α) : SlotVec α :=
  ⟨((v.entries.reverse.map Prod.fst).zip (changeAll f s v.toList)).reverse, v.height⟩

section Iteration

/-- An iteration under way: the entries that are left, bottom first, and the position of the first
of them. -/
structure Cursor (α : Type) where
  left : List (Nat × α)
  position : Nat

def iter (v : SlotVec α) : Cursor α := ⟨v.entries.reverse, 0⟩

namespace Cursor

/-- Offset, position and value of the lowest entry that is left. -/
def next? (c : Cursor α) : Option ((Nat × Nat × α) × Cursor α) :=
  match c.left with
  | [] => none
  | e :: es => some ((e.1, c.position, e.2), ⟨es, c.position + 1⟩)

/-- Offset, position and value of the highest entry that is left. Its position is counted from the
number of entries below it. -/
def nextBack? (c : Cursor α) : Option ((Nat × Nat × α) × Cursor α) :=
  match c.left.reverse with
  | [] => none
  | e :: es => some ((e.1, c.position + es.length, e.2), ⟨es.reverse, c.position⟩)

theorem length_of_next? {c d : Cursor α} {x : Nat × Nat × α} (h : c.next? = some (x, d)) :
    d.left.length < c.left.length := by
  unfold next? at h
  split at h
  · cases h
  · rename_i e es he
    cases h
    simp [he]

theorem length_of_nextBack? {c d : Cursor α} {x : Nat × Nat × α} (h : c.nextBack? = some (x, d)) :
    d.left.length < c.left.length := by
  unfold nextBack? at h
  split at h
  · cases h
  · rename_i e es he
    cases h
    have hlen := congrArg List.length he
    simp only [List.length_reverse, List.length_cons] at hlen ⊢
    omega

/-- All that is left, from the bottom up. -/
def upward (c : Cursor α) : List (Nat × Nat × α) :=
  match _h : c.next? with
  | none => []
  | some (x, d) => x :: d.upward
termination_by c.left.length
decreasing_by exact length_of_next? (by assumption)

/-- All that is left, from the top down. -/
def downward (c : Cursor α) : List (Nat × Nat × α) :=
  match _h : c.nextBack? with
  | none => []
  | some (x, d) => x :: d.downward
termination_by c.left.length
decreasing_by exact length_of_nextBack? (by assumption)

end Cursor

end Iteration

section Edits

/-- The operations that change a vector. A change of all values keeps their widths. -/
inductive Edit (α : Type) [Width α] : Type 1 where
  | new
  | push (a : α)
  | pop
  | clear
  | extend (as : List α)
  | collect (as : List α)
  | update {σ : Type} (f : σ → α → α × σ) (s : σ) (keeps : ∀ s a, width (f s a).1 = width a)

inductive Reply (α : Type) where
  | done
  | pushed (offset : Nat)
  /-- Offset, position and value of the entry that was taken. -/
  | popped (entry : Option (Nat × Nat × α))
deriving DecidableEq, Repr

variable [Width α]

/-- Put a value on top of a vector whose offsets are kept in 64 bits. The widths of arbitrary values
may come to more than that. On the stack of a frame they do not, as a type takes two slots at most:
there `push` is enough. -/
def pushWord (v : SlotVec α) (a : α) : SlotVec α :=
  ⟨(v.height, a) :: v.entries, (v.height + width a) % 18446744073709551616⟩

/-- Take the top value and report its place. -/
def popReport (v : SlotVec α) : Reply α × SlotVec α :=
  match v.pop? with
  | none => (.popped none, v)
  | some ((offset, a), rest) => (.popped (some (offset, rest.size, a)), rest)

def edit (v : SlotVec α) : Edit α → Reply α × SlotVec α
  | .new => (.done, empty)
  | .push a => (.pushed v.height, v.pushWord a)
  | .pop => v.popReport
  | .clear => (.done, empty)
  | .extend as => (.done, as.foldl pushWord v)
  | .collect as => (.done, as.foldl pushWord empty)
  | .update f s _ => (.done, v.mapState f s)

def edits (v : SlotVec α) : List (Edit α) → List (Reply α) × SlotVec α
  | [] => ([], v)
  | e :: es =>
    let (reply, v) := v.edit e
    let (replies, v) := v.edits es
    (reply :: replies, v)

end Edits

section Text

variable [Inspect α]

def entryText (e : Nat × α) : String := "#" ++ inspect e.1 ++ " = " ++ inspect e.2

instance : Inspect (SlotVec α) := ⟨fun v => Text.bracketed (v.entries.reverse.map entryText)⟩

/-- Inspection text with one entry a line, indented by four blanks. -/
def inspectLines (v : SlotVec α) : String :=
  if v.isEmpty then "[]"
  else
    let line (e : Nat × α) : String :=
      "    " ++ "\n    ".intercalate ((entryText e).splitOn "\n") ++ ",\n"
    "[\n" ++ String.join (v.entries.reverse.map line) ++ "]"

end Text

section View

@[simp] theorem toList_empty : (empty : SlotVec α).toList = [] := rfl

@[simp] theorem toList_map (f : α → α) (v : SlotVec α) : (v.map f).toList = v.toList.map f := by
  simp [map, toList]

variable [Width α]

@[simp] theorem toList_push (v : SlotVec α) (a : α) : (v.push a).toList = v.toList ++ [a] := by
  simp [push, toList]

@[simp] theorem toList_append (v : SlotVec α) (as : List α) :
    (v.append as).toList = v.toList ++ as := by
  induction as generalizing v with
  | nil => simp [append]
  | cons a as ih =>
    have h := ih (v.push a)
    simp only [append, List.foldl_cons] at h ⊢
    simp [h]

@[simp] theorem toList_ofList (as : List α) : (ofList as).toList = as := by simp [ofList]

@[simp] theorem height_push (v : SlotVec α) (a : α) : (v.push a).height = v.height + width a := rfl

@[simp] theorem pop?_push (v : SlotVec α) (a : α) :
    (v.push a).pop? = some ((v.height, a), v) := rfl

end View

end SlotVec

end Bytecheck
