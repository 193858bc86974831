import Bytecheck.Decode.Code
import Bytecheck.Log

/-!
# Line Numbers

Line numbers of instructions. An entry holds from its instruction up to that of the next entry.
-/

namespace Bytecheck

/-- Lines by the instruction they start at, in ascending order. -/
structure LineTable where
  entries : List (Nat × Nat)
deriving DecidableEq, Repr

namespace LineTable

/-- Entries with equal instructions keep their order. -/
def ofList (entries : List (Nat × Nat)) : LineTable :=
  ⟨entries.mergeSort fun a b => a.1 ≤ b.1⟩

/-- The table for lines given by byte offsets; entries that start no instruction are dropped. -/
def ofOffsets (table : List (Nat × Nat)) (d : DecodedCode) : LineTable :=
  ofList (table.filterMap fun e => (d.indexOf? e.1).map fun index => (index, e.2))

def dropNotes (table : List (Nat × Nat)) (d : DecodedCode) : List Log.Entry :=
  (table.filter fun e => (d.indexOf? e.1).isNone).map fun e =>
    ⟨.warn, "Dropping line number entry at invalid offset " ++ inspect e.1⟩

/-- The line of an instruction: that of the last entry at it or before. -/
def lineOf? (t : LineTable) (index : Nat) : Option Nat :=
  (t.entries.filter fun e => e.1 ≤ index).getLast?.map Prod.snd

instance : Inspect LineTable where
  inspect t := Text.braced "LineNumbers" [("entries", inspect t.entries)]

end LineTable

end Bytecheck
