/-!
# Terminal Text

Text for a terminal mixes characters to show with control sequences. What is left of it where no
terminal reads it is found by a one-pass scan: sequences are left out, and so are the controls other
than blanks.
-/

namespace Bytecheck.Text.Terminal

/-- Where a scan stands. -/
inductive Place where
  /-- Outside of sequences. -/
  | ground
  /-- After the escape character. -/
  | escape
  /-- In an escape sequence, with its last character to come. -/
  | escapeTail
  /-- In a control sequence. -/
  | control
  /-- At the start of a device control string. -/
  | device
  /-- In the parameters of a device control string. -/
  | deviceParameters
  /-- After the parameters of a device control string. -/
  | deviceTail
  /-- In a string that goes on to its terminator. -/
  | text
  /-- In an operating system command. -/
  | command
deriving DecidableEq, Repr

/-- Whether the code of a character is in a range, ends included. -/
def within (first last : Nat) (c : Char) : Bool := first ≤ c.toNat && c.toNat ≤ last

/-- The controls that are blanks: tab, line feed, form feed and carriage return. -/
def isBlankControl (c : Char) : Bool := within 0x09 0x0a c || within 0x0c 0x0d c

/-- Whether a string ends at a character: its encoding has the byte of the string terminator. -/
def endsText (c : Char) : Bool := (String.utf8EncodeChar c).contains 0x9c

/-- The place after a character. The escape character starts anew anywhere, and the characters that
cancel and substitute end any sequence. -/
def Place.next (p : Place) (c : Char) : Place :=
  if within 0x1b 0x1b c then .escape
  else if within 0x18 0x18 c || within 0x1a 0x1a c then .ground
  else
    match p with
    | .ground => .ground
    | .escape =>
      if c = '[' then .control
      else if c = ']' then .command
      else if c = 'P' then .device
      else if c = 'X' || c = '^' || c = '_' then .text
      else if within 0x20 0x2f c then .escapeTail
      else if within 0x30 0x7e c then .ground
      else .escape
    | .escapeTail => if within 0x30 0x7e c then .ground else .escapeTail
    | .control => if within 0x40 0x7e c then .ground else .control
    | .device =>
      if within 0x20 0x2f c then .deviceTail
      else if within 0x30 0x3f c then .deviceParameters
      else if within 0x40 0x7e c then .text
      else .device
    | .deviceParameters =>
      if within 0x20 0x2f c then .deviceTail
      else if within 0x3c 0x7e c then .text
      else .deviceParameters
    | .deviceTail => if within 0x30 0x7e c then .text else .deviceTail
    | .text => if endsText c then .ground else .text
    | .command => if within 0x07 0x07 c then .ground else .command

/-- Whether a character is shown at a place. Blanks are shown within escape and control sequences
too. -/
def Place.shows (p : Place) (c : Char) : Bool :=
  match p with
  | .ground => isBlankControl c || (0x20 ≤ c.toNat && c.toNat != 0x7f)
  | .escape | .escapeTail | .control => isBlankControl c
  | .device | .deviceParameters | .deviceTail | .text | .command => false

structure Scan where
  place : Place
  /-- Whether the last character was shown. -/
  showing : Bool
  /-- The characters shown, the last one first. -/
  shown : List Char

/-- Read a character. Once a character is shown, so are all up to the next control; a sequence
that was left for them goes on there, unless a character outside of ASCII came between. -/
def Scan.step (s : Scan) (c : Char) : Scan :=
  let here := if s.showing then .ground else s.place
  if here.shows c then ⟨if c.toNat < 0x80 then s.place else .ground, true, c :: s.shown⟩
  else ⟨s.place.next c, false, s.shown⟩

def Scan.run (s : Scan) (cs : List Char) : Scan := cs.foldl Scan.step s

def Scan.start : Scan := ⟨.ground, false, []⟩

def strip (s : String) : String := String.ofList (Scan.start.run s.toList).shown.reverse

/-- A text in a style of the terminal, which is reset after it. -/
def styled (style s : String) : String := "\x1b[" ++ style ++ "m" ++ s ++ "\x1b[0m"

theorem shown_run {cs : List Char} (h : ∀ c ∈ cs, Place.ground.shows c = true) (b : Bool)
    (shown : List Char) : (Scan.run ⟨.ground, b, shown⟩ cs).shown = cs.reverse ++ shown := by
  induction cs generalizing b shown with
  | nil => rfl
  | cons c cs ih =>
    have hc : Scan.step ⟨.ground, b, shown⟩ c = ⟨.ground, true, c :: shown⟩ := by
      simp [Scan.step, h c (by simp)]
    have hcs := ih (fun d hd => h d (by simp [hd])) true (c :: shown)
    simp only [Scan.run, List.foldl_cons, hc] at hcs ⊢
    simp [hcs]

/-- Text without controls is shown as it is. -/
theorem strip_eq_self {s : String} (h : ∀ c ∈ s.toList, Place.ground.shows c = true) :
    strip s = s := by
  simp [strip, Scan.start, shown_run h]

end Bytecheck.Text.Terminal
