import Mathlib.Tactic.Common
import Bytecheck.Proofs.FixedPoint

/-!
Computations that look things up by index.

The functions of this directory do what the functions of the same names do elsewhere, but every
place of a list that they read or write is checked to be there: where it is not, they fail with
nothing. That they agree with the others says that no index is ever out of range. Here are the
lookups and the functions on locals.
-/

namespace Bytecheck

/-- A computation with lookups. It fails with a fault, or with nothing if an index is out of
range. -/
abbrev Indexed (ε α : Type) := Except (Option ε) α

namespace Indexed

variable {ε ε' α β : Type}

/-! ### Lookups -/

/-- A computation that looks nothing up. -/
def lift (x : Except ε α) : Indexed ε α := x.mapError some

def fetch (l : List α) (i : ℕ) : Indexed ε α :=
  match l[i]? with
  | some a => .ok a
  | none => .error none

def store (l : List α) (i : ℕ) (a : α) : Indexed ε (List α) :=
  if i < l.length then .ok (l.set i a) else .error none

def modify (l : List α) (i : ℕ) (f : α → α) : Indexed ε (List α) :=
  (fetch l i).map fun a => l.set i (f a)

lemma fetch_eq {l : List α} {i : ℕ} {a : α} (h : l[i]? = some a) :
    (fetch l i : Indexed ε α) = .ok a := by
  unfold fetch
  rw [h]

lemma store_eq {l : List α} {i : ℕ} (h : i < l.length) (a : α) :
    (store l i a : Indexed ε (List α)) = .ok (l.set i a) := if_pos h

lemma modify_eq {l : List α} {i : ℕ} {a : α} (h : l[i]? = some a) (f : α → α) :
    (modify l i f : Indexed ε (List α)) = .ok (l.set i (f a)) := by
  unfold modify
  rw [fetch_eq h]
  rfl

@[simp] lemma ok_bind (a : α) (f : α → Indexed ε β) : ((.ok a : Indexed ε α) >>= f) = f a := rfl

lemma lift_bind (x : Except ε α) (f : α → Except ε β) :
    lift (x >>= f) = lift x >>= fun a => lift (f a) := by
  cases x <;> rfl

lemma lift_mapError (x : Except ε α) (f : ε → ε') :
    lift (x.mapError f) = (lift x).mapError (Option.map f) := by
  cases x <;> rfl

/-! ### Locals -/

/-- A wide value before the slot loses its first half. -/
def clearBefore (l : List VType) (slot : ℕ) : Indexed ε (List VType) :=
  if slot = 0 then .ok l
  else do
    let x ← fetch l (slot - 1)
    if width x = 2 then store l (slot - 1) .top else .ok l

/-- A wide value that starts in the last slot written loses its second half, if it has one. -/
def clearAfter (l : List VType) (slot : ℕ) (t : VType) : Indexed ε (List VType) :=
  if width t = 2 then .ok (Frame.unsetIf (Frame.isWideAt l (slot + 1)) (slot + 2) l)
  else do
    let x ← fetch l slot
    .ok (Frame.unsetIf (width x = 2) (slot + 1) l)

/-- The slots of a value. -/
def occupy (l : List VType) (slot : ℕ) (t : VType) : Indexed ε (List VType) := do
  let l ← store l slot t
  if width t = 2 then store l (slot + 1) .top else .ok l

def setLocal (f : Frame) (slot : ℕ) (t : VType) : Indexed InternalFault Frame :=
  if f.locals.length < slot + width t then
    .error (some (.localOutOfRange (slot + width t - 1) f.locals.length))
  else do
    let l ← clearBefore f.locals slot
    let l ← clearAfter l slot t
    let l ← occupy l slot t
    .ok { f with locals := l }

section Locals

variable {l : List VType} {slot : ℕ} {t : VType}

lemma one_le_width (t : VType) : 1 ≤ width t := by
  rcases Frame.width_two_or_one t with h | h <;> omega

lemma isWideAt_eq {i : ℕ} {x : VType} (h : l[i]? = some x) :
    Frame.isWideAt l i = decide (width x = 2) := by
  unfold Frame.isWideAt
  rw [h]

lemma clearBefore_eq (h : slot ≤ l.length) : (clearBefore l slot : Indexed ε (List VType)) =
    .ok (Frame.unsetIf (0 < slot && Frame.isWideAt l (slot - 1)) (slot - 1) l) := by
  unfold clearBefore
  by_cases h0 : slot = 0
  · rw [if_pos h0, h0]
    rfl
  · have hx := List.getElem?_eq_getElem (show slot - 1 < l.length by omega)
    rw [if_neg h0, fetch_eq hx, ok_bind, isWideAt_eq hx]
    by_cases hw : width (l[slot - 1]) = 2
    · rw [if_pos hw, store_eq (by omega)]
      simp [Frame.unsetIf, hw, Nat.pos_of_ne_zero h0]
    · simp [Frame.unsetIf, hw]

lemma clearAfter_eq (h : slot < l.length) : (clearAfter l slot t : Indexed ε (List VType)) =
    .ok (if width t = 2 then Frame.unsetIf (Frame.isWideAt l (slot + 1)) (slot + 2) l
      else Frame.unsetIf (Frame.isWideAt l slot) (slot + 1) l) := by
  have hx := List.getElem?_eq_getElem h
  unfold clearAfter
  by_cases hw : width t = 2
  · rw [if_pos hw, if_pos hw]
  · rw [if_neg hw, if_neg hw, fetch_eq hx, ok_bind, isWideAt_eq hx]

lemma occupy_eq (h : slot + width t ≤ l.length) : (occupy l slot t : Indexed ε (List VType)) =
    .ok (if width t = 2 then (l.set slot t).set (slot + 1) .top else l.set slot t) := by
  have hpos := one_le_width t
  unfold occupy
  rw [store_eq (by omega), ok_bind]
  by_cases hw : width t = 2
  · rw [if_pos hw, if_pos hw, store_eq (by rw [List.length_set]; omega)]
  · rw [if_neg hw, if_neg hw]

/-- Writing a local is within the locals. -/
lemma setLocal_eq (f : Frame) (slot : ℕ) (t : VType) : setLocal f slot t = lift (f.set slot t) := by
  rw [Frame.set_eq, setLocal]
  by_cases h : f.locals.length < slot + width t
  · rw [if_pos h, if_pos h]
    rfl
  · have hpos := one_le_width t
    rw [if_neg h, if_neg h, clearBefore_eq (by omega), ok_bind]
    unfold Frame.write
    generalize hc : Frame.unsetIf (0 < slot && Frame.isWideAt f.locals (slot - 1)) (slot - 1)
      f.locals = cleared
    have hlen : cleared.length = f.locals.length := by rw [← hc, Frame.length_unsetIf]
    rw [clearAfter_eq (by omega), ok_bind]
    by_cases hw : width t = 2
    · rw [if_pos hw, if_pos hw, occupy_eq (by rw [Frame.length_unsetIf]; omega), if_pos hw]
      rfl
    · rw [if_neg hw, if_neg hw, occupy_eq (by rw [Frame.length_unsetIf]; omega), if_neg hw]
      rfl

end Locals

/-! ### The entry frame -/

/-- Put values into locals, one after the other. -/
def fill : List VType → ℕ → List VType → Indexed ε (List VType)
  | [], _, l => .ok l
  | t :: ts, slot, l => do
    let l ← store l slot t
    fill ts (slot + width t) l

def entry (m : Method) (maxLocals : ℕ) : Indexed CodeFault Frame :=
  let required := m.descriptor.argumentSlots m.hasReceiver
  if maxLocals < required then .error (some (.argumentsExceedLocals required maxLocals))
  else do
    let l ← fill (Frame.arguments m) 0 (List.replicate maxLocals .top)
    .ok ⟨l, .empty⟩

/-- Values fill unset locals. -/
lemma fill_eq (ts : List VType) (done : List VType) {n : ℕ}
    (h : (ts.flatMap Frame.slotsOf).length ≤ n) :
    (fill ts done.length (done ++ List.replicate n .top) : Indexed ε (List VType)) =
      .ok (done ++ ts.flatMap Frame.slotsOf ++
        List.replicate (n - (ts.flatMap Frame.slotsOf).length) .top) := by
  induction ts generalizing done n with
  | nil => simp [fill]
  | cons t ts ih =>
    have hpos := one_le_width t
    rw [List.flatMap_cons, List.length_append, Analysis.length_slotsOf] at h
    -- the slots of the value come out of the unset ones
    have hset : (done ++ List.replicate n VType.top).set done.length t =
        (done ++ Frame.slotsOf t) ++ List.replicate (n - width t) .top := by
      have hn : n = 1 + ((width t - 1) + (n - width t)) := by omega
      rw [List.set_append_right _ _ (Nat.le_refl _), Nat.sub_self]
      conv_lhs => rw [hn, List.replicate_add, List.replicate_add]
      simp [Frame.slotsOf]
    have hlen : done.length + width t = (done ++ Frame.slotsOf t).length := by
      rw [List.length_append, Analysis.length_slotsOf]
    have hslot : done.length < (done ++ List.replicate n VType.top).length := by
      rw [List.length_append, List.length_replicate]
      omega
    rw [fill, store_eq hslot, ok_bind, hset, hlen, ih _ (by omega), List.flatMap_cons,
      List.length_append, Analysis.length_slotsOf, Nat.sub_sub]
    simp

/-- The arguments have their places in the entry frame. -/
lemma entry_eq (m : Method) (maxLocals : ℕ) :
    entry m maxLocals = lift (Frame.entry m maxLocals) := by
  unfold entry Frame.entry
  dsimp only
  by_cases h : maxLocals < m.descriptor.argumentSlots m.hasReceiver
  · rw [if_pos h, if_pos h]
    rfl
  · have hlen := Analysis.length_arguments m
    have hfill := fill_eq (ε := CodeFault) (Frame.arguments m) [] (n := maxLocals) (by omega)
    rw [List.length_nil, List.nil_append] at hfill
    rw [if_neg h, if_neg h, hfill, hlen]
    rfl

/-! ### Instructions -/

/-- Stores are the instructions that write a local. -/
def effect (c : Transfer.Context) (index : ℕ) (i : Instruction ℕ) (f : Frame) :
    Indexed StepFault Frame :=
  match i with
  | .op (.store k slot) => do
    let (t, s) ← lift ((Transfer.stored k f.stack).mapError .type)
    (setLocal { f with stack := s } slot t).mapError (Option.map .internal)
  | i => lift (Transfer.effect c index i f)

def step (c : Transfer.Context) (index : ℕ) (i : Instruction ℕ) (f : Frame) :
    Indexed StepFault Frame := do
  let f ← effect c index i f
  if c.maxStack < f.depth then .error (some (.type (.stackOverflow c.maxStack))) else .ok f

lemma effect_eq (c : Transfer.Context) (index : ℕ) (i : Instruction ℕ) (f : Frame) :
    effect c index i f = lift (Transfer.effect c index i f) := by
  unfold effect
  split
  · rename_i k slot
    change _ = lift ((Transfer.stored k f.stack).mapError StepFault.type >>= fun r =>
      (Frame.set { f with stack := r.2 } slot r.1).mapError StepFault.internal)
    rw [lift_bind]
    congr 1
    funext ⟨t, s⟩
    dsimp only
    rw [setLocal_eq, lift_mapError]
  · rfl

/-- No instruction writes a local that is not there. -/
lemma step_eq (c : Transfer.Context) (index : ℕ) (i : Instruction ℕ) (f : Frame) :
    step c index i f = lift (Transfer.step c index i f) := by
  unfold step Transfer.step
  rw [effect_eq, lift_bind]
  congr 1
  funext g
  split <;> rfl

end Indexed

end Bytecheck
