import Mathlib.Data.List.Forall2
import Mathlib.Tactic.Common
import Bytecheck.Proofs.Escapes
import Bytecheck.Proofs.Tiling

/-!
How arguments are handed over.

A caller leaves the receiver and the arguments side by side on its stack, and the method called
finds them side by side in its first locals. Slots are counted in four places: in the descriptor, by
the call that takes the values from the stack, by the frame on entry, and by the decoder, which is
told the number. They all agree, so that methods that were verified apart fit together.
-/

namespace Bytecheck

open Stack Transfer Analysis

/-! ### Values side by side -/

section Layout

variable {h : Hierarchy} {x t : VType} {xs ts : List VType}

lemma layout_append (o : ℕ) (xs ts : List VType) :
    layout o (xs ++ ts) = layout o xs ++ layout (o + slots xs) ts := by
  induction xs generalizing o with
  | nil => rfl
  | cons x xs ih =>
    rw [List.cons_append, layout, ih, layout, slots_cons, Nat.add_assoc]
    rfl

/-- On a pile, values lie side by side on those below. -/
lemma entries_pile_append (vs l : List VType) :
    (pile (vs ++ l)).entries = (layout (slots l) vs.reverse).reverse ++ (pile l).entries := by
  induction vs with
  | nil => rfl
  | cons x vs ih =>
    have hpush : (pile (x :: vs ++ l)).entries =
        ((pile (vs ++ l)).height, x) :: (pile (vs ++ l)).entries := rfl
    rw [hpush, ih, height_pile, List.reverse_cons, layout_append, slots_reverse, slots_append,
      Nat.add_comm (slots vs)]
    simp [layout]

/-- The slots of values side by side in a list of slots. -/
lemma getElem?_of_layout (before after : List VType) {p : ℕ × VType}
    (hp : p ∈ layout before.length ts) :
    (before ++ ts.flatMap Frame.slotsOf ++ after)[p.1]? = some p.2 ∧
      (width p.2 = 2 → (before ++ ts.flatMap Frame.slotsOf ++ after)[p.1 + 1]? = some .top) := by
  induction ts generalizing before with
  | nil => cases hp
  | cons t ts ih =>
    rw [layout, List.mem_cons] at hp
    rcases hp with rfl | hp
    · constructor
      · simp [Frame.slotsOf]
      · intro hw
        simp [Frame.slotsOf, hw]
    · rw [← length_slotsOf t, ← List.length_append] at hp
      simpa using ih (before ++ Frame.slotsOf t) hp

lemma width_of_isAssignable (hx : x.isAssignable h t = true) (ht : t ≠ .top) :
    width x = width t := by
  unfold VType.isAssignable at hx
  split at hx
  · cases hx
  · exact absurd rfl ht
  · rfl
  · rfl
  · exact congrArg width (of_decide_eq_true hx)

/-- Values that may be used in place of others lie as these do. -/
lemma layout_of_isAssignable {o base : ℕ}
    (hxs : List.Forall₂ (fun x t => x.isAssignable h t = true) xs ts) (hts : .top ∉ ts) :
    List.Forall₂ (fun a e => e.1 = base + a.1 ∧ e.2.isAssignable h a.2 = true)
      (layout o ts) (layout (base + o) xs) := by
  induction hxs generalizing o with
  | nil => exact .nil
  | @cons x t xs ts hx hxs ih =>
    rw [List.mem_cons, not_or] at hts
    refine .cons ⟨rfl, hx⟩ ?_
    rw [width_of_isAssignable hx (Ne.symm hts.1), Nat.add_assoc]
    exact ih hts.2

lemma slots_of_isAssignable (hxs : List.Forall₂ (fun x t => x.isAssignable h t = true) xs ts)
    (hts : .top ∉ ts) : slots xs = slots ts := by
  induction hxs with
  | nil => rfl
  | @cons x t xs ts hx hxs ih =>
    rw [List.mem_cons, not_or] at hts
    rw [slots_cons, slots_cons, width_of_isAssignable hx (Ne.symm hts.1), ih hts.2]

end Layout

/-! ### Entry frames -/

/-- How locals hold the arguments of a method on entry: every argument where those before it end,
with nothing usable in the second half of a wide one and behind the last. -/
structure Receives (m : Method) (maxLocals : ℕ) (locals : List VType) : Prop where
  length_eq : locals.length = maxLocals
  argument : ∀ p ∈ layout 0 (Frame.arguments m), locals[p.1]? = some p.2
  half : ∀ p ∈ layout 0 (Frame.arguments m), width p.2 = 2 → locals[p.1 + 1]? = some .top
  unset : ∀ slot, m.descriptor.argumentSlots m.hasReceiver ≤ slot → slot < maxLocals →
    locals[slot]? = some .top

section Entry

variable {m : Method} {n : ℕ} {f : Frame}

lemma exists_entry_iff :
    (∃ f, Frame.entry m n = .ok f) ↔ m.descriptor.argumentSlots m.hasReceiver ≤ n := by
  constructor
  · rintro ⟨f, hf⟩
    exact (entry_ok hf).1
  · intro hle
    exact ⟨_, if_neg (Nat.not_lt.2 hle)⟩

lemma receives_entry (hf : Frame.entry m n = .ok f) : Receives m n f.locals := by
  have hlength := (good_entry hf).left
  obtain ⟨hle, rfl⟩ := entry_ok hf
  refine ⟨hlength, fun p hp => (getElem?_of_layout [] _ hp).1,
    fun p hp => (getElem?_of_layout [] _ hp).2, ?_⟩
  intro slot hslot hlt
  dsimp only
  rw [List.getElem?_append_right (by rw [length_arguments]; exact hslot), length_arguments,
    List.getElem?_replicate, if_pos (by omega)]

end Entry

/-! ### Calls -/

/-- The method can be the one that a call on its class leads to. -/
structure IsCallee (k : InvokeKind) (ref : MethodRef) (m : Method) : Prop where
  owner : ref.owner = .object m.owner
  descriptor : ref.descriptor = m.descriptor
  name : m.name ≠ .init
  receiver : m.hasReceiver = true ↔ k ≠ .static

/-- The values that a call puts on the stack when it returns. -/
def MethodDescriptor.results (d : MethodDescriptor) : List VType := d.returns.toList.map .ofField

section Calls

variable {c : Context} {index : ℕ} {k : InvokeKind} {ref : MethodRef} {m : Method} {f f' : Frame}
  {locals vs ws : List VType}

lemma slots_results (d : MethodDescriptor) : slots d.results = d.returns.elim 0 width := by
  unfold MethodDescriptor.results
  cases d.returns with
  | none => rfl
  | some t => simp [width_ofField]

lemma argumentSlots_eq (d : MethodDescriptor) (receiver : Bool) :
    d.argumentSlots receiver =
      (if receiver then 1 else 0) + slots (d.parameters.map VType.ofField) := by
  unfold MethodDescriptor.argumentSlots
  congr 1
  induction d.parameters with
  | nil => rfl
  | cons p ps ih => rw [List.foldr_cons, ih, List.map_cons, slots_cons, width_ofField]

lemma top_notMem_fields (ps : List FieldType) : VType.top ∉ ps.map VType.ofField := by
  intro hmem
  obtain ⟨p, -, hp⟩ := List.mem_map.1 hmem
  rcases p with b | r
  · cases b <;> cases hp
  · cases hp

lemma Stack.Fit.fields {h : Hierarchy} {ps : List FieldType} (hvs : Fit h vs ps) :
    List.Forall₂ (fun x t => x.isAssignable h t = true) vs.reverse (ps.map VType.ofField) := by
  rw [List.forall₂_map_right_iff, ← List.forall₂_reverse_iff, List.reverse_reverse]
  exact hvs

/-- What a call other than that of a constructor does to the stack. -/
lemma signature_of_call (hinit : isInit k ref = false)
    (hstep : step c index (.op (.invoke k ref)) f = .ok f') :
    ∃ vs rest, Signature c f.locals (.op (.invoke k ref)) vs ref.descriptor.results ∧
      f.stack.Pops vs rest ∧ f'.stack = rest.append ref.descriptor.results := by
  obtain ⟨vs, hchange⟩ := stackChange_of_step hstep
  generalize f'.stack = s at hchange
  cases hchange with
  | @replace _ _ ws rest hsig hpops =>
    obtain rfl : ws = ref.descriptor.results := by cases hsig <;> rfl
    exact ⟨vs, rest, hsig, hpops, rfl⟩
  | construct hname => simp [isInit, hname] at hinit

/-- The slots of the values that a call takes. -/
lemma slots_of_signature (hsig : Signature c locals (.op (.invoke k ref)) vs ws) :
    slots vs = ref.descriptor.argumentSlots (k ≠ .static) := by
  rw [argumentSlots_eq]
  cases hsig with
  | callStatic hvs =>
    rw [← slots_reverse, slots_of_isAssignable hvs.fields (top_notMem_fields _)]
    simp
  | @call _ _ vs x _ hk _ hvs hx =>
    have hwidth : width x = 1 := width_of_isAssignable hx (by simp)
    rw [slots_append, ← slots_reverse vs, slots_of_isAssignable hvs.fields (top_notMem_fields _)]
    simp [hk, hwidth, Nat.add_comm]

/-- The values that a call takes may be used as the arguments of the method called. -/
lemma arguments_of_signature (hm : IsCallee k ref m)
    (hsig : Signature c locals (.op (.invoke k ref)) vs ws) :
    List.Forall₂ (fun x t => x.isAssignable c.hierarchy t = true) vs.reverse
      (Frame.arguments m) := by
  have hreceiver : Frame.receiver m = .ofClass m.owner := by
    simp [Frame.receiver, Method.mustInitialize, Method.isConstructor, hm.name]
  unfold Frame.arguments
  rw [← hm.descriptor]
  cases hsig with
  | callStatic hvs =>
    rw [if_neg (by simp [hm.receiver])]
    exact hvs.fields
  | @call _ _ vs x _ hk _ hvs hx =>
    rw [if_pos (hm.receiver.2 hk), hreceiver, List.reverse_append]
    rw [hm.owner] at hx
    exact .cons hx hvs.fields

lemma top_notMem_arguments (m : Method) : VType.top ∉ Frame.arguments m :=
  fun hmem => (arguments_isValue hmem).1 rfl

/-- **One call**: the values taken lie on the stack as the arguments do in the locals. -/
lemma layout_of_call (hinit : isInit k ref = false) (hm : IsCallee k ref m)
    (hf : f.stack = .ofList f.stack.toList)
    (hstep : step c index (.op (.invoke k ref)) f = .ok f') :
    ∃ (taken : List (ℕ × VType)) (rest : Stack), f.stack.entries = taken.reverse ++ rest.entries ∧
      f'.stack = rest.append ref.descriptor.results ∧
      f.depth = rest.height + m.descriptor.argumentSlots m.hasReceiver ∧
      f'.depth = rest.height + ref.descriptor.returns.elim 0 width ∧
      List.Forall₂ (fun a e => e.1 = rest.height + a.1 ∧ e.2.isAssignable c.hierarchy a.2 = true)
        (layout 0 (Frame.arguments m)) taken := by
  obtain ⟨vs, rest, hsig, hpops, hstack⟩ := signature_of_call hinit hstep
  rw [ofList_eq_pile] at hf
  rw [hf] at hpops
  obtain ⟨l, hl, rfl⟩ := pops_pile_iff.1 hpops
  rw [hl] at hf
  have hargs := arguments_of_signature hm hsig
  refine ⟨layout (slots l) vs.reverse, pile l, ?_, hstack, ?_, ?_, ?_⟩
  · rw [hf, entries_pile_append]
  · have hreceiver : (decide (k ≠ .static)) = m.hasReceiver := by
      rw [Bool.eq_iff_iff, hm.receiver, decide_eq_true_iff]
    rw [Frame.depth, hf, height_pile, height_pile, slots_append, slots_of_signature hsig,
      hreceiver, hm.descriptor, Nat.add_comm]
  · rw [Frame.depth, hstack, pile_append, height_pile, height_pile, slots_append, slots_reverse,
      slots_results, Nat.add_comm]
  · rw [height_pile]
    exact layout_of_isAssignable hargs (top_notMem_arguments m)

end Calls

/-! ### Interface calls in code arrays -/

namespace Decode

open Reader

variable {pool : ConstantPool}

/-- A call of an interface method is told the number of its argument slots. -/
def Counted (i : Relative) : Prop :=
  ∀ n ref, i = .op (.invoke (.interface n) ref) → n = ref.descriptor.argumentSlots true

lemma counted_interfaceCall (pool : ConstantPool) :
    (interfaceCall pool).All fun o => Counted (.op o) := by
  simp only [interfaceCall, all_bind]
  refine all_of_forall fun ref => all_of_forall fun count => all_of_forall fun padding => ?_
  simp +contextual [Counted]

lemma counted_dynamicCall (pool : ConstantPool) :
    (dynamicCall pool).All fun o => Counted (.op o) := by
  simp [dynamicCall, Counted]

lemma counted_wide : wide.All Counted := by
  simp [wide, Counted]

lemma counted_operands (pool : ConstantPool) (padding opcode : ℕ) :
    (operands pool padding opcode).All Counted := by
  unfold operands
  split
  case h_21 => exact all_bind.2 (counted_interfaceCall pool)
  case h_22 => exact all_bind.2 (counted_dynamicCall pool)
  case h_28 => exact counted_wide
  all_goals simp [Counted]

lemma counted_plain {opcode : ℕ} {o : Op} (ho : plainOps.lookup opcode = some o) :
    Counted (.op o) := by
  obtain ⟨l, l', hl, -⟩ := List.lookup_eq_some_iff.1 ho
  have hmem : (opcode, o) ∈ plainOps := by simp [hl]
  have hplain : ∀ p ∈ plainOps, ∀ n ref, p.2 ≠ .invoke (.interface n) ref := by simp [plainOps]
  intro n ref h
  cases h
  exact absurd rfl (hplain _ hmem n ref)

lemma counted_body (pool : ConstantPool) (padding opcode : ℕ) :
    (body pool padding opcode).All Counted := by
  unfold body
  split
  · rename_i ho
    exact counted_plain ho
  · simp [Counted]
  · simp [Counted, counted_operands]

end Decode

/-- A decoded call of an interface method is told the slots that it takes. -/
lemma DecodedCode.count_eq {pool : ConstantPool} {bytes : List UInt8} {d : DecodedCode}
    (hd : ofBytes pool bytes = .ok d) {count : ℕ} {ref : MethodRef}
    (hmem : .op (.invoke (.interface count) ref) ∈ d.instructions) :
    count = ref.descriptor.argumentSlots true := by
  obtain ⟨-, hlen, -⟩ := ofBytes_ok_iff_kept.1 hd
  obtain ⟨k, hk⟩ := List.mem_iff_getElem?.1 hmem
  have hlt := (List.getElem?_eq_some_iff.1 hk).1
  obtain ⟨p, hp⟩ : ∃ p, d.offsets[k]? = some p := ⟨_, List.getElem?_eq_getElem (hlen ▸ hlt)⟩
  obtain ⟨before, opcode, operands, behind, -, -, hread⟩ := exists_tile_of_ofBytes hd hp hk
  exact (Decode.counted_body pool _ _).run hread count ref rfl

/-! ### Agreement -/

/-- **Callers and callees agree** on where arguments are. On entry to a method there is room for the
arguments if and only if their slots are within the locals, and then the locals hold them side by
side. A call of the method, other than that of a constructor, takes as many slots as the arguments
have from a stack that is what its values make it. Read from the lowest one up, the values taken lie
on the stack as the arguments do in the locals, and each may be used as the argument there. A call
of an interface method that was decoded takes the number of slots that it is told. -/
theorem callers_and_callees_agree :
    (∀ (m : Method) (maxLocals : ℕ),
      ((∃ g, Frame.entry m maxLocals = .ok g) ↔
        m.descriptor.argumentSlots m.hasReceiver ≤ maxLocals) ∧
      ∀ g, Frame.entry m maxLocals = .ok g → Receives m maxLocals g.locals) ∧
    (∀ (c : Context) (index : ℕ) (k : InvokeKind) (ref : MethodRef) (m : Method) (f f' : Frame),
      isInit k ref = false → IsCallee k ref m → f.stack = .ofList f.stack.toList →
      step c index (.op (.invoke k ref)) f = .ok f' →
      f.depth + ref.descriptor.returns.elim 0 width =
        f'.depth + m.descriptor.argumentSlots m.hasReceiver ∧
      ∃ (taken : List (ℕ × VType)) (rest : Stack),
        f.stack.entries = taken.reverse ++ rest.entries ∧
        f'.stack = rest.append ref.descriptor.results ∧
        ∀ maxLocals g, Frame.entry m maxLocals = .ok g →
          List.Forall₂ (fun a e => g.locals[a.1]? = some a.2 ∧ e.1 = rest.height + a.1 ∧
            e.2.isAssignable c.hierarchy a.2 = true) (layout 0 (Frame.arguments m)) taken) ∧
    ∀ pool bytes d count ref, DecodedCode.ofBytes pool bytes = .ok d →
      .op (.invoke (.interface count) ref) ∈ d.instructions → ∀ c index f f',
      step c index (.op (.invoke (.interface count) ref)) f = .ok f' →
      ∃ vs rest, f.stack.Pops vs rest ∧ f'.stack = rest.append ref.descriptor.results ∧
        slots vs = count := by
  refine ⟨fun m n => ⟨exists_entry_iff, fun g => receives_entry⟩, ?_, ?_⟩
  · intro c index k ref m f f' hinit hm hf hstep
    obtain ⟨taken, rest, hentries, hstack, hbefore, hafter, htaken⟩ :=
      layout_of_call hinit hm hf hstep
    refine ⟨by omega, taken, rest, hentries, hstack, fun n g hg => ?_⟩
    exact (List.forall₂_and_left _ _).2 ⟨(receives_entry hg).argument, htaken⟩
  · intro pool bytes d count ref hd hmem c index f f' hstep
    obtain ⟨vs, rest, hsig, hpops, hstack⟩ := signature_of_call rfl hstep
    refine ⟨vs, rest, hpops, hstack, ?_⟩
    rw [slots_of_signature hsig, DecodedCode.count_eq hd hmem]
    rfl

/-! ### A call with a wide argument -/

namespace Posting

def owner : BinaryName := ⟨"p/Post", by decide +kernel⟩

def name : UnqualifiedName := ⟨"send", by decide +kernel⟩

def descriptor : MethodDescriptor := ⟨[.base .long, .base .int], some (.base .double)⟩

def method : Method := ⟨owner, name, descriptor, ⟨1⟩⟩

def ref : MethodRef := ⟨.object owner, name, descriptor, true⟩

def pool : ConstantPool := (ConstantTable.mk [(1, .method ref)]).pool

/-- A call of the interface method with four slots of arguments. -/
def bytes : List UInt8 := [0xb9, 0, 1, 4, 0]

def decoded : DecodedCode := ⟨[.op (.invoke (.interface 4) ref)], [0], 5⟩

def context : Context := ⟨ClassTable.hierarchy ⟨[]⟩, method, 5⟩

/-- A value that is not taken is below the receiver. -/
def frame : Frame := ⟨[], .ofList [.int, .ofClass owner, .long, .int]⟩

/-- The call takes four slots and leaves two. The receiver, the long and the integer are found in
locals 0, 1 and 3. -/
theorem callers_and_callees_agree_posting :
    ∃ (f' g : Frame) (taken : List (ℕ × VType)) (rest : Stack),
    DecodedCode.ofBytes pool bytes = .ok decoded ∧
    step context 0 (.op (.invoke (.interface 4) ref)) frame = .ok f' ∧
    Frame.entry method 4 = .ok g ∧ g.locals[2]? = some .top ∧
    frame.depth + 2 = f'.depth + 4 ∧
    List.Forall₂ (fun a e => g.locals[a.1]? = some a.2 ∧ e.1 = rest.height + a.1 ∧
      e.2.isAssignable context.hierarchy a.2 = true)
      [(0, .ofClass owner), (1, .long), (3, .int)] taken ∧
    ∃ vs rest, frame.stack.Pops vs rest ∧ slots vs = 4 := by
  obtain ⟨hentry, hcall, hdecoded⟩ := callers_and_callees_agree
  have hbytes : DecodedCode.ofBytes pool bytes = .ok decoded := by decide +kernel
  have hstep : step context 0 (.op (.invoke (.interface 4) ref)) frame =
      .ok ⟨[], .ofList [.int, .double]⟩ := by decide +kernel
  obtain ⟨g, hg⟩ := (hentry method 4).1.2 (by decide)
  have hcallee : IsCallee (.interface 4) ref method := ⟨rfl, rfl, by decide, by decide⟩
  obtain ⟨hdepth, taken, rest, -, -, htaken⟩ :=
    hcall context 0 (.interface 4) ref method frame _ rfl hcallee rfl hstep
  obtain ⟨vs, rest', hpops, -, hslots⟩ := hdecoded pool bytes decoded 4 ref hbytes
    List.mem_cons_self context 0 frame _ hstep
  exact ⟨_, g, taken, rest, hbytes, hstep, hg,
    ((hentry method 4).2 g hg).half (1, .long) (by decide) rfl, hdepth, htaken 4 g hg,
    vs, rest', hpops, hslots⟩

end Posting

end Bytecheck
