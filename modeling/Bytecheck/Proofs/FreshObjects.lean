import Mathlib.Tactic.Common
import Bytecheck.Proofs.InternalFaults
import Bytecheck.Proofs.Schedules
import Bytecheck.Proofs.StackWords

/-!
A `new` meets no object that it made before.

An interpreter of code has to refuse a `new` while the frame holds an object that the same
instruction made and that is not initialized: the two could not be told apart. Of all instructions
and merges only a `new` in such a frame complains of that. In no run is there such a frame, so
nothing is ever rejected for this reason.
-/

namespace Bytecheck

/-! ### Faults -/

/-- The complaint about a `new` that meets its own objects. -/
def TypeFault.isStale : TypeFault → Bool
  | .staleUninitialized _ => true
  | _ => false

/-- The computation does not complain about a `new` that meets its own objects. -/
abbrev Calm {α : Type} (x : Except TypeFault α) : Prop := Raises x fun e => e.isStale = false

namespace Stack

variable {α : Type} {s : Stack} {f : VType × Stack → Except TypeFault α}

lemma calm_pop (s : Stack) : Calm s.pop := by
  unfold pop
  split
  · exact .ok _
  · exact .error rfl

lemma calm_pop_bind (hf : ∀ x s', Calm (f (x, s'))) : Calm (s.pop >>= f) :=
  (calm_pop s).bind fun r => hf r.1 r.2

lemma calm_popNarrow (s : Stack) : Calm s.popNarrow :=
  calm_pop_bind fun _ _ => .ite (.ok _) (.error rfl)

lemma calm_popExact (t : VType) (s : Stack) : Calm (s.popExact t) :=
  calm_pop_bind fun _ _ => .ite (.ok _) (.error rfl)

lemma calm_popAll (ts : List VType) (s : Stack) : Calm (s.popAll ts) :=
  .foldlM (fun s t => calm_popExact t s) ts s

lemma calm_popAssignable (h : Hierarchy) (t : VType) (s : Stack) : Calm (s.popAssignable h t) :=
  calm_pop_bind fun _ _ => .ite (.ok _) (.error rfl)

lemma calm_popArguments (h : Hierarchy) (ps : List FieldType) (s : Stack) :
    Calm (s.popArguments h ps) := .foldlM (fun s p => calm_popAssignable h (.ofField p) s) _ s

lemma calm_popReference (s : Stack) : Calm s.popReference :=
  calm_pop_bind fun _ _ => .ite (.ok _) (.error rfl)

lemma calm_popInitialized (s : Stack) : Calm s.popInitialized := by
  refine calm_pop_bind fun x s' => ?_
  cases x with
  | null => exact .ok _
  | object r => exact .ok _
  | _ => exact .error rfl

lemma calm_popPrimitives (b : BaseType) (bs : List BaseType) (s : Stack) :
    Calm (s.popPrimitives b bs) := calm_pop_bind fun _ _ => .ite (.ok _) (.error rfl)

lemma calm_popReferences (s : Stack) : Calm s.popReferences := by
  refine calm_pop_bind fun x s' => ?_
  cases x with
  | null => exact .ok _
  | object r =>
    dsimp only
    split
    · exact .ok _
    · exact .error rfl
  | _ => exact .error rfl

lemma calm_popSlots (n : ℕ) (s : Stack) : Calm (s.popSlots n) := by
  induction n using Nat.strongRecOn generalizing s with
  | ind n ih =>
    match n with
    | 0 => exact .ok _
    | 1 => exact (calm_popNarrow s).map _
    | n + 2 =>
      rw [popSlots]
      exact calm_pop_bind fun _ _ =>
        .ite ((ih (n + 1) (by omega) _).map _) ((ih n (by omega) _).map _)

lemma calm_shuffle (o : StackOp) (s : Stack) : Calm (s.shuffle o) := by
  rw [shuffle_eq]
  exact (calm_popSlots _ s).bind fun _ => (calm_popSlots _ _).bind fun _ => .ok _

end Stack

namespace Transfer

open Stack

variable {c : Context} {f : Frame}

lemma calm_arrayLoad (k : ElementKind) (s : Stack) : Calm (arrayLoad k s) := by
  refine (calm_popExact .int s).bind fun s => ?_
  split
  · exact (calm_popPrimitives _ _ s).bind fun _ => .ok _
  · exact (calm_popReferences s).bind fun _ => .ok _

lemma calm_arrayStore (h : Hierarchy) (k : ElementKind) (s : Stack) : Calm (arrayStore h k s) := by
  unfold arrayStore
  split
  · exact (calm_popExact _ s).bind fun s => (calm_popExact _ s).bind fun s =>
      calm_popPrimitives _ _ s
  · refine (calm_popInitialized s).bind fun ⟨x, s⟩ => (calm_popExact _ s).bind fun s =>
      (calm_popReferences s).bind fun ⟨e, s⟩ => ?_
    cases e with
    | none => exact .ok _
    | some e => exact .ite (.ok _) (.error rfl)

lemma calm_call (h : Hierarchy) (k : InvokeKind) (m : MethodRef) (s : Stack) :
    Calm (call h k m s) := by
  refine (calm_popArguments h _ s).bind fun s => ?_
  by_cases hfits : callFits k m.onInterface = true
  · rw [if_neg (not_not_intro hfits)]
    by_cases hk : k = .static
    · rw [if_pos hk]
      exact .ok _
    · rw [if_neg hk]
      exact (calm_popAssignable h _ s).bind fun _ => .ok _
  · rw [if_pos hfits]
    exact .error rfl

lemma calm_stackEffect (c : Context) (o : Op) (s : Stack) : Calm (stackEffect c o s) := by
  cases o with
  | ldc k | ldc2 k => exact .ite (.ok _) (.error rfl)
  | arrayLoad k => exact calm_arrayLoad k s
  | arrayStore k => exact calm_arrayStore c.hierarchy k s
  | stack o => exact calm_shuffle o s
  | «calc» f => exact (calm_popAll _ s).bind fun _ => .ok _
  | putStatic f => exact calm_popAssignable _ _ s
  | getField f => exact (calm_popAssignable _ _ s).bind fun _ => .ok _
  | putField f =>
    refine (calm_popAssignable _ _ s).bind fun s => ?_
    exact .ite ((calm_pop s).bind fun _ => .ok _) (calm_popAssignable _ _ s)
  | invoke k m => exact calm_call c.hierarchy k m s
  | invokeDynamic d => exact (calm_popArguments _ _ s).bind fun _ => .ok _
  | newArray b => exact (calm_popExact _ s).bind fun _ => .ok _
  | anewArray r => exact (calm_popExact _ s).bind fun _ => .ok _
  | multiANewArray r n => exact .ite (.error rfl) ((calm_popAll _ s).bind fun _ => .ok _)
  | arrayLength =>
    refine calm_pop_bind fun x s' => ?_
    cases x with
    | null => exact .ok _
    | object r => exact .ite (.ok _) (.error rfl)
    | _ => exact .error rfl
  | checkCast r | instanceOf r => exact (calm_popInitialized s).bind fun _ => .ok _
  | monitorEnter | monitorExit => exact (calm_popInitialized s).bind fun _ => .ok _
  | _ => exact .ok _

lemma calm_initialized (c : Context) (owner : RefType) (x : VType) :
    Calm (initialized c owner x) := by
  cases x with
  | uninitThis => exact .ite (.ok _) (.error rfl)
  | uninit r i => exact .ite (.ok _) (.error rfl)
  | _ => exact .error rfl

lemma calm_construct (c : Context) (m : MethodRef) (f : Frame) : Calm (construct c m f) := by
  refine (calm_popArguments _ _ f.stack).bind fun s => ?_
  refine .ite (.error rfl) (.ite (.error rfl) ?_)
  exact (calm_pop s).bind fun _ => (calm_initialized c _ _).bind fun _ => .ok _

lemma calm_returnEffect (c : Context) (k : Option Kind) (s : Stack) :
    Calm (returnEffect c k s) := by
  refine .ite ?_ (.error rfl)
  split
  · exact .ok _
  · exact calm_popAssignable _ _ s

lemma calm_throwEffect (h : Hierarchy) (s : Stack) : Calm (throwEffect h s) := by
  refine calm_pop_bind fun x s' => ?_
  dsimp only
  split
  · exact .ok _
  · exact .ite (.ok _) (.error rfl)
  · exact .error rfl

/-- The instruction complains, if at all, about something else. -/
abbrev Settled {α : Type} (x : Except StepFault α) : Prop :=
  Raises x fun k => ∀ j, k ≠ .type (.staleUninitialized j)

lemma settled_of_calm {α : Type} {x : Except TypeFault α} (hx : Calm x) :
    Settled (x.mapError .type) := by
  refine .mapError fun e he j hj => ?_
  cases hj
  cases hx _ he

lemma settled_readLocal (f : Frame) (slot : ℕ) : Settled (readLocal f slot) := by
  refine .bind (.mapError fun e _ j hj => by cases hj) fun x => ?_
  exact .ite (.error fun j hj => by cases hj) (.ok _)

lemma settled_readExact (f : Frame) (slot : ℕ) (t : VType) : Settled (readExact f slot t) :=
  (settled_readLocal f slot).bind fun _ => .ite (.ok _) (.error fun j hj => by cases hj)

lemma settled_loaded (f : Frame) (k : Kind) (slot : ℕ) : Settled (loaded f k slot) := by
  cases k with
  | num n => exact settled_readExact f slot n.vtype
  | ref =>
    exact (settled_readLocal f slot).bind fun _ => .ite (.ok _) (.error fun j hj => by cases hj)

lemma calm_stored (k : Kind) (s : Stack) : Calm (stored k s) := by
  cases k with
  | num n => exact (calm_popExact n.vtype s).map _
  | ref => exact calm_popReference s

/-- An operation complains only if it is a `new` in a frame with an object that it made. -/
lemma settled_stepOp {i : ℕ} {o : Op}
    (hnew : ∀ r, o = .new r → f.any (VType.isUninitFrom i) = false) : Settled (stepOp c i o f) := by
  have hstack : Settled ((stackEffect c o f.stack).mapError StepFault.type >>= fun s =>
      .ok { f with stack := s }) :=
    (settled_of_calm (calm_stackEffect c o f.stack)).bind fun _ => .ok _
  cases o with
  | load k slot => exact (settled_loaded f k slot).bind fun _ => .ok _
  | store k slot =>
    refine (settled_of_calm (calm_stored k f.stack)).bind fun _ => ?_
    exact .mapError fun e _ j hj => by cases hj
  | iinc slot d => exact (settled_readExact f slot .int).bind fun _ => .ok _
  | new r =>
    unfold stepOp
    dsimp only
    rw [hnew r rfl]
    exact .ite (.error fun j hj => by cases hj) (.ok _)
  | invoke k m => exact .ite (settled_of_calm (calm_construct c m f)) hstack
  | _ => exact hstack

lemma settled_stepBranch (c : Context) (b : Branch ℕ) (f : Frame) : Settled (stepBranch c b f) := by
  have hstack : ∀ {x : Except TypeFault Stack}, Calm x →
      Settled ((x.mapError StepFault.type).map fun s => { f with stack := s }) :=
    fun hx => (settled_of_calm hx).map _
  cases b with
  | ifZero o t => exact hstack (calm_popExact _ _)
  | tableSwitch d low ts => exact hstack (calm_popExact _ _)
  | lookupSwitch d cs => exact hstack (calm_popExact _ _)
  | ifInt o t => exact hstack (calm_popAll _ _)
  | ifRef o t =>
    refine hstack ((calm_popReference _).bind fun _ => (calm_popReference _).bind fun _ => .ok _)
  | ifNull o t => exact hstack ((calm_popReference _).map _)
  | goto t => exact .ok _
  | leave k =>
    exact .ite (hstack (calm_returnEffect c k _)) (.error fun j hj => by cases hj)
  | athrow => exact hstack (calm_throwEffect _ _)
  | jsr t => exact .error fun j hj => by cases hj
  | ret slot => exact .error fun j hj => by cases hj

/-- **One instruction** complains only if it is a `new` in a frame with an object that it made. -/
lemma settled_step {i : ℕ} {insn : Instruction ℕ}
    (hnew : ∀ r, insn = .op (.new r) → f.any (VType.isUninitFrom i) = false) :
    Settled (step c i insn f) := by
  refine .bind ?_ fun _ => .ite (.error fun j hj => by cases hj) (.ok _)
  cases insn with
  | op o => exact settled_stepOp fun r hr => hnew r (congrArg _ hr)
  | branch b => exact settled_stepBranch c b f

end Transfer

lemma Frame.calm_joinStack (h : Hierarchy) (l : List (ℕ × VType)) (l' : List VType) :
    Calm (joinStack h l l') := by
  induction l generalizing l' with
  | nil => exact .ok _
  | cons e l ih =>
    cases l' with
    | nil => exact .ok _
    | cons y l' =>
      unfold joinStack
      split
      · exact .error rfl
      · exact (ih l').map _

lemma Frame.calm_merge (h : Hierarchy) (f g : Frame) : Calm (f.merge h g) := by
  rw [merge_eq]
  exact .ite ((calm_joinStack h _ _).bind fun _ => .ok _) (.error rfl)

namespace Analysis

section Runs

variable {h : Hierarchy} {m : Method} {g : FlowGraph} {code : Code} {entry e : Frame}
  {settings : Settings}

/-- **One visit** of a block does not complain. -/
lemma VisitFault.ne_stale {B : Block} {s : State} {fault : AnalysisFault} {place j : ℕ}
    (hfresh : ∀ i f, Walk (problem h m g code) B e i f → i < B.stop →
      f.any (VType.isUninitFrom i) = false)
    (hfault : VisitFault (problem h m g code) B e s fault) :
    fault ≠ .type place (.staleUninitialized j) := by
  cases hfault with
  | room => simp
  | @merge t x old s' P k hsend hposts hP hold hm =>
    intro hk
    cases hk
    cases Frame.calm_merge h old x _ hm
  | @step i insn f k hw hi hcode hstep =>
    have hk := Transfer.settled_step (fun r _ => hfresh i f hw hi) k hstep j
    cases k with
    | type k =>
      intro heq
      cases heq
      exact hk rfl
    | internal k => simp [AnalysisFault.ofStep]

/-- **A whole run** does not complain. -/
lemma run_ne_stale (L : g.Laid code) (hentry : Frame.entry m code.maxLocals = .ok entry)
    (place j : ℕ) :
    (run (problem h m g code) settings entry).outcome ≠
      .error (.type place (.staleUninitialized j)) := by
  intro hfail
  unfold run at hfail
  rw [Traced.outcome_bind, bind_error_iff] at hfail
  rcases hfail with hloop | ⟨r, -, hfail⟩
  · rcases loop_fails hloop with ⟨n, s, b, hruns, hb, hvisit⟩ | ⟨s, b, -, -, hlimit⟩
    · obtain ⟨B, e, hB, he, hyields⟩ := (hruns.tidy L (tidy_initial L entry)).visit L hb
      have hfresh : ∀ i f, Walk (problem h m g code) B e i f → i < B.stop →
          f.any (VType.isUninitFrom i) = false :=
        fun i f hw hi => hruns.fresh L hentry hB (frame?_eq he) hw hi
      exact VisitFault.ne_stale hfresh (hyields.2 _ hvisit) rfl
    · cases hlimit
  · cases hfail

/-- **Objects are fresh.** Whatever the classes, the method, the code and the settings are, no
method is rejected because a `new` meets its own objects. At every visit of a block in every run,
the frame in which a `new` is interpreted holds no uninitialized object that the instruction
made. -/
theorem new_meets_no_own_object (h : Hierarchy) (settings : Settings) (m : Method) (code : Code)
    (lineOf? : ℕ → Option ℕ) :
    (∀ failure place j, (Verify.method h settings m code lineOf?).outcome = .error failure →
      failure.cause ≠ .type place (.staleUninitialized j)) ∧
    ∀ g entry, FlowGraph.build code = .ok g → Frame.entry m code.maxLocals = .ok entry →
      ∀ k s, Runs (problem h m g code) (initial (problem h m g code) entry) k s →
      ∀ b B e i f, g.blocks[b]? = some B → s.frame? b = some e →
        Walk (problem h m g code) B e i f → i < B.stop → ∀ r, ¬ f.Has (.uninit r i) := by
  constructor
  · intro failure place j hfail hcause
    rcases method_fails hfail with ⟨f, hf⟩ | ⟨g, entry, hg, hentry, hrun⟩
    · rw [hcause] at hf
      cases hf
    · rw [hcause] at hrun
      exact run_ne_stale (FlowGraph.build_laid hg) hentry place j hrun
  · intro g entry hg hentry k s hruns b B e i f hB he hw hi r hr
    have hfresh := hruns.fresh (FlowGraph.build_laid hg) hentry hB he hw hi
    rw [Bool.eq_false_iff] at hfresh
    exact hfresh (Frame.any_iff.2 ⟨_, hr, by simp [VType.isUninitFrom]⟩)

end Runs

/-! ### A loop around a `new` -/

namespace Hatching

def owner : BinaryName := ⟨"p/Hen", by decide +kernel⟩

def method : Method := ⟨owner, ⟨"hatch", by decide +kernel⟩, ⟨[], none⟩, ⟨8⟩⟩

/-- The object of the last round is in the local when the next one is made. -/
def code : Code where
  instructions := [.op .aconstNull, .op (.store .ref 0), .op (.new (.object owner)),
    .op (.store .ref 0), .branch (.goto 2)]
  maxStack := 1
  maxLocals := 1
  handlers := []

def hierarchy : Hierarchy := ClassTable.hierarchy ⟨[]⟩

def entry : Frame := ⟨[.top], .empty⟩

def problem : Problem := Analysis.problem hierarchy method (Flow.graphOf code) code

lemma build_code : FlowGraph.build code = .ok (Flow.graphOf code) := by
  have h : Flow.firstFault code = none := by decide +kernel
  simp [FlowGraph.build, h]

/-- After two visits the loop waits for its second one. -/
lemma second_round : ∃ s, Runs problem (initial problem entry) 2 s ∧
    s.queue = [1] ∧ s.frame? 1 = some ⟨[.top], .empty⟩ := by
  have h : (follow problem [0, 1] (initial problem entry)).map (fun s => (s.queue, s.frame? 1)) =
      some ([1], some ⟨[.top], .empty⟩) := by decide +kernel
  obtain ⟨s, hs, heq⟩ := Option.map_eq_some_iff.1 h
  exact ⟨s, runs_of_follow hs, congrArg Prod.fst heq, congrArg Prod.snd heq⟩

lemma loop_block : ∃ B, (Flow.graphOf code).blocks[1]? = some B ∧ B.start = 2 ∧ B.stop = 5 := by
  have h : ((Flow.graphOf code).blocks[1]?).map (fun B => (B.start, B.stop)) = some (2, 5) := by
    decide +kernel
  obtain ⟨B, hB, heq⟩ := Option.map_eq_some_iff.1 h
  exact ⟨B, hB, congrArg Prod.fst heq, congrArg Prod.snd heq⟩

/-- With no visit allowed the sample method is rejected, for another reason. When the loop is
visited for the second time, the `new` is fresh. -/
theorem new_meets_no_own_object_hatching :
    (∃ failure, (Verify.method hierarchy ⟨0, false⟩ method code fun _ => none).outcome =
      .error failure ∧ ∀ place j, failure.cause ≠ .type place (.staleUninitialized j)) ∧
    ∃ s e, Runs problem (initial problem entry) 2 s ∧ s.queue = [1] ∧ s.frame? 1 = some e ∧
      ∀ r, ¬ e.Has (.uninit r 2) := by
  have hfresh := new_meets_no_own_object hierarchy ⟨0, false⟩ method code fun _ => none
  constructor
  · have hfail : (Verify.method hierarchy ⟨0, false⟩ method code fun _ => none).outcome =
        .error ⟨.internal none (.iterationLimit 0), none⟩ := by decide +kernel
    exact ⟨_, hfail, fun place j => hfresh.1 _ place j hfail⟩
  · obtain ⟨s, hruns, hqueue, hframe⟩ := second_round
    obtain ⟨B, hB, hstart, hstop⟩ := loop_block
    refine ⟨s, _, hruns, hqueue, hframe, fun r => ?_⟩
    have hentry : Frame.entry method code.maxLocals = .ok entry := by decide +kernel
    have hnone := hfresh.2 _ _ build_code hentry 2 s hruns 1 B _ B.start _ hB hframe .start
      (by omega) r
    rwa [hstart] at hnone

end Hatching

end Analysis

end Bytecheck
