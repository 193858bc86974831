import Mathlib.Tactic.Common
import Bytecheck.Proofs.Constructors
import Bytecheck.Proofs.Lookups.Run
import Bytecheck.Proofs.ProperFrames

/-!
Internal faults.

Code is checked before it is analyzed, against a table of the locals that operations use. An
instruction fails with an internal fault only if it uses a local that the frame does not have, or
is part of a subroutine (`Mistaken`); frames keep the number of locals of the code, so checked code
has no such instruction. Blocks that wait have frames and are not empty. What is left is the limit
on visits.
-/

namespace Bytecheck

/-- An instruction that a frame cannot interpret: it uses a local that is not there, or it is part
of a subroutine. -/
inductive Mistaken (f : Frame) : Instruction ℕ → Prop
  | access {o : Op} {slot slots : ℕ} : o.localAccess = some (slot, slots) →
      f.locals.length < slot + slots → Mistaken f (.op o)
  | subroutine {b : Branch ℕ} : b.isSubroutine = true → Mistaken f (.branch b)

namespace Transfer

variable {c : Context} {f : Frame} {k : InternalFault}

lemma width_pos (k : Kind) : 0 < width k := by
  cases k with
  | ref => decide
  | num n => cases n <;> decide

/-- A type fault is no internal fault. -/
lemma mapError_type_ne {α : Type} (x : Except TypeFault α) :
    x.mapError StepFault.type ≠ .error (.internal k) := by
  intro h
  obtain ⟨e, -, he⟩ := mapError_error_iff.1 h
  cases he

lemma internal_of_readLocal {slot : ℕ} (h : readLocal f slot = .error (.internal k)) :
    f.locals.length ≤ slot := by
  unfold readLocal at h
  rcases bind_error_iff.1 h with h | ⟨x, -, h⟩
  · obtain ⟨e, he, -⟩ := mapError_error_iff.1 h
    unfold Frame.get at he
    split at he
    · cases he
    · rename_i hnone
      exact List.getElem?_eq_none_iff.1 hnone
  · split at h <;> cases h

lemma internal_of_readExact {slot : ℕ} {x : VType} (h : readExact f slot x = .error (.internal k)) :
    f.locals.length ≤ slot := by
  unfold readExact at h
  rcases bind_error_iff.1 h with h | ⟨y, -, h⟩
  · exact internal_of_readLocal h
  · split at h <;> cases h

lemma internal_of_loaded {kind : Kind} {slot : ℕ} (h : loaded f kind slot = .error (.internal k)) :
    f.locals.length ≤ slot := by
  cases kind with
  | num n => exact internal_of_readExact h
  | ref =>
    unfold loaded at h
    rcases bind_error_iff.1 h with h | ⟨y, -, h⟩
    · exact internal_of_readLocal h
    · split at h <;> cases h

lemma internal_of_stepOp {i : ℕ} {o : Op} (h : stepOp c i o f = .error (.internal k)) :
    Mistaken f (.op o) := by
  -- operations that see the stack alone
  have hstack : ∀ {x : Except TypeFault Stack},
      (do
        let s ← x.mapError StepFault.type
        .ok { f with stack := s }) = Except.error (StepFault.internal k) → Mistaken f (.op o) := by
    intro x hx
    rcases bind_error_iff.1 hx with hx | ⟨s, -, hx⟩
    · exact absurd hx (mapError_type_ne x)
    · cases hx
  cases o with
  | load kind slot =>
    rcases bind_error_iff.1 h with h | ⟨x, -, h⟩
    · have hslot := internal_of_loaded h
      have hpos := width_pos kind
      exact .access rfl (by omega)
    · cases h
  | store kind slot =>
    rcases bind_error_iff.1 h with h | ⟨⟨x, s⟩, hstored, h⟩
    · exact absurd h (mapError_type_ne _)
    · obtain ⟨e, he, -⟩ := mapError_error_iff.1 h
      rw [Frame.set_eq] at he
      split at he
      · rename_i hslot
        rw [width_stored (mapError_ok_iff.1 hstored)] at hslot
        exact .access rfl hslot
      · cases he
  | iinc slot d =>
    rcases bind_error_iff.1 h with h | ⟨x, -, h⟩
    · have hslot := internal_of_readExact h
      exact .access rfl (by omega)
    · cases h
  | new r =>
    unfold stepOp at h
    dsimp only at h
    split at h
    · cases h
    · split at h <;> cases h
  | invoke kind m =>
    unfold stepOp at h
    dsimp only at h
    split at h
    · exact absurd h (mapError_type_ne _)
    · exact hstack h
  | _ => exact hstack h

lemma internal_of_stepBranch {b : Branch ℕ} (h : stepBranch c b f = .error (.internal k)) :
    Mistaken f (.branch b) := by
  -- branches that see the stack alone
  have hstack : ∀ {x : Except TypeFault Stack},
      ((x.mapError StepFault.type).map fun s => { f with stack := s }) ≠
        .error (StepFault.internal k) := by
    intro x hx
    cases x <;> cases hx
  cases b with
  | goto t => cases h
  | leave r =>
    unfold stepBranch at h
    dsimp only at h
    split at h
    · exact absurd h hstack
    · cases h
  | jsr t => exact .subroutine rfl
  | ret slot => exact .subroutine rfl
  | _ => exact absurd h hstack

/-- **One instruction** fails with an internal fault only if the frame cannot interpret it. -/
lemma internal_of_step {i : ℕ} {insn : Instruction ℕ}
    (h : step c i insn f = .error (.internal k)) : Mistaken f insn := by
  unfold step at h
  rcases bind_error_iff.1 h with h | ⟨g, -, h⟩
  · cases insn with
    | op o => exact internal_of_stepOp h
    | branch b => exact internal_of_stepBranch h
  · split at h <;> cases h

end Transfer

lemma Code.Sound.not_mistaken {code : Code} (hc : code.Sound) {i : ℕ} {insn : Instruction ℕ}
    {f : Frame} (hi : code.instructions[i]? = some insn) (hf : f.locals.length = code.maxLocals) :
    ¬ Mistaken f insn := by
  intro h
  cases h with
  | access ha hlt =>
    have := hc.access hi ha
    omega
  | subroutine hb =>
    rw [hc.plain hi] at hb
    cases hb

namespace Analysis

variable {h : Hierarchy} {m : Method} {g : FlowGraph} {code : Code} {entry e : Frame}
  {settings : Settings} {place : Option ℕ} {k : InternalFault}

/-- **One visit** does not fail with an internal fault. -/
lemma VisitFault.not_internal (L : g.Laid code) (he : e.Within m code) {B : Block} {s : State} :
    ¬ VisitFault (problem h m g code) B e s (.internal place k) := by
  suffices hall : ∀ fault, VisitFault (problem h m g code) B e s fault →
      fault ≠ .internal place k from fun hfault => hall _ hfault rfl
  intro fault hfault
  cases hfault with
  | room => simp
  | merge => simp
  | @step i insn f kind hw hi hcode hstep =>
    cases kind with
    | type => simp [AnalysisFault.ofStep]
    | internal kind =>
      have hlocals := (within_walk he hw).proper.locals
      exact absurd (Transfer.internal_of_step hstep) (L.sound.not_mistaken hcode hlocals)

/-- Of the internal faults there is but the limit, and when it is reported a block still waits. -/
lemma waiting_of_run (L : g.Laid code) (hentry : Frame.entry m code.maxLocals = .ok entry)
    (hfail : (run (problem h m g code) settings entry).outcome = .error (.internal place k)) :
    ∃ s b, Runs (problem h m g code) (initial (problem h m g code) entry)
        (ceiling (problem h m g code) settings) s ∧ b ∈ s.queue ∧
      place = none ∧ k = .iterationLimit (ceiling (problem h m g code) settings) := by
  unfold run at hfail
  rw [Traced.outcome_bind, bind_error_iff] at hfail
  rcases hfail with hloop | ⟨r, -, hfail⟩
  · rcases loop_fails hloop with ⟨n, s, b, hruns, hb, hvisit⟩ | ⟨s, b, hruns, hb, hlimit⟩
    · obtain ⟨B, e, -, he, hyields⟩ := (hruns.tidy L (tidy_initial L entry)).visit L hb
      have hwithin := hruns.within L hentry b e (frame?_eq he)
      exact absurd (hyields.2 _ hvisit) (VisitFault.not_internal L hwithin)
    · cases hlimit
      exact ⟨s, b, hruns, hb, rfl, rfl⟩
  · cases hfail

/-- **A whole run** fails with an internal fault only if it runs out of visits. -/
lemma internal_of_run (L : g.Laid code) (hentry : Frame.entry m code.maxLocals = .ok entry)
    (hfail : (run (problem h m g code) settings entry).outcome = .error (.internal place k)) :
    place = none ∧ k = .iterationLimit (ceiling (problem h m g code) settings) := by
  obtain ⟨s, b, -, -, hlimit⟩ := waiting_of_run L hentry hfail
  exact hlimit

/-- Why a method is rejected: because of its code, or because its analysis fails. -/
def Rejects (h : Hierarchy) (settings : Settings) (m : Method) (code : Code)
    (cause : AnalysisFault) : Prop :=
  (∃ fault, cause = .structural fault) ∨
    ∃ g entry, FlowGraph.build code = .ok g ∧ Frame.entry m code.maxLocals = .ok entry ∧
      (run (problem h m g code) settings entry).outcome = .error cause

lemma buildGraph_yields : Traced.Yields (Verify.buildGraph code)
    (fun g => FlowGraph.build code = .ok g) (Rejects h settings m code) := by
  refine Traced.Yields.bind (P := fun g => FlowGraph.build code = .ok g)
    (Traced.yields_lift_mapError (fun _ hg => hg) fun fault _ => Or.inl ⟨fault, rfl⟩) fun g hg => ?_
  exact (Traced.yields_note _).bind fun _ _ => Traced.yields_pure hg

lemma analyze_yields : Traced.Yields
    (Verify.analyze (Transfer.interpreter ⟨h, m, code.maxStack⟩) h settings m code)
    (fun _ => True) (Rejects h settings m code) := by
  refine buildGraph_yields.bind fun g hg => ?_
  refine Traced.Yields.bind (P := fun f => Frame.entry m code.maxLocals = .ok f)
    (Traced.yields_lift_mapError (fun _ hf => hf) fun fault _ => Or.inl ⟨fault, rfl⟩)
    fun entry hentry => ?_
  have hrun : Traced.Yields (run (problem h m g code) settings entry) (fun _ => True)
      (Rejects h settings m code) :=
    ⟨fun _ _ => trivial, fun cause hcause => Or.inr ⟨g, entry, hg, hentry, hcause⟩⟩
  exact hrun.bind fun a _ => Traced.yields_pure trivial

lemma verified_yields : Traced.Yields
    (Verify.verified (Transfer.interpreter ⟨h, m, code.maxStack⟩) h settings m code)
    (fun _ => True) (Rejects h settings m code) := by
  refine analyze_yields.bind fun ⟨g, a⟩ _ => ?_
  dsimp only
  split
  · exact (Traced.yields_note _).bind fun _ _ => Traced.yields_pure trivial
  · exact Traced.yields_pure trivial

lemma method_fails {lineOf? : ℕ → Option ℕ} {failure : Failure}
    (hfail : (Verify.method h settings m code lineOf?).outcome = .error failure) :
    Rejects h settings m code failure.cause := by
  unfold Verify.method Verify.withInterpreter at hfail
  dsimp only at hfail
  split at hfail
  · cases hfail
  · rename_i cause hcause
    cases hfail
    exact verified_yields.2 cause hcause

/-- **Checked code has no internal faults.** Whatever the classes, the method, the code and the
settings are: if a method is rejected with an internal fault, then the analysis has reached the
ceiling on its visits; and every lookup of the analysis finds what it looks for, in the graph and
the frames it makes too. -/
theorem internal_fault_is_limit (h : Hierarchy) (settings : Settings) (m : Method) (code : Code)
    (lineOf? : ℕ → Option ℕ) :
    (∀ failure place fault,
      (Verify.method h settings m code lineOf?).outcome = .error failure →
      failure.cause = .internal place fault →
      place = none ∧ ∃ g, FlowGraph.build code = .ok g ∧
        fault = .iterationLimit (ceiling (problem h m g code) settings)) ∧
    Indexed.analyze h settings m code =
      Indexed.lift (Verify.analyze (Transfer.interpreter ⟨h, m, code.maxStack⟩) h settings m
        code).outcome := by
  refine ⟨fun failure place fault hfail hcause => ?_, Indexed.analyze_eq h settings m code⟩
  rcases method_fails hfail with ⟨f, hf⟩ | ⟨g, entry, hg, hentry, hrun⟩
  · rw [hcause] at hf
    cases hf
  · rw [hcause] at hrun
    obtain ⟨hplace, hlimit⟩ := internal_of_run (FlowGraph.build_laid hg) hentry hrun
    exact ⟨hplace, g, hg, hlimit⟩

end Analysis

/-! ### A limit that is reached -/

namespace Spinning

def owner : BinaryName := ⟨"p/Spin", by decide +kernel⟩
def name : UnqualifiedName := ⟨"spin", by decide +kernel⟩

def method : Method := ⟨owner, name, ⟨[], none⟩, ⟨8⟩⟩

/-- A loop without an end. -/
def code : Code where
  instructions := [.branch (.goto 0)]
  maxStack := 0
  maxLocals := 0
  handlers := []

def hierarchy : Hierarchy := ClassTable.hierarchy ⟨[]⟩

/-- No block may be visited. -/
def settings : Settings := ⟨0, false⟩

end Spinning

/-- Where no visit is allowed, the limit is reported. -/
theorem internal_fault_is_limit_spinning : ∃ failure,
    (Verify.method Spinning.hierarchy Spinning.settings Spinning.method Spinning.code
      fun _ => none).outcome = .error failure ∧
    failure.cause = .internal none (.iterationLimit 0) ∧
    ∃ g, FlowGraph.build Spinning.code = .ok g ∧ InternalFault.iterationLimit 0 =
      .iterationLimit (Analysis.ceiling (Analysis.problem Spinning.hierarchy Spinning.method g
        Spinning.code) Spinning.settings) := by
  have hfail : (Verify.method Spinning.hierarchy Spinning.settings Spinning.method Spinning.code
      fun _ => none).outcome = .error ⟨.internal none (.iterationLimit 0), none⟩ := by
    decide +kernel
  have hlimit := (Analysis.internal_fault_is_limit Spinning.hierarchy Spinning.settings
    Spinning.method Spinning.code fun _ => none).1 _ _ _ hfail rfl
  exact ⟨_, hfail, rfl, hlimit.2⟩

end Bytecheck
