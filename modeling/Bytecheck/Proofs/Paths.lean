import Mathlib.Tactic.Common
import Bytecheck.Proofs.FixedPoint

/-!
Paths through a method.

An execution follows one path of control and interprets the instructions on the way, without ever
merging frames. What is kept between its frame and the recorded one, when an instruction is
interpreted in both and when the recorded one goes up, holds wherever a path leads
(`Execution.kept`). So the frame of an execution is below the recorded one.
-/

namespace Bytecheck.Analysis

open Transfer

/-- An execution of a method on types: the instructions on the way, the one that it has come to, and
the frame before that one. At each step, `number` says which index the instruction is given; the
step itself and the place of the instruction are known to it. An exception leaves the locals from
before the instruction, or from after it if the instruction writes one. -/
inductive Execution (h : Hierarchy) (m : Method) (code : Code) (number : ℕ → ℕ → ℕ) :
    List ℕ → ℕ → Frame → Prop
  | start {entry : Frame} : Frame.entry m code.maxLocals = .ok entry →
      Execution h m code number [] 0 entry
  | flow {past : List ℕ} {i j : ℕ} {insn : Instruction ℕ} {f f' : Frame} :
      Execution h m code number past i f → code.instructions[i]? = some insn →
      step ⟨h, m, code.maxStack⟩ (number past.length i) insn f = .ok f' → code.Flows i j →
      Execution h m code number (past ++ [i]) j f'
  | caughtBefore {past : List ℕ} {i : ℕ} {f : Frame} {hd : Handler} :
      Execution h m code number past i f → code.Catches i hd →
      Execution h m code number (past ++ [i]) hd.entry (handlerFrame (caught hd) f)
  | caughtAfter {past : List ℕ} {i : ℕ} {insn : Instruction ℕ} {f f' : Frame} {hd : Handler} :
      Execution h m code number past i f → code.instructions[i]? = some insn →
      insn.writesLocal = true →
      step ⟨h, m, code.maxStack⟩ (number past.length i) insn f = .ok f' → code.Catches i hd →
      Execution h m code number (past ++ [i]) hd.entry (handlerFrame (caught hd) f')

section Paths

variable {t : ClassTable} {m : Method} {code : Code} {number : ℕ → ℕ → ℕ} {v : Verified}
  {g : FlowGraph} {entry f : Frame} {past : List ℕ} {i : ℕ}

/-- What is kept between the frame of an execution and the recorded one: it holds at the start, it
is kept when the recorded frame goes up, when an instruction is interpreted in both frames or in
none of them, and when an exception is caught. -/
structure Kept (t : ClassTable) (m : Method) (code : Code) (number : ℕ → ℕ → ℕ) (v : Verified)
    (entry : Frame) (K : List ℕ → Frame → Frame → Prop) : Prop where
  start : K [] entry entry
  up : ∀ {past f k k'}, K past f k → Frame.Rel (Lower t) code.maxLocals k k' → K past f k'
  step : ∀ {past i insn f k f' k'}, K past f k → v.frame? i = some k →
    step ⟨t.hierarchy, m, code.maxStack⟩ (number past.length i) insn f = .ok f' →
    step ⟨t.hierarchy, m, code.maxStack⟩ i insn k = .ok k' → K (past ++ [i]) f' k'
  skip : ∀ {past f k} i, K past f k → K (past ++ [i]) f k
  caught : ∀ {past f k} hd, K past f k →
    K past (handlerFrame (caught hd) f) (handlerFrame (caught hd) k)

/-- **Along a path**, every instruction has a recorded frame, and what is kept holds of it. -/
theorem Execution.kept {K : List ℕ → Frame → Frame → Prop}
    (S : Solution (problem t.hierarchy m g code) (Lower t) code.maxLocals entry v.before v.after)
    (hentry : Frame.entry m code.maxLocals = .ok entry) (hK : Kept t m code number v entry K)
    (hx : Execution t.hierarchy m code number past i f) :
    ∃ k, v.frame? i = some k ∧ K past f k := by
  -- where a frame goes that was recorded around an instruction
  have harrive : ∀ {past f k k'} {j : ℕ}, K past f k → v.before[j]? = some (some k') →
      Frame.Rel (Lower t) code.maxLocals k k' → ∃ k, v.frame? j = some k ∧ K past f k :=
    fun h hk' hup => ⟨_, frame?_eq_some_iff.2 hk', hK.up h hup⟩
  induction hx with
  | start hstart =>
    rw [hentry] at hstart
    cases hstart
    obtain ⟨k, hk, hup⟩ := S.entry
    exact harrive hK.start hk hup
  | flow _ hi hstep hflow ih =>
    obtain ⟨k, hk, h⟩ := ih
    obtain ⟨-, insn', k', hi', hstep', hafter⟩ := S.step (frame?_eq_some_iff.1 hk)
    have hcode : some _ = some insn' := hi.symm.trans hi'
    cases hcode
    obtain ⟨u, hu, hup⟩ := S.flows hafter hflow
    exact harrive (hK.step h hk hstep hstep') hu hup
  | @caughtBefore past i f hd _ hcatch ih =>
    obtain ⟨k, hk, h⟩ := ih
    have hbefore := frame?_eq_some_iff.1 hk
    obtain ⟨-, insn, k', hi, -, hafter⟩ := S.step hbefore
    obtain ⟨u, hu, hup⟩ := S.thrown hi hbefore hafter hcatch k (mem_throwing_iff.2 (Or.inl rfl))
    exact harrive (hK.caught hd (hK.skip i h)) hu hup
  | @caughtAfter past i insn f f' hd _ hi hw hstep hcatch ih =>
    obtain ⟨k, hk, h⟩ := ih
    have hbefore := frame?_eq_some_iff.1 hk
    obtain ⟨-, insn', k', hi', hstep', hafter⟩ := S.step hbefore
    have hcode : some insn = some insn' := hi.symm.trans hi'
    cases hcode
    obtain ⟨u, hu, hup⟩ :=
      S.thrown hi hbefore hafter hcatch k' (mem_throwing_iff.2 (Or.inr ⟨hw, rfl⟩))
    exact harrive (hK.caught hd (hK.step h hk hstep hstep')) hu hup

lemma kept_lower (hr : t.Rooted) (hentry : Frame.entry m code.maxLocals = .ok entry) :
    Kept t m code (fun _ i => i) v entry fun _ f k => Frame.Rel (Lower t) code.maxLocals f k where
  start := hr.upper.rel_refl (good_entry hentry)
  up := hr.upper.rel_trans
  step := fun h _ hf hk => step_lower h hf hk
  skip := fun _ h => h
  caught := fun _ h => lower_handlerFrame (universe_isValue.fixed rfl) h

/-- **The recorded frames cover every path.** Wherever a path through an accepted method leads,
there is a recorded frame with a stack of the same widths, and the frame of the execution adds
nothing to it. -/
theorem recorded_covers_execution (hr : t.Rooted) {settings : Settings} {lineOf? : ℕ → Option ℕ}
    (hok : (Verify.method t.hierarchy settings m code lineOf?).outcome = .ok v)
    (hx : Execution t.hierarchy m code (fun _ i => i) past i f) :
    ∃ k, v.frame? i = some k ∧ f.stack.toList.map width = k.stack.toList.map width ∧
      f.depth = k.depth ∧ f.Below t.hierarchy k := by
  have A := lower_alike t
  obtain ⟨g, entry, n, s, hends⟩ := method_ends hok
  obtain ⟨k, hk, hle⟩ :=
    hx.kept (hends.solution hr.upper) hends.entered (kept_lower hr hends.entered)
  exact ⟨k, hk, hle.stack.map_width A, hle.stack.height_eq A,
    (hr.below_iff (hle.good_left A) hle.right).2 hle⟩

end Paths

namespace Sample

lemma accepted :
    ∃ v, (Verify.method table.hierarchy .standard method code fun _ => none).outcome = .ok v :=
  exists_ok_of_toBool (by decide +kernel)

/-- Into the loop of the sample, and out of it by an exception after the store. -/
lemma execution_handler : ∃ f,
    Execution table.hierarchy method code (fun _ i => i) [0, 1, 2, 3, 4, 5] 9 f := by
  have h0 : Execution table.hierarchy method code (fun _ i => i) [] 0 entry := .start entry_method
  have h1 := h0.flow rfl rfl ⟨_, rfl, Or.inl ⟨rfl, rfl⟩⟩
  have h2 := h1.flow rfl rfl ⟨_, rfl, Or.inl ⟨rfl, rfl⟩⟩
  have h3 := h2.flow rfl rfl ⟨_, rfl, Or.inl ⟨rfl, rfl⟩⟩
  have h4 := h3.flow rfl rfl ⟨_, rfl, Or.inl ⟨rfl, rfl⟩⟩
  have h5 := h4.flow rfl rfl ⟨_, rfl, Or.inl ⟨rfl, rfl⟩⟩
  have hcatch : code.Catches 5 ⟨4, 7, 9, none⟩ := ⟨by decide, List.mem_cons_self, by decide⟩
  exact ⟨_, h5.caughtAfter rfl rfl rfl hcatch⟩

end Sample

/-- The handler of the sample expects either class. -/
theorem recorded_covers_execution_sample : ∃ v f,
    (Verify.method Sample.table.hierarchy .standard Sample.method Sample.code
      fun _ => none).outcome = .ok v ∧
    Execution Sample.table.hierarchy Sample.method Sample.code (fun _ i => i) [0, 1, 2, 3, 4, 5] 9
      f ∧
    ∃ k, v.frame? 9 = some k ∧ f.stack.toList.map width = k.stack.toList.map width ∧
      f.depth = k.depth ∧ f.Below Sample.table.hierarchy k := by
  obtain ⟨v, hv⟩ := Sample.accepted
  obtain ⟨f, hf⟩ := Sample.execution_handler
  exact ⟨v, f, hv, hf, recorded_covers_execution Sample.wellFormed_table.rooted hv hf⟩

end Bytecheck.Analysis
