import Mathlib.Tactic.Common
import Bytecheck.Proofs.Lookups.Graph

/-!
The analysis by lookups.

The queue holds numbers of blocks, edges and handlers lead to blocks by number, and what is recorded
is written at the index of an instruction. `Agrees` compares a computation with lookups with one
without, and keeps a property of the states on the way: the lists are as long as the graph and the
code say, and no number on the queue is too large (`Sized`). Main statement: with lookups, a method
is analyzed to the same end.
-/

namespace Bytecheck.Indexed

open Analysis

/-! ### Agreement -/

section Agrees

variable {ε α β : Type} {P : α → Prop} {Q : β → Prop}

/-- The computation with lookups has the outcome of the one without, and its value has a
property. -/
def Agrees (P : α → Prop) (x : Indexed ε α) (y : Traced ε α) : Prop :=
  x = lift y.outcome ∧ ∀ a, y.outcome = .ok a → P a

lemma agrees_ok {a : α} (h : P a) : Agrees P (.ok a : Indexed ε α) (pure a) :=
  ⟨rfl, fun b hb => by cases hb; exact h⟩

lemma agrees_error (e : ε) : Agrees P (.error (some e)) (.fail e) := ⟨rfl, fun b hb => by cases hb⟩

lemma agrees_lift {x : Indexed ε α} {y : Except ε α} (h : x = lift y) :
    Agrees (fun a => y = .ok a) x (.lift y) := ⟨h, fun _ ha => ha⟩

/-- Records do not matter. -/
lemma Agrees.note {x : Indexed ε α} {y : Traced ε α} (h : Agrees P x y)
    (entries : List Log.Entry) : Agrees P x (Traced.note entries >>= fun _ => y) := by
  unfold Agrees
  rw [Traced.outcome_bind, Traced.outcome_note]
  exact h

lemma Agrees.bind {x : Indexed ε α} {y : Traced ε α} {f : α → Indexed ε β} {g : α → Traced ε β}
    (h : Agrees P x y) (hf : ∀ a, P a → Agrees Q (f a) (g a)) :
    Agrees Q (x >>= f) (y >>= g) := by
  obtain ⟨hx, hP⟩ := h
  unfold Agrees
  rw [hx, Traced.outcome_bind]
  cases hy : y.outcome with
  | error e => exact ⟨rfl, fun b hb => by cases hb⟩
  | ok a => exact hf a (hP a hy)

/-- A loop keeps a property that each of its rounds keeps. -/
lemma Agrees.foldlM {f : α → β → Indexed ε α} {g : α → β → Traced ε α} {l : List β}
    (h : ∀ a, ∀ b ∈ l, P a → Agrees P (f a b) (g a b)) {a : α} (ha : P a) :
    Agrees P (l.foldlM f a) (l.foldlM g a) := by
  induction l generalizing a with
  | nil => exact agrees_ok ha
  | cons b l ih =>
    rw [List.foldlM_cons, List.foldlM_cons]
    exact (h a b List.mem_cons_self ha).bind fun a' ha' =>
      ih (fun a b hb => h a b (List.mem_cons_of_mem _ hb)) ha'

end Agrees

/-! ### Visits -/

def mergeEntry (p : Problem) (place : ℕ) (old f : Frame) :
    Indexed AnalysisFault (Bool × Frame) := do
  let (outcome, new) := old.mergeInto p.hierarchy f
  let changed ← lift (outcome.mapError (.type place))
  .ok (changed, new)

def propagate (p : Problem) (s : State) (target : ℕ) (f : Frame) : Indexed AnalysisFault State := do
  let b ← fetch p.graph.blocks target
  let st ← fetch s.states target
  match st with
  | .unvisited => do
    let states ← store s.states target (.queued f)
    .ok { s with states := states, queue := s.queue ++ [target] }
  | .queued old => do
    let (_, new) ← mergeEntry p b.start old f
    let states ← store s.states target (.queued new)
    .ok { s with states := states }
  | .stable old => do
    let (changed, new) ← mergeEntry p b.start old f
    if changed then do
      let states ← store s.states target (.queued new)
      .ok { s with states := states, queue := s.queue ++ [target] }
    else do
      let states ← store s.states target (.stable new)
      .ok { s with states := states }

def propagateTo (p : Problem) (index : ℕ) (i : Instruction ℕ) (before after : Frame) (s : State)
    (place : ℕ) : Indexed AnalysisFault State := do
  let h ← fetch p.code.handlers place
  let target ← fetch p.graph.blockOf h.entry
  if p.code.maxStack < 1 then .error (some (.type index (.stackOverflow p.code.maxStack)))
  else
    (throwing i before after).foldlM
      (fun s f => propagate p s target (handlerFrame (p.interpreter.caught h) f)) s

/-- What is known around an instruction is written down. -/
def record (s : State) (index : ℕ) (before after : Frame) : Indexed AnalysisFault State := do
  let l ← store s.before index (some before)
  let r ← store s.after index (some after)
  .ok { s with before := l, after := r }

def visitInstruction (c : Transfer.Context) (p : Problem) (s : State) (f : Frame) (index : ℕ) :
    Indexed AnalysisFault (State × Frame) := do
  let i ← fetch p.code.instructions index
  let after ← (step c index i f).mapError (Option.map (.ofStep index))
  let places ← fetch p.graph.handlersAt index
  let s ← places.foldlM (propagateTo p index i f after) s
  let s ← record s index f after
  .ok (s, after)

def visitBlock (c : Transfer.Context) (p : Problem) (s : State) (b : Block) (entry : Frame) :
    Indexed AnalysisFault State := do
  let r ← (List.range' b.start (b.stop - b.start)).foldlM
    (fun r index => visitInstruction c p r.1 r.2 index) (s, entry)
  (b.successors.filter fun e => e.2 = .normal).foldlM (fun s e => propagate p s e.1 r.2) r.1

def visit (c : Transfer.Context) (p : Problem) (s : State) (id : ℕ) :
    Indexed AnalysisFault State := do
  let b ← fetch p.graph.blocks id
  let st ← fetch s.states id
  match st.frame? with
  | none => .error (some (.internal (some b.start) (.unvisitedBlock id)))
  | some entry =>
    if b.stop ≤ b.start then .error (some (.internal none (.emptyBlock id)))
    else do
      let states ← store s.states id (.stable entry)
      visitBlock c p { s with states := states } b entry

def loop (c : Transfer.Context) (p : Problem) (limit : ℕ) :
    ℕ → State → Indexed AnalysisFault (State × ℕ)
  | fuel, s =>
    match s.queue with
    | [] => .ok (s, 0)
    | id :: rest =>
      match fuel with
      | 0 => .error (some (.internal none (.iterationLimit limit)))
      | fuel + 1 => do
        let s ← visit c p { s with queue := rest } id
        let r ← loop c p limit fuel s
        .ok (r.1, r.2 + 1)

def run (c : Transfer.Context) (p : Problem) (settings : Settings) (entry : Frame) :
    Indexed AnalysisFault Analysis := do
  let states ← store (List.replicate p.graph.size .unvisited) 0 (.queued entry)
  let unknown := List.replicate p.code.size none
  let limit := ceiling p settings
  let r ← loop c p limit limit ⟨states, [0], unknown, unknown⟩
  .ok ⟨r.1.before, r.1.after, r.2⟩

/-- The lists of a state are as long as they should be, and no number on the queue is too large. -/
structure Sized (p : Problem) (s : State) : Prop where
  states : s.states.length = p.graph.blocks.length
  queue : ∀ b ∈ s.queue, b < p.graph.blocks.length
  before : s.before.length = p.code.size
  after : s.after.length = p.code.size

section Visits

variable {c : Transfer.Context} {p : Problem} {s : State}

/-- A block gets a new state. -/
lemma Sized.put (hs : Sized p s) {t : ℕ} (st : BlockState) : Sized p (s.put t st false) :=
  ⟨by simp [State.put, hs.states], hs.queue, hs.before, hs.after⟩

/-- A block gets a new state and waits. -/
lemma Sized.wake (hs : Sized p s) {t : ℕ} (ht : t < p.graph.blocks.length) (st : BlockState) :
    Sized p (s.put t st true) := by
  refine ⟨by simp [State.put, hs.states], fun b hb => ?_, hs.before, hs.after⟩
  rcases List.mem_append.1 hb with hb | hb
  · exact hs.queue b hb
  · rw [List.mem_singleton.1 hb]
    exact ht

lemma mergeEntry_agrees (p : Problem) (place : ℕ) (old f : Frame) :
    Agrees (fun _ => True) (mergeEntry p place old f) (Analysis.mergeEntry p place old f) := by
  have hlift := agrees_lift (show _ = lift ((old.mergeInto p.hierarchy f).1.mapError
    (AnalysisFault.type place)) from rfl)
  exact (hlift.bind fun _ _ => agrees_ok trivial).note _

lemma propagate_agrees (hs : Sized p s) {t : ℕ} (ht : t < p.graph.blocks.length) (f : Frame) :
    Agrees (Sized p) (propagate p s t f) (Analysis.propagate p s t f) := by
  have hB := List.getElem?_eq_getElem ht
  have ht' : t < s.states.length := hs.states ▸ ht
  obtain ⟨st, hst⟩ : ∃ st, s.states[t]? = some st := ⟨_, List.getElem?_eq_getElem ht'⟩
  have hstore : ∀ st',
      (store s.states t st' : Indexed AnalysisFault _) = .ok (s.states.set t st') := store_eq ht'
  unfold propagate Analysis.propagate
  rw [fetch_eq hB, ok_bind, fetch_eq hst, ok_bind, hB, hst]
  cases st with
  | unvisited =>
    dsimp only
    rw [hstore, ok_bind]
    exact agrees_ok (hs.wake ht _)
  | queued old =>
    refine (mergeEntry_agrees p _ old f).bind fun ⟨_, new⟩ _ => ?_
    dsimp only
    rw [hstore, ok_bind]
    exact agrees_ok (hs.put _)
  | stable old =>
    refine (mergeEntry_agrees p _ old f).bind fun ⟨changed, new⟩ _ => ?_
    dsimp only
    split
    · rw [hstore, ok_bind]
      exact agrees_ok (hs.wake ht _)
    · rw [hstore, ok_bind]
      exact agrees_ok (hs.put _)

lemma block_lt (L : p.graph.Laid p.code) {i b : ℕ} (h : p.graph.block? i = some b) :
    b < p.graph.blocks.length := by
  obtain ⟨b', B, hB, h1, h2⟩ := L.cover (L.inside h)
  have hb := L.block hB h1 h2
  rw [h] at hb
  cases hb
  exact (List.getElem?_eq_some_iff.1 hB).1

lemma propagateTo_agrees (L : p.graph.Laid p.code) (hs : Sized p s) {index place : ℕ}
    (hplace : place ∈ p.graph.handlers index) (i : Instruction ℕ) (before after : Frame) :
    Agrees (Sized p) (propagateTo p index i before after s place)
      (Analysis.propagateTo p index i before after s place) := by
  obtain ⟨h, hh, hcatch⟩ := L.handlers.1 hplace
  obtain ⟨t, ht⟩ := L.entry hcatch.2.1
  have hblock := L.block_of_startsAt ht
  unfold propagateTo Analysis.propagateTo
  rw [fetch_eq hh, ok_bind, fetch_eq hblock, ok_bind, hh]
  dsimp only
  rw [hblock]
  split
  · exact agrees_error _
  · exact Agrees.foldlM (fun s f _ hs => propagate_agrees hs (block_lt L hblock) _) hs

/-- What is analyzed, with its graph laid out along the code. -/
structure Fits (c : Transfer.Context) (p : Problem) : Prop where
  laid : p.graph.Laid p.code
  covered : p.graph.handlersAt.length = p.code.size
  interpreter : p.interpreter = Transfer.interpreter c

lemma visitInstruction_agrees (F : Fits c p) (hs : Sized p s) (f : Frame) {index : ℕ}
    (hindex : index < p.code.size) :
    Agrees (fun r => Sized p r.1) (visitInstruction c p s f index)
      (Analysis.visitInstruction p s f index) := by
  obtain ⟨i, hi⟩ : ∃ i, p.code.instructions[index]? = some i :=
    ⟨_, List.getElem?_eq_getElem (show index < p.code.size from hindex)⟩
  have hplaces : p.graph.handlersAt[index]? = some (p.graph.handlers index) := by
    unfold FlowGraph.handlers
    rw [List.getElem?_eq_getElem (F.covered ▸ hindex)]
    rfl
  have hstep : (step c index i f).mapError (Option.map (AnalysisFault.ofStep index)) =
      lift ((p.interpreter.step index i f).mapError (.ofStep index)) := by
    rw [step_eq, lift_mapError, F.interpreter]
    rfl
  unfold visitInstruction Analysis.visitInstruction
  rw [fetch_eq hi, ok_bind, hi]
  refine Agrees.note ((agrees_lift hstep).bind fun after _ => ?_) _
  rw [fetch_eq hplaces, ok_bind]
  refine (Agrees.foldlM (fun s place hplace hs =>
    propagateTo_agrees F.laid hs hplace i f after) hs).bind fun s hs => ?_
  rw [record, store_eq (hs.before ▸ hindex), ok_bind, store_eq (hs.after ▸ hindex), ok_bind,
    ok_bind]
  exact agrees_ok ⟨hs.states, hs.queue, by simp [hs.before], by simp [hs.after]⟩

lemma visitBlock_agrees (F : Fits c p) (hs : Sized p s) {b : ℕ} {B : Block}
    (hB : p.graph.blocks[b]? = some B) (entry : Frame) :
    Agrees (Sized p) (visitBlock c p s B entry) (Analysis.visitBlock p s B entry) := by
  unfold visitBlock Analysis.visitBlock
  refine Agrees.bind (P := fun r => Sized p r.1) (Agrees.foldlM (fun r index hindex hr => ?_) hs)
    fun r hr => Agrees.foldlM (fun s e he hs => ?_) hr
  · have hstop := (F.laid.bounds hB).2
    have hindex := List.mem_range'_1.1 hindex
    exact visitInstruction_agrees F hr r.2 (by omega)
  · exact propagate_agrees hs
      (linked_lt F.laid ⟨B, e.2, hB, (List.mem_filter.1 he).1⟩) r.2

lemma visit_agrees (F : Fits c p) (hs : Sized p s) {id : ℕ} (hid : id < p.graph.blocks.length) :
    Agrees (Sized p) (visit c p s id) (Analysis.visit p s id) := by
  have hB := List.getElem?_eq_getElem hid
  have hid' : id < s.states.length := hs.states ▸ hid
  have hst := List.getElem?_eq_getElem hid'
  unfold visit Analysis.visit
  rw [fetch_eq hB, ok_bind, fetch_eq hst, ok_bind, hB, hst]
  dsimp only [Option.bind_some]
  cases s.states[id].frame? with
  | none => exact agrees_error _
  | some entry =>
    dsimp only
    split
    · exact agrees_error _
    · rw [store_eq hid', ok_bind]
      exact (visitBlock_agrees F (hs.put _) hB entry).note _

lemma loop_agrees (F : Fits c p) (limit fuel : ℕ) (hs : Sized p s) :
    Agrees (fun _ => True) (loop c p limit fuel s) (Analysis.loop p limit fuel s) := by
  induction fuel generalizing s with
  | zero =>
    unfold loop Analysis.loop
    cases s.queue with
    | nil => exact agrees_ok trivial
    | cons id rest => exact agrees_error _
  | succ fuel ih =>
    unfold loop Analysis.loop
    cases hq : s.queue with
    | nil => exact agrees_ok trivial
    | cons id rest =>
      have hlt : ∀ b ∈ id :: rest, b < p.graph.blocks.length := hq ▸ hs.queue
      have hrest : Sized p { s with queue := rest } :=
        ⟨hs.states, fun b hb => hlt b (List.mem_cons_of_mem id hb), hs.before, hs.after⟩
      refine (visit_agrees F hrest (hlt id List.mem_cons_self)).bind fun s hs => ?_
      exact (ih hs).bind fun r _ => agrees_ok trivial

lemma run_agrees (F : Fits c p) (settings : Settings) (entry : Frame) :
    Agrees (fun _ => True) (run c p settings entry) (Analysis.run p settings entry) := by
  have hpos := first_lt F.laid
  have hs : Sized p (initial p entry) := by
    refine ⟨by simp [initial, FlowGraph.size], fun b hb => ?_, by simp [initial], by simp [initial]⟩
    rw [List.mem_singleton.1 hb]
    exact hpos
  unfold run Analysis.run
  rw [store_eq (by simpa [FlowGraph.size] using hpos), ok_bind]
  exact (loop_agrees F _ _ hs).bind fun r _ => (agrees_ok trivial).note _

end Visits

/-! ### Methods -/

def analyze (h : Hierarchy) (settings : Settings) (m : Method) (code : Code) :
    Indexed AnalysisFault (FlowGraph × Analysis) := do
  let g ← (build code).mapError (Option.map .structural)
  let f ← (entry m code.maxLocals).mapError (Option.map .structural)
  let a ← run ⟨h, m, code.maxStack⟩ (problem h m g code) settings f
  .ok (g, a)

lemma buildGraph_agrees (code : Code) : Agrees (fun g => FlowGraph.build code = .ok g)
    ((build code).mapError (Option.map .structural)) (Verify.buildGraph code) := by
  have hout : (Verify.buildGraph code).outcome = (FlowGraph.build code).mapError .structural := by
    unfold Verify.buildGraph
    rw [Traced.outcome_bind, Traced.outcome_lift]
    cases FlowGraph.build code <;> rfl
  unfold Agrees
  rw [hout, build_eq, lift_mapError]
  exact ⟨rfl, fun g hg => mapError_ok_iff.1 hg⟩

lemma fits_build {h : Hierarchy} {m : Method} {code : Code} {g : FlowGraph}
    (hg : FlowGraph.build code = .ok g) : Fits ⟨h, m, code.maxStack⟩ (problem h m g code) := by
  refine ⟨FlowGraph.build_laid hg, ?_, rfl⟩
  unfold FlowGraph.build at hg
  split at hg
  · cases hg
  · cases hg
    simp [problem, Flow.graphOf]

/-- **The analysis looks up nothing that is not there.** -/
theorem analyze_eq (h : Hierarchy) (settings : Settings) (m : Method) (code : Code) :
    analyze h settings m code = lift (Verify.analyze
      (Transfer.interpreter ⟨h, m, code.maxStack⟩) h settings m code).outcome := by
  have hentry : (entry m code.maxLocals).mapError (Option.map AnalysisFault.structural) =
      lift ((Frame.entry m code.maxLocals).mapError .structural) := by
    rw [entry_eq, lift_mapError]
  have hagrees : Agrees (fun _ => True) (analyze h settings m code)
      (Verify.analyze (Transfer.interpreter ⟨h, m, code.maxStack⟩) h settings m code) := by
    refine (buildGraph_agrees code).bind fun g hg => ?_
    refine (agrees_lift hentry).bind fun f _ => ?_
    exact (run_agrees (fits_build hg) settings f).bind fun a _ => agrees_ok trivial
  exact hagrees.1

end Bytecheck.Indexed
