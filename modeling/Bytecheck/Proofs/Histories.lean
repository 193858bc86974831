import Mathlib.Data.List.Nodup
import Mathlib.Tactic.Common
import Bytecheck.Proofs.FixedPoint
import Bytecheck.Proofs.Signatures
import Bytecheck.Proofs.SlotLists

/-!
Histories of the analysis.

`events` lists what can be seen of a run, whether it succeeds or fails: the states between visits
and after each propagated frame, and the entry frames that blocks are interpreted from. The events
are those of a course of the analysis (`Course`), whose acts do one thing each to the state: what an
act keeps holds in every state that is seen. What is known between visits only, of the blocks that
are stable, is kept by whole visits (`Settled`).
-/

namespace Bytecheck

/-! ### Equal frames -/

/-- An object is as wide before its constructor is called as after. -/
lemma Transfer.width_of_initialized {c : Context} {owner : RefType} {x y : VType}
    (hy : initialized c owner x = .ok y) : width y = width x := by
  unfold initialized at hy
  split at hy
  · dsimp only at hy
    split at hy
    · cases hy
      rfl
    · cases hy
  · split at hy
    · cases hy
      rfl
    · cases hy
  · cases hy

namespace Frame

variable {f f' g k : Frame}

lemma same_refl (f : Frame) : f.same f = true := same_eq_true_iff.2 ⟨rfl, rfl⟩

lemma same_trans (hfg : f.same g = true) (hgk : g.same k = true) : f.same k = true := by
  obtain ⟨hs, hl⟩ := same_eq_true_iff.1 hfg
  obtain ⟨hs', hl'⟩ := same_eq_true_iff.1 hgk
  exact same_eq_true_iff.2 ⟨hs.trans hs', hl.trans hl'⟩

/-- The offsets on the stack are those of its values. -/
def Aligned (f : Frame) : Prop := f.stack = .ofList f.stack.toList

lemma aligned_of_eq {l : List VType} (h : f.stack = .ofList l) : f.Aligned := by
  unfold Aligned
  rw [h, SlotVec.toList_ofList]

lemma aligned_merge {h : Hierarchy} {m : Frame} (hm : f.merge h g = .ok m) : m.Aligned := by
  obtain ⟨-, -, rfl⟩ := merge_eq_ok_iff.1 hm
  exact aligned_of_eq rfl

lemma aligned_of_pile {l : List VType} (h : f.stack = .pile l) : f.Aligned := by
  refine aligned_of_eq (l := l.reverse) ?_
  rw [h, Stack.ofList_eq_pile, List.reverse_reverse]

/-- Instructions push and pop values, and give a value another of the same width. -/
lemma Aligned.step {c : Transfer.Context} {index : ℕ} {i : Instruction ℕ} (hf : f.Aligned)
    (h : Transfer.step c index i f = .ok f') : f'.Aligned := by
  obtain ⟨vs, hchange⟩ := Transfer.stackChange_of_step h
  have hpile : f.stack = .pile f.stack.toList.reverse := by
    rw [← Stack.ofList_eq_pile]
    exact hf
  generalize f.stack.toList.reverse = l at hpile
  generalize hs : f'.stack = s at hchange
  cases hchange with
  | replace _ hpops =>
    rw [hpile] at hpops
    obtain ⟨r, -, rfl⟩ := Stack.pops_pile_iff.1 hpops
    rw [Stack.pile_append] at hs
    exact aligned_of_pile hs
  | new =>
    rw [hpile] at hs
    exact aligned_of_pile (l := _ :: l) hs
  | @construct m vs x y rest _ _ hy hpops =>
    rw [hpile] at hpops
    obtain ⟨r, -, rfl⟩ := Stack.pops_pile_iff.1 hpops
    have hkeeps : ∀ t : VType, width (if t = x then y else t) = width t := by
      intro t
      split
      · rename_i ht
        rw [ht]
        exact Transfer.width_of_initialized hy
      · rfl
    rw [← List.reverse_reverse r, ← Stack.ofList_eq_pile, SlotVec.map_ofList hkeeps] at hs
    exact aligned_of_eq hs
  | athrow => exact aligned_of_eq hs

end Frame

namespace Analysis

/-! ### Events -/

/-- What can be seen of a run. -/
inductive Event where
  /-- A state between two visits. -/
  | idle (s : State)
  /-- A block is interpreted from an entry frame. -/
  | enter (b : ℕ) (e : Frame)
  /-- The state after a frame was propagated. -/
  | posted (s : State)
deriving DecidableEq

/-- The state that is seen in an event. -/
def Event.state? : Event → Option State
  | .idle s | .posted s => some s
  | .enter _ _ => none

/-- The block that is entered, with its entry frame. -/
def Event.entry? : Event → Option (ℕ × Frame)
  | .enter b e => some (b, e)
  | .idle _ | .posted _ => none

/-- The states that are seen, in order. -/
def seen (l : List Event) : List State := l.filterMap Event.state?

/-- The blocks that are entered, in order. -/
def entered (l : List Event) : List (ℕ × Frame) := l.filterMap Event.entry?

/-- The entry frame that a block was last interpreted from. -/
def lastEntry? (l : List Event) (b : ℕ) : Option Frame :=
  (((entered l).filter fun v => v.1 = b).getLast?).map Prod.snd

/-- The events after a part of a run, if that part succeeds. -/
def following {ε α : Type} (x : Except ε α) (events : α → List Event) : List Event :=
  match x with
  | .ok a => events a
  | .error _ => []

/-- The events of the rounds of a loop, up to the first round that fails. -/
def roundEvents {σ β : Type} (round : σ → β → Run σ) (events : σ → β → List Event) :
    σ → List β → List Event
  | _, [] => []
  | r, b :: l => events r b ++
      following (round r b).outcome fun r' => roundEvents round events r' l

-- The events of the parts of a run; each follows the part it is of.

def propagateEvents (p : Problem) (s : State) (target : ℕ) (f : Frame) : List Event :=
  following (propagate p s target f).outcome fun s' => [.posted s']

def propagateToEvents (p : Problem) (i : Instruction ℕ) (before after : Frame) (s : State)
    (place : ℕ) : List Event :=
  match p.code.handlers[place]? with
  | none => []
  | some h =>
    if p.code.maxStack < 1 then []
    else
      match p.graph.block? h.entry with
      | none => []
      | some target =>
        roundEvents (fun s f => propagate p s target (handlerFrame (p.interpreter.caught h) f))
          (fun s f => propagateEvents p s target (handlerFrame (p.interpreter.caught h) f)) s
          (throwing i before after)

def visitInstructionEvents (p : Problem) (s : State) (f : Frame) (index : ℕ) : List Event :=
  match p.code.instructions[index]? with
  | none => []
  | some i => following (p.interpreter.step index i f) fun after =>
      roundEvents (propagateTo p index i f after) (propagateToEvents p i f after) s
        (p.graph.handlers index)

def visitBlockEvents (p : Problem) (s : State) (b : Block) (entry : Frame) : List Event :=
  let indices := List.range' b.start (b.stop - b.start)
  let visits (r : State × Frame) (index : ℕ) := visitInstruction p r.1 r.2 index
  roundEvents visits (fun r index => visitInstructionEvents p r.1 r.2 index) (s, entry) indices ++
    following (indices.foldlM visits (s, entry)).outcome fun r =>
      roundEvents (fun s e => propagate p s e.1 r.2) (fun s e => propagateEvents p s e.1 r.2) r.1
        (b.successors.filter fun e => e.2 = .normal)

/-- The events of a visit: the block is entered, and then frames are propagated. -/
def visitEvents (p : Problem) (s : State) (id : ℕ) : List Event :=
  match p.graph.blocks[id]? with
  | none => []
  | some b =>
    match (s.states[id]?).bind BlockState.frame? with
    | none => []
    | some entry =>
      if b.stop ≤ b.start then []
      else .enter id entry :: visitBlockEvents p (s.settle id entry) b entry

/-- The events of the loop, which looks at the queue before each visit. -/
def loopEvents (p : Problem) : ℕ → State → List Event
  | fuel, s => .idle s ::
      match s.queue with
      | [] => []
      | id :: rest =>
        match fuel with
        | 0 => []
        | fuel + 1 => visitEvents p { s with queue := rest } id ++
            following (visit p { s with queue := rest } id).outcome fun s' => loopEvents p fuel s'

/-- The events of a run, in order. -/
def events (p : Problem) (settings : Settings) (entry : Frame) : List Event :=
  loopEvents p (ceiling p settings) (initial p entry)

/-! ### Courses -/

section Histories

variable {p : Problem} {s s' : State} {l l' : List Event}

/-- One act of the analysis, with what is seen of it: a frame is posted to a block, the frames
around instructions are recorded, the queue is looked at, or a block that waits is taken from the
queue and entered. -/
inductive Act (p : Problem) (s : State) : List Event → State → Prop
  | post {s' : State} {t : ℕ} {x : Frame} : (propagate p s t x).outcome = .ok s' →
      Act p s [.posted s'] s'
  | record (before after : List (Option Frame)) :
      Act p s [] { s with before := before, after := after }
  | look : Act p s [.idle s] s
  | enter {b : ℕ} {e : Frame} : b ∈ s.queue → s.frame? b = some e →
      Act p s [.enter b e] (s.claim b e)

/-- Acts of the analysis, one after the other. -/
inductive Course (p : Problem) (s : State) : List Event → State → Prop
  | none : Course p s [] s
  | act {l l' : List Event} {s₁ s₂ : State} : Course p s l s₁ → Act p s₁ l' s₂ →
      Course p s (l ++ l') s₂

lemma Act.course (h : Act p s l s') : Course p s l s' := Course.none.act h

lemma Course.append {s₁ : State} (h : Course p s l s₁) (h' : Course p s₁ l' s') :
    Course p s (l ++ l') s' := by
  induction h' with
  | none =>
    rw [List.append_nil]
    exact h
  | act _ hact ih =>
    rw [← List.append_assoc]
    exact ih.act hact

/-- The events are those of a course that ends in the state of the outcome, if there is one, and
they all have a property. -/
structure Shows {α : Type} (p : Problem) (P : Event → Prop) (s : State) (l : List Event)
    (x : Run α) (final : α → State) : Prop where
  course : ∃ s', Course p s l s' ∧ ∀ a, x.outcome = .ok a → final a = s'
  forall_mem : ∀ ev ∈ l, P ev

section Shows

variable {α β : Type} {P Q : Event → Prop} {final : α → State} {final' : β → State}

lemma shows_fail (fault : AnalysisFault) : Shows p P s [] (.fail fault) final :=
  ⟨⟨s, .none, nofun⟩, nofun⟩

lemma shows_pure {a : α} (h : Course p s [] (final a)) : Shows p P s [] (pure a) final :=
  ⟨⟨final a, h, fun a' ha' => by cases ha'; rfl⟩, nofun⟩

lemma Shows.bind {x : Run α} {f : α → Run β} {next : α → List Event} (hx : Shows p P s l x final)
    (hf : ∀ a, x.outcome = .ok a → Shows p P (final a) (next a) (f a) final') :
    Shows p P s (l ++ following x.outcome next) (x >>= f) final' := by
  obtain ⟨⟨s₁, hc, hfinal⟩, hl⟩ := hx
  cases ha : x.outcome with
  | error fault =>
    refine ⟨⟨s₁, by simpa [following] using hc, fun b hb => ?_⟩, by simpa [following] using hl⟩
    rw [Traced.outcome_bind, ha] at hb
    cases hb
  | ok a =>
    obtain ⟨⟨s₂, hc', hfinal'⟩, hl'⟩ := hf a ha
    rw [hfinal a ha] at hc'
    refine ⟨⟨s₂, hc.append hc', fun b hb => ?_⟩, fun ev hev => ?_⟩
    · rw [Traced.outcome_bind, ha] at hb
      exact hfinal' b hb
    · exact (List.mem_append.1 hev).elim (hl ev) (hl' ev)

lemma Shows.note {x : Run α} (hx : Shows p P s l x final) (entries : List Log.Entry) :
    Shows p P s l (do .note entries; x) final := by
  obtain ⟨⟨s₁, hc, hfinal⟩, hl⟩ := hx
  refine ⟨⟨s₁, hc, fun a ha => hfinal a ?_⟩, hl⟩
  rw [Traced.outcome_bind] at ha
  exact ha

/-- A computation that waits for a value from elsewhere. -/
lemma shows_lift {ε γ : Type} {x : Except ε γ} {g : ε → AnalysisFault} {f : γ → Run α}
    {next : γ → List Event} (hf : ∀ c, x = .ok c → Shows p P s (next c) (f c) final) :
    Shows p P s (following x next) (.lift (x.mapError g) >>= f) final := by
  cases x with
  | error k => exact ⟨⟨s, .none, fun a ha => by rw [Traced.outcome_bind] at ha; cases ha⟩, nofun⟩
  | ok c =>
    obtain ⟨⟨s₁, hc, hfinal⟩, hl⟩ := hf c rfl
    refine ⟨⟨s₁, hc, fun a ha => hfinal a ?_⟩, hl⟩
    rw [Traced.outcome_bind] at ha
    exact ha

/-- The result is put together without an event. -/
lemma Shows.map {x : Run α} {g : α → β} (hx : Shows p P s l x final)
    (hg : ∀ a, Course p (final a) [] (final' (g a))) :
    Shows p P s l (x >>= fun a => pure (g a)) final' := by
  have hnil : following x.outcome (fun _ => []) = [] := by
    cases x.outcome <;> rfl
  rw [← List.append_nil l, ← hnil]
  exact hx.bind fun a _ => shows_pure (hg a)

/-- What is seen after some acts. -/
lemma Shows.after {s₁ : State} {x : Run α} (hx : Shows p P s₁ l' x final) (hc : Course p s l s₁)
    (hl : ∀ ev ∈ l, P ev) : Shows p P s (l ++ l') x final := by
  obtain ⟨⟨s₂, hc', hfinal⟩, hl'⟩ := hx
  exact ⟨⟨s₂, hc.append hc', hfinal⟩, fun ev hev => (List.mem_append.1 hev).elim (hl ev) (hl' ev)⟩

lemma Shows.imp {x : Run α} (h : Shows p P s l x final) (hPQ : ∀ ev, P ev → Q ev) :
    Shows p Q s l x final :=
  ⟨h.course, fun ev hev => hPQ ev (h.forall_mem ev hev)⟩

lemma shows_rounds {round : α → β → Run α} {events : α → β → List Event}
    (h : ∀ r b, Shows p P (final r) (events r b) (round r b) final) (l : List β) (r : α) :
    Shows p P (final r) (roundEvents round events r l) (l.foldlM round r) final := by
  induction l generalizing r with
  | nil => exact shows_pure .none
  | cons b l ih =>
    rw [List.foldlM_cons]
    exact (h r b).bind fun r' _ => ih r'

end Shows

/-! ### The course of a run -/

/-- A frame was propagated. -/
def Event.IsPosted (ev : Event) : Prop := ∃ s, ev = .posted s

lemma shows_propagate (p : Problem) (s : State) (t : ℕ) (x : Frame) :
    Shows p Event.IsPosted s (propagateEvents p s t x) (propagate p s t x) id := by
  unfold propagateEvents
  cases hs : (propagate p s t x).outcome with
  | error fault => exact ⟨⟨s, .none, fun s' hs' => by rw [hs] at hs'; cases hs'⟩, nofun⟩
  | ok s₁ =>
    refine ⟨⟨s₁, Act.course (.post hs), fun s' hs' => ?_⟩, fun ev hev => ⟨s₁, ?_⟩⟩
    · rw [hs] at hs'
      cases hs'
      rfl
    · exact List.mem_singleton.1 hev

lemma shows_propagateTo (p : Problem) (index : ℕ) (i : Instruction ℕ) (before after : Frame)
    (s : State) (place : ℕ) :
    Shows p Event.IsPosted s (propagateToEvents p i before after s place)
      (propagateTo p index i before after s place) id := by
  unfold propagateToEvents propagateTo
  cases p.code.handlers[place]? with
  | none => exact shows_pure .none
  | some h =>
    dsimp only
    split
    · exact shows_fail _
    · cases p.graph.block? h.entry with
      | none => exact shows_pure .none
      | some t => exact shows_rounds (fun s f => shows_propagate p s t _) _ s

lemma shows_visitInstruction (p : Problem) (r : State × Frame) (index : ℕ) :
    Shows p Event.IsPosted r.1 (visitInstructionEvents p r.1 r.2 index)
      (visitInstruction p r.1 r.2 index) Prod.fst := by
  unfold visitInstructionEvents visitInstruction
  cases p.code.instructions[index]? with
  | none => exact shows_pure .none
  | some i =>
    refine Shows.note (shows_lift fun after _ => ?_) _
    have hthrown := shows_rounds (fun s place => shows_propagateTo p index i r.2 after s place)
      (p.graph.handlers index) r.1
    exact hthrown.map fun s => Act.course (.record _ _)

lemma shows_visitBlock (p : Problem) (s : State) (B : Block) (e : Frame) :
    Shows p Event.IsPosted s (visitBlockEvents p s B e) (visitBlock p s B e) id := by
  have hwalk := shows_rounds (fun r index => shows_visitInstruction p r index)
    (List.range' B.start (B.stop - B.start)) (s, e)
  exact hwalk.bind fun r _ =>
    shows_rounds (fun s (t : ℕ × EdgeKind) => shows_propagate p s t.1 r.2) _ r.1

/-- An event of a visit. -/
def Event.IsInner (ev : Event) : Prop := ∀ s, ev ≠ .idle s

lemma Event.IsPosted.isInner {ev : Event} (h : ev.IsPosted) : ev.IsInner := by
  obtain ⟨s, rfl⟩ := h
  exact nofun

/-- The visit of the first block that waits. -/
lemma shows_visit {b : ℕ} {rest : List ℕ} (hq : s.queue = b :: rest) :
    Shows p Event.IsInner s (visitEvents p { s with queue := rest } b)
      (visit p { s with queue := rest } b) id := by
  have hb : b ∈ s.queue := hq ▸ List.mem_cons_self
  rw [← erase_of_queue hq]
  unfold visitEvents visit
  cases p.graph.blocks[b]? with
  | none => exact shows_fail _
  | some B =>
    cases he : (s.states[b]?).bind BlockState.frame? with
    | none => exact shows_fail _
    | some e =>
      dsimp only
      split
      · exact shows_fail _
      · have hblock := (shows_visitBlock p (s.claim b e) B e).imp fun ev h => h.isInner
        refine (hblock.after (Act.enter hb he).course fun ev hev => ?_).note _
        cases List.mem_singleton.1 hev
        exact nofun

lemma shows_loop (p : Problem) (limit fuel : ℕ) (s : State) :
    Shows p (fun _ => True) s (loopEvents p fuel s) (loop p limit fuel s) Prod.fst := by
  have hlook : Course p s [.idle s] s := Act.look.course
  induction fuel generalizing s with
  | zero =>
    unfold loopEvents loop
    refine Shows.after ?_ hlook fun _ _ => trivial
    cases s.queue with
    | nil => exact shows_pure .none
    | cons b rest => exact shows_fail _
  | succ fuel ih =>
    unfold loopEvents loop
    refine Shows.after ?_ hlook fun _ _ => trivial
    cases hq : s.queue with
    | nil => exact shows_pure .none
    | cons b rest =>
      have hvisit := (shows_visit (p := p) hq).imp fun _ _ => trivial
      exact hvisit.bind fun s' _ => (ih s' Act.look.course).map fun r => .none

/-! ### What acts keep -/

@[simp] lemma seen_append : seen (l ++ l') = seen l ++ seen l' := List.filterMap_append

/-- Of an act, no state is seen but the one that it leads to. -/
lemma Act.seen_eq (h : Act p s l s') : seen l = [] ∨ seen l = [s'] := by
  cases h with
  | post | look => exact Or.inr rfl
  | record | enter => exact Or.inl rfl

/-- A property of states that every act keeps holds of every state that is seen. -/
lemma Course.invariant {I : State → Prop} (hact : ∀ {s l s'}, I s → Act p s l s' → I s')
    (h : Course p s l s') (hs : I s) : I s' ∧ ∀ x ∈ seen l, I x := by
  induction h with
  | none => exact ⟨hs, nofun⟩
  | act _ hstep ih =>
    have hnext := hact ih.1 hstep
    refine ⟨hnext, fun x hx => ?_⟩
    rw [seen_append, List.mem_append] at hx
    rcases hx with hx | hx
    · exact ih.2 x hx
    · rcases hstep.seen_eq with hseen | hseen <;> rw [hseen] at hx
      · cases hx
      · rw [List.mem_singleton.1 hx]
        exact hnext

/-- A preorder in which every act goes up holds between the states that are seen. -/
lemma Course.pairwise {R : State → State → Prop} (hrefl : ∀ s, R s s)
    (htrans : ∀ {s s' s''}, R s s' → R s' s'' → R s s'')
    (hact : ∀ {s l s'}, Act p s l s' → R s s') (h : Course p s l s') :
    (seen l).Pairwise R ∧ ∀ x ∈ seen l, R x s' := by
  induction h with
  | none => exact ⟨.nil, nofun⟩
  | @act l l' s₁ s₂ _ hstep ih =>
    have hup : ∀ x ∈ seen l, R x s₂ := fun x hx => htrans (ih.2 x hx) (hact hstep)
    rw [seen_append]
    rcases hstep.seen_eq with hseen | hseen <;> rw [hseen]
    · rw [List.append_nil]
      exact ⟨ih.1, hup⟩
    · refine ⟨List.pairwise_append.2 ⟨ih.1, List.pairwise_singleton R s₂, ?_⟩, ?_⟩
      · intro x hx y hy
        rw [List.mem_singleton.1 hy]
        exact hup x hx
      · intro x hx
        rcases List.mem_append.1 hx with hx | hx
        · exact hup x hx
        · rw [List.mem_singleton.1 hx]
          exact hrefl s₂

lemma Act.queue (hq : Queue p s) (h : Act p s l s') : Queue p s' := by
  cases h with
  | post hp =>
    rcases (propagate_yields p _ _ _).1 _ hp with ⟨-, rfl⟩ | ⟨st, st', w, hst, ht, rfl⟩
    · exact hq
    · exact hq.put hst ht
  | record => exact ⟨hq.states, hq.nodup, hq.mem_iff⟩
  | look => exact hq
  | enter hb _ =>
    obtain ⟨f, hf⟩ := (hq.mem_iff _).1 hb
    exact hq.claim hf

/-- No block that left the unvisited state is in it again. -/
def Onward (s s' : State) : Prop :=
  ∀ b : ℕ, s.states[b]? ≠ some .unvisited → s'.states[b]? ≠ some .unvisited

lemma Act.onward (h : Act p s l s') : Onward s s' := by
  cases h with
  | post hp =>
    rcases (propagate_yields p _ _ _).1 _ hp with ⟨-, rfl⟩ | ⟨st, st', w, hst, ht, rfl⟩
    · exact fun _ hb => hb
    · intro b hb
      rw [getElem?_put (lt_of_states hst)]
      split
      · cases ht <;> nofun
      · exact hb
  | record | look => exact fun _ hb => hb
  | @enter b e _ he =>
    obtain ⟨st, hst, -⟩ := Option.bind_eq_some_iff.1 he
    intro c hc
    rw [getElem?_claim (lt_of_states hst)]
    split
    · nofun
    · exact hc

/-- The number of times that a block is in the queue. -/
lemma Queue.count_eq (hq : Queue p s) (b : ℕ) :
    ((∃ f, s.states[b]? = some (.queued f)) → s.queue.count b = 1) ∧
      ((¬ ∃ f, s.states[b]? = some (.queued f)) → s.queue.count b = 0) := by
  rw [← hq.mem_iff b]
  exact ⟨List.nodup_iff_count_eq_one.1 hq.nodup b, List.count_eq_zero_of_not_mem⟩

/-! ### Between visits -/

variable {past : List Event} {entry : Frame} {n : ℕ}

@[simp] lemma entered_append : entered (l ++ l') = entered l ++ entered l' := List.filterMap_append

lemma entered_eq_nil (h : ∀ ev ∈ l, ev.IsPosted) : entered l = [] := by
  refine List.filterMap_eq_nil_iff.2 fun ev hev => ?_
  obtain ⟨s, rfl⟩ := h ev hev
  rfl

/-- A visit that succeeds enters its block, and no other. -/
lemma entered_visitEvents {b : ℕ} (h : (visit p s b).outcome = .ok s') :
    ∃ e, s.frame? b = some e ∧ entered (visitEvents p s b) = [(b, e)] := by
  unfold visit at h
  unfold visitEvents State.frame?
  cases hB : p.graph.blocks[b]? with
  | none =>
    rw [hB] at h
    cases h
  | some B =>
    rw [hB] at h
    cases he : (s.states[b]?).bind BlockState.frame? with
    | none =>
      rw [he] at h
      cases h
    | some e =>
      rw [he] at h
      dsimp only at h ⊢
      split at h
      · cases h
      · rename_i hne
        rw [if_neg hne]
        refine ⟨e, rfl, ?_⟩
        change (b, e) :: entered (visitBlockEvents p (s.settle b e) B e) = [(b, e)]
        rw [entered_eq_nil (shows_visitBlock p (s.settle b e) B e).forall_mem]

lemma lastEntry?_append {b c : ℕ} {e : Frame} (h : entered l' = [(b, e)]) :
    lastEntry? (l ++ l') c = if c = b then some e else lastEntry? l c := by
  unfold lastEntry?
  rw [entered_append, h, List.filter_append]
  by_cases hc : c = b
  · subst hc
    simp
  · simp [hc, Ne.symm hc]

/-- While frames are posted, no block becomes stable, and those that stay so keep their entry
frame. -/
lemma stable_of_posted {m : List (ℕ × Frame)} (h : Posted p s m s') {c : ℕ} {f : Frame}
    (hf : s'.states[c]? = some (.stable f)) :
    ∃ f₀, s.states[c]? = some (.stable f₀) ∧ f.same f₀ = true := by
  induction h generalizing f with
  | none => exact ⟨f, hf, f.same_refl⟩
  | record _ _ _ ih => exact ih hf
  | post _ hp ih =>
    rcases (propagate_yields p _ _ _).1 _ hp with ⟨-, rfl⟩ | ⟨st, st', w, hst, ht, rfl⟩
    · exact ih hf
    · rw [getElem?_put (lt_of_states hst)] at hf
      split at hf
      · rename_i hc
        subst hc
        cases hf
        cases ht with
        | kept _ hsame =>
          obtain ⟨f₀, hf₀, hsame₀⟩ := ih hst
          exact ⟨f₀, hf₀, Frame.same_trans hsame hsame₀⟩
      · exact ih hf

/-- **Between visits**, the stable blocks were last interpreted from the entry frames that they
have, and what is recorded of them is from then. -/
def Settled (p : Problem) (entry : Frame) (past : List Event) (s : State) : Prop :=
  ∀ {b : ℕ} {B : Block} {e : Frame}, p.graph.blocks[b]? = some B →
    s.states[b]? = some (.stable e) → ∃ e₀, lastEntry? past b = some e₀ ∧ e.same e₀ = true ∧
      Recorded p s B e₀ ∧ ∃ n s₀, Runs p (initial p entry) n s₀ ∧ s₀.frame? b = some e₀

lemma settled_initial (L : p.graph.Laid p.code) : Settled p entry [] (initial p entry) := by
  intro b B e hB he
  have hb := (tidy_initial L entry).states ▸ lt_of_states he
  rw [initial_states p entry b hb] at he
  split at he <;> cases he

/-- **A visit keeps the stable blocks settled.** -/
lemma Settled.visit (L : p.graph.Laid p.code) (hr : Runs p (initial p entry) n s)
    (hs : Settled p entry past s) {b : ℕ} {rest : List ℕ} (hq : s.queue = b :: rest)
    (hok : (visit p { s with queue := rest } b).outcome = .ok s') :
    Settled p entry (past ++ .idle s :: visitEvents p { s with queue := rest } b) s' := by
  have hb : b ∈ s.queue := hq ▸ List.mem_cons_self
  rw [← erase_of_queue hq] at hok ⊢
  obtain ⟨B, e, hB, he, hyields⟩ := (hr.tidy L (tidy_initial L entry)).visit L hb
  have hv := hyields.1 s' hok
  obtain ⟨m, hm, -⟩ := hv.posts
  obtain ⟨e', he', hentered⟩ := entered_visitEvents hok
  have hee' : e' = e := Option.some.inj (he'.symm.trans (frame?_eq he))
  subst hee'
  -- the look at the queue enters no block
  have hlast : ∀ c, lastEntry? (past ++ .idle s ::
      visitEvents p { s with queue := s.queue.erase b } b) c =
        if c = b then some e' else lastEntry? past c := fun c => lastEntry?_append hentered
  intro c C f hC hf
  obtain ⟨f₀, hf₀, hsame⟩ := stable_of_posted hm hf
  rw [getElem?_claim (lt_of_states he)] at hf₀
  rw [hlast]
  by_cases hc : c = b
  · subst hc
    rw [if_pos rfl] at hf₀ ⊢
    cases hf₀
    rw [hB] at hC
    cases hC
    exact ⟨e', rfl, hsame, hv.recorded, n, s, hr, frame?_eq he⟩
  · rw [if_neg hc] at hf₀ ⊢
    obtain ⟨e₀, he₀, hsame₀, hrec, hrun⟩ := hs hC hf₀
    refine ⟨e₀, he₀, Frame.same_trans hsame hsame₀, hrec.of_other fun i h1 h2 => ?_, hrun⟩
    -- no instruction is in both blocks
    refine hv.others i fun hin => hc ?_
    have hblock := L.block hC h1 h2
    rw [L.block hB hin.1 hin.2] at hblock
    cases hblock
    rfl

/-- A state between visits is not seen during a visit. -/
lemma append_idle_eq {k : List Event} (h : ∀ ev ∈ l, ev.IsInner) {l₁ l₂ : List Event}
    (heq : l ++ k = l₁ ++ .idle s :: l₂) : ∃ l₀, l₁ = l ++ l₀ ∧ k = l₀ ++ .idle s :: l₂ := by
  rcases List.append_eq_append_iff.1 heq with ⟨l₀, hl₁, hk⟩ | ⟨l₀, hl, hk⟩
  · exact ⟨l₀, hl₁, hk⟩
  · cases l₀ with
    | nil => exact ⟨[], by simpa using hl.symm, by simpa using hk.symm⟩
    | cons ev l₀ =>
      cases hk
      exact absurd rfl (h (.idle s) (by simp [hl]) s)

lemma loopEvents_nil (fuel : ℕ) (hq : s.queue = []) : loopEvents p fuel s = [.idle s] := by
  unfold loopEvents
  rw [hq]

lemma loopEvents_zero (p : Problem) (s : State) : loopEvents p 0 s = [.idle s] := by
  unfold loopEvents
  cases s.queue <;> rfl

lemma loopEvents_succ (fuel : ℕ) {b : ℕ} {rest : List ℕ} (hq : s.queue = b :: rest) :
    loopEvents p (fuel + 1) s = .idle s :: (visitEvents p { s with queue := rest } b ++
      following (visit p { s with queue := rest } b).outcome fun s' => loopEvents p fuel s') := by
  rw [loopEvents]
  simp only [hq]

lemma loopEvents_of_ok (fuel : ℕ) {b : ℕ} {rest : List ℕ} (hq : s.queue = b :: rest)
    (hok : (visit p { s with queue := rest } b).outcome = .ok s') :
    loopEvents p (fuel + 1) s =
      (.idle s :: visitEvents p { s with queue := rest } b) ++ loopEvents p fuel s' := by
  rw [loopEvents_succ fuel hq, hok]
  rfl

/-- The queue is looked at when the loop begins, and from the end of the first visit on. -/
lemma loopEvents_eq_append {fuel : ℕ} {l₁ l₂ : List Event}
    (heq : loopEvents p fuel s = l₁ ++ .idle s' :: l₂) : (l₁ = [] ∧ s' = s) ∨
      ∃ b rest fuel' s₁ l₀, s.queue = b :: rest ∧ fuel = fuel' + 1 ∧
        (visit p { s with queue := rest } b).outcome = .ok s₁ ∧
        l₁ = .idle s :: (visitEvents p { s with queue := rest } b ++ l₀) ∧
        loopEvents p fuel' s₁ = l₀ ++ .idle s' :: l₂ := by
  -- the only event of a loop that visits nothing
  have hsingle : [Event.idle s] = l₁ ++ .idle s' :: l₂ → l₁ = [] ∧ s' = s := by
    intro h
    cases l₁ with
    | nil =>
      cases h
      exact ⟨rfl, rfl⟩
    | cons ev l₁ => simp at h
  cases hq : s.queue with
  | nil =>
    rw [loopEvents_nil fuel hq] at heq
    exact Or.inl (hsingle heq)
  | cons b rest =>
    cases fuel with
    | zero =>
      rw [loopEvents_zero] at heq
      exact Or.inl (hsingle heq)
    | succ fuel =>
      rw [loopEvents_succ fuel hq] at heq
      cases l₁ with
      | nil =>
        cases heq
        exact Or.inl ⟨rfl, rfl⟩
      | cons ev l₁ =>
        simp only [List.cons_append, List.cons.injEq] at heq
        obtain ⟨rfl, heq⟩ := heq
        obtain ⟨l₀, rfl, hnext⟩ := append_idle_eq (shows_visit hq).forall_mem heq
        cases hok : (visit p { s with queue := rest } b).outcome with
        | error fault =>
          rw [hok] at hnext
          simp [following] at hnext
        | ok s₁ =>
          rw [hok] at hnext
          exact Or.inr ⟨b, rest, fuel, s₁, l₀, rfl, rfl, hok, rfl, hnext⟩

/-- **Along the loop**, the stable blocks are settled whenever the queue is looked at. -/
lemma settled_loopEvents (L : p.graph.Laid p.code) {fuel : ℕ} {l₁ l₂ : List Event}
    (hr : Runs p (initial p entry) n s) (hs : Settled p entry past s)
    (heq : loopEvents p fuel s = l₁ ++ .idle s' :: l₂) :
    Settled p entry (past ++ l₁) s' ∧ ∃ n, Runs p (initial p entry) n s' := by
  induction fuel generalizing past s n l₁ with
  | zero =>
    rcases loopEvents_eq_append heq with ⟨rfl, rfl⟩ | ⟨_, _, _, _, _, _, hfuel, _⟩
    · rw [List.append_nil]
      exact ⟨hs, n, hr⟩
    · cases hfuel
  | succ fuel ih =>
    rcases loopEvents_eq_append heq with
      ⟨rfl, rfl⟩ | ⟨b, rest, fuel', s₁, l₀, hq, hfuel, hok, rfl, heq'⟩
    · rw [List.append_nil]
      exact ⟨hs, n, hr⟩
    · cases hfuel
      have h := ih (hr.visit (next_of_queue hq hok)) (hs.visit L hr hq hok) heq'
      rw [List.append_assoc, List.cons_append] at h
      exact h

/-- The loop ends with a look at an empty queue, after as many visits as blocks were entered. -/
lemma loopEvents_ok {limit fuel : ℕ} {r : State × ℕ} (h : (loop p limit fuel s).outcome = .ok r) :
    (loopEvents p fuel s).getLast? = some (.idle r.1) ∧
      (entered (loopEvents p fuel s)).length = r.2 := by
  induction fuel generalizing s r with
  | zero =>
    cases hq : s.queue with
    | nil =>
      rw [loop_nil limit 0 hq] at h
      cases h
      rw [loopEvents_zero]
      exact ⟨rfl, rfl⟩
    | cons b rest =>
      rw [loop_zero limit hq] at h
      cases h
  | succ fuel ih =>
    cases hq : s.queue with
    | nil =>
      rw [loop_nil limit _ hq] at h
      cases h
      rw [loopEvents_nil _ hq]
      exact ⟨rfl, rfl⟩
    | cons b rest =>
      rw [loop_succ limit fuel hq, bind_ok_iff] at h
      obtain ⟨s₁, hvisit, h⟩ := h
      obtain ⟨⟨s₂, m⟩, hloop, hr⟩ := bind_ok_iff.1 h
      cases hr
      obtain ⟨hlast, hlength⟩ := ih hloop
      obtain ⟨e, -, hentered⟩ := entered_visitEvents hvisit
      have hfirst : entered (.idle s :: visitEvents p { s with queue := rest } b) = [(b, e)] :=
        hentered
      rw [loopEvents_of_ok fuel hq hvisit]
      constructor
      · rw [List.getLast?_append, hlast]
        rfl
      · rw [entered_append, hfirst, List.length_append, hlength]
        exact Nat.add_comm 1 m

/-- A loop that fails does so in the visit of the first block that waits, or for want of visits. -/
lemma loopEvents_error {limit fuel : ℕ} {fault : AnalysisFault}
    (h : (loop p limit fuel s).outcome = .error fault) :
    ∃ past s' b rest, s'.queue = b :: rest ∧
      ((visit p { s' with queue := rest } b).outcome = .error fault ∧
          loopEvents p fuel s = past ++ .idle s' :: visitEvents p { s' with queue := rest } b ∨
        fault = .internal none (.iterationLimit limit) ∧
          loopEvents p fuel s = past ++ [.idle s']) := by
  induction fuel generalizing s with
  | zero =>
    cases hq : s.queue with
    | nil =>
      rw [loop_nil limit 0 hq] at h
      cases h
    | cons b rest =>
      rw [loop_zero limit hq] at h
      cases h
      exact ⟨[], s, b, rest, hq, Or.inr ⟨rfl, loopEvents_zero p s⟩⟩
  | succ fuel ih =>
    cases hq : s.queue with
    | nil =>
      rw [loop_nil limit _ hq] at h
      cases h
    | cons b rest =>
      rw [loop_succ limit fuel hq, bind_error_iff] at h
      rcases h with hvisit | ⟨s₁, hvisit, h⟩
      · refine ⟨[], s, b, rest, hq, Or.inl ⟨hvisit, ?_⟩⟩
        rw [loopEvents_succ fuel hq, hvisit]
        simp [following]
      · rcases bind_error_iff.1 h with hloop | ⟨r, -, hr⟩
        · obtain ⟨past, s', c, rest', hc, hend⟩ := ih hloop
          refine ⟨(.idle s :: visitEvents p { s with queue := rest } b) ++ past, s', c, rest', hc,
            ?_⟩
          rw [loopEvents_of_ok fuel hq hvisit, List.append_assoc, List.append_assoc]
          exact hend.imp (And.imp_right (congrArg _)) (And.imp_right (congrArg _))
        · cases hr

/-! ### The worklist -/

/-- Interpreters that keep the offsets on the stack those of its values, from the entry frame on. -/
structure Aligning (p : Problem) (entry : Frame) : Prop where
  entry : entry.Aligned
  step : ∀ {i insn f f'}, f.Aligned → p.interpreter.step i insn f = .ok f' → f'.Aligned

lemma Aligning.walk (A : Aligning p entry) {B : Block} {e f : Frame} (he : e.Aligned) {i : ℕ}
    (h : Walk p B e i f) : f.Aligned := by
  induction h with
  | start => exact he
  | next _ _ _ hs ih => exact A.step ih hs

/-- The interpreter of methods is one of them. -/
lemma aligning_problem {h : Hierarchy} {m : Method} {g : FlowGraph} {code : Code}
    (hentry : entry.Aligned) : Aligning (problem h m g code) entry :=
  ⟨hentry, fun hf hstep => hf.step hstep⟩

lemma Aligning.frame (A : Aligning p entry) (L : p.graph.Laid p.code)
    (h : Runs p (initial p entry) n s) {b : ℕ} {f : Frame} (hf : s.frame? b = some f) :
    f.Aligned := by
  refine entry_invariant L (Q := fun _ f => f.Aligned) A.entry
    (fun _ _ _ _ _ _ hm => Frame.aligned_merge hm) (fun b B e t x hB he _ hsend => ?_) h b f hf
  cases hsend with
  | thrown _ _ hthrow =>
    obtain ⟨-, y, -, rfl⟩ := hthrow
    exact Frame.aligned_of_eq rfl
  | exit hw _ => exact A.walk he hw

/-- **The worklist of a run.** In every state that is seen, a block is in the queue once if it waits
and not at all if it does not, and no block becomes unvisited. Between visits, every stable block
was last interpreted from its entry frame, and what is recorded of it is from then. A run that
succeeds has been seen to the end, when nothing waits, and one that fails to the visit that
failed. -/
theorem events_keep_worklist (hg : FlowGraph.build p.code = .ok p.graph) (settings : Settings)
    (entry : Frame) :
    (∀ s ∈ seen (events p settings entry), ∀ b,
      ((∃ f, s.states[b]? = some (.queued f)) → s.queue.count b = 1) ∧
        ((¬ ∃ f, s.states[b]? = some (.queued f)) → s.queue.count b = 0)) ∧
    (seen (events p settings entry)).Pairwise Onward ∧
    (∀ past s future, events p settings entry = past ++ .idle s :: future →
      ∀ b B e, p.graph.blocks[b]? = some B → s.states[b]? = some (.stable e) →
        ∃ e₀, lastEntry? past b = some e₀ ∧ e.same e₀ = true ∧
          (Aligning p entry → e = e₀) ∧ Recorded p s B e₀) ∧
    (∀ a, (run p settings entry).outcome = .ok a →
      ∃ s, (events p settings entry).getLast? = some (.idle s) ∧ s.queue = [] ∧
        a = ⟨s.before, s.after, (entered (events p settings entry)).length⟩) ∧
    ∀ fault, (run p settings entry).outcome = .error fault →
      ∃ past s b rest, s.queue = b :: rest ∧
        ((visit p { s with queue := rest } b).outcome = .error fault ∧
            events p settings entry = past ++ .idle s :: visitEvents p { s with queue := rest } b ∨
          fault = .internal none (.iterationLimit (ceiling p settings)) ∧
            events p settings entry = past ++ [.idle s]) := by
  have L := FlowGraph.build_laid hg
  obtain ⟨s', hcourse, -⟩ :=
    (shows_loop p (ceiling p settings) (ceiling p settings) (initial p entry)).course
  refine ⟨?_, ?_, ?_, ?_, ?_⟩
  · intro s hs
    exact ((hcourse.invariant Act.queue (tidy_initial L entry).toQueue).2 s hs).count_eq
  · exact (hcourse.pairwise (fun _ _ hb => hb) (fun h h' b hb => h' b (h b hb)) Act.onward).1
  · intro past s future heq b B e hB he
    obtain ⟨hsettled, n, hr⟩ := settled_loopEvents L .none (settled_initial L) heq
    obtain ⟨e₀, hlast, hsame, hrec, n₀, s₀, hr₀, hs₀⟩ := hsettled hB he
    refine ⟨e₀, hlast, hsame, fun A => ?_, hrec⟩
    exact (Frame.same_iff (A.frame L hr (frame?_eq he)) (A.frame L hr₀ hs₀)).1 hsame
  · intro a ha
    unfold run at ha
    simp only [Traced.outcome_bind, bind_ok_iff] at ha
    obtain ⟨⟨s, m⟩, hloop, -, -, ha⟩ := ha
    cases ha
    obtain ⟨hlast, hlength⟩ := loopEvents_ok hloop
    exact ⟨s, hlast, (loop_ok hloop).2, by rw [← hlength]; rfl⟩
  · intro fault hfault
    refine loopEvents_error ?_
    unfold run at hfault
    simp only [Traced.outcome_bind] at hfault
    cases hloop : (loop p (ceiling p settings) (ceiling p settings) (initial p entry)).outcome with
    | error fault' =>
      rw [hloop] at hfault
      cases hfault
      rfl
    | ok r =>
      rw [hloop] at hfault
      cases hfault

end Histories

/-! ### A block that wakes itself -/

namespace Relapse

/-- A loop of one block, which is also the handler of the store in it. -/
def code : Code where
  instructions := [.op (.stack .pop), .op (.calc (.bipush 1)), .op (.calc (.convert .i2f)),
    .op (.store (.num .float) 0), .op .aconstNull, .branch (.goto 0)]
  maxStack := 1
  maxLocals := 1
  handlers := [⟨3, 4, 0, none⟩]

def problem : Problem :=
  Analysis.problem Sample.table.hierarchy Sample.method (Flow.graphOf code) code

def entry : Frame := ⟨[.int], .ofList [.ofClass .throwable]⟩

lemma build_code : FlowGraph.build problem.code = .ok problem.graph := by
  have h : Flow.firstFault code = none := by decide +kernel
  simp [FlowGraph.build, problem, Analysis.problem, h]

/-- The entry frame after the first visit. -/
def relapsed : Frame := ⟨[.top], .ofList [.ofClass .throwable]⟩

/-- The frames of the second visit. -/
def path : List Frame :=
  [relapsed, ⟨[.top], .empty⟩, ⟨[.top], .ofList [.int]⟩, ⟨[.top], .ofList [.float]⟩,
    ⟨[.float], .empty⟩, ⟨[.float], .ofList [.null]⟩, ⟨[.float], .ofList [.null]⟩]

def final : State := ⟨[.stable relapsed], [], path.dropLast.map some, path.tail.map some⟩

lemma events_problem : events problem .standard entry =
    (events problem .standard entry).dropLast ++ [.idle final] := by decide +kernel

end Relapse

/-- In its first visit the block of the sample is posted three frames of its own. The second wakes
it, and the third finds it waiting. -/
theorem events_keep_worklist_relapse :
    (seen (events Relapse.problem .standard Relapse.entry)).map State.queue =
      [[0], [], [0], [0], [0], [], [], [], []] ∧
    (∀ s ∈ seen (events Relapse.problem .standard Relapse.entry),
      (∃ f, s.states[0]? = some (.queued f)) → s.queue.count 0 = 1) ∧
    lastEntry? (events Relapse.problem .standard Relapse.entry).dropLast 0 =
      some Relapse.relapsed ∧
    ∃ B, Relapse.problem.graph.blocks[0]? = some B ∧
      Recorded Relapse.problem Relapse.final B Relapse.relapsed := by
  obtain ⟨hcount, -, hstable, -⟩ :=
    events_keep_worklist (p := Relapse.problem) Relapse.build_code .standard Relapse.entry
  have hB : 0 < Relapse.problem.graph.blocks.length := by decide +kernel
  obtain ⟨e₀, hlast, -, heq, hrec⟩ := hstable _ _ _ Relapse.events_problem 0 _ _
    (List.getElem?_eq_getElem hB) rfl
  cases heq (aligning_problem rfl)
  exact ⟨by decide +kernel, fun s hs => (hcount s hs 0).1, hlast, _, List.getElem?_eq_getElem hB,
    hrec⟩

end Analysis

end Bytecheck
