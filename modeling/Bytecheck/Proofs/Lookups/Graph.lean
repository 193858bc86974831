import Mathlib.Tactic.Common
import Bytecheck.Proofs.Lookups.Basic

/-!
Building a flow graph by lookups.

The graph is built in one pass after the other: flags for the first instructions of blocks, the
blocks between them, the handlers that cover each instruction, the edges one by one, and a search
from the first block. Each pass writes into lists at places it has read off the code. A loop is
described by what it has made of the part that is done (`foldlM_of_prefix`), and the search by
what its flags and its queue say (`Searching`). Main statement: the passes build the same graph.
-/

namespace Bytecheck.Indexed

open Relation

variable {ε α β : Type} {c : Code}

/-! ### Loops -/

/-- A loop is at a known state after every part of its list. -/
lemma foldlM_of_prefix {f : β → α → Indexed ε β} {l : List α} (S : List α → β)
    (hstep : ∀ done a rest, l = done ++ a :: rest → f (S done) a = .ok (S (done ++ [a]))) :
    l.foldlM f (S []) = .ok (S l) := by
  suffices h : ∀ rest done, l = done ++ rest → rest.foldlM f (S done) = .ok (S l) from h l [] rfl
  intro rest
  induction rest with
  | nil =>
    intro done hl
    rw [hl, List.append_nil]
    rfl
  | cons a rest ih =>
    intro done hl
    rw [List.foldlM_cons, hstep done a rest hl, ok_bind]
    exact ih (done ++ [a]) (by simp [hl])

lemma foldlM_range {f : β → ℕ → Indexed ε β} {n : ℕ} (S : ℕ → β)
    (hstep : ∀ k < n, f (S k) k = .ok (S (k + 1))) :
    (List.range n).foldlM f (S 0) = .ok (S n) := by
  induction n with
  | zero => rfl
  | succ n ih =>
    rw [List.range_succ, List.foldlM_append, ih fun k hk => hstep k (by omega), ok_bind,
      List.foldlM_cons, hstep n (by omega), ok_bind]
    rfl

lemma mapM_eq {f : α → Indexed ε β} {g : α → β} {l : List α} (h : ∀ a ∈ l, f a = .ok (g a)) :
    l.mapM f = .ok (l.map g) := by
  induction l with
  | nil => rfl
  | cons a l ih =>
    rw [List.mapM_cons, h a List.mem_cons_self, ok_bind,
      ih fun b hb => h b (List.mem_cons_of_mem a hb), ok_bind]
    rfl

/-! ### Checks -/

def checkHandlers (c : Code) : Indexed CodeFault Unit :=
  match c.handlers.zipIdx.findSome? fun p => Flow.handlerFault c p.2 p.1 with
  | some fault => .error (some fault)
  | none => .ok ()

def validate (c : Code) : Indexed CodeFault Unit :=
  if c.size = 0 then .error (some .emptyCode)
  else
    match c.instructions.zipIdx.findSome? fun p => Flow.instructionFault c p.2 p.1 with
    | some fault => .error (some fault)
    | none => do
      let last ← fetch c.instructions (c.size - 1)
      if last.fallsThrough then .error (some (.fallsOffEnd (c.size - 1))) else checkHandlers c

lemma validate_eq (c : Code) : validate c =
    match Flow.firstFault c with
    | some fault => .error (some fault)
    | none => .ok () := by
  unfold validate Flow.firstFault Flow.endFault
  by_cases h0 : c.size = 0
  · have hnil : c.instructions = [] := List.eq_nil_of_length_eq_zero h0
    simp [h0, hnil]
  · have hpos : 0 < c.size := Nat.pos_of_ne_zero h0
    obtain ⟨last, hfetch⟩ : ∃ last, c.instructions[c.size - 1]? = some last :=
      ⟨_, List.getElem?_eq_getElem (show c.size - 1 < c.size by omega)⟩
    have hlast : c.instructions.getLast? = some last := by
      rw [List.getLast?_eq_getElem?]
      exact hfetch
    rw [if_neg h0, hlast]
    cases c.instructions.zipIdx.findSome? fun p => Flow.instructionFault c p.2 p.1 with
    | some fault => rfl
    | none =>
      dsimp only
      rw [fetch_eq hfetch, ok_bind]
      split
      · rfl
      · rfl

/-! ### First instructions of blocks -/

/-- The places to flag, in the order of the code. -/
def places (c : Code) : List ℕ :=
  0 :: (c.instructions.zipIdx.flatMap fun p =>
    p.1.targets ++ if p.1.isBranch && p.2 + 1 < c.size then [p.2 + 1] else []) ++
    c.handlers.map Handler.entry

def flag (c : Code) : Indexed ε (List Bool) :=
  (places c).foldlM (fun flags i => store flags i true) (List.replicate c.size false)

lemma places_lt (hc : c.Sound) {i : ℕ} (h : i ∈ places c) : i < c.size := by
  unfold places at h
  simp only [List.cons_append, List.mem_cons, List.mem_append, List.mem_flatMap, List.mem_map] at h
  rcases h with rfl | ⟨⟨insn, k⟩, hk, ht | hn⟩ | ⟨hd, hh, rfl⟩
  · exact hc.nonempty
  · exact hc.target (List.mem_zipIdx_iff_getElem?.1 hk) ht
  · split at hn
    · simp_all
    · simp at hn
  · exact hc.entry hh

lemma mem_places_iff {i : ℕ} (hi : i < c.size) : i ∈ places c ↔ i ∈ Flow.marks c := by
  unfold places Flow.marks
  simp only [List.cons_append, List.mem_cons, List.mem_append, List.mem_flatMap]
  refine or_congr_right (or_congr_left (exists_congr fun p => and_congr_right fun _ =>
    or_congr_right ?_))
  cases p.1.isBranch with
  | false => simp
  | true =>
    simp only [Bool.true_and, decide_eq_true_eq, if_true, List.mem_singleton]
    constructor
    · intro h
      split at h
      · simpa using h
      · simp at h
    · rintro rfl
      simp [hi]

/-- A flag is set where a block starts. -/
lemma flag_eq (hc : c.Sound) : (flag c : Indexed ε (List Bool)) =
    .ok ((List.range c.size).map (Flow.marks c).contains) := by
  have hloop := foldlM_of_prefix (ε := ε) (f := fun flags i => store flags i true) (l := places c)
    (fun done => (List.range c.size).map done.contains) fun done i rest hl => by
      have hi : i < c.size := places_lt hc (by rw [hl]; simp)
      rw [store_eq (by simpa using hi)]
      congr 1
      refine List.ext_getElem (by simp) fun k hk hk' => ?_
      by_cases hki : i = k <;> simp [hki, eq_comm]
  have hstart : (List.range c.size).map (List.contains []) = List.replicate c.size false :=
    List.eq_replicate_iff.2 ⟨by simp, by simp⟩
  unfold flag
  rw [← hstart, hloop]
  congr 1
  refine List.map_congr_left fun i hi => ?_
  rw [Bool.eq_iff_iff, List.contains_iff_mem, List.contains_iff_mem,
    mem_places_iff (List.mem_range.1 hi)]

/-! ### Cutting -/

/-- The blocks that are begun, and the block of each instruction so far. -/
structure Cut where
  bounds : List (ℕ × ℕ)
  blockOf : List ℕ

/-- An instruction begins a block if it is flagged, and belongs to the last one begun. -/
def cutAt (s : Cut) (p : Bool × ℕ) : Indexed ε Cut :=
  let bounds := if p.1 then s.bounds ++ [(p.2, p.2)] else s.bounds
  let current := bounds.length - 1
  do
    let bounds ← modify bounds current fun b => (b.1, p.2 + 1)
    .ok ⟨bounds, s.blockOf ++ [current]⟩

def cut (flags : List Bool) : Indexed ε Cut := flags.zipIdx.foldlM cutAt ⟨[], []⟩

/-- Blocks that start at the numbers of a list, up to an end. -/
def cuts (starts : List ℕ) (stop : ℕ) : List (ℕ × ℕ) := starts.zip (starts.drop 1 ++ [stop])

lemma cuts_concat (starts : List ℕ) (k stop : ℕ) :
    cuts (starts ++ [k]) stop = cuts starts k ++ [(k, stop)] := by
  unfold cuts
  cases starts with
  | nil => rfl
  | cons x starts =>
    rw [List.cons_append, List.drop_succ_cons, List.drop_zero, List.drop_succ_cons, List.drop_zero,
      ← List.cons_append, List.zip_append (by simp)]
    rfl

lemma length_cuts (starts : List ℕ) (stop : ℕ) : (cuts starts stop).length = starts.length := by
  simp [cuts]
  omega

lemma modify_last (l : List α) (a : α) (f : α → α) :
    (modify (l ++ [a]) l.length f : Indexed ε (List α)) = .ok (l ++ [f a]) := by
  rw [modify_eq (List.getElem?_concat_length)]
  simp

/-- The numbers up to `k` that have a property, among those below `n`. -/
lemma filter_filter_range (P : ℕ → Bool) {k n : ℕ} (h : k < n) :
    ((List.range n).filter P).filter (· ≤ k) = (List.range (k + 1)).filter P := by
  have hn : n = (k + 1) + (n - (k + 1)) := by omega
  have hupTo : ∀ i ∈ List.range (k + 1), decide (i ≤ k) = true := by
    intro i hi
    exact decide_eq_true (Nat.le_of_lt_succ (List.mem_range.1 hi))
  have hafter : ∀ i ∈ (List.range (n - (k + 1))).map (k + 1 + ·), ¬ decide (i ≤ k) = true := by
    intro i hi
    obtain ⟨j, -, rfl⟩ := List.mem_map.1 hi
    rw [decide_eq_true_eq]
    omega
  rw [List.filter_comm, hn, List.range_add, List.filter_append, List.filter_eq_self.2 hupTo,
    List.filter_eq_nil_iff.2 hafter, List.append_nil]

/-- What cutting has done before an instruction. -/
def cutUpTo (c : Code) (k : ℕ) : Cut :=
  ⟨cuts ((List.range k).filter (Flow.marks c).contains) k,
    (List.range k).map (Flow.blockAt (Flow.leaders c))⟩

lemma cutAt_eq {k : ℕ} (hk : k < c.size) :
    (cutAt (cutUpTo c k) ((Flow.marks c).contains k, k) : Indexed ε Cut) =
      .ok (cutUpTo c (k + 1)) := by
  have hcurrent : Flow.blockAt (Flow.leaders c) k =
      ((List.range (k + 1)).filter (Flow.marks c).contains).length - 1 := by
    unfold Flow.blockAt Flow.leaders
    dsimp only
    rw [filter_filter_range _ hk]
  unfold cutAt cutUpTo
  rw [List.range_succ, List.map_append, List.map_singleton, hcurrent, List.range_succ,
    List.filter_append]
  cases hmark : (Flow.marks c).contains k with
  | true =>
    rw [List.filter_cons_of_pos hmark, List.filter_nil, cuts_concat]
    simp only [if_true, List.length_append, length_cuts, List.length_singleton, Nat.add_sub_cancel]
    rw [← length_cuts _ k, modify_last]
    rfl
  | false =>
    rw [List.filter_cons_of_neg (by rw [hmark]; simp), List.filter_nil, List.append_nil]
    simp only [Bool.false_eq_true, if_false, length_cuts]
    -- the first instruction is flagged, so some block is begun
    obtain ⟨starts, x, hstarts⟩ : ∃ starts x,
        (List.range k).filter (Flow.marks c).contains = starts ++ [x] := by
      refine (List.eq_nil_or_concat' _).resolve_left fun hnil => ?_
      have hpos : 0 < k := by
        refine Nat.pos_of_ne_zero ?_
        rintro rfl
        simp [Flow.marks] at hmark
      have := List.filter_eq_nil_iff.1 hnil 0 (List.mem_range.2 hpos)
      simp [Flow.marks] at this
    rw [hstarts, cuts_concat, cuts_concat, List.length_append, List.length_singleton,
      Nat.add_sub_cancel, ← length_cuts starts x, modify_last]
    rfl

/-- Blocks are cut where the flags are. -/
lemma cut_eq (c : Code) :
    (cut ((List.range c.size).map (Flow.marks c).contains) : Indexed ε Cut) =
      .ok ⟨Flow.ranges c, (List.range c.size).map (Flow.blockAt (Flow.leaders c))⟩ := by
  have hzip : ((List.range c.size).map (Flow.marks c).contains).zipIdx =
      (List.range c.size).map fun k => ((Flow.marks c).contains k, k) :=
    List.ext_getElem (by simp) (by simp)
  unfold cut
  rw [hzip, List.foldlM_map]
  exact foldlM_range (cutUpTo c) fun k hk => cutAt_eq hk

/-! ### Handlers -/

/-- A handler is added at the instructions it covers. -/
def cover (covered : List (List ℕ)) (p : Handler × ℕ) : Indexed ε (List (List ℕ)) :=
  if p.1.start ≤ p.1.stop ∧ p.1.stop ≤ covered.length then
    .ok (covered.mapIdx fun i places => if p.1.covers i then places ++ [p.2] else places)
  else .error none

def coverAll (c : Code) : Indexed ε (List (List ℕ)) :=
  c.handlers.zipIdx.foldlM cover (List.replicate c.size [])

lemma coverAll_eq (hc : c.Sound) : (coverAll c : Indexed ε (List (List ℕ))) =
    .ok ((List.range c.size).map (Flow.covering c)) := by
  have hloop := foldlM_of_prefix (ε := ε) (f := cover) (l := c.handlers.zipIdx)
    (fun done => (List.range c.size).map fun i =>
      (done.filter fun p => p.1.covers i).map Prod.snd) fun done p rest hl => by
      have hp : p.1 ∈ c.handlers := by
        have hmem : p ∈ c.handlers.zipIdx := by rw [hl]; simp
        exact List.mem_of_getElem? (List.mem_zipIdx_iff_getElem?.1 hmem)
      have hrange := hc.range hp
      unfold cover
      rw [if_pos ⟨Nat.le_of_lt hrange.1, by simpa using hrange.2⟩]
      congr 1
      refine List.ext_getElem (by simp) fun k hk hk' => ?_
      by_cases hcov : p.1.covers k = true <;> simp [List.filter_cons, hcov]
  have hstart : (List.range c.size).map (fun i =>
      (([] : List (Handler × ℕ)).filter fun p => p.1.covers i).map Prod.snd) =
      List.replicate c.size [] := by
    simp [List.map_const']
  unfold coverAll
  rw [← hstart, hloop]
  rfl

/-! ### Edges -/

/-- The number before another one. -/
def pred : ℕ → Indexed ε ℕ
  | 0 => .error none
  | n + 1 => .ok n

/-- The blocks that may follow by normal control. -/
def exitBlocks (c : Code) (blockOf : List ℕ) (stop : ℕ) : Indexed ε (List ℕ) := do
  let k ← pred stop
  let last ← fetch c.instructions k
  ((if last.fallsThrough && stop < c.size then [stop] else []) ++ last.targets).mapM (fetch blockOf)

/-- The block of the handler in a place of the table. -/
def handlerBlock (c : Code) (blockOf : List ℕ) (place : ℕ) : Indexed ε ℕ := do
  let h ← fetch c.handlers place
  fetch blockOf h.entry

/-- The blocks of the handlers that cover the instructions of a block. -/
def handlerBlocks (c : Code) (blockOf : List ℕ) (covered : List (List ℕ)) (start stop : ℕ) :
    Indexed ε (List ℕ) := do
  let blocks ← (List.range' start (stop - start)).mapM fun i => do
    let places ← fetch covered i
    places.mapM (handlerBlock c blockOf)
  .ok blocks.flatten

/-- An edge that is not there yet is added at both of its ends. -/
def addEdge (source : ℕ) (blocks : List Block) (e : Edge) : Indexed ε (List Block) := do
  let b ← fetch blocks source
  if b.successors.contains e then .ok blocks
  else do
    let blocks ← store blocks source { b with successors := b.successors ++ [e] }
    modify blocks e.1 fun t => { t with predecessors := t.predecessors ++ [(source, e.2)] }

/-- The edges out of a block are added. -/
def link (c : Code) (blockOf : List ℕ) (covered : List (List ℕ)) (blocks : List Block) (k : ℕ) :
    Indexed ε (List Block) := do
  let b ← fetch blocks k
  let normal ← exitBlocks c blockOf b.stop
  let thrown ← handlerBlocks c blockOf covered b.start b.stop
  (normal.map (fun u => (u, EdgeKind.normal)) ++ thrown.map fun u => (u, EdgeKind.exception)).foldlM
    (addEdge k) blocks

def linkAll (c : Code) (blockOf : List ℕ) (covered : List (List ℕ)) (bounds : List (ℕ × ℕ)) :
    Indexed ε (List Block) :=
  (List.range bounds.length).foldlM (link c blockOf covered)
    (bounds.map fun r => ⟨r.1, r.2, [], []⟩)

/-- Blocks with given edges at both ends. -/
def withEdges (bounds : List (ℕ × ℕ)) (out into : ℕ → List Edge) : List Block :=
  bounds.zipIdx.map fun p => ⟨p.1.1, p.1.2, out p.2, into p.2⟩

/-- Blocks when the edges out of the first ones are there. -/
def linked (bounds : List (ℕ × ℕ)) (edges : List (List Edge)) : List Block :=
  withEdges bounds (fun k => (edges[k]?).getD []) (Flow.predecessors edges)

section Edges

variable {bounds : List (ℕ × ℕ)} {out into : ℕ → List Edge} {edges : List (List Edge)}

lemma getElem?_withEdges {k : ℕ} {r : ℕ × ℕ} (h : bounds[k]? = some r) :
    (withEdges bounds out into)[k]? = some ⟨r.1, r.2, out k, into k⟩ := by
  simp [withEdges, h]

lemma length_withEdges : (withEdges bounds out into).length = bounds.length := by
  simp [withEdges]

lemma set_withEdges {k : ℕ} {r : ℕ × ℕ} (h : bounds[k]? = some r) (es fs : List Edge) :
    (withEdges bounds out into).set k ⟨r.1, r.2, es, fs⟩ =
      withEdges bounds (Function.update out k es) (Function.update into k fs) := by
  refine List.ext_getElem? fun j => ?_
  by_cases hj : j < bounds.length
  · have hr := List.getElem?_eq_getElem hj
    rw [List.getElem?_set, getElem?_withEdges hr, getElem?_withEdges hr]
    by_cases hkj : k = j
    · subst hkj
      rw [h] at hr
      cases hr
      simp [length_withEdges, hj]
    · rw [if_neg hkj, Function.update_of_ne (Ne.symm hkj), Function.update_of_ne (Ne.symm hkj)]
  · rw [List.getElem?_eq_none (by rw [List.length_set, length_withEdges]; omega),
      List.getElem?_eq_none (by rw [length_withEdges]; omega)]

lemma predecessors_concat (es : List Edge) (k : ℕ) : Flow.predecessors (edges ++ [es]) k =
    Flow.predecessors edges k ++
      (es.filter fun e => e.1 = k).map fun e => (edges.length, e.2) := by
  simp [Flow.predecessors, List.zipIdx_append]

lemma update_out (es fs : List Edge) :
    Function.update (fun k => ((edges ++ [es])[k]?).getD []) edges.length fs =
      fun k => ((edges ++ [fs])[k]?).getD [] := by
  funext k
  rcases Nat.lt_trichotomy k edges.length with h | rfl | h
  · rw [Function.update_of_ne (by omega), List.getElem?_append_left h, List.getElem?_append_left h]
  · simp
  · rw [Function.update_of_ne (by omega), List.getElem?_eq_none (by simp; omega),
      List.getElem?_eq_none (by simp; omega)]

lemma update_into (es : List Edge) (e : Edge) :
    Function.update (Flow.predecessors (edges ++ [es])) e.1
        (Flow.predecessors (edges ++ [es]) e.1 ++ [(edges.length, e.2)]) =
      Flow.predecessors (edges ++ [es ++ [e]]) := by
  funext k
  by_cases h : k = e.1
  · subst h
    simp [predecessors_concat]
  · rw [Function.update_of_ne h]
    simp [predecessors_concat, Ne.symm h]

/-- A block without edges out of it is as one that is not looked at yet. -/
lemma linked_concat_nil : linked bounds (edges ++ [[]]) = linked bounds edges := by
  have hout : (fun k : ℕ => ((edges ++ [[]])[k]?).getD []) = fun k => (edges[k]?).getD [] := by
    funext k
    rcases Nat.lt_trichotomy k edges.length with h | rfl | h
    · rw [List.getElem?_append_left h]
    · simp
    · rw [List.getElem?_eq_none (by simp; omega), List.getElem?_eq_none (by omega)]
  have hinto : Flow.predecessors (edges ++ [[]]) = Flow.predecessors edges := by
    funext k
    simp [predecessors_concat]
  unfold linked
  rw [hout, hinto]

/-- Adding an edge out of the last block that has any. -/
lemma addEdge_eq {es : List Edge} {e : Edge} (hsource : edges.length < bounds.length)
    (htarget : e.1 < bounds.length) :
    (addEdge edges.length (linked bounds (edges ++ [es])) e : Indexed ε (List Block)) =
      .ok (linked bounds (edges ++ [if e ∈ es then es else es ++ [e]])) := by
  have hs := List.getElem?_eq_getElem hsource
  have ht := List.getElem?_eq_getElem htarget
  unfold addEdge linked
  rw [fetch_eq (getElem?_withEdges hs), ok_bind]
  simp only [List.getElem?_concat_length, Option.getD_some]
  by_cases he : e ∈ es
  · rw [if_pos (List.contains_iff_mem.2 he), if_pos he]
  · have hstore : edges.length < (withEdges bounds (fun k => ((edges ++ [es])[k]?).getD [])
        (Flow.predecessors (edges ++ [es]))).length := by
      rw [length_withEdges]
      exact hsource
    rw [if_neg fun h => he (List.contains_iff_mem.1 h), if_neg he, store_eq hstore, ok_bind,
      set_withEdges hs, Function.update_eq_self, update_out, modify_eq (getElem?_withEdges ht),
      set_withEdges ht, Function.update_eq_self, update_into]

/-- Adding the edges out of a block. -/
lemma foldlM_addEdge (bounds : List (ℕ × ℕ)) (edges : List (List Edge)) (es : List Edge)
    (hsource : edges.length < bounds.length) (htarget : ∀ e ∈ es, e.1 < bounds.length) :
    (es.foldlM (addEdge edges.length) (linked bounds edges) : Indexed ε (List Block)) =
      .ok (linked bounds (edges ++ [es.eraseDups])) := by
  have hloop := foldlM_of_prefix (ε := ε) (f := addEdge edges.length) (l := es)
    (fun done => linked bounds (edges ++ [done.eraseDups])) fun done e rest hl => by
      have hdups : (done ++ [e]).eraseDups =
          if e ∈ done.eraseDups then done.eraseDups else done.eraseDups ++ [e] := by
        simp only [Flow.eraseDups_concat, List.mem_eraseDups]
      rw [addEdge_eq hsource (htarget e (by rw [hl]; simp)), hdups]
  rw [← linked_concat_nil]
  exact hloop

end Edges

/-- The block of each instruction. -/
def blocksOf (c : Code) : List ℕ := (List.range c.size).map (Flow.blockAt (Flow.leaders c))

lemma fetch_blocksOf {i : ℕ} (h : i < c.size) :
    (fetch (blocksOf c) i : Indexed ε ℕ) = .ok (Flow.blockAt (Flow.leaders c) i) :=
  fetch_eq (by simp [blocksOf, h])

lemma blockAt_lt {i : ℕ} (h : i < c.size) :
    Flow.blockAt (Flow.leaders c) i < (Flow.ranges c).length := by
  obtain ⟨B, hB, -⟩ := Flow.exists_block_of_lt h
  rw [Flow.length_ranges, ← Flow.length_blocks]
  exact (List.getElem?_eq_some_iff.1 hB).1

lemma exitBlocks_eq (hc : c.Sound) {stop : ℕ} (h0 : 0 < stop) (hstop : stop ≤ c.size) :
    (exitBlocks c (blocksOf c) stop : Indexed ε (List ℕ)) =
      .ok ((Flow.exits c stop).map (Flow.blockAt (Flow.leaders c))) := by
  obtain ⟨k, rfl⟩ := Nat.exists_eq_succ_of_ne_zero (Nat.ne_of_gt h0)
  obtain ⟨last, hlast⟩ : ∃ last, c.instructions[k]? = some last :=
    ⟨_, List.getElem?_eq_getElem (show k < c.size by omega)⟩
  have hexits : Flow.exits c k.succ =
      (if last.fallsThrough && k.succ < c.size then [k.succ] else []) ++ last.targets := by
    simp [Flow.exits, hlast]
  unfold exitBlocks
  rw [pred, ok_bind, fetch_eq hlast, ok_bind, ← hexits]
  refine mapM_eq fun t ht => fetch_blocksOf ?_
  exact hc.flows_lt ((Flow.mem_exits_iff hc h0).1 ht)

lemma mapM_handlerBlock (hc : c.Sound) (i : ℕ) :
    ((Flow.covering c i).mapM (handlerBlock c (blocksOf c)) : Indexed ε (List ℕ)) =
      .ok (((c.handlers.filter fun h => h.covers i).map Handler.entry).map
        (Flow.blockAt (Flow.leaders c))) := by
  have hfst : (c.handlers.filter fun h => h.covers i) =
      (c.handlers.zipIdx.filter fun p => p.1.covers i).map Prod.fst := by
    conv_lhs => rw [← List.zipIdx_map_fst 0 c.handlers, List.filter_map]
    rfl
  unfold Flow.covering
  rw [List.mapM_map, hfst, List.map_map, List.map_map]
  refine mapM_eq fun p hp => ?_
  have hp := List.mem_zipIdx_iff_getElem?.1 (List.mem_filter.1 hp).1
  rw [Function.comp_apply, handlerBlock, fetch_eq hp, ok_bind]
  exact fetch_blocksOf (hc.entry (List.mem_of_getElem? hp))

lemma handlerBlocks_eq (hc : c.Sound) {start stop : ℕ} (hstop : stop ≤ c.size) :
    (handlerBlocks c (blocksOf c) ((List.range c.size).map (Flow.covering c)) start stop :
      Indexed ε (List ℕ)) =
      .ok ((Flow.handlerEntries c start stop).map (Flow.blockAt (Flow.leaders c))) := by
  unfold handlerBlocks Flow.handlerEntries
  rw [mapM_eq (g := fun i => ((c.handlers.filter fun h => h.covers i).map Handler.entry).map
    (Flow.blockAt (Flow.leaders c)))]
  · rw [ok_bind, List.map_flatMap]
    rfl
  · intro i hi
    have hi : i < c.size := by
      have := List.mem_range'_1.1 hi
      omega
    rw [fetch_eq (a := Flow.covering c i) (by simp [hi]), ok_bind]
    exact mapM_handlerBlock hc i

/-- The edges out of a block, some of them more than once. -/
def edgesFrom (c : Code) (start stop : ℕ) : List Edge :=
  ((Flow.exits c stop).map (Flow.blockAt (Flow.leaders c))).map (fun u => (u, EdgeKind.normal)) ++
    ((Flow.handlerEntries c start stop).map (Flow.blockAt (Flow.leaders c))).map
      fun u => (u, EdgeKind.exception)

lemma eraseDups_edgesFrom (c : Code) (start stop : ℕ) : (edgesFrom c start stop).eraseDups =
    Flow.successors c (Flow.leaders c) start stop := by
  unfold edgesFrom Flow.successors
  rw [List.map_map, List.map_map]
  rfl

lemma edgesFrom_lt (hc : c.Sound) {start stop : ℕ} (h0 : 0 < stop) (hstop : stop ≤ c.size) :
    ∀ e ∈ edgesFrom c start stop, e.1 < (Flow.ranges c).length := by
  intro e he
  simp only [edgesFrom, List.mem_append, List.mem_map] at he
  rcases he with ⟨-, ⟨t, ht, rfl⟩, rfl⟩ | ⟨-, ⟨t, ht, rfl⟩, rfl⟩
  · exact blockAt_lt (hc.flows_lt ((Flow.mem_exits_iff hc h0).1 ht))
  · obtain ⟨i, h, -, -, hcat, rfl⟩ := (Flow.mem_handlerEntries_iff hstop).1 ht
    exact blockAt_lt (hc.entry hcat.2.1)

lemma bounds_of_ranges {k start stop : ℕ} (h : (Flow.ranges c)[k]? = some (start, stop)) :
    start < stop ∧ stop ≤ c.size := by
  obtain ⟨hstart, hstop⟩ := Flow.getElem?_ranges.1 h
  have hloc : Flow.Located c k ⟨start, stop, Flow.successors c (Flow.leaders c) start stop, []⟩ :=
    ⟨hstart, hstop, rfl⟩
  exact hloc.bounds

/-- The edges out of the blocks. -/
def edgesOf (c : Code) : List (List Edge) :=
  (Flow.ranges c).map fun r => Flow.successors c (Flow.leaders c) r.1 r.2

/-- A block gets its edges. -/
lemma link_eq (hc : c.Sound) {k : ℕ} (hk : k < (Flow.ranges c).length) :
    (link c (blocksOf c) ((List.range c.size).map (Flow.covering c))
      (linked (Flow.ranges c) ((edgesOf c).take k)) k : Indexed ε (List Block)) =
      .ok (linked (Flow.ranges c) ((edgesOf c).take (k + 1))) := by
  obtain ⟨⟨start, stop⟩, hr⟩ : ∃ r, (Flow.ranges c)[k]? = some r := ⟨_, List.getElem?_eq_getElem hk⟩
  have hbounds := bounds_of_ranges hr
  have hlen : ((edgesOf c).take k).length = k := by
    rw [List.length_take, edgesOf, List.length_map]
    omega
  have hnext : (edgesOf c).take (k + 1) =
      (edgesOf c).take k ++ [(edgesFrom c start stop).eraseDups] := by
    rw [List.take_add_one, edgesOf, List.getElem?_map, hr, eraseDups_edgesFrom]
    rfl
  have hadd := foldlM_addEdge (ε := ε) (Flow.ranges c) ((edgesOf c).take k)
    (edgesFrom c start stop) (by rwa [hlen]) (edgesFrom_lt hc (by omega) hbounds.2)
  unfold link
  rw [linked, fetch_eq (getElem?_withEdges hr), ok_bind, exitBlocks_eq hc (by omega) hbounds.2,
    ok_bind, handlerBlocks_eq hc hbounds.2, ok_bind, ← linked, hnext]
  rw [hlen] at hadd
  exact hadd

/-- The blocks get their edges. -/
lemma linkAll_eq (hc : c.Sound) :
    (linkAll c (blocksOf c) ((List.range c.size).map (Flow.covering c)) (Flow.ranges c) :
      Indexed ε (List Block)) = .ok (Flow.graphOf c).blocks := by
  have hstart : (Flow.ranges c).map (fun r => (⟨r.1, r.2, [], []⟩ : Block)) =
      linked (Flow.ranges c) ((edgesOf c).take 0) :=
    List.ext_getElem (by simp [linked, withEdges])
      (by simp [linked, withEdges, Flow.predecessors])
  have hend : linked (Flow.ranges c) ((edgesOf c).take (Flow.ranges c).length) =
      (Flow.graphOf c).blocks := by
    rw [List.take_of_length_le (by simp [edgesOf])]
    refine List.ext_getElem (by simp [linked, withEdges, Flow.graphOf]) fun k hk hk' => ?_
    have hk : k < (Flow.ranges c).length := by simpa [linked, withEdges] using hk
    simp [linked, withEdges, Flow.graphOf, edgesOf, hk]
  unfold linkAll
  rw [hstart, foldlM_range (fun k => linked (Flow.ranges c) ((edgesOf c).take k))
    fun k hk => link_eq hc hk, hend]

/-! ### Search -/

/-- A search through the blocks: which ones are found, and which of them wait. -/
structure Search where
  flags : List Bool
  queue : List ℕ

/-- A block that is found for the first time waits. -/
def find (s : Search) (u : ℕ) : Indexed ε Search := do
  let seen ← fetch s.flags u
  if seen then .ok s
  else do
    let flags ← store s.flags u true
    .ok ⟨flags, s.queue ++ [u]⟩

/-- Follow the edges out of the blocks that wait; at most `fuel` blocks are left. -/
def search (blocks : List Block) : ℕ → Search → Indexed ε (List Bool)
  | fuel, s =>
    match s.queue with
    | [] => .ok s.flags
    | b :: rest =>
      match fuel with
      | 0 => .error none
      | fuel + 1 => do
        let block ← fetch blocks b
        let s ← (block.successors.map Prod.fst).foldlM find ⟨s.flags, rest⟩
        search blocks fuel s

def reachable (blocks : List Block) : Indexed ε (List Bool) := do
  let flags ← store (List.replicate blocks.length false) 0 true
  search blocks blocks.length ⟨flags, [0]⟩

def Search.Seen (s : Search) (u : ℕ) : Prop := s.flags[u]? = some true

/-- What finding some blocks does. Each block that is flagged waits once. -/
structure Found (us : List ℕ) (s s' : Search) : Prop where
  length : s'.flags.length = s.flags.length
  seen : ∀ {u}, s'.Seen u ↔ s.Seen u ∨ u ∈ us
  queue : ∀ {u}, u ∈ s'.queue ↔ u ∈ s.queue ∨ u ∈ us ∧ ¬ s.Seen u
  left : s'.flags.count false + s'.queue.length = s.flags.count false + s.queue.length

section Search

variable {s : Search} {g : FlowGraph}

lemma find_found {u : ℕ} (hu : u < s.flags.length) :
    ∃ s', (find s u : Indexed ε Search) = .ok s' ∧ Found [u] s s' := by
  have hflag := List.getElem?_eq_getElem hu
  unfold find
  rw [fetch_eq hflag, ok_bind]
  cases hseen : s.flags[u] with
  | true =>
    have hu' : s.Seen u := by rw [Search.Seen, hflag, hseen]
    refine ⟨s, rfl, rfl, ?_, ?_, rfl⟩
    · intro v
      rw [List.mem_singleton]
      exact ⟨Or.inl, fun h => h.elim id fun h => h ▸ hu'⟩
    · intro v
      rw [List.mem_singleton]
      exact ⟨Or.inl, fun h => h.elim id fun h => absurd (h.1 ▸ hu') h.2⟩
  | false =>
    have hu' : ¬ s.Seen u := by rw [Search.Seen, hflag, hseen]; simp
    rw [if_neg (by simp), store_eq hu, ok_bind]
    refine ⟨_, rfl, by simp, ?_, ?_, ?_⟩
    · intro v
      by_cases hv : u = v
      · subst hv
        simp [Search.Seen, hu]
      · simp [Search.Seen, hv, Ne.symm hv]
    · intro v
      simp only [List.mem_append, List.mem_singleton]
      refine or_congr_right ⟨fun h => ⟨h, h ▸ hu'⟩, And.left⟩
    · have hpos : 0 < s.flags.count false :=
        List.count_pos_iff.2 (List.mem_of_getElem? (hseen ▸ hflag))
      have hcount : (s.flags.set u true).count false = s.flags.count false - 1 := by
        rw [List.count_set hu, hseen]
        rfl
      rw [hcount, List.length_append, List.length_singleton]
      omega

lemma foldlM_find {us : List ℕ} (hus : ∀ u ∈ us, u < s.flags.length) :
    ∃ s', (us.foldlM find s : Indexed ε Search) = .ok s' ∧ Found us s s' := by
  induction us generalizing s with
  | nil => exact ⟨s, rfl, rfl, by simp, by simp, rfl⟩
  | cons u us ih =>
    obtain ⟨s₁, hfind, h₁⟩ := find_found (ε := ε) (hus u List.mem_cons_self)
    obtain ⟨s₂, hfold, h₂⟩ := ih (s := s₁) fun v hv =>
      h₁.length ▸ hus v (List.mem_cons_of_mem u hv)
    refine ⟨s₂, by rw [List.foldlM_cons, hfind, ok_bind, hfold], h₂.length.trans h₁.length, ?_, ?_,
      h₂.left.trans h₁.left⟩
    · intro v
      rw [h₂.seen, h₁.seen, List.mem_singleton, List.mem_cons, or_assoc]
    · intro v
      rw [h₂.queue, h₁.queue, h₁.seen, List.mem_singleton, List.mem_cons]
      tauto

/-- A search is on its way: what is found can be reached, and the edges out of what does not wait
have been followed. -/
structure Searching (g : FlowGraph) (s : Search) : Prop where
  length : s.flags.length = g.blocks.length
  first : s.Seen 0
  sound : ∀ {b}, s.Seen b → ReflTransGen g.Linked 0 b
  waits : ∀ {b}, b ∈ s.queue → s.Seen b
  closed : ∀ {b u}, s.Seen b → b ∉ s.queue → g.Linked b u → s.Seen u

lemma Searching.next {flags : List Bool} {b : ℕ} {rest : List ℕ} {B : Block} {s' : Search}
    (h : Searching g ⟨flags, b :: rest⟩) (hB : g.blocks[b]? = some B)
    (hfound : Found (B.successors.map Prod.fst) ⟨flags, rest⟩ s') : Searching g s' := by
  have hout : ∀ {u}, u ∈ B.successors.map Prod.fst ↔ g.Linked b u := by
    intro u
    unfold FlowGraph.Linked
    rw [List.mem_map, hB]
    constructor
    · rintro ⟨⟨v, k⟩, hv, rfl⟩
      exact ⟨B, k, rfl, hv⟩
    · rintro ⟨B', k, hB', hu⟩
      cases hB'
      exact ⟨(u, k), hu, rfl⟩
  refine ⟨hfound.length.trans h.length, hfound.seen.2 (Or.inl h.first), ?_, ?_, ?_⟩
  · intro a ha
    rcases hfound.seen.1 ha with ha | ha
    · exact h.sound ha
    · exact (h.sound (h.waits List.mem_cons_self)).tail (hout.1 ha)
  · intro a ha
    rcases hfound.queue.1 ha with ha | ha
    · exact hfound.seen.2 (Or.inl (h.waits (List.mem_cons_of_mem b ha)))
    · exact hfound.seen.2 (Or.inr ha.1)
  · intro a u ha hwaits hlinked
    refine hfound.seen.2 ?_
    by_cases hold : Search.Seen ⟨flags, rest⟩ a
    · by_cases hab : a = b
      · exact Or.inr (hout.2 (hab ▸ hlinked))
      · refine Or.inl (h.closed hold ?_ hlinked)
        rw [List.mem_cons, not_or]
        exact ⟨hab, fun hrest => hwaits (hfound.queue.2 (Or.inl hrest))⟩
    · have hnew := (hfound.seen.1 ha).resolve_left hold
      exact absurd (hfound.queue.2 (Or.inr ⟨hnew, hold⟩)) hwaits

/-- A search ends before it runs out of blocks. -/
lemma search_ok (hlt : ∀ {b u}, g.Linked b u → u < g.blocks.length) (n : ℕ)
    (h : Searching g s) (hn : s.flags.count false + s.queue.length ≤ n) :
    ∃ flags, (search g.blocks n s : Indexed ε (List Bool)) = .ok flags ∧
      Searching g ⟨flags, []⟩ := by
  induction n generalizing s with
  | zero =>
    obtain ⟨flags, queue⟩ := s
    cases queue with
    | nil => exact ⟨flags, by simp [search], h⟩
    | cons b rest => simp at hn
  | succ n ih =>
    obtain ⟨flags, queue⟩ := s
    cases queue with
    | nil => exact ⟨flags, by simp [search], h⟩
    | cons b rest =>
      have hb : b < g.blocks.length := by
        rw [← h.length]
        exact (List.getElem?_eq_some_iff.1 (h.waits List.mem_cons_self)).1
      have hB := List.getElem?_eq_getElem hb
      have hus : ∀ u ∈ g.blocks[b].successors.map Prod.fst, u < flags.length := by
        intro u hu
        obtain ⟨e, he, rfl⟩ := List.mem_map.1 hu
        exact h.length ▸ hlt ⟨_, e.2, hB, he⟩
      obtain ⟨s', hfold, hfound⟩ := foldlM_find (ε := ε) (s := ⟨flags, rest⟩) hus
      have hleft := hfound.left
      rw [List.length_cons] at hn
      obtain ⟨flags', hsearch, h'⟩ := ih (h.next hB hfound) (by dsimp only at hleft hn; omega)
      refine ⟨flags', ?_, h'⟩
      unfold search
      dsimp only
      rw [fetch_eq hB, ok_bind, hfold, ok_bind, hsearch]

/-- The search finds what can be reached. -/
lemma Searching.seen_iff (h : Searching g s) (hqueue : s.queue = []) {b : ℕ} :
    s.Seen b ↔ ReflTransGen g.Linked 0 b := by
  refine ⟨h.sound, fun hreach => ?_⟩
  induction hreach with
  | refl => exact h.first
  | tail _ hlinked ih => exact h.closed ih (by simp [hqueue]) hlinked

end Search

/-- The search agrees with the graph. -/
lemma reachable_eq (hc : c.Sound) :
    (reachable (Flow.graphOf c).blocks : Indexed ε (List Bool)) =
      .ok (Flow.graphOf c).reachable := by
  have hpos : 0 < (Flow.graphOf c).blocks.length := by
    obtain ⟨T, hT, -⟩ := (Flow.laid_graphOf hc).first
    exact (List.getElem?_eq_some_iff.1 hT).1
  obtain ⟨n, hn⟩ := Nat.exists_eq_succ_of_ne_zero (Nat.ne_of_gt hpos)
  have hseen : ∀ {b}, Search.Seen
      ⟨(List.replicate (Flow.graphOf c).blocks.length false).set 0 true, [0]⟩ b ↔ b = 0 := by
    intro b
    rw [Search.Seen, hn, List.replicate_succ, List.set_cons_zero]
    cases b <;> simp [List.getElem?_replicate]
  have hstart : Searching (Flow.graphOf c)
      ⟨(List.replicate (Flow.graphOf c).blocks.length false).set 0 true, [0]⟩ := by
    refine ⟨by simp, hseen.2 rfl, ?_, ?_, ?_⟩
    · intro b hb
      rw [hseen.1 hb]
    · intro b hb
      exact hseen.2 (List.mem_singleton.1 hb)
    · intro b u hb hwaits
      exact absurd (List.mem_singleton.2 (hseen.1 hb)) hwaits
  obtain ⟨flags, hsearch, h⟩ := search_ok (ε := ε) (Flow.linked_lt hc)
    (Flow.graphOf c).blocks.length hstart (by
      rw [hn, List.replicate_succ, List.set_cons_zero]
      simp)
  have hlen : (Flow.graphOf c).reachable.length = (Flow.graphOf c).blocks.length := by
    simp [Flow.graphOf]
  have hflags : flags = (Flow.graphOf c).reachable := by
    refine List.ext_getElem (h.length.trans hlen.symm) fun b hb hb' => ?_
    have hiff : flags[b]? = some true ↔ (Flow.graphOf c).reachable[b]? = some true :=
      (h.seen_iff rfl).trans (Flow.reachable_iff hc).symm
    rw [List.getElem?_eq_getElem hb, List.getElem?_eq_getElem hb'] at hiff
    rw [Option.some.injEq, Option.some.injEq] at hiff
    exact Bool.eq_iff_iff.2 hiff
  unfold reachable
  rw [store_eq (by simpa using hpos), ok_bind, hsearch, hflags]

/-! ### Graphs -/

def build (c : Code) : Indexed CodeFault FlowGraph := do
  validate c
  let flags ← flag c
  let ⟨bounds, blockOf⟩ ← cut flags
  let covered ← coverAll c
  let blocks ← linkAll c blockOf covered bounds
  let reached ← reachable blocks
  .ok ⟨blocks, blockOf, covered, reached⟩

/-- **Building a graph looks up nothing that is not there.** -/
theorem build_eq (c : Code) : build c = lift (FlowGraph.build c) := by
  unfold build FlowGraph.build
  rw [validate_eq]
  cases hfault : Flow.firstFault c with
  | some fault => rfl
  | none =>
    have hc := Flow.sound_of_firstFault hfault
    dsimp only
    rw [ok_bind, flag_eq hc, ok_bind, cut_eq, ok_bind]
    dsimp only
    rw [coverAll_eq hc, ok_bind, ← blocksOf, linkAll_eq hc, ok_bind, reachable_eq hc, ok_bind]
    rfl

end Bytecheck.Indexed
