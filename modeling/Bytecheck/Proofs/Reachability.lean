import Mathlib.Logic.Relation
import Mathlib.Tactic.Common
import Bytecheck.Reach

/-!
Searches find what can be reached.

Nodes with links out of them are few: they stand in a list `dom`. A round that finds something
new leaves a node of `dom` behind for good, so after as many rounds as `dom` is long nothing new
is left, and the nodes seen are closed under links.

A search with a stack takes one node at a time. What it has seen is still on the stack, or is not the
goal and leads to nothing that has not been seen. So if the stack runs empty, the nodes seen are
closed under links and the goal is not one of them.
-/

namespace Bytecheck.Reach

variable {α : Type} [DecidableEq α] {next : α → List α}

/-- One node links to another. -/
def Links (next : α → List α) (a b : α) : Prop := b ∈ next a

/-- Everything linked from a node of the list is in the list. -/
def Closed (next : α → List α) (seen : List α) : Prop := ∀ a ∈ seen, ∀ b ∈ next a, b ∈ seen

lemma mem_fresh {frontier seen : List α} {b : α} :
    b ∈ fresh next frontier seen ↔ (∃ a ∈ frontier, b ∈ next a) ∧ b ∉ seen := by
  simp [fresh, List.mem_eraseDups, and_comm]

lemma subset_rounds (n : ℕ) (frontier seen : List α) : seen ⊆ rounds next n frontier seen := by
  induction n generalizing frontier seen with
  | zero => exact fun _ h => h
  | succ n ih =>
    unfold rounds
    split
    · exact fun _ h => h
    · exact fun a h => ih _ _ (List.mem_append_left _ h)

/-- A search finds only nodes that can be reached from those it starts with. -/
lemma reachable_of_mem_rounds {P : α → Prop} (hP : ∀ a b, P a → b ∈ next a → P b) (n : ℕ)
    {frontier seen : List α} (hs : ∀ a ∈ seen, P a) (hf : ∀ a ∈ frontier, P a) :
    ∀ a ∈ rounds next n frontier seen, P a := by
  induction n generalizing frontier seen with
  | zero => exact hs
  | succ n ih =>
    unfold rounds
    split
    · exact hs
    · have hnew : ∀ b ∈ fresh next frontier seen, P b := by
        intro b hb
        obtain ⟨⟨a, ha, hab⟩, -⟩ := mem_fresh.1 hb
        exact hP a b (hf a ha) hab
      refine ih (fun a h => ?_) hnew
      rcases List.mem_append.1 h with h | h
      · exact hs a h
      · exact hnew a h

/-- The nodes of the list that a search has not left behind: they are not seen yet, or in the
frontier. -/
def waiting (dom frontier seen : List α) : ℕ := dom.countP fun a => a ∉ seen ∨ a ∈ frontier

omit [DecidableEq α] in
lemma countP_lt {p q : α → Bool} {l : List α} (hpq : ∀ a ∈ l, p a = true → q a = true) {a : α}
    (ha : a ∈ l) (hp : p a = false) (hq : q a = true) : l.countP p < l.countP q := by
  induction l with
  | nil => simp at ha
  | cons b l ih =>
    have hle : l.countP p ≤ l.countP q :=
      List.countP_mono_left fun c hc => hpq c (List.mem_cons_of_mem b hc)
    have hb := hpq b List.mem_cons_self
    rw [List.countP_cons, List.countP_cons]
    rcases List.mem_cons.1 ha with rfl | ha
    · simp [hp, hq]
      omega
    · have := ih (fun c hc => hpq c (List.mem_cons_of_mem b hc)) ha
      split_ifs with h1 h2 h2
      · omega
      · exact absurd (hb h1) h2
      · omega
      · omega

lemma waiting_lt {dom frontier seen : List α} (hdom : ∀ a b, b ∈ next a → a ∈ dom)
    (hsub : frontier ⊆ seen) (hnew : fresh next frontier seen ≠ []) :
    waiting dom (fresh next frontier seen) (seen ++ fresh next frontier seen) <
      waiting dom frontier seen := by
  obtain ⟨b, hb⟩ := List.exists_mem_of_ne_nil _ hnew
  obtain ⟨⟨a, ha, hab⟩, -⟩ := mem_fresh.1 hb
  unfold waiting
  refine countP_lt (fun c _ hc => ?_) (hdom a b hab) ?_ (by simp [ha])
  · have hfresh : ∀ d ∈ fresh next frontier seen, d ∉ seen := fun d hd => (mem_fresh.1 hd).2
    simp only [List.mem_append, decide_eq_true_eq] at hc ⊢
    rcases hc with hc | hc
    · exact Or.inl fun h => hc (Or.inl h)
    · exact Or.inl (hfresh c hc)
  · have hseen := hsub ha
    have hold : a ∉ fresh next frontier seen := fun h => (mem_fresh.1 h).2 hseen
    simp [hseen, hold]

/-- When no node of the list waits, the frontier has no links. -/
lemma fresh_eq_nil {dom frontier seen : List α} (hdom : ∀ a b, b ∈ next a → a ∈ dom)
    (h0 : waiting dom frontier seen = 0) : fresh next frontier seen = [] := by
  by_contra hnew
  obtain ⟨b, hb⟩ := List.exists_mem_of_ne_nil _ hnew
  obtain ⟨⟨a, ha, hab⟩, -⟩ := mem_fresh.1 hb
  have hwait := List.countP_eq_zero.1 h0 a (hdom a b hab)
  simp [ha] at hwait

lemma closed_of_fresh {frontier seen : List α} (hnil : fresh next frontier seen = [])
    (hold : ∀ a ∈ seen, a ∉ frontier → ∀ b ∈ next a, b ∈ seen) : Closed next seen := by
  intro a ha b hb
  by_cases hf : a ∈ frontier
  · by_contra hb'
    have hmem : b ∈ fresh next frontier seen := mem_fresh.2 ⟨⟨a, hf, hb⟩, hb'⟩
    simp [hnil] at hmem
  · exact hold a ha hf b hb

/-- **Saturation**: when the rounds are not fewer than the nodes that wait, what is seen in the end
is closed under links. -/
lemma closed_rounds {dom : List α} (hdom : ∀ a b, b ∈ next a → a ∈ dom) (n : ℕ)
    {frontier seen : List α} (hsub : frontier ⊆ seen)
    (hold : ∀ a ∈ seen, a ∉ frontier → ∀ b ∈ next a, b ∈ seen)
    (hn : waiting dom frontier seen ≤ n) : Closed next (rounds next n frontier seen) := by
  induction n generalizing frontier seen with
  | zero => exact closed_of_fresh (fresh_eq_nil hdom (Nat.le_zero.1 hn)) hold
  | succ n ih =>
    unfold rounds
    split
    · rename_i hnil
      exact closed_of_fresh hnil hold
    · rename_i hne
      have hlt := waiting_lt hdom hsub hne
      refine ih (fun a h => List.mem_append_right _ h) (fun a ha hf b hb => ?_) (by omega)
      have ha' : a ∈ seen := by
        rcases List.mem_append.1 ha with h | h
        · exact h
        · exact absurd h hf
      by_cases hfr : a ∈ frontier
      · by_cases hb' : b ∈ seen
        · exact List.mem_append_left _ hb'
        · exact List.mem_append_right _ (mem_fresh.2 ⟨⟨a, hfr, hb⟩, hb'⟩)
      · exact List.mem_append_left _ (hold a ha' hfr b hb)

/-- The search has ended by then: rounds beyond the nodes that wait are not made. -/
lemma rounds_add {dom : List α} (hdom : ∀ a b, b ∈ next a → a ∈ dom) (n m : ℕ)
    {frontier seen : List α} (hsub : frontier ⊆ seen) (hn : waiting dom frontier seen ≤ n) :
    rounds next (n + m) frontier seen = rounds next n frontier seen := by
  induction n generalizing frontier seen with
  | zero =>
    have hnil := fresh_eq_nil hdom (Nat.le_zero.1 hn)
    cases m with
    | zero => rfl
    | succ m => simp [rounds, hnil]
  | succ n ih =>
    rw [Nat.add_right_comm, rounds, rounds]
    split
    · rfl
    · rename_i hne
      have hlt := waiting_lt hdom hsub hne
      exact ih (fun a h => List.mem_append_right _ h) (by omega)

/-- The rounds of a search until one finds nothing new, with no bound on their number. -/
inductive Searches (next : α → List α) : List α → List α → List α → Prop
  | done {frontier seen : List α} :
      fresh next frontier seen = [] → Searches next frontier seen seen
  | round {frontier seen found : List α} :
      fresh next frontier seen ≠ [] →
      Searches next (fresh next frontier seen) (seen ++ fresh next frontier seen) found →
      Searches next frontier seen found

/-- **Every search ends**: the bound on its rounds is not what stops it. -/
lemma searches_rounds {dom : List α} (hdom : ∀ a b, b ∈ next a → a ∈ dom) (n : ℕ)
    {frontier seen : List α} (hsub : frontier ⊆ seen) (hn : waiting dom frontier seen ≤ n) :
    Searches next frontier seen (rounds next n frontier seen) := by
  induction n generalizing frontier seen with
  | zero => exact .done (fresh_eq_nil hdom (Nat.le_zero.1 hn))
  | succ n ih =>
    unfold rounds
    split
    · rename_i hnil
      exact .done hnil
    · rename_i hne
      have hlt := waiting_lt hdom hsub hne
      exact .round hne (ih (fun a h => List.mem_append_right _ h) (by omega))

lemma searches_closure {dom : List α} (hdom : ∀ a b, b ∈ next a → a ∈ dom) {n : ℕ}
    (hn : dom.length ≤ n) (start : α) : Searches next [start] [start] (closure next n start) :=
  searches_rounds hdom n (fun _ h => h) (Nat.le_trans List.countP_le_length hn)

lemma closure_add {dom : List α} (hdom : ∀ a b, b ∈ next a → a ∈ dom) {n : ℕ}
    (hn : dom.length ≤ n) (m : ℕ) (start : α) :
    closure next (n + m) start = closure next n start :=
  rounds_add hdom n m (fun _ h => h) (Nat.le_trans List.countP_le_length hn)

/-- **The search by rounds is exact**: with enough of them it finds the nodes that can be reached
from its start and no others. -/
theorem mem_closure_iff {dom : List α} (hdom : ∀ a b, b ∈ next a → a ∈ dom) {n : ℕ}
    (hn : dom.length ≤ n) {start a : α} :
    a ∈ closure next n start ↔ Relation.ReflTransGen (Links next) start a := by
  constructor
  · intro h
    refine reachable_of_mem_rounds (fun b c hb hc => hb.tail hc) n ?_ ?_ a h <;>
      · intro b hb
        rw [List.mem_singleton.1 hb]
  · intro h
    have hclosed : Closed next (closure next n start) := by
      refine closed_rounds hdom n (fun _ h => h) (fun b hb hf => absurd hb hf) ?_
      exact Nat.le_trans List.countP_le_length hn
    induction h with
    | refl => exact subset_rounds n _ _ (List.mem_singleton.2 rfl)
    | tail _ hbc ih => exact hclosed _ ih _ hbc

/-! ### The search with a stack -/

section Stack

variable {dom todo seen bs : List α} {goal a : α} {found : Bool}

/-- The turns of a search with a stack until the goal is on top of it or nothing is left, with no
bound on their number. -/
inductive Explores (next : α → List α) (goal : α) : List α → List α → Bool → Prop
  | nothing {seen : List α} : Explores next goal [] seen false
  | goal {todo seen : List α} : Explores next goal (goal :: todo) seen true
  | turn {a : α} {todo seen : List α} {found : Bool} : a ≠ goal →
      Explores next goal (put todo seen (next a)).1 (put todo seen (next a)).2 found →
      Explores next goal (a :: todo) seen found

/-- **Every search with a stack ends.** -/
lemma explores_explore (hdom : ∀ a, ∀ b ∈ next a, b ∈ dom) (goal : α) (todo seen : List α) :
    Explores next goal todo seen (explore next dom hdom goal todo seen) := by
  fun_induction explore next dom hdom goal todo seen with
  | case1 seen => exact .nothing
  | case2 seen todo => exact .goal
  | case3 seen a todo hne ih => exact .turn hne ih

lemma mem_put_todo : a ∈ (put todo seen bs).1 ↔ a ∈ todo ∨ a ∈ bs ∧ a ∉ seen := by
  induction bs generalizing todo seen with
  | nil => simp [put]
  | cons b bs ih =>
    unfold put
    split
    · rename_i hb
      have hb : b ∈ seen := List.contains_iff_mem.1 hb
      rw [ih, List.mem_cons]
      grind
    · rename_i hb
      rw [ih, List.mem_cons, List.mem_cons, List.mem_cons]
      grind

lemma mem_put_seen : a ∈ (put todo seen bs).2 ↔ a ∈ seen ∨ a ∈ bs := by
  induction bs generalizing todo seen with
  | nil => simp [put]
  | cons b bs ih =>
    unfold put
    split
    · rename_i hb
      have hb : b ∈ seen := List.contains_iff_mem.1 hb
      rw [ih, List.mem_cons]
      grind
    · rw [ih, List.mem_cons, List.mem_cons]
      grind

/-- What is found can be reached from the stack. -/
lemma Explores.reached {P : α → Prop} (hP : ∀ a b, P a → b ∈ next a → P b)
    (h : Explores next goal todo seen found) (hfound : found = true) (htodo : ∀ a ∈ todo, P a) :
    P goal := by
  induction h with
  | nothing => cases hfound
  | goal => exact htodo _ List.mem_cons_self
  | @turn a todo seen found _ _ ih =>
    refine ih hfound fun b hb => ?_
    rcases mem_put_todo.1 hb with hb | ⟨hb, -⟩
    · exact htodo b (List.mem_cons_of_mem _ hb)
    · exact hP a b (htodo a List.mem_cons_self) hb

/-- What is not found is outside of some nodes that are closed under links. -/
lemma Explores.missed (h : Explores next goal todo seen found) (hfound : found = false)
    (hseen : ∀ a ∈ seen, a ∈ todo ∨ a ≠ goal ∧ ∀ b ∈ next a, b ∈ seen) :
    ∃ all, seen ⊆ all ∧ goal ∉ all ∧ Closed next all := by
  induction h with
  | @nothing seen =>
    have hdone : ∀ a ∈ seen, a ≠ goal ∧ ∀ b ∈ next a, b ∈ seen :=
      fun a ha => (hseen a ha).resolve_left List.not_mem_nil
    exact ⟨seen, fun _ h => h, fun h => (hdone goal h).1 rfl, fun a ha => (hdone a ha).2⟩
  | goal => cases hfound
  | @turn a todo seen found hne _ ih =>
    obtain ⟨all, hsub, hgoal, hclosed⟩ := ih hfound (by
      intro b hb
      by_cases hold : b ∈ seen
      · rcases hseen b hold with hb | ⟨hb, hnext⟩
        · rcases List.mem_cons.1 hb with rfl | hb
          · exact Or.inr ⟨hne, fun c hc => mem_put_seen.2 (Or.inr hc)⟩
          · exact Or.inl (mem_put_todo.2 (Or.inl hb))
        · exact Or.inr ⟨hb, fun c hc => mem_put_seen.2 (Or.inl (hnext c hc))⟩
      · have hb := (mem_put_seen.1 hb).resolve_left hold
        exact Or.inl (mem_put_todo.2 (Or.inr ⟨hb, hold⟩)))
    exact ⟨all, fun b hb => hsub (mem_put_seen.2 (Or.inl hb)), hgoal, hclosed⟩

/-- **The search with a stack is exact**: it finds its goal if and only if this can be reached from
its start. -/
theorem explore_iff (hdom : ∀ a, ∀ b ∈ next a, b ∈ dom) {start : α} :
    explore next dom hdom goal [start] [start] = true ↔
      Relation.ReflTransGen (Links next) start goal := by
  have hends := explores_explore hdom goal [start] [start]
  constructor
  · intro h
    refine hends.reached (fun a b ha hb => ha.tail hb) h fun a ha => ?_
    rw [List.mem_singleton.1 ha]
  · intro h
    by_contra hfound
    obtain ⟨all, hsub, hgoal, hclosed⟩ :=
      hends.missed (Bool.eq_false_iff.2 hfound) fun a ha => Or.inl ha
    have hall : ∀ b, Relation.ReflTransGen (Links next) start b → b ∈ all := by
      intro b hb
      induction hb with
      | refl => exact hsub (List.mem_singleton.2 rfl)
      | tail _ hbc ih => exact hclosed _ ih _ hbc
    exact hgoal (hall goal h)

end Stack

end Bytecheck.Reach
