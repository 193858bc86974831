/-!
# Reachability

What can be reached from a start by following links. One search goes in rounds: each round takes all
links out of the nodes found in the round before and keeps those that are new. Another one looks for
a single node and keeps the nodes that it has yet to look at on a stack.
-/

namespace Bytecheck.Reach

variable {α : Type} [DecidableEq α]

/-- The nodes one link away from the frontier that have not been seen, each once. -/
def fresh (next : α → List α) (frontier seen : List α) : List α :=
  ((frontier.flatMap next).filter (· ∉ seen)).eraseDups

/-- The nodes seen after some more rounds. The search stops early when a round finds nothing new. -/
def rounds (next : α → List α) : Nat → List α → List α → List α
  | 0, _, seen => seen
  | n + 1, frontier, seen =>
    match fresh next frontier seen with
    | [] => seen
    | found => rounds next n found (seen ++ found)

/-- The nodes reachable from `start` in at most `n` links. -/
def closure (next : α → List α) (n : Nat) (start : α) : List α := rounds next n [start] [start]

/-! ## The search with a stack -/

/-- Put the nodes that have not been seen on the stack, the last one on top, and mark them as
seen. -/
def put (todo seen : List α) : List α → List α × List α
  | [] => (todo, seen)
  | b :: bs => if seen.contains b then put todo seen bs else put (b :: todo) (b :: seen) bs

def unseen (dom seen : List α) : List α := dom.filter fun b => !seen.contains b

theorem length_unseen_cons {dom seen : List α} {b : α} (hb : b ∈ dom)
    (hs : seen.contains b = false) :
    (unseen dom (b :: seen)).length < (unseen dom seen).length := by
  have hsplit : unseen dom (b :: seen) = (unseen dom seen).filter fun a => a ≠ b := by
    simp [unseen, List.filter_filter]
  rw [hsplit, List.length_filter_lt_length_iff_exists]
  exact ⟨b, List.mem_filter.2 ⟨hb, by rw [hs]; rfl⟩, by simp⟩

/-- A node that goes on the stack is one less that may do so. -/
theorem put_le {dom bs : List α} (hbs : ∀ b ∈ bs, b ∈ dom) (todo seen : List α) :
    2 * (unseen dom (put todo seen bs).2).length + (put todo seen bs).1.length ≤
      2 * (unseen dom seen).length + todo.length := by
  induction bs generalizing todo seen with
  | nil => exact Nat.le_refl _
  | cons b bs ih =>
    have ih := fun todo seen => ih (fun b hb => hbs b (List.mem_cons_of_mem _ hb)) todo seen
    unfold put
    split
    · exact ih todo seen
    · rename_i hs
      have hlt := length_unseen_cons (hbs b List.mem_cons_self) (Bool.eq_false_iff.2 hs)
      have hle := ih (b :: todo) (b :: seen)
      rw [List.length_cons] at hle
      omega

/-- Whether the goal is found among the nodes on the stack and what links lead to from there, leaving
alone what has been seen. All links lead to nodes of `dom`. -/
def explore (next : α → List α) (dom : List α) (hdom : ∀ a, ∀ b ∈ next a, b ∈ dom) (goal : α)
    (todo seen : List α) : Bool :=
  match todo with
  | [] => false
  | a :: todo =>
    if a = goal then true
    else explore next dom hdom goal (put todo seen (next a)).1 (put todo seen (next a)).2
termination_by 2 * (unseen dom seen).length + todo.length
decreasing_by
  have hle := put_le (hdom a) todo seen
  rw [List.length_cons]
  omega

end Bytecheck.Reach
