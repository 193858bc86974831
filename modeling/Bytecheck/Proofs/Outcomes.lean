import Mathlib.Tactic.Common
import Bytecheck.Log

/-!
Rules for computations that may fail.

`Raises` says what holds of the fault of a computation that fails.
`Yields` is a triple without a precondition: what holds of the value, and what of the fault.
`Follows` compares two computations: whenever the second one succeeds, the first one does so with a
related value, or it fails in one of the ways allowed.
-/

namespace Bytecheck

variable {ε ε' α β γ δ : Type}

lemma bind_ok_iff {x : Except ε α} {f : α → Except ε β} {b : β} :
    (x >>= f) = .ok b ↔ ∃ a, x = .ok a ∧ f a = .ok b := by
  cases x with
  | error e => simp [bind, Except.bind]
  | ok a => simp [bind, Except.bind]

lemma bind_error_iff {x : Except ε α} {f : α → Except ε β} {e : ε} :
    (x >>= f) = .error e ↔ x = .error e ∨ ∃ a, x = .ok a ∧ f a = .error e := by
  cases x with
  | error e' => simp [bind, Except.bind]
  | ok a => simp [bind, Except.bind]

lemma map_ok_iff {x : Except ε α} {f : α → β} {b : β} :
    x.map f = .ok b ↔ ∃ a, x = .ok a ∧ f a = b := by
  cases x <;> simp [Except.map]

lemma mapError_ok_iff {x : Except ε α} {f : ε → ε'} {a : α} : x.mapError f = .ok a ↔ x = .ok a := by
  cases x <;> simp [Except.mapError]

lemma mapError_error_iff {x : Except ε α} {f : ε → ε'} {e : ε'} :
    x.mapError f = .error e ↔ ∃ e₀, x = .error e₀ ∧ f e₀ = e := by
  cases x <;> simp [Except.mapError]

/-- A closed computation that is seen to succeed has a value. -/
lemma exists_ok_of_toBool {x : Except ε α} (h : x.toBool = true) : ∃ a, x = .ok a := by
  cases x with
  | error e => cases h
  | ok a => exact ⟨a, rfl⟩

/-- A text that passes a check becomes the value with that text. -/
lemma checked_ok_iff {p : String → Prop} [DecidablePred p] (make : ∀ s, p s → α)
    (text : α → String) {fault : ε} {s : String} {a : α}
    (htext : ∀ s h, text (make s h) = s) (hmake : ∀ a, ∃ h, make (text a) h = a) :
    (if h : p s then .ok (make s h) else .error fault : Except ε α) = .ok a ↔ s = text a := by
  constructor
  · intro h
    split at h
    · cases h
      exact (htext s _).symm
    · cases h
  · rintro rfl
    obtain ⟨hp, ha⟩ := hmake a
    rw [dif_pos hp, ha]

/-! ### Faults -/

/-- If the computation fails, its fault has the property. -/
def Raises (x : Except ε α) (E : ε → Prop) : Prop := ∀ e, x = .error e → E e

namespace Raises

variable {E : ε → Prop}

lemma ok (a : α) : Raises (.ok a) E := fun e he => by cases he

lemma error {e : ε} (he : E e) : Raises (.error e : Except ε α) E := fun e' he' => by
  cases he'
  exact he

lemma bind {x : Except ε α} {f : α → Except ε β} (hx : Raises x E) (hf : ∀ a, Raises (f a) E) :
    Raises (x >>= f) E := by
  intro e he
  rcases bind_error_iff.1 he with he | ⟨a, -, he⟩
  · exact hx e he
  · exact hf a e he

lemma map {x : Except ε α} (hx : Raises x E) (f : α → β) : Raises (x.map f) E := by
  intro e he
  cases x with
  | error e' =>
    cases he
    exact hx e rfl
  | ok a => cases he

lemma mapError {x : Except ε' α} {f : ε' → ε} (hx : Raises x fun e => E (f e)) :
    Raises (x.mapError f) E := by
  intro e he
  obtain ⟨e', he', rfl⟩ := mapError_error_iff.1 he
  exact hx e' he'

lemma ite {p : Prop} [Decidable p] {x y : Except ε α} (hx : Raises x E) (hy : Raises y E) :
    Raises (if p then x else y) E := by
  split
  · exact hx
  · exact hy

lemma foldlM {f : β → α → Except ε β} (hf : ∀ b a, Raises (f b a) E) (l : List α) (b : β) :
    Raises (l.foldlM f b) E := by
  induction l generalizing b with
  | nil => exact ok b
  | cons a l ih =>
    rw [List.foldlM_cons]
    exact (hf b a).bind ih

lemma mapM {f : α → Except ε β} {l : List α} (hf : ∀ a ∈ l, Raises (f a) E) :
    Raises (l.mapM f) E := by
  induction l with
  | nil => exact ok []
  | cons a l ih =>
    rw [List.mapM_cons]
    refine (hf a List.mem_cons_self).bind fun b => ?_
    exact (ih fun a' ha' => hf a' (List.mem_cons_of_mem a ha')).bind fun bs => ok _

end Raises

/-! ### One computation -/

namespace Traced

/-- The value has the first property, or the fault the second. -/
def Yields (x : Traced ε α) (P : α → Prop) (E : ε → Prop) : Prop :=
  (∀ a, x.outcome = .ok a → P a) ∧ ∀ e, x.outcome = .error e → E e

variable {P : α → Prop} {Q : β → Prop} {E : ε → Prop}

lemma yields_pure {a : α} (h : P a) : Yields (Pure.pure a : Traced ε α) P E :=
  ⟨fun b hb => by cases hb; exact h, fun e he => by cases he⟩

lemma yields_fail {e : ε} (h : E e) : Yields (fail e : Traced ε α) P E :=
  ⟨fun b hb => (by cases hb), fun e' he => by cases he; exact h⟩

lemma yields_note (entries : List Log.Entry) :
    Yields (note entries : Traced ε Unit) (fun _ => True) E :=
  ⟨fun _ _ => trivial, fun e he => by cases he⟩

lemma yields_lift {x : Except ε α} (h1 : ∀ a, x = .ok a → P a) (h2 : ∀ e, x = .error e → E e) :
    Yields (lift x) P E := ⟨h1, h2⟩

lemma yields_lift_mapError {x : Except ε' α} {f : ε' → ε} (h1 : ∀ a, x = .ok a → P a)
    (h2 : ∀ k, x = .error k → E (f k)) : Yields (lift (x.mapError f)) P E := by
  cases x with
  | ok a => exact yields_lift (fun b hb => by cases hb; exact h1 a rfl) fun e he => by cases he
  | error k => exact yields_lift (fun b hb => by cases hb) fun e he => by cases he; exact h2 k rfl

lemma Yields.bind {x : Traced ε α} {f : α → Traced ε β} (hx : Yields x P E)
    (hf : ∀ a, P a → Yields (f a) Q E) : Yields (x >>= f) Q E := by
  constructor
  · intro b hb
    rw [outcome_bind, bind_ok_iff] at hb
    obtain ⟨a, ha, hb⟩ := hb
    exact (hf a (hx.1 a ha)).1 b hb
  · intro e he
    rw [outcome_bind] at he
    cases ha : x.outcome with
    | error e' =>
      rw [ha] at he
      cases he
      exact hx.2 e ha
    | ok a =>
      rw [ha] at he
      exact (hf a (hx.1 a ha)).2 e he

lemma Yields.with_outcome {x : Traced ε α} (hx : Yields x P E) :
    Yields x (fun a => P a ∧ x.outcome = .ok a) E := ⟨fun a ha => ⟨hx.1 a ha, ha⟩, hx.2⟩

lemma Yields.imp {x : Traced ε α} {P' : α → Prop} {E' : ε → Prop} (hx : Yields x P E)
    (hP : ∀ a, P a → P' a) (hE : ∀ e, E e → E' e) : Yields x P' E' :=
  ⟨fun a ha => hP a (hx.1 a ha), fun e he => hE e (hx.2 e he)⟩

end Traced

/-! ### Two computations -/

/-- Whenever the second computation succeeds, the first does with a related value, or it fails in
an allowed way. -/
def Follows (R : α → β → Prop) (E : ε → Prop) (x : Except ε α) (y : Except ε β) : Prop :=
  ∀ b, y = .ok b → (∃ a, x = .ok a ∧ R a b) ∨ ∃ e, x = .error e ∧ E e

namespace Follows

variable {R : α → β → Prop} {S : γ → δ → Prop} {E : ε → Prop}

lemma ok {a : α} {b : β} (h : R a b) : Follows R E (.ok a) (.ok b) :=
  fun b' hb => by cases hb; exact Or.inl ⟨a, rfl, h⟩

/-- Nothing is asked when the second computation fails. -/
lemma of_error (x : Except ε α) (e : ε) : Follows R E x (.error e) := fun b hb => by cases hb

lemma error {e : ε} (h : E e) (y : Except ε β) : Follows R E (.error e) y :=
  fun _ _ => Or.inr ⟨e, rfl, h⟩

lemma bind {x : Except ε α} {y : Except ε β} {f : α → Except ε γ} {g : β → Except ε δ}
    (hx : Follows R E x y) (hf : ∀ a b, R a b → Follows S E (f a) (g b)) :
    Follows S E (x >>= f) (y >>= g) := by
  intro d hd
  obtain ⟨b, hb, hd⟩ := bind_ok_iff.1 hd
  rcases hx b hb with ⟨a, rfl, hab⟩ | ⟨e, rfl, he⟩
  · exact hf a b hab d hd
  · exact Or.inr ⟨e, rfl, he⟩

lemma map {x : Except ε α} {y : Except ε β} {f : α → γ} {g : β → δ} (hx : Follows R E x y)
    (hf : ∀ a b, R a b → S (f a) (g b)) : Follows S E (x.map f) (y.map g) := by
  intro d hd
  cases y with
  | error e => cases hd
  | ok b =>
    cases hd
    rcases hx b rfl with ⟨a, rfl, hab⟩ | ⟨e, rfl, he⟩
    · exact Or.inl ⟨f a, rfl, hf a b hab⟩
    · exact Or.inr ⟨e, rfl, he⟩

lemma mapError {E' : ε' → Prop} {x : Except ε α} {y : Except ε β} {f : ε → ε'}
    (hx : Follows R E x y) (hE : ∀ e, E e → E' (f e)) :
    Follows R E' (x.mapError f) (y.mapError f) := by
  intro b hb
  cases y with
  | error e => cases hb
  | ok b' =>
    cases hb
    rcases hx b rfl with ⟨a, rfl, hab⟩ | ⟨e, rfl, he⟩
    · exact Or.inl ⟨a, rfl, hab⟩
    · exact Or.inr ⟨f e, rfl, hE e he⟩

/-- Both computations make the same test. -/
lemma ite {p q : Prop} [Decidable p] [Decidable q] {x x' : Except ε α} {y y' : Except ε β}
    (hpq : p ↔ q) (h1 : q → Follows R E x y) (h2 : ¬ q → Follows R E x' y') :
    Follows R E (if p then x else x') (if q then y else y') := by
  by_cases hq : q
  · rw [if_pos (hpq.2 hq), if_pos hq]
    exact h1 hq
  · rw [if_neg fun h => hq (hpq.1 h), if_neg hq]
    exact h2 hq

/-- The second computation makes a test that the first one passes, or fails in an allowed way. -/
lemma guard {p q : Prop} [Decidable p] [Decidable q] {x : Except ε α} {y : Except ε β} {e e' : ε}
    (hpq : q → p ∨ E e) (h : Follows R E x y) :
    Follows R E (if p then x else .error e) (if q then y else .error e') := by
  by_cases hq : q
  · rw [if_pos hq]
    by_cases hp : p
    · rw [if_pos hp]
      exact h
    · rw [if_neg hp]
      exact error ((hpq hq).resolve_left hp) y
  · rw [if_neg hq]
    exact of_error _ _

/-- A fold over the same list keeps a relation. -/
lemma foldlM {f : α → γ → Except ε α} {g : β → γ → Except ε β} (l : List γ)
    (h : ∀ a b c, c ∈ l → R a b → Follows R E (f a c) (g b c)) {a : α} {b : β} (hab : R a b) :
    Follows R E (l.foldlM f a) (l.foldlM g b) := by
  induction l generalizing a b with
  | nil => exact ok hab
  | cons c l ih =>
    rw [List.foldlM_cons, List.foldlM_cons]
    exact (h a b c List.mem_cons_self hab).bind fun a' b' hab' =>
      ih (fun a b c hc => h a b c (List.mem_cons_of_mem _ hc)) hab'

/-- What is known when both computations succeed. -/
lemma related {x : Except ε α} {y : Except ε β} (h : Follows R E x y) {a : α} {b : β}
    (hx : x = .ok a) (hy : y = .ok b) : R a b := by
  rcases h b hy with ⟨a', ha, hab⟩ | ⟨e, he, -⟩
  · rw [hx] at ha
    cases ha
    exact hab
  · rw [hx] at he
    cases he

end Follows

end Bytecheck
