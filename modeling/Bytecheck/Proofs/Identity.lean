import Mathlib.Logic.Function.Basic
import Mathlib.Tactic.Common
import Bytecheck.Proofs.Origins
import Bytecheck.Proofs.Paths

/-!
The identity of uninitialized objects.

Recorded frames name an uninitialized object by the `new` that made it, although a `new` in a loop
makes one object after the other. An execution that names each object by the step that made it tells
all of them apart. The two agree: wherever a path leads, one object bears the name, the one that was
made last, because a `new` is never interpreted while its name is in use.
-/

namespace Bytecheck

/-- A value of an execution that names objects by steps, and a recorded value. The object that bears
the name of an instruction was made at the step that `made` gives, by that instruction. -/
inductive Tagged (t : ClassTable) (past : List ℕ) (made : ℕ → ℕ) : VType → VType → Prop
  | plain {x y : VType} : Lower t x y → (∀ r o, y ≠ .uninit r o) → Tagged t past made x y
  | object (r : RefType) {o : ℕ} : past[made o]? = some o →
      Tagged t past made (.uninit r (made o)) (.uninit r o)

section Tagged

variable {t : ClassTable} {past : List ℕ} {made : ℕ → ℕ} {x y z : VType} {r : RefType} {o : ℕ}

lemma tagged_uninit (h : Tagged t past made x (.uninit r o)) :
    x = .uninit r (made o) ∧ past[made o]? = some o := by
  cases h with
  | plain _ hne => exact absurd rfl (hne r o)
  | object _ ho => exact ⟨rfl, ho⟩

lemma Tagged.lower (h : Tagged t past made x y) (hy : ∀ r o, y ≠ .uninit r o) : Lower t x y := by
  cases h with
  | plain h _ => exact h
  | object r _ => exact absurd rfl (hy r _)

lemma tagged_alike : Alike (Tagged t past made) where
  values := by
    intro x y h
    cases h with
    | plain h _ => exact h.2
    | object => exact ⟨⟨by simp, by simp⟩, by simp, by simp⟩
  fixed := by
    intro x hx
    refine .plain ((lower_alike t).fixed hx) ?_
    rintro r o rfl
    cases hx
  num := fun {x n} h => (lower_alike t).num (h.lower (by cases n <;> simp [Num.vtype]))
  null := fun h => (lower_alike t).null (h.lower (by simp))
  object := fun h => (lower_alike t).object (h.lower (by simp))
  this := fun h => (lower_alike t).this (h.lower (by simp))
  new := fun h => ⟨_, (tagged_uninit h).1⟩

/-- Different names stand for different objects. -/
lemma tagged_copies {a b : VType} (hab : Tagged t past made a b) (hxy : Tagged t past made x y)
    (hy : VType.isInitialized y = false) : a = x ↔ b = y := by
  cases hab with
  | plain hab hb =>
    cases hxy with
    | plain hxy _ => exact lower_copies hab hxy hy
    | object r _ => exact iff_of_false (fun h => hb _ _ ((lower_uninit_iff hab).1 h)) (hb _ _)
  | object q hq =>
    cases hxy with
    | plain hxy hy' =>
      exact iff_of_false (fun h => hy' _ _ ((lower_uninit_iff hxy).1 h.symm))
        fun h => hy' _ _ h.symm
    | object r hr =>
      constructor
      · intro h
        injection h with h1 h2
        -- the step tells which instruction made the object
        rw [h2, hr] at hq
        cases hq
        rw [h1]
      · intro h
        cases h
        rfl

lemma tagged_simulation (t : ClassTable) (past : List ℕ) (made : ℕ → ℕ) (m : Method)
    (maxStack : ℕ) :
    Simulation ⟨t.hierarchy, m, maxStack⟩ (Tagged t past made) fun _ _ => True where
  toAlike := tagged_alike
  copies := tagged_copies
  base := fun h hs => lower_base (h.lower (by simp)) hs
  element := by
    intro r s e h hs
    obtain ⟨d, hd, hde⟩ := lower_element (h.lower (by simp)) hs
    exact ⟨d, hd, .plain hde (by simp)⟩
  nullElement := fun _ _ => .plain (lower_null _) (by simp)
  assign := fun _ _ => Or.inr fun _ => trivial
  store := fun _ _ _ => Or.inr trivial
  thrown := fun _ _ => Or.inr trivial
  stale := fun _ _ => trivial
  leave := fun _ => trivial

lemma Tagged.up (hr : t.Rooted) (hxy : Tagged t past made x y) (hyz : Lower t y z) :
    Tagged t past made x z := by
  cases hxy with
  | plain hxy hne =>
    exact .plain (hr.upper.trans hxy hyz) fun r o h => hne r o ((lower_uninit_iff hyz).2 h)
  | object r ho =>
    rw [(lower_uninit_iff hyz).1 rfl]
    exact .object r ho

/-- A name that is not in use can be given to the object of the next step. -/
lemma Tagged.renew {i : ℕ} (hxy : Tagged t past made x y) (hi : ∀ r, y ≠ .uninit r i) :
    Tagged t (past ++ [i]) (Function.update made i past.length) x y := by
  cases hxy with
  | plain h hne => exact .plain h hne
  | @object r o ho =>
    have hne : o ≠ i := by
      rintro rfl
      exact hi r rfl
    have hmade : Function.update made i past.length o = made o := Function.update_of_ne hne _ _
    rw [← hmade] at ho ⊢
    refine .object r ?_
    rw [List.getElem?_append_left (List.getElem?_eq_some_iff.1 ho).1, ho]

lemma Tagged.skip (i : ℕ) (hxy : Tagged t past made x y) : Tagged t (past ++ [i]) made x y := by
  cases hxy with
  | plain h hne => exact .plain h hne
  | object r ho =>
    refine .object r ?_
    rw [List.getElem?_append_left (List.getElem?_eq_some_iff.1 ho).1, ho]

end Tagged

/-! ### One object for each name -/

/-- In the first frame, the object made at a step is all that bears the name of an instruction in
the second one, and no other name is given to the object: only locals may have lost it. -/
structure OneObject (f k : Frame) (o j : ℕ) : Prop where
  locals : ∀ {slot : ℕ} {r}, k.locals[slot]? = some (.uninit r o) →
    f.locals[slot]? = some (.uninit r j)
  stack : ∀ {place : ℕ} {r}, k.stack.toList[place]? = some (.uninit r o) ↔
    f.stack.toList[place]? = some (.uninit r j)
  lost : ∀ {slot : ℕ} {r}, f.locals[slot]? = some (.uninit r j) →
    k.locals[slot]? = some (.uninit r o) ∨ k.locals[slot]? = some .top

section OneObject

variable {t : ClassTable} {past : List ℕ} {made : ℕ → ℕ} {n o : ℕ} {f k : Frame} {r : RefType}

lemma Frame.Rel.oneObject (h : Frame.Rel (Tagged t past made) n f k)
    (ho : past[made o]? = some o) : OneObject f k o (made o) := by
  have hname : ∀ {y r}, Tagged t past made (.uninit r (made o)) y → y = .uninit r o := fun hy =>
    (tagged_copies hy (.object _ ho) rfl).1 rfl
  refine ⟨?_, ⟨?_, ?_⟩, ?_⟩
  · intro slot r hslot
    obtain ⟨x, hx, ⟨-, htop⟩ | hxy⟩ := h.exists_left hslot
    · cases htop
    · rw [hx, (tagged_uninit hxy).1]
  · intro hplace
    obtain ⟨x, hx, hxy⟩ := h.stack.exists_left hplace
    rw [hx, (tagged_uninit hxy).1]
  · intro hplace
    obtain ⟨y, hy, hxy⟩ := h.stack.exists_right hplace
    rw [hy, hname hxy]
  · intro slot r hslot
    obtain ⟨y, hy, ⟨-, rfl⟩ | hxy⟩ := h.exists_right hslot
    · exact Or.inr hy
    · exact Or.inl (hname hxy ▸ hy)

lemma Frame.Rel.made_of_has (h : Frame.Rel (Tagged t past made) n f k)
    (hk : k.Has (.uninit r o)) : past[made o]? = some o := by
  rcases hk with hk | hk
  · obtain ⟨place, hplace⟩ := List.mem_iff_getElem?.1 hk
    obtain ⟨x, -, hxy⟩ := h.stack.exists_left hplace
    exact (tagged_uninit hxy).2
  · obtain ⟨slot, hslot⟩ := List.mem_iff_getElem?.1 hk
    obtain ⟨x, -, ⟨-, htop⟩ | hxy⟩ := h.exists_left hslot
    · cases htop
    · exact (tagged_uninit hxy).2

lemma OneObject.unique {j j' : ℕ} (hj : OneObject f k o j) (hj' : OneObject f k o j')
    (hk : k.Has (.uninit r o)) : j = j' := by
  rcases hk with hk | hk
  · obtain ⟨place, hplace⟩ := List.mem_iff_getElem?.1 hk
    have h := hj.stack.1 hplace
    rw [hj'.stack.1 hplace] at h
    cases h
    rfl
  · obtain ⟨slot, hslot⟩ := List.mem_iff_getElem?.1 hk
    have h := hj.locals hslot
    rw [hj'.locals hslot] at h
    cases h
    rfl

end OneObject

namespace Analysis

open Transfer

section Paths

variable {t : ClassTable} {m : Method} {code : Code} {v : Verified} {g : FlowGraph}
  {entry f : Frame} {n i : ℕ} {s : State} {past : List ℕ}

/-- **Names are kept along a path.** A step gives the name of its instruction to the object it
makes, if it makes one: the name is free there. -/
lemma kept_tagged (hr : t.Rooted) (hends : EndsWith t.hierarchy m code v g entry n s) :
    Kept t m code (fun step _ => step) v entry fun past f k =>
      ∃ made, Frame.Rel (Tagged t past made) code.maxLocals f k where
  start := by
    have hdiag := (good_entry hends.entered).rel_diag
      (V := fun x => x.IsValue ∧ ∀ r o, x ≠ .uninit r o)
      fun x hx hval => ⟨hval, fun r o h => entry_uninit hends.entered (h ▸ hx)⟩
    refine ⟨id, hdiag.imp ?_⟩
    rintro x _ ⟨rfl, hval, hne⟩
    exact .plain ⟨.refl x, hval, hval⟩ hne
  up := by
    rintro past f k k' ⟨made, h⟩ hup
    exact ⟨made, h.trans (S := Lower t) (fun _ _ _ => Tagged.up hr)
      (fun _ _ h => (tagged_alike.values h).1.2) (fun _ _ h => h.2.1.1) hup⟩
  step := by
    rintro past i insn f k f' k' ⟨made, h⟩ hk hf hk'
    have hfree := (h.good_right tagged_alike).rel_diag
      (V := fun y => y.IsValue ∧ ∀ r, y ≠ .uninit r i)
      fun y hy hval => ⟨hval, fun r h => hends.fresh hk (h ▸ hy)⟩
    have hrenew : Frame.Rel (Tagged t (past ++ [i]) (Function.update made i past.length))
        code.maxLocals f k := by
      refine h.trans ?_ (fun _ _ h => (tagged_alike.values h).1.2) (fun _ _ h => h.2.1.1) hfree
      rintro x y _ hxy ⟨rfl, -, hi⟩
      exact hxy.renew hi
    have hnew : ∀ r, Tagged t (past ++ [i]) (Function.update made i past.length)
        (.uninit r past.length) (.uninit r i) := by
      intro r
      have hmade : Function.update made i past.length i = past.length := Function.update_self _ _ _
      have htag : Tagged t (past ++ [i]) (Function.update made i past.length)
          (.uninit r (Function.update made i past.length i)) (.uninit r i) :=
        .object r (by rw [hmade]; simp)
      rwa [hmade] at htag
    exact ⟨_, ((tagged_simulation t _ _ m code.maxStack).step insn (fun r _ _ => hnew r)
      hrenew).related hf hk'⟩
  skip := by
    rintro past f k i ⟨made, h⟩
    exact ⟨made, h.imp (Tagged.skip i)⟩
  caught := by
    rintro past f k hd ⟨made, h⟩
    exact ⟨made, rel_handlerFrame (tagged_alike.fixed rfl) h⟩

/-- **No object is taken for another.** Wherever a path through an accepted method leads, all
uninitialized values of the recorded frame with the same name are copies of one object, made at one
step of the path, by the instruction of that name. So a constructor call initializes one object. -/
theorem name_is_one_object (hr : t.Rooted) {settings : Settings} {lineOf? : ℕ → Option ℕ}
    (hok : (Verify.method t.hierarchy settings m code lineOf?).outcome = .ok v)
    (hx : Execution t.hierarchy m code (fun step _ => step) past i f) :
    ∃ k, v.frame? i = some k ∧ ∀ r o, k.Has (.uninit r o) →
      ∃! j, past[j]? = some o ∧ OneObject f k o j := by
  obtain ⟨g, entry, n, s, hends⟩ := method_ends hok
  obtain ⟨k, hk, made, h⟩ :=
    hx.kept (hends.solution hr.upper) hends.entered (kept_tagged hr hends)
  refine ⟨k, hk, fun r o ho => ?_⟩
  have hmade := h.made_of_has ho
  refine ⟨made o, ⟨hmade, h.oneObject hmade⟩, ?_⟩
  rintro j ⟨-, hj⟩
  exact hj.unique (h.oneObject hmade) ho

end Paths

/-! ### A loop that makes objects -/

namespace Minting

def owner : BinaryName := ⟨"p/Mint", by decide +kernel⟩
def coin : BinaryName := ⟨"p/Coin", by decide +kernel⟩

def table : ClassTable := ⟨[]⟩

def method : Method := ⟨owner, ⟨"mint", by decide +kernel⟩, ⟨[], none⟩, ⟨8⟩⟩

/-- An object is made and initialized in every round. -/
def code : Code where
  instructions := [.op (.new (.object coin)), .op (.stack .dup),
    .op (.invoke .special ⟨.object coin, .init, ⟨[], none⟩, false⟩), .op (.stack .pop),
    .branch (.goto 0)]
  maxStack := 2
  maxLocals := 0
  handlers := []

/-- A frame with the given values on the stack. -/
def holding (l : List VType) : Frame := ⟨[], .ofList l⟩

lemma wellFormed_table : table.WellFormed := by decide +kernel

/-- The frame recorded before the constructor call names the object by the `new`. -/
def recorded : Frame := holding [.uninit (.object coin) 0, .uninit (.object coin) 0]

lemma accepted :
    ∃ v, (Verify.method table.hierarchy .standard method code fun _ => none).outcome = .ok v ∧
      v.frame? 2 = some recorded := map_ok_iff.1 (by decide +kernel)

/-- The execution has come to an instruction with a stack. -/
abbrev Stands (past : List ℕ) (i : ℕ) (stack : List VType) : Prop :=
  Execution table.hierarchy method code (fun step _ => step) past i (holding stack)

/-- In the second round, the object before the constructor call was made at step 5. -/
def second : Frame := holding [.uninit (.object coin) 5, .uninit (.object coin) 5]

lemma execution_second : Execution table.hierarchy method code (fun step _ => step)
    [0, 1, 2, 3, 4, 0, 1] 2 second := by
  have h0 : Stands [] 0 [] := .start (by decide +kernel)
  have h1 : Stands [0] 1 [.uninit (.object coin) 0] :=
    h0.flow rfl (by decide +kernel) ⟨_, rfl, Or.inl ⟨rfl, rfl⟩⟩
  have h2 : Stands [0, 1] 2 [.uninit (.object coin) 0, .uninit (.object coin) 0] :=
    h1.flow rfl (by decide +kernel) ⟨_, rfl, Or.inl ⟨rfl, rfl⟩⟩
  have h3 : Stands [0, 1, 2] 3 [.ofClass coin] :=
    h2.flow rfl (by decide +kernel) ⟨_, rfl, Or.inl ⟨rfl, rfl⟩⟩
  have h4 : Stands [0, 1, 2, 3] 4 [] :=
    h3.flow rfl (by decide +kernel) ⟨_, rfl, Or.inl ⟨rfl, rfl⟩⟩
  have h5 : Stands [0, 1, 2, 3, 4] 0 [] :=
    h4.flow rfl (by decide +kernel) ⟨_, rfl, Or.inr List.mem_cons_self⟩
  have h6 : Stands [0, 1, 2, 3, 4, 0] 1 [.uninit (.object coin) 5] :=
    h5.flow rfl (by decide +kernel) ⟨_, rfl, Or.inl ⟨rfl, rfl⟩⟩
  exact h6.flow rfl (by decide +kernel) ⟨_, rfl, Or.inl ⟨rfl, rfl⟩⟩

end Minting

/-- In the second round of the loop, the recorded name stands for the second object. -/
theorem name_is_one_object_second : ∃ v,
    (Verify.method Minting.table.hierarchy .standard Minting.method Minting.code
      fun _ => none).outcome = .ok v ∧
    Execution Minting.table.hierarchy Minting.method Minting.code (fun step _ => step)
      [0, 1, 2, 3, 4, 0, 1] 2 Minting.second ∧
    v.frame? 2 = some Minting.recorded ∧ ∀ r o, Minting.recorded.Has (.uninit r o) →
      ∃! j, [0, 1, 2, 3, 4, 0, 1][j]? = some o ∧ OneObject Minting.second Minting.recorded o j := by
  obtain ⟨v, hv, hrecorded⟩ := Minting.accepted
  obtain ⟨k, hk, hone⟩ := name_is_one_object Minting.wellFormed_table.rooted hv
    Minting.execution_second
  rw [hrecorded] at hk
  cases hk
  exact ⟨v, hv, Minting.execution_second, hrecorded, hone⟩

end Analysis

end Bytecheck
