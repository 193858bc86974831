import Mathlib.Data.List.TakeWhile
import Mathlib.Tactic.Common
import Bytecheck.Descriptor.Reader
import Bytecheck.Proofs.Outcomes

/-!
Descriptors and their texts.

A scanner is exact when it returns a value on just those texts that start with the spelling of the
value, and leaves what follows it. Exactness passes from the parts of a descriptor to the whole,
because one character tells which part comes next: a class name holds neither `;` nor `[`, and no
spelling of a field type starts with `)` or `V`. The main statement is that reading and rendering
are inverse for every kind of descriptor.
-/

namespace Bytecheck

namespace Scanner

variable {α β : Type} {scan : Scanner α} {spell : α → List Char}

/-- A scanner returns a value exactly on the texts that start with its spelling, and leaves the
rest. -/
def Exact (scan : Scanner α) (spell : α → List Char) : Prop :=
  ∀ cs a rest, scan cs = .ok (a, rest) ↔ cs = spell a ++ rest

/-- An exact scanner reads a whole text exactly when the text is a spelling. -/
lemma Exact.parse_iff (h : Exact scan spell) {s : String} {a : α} :
    Scanner.parse scan s = .ok a ↔ s = String.ofList (spell a) := by
  have hs : s = String.ofList (spell a) ↔ scan s.toList = .ok (a, []) := by
    rw [h, List.append_nil, ← String.toList_inj, String.toList_ofList]
  rw [hs, Scanner.parse, bind_ok_iff]
  constructor
  · rintro ⟨⟨b, rest⟩, hb, hrest⟩
    cases rest with
    | nil =>
      rw [Except.ok.injEq] at hrest
      rw [hb, hrest]
    | cons c cs => simp at hrest
  · exact fun hb => ⟨(a, []), hb, rfl⟩

lemma map_ok_iff {x : Except DescriptorFault (α × List Char)} {f : α → β} {b : β}
    {rest : List Char} :
    (x.map fun p => (f p.1, p.2)) = .ok (b, rest) ↔ ∃ a, x = .ok (a, rest) ∧ f a = b := by
  constructor
  · exact exists_of_map
  · rintro ⟨a, rfl, rfl⟩
    rfl

/-- Where the longest run of characters with a property ends. -/
lemma run_iff {p : Char → Bool} {cs u v : List Char} :
    cs.takeWhile p = u ∧ cs.dropWhile p = v ↔
      cs = u ++ v ∧ (∀ c ∈ u, p c = true) ∧ ∀ c ∈ v.head?, p c = false := by
  constructor
  · rintro ⟨rfl, rfl⟩
    refine ⟨List.takeWhile_append_dropWhile.symm, fun c => List.mem_takeWhile_imp, fun c hc => ?_⟩
    have := List.head?_dropWhile_not p cs
    rwa [Option.mem_def.1 hc] at this
  · rintro ⟨rfl, hu, hv⟩
    rw [List.takeWhile_append_of_pos hu, List.dropWhile_append_of_pos hu]
    cases v with
    | nil => simp
    | cons c v =>
      have hc : p c = false := hv c rfl
      simp [hc]

end Scanner

/-! ### Primitive types -/

namespace BaseType

lemma ofLetter?_eq_some_iff {c : Char} {b : BaseType} : ofLetter? c = some b ↔ c = b.letter := by
  constructor
  · intro h
    unfold ofLetter? at h
    split at h <;> simp only [Option.some.injEq, reduceCtorEq] at h <;> rw [← h] <;> rfl
  · rintro rfl
    cases b <;> rfl

lemma letter_ne_bracket (b : BaseType) : b.letter ≠ '[' := by cases b <;> decide

lemma scan_exact : Scanner.Exact scan spell := by
  intro cs b rest
  cases cs with
  | nil => simp [scan, spell]
  | cons c cs =>
    have hspell : c :: cs = b.spell ++ rest ↔ c = b.letter ∧ cs = rest := by simp [spell]
    rw [hspell, ← ofLetter?_eq_some_iff, scan]
    cases ofLetter? c <;> simp

end BaseType

/-! ### Class names -/

namespace BinaryName

/-- The parts of a text hold all its characters but the slashes. -/
lemma exists_part_of_mem {cs : List Char} {c : Char} (h : c ∈ cs) (hc : c ≠ '/') :
    ∃ p ∈ parts cs, c ∈ p := by
  induction cs with
  | nil => simp at h
  | cons d cs ih =>
    by_cases hd : d = '/'
    · have hmem : c ∈ cs := (List.mem_cons.1 h).resolve_left (hd ▸ hc)
      obtain ⟨p, hp, hcp⟩ := ih hmem
      exact ⟨p, by simp [parts, hd, hp], hcp⟩
    · rw [parts, if_neg hd]
      cases hparts : parts cs with
      | nil =>
        rcases List.mem_cons.1 h with rfl | h
        · exact ⟨[c], by simp, by simp⟩
        · obtain ⟨p, hp, -⟩ := ih h
          rw [hparts] at hp
          cases hp
      | cons q qs =>
        rcases List.mem_cons.1 h with rfl | h
        · exact ⟨c :: q, by simp, by simp⟩
        · obtain ⟨p, hp, hcp⟩ := ih h
          rw [hparts] at hp
          rcases List.mem_cons.1 hp with rfl | hp
          · exact ⟨d :: p, by simp, by simp [hcp]⟩
          · exact ⟨p, by simp [hp], hcp⟩

/-- The only reserved character in a class name is the slash. -/
lemma not_mem_of_isReserved (n : BinaryName) {c : Char} (hc : c ≠ '/')
    (hr : UnqualifiedName.isReserved c = true) : c ∉ n.text.toList := by
  intro h
  obtain ⟨p, hp, hcp⟩ := exists_part_of_mem h hc
  have hlegal := List.all_eq_true.1 n.legal p hp
  have := ((UnqualifiedName.isLegal_iff p).1 hlegal).2 c hcp
  rw [hr] at this
  simp at this

lemma ofString_eq_ok_iff {s : String} {n : BinaryName} : ofString s = .ok n ↔ s = n.text := by
  unfold ofString
  exact checked_ok_iff mk text (fun _ _ => rfl) fun n => ⟨n.legal, rfl⟩

lemma scan_exact : Scanner.Exact scan spell := by
  intro cs n rest
  have hspell : n.spell ++ rest = 'L' :: (n.text.toList ++ ';' :: rest) := by simp [spell]
  rw [hspell]
  constructor
  · intro h
    unfold scan at h
    split at h
    · rename_i cs
      dsimp only at h
      split at h
      · simp at h
      · rename_i x tail hdrop
        obtain ⟨hcs, -, hx⟩ := Scanner.run_iff.1 ⟨rfl, hdrop⟩
        have hx : x = ';' := by simpa using hx x rfl
        split at h
        · rename_i m hm
          rw [Except.ok.injEq, Prod.mk.injEq] at h
          rw [ofString_eq_ok_iff] at hm
          rw [hcs, ← h.1, ← hm, String.toList_ofList, ← h.2, ← hx]
        · simp at h
    · simp at h
  · rintro rfl
    have hname : ∀ c ∈ n.text.toList, decide (c ≠ ';') = true := by
      intro c hc
      rw [decide_eq_true_eq]
      rintro rfl
      exact n.not_mem_of_isReserved (by decide) (by decide) hc
    obtain ⟨htake, hdrop⟩ : (n.text.toList ++ ';' :: rest).takeWhile (· ≠ ';') = n.text.toList ∧
        (n.text.toList ++ ';' :: rest).dropWhile (· ≠ ';') = ';' :: rest :=
      Scanner.run_iff.2 ⟨rfl, hname, by simp⟩
    have hofString : ofString n.text = .ok n := ofString_eq_ok_iff.2 rfl
    unfold scan
    simp only [htake, hdrop, String.ofList_toList, hofString]

end BinaryName

/-! ### Reference types -/

namespace RefType

lemma scanElement_iff {extra : ℕ} {cs : List Char} {r : RefType} {rest : List Char} :
    scanElement extra cs = .ok (r, rest) ↔
      (∃ c : BinaryName, r = .objectArray extra c ∧ cs = c.spell ++ rest) ∨
        ∃ b : BaseType, r = .primitiveArray extra b ∧ cs = b.spell ++ rest := by
  unfold scanElement
  split
  · rename_i cs
    rw [Scanner.map_ok_iff]
    constructor
    · rintro ⟨c, hc, rfl⟩
      exact Or.inl ⟨c, rfl, (BinaryName.scan_exact _ _ _).1 hc⟩
    · rintro (⟨c, rfl, hc⟩ | ⟨b, -, hb⟩)
      · exact ⟨c, (BinaryName.scan_exact _ _ _).2 hc, rfl⟩
      · -- no primitive type is written `L`
        cases b <;> simp [BaseType.spell, BaseType.letter] at hb
  · rename_i hL
    rw [Scanner.map_ok_iff]
    constructor
    · rintro ⟨b, hb, rfl⟩
      exact Or.inr ⟨b, rfl, (BaseType.scan_exact _ _ _).1 hb⟩
    · rintro (⟨c, -, hc⟩ | ⟨b, rfl, hb⟩)
      · exact absurd hc (hL _)
      · exact ⟨b, (BaseType.scan_exact _ _ _).2 hb, rfl⟩

/-- The brackets of an array type end where its innermost element begins. -/
lemma brackets_iff {cs v : List Char} {n : ℕ} (hv : ∀ c ∈ v.head?, c ≠ '[') :
    (cs.takeWhile (· = '[')).length = n ∧ cs.dropWhile (· = '[') = v ↔
      cs = List.replicate n '[' ++ v := by
  have hrun : cs.takeWhile (· = '[') = List.replicate n '[' ∧ cs.dropWhile (· = '[') = v ↔
      cs = List.replicate n '[' ++ v := by
    rw [Scanner.run_iff]
    refine and_iff_left ⟨fun c hc => ?_, fun c hc => ?_⟩
    · simpa using (List.mem_replicate.1 hc).2
    · simpa using hv c hc
  rw [← hrun, List.eq_replicate_iff]
  refine and_congr_left fun _ => (and_iff_left fun c hc => ?_).symm
  simpa using List.mem_takeWhile_imp hc

lemma scan_array_iff {cs rest : List Char} {r : RefType} :
    scan ('[' :: cs) = .ok (r, rest) ↔ '[' :: cs = r.spell ++ rest := by
  have hscan : scan ('[' :: cs) =
      scanElement (cs.takeWhile (· = '[')).length (cs.dropWhile (· = '[')) := rfl
  have hspell : ∀ (n : ℕ) (v : List Char),
      '[' :: cs = List.replicate (n + 1) '[' ++ v ↔ cs = List.replicate n '[' ++ v := by
    intro n v
    simp [List.replicate_succ]
  rw [hscan, scanElement_iff]
  cases r with
  | object c => simp [spell, BinaryName.spell]
  | objectArray n c =>
    have hhead : ∀ x ∈ (c.spell ++ rest).head?, x ≠ '[' := by simp [BinaryName.spell]
    rw [spell, List.append_assoc, hspell, ← brackets_iff hhead]
    simp [eq_comm]
  | primitiveArray n b =>
    have hhead : ∀ x ∈ (b.spell ++ rest).head?, x ≠ '[' := by
      simpa [BaseType.spell] using b.letter_ne_bracket
    rw [spell, List.append_assoc, hspell, ← brackets_iff hhead]
    simp [eq_comm]

lemma scan_object_iff {cs rest : List Char} {r : RefType} :
    scan ('L' :: cs) = .ok (r, rest) ↔ 'L' :: cs = r.spell ++ rest := by
  have hscan : scan ('L' :: cs) =
      (BinaryName.scan ('L' :: cs)).map fun p => (.object p.1, p.2) := rfl
  rw [hscan, Scanner.map_ok_iff]
  cases r with
  | object c => simp [BinaryName.scan_exact _ _ _, spell]
  | objectArray n c => simp [spell, List.replicate_succ]
  | primitiveArray n b => simp [spell, List.replicate_succ]

/-- A reference type is written with an `L` or a bracket at its start. -/
lemma exists_spell_eq (r : RefType) : ∃ cs, r.spell = 'L' :: cs ∨ r.spell = '[' :: cs := by
  cases r with
  | object c => exact ⟨_, Or.inl rfl⟩
  | objectArray n c => exact ⟨_, Or.inr rfl⟩
  | primitiveArray n b => exact ⟨_, Or.inr rfl⟩

lemma scan_exact : Scanner.Exact scan spell := by
  intro cs r rest
  obtain ⟨tail, hr⟩ := r.exists_spell_eq
  unfold scan
  split
  · rcases hr with hr | hr <;> simp [hr]
  · exact scan_object_iff
  · exact scan_array_iff
  · rename_i c cs hL hB
    rcases hr with hr | hr
    · simpa [hr] using fun h => absurd h hL
    · simpa [hr] using fun h => absurd h hB

end RefType

/-! ### Field types and signatures -/

namespace FieldType

/-- How the spelling of a field type starts tells what it is. -/
lemma spell_head {t : FieldType} {c : Char} {cs rest : List Char} (h : c :: cs = t.spell ++ rest) :
    (∃ b, t = .base b ∧ BaseType.ofLetter? c = some b) ∨
      (∃ r, t = .ref r) ∧ BaseType.ofLetter? c = none ∧ (c = 'L' ∨ c = '[') := by
  cases t with
  | base b =>
    have hc : c = b.letter := (List.cons.inj h).1
    exact Or.inl ⟨b, rfl, BaseType.ofLetter?_eq_some_iff.2 hc⟩
  | ref r =>
    have hc : c = 'L' ∨ c = '[' := by
      obtain ⟨tail, hr | hr⟩ := r.exists_spell_eq
      · exact Or.inl (List.cons.inj (by simpa [spell, hr] using h)).1
      · exact Or.inr (List.cons.inj (by simpa [spell, hr] using h)).1
    refine Or.inr ⟨⟨r, rfl⟩, ?_, hc⟩
    rcases hc with rfl | rfl <;> rfl

lemma scan_exact : Scanner.Exact scan spell := by
  intro cs t rest
  cases cs with
  | nil =>
    cases t with
    | base b => simp [scan, spell, BaseType.spell]
    | ref r =>
      obtain ⟨tail, hr⟩ := r.exists_spell_eq
      rcases hr with hr | hr <;> simp [scan, spell, hr]
  | cons c cs =>
    rw [scan]
    by_cases hletter : (BaseType.ofLetter? c).isSome
    · rw [if_pos hletter, Scanner.map_ok_iff]
      constructor
      · rintro ⟨b, hb, rfl⟩
        exact (BaseType.scan_exact _ _ _).1 hb
      · intro h
        rcases spell_head h with ⟨b, rfl, -⟩ | ⟨-, hnone, -⟩
        · exact ⟨b, (BaseType.scan_exact _ _ _).2 h, rfl⟩
        · simp [hnone] at hletter
    · rw [if_neg hletter]
      by_cases hc : c = 'L' ∨ c = '['
      · rw [if_pos hc, Scanner.map_ok_iff]
        constructor
        · rintro ⟨r, hr, rfl⟩
          exact (RefType.scan_exact _ _ _).1 hr
        · intro h
          rcases spell_head h with ⟨b, -, hb⟩ | ⟨⟨r, rfl⟩, -, -⟩
          · simp [hb] at hletter
          · exact ⟨r, (RefType.scan_exact _ _ _).2 h, rfl⟩
      · rw [if_neg hc]
        refine iff_of_false (by simp) fun h => ?_
        rcases spell_head h with ⟨b, -, hb⟩ | ⟨-, -, hc'⟩
        · simp [hb] at hletter
        · exact hc hc'

/-- No field type is written with a closing parenthesis or a `V` at its start. -/
lemma ne_of_spell {t : FieldType} {c : Char} {cs rest : List Char} (h : c :: cs = t.spell ++ rest) :
    c ≠ ')' ∧ c ≠ 'V' := by
  rcases spell_head h with ⟨b, -, hb⟩ | ⟨-, -, rfl | rfl⟩
  · rw [BaseType.ofLetter?_eq_some_iff] at hb
    rw [hb]
    cases b <;> decide
  · decide
  · decide

lemma spell_ne_nil (t : FieldType) : t.spell ≠ [] := by
  intro h
  have := length_of_scan ((scan_exact _ _ _).2 (List.append_nil t.spell).symm)
  simp [h] at this

end FieldType

namespace MethodDescriptor

lemma scanParameters_cons {c : Char} {cs : List Char} (hc : c ≠ ')') :
    scanParameters (c :: cs) =
      (FieldType.scan (c :: cs)).bind fun p =>
        (scanParameters p.2).map fun q => (p.1 :: q.1, q.2) := by
  rw [scanParameters]
  · split
    · rename_i e he
      rw [he]
      rfl
    · rename_i t rest ht
      rw [ht]
      rfl
  · simpa using hc

lemma scanParameters_iff {cs rest : List Char} {ts : List FieldType} :
    scanParameters cs = .ok (ts, rest) ↔ cs = ts.flatMap FieldType.spell ++ ')' :: rest := by
  constructor
  · intro h
    fun_induction scanParameters cs generalizing ts with
    | case1 => simp at h
    | case2 rest' =>
      simp only [Except.ok.injEq, Prod.mk.injEq] at h
      rw [← h.1, ← h.2]
      rfl
    | case3 c cs hc e he => simp at h
    | case4 c cs hc t tail ht ih =>
      obtain ⟨ts, hts, rfl⟩ := Scanner.map_ok_iff.1 h
      rw [(FieldType.scan_exact _ _ _).1 ht, ih hts]
      simp
  · rintro rfl
    induction ts with
    | nil => rw [List.flatMap_nil, List.nil_append, scanParameters]
    | cons t ts ih =>
      obtain ⟨c, cs, hspell⟩ := List.exists_cons_of_ne_nil t.spell_ne_nil
      have htext : (t :: ts).flatMap FieldType.spell ++ ')' :: rest =
          t.spell ++ (ts.flatMap FieldType.spell ++ ')' :: rest) := by simp
      have hscan := (FieldType.scan_exact _ _ _).2 htext
      rw [htext, hspell, List.cons_append] at hscan ⊢
      have hhead : c :: cs = t.spell ++ [] := by rw [hspell, List.append_nil]
      have hc : c ≠ ')' := (FieldType.ne_of_spell hhead).1
      rw [scanParameters_cons hc, hscan]
      simp [Except.bind, ih, Except.map]

/-- The text of a return type. -/
def returnSpell : Option FieldType → List Char
  | none => ['V']
  | some t => t.spell

lemma spell_eq (d : MethodDescriptor) :
    d.spell = '(' :: (d.parameters.flatMap FieldType.spell ++ ')' :: returnSpell d.returns) := by
  unfold spell returnSpell
  cases d.returns <;> rfl

lemma scanReturn_iff {cs rest : List Char} {r : Option FieldType} :
    scanReturn cs = .ok (r, rest) ↔ cs = returnSpell r ++ rest := by
  unfold scanReturn
  split
  · rename_i cs
    cases r with
    | none => simp [returnSpell]
    | some t => simpa [returnSpell] using fun h => (FieldType.ne_of_spell h).2 rfl
  · rename_i hV
    rw [Scanner.map_ok_iff]
    cases r with
    | none => simpa [returnSpell] using hV rest
    | some t => simp [returnSpell, FieldType.scan_exact _ _ _]

lemma scan_exact : Scanner.Exact scan spell := by
  intro cs d rest
  rw [spell_eq]
  constructor
  · intro h
    unfold scan at h
    split at h
    · obtain ⟨⟨ts, tail⟩, hts, h⟩ := bind_ok_iff.1 h
      obtain ⟨⟨r, tail'⟩, hr, h⟩ := bind_ok_iff.1 h
      simp only [Except.ok.injEq, Prod.mk.injEq] at h
      rw [scanParameters_iff.1 hts, scanReturn_iff.1 hr, ← h.1, ← h.2]
      simp
    · simp at h
  · rintro rfl
    have hts : scanParameters (d.parameters.flatMap FieldType.spell ++
        ')' :: (returnSpell d.returns ++ rest)) = .ok (d.parameters, returnSpell d.returns ++ rest) :=
      scanParameters_iff.2 rfl
    have hr : scanReturn (returnSpell d.returns ++ rest) = .ok (d.returns, rest) :=
      scanReturn_iff.2 rfl
    simp only [scan, List.cons_append, List.append_assoc]
    rw [hts]
    simp only [bind, Except.bind, hr]

end MethodDescriptor

/-! ### Whole texts -/

namespace RefType

lemma head?_constantText (r : RefType) :
    r.constantText.toList.head? = some '[' ↔ r.isArray = true := by
  cases r with
  | object c =>
    simp only [constantText, isArray, Bool.false_eq_true, iff_false]
    exact fun h => c.not_mem_of_isReserved (by decide) (by decide) (List.mem_of_mem_head? h)
  | objectArray n c => simp [constantText, isArray, render, spell, List.replicate_succ]
  | primitiveArray n b => simp [constantText, isArray, render, spell, List.replicate_succ]

/-- A bracket at the start of a class constant tells whether it names an array type. -/
lemma ofConstant_iff {s : String} {r : RefType} : ofConstant s = .ok r ↔ s = r.constantText := by
  unfold ofConstant
  by_cases hs : s.toList.head? = some '['
  · rw [if_pos hs]
    have hparse : parse s = .ok r ↔ s = r.render := scan_exact.parse_iff
    rw [hparse]
    cases r with
    | object c =>
      refine iff_of_false (fun h => ?_) fun h => ?_
      · simp [h, render, spell, BinaryName.spell] at hs
      · rw [h, head?_constantText] at hs
        simp [isArray] at hs
    | _ => rfl
  · rw [if_neg hs]
    cases r with
    | object c =>
      rw [constantText, ← BinaryName.ofString_eq_ok_iff]
      cases BinaryName.ofString s <;> simp
    | _ =>
      refine iff_of_false (by cases BinaryName.ofString s <;> simp) fun h => hs ?_
      rw [h, head?_constantText]
      rfl

end RefType

/-- **Reading and rendering are inverse**: a text reads as a descriptor exactly when it is the text
of the descriptor, for every kind of descriptor; a class constant reads as a class exactly when it
is the name of the class, and as an array type exactly when it is its descriptor. -/
theorem parse_ok_iff_render :
    (∀ (s : String) (b : BaseType), BaseType.parse s = .ok b ↔ s = b.render) ∧
      (∀ (s : String) (c : BinaryName), BinaryName.parse s = .ok c ↔ s = c.render) ∧
      (∀ (s : String) (r : RefType), RefType.parse s = .ok r ↔ s = r.render) ∧
      (∀ (s : String) (t : FieldType), FieldType.parse s = .ok t ↔ s = t.render) ∧
      (∀ (s : String) (d : MethodDescriptor), MethodDescriptor.parse s = .ok d ↔ s = d.render) ∧
      ∀ (s : String) (r : RefType), RefType.ofConstant s = .ok r ↔ s = r.constantText :=
  ⟨fun _ _ => BaseType.scan_exact.parse_iff, fun _ _ => BinaryName.scan_exact.parse_iff,
    fun _ _ => RefType.scan_exact.parse_iff, fun _ _ => FieldType.scan_exact.parse_iff,
    fun _ _ => MethodDescriptor.scan_exact.parse_iff, fun _ _ => RefType.ofConstant_iff⟩

end Bytecheck
