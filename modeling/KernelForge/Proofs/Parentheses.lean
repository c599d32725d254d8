import Mathlib
import KernelForge.Source.Line

/-!
# Parentheses around conditions

The condition of a branch or switch is written in parentheses of its own, so a pair that encloses
its whole text is removed. What is removed is exactly a pair around a text in which every
parenthesis has its partner (`Matched`): a first and a last character that are parentheses need not
be partners of each other. `Source.balanced` decides by depth what `Matched` says by counting in
every prefix (`balanced_iff`).
-/

namespace KernelForge.Source

variable {cs cs' s t : List Char}

/-! ### Partners -/

/-- Every parenthesis has its partner: no prefix closes more than it opens, and the whole text
closes all that it opens. -/
structure Matched (cs : List Char) : Prop where
  prefixes : ∀ p, p <+: cs → p.count ')' ≤ p.count '('
  total : cs.count ')' = cs.count '('

theorem forall_prefix_cons {c : Char} {P : List Char → Prop} :
    (∀ p, p <+: c :: cs → P p) ↔ P [] ∧ ∀ p, p <+: cs → P (c :: p) := by
  constructor
  · intro h
    exact ⟨h [] List.nil_prefix, fun p hp => h (c :: p) (List.cons_prefix_cons.2 ⟨rfl, hp⟩)⟩
  · rintro ⟨hnil, hcons⟩ p hp
    obtain rfl | ⟨q, rfl, hq⟩ := List.prefix_cons_iff.1 hp
    · exact hnil
    · exact hcons q hq

/-- Going through a text with `depth` parentheses open finds out whether it closes these and all its
own, and never more. -/
theorem balanced_iff (depth : Nat) (cs : List Char) :
    balanced depth cs = true ↔
      (∀ p, p <+: cs → p.count ')' ≤ depth + p.count '(') ∧
        cs.count ')' = depth + cs.count '(' := by
  fun_induction balanced depth cs with
  | case1 depth => simp [eq_comm (a := depth)]
  | case2 depth rest ih =>
    rw [ih, forall_prefix_cons]
    simp [Nat.add_assoc, Nat.add_comm 1]
  | case3 depth rest ih =>
    rw [Bool.and_eq_true, ih, forall_prefix_cons]
    cases depth with
    | zero =>
      have hfirst (h : ∀ p, p <+: rest → (')' :: p).count ')' ≤ 0 + (')' :: p).count '(') :
          False := by
        simpa using h [] List.nil_prefix
      simp only [bne_self_eq_false, Bool.false_eq_true, false_and, false_iff]
      exact fun h => hfirst h.1.2
    | succ depth => simp [Nat.add_right_comm _ 1]
  | case4 depth c rest hopen hclose ih =>
    rw [ih, forall_prefix_cons]
    simp [List.count_cons_of_ne hopen, List.count_cons_of_ne hclose]

theorem balanced_zero_iff : balanced 0 cs = true ↔ Matched cs := by
  rw [balanced_iff]
  simp only [Nat.zero_add]
  exact ⟨fun h => ⟨h.1, h.2⟩, fun h => ⟨h.prefixes, h.total⟩⟩

namespace Matched

theorem of_no_parens (hopen : '(' ∉ cs) (hclose : ')' ∉ cs) : Matched cs where
  prefixes p hp := by
    rw [List.count_eq_zero.2 fun h => hclose (hp.subset h)]
    exact Nat.zero_le _
  total := by rw [List.count_eq_zero.2 hopen, List.count_eq_zero.2 hclose]

theorem append (h : Matched cs) (h' : Matched cs') : Matched (cs ++ cs') where
  prefixes p hp := by
    obtain ⟨rest, hrest⟩ := hp
    obtain ⟨more, hcs, -⟩ | ⟨q, rfl, hq⟩ := List.append_eq_append_iff.1 hrest
    · exact h.prefixes p ⟨more, hcs.symm⟩
    · have hright := h'.prefixes q ⟨rest, hq.symm⟩
      rw [List.count_append, List.count_append, h.total]
      omega
  total := by rw [List.count_append, List.count_append, h.total, h'.total]

/-- A pair of parentheses around a text in which all have their partners are partners. -/
theorem enclose (h : Matched cs) : Matched ('(' :: (cs ++ [')'])) where
  prefixes := by
    refine forall_prefix_cons.2 ⟨Nat.le_refl _, fun p hp => ?_⟩
    obtain rfl | hp := List.prefix_concat_iff.1 hp
    · simp [h.total]
    · have hinside := h.prefixes p hp
      rw [List.count_cons_self, List.count_cons_of_ne (by decide)]
      omega
  total := by simp [h.total]

end Matched

/-! ### Removing a pair -/

theorem stripParens_enclosed (h : Matched s) : stripParens ('(' :: (s ++ [')'])) = s := by
  have hlast : (s ++ [')']).getLast? = some ')' := List.getLast?_concat
  rw [stripParens, hlast, List.dropLast_concat, balanced_zero_iff.2 h]
  rfl

/-- A text is left as it is, or it loses a pair of partners around everything else. -/
theorem stripParens_cases (t : List Char) :
    (∃ s, t = '(' :: (s ++ [')']) ∧ Matched s) ∨ stripParens t = t := by
  fun_cases stripParens t with
  | case1 rest h =>
    rw [Bool.and_eq_true, beq_iff_eq, balanced_zero_iff] at h
    obtain ⟨hlast, hmatched⟩ := h
    obtain ⟨init, rfl⟩ := List.getLast?_eq_some_iff.1 hlast
    rw [List.dropLast_concat] at hmatched
    exact .inl ⟨init, rfl, hmatched⟩
  | case2 rest h => exact .inr rfl
  | case3 => exact .inr rfl

theorem stripParens_eq_iff : stripParens t = s ∧ s ≠ t ↔ t = '(' :: (s ++ [')']) ∧ Matched s := by
  constructor
  · rintro ⟨rfl, hne⟩
    obtain ⟨s, rfl, hs⟩ | hself := stripParens_cases t
    · rw [stripParens_enclosed hs]
      exact ⟨rfl, hs⟩
    · exact absurd hself hne
  · rintro ⟨rfl, hs⟩
    refine ⟨stripParens_enclosed hs, fun heq => ?_⟩
    have hlength := congrArg List.length heq
    rw [List.length_cons, List.length_append] at hlength
    omega

theorem Matched.stripParens (h : Matched t) : Matched (stripParens t) := by
  obtain ⟨s, rfl, hs⟩ | hself := stripParens_cases t
  · rwa [stripParens_enclosed hs]
  · rwa [hself]

/-! ### Depth in 32 bits -/

/-- How many parentheses are open after a text, counted in 32 bits, if it never closes more than
`depth` and those that it opens. -/
def openAfter? (depth : Int32) : List Char → Option Int32
  | [] => some depth
  | '(' :: rest => openAfter? (depth + 1) rest
  | ')' :: rest => if depth - 1 < 0 then none else openAfter? (depth - 1) rest
  | _ :: rest => openAfter? depth rest

/-- Removing a pair of parentheses, with depths counted in 32 bits. -/
def stripParens32 (cs : List Char) : List Char :=
  match cs with
  | '(' :: rest =>
    if rest.getLast? = some ')' ∧ openAfter? 0 rest.dropLast = some 0 then rest.dropLast else cs
  | _ => cs

theorem openAfter?_eq_zero_iff {depth : Nat} (h : depth + cs.count '(' < 2 ^ 31) :
    openAfter? (Int32.ofNat depth) cs = some 0 ↔ balanced depth cs = true := by
  have htoInt {n : Nat} (hn : n < 2 ^ 31) : (Int32.ofNat n).toInt = n :=
    Int32.toInt_ofNat_of_lt hn
  fun_induction balanced depth cs with
  | case1 depth =>
    have hdepth := htoInt (Nat.lt_of_le_of_lt (Nat.le_add_right ..) h)
    rw [openAfter?, Option.some.injEq, ← Int32.toInt_inj, hdepth]
    simp
  | case2 depth rest ih =>
    rw [List.count_cons_self] at h
    have hnext : Int32.ofNat depth + 1 = Int32.ofNat (depth + 1) := by simp
    rw [openAfter?, hnext]
    exact ih (by omega)
  | case3 depth rest ih =>
    rw [List.count_cons_of_ne (by decide)] at h
    rw [openAfter?]
    cases depth with
    | zero => simp
    | succ depth =>
      have hnext : Int32.ofNat (depth + 1) - 1 = Int32.ofNat depth := by simp
      have hdepth : ¬ Int32.ofNat depth < 0 := by
        rw [Int32.lt_iff_toInt_lt, htoInt (by omega)]
        simp
      rw [hnext, if_neg hdepth]
      exact ih (by omega)
  | case4 depth c rest hopen hclose ih =>
    rw [List.count_cons_of_ne hopen] at h
    rw [openAfter?.eq_4 _ _ _ hopen hclose]
    exact ih h

/-- As long as the depth fits, nothing depends on how it is counted. -/
theorem stripParens32_eq (h : t.count '(' < 2 ^ 31) : stripParens32 t = stripParens t := by
  match t with
  | [] => rfl
  | c :: rest =>
    by_cases hopen : c = '('
    · subst hopen
      have hfits : 0 + rest.dropLast.count '(' < 2 ^ 31 := by
        have hdrop := (List.dropLast_sublist rest).count_le '('
        rw [List.count_cons_self] at h
        omega
      have hiff := openAfter?_eq_zero_iff hfits
      simp [stripParens32, stripParens, ← hiff]
    · rw [stripParens32, stripParens]
      · simpa using hopen
      · simpa using hopen

/-! ### Lines that open a choice -/

theorem toList_condition (e : Expr) : e.condition.toList = stripParens e.render.toList :=
  String.toList_ofList

/-- What stands before and after a condition has no parentheses but the pair around it. -/
theorem Matched.around {e : Expr} (h : Matched e.render.toList) (word : String)
    (hopen : '(' ∉ word.toList) (hclose : ')' ∉ word.toList) :
    Matched (word ++ "(" ++ e.condition ++ ") \x7b").toList := by
  have hword := of_no_parens hopen hclose
  have hend : Matched [' ', '\x7b'] := .of_no_parens (by decide) (by decide)
  have hline := (hword.append h.stripParens.enclose).append hend
  simpa [toList_condition] using hline

/-- The text of a condition loses its first and last character exactly if these are partners, so
that all between them have theirs, and nothing else ever; counting in 32 bits is enough for that.
Where all parentheses of a condition have partners, so have those of the line of its branch or
switch. -/
theorem enclosing_pair_removed :
    (∀ t s, stripParens t = s ∧ s ≠ t ↔ t = '(' :: (s ++ [')']) ∧ Matched s) ∧
    (∀ t, (¬ ∃ s, t = '(' :: (s ++ [')']) ∧ Matched s) → stripParens t = t) ∧
    (∀ t, t.count '(' + t.count ')' < 2 ^ 31 → stripParens32 t = stripParens t) ∧
    ∀ e : Expr, Matched e.render.toList →
      Matched (Line.openIf e).render.toList ∧ Matched (Line.openSwitch e).render.toList := by
  refine ⟨fun t s => stripParens_eq_iff, fun t hnone => ?_, fun t hcount => ?_, fun e he => ?_⟩
  · obtain hsome | hself := stripParens_cases t
    · exact absurd hsome hnone
    · exact hself
  · exact stripParens32_eq (by omega)
  · exact ⟨he.around "if " (by decide) (by decide), he.around "switch " (by decide) (by decide)⟩

/-- The first and the last character are parentheses, but not partners. -/
theorem enclosing_pair_removed_product :
    let e := Expr.binary .mul (.cast "int" (.name "a")) (.negate (.name "b"))
    let inside := "((int)a) * (-b)".toList
    stripParens e.render.toList = inside ∧ stripParens inside = inside ∧
      stripParens32 inside = inside ∧ Matched (Line.openIf e).render.toList := by
  intro e inside
  obtain ⟨hiff, hself, hcount, hline⟩ := enclosing_pair_removed
  have hmatched : Matched inside := balanced_zero_iff.1 (by decide)
  have hrender : e.render.toList = '(' :: (inside ++ [')']) := by decide
  have hkept : stripParens inside = inside := by
    refine hself inside ?_
    rintro ⟨s, hs, hmatched⟩
    obtain rfl : "(int)a) * (-b".toList = s := List.append_cancel_right (List.cons.inj hs).2
    exact absurd (hmatched.prefixes "(int)a)".toList ⟨" * (-b".toList, rfl⟩) (by decide)
  have hline := hline e (hrender ▸ hmatched.enclose)
  exact ⟨((hiff _ inside).2 ⟨hrender, hmatched⟩).1, hkept,
    (hcount inside (by decide)).trans hkept, hline.1⟩

end KernelForge.Source
