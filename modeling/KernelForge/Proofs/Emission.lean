import Mathlib
import KernelForge.Source.Statement

/-!
# Emission steps that succeed

What a step did when it succeeded: a compound step is taken apart into its parts, and every operation
on the emitter is described field by field, so that later arguments never unfold them.
-/

namespace KernelForge.Source

namespace Emit

variable {α β : Type} {s s' : Emitter}

theorem bind_of_ok {x : Emit α} {f : α → Emit β} {a : α} (h : x s = .ok a s') :
    (x >>= f) s = f a s' := by
  simp only [bind, EStateM.bind, h]

theorem bind_of_error {x : Emit α} {f : α → Emit β} {e : Error} (h : x s = .error e s') :
    (x >>= f) s = .error e s' := by
  simp only [bind, EStateM.bind, h]

/-- A compound step succeeds if both of its parts do. -/
theorem bind_ok {x : Emit α} {f : α → Emit β} {b : β} :
    (x >>= f) s = .ok b s' ↔ ∃ a s₁, x s = .ok a s₁ ∧ f a s₁ = .ok b s' := by
  cases hx : x s with
  | ok a s₁ => simp [bind_of_ok hx]
  | error e s₁ => simp [bind_of_error hx]

/-- A compound step fails if one of its parts does, and the second one starts where the first ends. -/
theorem bind_error {x : Emit α} {f : α → Emit β} {e : Error} :
    (x >>= f) s = .error e s' ↔
      x s = .error e s' ∨ ∃ a s₁, x s = .ok a s₁ ∧ f a s₁ = .error e s' := by
  cases hx : x s with
  | ok a s₁ => simp [bind_of_ok hx]
  | error e₁ s₁ => simp [bind_of_error hx]

theorem get_eq (s : Emitter) : (get : Emit Emitter) s = .ok s s :=
  rfl

@[simp] theorem pure_ok {a b : α} : (pure a : Emit α) s = .ok b s' ↔ a = b ∧ s = s' := by
  simp [pure, EStateM.pure]

@[simp] theorem get_ok {b : Emitter} :
    (get : Emit Emitter) s = .ok b s' ↔ s = b ∧ s = s' := by
  simp [get_eq]

@[simp] theorem set_ok {t : Emitter} {u : PUnit} :
    (set t : Emit PUnit) s = .ok u s' ↔ t = s' := by
  simp [set, EStateM.set]

@[simp] theorem modify_ok {f : Emitter → Emitter} {u : PUnit} :
    (modify f : Emit PUnit) s = .ok u s' ↔ f s = s' := by
  simp [modify, modifyGet, MonadStateOf.modifyGet, EStateM.modifyGet]

@[simp] theorem throw_ok {e : Error} {b : α} : (throw e : Emit α) s = .ok b s' ↔ False := by
  simp [throw, throwThe, MonadExceptOf.throw, EStateM.throw]

@[simp] theorem lift_ok {x : Except Error α} {b : α} :
    (liftM x : Emit α) s = .ok b s' ↔ x = .ok b ∧ s = s' := by
  cases x with
  | ok a => simp [liftM, monadLift, MonadLift.monadLift]
  | error e => simp [liftM, monadLift, MonadLift.monadLift]

/-- What a step gives and leaves if it succeeds. -/
def done? (x : Emit α) (s : Emitter) : Option (α × Emitter) :=
  match x s with
  | .ok a s' => some (a, s')
  | .error _ _ => none

theorem done?_of_ok {x : Emit α} {a : α} (h : x s = .ok a s') : x.done? s = some (a, s') := by
  rw [done?, h]

theorem exists_ok (x : Emit α) (s : Emitter) (h : (x.done? s).isSome = true) :
    ∃ a s', x s = .ok a s' := by
  cases hx : x s with
  | ok a s' => exact ⟨a, s', rfl⟩
  | error e s' =>
    rw [done?, hx] at h
    cases h

/-- Steps for the members of a list, one after the other. -/
theorem mapM_cons_ok {f : α → Emit β} {a : α} {as : List α} {bs : List β} :
    (a :: as).mapM f s = .ok bs s' ↔
      ∃ b s₁ rest, f a s = .ok b s₁ ∧ as.mapM f s₁ = .ok rest s' ∧ bs = b :: rest := by
  simp only [List.mapM_cons, bind_ok]
  constructor
  · rintro ⟨b, s₁, ha, rest, s₂, has, hpure⟩
    cases hpure
    exact ⟨b, s₁, rest, ha, has, rfl⟩
  · rintro ⟨b, s₁, rest, ha, has, rfl⟩
    exact ⟨b, s₁, ha, rest, s', has, rfl⟩

/-- The first step that fails is where the steps for a list end. -/
theorem mapM_cons_error {f : α → Emit β} {a : α} {as : List α} {e : Error} :
    (a :: as).mapM f s = .error e s' ↔
      f a s = .error e s' ∨ ∃ b s₁, f a s = .ok b s₁ ∧ as.mapM f s₁ = .error e s' := by
  simp only [List.mapM_cons, bind_error]
  constructor
  · rintro (ha | ⟨b, s₁, ha, has | ⟨_, _, -, hpure⟩⟩)
    · exact .inl ha
    · exact .inr ⟨b, s₁, ha, has⟩
    · cases hpure
  · rintro (ha | ⟨b, s₁, ha, has⟩)
    · exact .inl ha
    · exact .inr ⟨b, s₁, ha, .inl has⟩

theorem length_of_mapM_ok {f : α → Emit β} {as : List α} {bs : List β}
    (h : as.mapM f s = .ok bs s') : bs.length = as.length := by
  induction as generalizing s bs with
  | nil =>
    rw [List.mapM_nil, pure_ok] at h
    exact h.1 ▸ rfl
  | cons a as ih =>
    obtain ⟨b, s₁, rest, -, has, rfl⟩ := mapM_cons_ok.1 h
    rw [List.length_cons, List.length_cons, ih has]

theorem exists_mapM_ok {f : α → Emit β} {as : List α}
    (hf : ∀ a ∈ as, ∀ s, ∃ b s', f a s = .ok b s') (s : Emitter) :
    ∃ bs s', as.mapM f s = .ok bs s' := by
  induction as generalizing s with
  | nil => exact ⟨[], s, by rw [List.mapM_nil, pure_ok]; exact ⟨rfl, rfl⟩⟩
  | cons a as ih =>
    obtain ⟨b, s₁, ha⟩ := hf a List.mem_cons_self s
    obtain ⟨bs, s', has⟩ := ih (fun a ha => hf a (List.mem_cons_of_mem _ ha)) s₁
    exact ⟨b :: bs, s', mapM_cons_ok.2 ⟨b, s₁, bs, ha, has, rfl⟩⟩

/-- However a step ended, `P` holds of the state that it left, and `Q` of its error if it failed. -/
def Leaves (P : Emitter → Prop) (Q : Error → Prop) : EStateM.Result Error Emitter α → Prop
  | .ok _ s => P s
  | .error e s => P s ∧ Q e

namespace Leaves

variable {P : Emitter → Prop} {Q : Error → Prop} {x : Emit α} {f : α → Emit β}

theorem bind (hx : Leaves P Q (x s)) (hf : ∀ a s₁, x s = .ok a s₁ → P s₁ → Leaves P Q (f a s₁)) :
    Leaves P Q ((x >>= f) s) := by
  cases hrun : x s with
  | ok a s₁ =>
    rw [hrun] at hx
    rw [bind_of_ok hrun]
    exact hf a s₁ hrun hx
  | error e s₁ =>
    rw [hrun] at hx
    rw [bind_of_error hrun]
    exact hx

theorem of_error {r : EStateM.Result Error Emitter α} {e : Error} (h : Leaves P Q r)
    (hr : r = .error e s) : P s ∧ Q e := by
  rw [hr] at h
  exact h

/-- After a step that succeeds, such as reading or changing the state. -/
theorem after {a : α} {s₁ : Emitter} (hx : x s = .ok a s₁) (hf : Leaves P Q (f a s₁)) :
    Leaves P Q ((x >>= f) s) := by
  rw [bind_of_ok hx]
  exact hf

theorem lift {x : Except Error α} (hs : P s) (hx : ∀ e, x = .error e → Q e) :
    Leaves P Q ((liftM x : Emit α) s) := by
  cases x with
  | ok a => exact hs
  | error e => exact ⟨hs, hx e rfl⟩

theorem mapM {as : List α} (hf : ∀ a ∈ as, ∀ s, P s → Leaves P Q (f a s)) (hs : P s) :
    Leaves P Q (as.mapM f s) := by
  induction as generalizing s with
  | nil =>
    rw [List.mapM_nil]
    exact hs
  | cons a as ih =>
    rw [List.mapM_cons]
    refine bind (hf a List.mem_cons_self s hs) fun b s₁ _ hs₁ => ?_
    exact bind (ih (fun a ha => hf a (List.mem_cons_of_mem _ ha)) hs₁) fun _ _ _ h => h

theorem forM {f : α → Emit Unit} {as : List α} (hf : ∀ a ∈ as, ∀ s, P s → Leaves P Q (f a s))
    (hs : P s) : Leaves P Q (as.forM f s) := by
  induction as generalizing s with
  | nil => exact hs
  | cons a as ih =>
    rw [List.forM_eq_forM, List.forM_cons, ← List.forM_eq_forM]
    exact bind (hf a List.mem_cons_self s hs) fun _ s₁ _ hs₁ =>
      ih (fun a ha => hf a (List.mem_cons_of_mem _ ha)) hs₁

end Leaves

end Emit

/-- Looking up a key after entries were dropped by their keys. -/
theorem lookup_filter_key {α β : Type} [BEq α] [LawfulBEq α] (p : α → Bool)
    (entries : List (α × β)) (key : α) :
    (entries.filter (p ·.1)).lookup key = if p key then entries.lookup key else none := by
  induction entries with
  | nil => simp
  | cons entry rest ih =>
    obtain ⟨i, v⟩ := entry
    rw [List.filter_cons]
    by_cases hkey : key = i
    · subst hkey
      cases hp : p key <;> simp [hp, ih]
    · have hbeq : (key == i) = false := beq_eq_false_iff_ne.2 hkey
      cases hp : p i <;> simp [List.lookup_cons, hbeq, ih]

/-! ### The emitter, field by field -/

/-- The node that a line keeps in a temporary. -/
def Line.kept? : Line → Option NodeId
  | .define id _ _ _ | .store id _ _ => some id
  | _ => none

namespace Emitter

variable (s : Emitter)

/-- The lines written so far, without their indentation. -/
def lines : List Line :=
  s.rows.map Row.line

/-- Note a node as rendered. -/
def render (id : NodeId) : Emitter :=
  { s with rendered := s.rendered ++ [id] }

theorem isBound_iff {id : NodeId} : s.isBound id = true ↔ ∃ v, s.value? id = some v := by
  simp [isBound, Option.isSome_iff_exists]

theorem not_isBound_iff {id : NodeId} : s.isBound id = false ↔ s.value? id = none := by
  simp [isBound]

@[simp] theorem value?_render (id j : NodeId) : (s.render id).value? j = s.value? j := rfl

@[simp] theorem value?_write (l : Line) (j : NodeId) : (s.write l).value? j = s.value? j := rfl

@[simp] theorem value?_openScope (j : NodeId) : s.openScope.value? j = s.value? j := rfl

@[simp] theorem value?_bind (id j : NodeId) (v : Value) :
    (s.bind id v).value? j = if j = id then some v else s.value? j := by
  simp only [value?, bind, List.lookup_cons]
  by_cases h : j = id
  · simp [h]
  · simp [beq_eq_false_iff_ne.2 h, h]

@[simp] theorem lines_write (l : Line) : (s.write l).lines = s.lines ++ [l] := by
  simp [lines, write]

@[simp] theorem nextTemp_render (id : NodeId) (kind : TempKind) :
    (s.render id).nextTemp kind = s.nextTemp kind := rfl

@[simp] theorem lines_render (id : NodeId) : (s.render id).lines = s.lines := rfl

/-- Noting a value changes the innermost scope only. -/
theorem enterScope_eq (id : NodeId) :
    s.enterScope id = { s with scopes := s.scopes.modifyHead (· ++ [id]) } := by
  unfold enterScope
  split
  · rename_i h
    rw [h, List.modifyHead_nil, ← h]
  · rename_i h
    rw [h, List.modifyHead_cons]

/-! ### Keeping a value -/

section materialize

variable (cx : Context) (id : NodeId) (ty : Ty) (e : Expr) (keep : Bool)

/-- Whether the temporary of a kept value is declared apart from the line that assigns it. -/
def isApart (keep : Bool) : Bool :=
  keep && s.isNested

/-- The line that keeps a value. -/
def keepLine : Line :=
  if s.isApart keep then .store id (s.nextTemp .var) e
  else .define id (cx.metadata.declaredType ty) (s.nextTemp .var) e

theorem materialize_eq :
    s.materialize cx id ty e keep =
      { s with
        rows := s.rows ++ [⟨s.indent, s.keepLine cx id ty e keep⟩]
        counter := s.counter + 1
        declarations := s.declarations ++
          if s.isApart keep then [.scalar (cx.metadata.declaredType ty) (s.nextTemp .var)] else []
        bound := (id, ⟨ty, .temp (s.nextTemp .var)⟩) :: s.bound
        scopes := if keep then s.scopes else s.scopes.modifyHead (· ++ [id]) } := by
  have hnested : s.countTemp.isNested = s.isNested := rfl
  simp only [materialize, keepLine, isApart, hnested]
  cases keep with
  | true => by_cases h : s.isNested <;> simp [h, bind, declare, write, countTemp]
  | false => simp [bind, write, countTemp, enterScope_eq]

@[simp] theorem value?_materialize (j : NodeId) :
    (s.materialize cx id ty e keep).value? j =
      if j = id then some ⟨ty, .temp (s.nextTemp .var)⟩ else s.value? j := by
  rw [materialize_eq]
  exact s.value?_bind id j _

@[simp] theorem lines_materialize :
    (s.materialize cx id ty e keep).lines = s.lines ++ [s.keepLine cx id ty e keep] := by
  simp [materialize_eq, lines]

end materialize

/-! ### Kept nodes -/

/-- The nodes that the lines written so far keep in temporaries. -/
def kept : List NodeId :=
  s.lines.filterMap Line.kept?

@[simp] theorem kept_render (id : NodeId) : (s.render id).kept = s.kept := rfl

theorem kept_write {l : Line} (hl : l.kept? = none) : (s.write l).kept = s.kept := by
  rw [kept, lines_write, List.filterMap_append, List.filterMap_cons_none hl, List.filterMap_nil,
    List.append_nil, ← kept]

@[simp] theorem kept_materialize (cx : Context) (id : NodeId) (ty : Ty) (e : Expr) (keep : Bool) :
    (s.materialize cx id ty e keep).kept = s.kept ++ [id] := by
  have hkept : (s.keepLine cx id ty e keep).kept? = some id := by
    unfold keepLine
    split <;> rfl
  rw [kept, lines_materialize, List.filterMap_append, List.filterMap_cons_some hkept, ← kept]
  rfl

/-! ### Closing a scope -/

theorem value?_closeScope {scope : List NodeId} {rest : List (List NodeId)}
    (h : s.scopes = scope :: rest) (j : NodeId) :
    s.closeScope.value? j = if j ∈ scope then none else s.value? j := by
  simp only [closeScope, h, value?]
  rw [lookup_filter_key (!scope.contains ·)]
  by_cases hj : j ∈ scope <;> simp [hj]

theorem closeScope_eq {scope : List NodeId} {rest : List (List NodeId)}
    (h : s.scopes = scope :: rest) :
    s.closeScope = { s with
      indent := s.indent - 1
      scopes := rest
      bound := s.bound.filter (!scope.contains ·.1) } := by
  simp only [closeScope, h]

/-- What has a name after a scope is closed had it before. -/
theorem value?_of_closeScope {j : NodeId} {v : Value} (h : s.closeScope.value? j = some v) :
    s.value? j = some v := by
  cases hs : s.scopes with
  | nil =>
    simp only [closeScope, hs] at h
    exact h
  | cons scope rest =>
    rw [s.value?_closeScope hs] at h
    split_ifs at h
    exact h

@[simp] theorem counter_closeScope : s.closeScope.counter = s.counter := by
  unfold closeScope
  split <;> rfl

@[simp] theorem declarations_closeScope : s.closeScope.declarations = s.declarations := by
  unfold closeScope
  split <;> rfl

@[simp] theorem indent_closeScope : s.closeScope.indent = s.indent - 1 := by
  unfold closeScope
  split <;> rfl

@[simp] theorem rendered_closeScope : s.closeScope.rendered = s.rendered := by
  unfold closeScope
  split <;> rfl

@[simp] theorem lines_closeScope : s.closeScope.lines = s.lines := by
  unfold closeScope
  split <;> rfl

@[simp] theorem lines_openScope : s.openScope.lines = s.lines := rfl

@[simp] theorem kept_closeScope : s.closeScope.kept = s.kept := by
  rw [kept, lines_closeScope, ← kept]

/-! ### Lines written in between -/

/-- Lines with some property were written between two states, and nothing else. -/
def Adds (P : Line → Prop) (s s' : Emitter) : Prop :=
  ∃ new, s'.lines = s.lines ++ new ∧ ∀ l ∈ new, P l

namespace Adds

variable {P Q : Line → Prop} {s s' s₁ s₂ : Emitter}

theorem of_lines (h : s'.lines = s.lines) : Adds P s s' :=
  ⟨[], by simp [h], by simp⟩

theorem trans (h₁ : Adds P s s₁) (h₂ : Adds P s₁ s₂) : Adds P s s₂ := by
  obtain ⟨new₁, hlines₁, hnew₁⟩ := h₁
  obtain ⟨new₂, hlines₂, hnew₂⟩ := h₂
  refine ⟨new₁ ++ new₂, by rw [hlines₂, hlines₁, List.append_assoc], fun l hl => ?_⟩
  exact (List.mem_append.1 hl).elim (hnew₁ l) (hnew₂ l)

theorem mono (h : Adds P s s') (hPQ : ∀ l, P l → Q l) : Adds Q s s' := by
  obtain ⟨new, hlines, hnew⟩ := h
  exact ⟨new, hlines, fun l hl => hPQ l (hnew l hl)⟩

theorem write (h : Adds P s s') {l : Line} (hl : P l) : Adds P s (s'.write l) :=
  h.trans ⟨[l], s'.lines_write l, by simpa using hl⟩

/-- Whatever was written before or in between. -/
theorem of_mem (h : Adds P s s') {l : Line} (hl : l ∈ s'.lines) : l ∈ s.lines ∨ P l := by
  obtain ⟨new, hlines, hnew⟩ := h
  rw [hlines, List.mem_append] at hl
  exact hl.imp_right (hnew l)

end Adds

/-! ### The start -/

/-- Declare the temporary of one phi. -/
def declarePhi (cx : Context) (s : Emitter) (phi : Phi) : Emitter :=
  (s.countTemp.declare (.scalar (cx.metadata.declaredType phi.ty) (s.nextTemp .phi))).bind phi.id
    ⟨phi.ty, .temp (s.nextTemp .phi)⟩

/-- What declaring one phi preserves holds after all are declared. -/
theorem declarePhis_induct {P : Emitter → Prop} {cx : Context} {s : Emitter} (start : P s)
    (step : ∀ {s phi}, phi ∈ cx.graph.phis → P s → P (s.declarePhi cx phi)) :
    P (s.declarePhis cx) :=
  List.foldlRecOn cx.graph.phis _ start fun _ h _ hphi => step hphi h

theorem rendered_start (cx : Context) : (start cx).rendered = [] :=
  declarePhis_induct (P := fun s => s.rendered = []) rfl fun _ h => h

theorem scopes_start (cx : Context) : (start cx).scopes = [[]] :=
  declarePhis_induct (P := fun s => s.scopes = [[]]) rfl fun _ h => h

theorem indent_start (cx : Context) : (start cx).indent = 0 :=
  declarePhis_induct (P := fun s => s.indent = 0) rfl fun _ h => h

theorem opened_start (cx : Context) : (start cx).opened = [] :=
  declarePhis_induct (P := fun s => s.opened = []) rfl fun _ h => h

theorem labels_start (cx : Context) : (start cx).labels = [] :=
  declarePhis_induct (P := fun s => s.labels = []) rfl fun _ h => h

theorem lines_start (cx : Context) : (start cx).lines = [] :=
  declarePhis_induct (P := fun s => s.lines = []) rfl fun _ h => h

/-- One temporary is counted for each phi. -/
theorem counter_start (cx : Context) : (start cx).counter = cx.graph.phis.length := by
  have hcount : ∀ (phis : List Phi) (s : Emitter),
      (phis.foldl (declarePhi cx) s).counter = s.counter + phis.length := by
    intro phis
    induction phis with
    | nil => exact fun _ => rfl
    | cons phi phis ih =>
      intro s
      rw [List.foldl_cons, ih, List.length_cons]
      simp only [declarePhi, bind, declare, countTemp]
      omega
  exact (hcount cx.graph.phis {}).trans (Nat.zero_add _)

/-- Only phis have names at the start. -/
theorem value?_start {cx : Context} {id : NodeId} {v : Value}
    (h : (start cx).value? id = some v) :
    ∃ phi ∈ cx.graph.phis, phi.id = id ∧ ∃ t, v = ⟨phi.ty, .temp t⟩ := by
  have hphis : ∀ v, (declarePhis cx {}).value? id = some v →
      ∃ phi ∈ cx.graph.phis, phi.id = id ∧ ∃ t, v = ⟨phi.ty, .temp t⟩ := by
    apply declarePhis_induct (P := fun s => ∀ v, s.value? id = some v →
      ∃ phi ∈ cx.graph.phis, phi.id = id ∧ ∃ t, v = ⟨phi.ty, .temp t⟩)
    · intro v hv
      cases hv
    · intro s phi hphi ih v hv
      rw [declarePhi, value?_bind] at hv
      split_ifs at hv with hid
      · exact ⟨phi, hphi, hid.symm, _, (Option.some.inj hv).symm⟩
      · exact ih v hv
  exact hphis v h

end Emitter

/-- A phi of a graph is one of its nodes. -/
theorem get?_of_mem_phis {g : Graph} {phi : Phi} (h : phi ∈ g.phis) :
    g.get? phi.id = some ⟨.phi phi.predecessors, phi.ty, phi.inputs⟩ := by
  obtain ⟨id, _, hid⟩ := List.mem_filterMap.1 h
  unfold Graph.phi? at hid
  split at hid
  · rename_i hnode
    obtain rfl := Option.some.inj hid
    exact hnode
  · cases hid

end KernelForge.Source
