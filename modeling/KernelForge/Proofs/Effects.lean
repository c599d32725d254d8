import KernelForge.Proofs.Memory

/-!
# Side effects run where they were scheduled

A node with a side effect has to run once, at the statement that schedules it. If every side effect
that a statement reaches was scheduled before it, the emitter renders side effects in exactly the
order of the statements that schedule them: evaluating a condition, returning a value, assigning a phi
or binding a value before a construct renders none.
-/

namespace KernelForge.Source

open Relation

namespace Context

variable (cx : Context)

/-- A node takes the value of another one: it is one of its evaluated operands. A phi takes none. -/
def Takes : NodeId → NodeId → Prop :=
  cx.graph.LeadsTo fun _ node => cx.evaluated node

/-- The side effect that an event schedules. -/
def scheduled? : Event → Option NodeId
  | .effect id => if cx.isEffect id then some id else none
  | _ => none

/-- The side effects that events schedule, in order. -/
def scheduled (events : List Event) : List NodeId :=
  events.filterMap cx.scheduled?

/-- A list of nodes without the later repetitions of a node that has a value. -/
def dropRepeats (ids : List NodeId) : List NodeId :=
  ids.foldl (fun kept id => if !cx.isVoid id && kept.contains id then kept else kept ++ [id]) []

theorem dropRepeats_concat (ids : List NodeId) (id : NodeId) :
    cx.dropRepeats (ids ++ [id]) =
      if !cx.isVoid id && (cx.dropRepeats ids).contains id then cx.dropRepeats ids
      else cx.dropRepeats ids ++ [id] := by
  rw [dropRepeats, List.foldl_append]
  rfl

theorem mem_dropRepeats {ids : List NodeId} {id : NodeId} :
    id ∈ cx.dropRepeats ids ↔ id ∈ ids := by
  induction ids using List.reverseRecOn generalizing id with
  | nil => simp [dropRepeats]
  | append_singleton ids last ih =>
    rw [dropRepeats_concat]
    split_ifs with hlast
    · rw [Bool.and_eq_true, List.contains_iff_mem, ih] at hlast
      rw [ih, List.mem_append, List.mem_singleton]
      exact ⟨.inl, fun h => h.elim (fun h => h) fun h => h ▸ hlast.2⟩
    · simp [ih]

theorem mem_scheduled {events : List Event} {id : NodeId} (hid : cx.isEffect id) :
    id ∈ cx.scheduled events ↔ .effect id ∈ events := by
  rw [scheduled, List.mem_filterMap]
  constructor
  · rintro ⟨e, he, hsome⟩
    cases e with
    | effect other =>
      simp only [scheduled?] at hsome
      split_ifs at hsome
      exact Option.some.inj hsome ▸ he
    | _ => cases hsome
  · intro h
    exact ⟨_, h, by simp [scheduled?, hid]⟩

end Context

variable {cx : Context}

/-- Every side effect that a statement reaches is scheduled: it is the statement itself, or it has a
value and was scheduled before. -/
def Scheduled (cx : Context) : Prop :=
  ∀ {done rest : List Event} {e : Event} {root id : NodeId},
    done ++ e :: rest = bodyEvents cx.method.body → root ∈ e.roots cx →
      ReflTransGen cx.Takes root id → cx.isEffect id →
        e = .effect id ∨ cx.isVoid id = false ∧ .effect id ∈ done

namespace Context

variable (cx)

/-- Whether the side effects that the events of a list reach are scheduled, given those done. -/
def isScheduledAfter (done : List Event) : List Event → Bool
  | [] => true
  | e :: rest =>
    (cx.graph.visit (fun _ node => cx.evaluated node) (e.roots cx)).all (fun id =>
      !cx.isEffect id || e == .effect id || !cx.isVoid id && done.contains (.effect id)) &&
    isScheduledAfter (done ++ [e]) rest

theorem isScheduledAfter_cons {done later : List Event}
    (h : cx.isScheduledAfter done later) {e : Event} {mid rest : List Event} {root id : NodeId}
    (hlater : mid ++ e :: rest = later) (hroot : root ∈ e.roots cx)
    (hreach : ReflTransGen cx.Takes root id) (hid : cx.isEffect id) :
    e = .effect id ∨ cx.isVoid id = false ∧ .effect id ∈ done ++ mid := by
  induction mid generalizing done later with
  | nil =>
    obtain rfl : e :: rest = later := hlater
    rw [isScheduledAfter, Bool.and_eq_true, List.all_eq_true] at h
    have hcheck := h.1 id (Graph.mem_visit_iff.2 ⟨root, hroot, hreach⟩)
    simpa [hid] using hcheck
  | cons first mid ih =>
    obtain rfl : first :: (mid ++ e :: rest) = later := hlater
    rw [isScheduledAfter, Bool.and_eq_true] at h
    simpa using ih h.2 rfl

/-- Scheduling can be checked. -/
theorem scheduled_of_isScheduledAfter
    (h : cx.isScheduledAfter [] (bodyEvents cx.method.body)) : Scheduled cx :=
  fun hdone hroot hreach hid => cx.isScheduledAfter_cons h hdone hroot hreach hid

end Context

/-! ### The invariant -/

/-- After some events the side effects rendered are those that were scheduled, and those with a value
have names that no scope takes away. -/
structure EffectsInOrder (cx : Context) (done : List Event) (s : Emitter) : Prop where
  rendered : s.rendered.filter cx.isEffect = cx.dropRepeats (cx.scheduled done)
  bound : ∀ {id v}, s.value? id = some v → cx.isEffect id →
    cx.isVoid id = false ∧ .effect id ∈ done
  ran : ∀ {id}, .effect id ∈ done → cx.isEffect id → cx.isVoid id = false →
    ∃ v, s.value? id = some v
  scopes : ∀ scope ∈ s.scopes, ∀ id ∈ scope, cx.isEffect id = false

theorem effectsInOrder_start : EffectsInOrder cx [] (Emitter.start cx) := by
  refine ⟨?_, fun hv hid => ?_, (fun h => by cases h), ?_⟩
  · rw [Emitter.rendered_start]
    rfl
  · obtain ⟨phi, hphi, rfl, _⟩ := Emitter.value?_start hv
    rw [isEffect_of_mem_phis hphi] at hid
    cases hid
  · rw [Emitter.scopes_start]
    simp

namespace EffectsInOrder

variable {done : List Event} {s s' : Emitter}

theorem sameMemory (h : EffectsInOrder cx done s) (hs : SameMemory s s') :
    EffectsInOrder cx done s' := by
  refine ⟨hs.rendered ▸ h.rendered, fun hv => h.bound (hs.value? _ ▸ hv), fun hid he hv => ?_,
    hs.scopes ▸ h.scopes⟩
  rw [hs.value?]
  exact h.ran hid he hv

theorem openScope (h : EffectsInOrder cx done s) : EffectsInOrder cx done s.openScope := by
  refine ⟨h.rendered, h.bound, h.ran, fun scope hscope => ?_⟩
  rcases List.mem_cons.1 hscope with rfl | hscope
  · simp
  · exact h.scopes scope hscope

theorem closeScope (h : EffectsInOrder cx done s) : EffectsInOrder cx done s.closeScope := by
  cases hs : s.scopes with
  | nil =>
    refine h.sameMemory ?_
    simp only [Emitter.closeScope, hs]
    exact ⟨rfl, hs.symm, rfl, rfl, rfl⟩
  | cons scope rest =>
    refine ⟨?_, fun {id v} hv hid => ?_, fun {id} hid he hvoid => ?_, fun other hother => ?_⟩
    · rw [s.closeScope_eq hs]
      exact h.rendered
    · rw [s.value?_closeScope hs] at hv
      split_ifs at hv
      exact h.bound hv hid
    · have hpure : id ∉ scope := fun hmem => by
        rw [h.scopes scope (hs ▸ List.mem_cons_self) id hmem] at he
        cases he
      rw [s.value?_closeScope hs, if_neg hpure]
      exact h.ran hid he hvoid
    · rw [s.closeScope_eq hs] at hother
      exact h.scopes other (hs ▸ List.mem_cons_of_mem _ hother)

theorem change (h : EffectsInOrder cx done s) (c : ScopeChange) :
    EffectsInOrder cx done (s.change c) := by
  cases c with
  | keep => exact h
  | enter => exact h.openScope
  | leave => exact h.closeScope
  | swap => exact h.closeScope.openScope

/-- A state that differs in pure values only keeps the invariant. -/
theorem extend (h : EffectsInOrder cx done s)
    (hrendered : s'.rendered.filter cx.isEffect = s.rendered.filter cx.isEffect)
    (hnames : ∀ {id v}, s.value? id = some v → s'.value? id = some v)
    (hfresh : ∀ {id v}, s.value? id = none → s'.value? id = some v → cx.isEffect id = false)
    (hscopes : ∃ new, s'.scopes = s.scopes.modifyHead (· ++ new) ∧
      ∀ id ∈ new, cx.isEffect id = false) : EffectsInOrder cx done s' := by
  obtain ⟨new, hscope, hpure⟩ := hscopes
  refine ⟨hrendered.trans h.rendered, fun {id v} hv hid => ?_, fun hid he hvoid => ?_,
    fun other hother => ?_⟩
  · cases hs : s.value? id with
    | some w => exact h.bound hs hid
    | none =>
      rw [hfresh hs hv] at hid
      cases hid
  · obtain ⟨v, hv⟩ := h.ran hid he hvoid
    exact ⟨v, hnames hv⟩
  · rw [hscope] at hother
    exact pure_of_modifyHead h.scopes hpure other hother

/-- An evaluation that renders no side effect keeps the invariant. -/
theorem evaluates {ids : List NodeId} {vs : List Value} (h : EffectsInOrder cx done s)
    (heval : Evaluates cx ids s vs s') (hpure : ∀ new, Renders cx ids s s' new →
      ∀ id ∈ new, cx.isEffect id = false) : EffectsInOrder cx done s' := by
  obtain ⟨new, hnew⟩ := heval.renders
  obtain ⟨scope, hscope, hlocal⟩ := heval.extends.scopes
  have hnone : new.filter cx.isEffect = [] :=
    List.filter_eq_nil_iff.2 fun id hid => by simp [hpure new hnew id hid]
  refine h.extend ?_ heval.value?_of_some (fun hs hv => hpure new hnew _ (hnew.fresh _ _ hs hv).1)
    ⟨scope, hscope, fun id hid => (hlocal id hid).pure⟩
  rw [hnew.rendered, List.filter_append, hnone, List.append_nil]

end EffectsInOrder

/-! ### What an evaluation renders -/

theorem reaches_of_demands {s : Emitter} {a b : NodeId} (h : ReflTransGen (Demands cx s) a b) :
    ReflTransGen cx.Takes a b :=
  ReflTransGen.mono (fun _ _ hd => hd.2) a b h

/-- A value that can be evaluated early needs no side effect. -/
theorem isEffect_of_available {s : Emitter} {unstable : List NodeId} {id m : NodeId}
    (havail : isAvailable cx s unstable id = .ok true) (hm : s.value? m = none)
    (h : ReflTransGen (Demands cx s) id m) : cx.isEffect m = false := by
  have hneeded : m ∈ needed cx s id := by
    refine Graph.mem_visit_iff.2 ⟨id, List.mem_singleton_self id, ReflTransGen.mono ?_ id m h⟩
    rintro a b ⟨ha, node, hnode, hb⟩
    refine ⟨node, hnode, ?_⟩
    simpa [s.not_isBound_iff.2 ha] using hb
  have hclear : obstacle? cx s unstable m = none := by
    unfold isAvailable at havail
    split at havail
    · rename_i hnone
      simpa using List.findSome?_eq_none_iff.1 hnone m hneeded
    · cases havail
    · cases havail
  cases hnode : cx.graph.get? m with
  | none => simp [Context.isEffect, hnode]
  | some node =>
    rw [isEffect_of_get? hnode]
    simp only [obstacle?, s.not_isBound_iff.2 hm, hnode, Bool.false_eq_true, if_false] at hclear
    split_ifs at hclear with _ heffect
    exact Bool.eq_false_iff.2 heffect

section step

variable {done rest : List Event} {e : Event} {s s' : Emitter}

/-- Whatever side effect a statement renders is the one that it schedules. -/
theorem eq_effect_of_rendered (hsched : Scheduled cx)
    (hdone : done ++ e :: rest = bodyEvents cx.method.body) (h : EffectsInOrder cx done s)
    {root id : NodeId} {new : List NodeId} (hroot : root ∈ e.roots cx)
    (hnew : Renders cx [root] s s' new) (hid : id ∈ new) (heffect : cx.isEffect id) :
    e = .effect id := by
  obtain ⟨_, hmem, hreach⟩ := hnew.demanded id hid
  obtain rfl := List.mem_singleton.1 hmem
  have htakes := reaches_of_demands hreach
  rcases hsched hdone hroot htakes heffect with he | ⟨hvoid, hbefore⟩
  · exact he
  · obtain ⟨v, hv⟩ := h.ran hbefore heffect hvoid
    rw [hnew.unbound id hid] at hv
    cases hv

/-- An event that schedules no side effect renders none. -/
theorem EffectsInOrder.act {plan : Plan} (hsched : Scheduled cx)
    (hdone : done ++ e :: rest = bodyEvents cx.method.body) (hnone : cx.scheduled? e = none)
    (hact : Act cx plan e s s') (h : EffectsInOrder cx done s) : EffectsInOrder cx done s' := by
  have hother : ∀ id, cx.isEffect id → e ≠ .effect id := by
    rintro id hid rfl
    simp [Context.scheduled?, hid] at hnone
  cases hact with
  | evaluate hroot heval =>
    refine h.evaluates heval fun new hnew id hid => Bool.eq_false_iff.2 fun heffect => ?_
    exact hother id heffect (eq_effect_of_rendered hsched hdone h hroot hnew hid heffect)
  | bind hplanned hv havail heval =>
    refine h.evaluates heval fun new hnew id hid => ?_
    obtain ⟨_, hmem, hreach⟩ := hnew.demanded id hid
    obtain rfl := List.mem_singleton.1 hmem
    exact isEffect_of_available havail (hnew.unbound id hid) hreach
  | @pin id _ _ hplanned hv hsame =>
    have hpinned : EffectsInOrder cx done { s with pinned := id :: s.pinned } :=
      ⟨h.rendered, h.bound, h.ran, h.scopes⟩
    exact hpinned.sameMemory hsame
  | @fresh id node _ _ he hnode hkept hvoid hv =>
    have hpure : cx.isEffect id = false := Bool.eq_false_iff.2 fun hid => hother id hid he
    refine h.extend ?_ (fun {j v} hj => ?_) (fun {j v} hj hv => ?_) ⟨[id], ?_, ?_⟩
    · rw [Emitter.materialize_eq]
    · rw [Emitter.value?_materialize, if_neg, hj]
      rintro rfl
      rw [hv] at hj
      cases hj
    · rw [Emitter.value?_materialize] at hv
      split_ifs at hv with hid
      · exact hid ▸ hpure
      · rw [hj] at hv
        cases hv
    · rw [Emitter.materialize_eq]
      rfl
    · exact fun j hj => List.mem_singleton.1 hj ▸ hpure
  | note hsame => exact h.sameMemory hsame

/-- An event that schedules no side effect leaves the side effects as they are. -/
theorem EffectsInOrder.emitted_of_none (hsched : Scheduled cx)
    (hdone : done ++ e :: rest = bodyEvents cx.method.body) (hnone : cx.scheduled? e = none)
    (he : Emitted cx e s s') (h : EffectsInOrder cx done s) : EffectsInOrder cx done s' := by
  obtain ⟨m, hacts, -, hsame⟩ := he.acts
  have hm : EffectsInOrder cx done m := by
    clear hsame
    induction hacts with
    | refl => exact h
    | tail _ hact ih => exact ih.act hsched hdone hnone hact
  exact (hm.change _).sameMemory hsame

/-- The first statement that schedules a side effect renders it. -/
theorem EffectsInOrder.evaluates_effect {id : NodeId} {v : Value} (hsched : Scheduled cx)
    (hdone : done ++ .effect id :: rest = bodyEvents cx.method.body) (hid : cx.isEffect id)
    (hv : s.value? id = none) (heval : Evaluates cx [id] s [v] s')
    (h : EffectsInOrder cx done s) : EffectsInOrder cx (done ++ [.effect id]) s' := by
  obtain ⟨new, hnew, hroot⟩ := heval.renders_root hv
  obtain ⟨scope, hscope, hlocal⟩ := heval.extends.scopes
  have hown : ∀ {m}, m ∈ new ++ [id] → cx.isEffect m → m = id := fun hm heffect => by
    have he := eq_effect_of_rendered hsched hdone h List.mem_cons_self hnew hm heffect
    injection he with he
    exact he.symm
  have hnone : new.filter cx.isEffect = [] := List.filter_eq_nil_iff.2 fun m hm heffect =>
    hroot (hown (List.mem_append_left _ hm) heffect ▸ hm)
  have hunseen : cx.isVoid id = false → .effect id ∉ done := fun hvoid hmem => by
    obtain ⟨w, hw⟩ := h.ran hmem hid hvoid
    rw [hv] at hw
    cases hw
  refine ⟨?_, fun {m w} hm heffect => ?_, fun {m} hm heffect hvoid => ?_, ?_⟩
  · have hlast : cx.scheduled (done ++ [.effect id]) = cx.scheduled done ++ [id] := by
      simp [Context.scheduled, Context.scheduled?, hid]
    rw [hnew.rendered, List.filter_append, List.filter_append, hnone, h.rendered, hlast,
      cx.dropRepeats_concat, if_neg]
    · simp [hid]
    · rw [Bool.and_eq_true, List.contains_iff_mem, cx.mem_dropRepeats, cx.mem_scheduled hid]
      rintro ⟨hvoid, hmem⟩
      exact hunseen (by simpa using hvoid) hmem
  · cases hs : s.value? m with
    | some u =>
      obtain ⟨hvoid, hmem⟩ := h.bound hs heffect
      exact ⟨hvoid, List.mem_append_left _ hmem⟩
    | none =>
      obtain ⟨hmem, hkept⟩ := hnew.fresh m w hs hm
      rw [keeps_iff_of_isEffect heffect] at hkept
      exact ⟨hkept, by simp [hown hmem heffect]⟩
  · rcases List.mem_append.1 hm with hm | hm
    · obtain ⟨w, hw⟩ := h.ran hm heffect hvoid
      exact ⟨w, heval.value?_of_some hw⟩
    · obtain rfl : m = id := by simpa using hm
      exact hnew.bound m (by simp) ((keeps_iff_of_isEffect heffect).2 hvoid)
  · rw [hscope]
    exact pure_of_modifyHead h.scopes fun m hm => (hlocal m hm).pure

/-- A statement that schedules a side effect renders it, unless it has a value and ran before. -/
theorem EffectsInOrder.emitted_effect {id : NodeId} (hsched : Scheduled cx)
    (hdone : done ++ .effect id :: rest = bodyEvents cx.method.body) (hid : cx.isEffect id)
    (he : Emitted cx (.effect id) s s') (h : EffectsInOrder cx done s) :
    EffectsInOrder cx (done ++ [.effect id]) s' := by
  cases he with
  | @effectKnown _ _ v hv =>
    obtain ⟨hvoid, hmem⟩ := h.bound hv hid
    refine ⟨?_, fun hw heffect => ?_, fun {m} hm heffect hvoid' => ?_, h.scopes⟩
    · have hlast : cx.scheduled (done ++ [.effect id]) = cx.scheduled done ++ [id] := by
        simp [Context.scheduled, Context.scheduled?, hid]
      rw [h.rendered, hlast, cx.dropRepeats_concat, if_pos]
      rw [Bool.and_eq_true, List.contains_iff_mem, cx.mem_dropRepeats, cx.mem_scheduled hid]
      exact ⟨by simp [hvoid], hmem⟩
    · obtain ⟨hvoid, hmem⟩ := h.bound hw heffect
      exact ⟨hvoid, List.mem_append_left _ hmem⟩
    · rcases List.mem_append.1 hm with hm | hm
      · exact h.ran hm heffect hvoid'
      · obtain rfl : m = id := by simpa using hm
        exact ⟨v, hv⟩
  | effectVoid hv hnode hvoid heval =>
    exact (h.evaluates_effect hsched hdone hid hv heval).sameMemory (.write _ _ rfl)
  | effectKept hv hnode hvoid heval hv₁ => exact h.evaluates_effect hsched hdone hid hv heval
  | effectFresh hv hnode hvoid heval hv₁ =>
    -- a side effect with a value has been kept
    have hkept := heval.isKept_of_value? hnode hv₁
    rw [isEffect_of_get? hnode] at hid
    simp [Context.isKept, hvoid, hid] at hkept

end step

/-- Every event keeps the side effects in order. -/
theorem EffectsInOrder.emitted {done rest : List Event} {e : Event} {s s' : Emitter}
    (hsched : Scheduled cx) (hdone : done ++ e :: rest = bodyEvents cx.method.body)
    (he : Emitted cx e s s') (h : EffectsInOrder cx done s) :
    EffectsInOrder cx (done ++ [e]) s' := by
  cases hnone : cx.scheduled? e with
  | some id =>
    obtain ⟨rfl, hid⟩ : e = .effect id ∧ cx.isEffect id := by
      cases e with
      | effect other =>
        simp only [Context.scheduled?] at hnone
        split_ifs at hnone with hother
        obtain rfl := Option.some.inj hnone
        exact ⟨rfl, hother⟩
      | _ => cases hnone
    exact h.emitted_effect hsched hdone hid he
  | none =>
    have hs := h.emitted_of_none hsched hdone hnone he
    refine ⟨?_, fun hv heffect => ?_, fun {m} hm heffect => ?_, hs.scopes⟩
    · rw [hs.rendered]
      simp [Context.scheduled, hnone]
    · obtain ⟨hvoid, hmem⟩ := hs.bound hv heffect
      exact ⟨hvoid, List.mem_append_left _ hmem⟩
    · rcases List.mem_append.1 hm with hm | hm
      · exact hs.ran hm heffect
      · obtain rfl : e = .effect m := (List.mem_singleton.1 hm).symm
        simp [Context.scheduled?, heffect] at hnone

theorem Reached.effectsInOrder {done rest : List Event} {s : Emitter} (hsched : Scheduled cx)
    (h : Reached cx done rest s) : EffectsInOrder cx done s :=
  h.induct (motive := fun done _ s => EffectsInOrder cx done s) effectsInOrder_start
    fun hreached he hs => hs.emitted hsched hreached.events he

/-- The side effects that a replay renders are those that the body schedules, in the order of the
body, a repetition of one with a value left out. An event other than a scheduled statement renders
none. -/
theorem rendered_effects_eq_scheduled {s : Emitter} (hsched : Scheduled cx)
    (h : (replay (emitEvent cx) cx.method.body).run (Emitter.start cx) = .ok () s) :
    s.rendered.filter cx.isEffect = cx.dropRepeats (cx.scheduled (bodyEvents cx.method.body)) ∧
      ∀ {done rest e s₀ s₁}, Reached cx done (e :: rest) s₀ → emitEvent cx e s₀ = .ok () s₁ →
        (∀ id, e ≠ .effect id) →
          s₁.rendered.filter cx.isEffect = s₀.rendered.filter cx.isEffect := by
  refine ⟨((replay_ok_iff.1 h).effectsInOrder hsched).rendered, ?_⟩
  intro done rest e s₀ s₁ hreached he hother
  have hnone : cx.scheduled? e = none := by
    cases e with
    | effect id => exact absurd rfl (hother id)
    | _ => rfl
  have hs₀ := hreached.effectsInOrder hsched
  rw [(hs₀.emitted_of_none hsched hreached.events hnone (emitted_of_ok he)).rendered, hs₀.rendered]

/-- A load that is scheduled twice and read in a branch. -/
def loadInBranch : Context where
  cls := { name := ⟨"Kernel"⟩ }
  method :=
    { name := "run"
      params := [⟨"n", .int⟩, ⟨"xs", .array .int⟩]
      graph := ⟨#[.param 0 .int, .param 1 (.array .int), .int 0, ⟨.arrayLoad, .int, [1, 2]⟩,
        ⟨.binary .add, .int, [3, 2]⟩, .arrayStore 1 2 4, .compare .lt 0 2, .branch 6]⟩
      body := [.effect 3, .branch 7 [.effect 5] [], .effect 3] }

theorem rendered_effects_eq_scheduled_loadInBranch :
    ∃ s, (replay (emitEvent loadInBranch) loadInBranch.method.body).run
        (Emitter.start loadInBranch) = .ok () s ∧
      s.rendered.filter loadInBranch.isEffect = [3, 5] := by
  have hsched : Scheduled loadInBranch :=
    loadInBranch.scheduled_of_isScheduledAfter (by cbv)
  obtain ⟨_, s, hrun⟩ := Emit.exists_ok (replay (emitEvent loadInBranch) loadInBranch.method.body)
    (Emitter.start loadInBranch) (by cbv)
  refine ⟨s, hrun, ?_⟩
  rw [(rendered_effects_eq_scheduled hsched hrun).1]
  decide

end KernelForge.Source
