import KernelForge.Proofs.Events

/-!
# The points of a replay

The replay loop hands the events of a body to its sink in the order in which they are listed
(`replay_eq`). A point of a replay is given by the events that are done, those still to come and the
emitter between them; whatever one event preserves holds at every point (`Reached.induct`).
-/

namespace KernelForge

/-- The loop hands over the events of its steps, first to last. -/
theorem replaySteps_eq {m : Type → Type*} [Monad m] [LawfulMonad m] (sink : Event → m Unit)
    (steps : List Step) : replaySteps sink steps = (stepEvents steps).forM sink := by
  fun_induction replaySteps sink steps with
  | case1 => simp [stepEvents]
  | case2 event rest ih =>
    rw [stepEvents_cons, Step.events, List.singleton_append, List.forM_eq_forM, List.forM_cons, ih,
      List.forM_eq_forM]
  | case3 stmt rest ih =>
    rw [stepEvents_cons, Step.events, Stmt.events_eq, List.cons_append, ← stepEvents_append,
      List.forM_eq_forM, List.forM_cons, ih, List.forM_eq_forM]

theorem replay_eq {m : Type → Type*} [Monad m] [LawfulMonad m] (sink : Event → m Unit)
    (body : List Stmt) : replay sink body = (bodyEvents body).forM sink := by
  rw [replay, replaySteps_eq, stepEvents_visit]

end KernelForge

namespace KernelForge.Source

variable {cx : Context}

/-- `s` is the emitter after the events `done` of the body, with `rest` still to come. -/
structure Reached (cx : Context) (done rest : List Event) (s : Emitter) : Prop where
  events : done ++ rest = bodyEvents cx.method.body
  run : done.forM (emitEvent cx) (Emitter.start cx) = .ok () s

/-- A replay succeeds exactly if the point after all events is reached. -/
theorem replay_ok_iff {s : Emitter} :
    (replay (emitEvent cx) cx.method.body).run (Emitter.start cx) = .ok () s ↔
      Reached cx (bodyEvents cx.method.body) [] s := by
  rw [replay_eq]
  exact ⟨fun h => ⟨List.append_nil _, h⟩, Reached.run⟩

/-- A body that is emitted was replayed to its end. -/
theorem reached_of_emitBody {out : List String × String} (h : emitBody cx = .ok out) :
    ∃ s, Reached cx (bodyEvents cx.method.body) [] s ∧ s.finish cx = .ok out := by
  unfold emitBody at h
  cases hrun : (replay (emitEvent cx) cx.method.body).run (Emitter.start cx) with
  | ok _ s =>
    rw [hrun] at h
    exact ⟨s, replay_ok_iff.1 hrun, h⟩
  | error e s =>
    rw [hrun] at h
    cases h

theorem finish_ok {s : Emitter} {out : List String × String} (h : s.finish cx = .ok out) :
    s.opened = [] ∧ out.2 = s.text := by
  unfold Emitter.finish at h
  split at h
  · rename_i hopened
    obtain rfl := Except.ok.inj h
    exact ⟨hopened, rfl⟩
  · cases h

theorem finish_eq {s : Emitter} {out : List String × String} (h : s.finish cx = .ok out) :
    out = (s.declarations.map Declaration.render, s.text) := by
  unfold Emitter.finish at h
  split at h
  · exact (Except.ok.inj h).symm
  · cases h

/-- A replay that leaves no construct open emits a body. -/
theorem exists_emitBody
    (h : (Emit.done? (replay (emitEvent cx) cx.method.body) (Emitter.start cx)).any
      (·.2.opened.isEmpty) = true) : ∃ out, emitBody cx = .ok out := by
  cases hrun : replay (emitEvent cx) cx.method.body (Emitter.start cx) with
  | error e s =>
    rw [Emit.done?, hrun] at h
    cases h
  | ok _ s =>
    rw [Emit.done?_of_ok hrun] at h
    have hopened : s.opened = [] := by simpa using h
    refine ⟨(s.declarations.map Declaration.render, s.text), ?_⟩
    rw [emitBody, EStateM.run, hrun]
    simp only [Emitter.finish, hopened]

/-- What the emitter holds at the end of a replay is what running it gives. -/
theorem eq_of_reached {α : Type} {f : Emitter → α} {a : α} {s : Emitter}
    (h : Reached cx (bodyEvents cx.method.body) [] s)
    (ha : (Emit.done? (replay (emitEvent cx) cx.method.body) (Emitter.start cx)).map (f ·.2) =
      some a) : f s = a := by
  have hrun : replay (emitEvent cx) cx.method.body (Emitter.start cx) = .ok () s :=
    replay_ok_iff.2 h
  rw [Emit.done?_of_ok hrun] at ha
  exact Option.some.inj ha

namespace Reached

/-- A point after some event comes from the point before it. -/
theorem of_concat {done rest : List Event} {e : Event} {s' : Emitter}
    (h : Reached cx (done ++ [e]) rest s') :
    ∃ s, Reached cx done (e :: rest) s ∧ Emitted cx e s s' := by
  have hrun := h.run
  rw [List.forM_eq_forM, List.forM_append, Emit.bind_ok] at hrun
  obtain ⟨_, s, hdone, hlast⟩ := hrun
  rw [← List.forM_eq_forM, forM_cons_ok] at hlast
  obtain ⟨s₁, hevent, hnil⟩ := hlast
  obtain rfl := forM_nil_ok.1 hnil
  exact ⟨s, ⟨by rw [← h.events]; simp, hdone⟩, emitted_of_ok hevent⟩

/-- What holds at the start and is preserved by every event holds at every point. -/
theorem induct {motive : List Event → List Event → Emitter → Prop}
    (start : motive [] (bodyEvents cx.method.body) (Emitter.start cx))
    (step : ∀ {done rest : List Event} {e : Event} {s s' : Emitter},
      Reached cx done (e :: rest) s → Emitted cx e s s' → motive done (e :: rest) s →
        motive (done ++ [e]) rest s')
    {done rest : List Event} {s : Emitter} (h : Reached cx done rest s) : motive done rest s := by
  induction done using List.reverseRecOn generalizing rest s with
  | nil =>
    obtain rfl := forM_nil_ok.1 h.run
    rw [show rest = bodyEvents cx.method.body from h.events]
    exact start
  | append_singleton done e ih =>
    obtain ⟨s₀, hdone, hevent⟩ := h.of_concat
    exact step hdone hevent (ih hdone)

end Reached

end KernelForge.Source
