import Mathlib
import KernelForge.Launch.Cache

/-!
# Callers of the cache at the same time

Callers ask the cache for artifacts at the same time, each going through the steps of `getOrBuild`
on its own. A slot has a lock; a caller builds while it holds the lock of its slot, and callers of
the same key wait for it. A state of all callers and the cache is a `Traffic`, and `Step` says what
a caller can do next. Nothing is assumed about the order in which callers do their steps, nor about
how a build ends.

`Orderly` is kept by every step (`Orderly.step`). From it come the statements about all callers: a
key is built by one caller at a time, and never again after a build of it has succeeded
(`one_build_of_a_key`). A caller that nobody interrupts does what `getOrBuild` does
(`Runs.alone`).
-/

namespace KernelForge.Launch

variable {ι κ α ε : Type}

/-- Where a caller is. From `looking` to `leaving` it holds the lock of its slot. -/
inductive Stage (α ε : Type)
  /-- It is about to look up the slot of its key. -/
  | asking
  | waiting (slot : Nat)
  | looking (slot : Nat)
  /-- It found its slot empty and is about to see whether it is still the current one. -/
  | checking (slot : Nat)
  | building (slot : Nat)
  /-- Its build is over, and nobody else knows how it ended. -/
  | built (slot : Nat) (result : Except ε α)
  /-- It is about to give the lock back, to return a result or to begin anew. -/
  | leaving (slot : Nat) (result : Option (Except ε α))
  | returned (result : Except ε α)

namespace Stage

/-- The slot whose lock a caller holds. -/
def locked? : Stage α ε → Option Nat
  | asking | waiting _ | returned _ => none
  | looking id | checking id | building id | built id _ | leaving id _ => some id

/-- The slot that a caller has looked up. -/
def slot? : Stage α ε → Option Nat
  | asking | returned _ => none
  | waiting id | looking id | checking id | building id | built id _ | leaving id _ => some id

/-- Whether a caller is going to fill a slot or to see that it is not needed. -/
def Attends (id : Nat) : Stage α ε → Prop
  | waiting j | looking j | checking j | building j | built j _ => j = id
  | asking | leaving _ _ | returned _ => False

/-- Where a caller is after it has given its lock back. -/
def after : Option (Except ε α) → Stage α ε
  | none => asking
  | some result => returned result

@[simp] theorem locked?_after (result : Option (Except ε α)) : (after result).locked? = none := by
  cases result <;> rfl

@[simp] theorem slot?_after (result : Option (Except ε α)) : (after result).slot? = none := by
  cases result <;> rfl

end Stage

/-- A cache, the locks of its slots and all its callers. -/
structure Traffic (ι κ α ε : Type) where
  cache : Cache κ α := {}
  holder : Nat → Option ι := fun _ => none
  stage : ι → Stage α ε := fun _ => .asking

/-- What happens to builds. -/
inductive BuildEvent (ι α ε : Type)
  | started (caller : ι)
  | ended (caller : ι) (result : Except ε α)

/-- The caller whose build it is. -/
def BuildEvent.caller : BuildEvent ι α ε → ι
  | started i | ended i _ => i

variable [DecidableEq ι] [DecidableEq κ]

namespace Traffic

/-- The state with a caller at another stage. -/
def move (t : Traffic ι κ α ε) (i : ι) (stage : Stage α ε) : Traffic ι κ α ε :=
  { t with stage := Function.update t.stage i stage }

/-- One step of a caller, and what it means for its build. Only taking a lock can be impossible. -/
inductive Step (key : ι → κ) (t : Traffic ι κ α ε) (i : ι) :
    Option (BuildEvent ι α ε) → Traffic ι κ α ε → Prop
  | ask (h : t.stage i = .asking) :
      Step key t i none
        { t.move i (.waiting (t.cache.slot (key i)).1) with cache := (t.cache.slot (key i)).2 }
  | lock {id : Nat} (h : t.stage i = .waiting id) (hfree : t.holder id = none) :
      Step key t i none
        { t.move i (.looking id) with holder := Function.update t.holder id (some i) }
  | find {id : Nat} {a : α} (h : t.stage i = .looking id) (ha : t.cache.artifact? id = some a) :
      Step key t i none (t.move i (.leaving id (some (.ok a))))
  | miss {id : Nat} (h : t.stage i = .looking id) (ha : t.cache.artifact? id = none) :
      Step key t i none (t.move i (.checking id))
  | retry {id : Nat} (h : t.stage i = .checking id)
      (hcurrent : t.cache.isCurrent (key i) id = false) :
      Step key t i none (t.move i (.leaving id none))
  | start {id : Nat} (h : t.stage i = .checking id)
      (hcurrent : t.cache.isCurrent (key i) id = true) :
      Step key t i (some (.started i)) (t.move i (.building id))
  | finish {id : Nat} (h : t.stage i = .building id) (result : Except ε α) :
      Step key t i (some (.ended i result)) (t.move i (.built id result))
  | publish {id : Nat} {a : α} (h : t.stage i = .built id (.ok a)) :
      Step key t i none
        { t.move i (.leaving id (some (.ok a))) with cache := t.cache.publish id a }
  | discard {id : Nat} {e : ε} (h : t.stage i = .built id (.error e)) :
      Step key t i none
        { t.move i (.leaving id (some (.error e))) with cache := t.cache.discard (key i) id }
  | unlock {id : Nat} {result : Option (Except ε α)} (h : t.stage i = .leaving id result) :
      Step key t i none
        { t.move i (.after result) with holder := Function.update t.holder id none }

/-- The states that callers can reach from an empty cache, with what happened to builds so far. -/
inductive Runs (key : ι → κ) : List (BuildEvent ι α ε) → Traffic ι κ α ε → Prop
  | nil : Runs key [] {}
  | snoc {events : List (BuildEvent ι α ε)} {t t' : Traffic ι κ α ε} {i : ι}
      {event : Option (BuildEvent ι α ε)} (h : Runs key events t) (hstep : Step key t i event t') :
      Runs key (events ++ event.toList) t'

variable {key : ι → κ} {events : List (BuildEvent ι α ε)} {t t' : Traffic ι κ α ε} {i : ι}
  {event : Option (BuildEvent ι α ε)}

/-! ### What every step keeps -/

/-- The lock of a slot is held by who is at a stage that needs it. -/
def Locked (t : Traffic ι κ α ε) : Prop :=
  ∀ id i, t.holder id = some i ↔ (t.stage i).locked? = some id

/-- Every slot was made for one key: that of the callers that look at it. -/
def Keyed (key : ι → κ) (t : Traffic ι κ α ε) : Prop :=
  ∃ made : List κ, made.length = t.cache.slots.length ∧
    (∀ i id, (t.stage i).slot? = some id → made[id]? = some (key i)) ∧
    ∀ k id, t.cache.current.get? k = some id → made[id]? = some k

/-- What the caller `i` of a key can rely on at a stage. -/
def Knows (cache : Cache κ α) (events : List (BuildEvent ι α ε)) (i : ι) (k : κ) :
    Stage α ε → Prop
  | .asking | .waiting _ | .looking _ | .leaving _ none => True
  | .checking id => cache.artifact? id = none
  | .building id => cache.artifact? id = none ∧ cache.current.get? k = some id
  | .built id result =>
    cache.artifact? id = none ∧ cache.current.get? k = some id ∧ .ended i result ∈ events
  | .leaving _ (some (.ok a)) | .returned (.ok a) => cache.get? k = some a
  | .leaving _ (some (.error e)) | .returned (.error e) => .ended i (.error e) ∈ events

/-- Artifacts come from builds that have succeeded, and are where their key finds them. -/
structure Stored (key : ι → κ) (events : List (BuildEvent ι α ε)) (t : Traffic ι κ α ε) : Prop where
  current : ∀ id a, t.cache.artifact? id = some a → ∃ k, t.cache.current.get? k = some id
  built : ∀ k a, t.cache.get? k = some a → ∃ i, key i = k ∧ .ended i (.ok a) ∈ events
  /-- The artifact of a build is in the cache, or about to be put there. -/
  stored : ∀ i a, .ended i (.ok a) ∈ events →
    t.cache.get? (key i) = some a ∨ ∃ id, t.stage i = .built id (.ok a)
  /-- Somebody takes care of an empty slot. -/
  attended : ∀ k id, t.cache.current.get? k = some id → t.cache.artifact? id = none →
    ∃ i, key i = k ∧ (t.stage i).Attends id

/-- After a build has succeeded nothing happens to builds of its key any more. -/
def SucceedOnce (key : ι → κ) (events : List (BuildEvent ι α ε)) : Prop :=
  events.Pairwise fun x y => ∀ i a, x = .ended i (.ok a) → key y.caller ≠ key i

/-- What holds in every state that callers can reach. -/
structure Orderly (key : ι → κ) (events : List (BuildEvent ι α ε)) (t : Traffic ι κ α ε) :
    Prop where
  locked : Locked t
  keyed : Keyed key t
  knows : ∀ i, Knows t.cache events i (key i) (t.stage i)
  stored : Stored key events t
  once : SucceedOnce key events

omit [DecidableEq κ] in
@[simp] theorem stage_move (t : Traffic ι κ α ε) (i j : ι) (stage : Stage α ε) :
    (t.move i stage).stage j = if j = i then stage else t.stage j :=
  Function.update_apply t.stage i stage j

omit [DecidableEq κ] in
theorem Locked.move (h : Locked t) {stage : Stage α ε}
    (hsame : stage.locked? = (t.stage i).locked?) : Locked (t.move i stage) := by
  intro id j
  rw [stage_move]
  by_cases hj : j = i
  · rw [if_pos hj, hsame, ← hj]
    exact h id j
  · rw [if_neg hj]
    exact h id j

theorem Locked.step (h : Locked t) (hstep : Step key t i event t') : Locked t' := by
  cases hstep with
  | ask hi | find hi _ | miss hi _ | retry hi _ | start hi _ | finish hi _ | publish hi
  | discard hi =>
    apply Locked.move h
    rw [hi]
    rfl
  | @lock id hi hfree =>
    intro j k
    have := h j k
    simp only [Function.update_apply, stage_move]
    grind [Stage.locked?]
  | @unlock id result hi =>
    intro j k
    have := h j k
    have := h id i
    simp only [Function.update_apply, stage_move]
    grind [Stage.locked?, Stage.locked?_after]

omit [DecidableEq ι] in
/-- Slots stay in order if none is added and keys find the same slots as before or none. -/
theorem Keyed.of_le (h : Keyed key t) (hlength : t'.cache.slots.length = t.cache.slots.length)
    (hcurrent : ∀ k id, t'.cache.current.get? k = some id → t.cache.current.get? k = some id)
    (hstage : ∀ j id, (t'.stage j).slot? = some id → (t.stage j).slot? = some id) :
    Keyed key t' := by
  obtain ⟨made, hmade, hcallers, hkeys⟩ := h
  refine ⟨made, hmade.trans hlength.symm, ?_, ?_⟩
  · intro j id hj
    exact hcallers j id (hstage j id hj)
  · intro k id hk
    exact hkeys k id (hcurrent k id hk)

omit [DecidableEq κ] in
theorem slot?_move {stage : Stage α ε}
    (hsame : ∀ id, stage.slot? = some id → (t.stage i).slot? = some id) (j : ι) (id : Nat)
    (hj : ((t.move i stage).stage j).slot? = some id) : (t.stage j).slot? = some id := by
  rw [stage_move] at hj
  split_ifs at hj with hji
  · rw [hji]
    exact hsame id hj
  · exact hj

theorem Keyed.ask (h : Keyed key t) :
    Keyed key { t.move i (.waiting (t.cache.slot (key i)).1) with
      cache := (t.cache.slot (key i)).2 } := by
  obtain ⟨made, hmade, hcallers, hkeys⟩ := h
  cases hslot : t.cache.current.get? (key i) with
  | some slot =>
    rw [Cache.slot_of_current hslot]
    refine ⟨made, hmade, ?_, hkeys⟩
    intro j id hj
    simp only [stage_move] at hj
    grind [Stage.slot?]
  | none =>
    -- a new slot is made for the key of its first caller
    rw [Cache.slot_of_none hslot]
    refine ⟨made ++ [key i], by simp [hmade], ?_, ?_⟩
    · intro j id hj
      simp only [stage_move] at hj
      grind [Stage.slot?]
    · intro k id hk
      rw [Table.get?_insert] at hk
      grind

theorem Keyed.step (h : Keyed key t) (hknows : ∀ i, Knows t.cache events i (key i) (t.stage i))
    (hstep : Step key t i event t') : Keyed key t' := by
  cases hstep with
  | ask hi => exact h.ask
  | lock hi _ | find hi _ | miss hi _ | retry hi _ | start hi _ | finish hi _ =>
    refine h.of_le rfl (fun _ _ hk => hk) (slot?_move ?_)
    rw [hi]
    exact fun _ h => h
  | publish hi =>
    refine h.of_le (by simp [Cache.publish]) (fun _ _ hk => hk) (slot?_move ?_)
    rw [hi]
    exact fun _ h => h
  | @discard id e hi =>
    refine h.of_le (by simp) ?_ (slot?_move ?_)
    · intro k id hk
      have := hknows i
      rw [hi] at this
      rw [Cache.get?_current_discard this.2.1] at hk
      grind
    · rw [hi]
      exact fun _ h => h
  | unlock hi =>
    refine h.of_le rfl (fun _ _ hk => hk) (slot?_move ?_)
    simp

omit [DecidableEq ι] [DecidableEq κ] in
/-- A lock is held by one caller. -/
theorem Locked.eq_of_slot (h : Locked t) {j : ι} {id : Nat} (hi : (t.stage i).locked? = some id)
    (hj : (t.stage j).locked? = some id) : i = j :=
  Option.some.inj (((h id i).2 hi).symm.trans ((h id j).2 hj))

namespace Orderly

omit [DecidableEq ι] in
theorem knows_at (h : Orderly key events t) {stage : Stage α ε} (hi : t.stage i = stage) :
    Knows t.cache events i (key i) stage :=
  hi ▸ h.knows i

omit [DecidableEq ι] in
theorem built (h : Orderly key events t) {id : Nat} {result : Except ε α}
    (hi : t.stage i = .built id result) : t.cache.artifact? id = none ∧
      t.cache.current.get? (key i) = some id ∧ .ended i result ∈ events :=
  h.knows_at hi

omit [DecidableEq ι] in
theorem lt_length (h : Orderly key events t) {k : κ} {id : Nat}
    (hk : t.cache.current.get? k = some id) : id < t.cache.slots.length := by
  obtain ⟨made, hmade, -, hkeys⟩ := h.keyed
  rw [← hmade]
  exact (List.getElem?_eq_some_iff.1 (hkeys k id hk)).1

omit [DecidableEq ι] in
theorem key_eq (h : Orderly key events t) {k : κ} {id : Nat}
    (hi : (t.stage i).slot? = some id) (hk : t.cache.current.get? k = some id) : key i = k := by
  obtain ⟨made, -, hcallers, hkeys⟩ := h.keyed
  exact Option.some.inj ((hcallers i id hi).symm.trans (hkeys k id hk))

end Orderly

/-- What a step leaves alone in the cache: what other callers have found in the slots that they
hold, and every artifact. -/
structure Spares (key : ι → κ) (t t' : Traffic ι κ α ε) (i : ι) : Prop where
  artifact? : ∀ j id, j ≠ i → (t.stage j).locked? = some id →
    t.cache.artifact? id = none → t'.cache.artifact? id = none
  current : ∀ j id, j ≠ i → (t.stage j).locked? = some id →
    t.cache.current.get? (key j) = some id → t'.cache.current.get? (key j) = some id
  get? : ∀ k a, t.cache.get? k = some a → t'.cache.get? k = some a

omit [DecidableEq ι] in
theorem Spares.of_eq (h : t'.cache = t.cache) : Spares key t t' i := by
  constructor <;> rw [h]
  · exact fun _ _ _ _ h => h
  · exact fun _ _ _ _ h => h
  · exact fun _ _ h => h

theorem Orderly.spares (h : Orderly key events t) (hstep : Step key t i event t') :
    Spares key t t' i := by
  cases hstep with
  | lock _ _ | find _ _ | miss _ _ | retry _ _ | start _ _ | finish _ _ | unlock _ =>
    exact .of_eq rfl
  | ask hi =>
    refine ⟨?_, ?_, ?_⟩
    · intro j id _ _ hnone
      simpa using hnone
    · intro j id _ _ hcurrent
      exact Cache.get?_current_slot_of_current hcurrent (key i)
    · intro k a hk
      simpa using hk
  | @publish id a hi =>
    obtain ⟨hnone, hcurrent, -⟩ := h.built hi
    have hartifact := Cache.artifact?_publish (h.lt_length hcurrent) a
    refine ⟨?_, fun _ _ _ _ h => h, ?_⟩
    · intro j id' hj hlocked hnone'
      have hne : id' ≠ id := by
        rintro rfl
        exact hj (h.locked.eq_of_slot hlocked (by rw [hi]; rfl))
      rw [hartifact, if_neg hne]
      exact hnone'
    · intro k b hk
      obtain ⟨id', hid', hb⟩ := Cache.get?_eq_some.1 hk
      have hne : id' ≠ id := by
        rintro rfl
        rw [hnone] at hb
        cases hb
      exact Cache.get?_eq_some.2 ⟨id', hid', by rw [hartifact, if_neg hne, hb]⟩
  | @discard id e hi =>
    obtain ⟨hnone, hcurrent, -⟩ := h.built hi
    have hcurrent' := Cache.get?_current_discard hcurrent
    refine ⟨?_, ?_, ?_⟩
    · intro j id' _ _ hnone'
      simpa using hnone'
    · intro j id' hj hlocked hid'
      have hne : key j ≠ key i := by
        intro hkey
        rw [hkey, hcurrent] at hid'
        cases hid'
        exact hj (h.locked.eq_of_slot hlocked (by rw [hi]; rfl))
      rw [hcurrent', if_neg hne]
      exact hid'
    · intro k b hk
      obtain ⟨id', hid', hb⟩ := Cache.get?_eq_some.1 hk
      have hne : k ≠ key i := by
        rintro rfl
        rw [hcurrent] at hid'
        cases hid'
        rw [hnone] at hb
        cases hb
      refine Cache.get?_eq_some.2 ⟨id', ?_, by simpa using hb⟩
      rw [hcurrent', if_neg hne]
      exact hid'

omit [DecidableEq ι] in
/-- What a caller relies on stays true while others do their steps. -/
theorem Knows.spared {j : ι} (h : Knows t.cache events j (key j) (t.stage j))
    (hspares : Spares key t t' i) (hj : j ≠ i) (later : List (BuildEvent ι α ε)) :
    Knows t'.cache (events ++ later) j (key j) (t.stage j) := by
  have hartifact := hspares.artifact? j
  have hcurrent := hspares.current j
  have hget := hspares.get? (key j)
  cases hstage : t.stage j with rw [hstage] at h hartifact hcurrent
  | asking | waiting _ | looking _ => trivial
  | checking id => exact hartifact id hj rfl h
  | building id => exact ⟨hartifact id hj rfl h.1, hcurrent id hj rfl h.2⟩
  | built id result =>
    obtain ⟨hnone, hid, hended⟩ := h
    exact ⟨hartifact id hj rfl hnone, hcurrent id hj rfl hid, List.mem_append_left _ hended⟩
  | leaving id result =>
    match result with
    | none => trivial
    | some (.ok a) => exact hget a h
    | some (.error e) => exact List.mem_append_left _ h
  | returned result =>
    match result with
    | .ok a => exact hget a h
    | .error e => exact List.mem_append_left _ h

namespace Orderly

/-- What a caller can rely on after its own step. -/
theorem knows_self (h : Orderly key events t) (hstep : Step key t i event t') :
    Knows t'.cache (events ++ event.toList) i (key i) (t'.stage i) := by
  cases hstep with
  | ask hi | lock hi _ | retry hi _ =>
    simp only [stage_move, if_true]
    trivial
  | @find id a hi ha =>
    -- a slot that holds an artifact is still the one of its key
    obtain ⟨k, hk⟩ := h.stored.current id a ha
    have hkey : key i = k := h.key_eq (by rw [hi]; rfl) hk
    simp only [stage_move, if_true]
    exact Cache.get?_eq_some.2 ⟨id, hkey ▸ hk, ha⟩
  | miss hi ha =>
    simp only [stage_move, if_true]
    exact ha
  | start hi hcurrent =>
    have hknows := h.knows_at hi
    simp only [stage_move, if_true]
    exact ⟨hknows, Cache.isCurrent_iff.1 hcurrent⟩
  | finish hi result =>
    have hknows := h.knows_at hi
    simp only [stage_move, if_true]
    exact ⟨hknows.1, hknows.2, by simp⟩
  | @publish id a hi =>
    obtain ⟨-, hcurrent, -⟩ := h.built hi
    simp only [stage_move, if_true]
    refine Cache.get?_eq_some.2 ⟨id, hcurrent, ?_⟩
    rw [Cache.artifact?_publish (h.lt_length hcurrent), if_pos rfl]
  | discard hi =>
    obtain ⟨-, -, hended⟩ := h.built hi
    simp only [stage_move, if_true]
    exact List.mem_append_left _ hended
  | @unlock id result hi =>
    have hknows := h.knows_at hi
    simp only [stage_move, if_true]
    match result with
    | none => trivial
    | some (.ok a) => exact hknows
    | some (.error e) => exact List.mem_append_left _ hknows

theorem stage_of_ne (hstep : Step key t i event t') {j : ι} (hj : j ≠ i) :
    t'.stage j = t.stage j := by
  cases hstep <;> exact Function.update_of_ne hj _ _

theorem knows_step (h : Orderly key events t) (hstep : Step key t i event t') (j : ι) :
    Knows t'.cache (events ++ event.toList) j (key j) (t'.stage j) := by
  by_cases hj : j = i
  · rw [hj]
    exact h.knows_self hstep
  · rw [stage_of_ne hstep hj]
    exact (h.knows j).spared (h.spares hstep) hj _

/-! ### Where artifacts are -/

theorem stored_current (h : Orderly key events t) (hstep : Step key t i event t') (id : Nat) (a : α)
    (ha : t'.cache.artifact? id = some a) : ∃ k, t'.cache.current.get? k = some id := by
  cases hstep with
  | lock _ _ | find _ _ | miss _ _ | retry _ _ | start _ _ | finish _ _ | unlock _ =>
    exact h.stored.current id a ha
  | ask hi =>
    obtain ⟨k, hk⟩ := h.stored.current id a (by simpa using ha)
    exact ⟨k, Cache.get?_current_slot_of_current hk (key i)⟩
  | @publish slot b hi =>
    obtain ⟨-, hcurrent, -⟩ := h.built hi
    rw [Cache.artifact?_publish (h.lt_length hcurrent)] at ha
    split_ifs at ha with hid
    · exact ⟨key i, hid ▸ hcurrent⟩
    · exact h.stored.current id a ha
  | @discard slot e hi =>
    obtain ⟨hnone, hcurrent, -⟩ := h.built hi
    rw [Cache.artifact?_discard] at ha
    obtain ⟨k, hk⟩ := h.stored.current id a ha
    have hne : k ≠ key i := by
      rintro rfl
      rw [hcurrent] at hk
      cases hk
      rw [hnone] at ha
      cases ha
    exact ⟨k, by rw [Cache.get?_current_discard hcurrent, if_neg hne, hk]⟩

theorem stored_built (h : Orderly key events t) (hstep : Step key t i event t') (k : κ) (a : α)
    (ha : t'.cache.get? k = some a) :
    ∃ j, key j = k ∧ .ended j (.ok a) ∈ events ++ event.toList := by
  have hold : t.cache.get? k = some a →
      ∃ j, key j = k ∧ .ended j (.ok a) ∈ events ++ event.toList := by
    intro hk
    obtain ⟨j, hj, hended⟩ := h.stored.built k a hk
    exact ⟨j, hj, List.mem_append_left _ hended⟩
  cases hstep with
  | lock _ _ | find _ _ | miss _ _ | retry _ _ | start _ _ | finish _ _ | unlock _ => exact hold ha
  | ask hi => exact hold (by simpa using ha)
  | @publish slot b hi =>
    obtain ⟨-, hcurrent, hended⟩ := h.built hi
    obtain ⟨id, hid, hartifact⟩ := Cache.get?_eq_some.1 ha
    rw [Cache.artifact?_publish (h.lt_length hcurrent)] at hartifact
    split_ifs at hartifact with hslot
    · cases hartifact
      have hkey : key i = k := h.key_eq (by rw [hi]; rfl) (hslot ▸ hid)
      exact ⟨i, hkey, List.mem_append_left _ hended⟩
    · exact hold (Cache.get?_eq_some.2 ⟨id, hid, hartifact⟩)
  | @discard slot e hi =>
    obtain ⟨-, hcurrent, -⟩ := h.built hi
    obtain ⟨id, hid, hartifact⟩ := Cache.get?_eq_some.1 ha
    rw [Cache.get?_current_discard hcurrent] at hid
    split_ifs at hid with hkey
    exact hold (Cache.get?_eq_some.2 ⟨id, hid, by simpa using hartifact⟩)

/-- A caller whose build has succeeded puts the artifact into the cache next. -/
theorem get?_of_built (h : Orderly key events t) (hstep : Step key t i event t') {id : Nat} {a : α}
    (hbuilt : t.stage i = .built id (.ok a)) : t'.cache.get? (key i) = some a := by
  have hknows := h.knows_self hstep
  cases hstep with
  | ask hi | lock hi _ | find hi _ | miss hi _ | retry hi _ | start hi _ | finish hi _ | discard hi
  | unlock hi =>
    rw [hbuilt] at hi
    cases hi
  | publish hi =>
    rw [hbuilt] at hi
    cases hi
    simp only [stage_move, if_true] at hknows
    exact hknows

theorem built_of_ended (hstep : Step key t i event t') {j : ι} {result : Except ε α}
    (hended : .ended j result ∈ event.toList) : j = i ∧ ∃ id, t'.stage i = .built id result := by
  cases hstep with
  | ask _ | lock _ _ | find _ _ | miss _ _ | retry _ _ | start _ _ | publish _ | discard _
  | unlock _ => simp at hended
  | @finish id hi r =>
    simp only [Option.toList_some, List.mem_singleton, BuildEvent.ended.injEq] at hended
    obtain ⟨rfl, rfl⟩ := hended
    exact ⟨rfl, id, by simp⟩

theorem stored_stored (h : Orderly key events t) (hstep : Step key t i event t') (j : ι) (a : α)
    (hended : .ended j (.ok a) ∈ events ++ event.toList) :
    t'.cache.get? (key j) = some a ∨ ∃ id, t'.stage j = .built id (.ok a) := by
  rcases List.mem_append.1 hended with hold | hnew
  · obtain hget | ⟨id, hbuilt⟩ := h.stored.stored j a hold
    · exact .inl ((h.spares hstep).get? (key j) a hget)
    · by_cases hj : j = i
      · subst hj
        exact .inl (h.get?_of_built hstep hbuilt)
      · exact .inr ⟨id, by rw [stage_of_ne hstep hj, hbuilt]⟩
  · obtain ⟨rfl, hbuilt⟩ := built_of_ended hstep hnew
    exact .inr hbuilt

/-- Who takes care of a slot still does after a step, unless it was its own step. -/
theorem attended_of_old (h : Orderly key events t) (hstep : Step key t i event t') (k : κ)
    (id : Nat) (hk : t.cache.current.get? k = some id) (hnone : t.cache.artifact? id = none)
    (hself : key i = k → (t.stage i).Attends id → (t'.stage i).Attends id) :
    ∃ j, key j = k ∧ (t'.stage j).Attends id := by
  obtain ⟨j, hkey, hattends⟩ := h.stored.attended k id hk hnone
  refine ⟨j, hkey, ?_⟩
  by_cases hj : j = i
  · subst hj
    exact hself hkey hattends
  · rw [stage_of_ne hstep hj]
    exact hattends

theorem stored_attended (h : Orderly key events t) (hstep : Step key t i event t') (k : κ)
    (id : Nat) (hk : t'.cache.current.get? k = some id) (hnone : t'.cache.artifact? id = none) :
    ∃ j, key j = k ∧ (t'.stage j).Attends id := by
  have hold := h.attended_of_old hstep k id
  cases hstep with
  | ask hi =>
    simp only [Cache.get?_current_slot, Cache.artifact?_slot, stage_move] at hk hnone hold ⊢
    split_ifs at hk with hkey
    · refine ⟨i, hkey.symm, ?_⟩
      simpa [Stage.Attends] using hk
    · refine hold hk hnone fun hi => ?_
      exact absurd hi.symm hkey
  | lock hi _ | miss hi _ | start hi _ | finish hi _ =>
    refine hold hk hnone fun _ hattends => ?_
    rw [hi] at hattends
    simpa [Stage.Attends] using hattends
  | find hi ha =>
    refine hold hk hnone fun _ hattends => ?_
    rw [hi] at hattends
    cases hattends
    cases ha.symm.trans hnone
  | retry hi hcurrent =>
    refine hold hk hnone fun hkey hattends => ?_
    rw [hi] at hattends
    cases hattends
    rw [hkey] at hcurrent
    cases hcurrent.symm.trans (Cache.isCurrent_iff.2 hk)
  | @publish slot a hi =>
    obtain ⟨-, hcurrent, -⟩ := h.built hi
    rw [Cache.artifact?_publish (h.lt_length hcurrent)] at hnone
    split_ifs at hnone with hid
    refine hold hk hnone fun _ hattends => ?_
    rw [hi] at hattends
    exact absurd hattends.symm hid
  | @discard slot e hi =>
    obtain ⟨-, hcurrent, -⟩ := h.built hi
    rw [Cache.get?_current_discard hcurrent] at hk
    split_ifs at hk with hkey
    refine hold hk (by simpa using hnone) fun hi => ?_
    exact absurd hi.symm hkey
  | unlock hi =>
    refine hold hk hnone fun _ hattends => ?_
    rw [hi] at hattends
    cases hattends

/-! ### Order of builds -/

omit [DecidableEq ι] in
/-- While a key has an empty slot and its lock is held by a caller that has not built yet, no build
of the key has succeeded. -/
theorem key_ne_of_ended (h : Orderly key events t) {id : Nat}
    (hlocked : (t.stage i).locked? = some id) (hnone : t.cache.artifact? id = none)
    (hcurrent : t.cache.current.get? (key i) = some id)
    (hnot : ∀ j result, t.stage i ≠ .built j result) {j : ι} {a : α}
    (hended : .ended j (.ok a) ∈ events) : key i ≠ key j := by
  intro hkey
  obtain hget | ⟨slot, hbuilt⟩ := h.stored.stored j a hended
  · obtain ⟨slot, hslot, ha⟩ := Cache.get?_eq_some.1 hget
    rw [← hkey, hcurrent] at hslot
    cases hslot
    rw [hnone] at ha
    cases ha
  · obtain ⟨-, hslot, -⟩ := h.built hbuilt
    rw [← hkey, hcurrent] at hslot
    cases hslot
    obtain rfl := h.locked.eq_of_slot hlocked (by rw [hbuilt]; rfl)
    exact hnot _ _ hbuilt

omit [DecidableEq ι] [DecidableEq κ] in
theorem once_snoc (h : SucceedOnce key events) {e : BuildEvent ι α ε}
    (he : ∀ j a, .ended j (.ok a) ∈ events → key e.caller ≠ key j) :
    SucceedOnce key (events ++ [e]) := by
  refine List.pairwise_append.2 ⟨h, List.pairwise_singleton _ _, ?_⟩
  intro x hx y hy j a hxj
  rw [List.mem_singleton] at hy
  subst hy hxj
  exact he j a hx

theorem once_step (h : Orderly key events t) (hstep : Step key t i event t') :
    SucceedOnce key (events ++ event.toList) := by
  cases hstep with
  | ask _ | lock _ _ | find _ _ | miss _ _ | retry _ _ | publish _ | discard _ | unlock _ =>
    simpa using h.once
  | @start id hi hcurrent =>
    have hknows := h.knows_at hi
    refine once_snoc h.once fun j a hended => ?_
    refine h.key_ne_of_ended (by rw [hi]; rfl) hknows (Cache.isCurrent_iff.1 hcurrent) ?_ hended
    rw [hi]
    exact nofun
  | @finish id hi result =>
    have hknows := h.knows_at hi
    refine once_snoc h.once fun j a hended => ?_
    refine h.key_ne_of_ended (by rw [hi]; rfl) hknows.1 hknows.2 ?_ hended
    rw [hi]
    exact nofun

theorem step (h : Orderly key events t) (hstep : Step key t i event t') :
    Orderly key (events ++ event.toList) t' where
  locked := h.locked.step hstep
  keyed := h.keyed.step h.knows hstep
  knows := h.knows_step hstep
  stored := ⟨h.stored_current hstep, h.stored_built hstep, h.stored_stored hstep,
    h.stored_attended hstep⟩
  once := h.once_step hstep

omit [DecidableEq ι] in
theorem start (key : ι → κ) : Orderly key ([] : List (BuildEvent ι α ε)) {} where
  locked := by
    intro id i
    simp [Stage.locked?]
  keyed := by
    refine ⟨[], rfl, ?_, ?_⟩
    · intro i id hi
      cases hi
    · intro k id hk
      cases hk
  knows := fun _ => trivial
  stored := by
    refine ⟨?_, ?_, ?_, ?_⟩
    · intro id a ha
      simp [Cache.artifact?] at ha
    · intro k a hk
      cases hk
    · intro i a hended
      cases hended
    · intro k id hk
      cases hk
  once := List.Pairwise.nil

end Orderly

theorem Runs.orderly (h : Runs key events t) : Orderly key events t := by
  induction h with
  | nil => exact .start key
  | snoc _ hstep ih => exact ih.step hstep

/-! ### All callers -/

namespace Orderly

omit [DecidableEq ι] in
theorem key_eq_of_slot (h : Orderly key events t) {j : ι} {id : Nat}
    (hi : (t.stage i).slot? = some id) (hj : (t.stage j).slot? = some id) : key i = key j := by
  obtain ⟨made, -, hcallers, -⟩ := h.keyed
  exact Option.some.inj ((hcallers i id hi).symm.trans (hcallers j id hj))

omit [DecidableEq ι] in
/-- At most one caller of a key is building. -/
theorem building_unique (h : Orderly key events t) {j : ι} {slot slot' : Nat}
    (hi : t.stage i = .building slot) (hj : t.stage j = .building slot') (hkey : key i = key j) :
    i = j := by
  have hi' := h.knows_at hi
  have hj' := h.knows_at hj
  have hslot : slot = slot' := Option.some.inj (hi'.2.symm.trans (hkey ▸ hj'.2))
  have hi_locked : (t.stage i).locked? = some slot := by
    rw [hi]
    rfl
  have hj_locked : (t.stage j).locked? = some slot := by
    rw [hj, hslot]
    rfl
  exact h.locked.eq_of_slot hi_locked hj_locked

omit [DecidableEq ι] in
theorem key_ne_of_mem_after (h : Orderly key events t) {before after : List (BuildEvent ι α ε)}
    {a : α} (hevents : events = before ++ .ended i (.ok a) :: after) {e : BuildEvent ι α ε}
    (he : e ∈ after) : key e.caller ≠ key i := by
  have honce := h.once
  rw [hevents] at honce
  obtain ⟨-, htail, -⟩ := List.pairwise_append.1 honce
  exact (List.pairwise_cons.1 htail).1 e he i a rfl

omit [DecidableEq ι] in
/-- Of the builds of a key one at most has succeeded. -/
theorem success_unique (h : Orderly key events t) {j : ι} {a b : α} (hkey : key i = key j)
    (hi : .ended i (.ok a) ∈ events) (hj : .ended j (.ok b) ∈ events) : i = j ∧ a = b := by
  obtain ⟨before, after, hevents⟩ := List.append_of_mem hi
  rw [hevents, List.mem_append, List.mem_cons] at hj
  rcases hj with hj | hj | hj
  · obtain ⟨first, rest, rfl⟩ := List.append_of_mem hj
    have hevents' : events = first ++ .ended j (.ok b) :: (rest ++ .ended i (.ok a) :: after) := by
      simp [hevents]
    exact absurd hkey (h.key_ne_of_mem_after hevents' (e := .ended i (.ok a)) (by simp))
  · cases hj
    exact ⟨rfl, rfl⟩
  · exact absurd hkey.symm (h.key_ne_of_mem_after hevents hj)

/-- A caller has returned, or runs its build, which may end in any way, or can do its next step, or
waits for another caller of its key, which does not wait itself. -/
theorem goes_on (h : Orderly key events t) (i : ι) :
    (∃ result, t.stage i = .returned result) ∨
      (∀ result, ∃ t', Step key t i (some (.ended i result)) t') ∨
      (∃ event t', Step key t i event t') ∨
      ∃ slot j, t.stage i = .waiting slot ∧ t.holder slot = some j ∧ j ≠ i ∧ key j = key i ∧
        ∀ slot', t.stage j ≠ .waiting slot' := by
  cases hi : t.stage i with
  | asking => exact .inr (.inr (.inl ⟨_, _, .ask hi⟩))
  | waiting slot =>
    cases hholder : t.holder slot with
    | none => exact .inr (.inr (.inl ⟨_, _, .lock hi hholder⟩))
    | some j =>
      have hj := (h.locked slot j).1 hholder
      have hne : ∀ slot', t.stage j ≠ .waiting slot' := by
        intro slot' hwaiting
        rw [hwaiting] at hj
        cases hj
      have hslot : (t.stage j).slot? = some slot := by
        cases hstage : t.stage j <;> rw [hstage] at hj <;> cases hj <;> rfl
      refine .inr (.inr (.inr ⟨slot, j, rfl, hholder, ?_, ?_, hne⟩))
      · rintro rfl
        exact hne slot hi
      · exact h.key_eq_of_slot hslot (by rw [hi]; rfl)
  | looking slot =>
    cases ha : t.cache.artifact? slot with
    | none => exact .inr (.inr (.inl ⟨_, _, .miss hi ha⟩))
    | some a => exact .inr (.inr (.inl ⟨_, _, .find hi ha⟩))
  | checking slot =>
    cases hcurrent : t.cache.isCurrent (key i) slot with
    | false => exact .inr (.inr (.inl ⟨_, _, .retry hi hcurrent⟩))
    | true => exact .inr (.inr (.inl ⟨_, _, .start hi hcurrent⟩))
  | building slot => exact .inr (.inl fun result => ⟨_, .finish hi result⟩)
  | built slot result =>
    match result with
    | .ok a => exact .inr (.inr (.inl ⟨_, _, .publish hi⟩))
    | .error e => exact .inr (.inr (.inl ⟨_, _, .discard hi⟩))
  | leaving slot result => exact .inr (.inr (.inl ⟨_, _, .unlock hi⟩))
  | returned result => exact .inl ⟨result, rfl⟩

omit [DecidableEq ι] in
/-- When all callers have returned, the cache holds what was built, and nothing else. -/
theorem contains_iff (h : Orderly key events t) (hall : ∀ i, ∃ result, t.stage i = .returned result)
    (k : κ) : t.cache.current.contains k = true ↔ ∃ i a, key i = k ∧ .ended i (.ok a) ∈ events := by
  rw [Table.contains, Option.isSome_iff_exists]
  constructor
  · rintro ⟨slot, hslot⟩
    cases ha : t.cache.artifact? slot with
    | none =>
      obtain ⟨i, -, hattends⟩ := h.stored.attended k slot hslot ha
      obtain ⟨result, hi⟩ := hall i
      rw [hi] at hattends
      cases hattends
    | some a =>
      obtain ⟨i, hi, hended⟩ := h.stored.built k a (Cache.get?_eq_some.2 ⟨slot, hslot, ha⟩)
      exact ⟨i, a, hi, hended⟩
  · rintro ⟨i, a, rfl, hended⟩
    obtain hget | ⟨slot, hbuilt⟩ := h.stored.stored i a hended
    · obtain ⟨slot, hslot, -⟩ := Cache.get?_eq_some.1 hget
      exact ⟨slot, hslot⟩
    · obtain ⟨-, hslot, -⟩ := h.built hbuilt
      exact ⟨slot, hslot⟩

omit [DecidableEq ι] in
theorem get?_of_ended (h : Orderly key events t) (hi : ∃ result, t.stage i = .returned result)
    {a : α} (hended : .ended i (.ok a) ∈ events) : t.cache.get? (key i) = some a := by
  obtain hget | ⟨slot, hbuilt⟩ := h.stored.stored i a hended
  · exact hget
  · obtain ⟨result, hi⟩ := hi
    rw [hi] at hbuilt
    cases hbuilt

end Orderly

/-- Whatever the order of the steps of all callers: builds of a key do not overlap; after one has
succeeded nothing happens to builds of the key any more, and its artifact is what callers of the key
get; an error comes from the caller's own build; callers wait for callers of the same key only; and
when all have returned, a key has a slot exactly if a build of it succeeded, and finds its artifact
there. -/
theorem one_build_of_a_key (h : Runs key events t) :
    (∀ i j slot slot', t.stage i = .building slot → t.stage j = .building slot' → key i = key j →
      i = j) ∧
    (∀ before after i a, events = before ++ .ended i (.ok a) :: after →
      ∀ e ∈ after, key e.caller ≠ key i) ∧
    (∀ i a, t.stage i = .returned (.ok a) → ∃ j, key j = key i ∧ .ended j (.ok a) ∈ events ∧
      ∀ k b, key k = key i → .ended k (.ok b) ∈ events → k = j ∧ b = a) ∧
    (∀ i e, t.stage i = .returned (.error e) → .ended i (.error e) ∈ events) ∧
    (∀ i, (∃ result, t.stage i = .returned result) ∨
      (∀ result, ∃ t', Step key t i (some (.ended i result)) t') ∨
      (∃ event t', Step key t i event t') ∨
      ∃ slot j, t.stage i = .waiting slot ∧ t.holder slot = some j ∧ j ≠ i ∧ key j = key i ∧
        ∀ slot', t.stage j ≠ .waiting slot') ∧
    ((∀ i, ∃ result, t.stage i = .returned result) → ∀ k,
      (t.cache.current.contains k = true ↔ ∃ i a, key i = k ∧ .ended i (.ok a) ∈ events) ∧
      ∀ i a, key i = k → .ended i (.ok a) ∈ events → t.cache.get? k = some a) := by
  have horderly := h.orderly
  refine ⟨?_, ?_, ?_, ?_, horderly.goes_on, ?_⟩
  · intro i j slot slot' hi hj hkey
    exact horderly.building_unique hi hj hkey
  · intro before after i a hevents e he
    exact horderly.key_ne_of_mem_after hevents he
  · intro i a hi
    have hknows := horderly.knows_at hi
    obtain ⟨j, hkey, hended⟩ := horderly.stored.built (key i) a hknows
    refine ⟨j, hkey, hended, ?_⟩
    intro k b hk hended'
    exact horderly.success_unique (hk.trans hkey.symm) hended' hended
  · intro i e hi
    exact horderly.knows_at hi
  · intro hall k
    refine ⟨horderly.contains_iff hall k, ?_⟩
    rintro i a rfl hended
    exact horderly.get?_of_ended (hall i) hended

/-- Two callers of one key: the first builds and fails while the second waits for its slot. The
second finds the slot discarded, gets a new one and builds again. -/
theorem one_build_of_a_key_retried :
    ∃ (events : List (BuildEvent Bool Nat String)) (t : Traffic Bool Unit Nat String),
      Runs (fun _ => ()) events t ∧
      events.map BuildEvent.caller = [false, false, true, true] ∧
      t.stage false = .returned (.error "no device") ∧ t.stage true = .returned (.ok 7) ∧
      BuildEvent.ended false (.error "no device") ∈ events ∧
      t.cache.current.contains () = true ∧ t.cache.get? () = some 7 := by
  have asked : Runs (α := Nat) (ε := String) (fun _ : Bool => ()) _ _ :=
    (Runs.nil.snoc (.ask (i := false) rfl)).snoc (.ask (i := true) rfl)
  have failed :=
    (((((asked.snoc (.lock (i := false) rfl rfl)).snoc (.miss (i := false) rfl rfl)).snoc
      (.start (i := false) rfl rfl)).snoc (.finish (i := false) rfl (.error "no device"))).snoc
      (.discard (i := false) rfl)).snoc (.unlock (i := false) rfl)
  have retried :=
    (((failed.snoc (.lock (i := true) rfl rfl)).snoc (.miss (i := true) rfl rfl)).snoc
      (.retry (i := true) rfl rfl)).snoc (.unlock (i := true) rfl)
  have built :=
    ((((((retried.snoc (.ask (i := true) rfl)).snoc (.lock (i := true) rfl rfl)).snoc
      (.miss (i := true) rfl rfl)).snoc (.start (i := true) rfl rfl)).snoc
      (.finish (i := true) rfl (.ok 7))).snoc (.publish (i := true) rfl)).snoc
      (.unlock (i := true) rfl)
  obtain ⟨-, -, -, herror, -, hend⟩ := one_build_of_a_key built
  have hall := hend (by
    intro i
    cases i
    · exact ⟨_, rfl⟩
    · exact ⟨_, rfl⟩) ()
  refine ⟨_, _, built, rfl, rfl, rfl, herror false _ rfl, ?_, ?_⟩
  · exact hall.1.2 ⟨true, 7, rfl, by simp⟩
  · exact hall.2 true 7 rfl (by simp)

/-! ### One caller alone -/

theorem Runs.silent (h : Runs key events t) (hstep : Step key t i none t') :
    Runs key events t' := by
  simpa using h.snoc hstep

/-- A caller that finds all locks free and is not interrupted does what `getOrBuild` does, if its
build ends with the given result. -/
theorem Runs.alone (h : Runs key events t) (hi : t.stage i = .asking)
    (hfree : ∀ slot, t.holder slot = none) (result : Except ε α) :
    ∃ later t', Runs key (events ++ later) t' ∧
      t'.stage i = .returned (Id.run (t.cache.getOrBuild (key i) (pure result))).1 ∧
      t'.cache = (Id.run (t.cache.getOrBuild (key i) (pure result))).2 := by
  have hself (f : ι → Stage α ε) (stage : Stage α ε) : Function.update f i stage i = stage :=
    Function.update_self i stage f
  have asked := h.silent (.ask hi)
  have locked := asked.silent (.lock (hself _ _) (hfree _))
  cases ha : (t.cache.slot (key i)).2.artifact? (t.cache.slot (key i)).1 with
  | some a =>
    have found := (locked.silent (.find (hself _ _) ha)).silent (.unlock (hself _ _))
    refine ⟨[], _, by simpa using found, ?_, ?_⟩
    · simp [Cache.getOrBuild, ha, Stage.after]
    · simp [Cache.getOrBuild, ha, move]
  | none =>
    have hcurrent := t.cache.isCurrent_slot (key i)
    have missed := locked.silent (.miss (hself _ _) ha)
    have built := (missed.snoc (.start (hself _ _) hcurrent)).snoc
      (.finish (hself _ _) result)
    cases result with
    | ok a =>
      have done := (built.silent (.publish (hself _ _))).silent (.unlock (hself _ _))
      refine ⟨_, _, by simpa [List.append_assoc] using done, ?_, ?_⟩
      · simp [Cache.getOrBuild, ha, Stage.after]
      · simp [Cache.getOrBuild, ha, move]
    | error e =>
      have done := (built.silent (.discard (hself _ _))).silent (.unlock (hself _ _))
      refine ⟨_, _, by simpa [List.append_assoc] using done, ?_, ?_⟩
      · simp [Cache.getOrBuild, ha, Stage.after]
      · simp [Cache.getOrBuild, ha, move]

end Traffic

end KernelForge.Launch
