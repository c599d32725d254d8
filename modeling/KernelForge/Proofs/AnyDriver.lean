import Mathlib
import KernelForge.Device.TwoPhase

/-!
# Asking any driver for data of unknown size

Here the side that answers is any function of the request and of a state of its own. Its two answers
may contradict each other, and either may fail. A run of `twoPhaseWithin` goes one of five ways
(`Asks`), and from them follows what is asked, when the run fails and what comes out of it
(`twoPhase_of_any_driver`). One of the five ends the program: the size is believed, so a driver that
reports more than there is memory for is not asked again (`no_second_call_endless`). A driver that
counts in 32 bits is no different as long as its counts fit (`twoPhase_counted`).
-/

namespace KernelForge.Device

variable {σ ν α : Type} {memory width n : Nat} {call : String} {blank : α} {s s' : σ}

/-! ### Transcripts -/

/-- One call of a driver. -/
structure Exchange (ν α : Type) where
  request : Request ν
  reply : Reply ν α

/-- The driver that in addition keeps a transcript of its calls. -/
def transcribed (fetch : Request ν → StateM σ (Reply ν α)) (r : Request ν) :
    StateM (σ × List (Exchange ν α)) (Reply ν α) := fun (s, calls) =>
  let (reply, s') := (fetch r).run s
  (reply, s', calls ++ [⟨r, reply⟩])

theorem run_transcribed {fetch : Request ν → StateM σ (Reply ν α)} {r : Request ν}
    {reply : Reply ν α} (h : (fetch r).run s = (reply, s')) (calls : List (Exchange ν α)) :
    (transcribed fetch r).run (s, calls) = (reply, s', calls ++ [⟨r, reply⟩]) := by
  change (((fetch r).run s).1, ((fetch r).run s).2, calls ++ [⟨r, ((fetch r).run s).1⟩]) = _
  rw [h]

theorem run_bind_of_run_eq {τ β γ : Type} {x : StateM τ β} {f : β → StateM τ γ} {t t' : τ} {b : β}
    (h : x.run t = (b, t')) : (x >>= f).run t = (f b).run t' := by
  rw [StateT.run_bind, h]
  rfl

/-! ### Runs that a lack of memory can end -/

section Halt

variable {τ β γ : Type} {f : β → ExceptT Halt (StateM τ) γ} {t t' : τ} {b : β}

theorem run_lift_bind {x : StateM τ β} (h : x.run t = (b, t')) :
    (ExceptT.lift x >>= f).run.run t = (f b).run.run t' := by
  rw [ExceptT.run_bind_lift, run_bind_of_run_eq h]

theorem run_ok_bind : (ExceptT.mk (pure (.ok b)) >>= f).run.run t = (f b).run.run t :=
  rfl

theorem run_error_bind {halt : Halt} :
    (ExceptT.mk (pure (.error halt)) >>= f).run.run t = (.error halt, t) :=
  rfl

end Halt

theorem allocate_of_le (h : n * width ≤ min maxAllocation memory) (blank : α) :
    allocate memory width blank n = .ok (List.replicate n blank) := by
  obtain ⟨hmax, hmemory⟩ := Nat.le_min.1 h
  rw [allocate, if_neg (Nat.not_lt.2 hmax), if_neg (Nat.not_lt.2 hmemory)]

theorem allocate_eq_ok {buffer : List α} (h : allocate memory width blank n = .ok buffer) :
    buffer = List.replicate n blank ∧ n * width ≤ min maxAllocation memory := by
  simp only [allocate] at h
  split_ifs at h with hmax hmemory
  exact ⟨(Except.ok.inj h).symm, Nat.le_min.2 ⟨Nat.not_lt.1 hmax, Nat.not_lt.1 hmemory⟩⟩

theorem allocate_eq_capacityOverflow_iff :
    allocate memory width blank n = .error .capacityOverflow ↔ maxAllocation < n * width := by
  simp only [allocate]
  split_ifs with hmax hmemory <;> simp [hmax]

theorem allocate_eq_outOfMemory_iff :
    allocate memory width blank n = .error .outOfMemory ↔
      n * width ≤ maxAllocation ∧ memory < n * width := by
  simp only [allocate]
  split_ifs with hmax hmemory <;> simp <;> omega

/-! ### The ways a run can go -/

/-- The buffer that was offered, after the second call. -/
def filledBuffer (blank : α) (asked filled : Reply Nat α) : List α :=
  overwrite (List.replicate asked.size blank) filled.written

theorem filledBuffer_eq {asked filled : Reply Nat α} (h : filled.written.length = asked.size)
    (blank : α) : filledBuffer blank asked filled = filled.written :=
  overwrite_eq (h.trans List.length_replicate.symm)

theorem length_filledBuffer (blank : α) (asked filled : Reply Nat α) :
    (filledBuffer blank asked filled).length = asked.size := by
  rw [filledBuffer, length_overwrite, List.length_replicate]

/-- How a run goes: the calls that are made, its result, and the state of the driver after it. -/
inductive Asks (memory width : Nat) (call : String) (blank : α)
    (fetch : Request Nat → StateM σ (Reply Nat α)) (s : σ) :
    List (Exchange Nat α) → Except Halt (Except Error (List α)) → σ → Prop
  | refused {asked : Reply Nat α} {s' : σ} (hask : (fetch ⟨none, 0⟩).run s = (asked, s'))
      (hstatus : asked.status ≠ .success) :
      Asks memory width call blank fetch s [⟨⟨none, 0⟩, asked⟩]
        (.ok (.error (.callFailed call asked.status))) s'
  | halted {asked : Reply Nat α} {s' : σ} {halt : Halt}
      (hask : (fetch ⟨none, 0⟩).run s = (asked, s')) (hstatus : asked.status = .success)
      (hbuffer : allocate memory width blank asked.size = .error halt) :
      Asks memory width call blank fetch s [⟨⟨none, 0⟩, asked⟩] (.error halt) s'
  | empty {asked : Reply Nat α} {s' : σ} (hask : (fetch ⟨none, 0⟩).run s = (asked, s'))
      (hstatus : asked.status = .success) (hsize : asked.size = 0) :
      Asks memory width call blank fetch s [⟨⟨none, 0⟩, asked⟩] (.ok (.ok [])) s'
  | failed {asked filled : Reply Nat α} {s₁ s' : σ} (hask : (fetch ⟨none, 0⟩).run s = (asked, s₁))
      (hstatus : asked.status = .success) (hsize : asked.size ≠ 0)
      (hroom : asked.size * width ≤ min maxAllocation memory)
      (hfill : (fetch ⟨some asked.size, asked.size⟩).run s₁ = (filled, s'))
      (hfilled : filled.status ≠ .success) :
      Asks memory width call blank fetch s
        [⟨⟨none, 0⟩, asked⟩, ⟨⟨some asked.size, asked.size⟩, filled⟩]
        (.ok (.error (.callFailed call filled.status))) s'
  | filled {asked filled : Reply Nat α} {s₁ s' : σ} (hask : (fetch ⟨none, 0⟩).run s = (asked, s₁))
      (hstatus : asked.status = .success) (hsize : asked.size ≠ 0)
      (hroom : asked.size * width ≤ min maxAllocation memory)
      (hfill : (fetch ⟨some asked.size, asked.size⟩).run s₁ = (filled, s'))
      (hfilled : filled.status = .success) :
      Asks memory width call blank fetch s
        [⟨⟨none, 0⟩, asked⟩, ⟨⟨some asked.size, asked.size⟩, filled⟩]
        (.ok (.ok ((filledBuffer blank asked filled).take filled.size))) s'

/-- A run goes one of these ways, and keeping a transcript changes nothing about it. -/
theorem asks_twoPhaseWithin (memory width : Nat) (call : String) (blank : α)
    (fetch : Request Nat → StateM σ (Reply Nat α)) (s : σ) : ∃ calls result s',
      (twoPhaseWithin memory width call blank (transcribed fetch)).run.run (s, []) =
          (result, s', calls) ∧
        (twoPhaseWithin memory width call blank fetch).run.run s = (result, s') ∧
        Asks memory width call blank fetch s calls result s' := by
  rcases hask : (fetch ⟨none, 0⟩).run s with ⟨asked, s₁⟩
  rw [twoPhaseWithin, twoPhaseWithin, twoPhase, twoPhase, run_lift_bind hask,
    run_lift_bind (run_transcribed hask [])]
  by_cases hstatus : asked.status = .success
  · rw [if_neg (not_not.2 hstatus), if_neg (not_not.2 hstatus)]
    rcases hbuffer : allocate memory width blank asked.size with halt | buffer
    · rw [run_error_bind, run_error_bind]
      exact ⟨_, _, _, rfl, rfl, .halted hask hstatus hbuffer⟩
    · rw [run_ok_bind, run_ok_bind]
      obtain ⟨rfl, hroom⟩ := allocate_eq_ok hbuffer
      rw [List.length_replicate]
      by_cases hsize : asked.size = 0
      · rw [if_pos hsize, if_pos hsize, hsize, List.replicate_zero]
        exact ⟨_, _, _, rfl, rfl, .empty hask hstatus hsize⟩
      · rcases hfill : (fetch ⟨some asked.size, asked.size⟩).run s₁ with ⟨filled, s₂⟩
        rw [if_neg hsize, if_neg hsize, run_lift_bind hfill,
          run_lift_bind (run_transcribed hfill _)]
        by_cases hfilled : filled.status = .success
        · rw [if_neg (not_not.2 hfilled), if_neg (not_not.2 hfilled)]
          exact ⟨_, _, _, rfl, rfl, .filled hask hstatus hsize hroom hfill hfilled⟩
        · rw [if_pos hfilled, if_pos hfilled]
          exact ⟨_, _, _, rfl, rfl, .failed hask hstatus hsize hroom hfill hfilled⟩
  · rw [if_pos hstatus, if_pos hstatus]
    exact ⟨_, _, _, rfl, rfl, .refused hask hstatus⟩

/-! ### Counting in 32 bits -/

/-- A driver that counts in 32 bits and one that counts without a bound do the same: every count of
the second one fits and is that of the first, and all else is equal. -/
def SameCounts (narrow : Request UInt32 → StateM σ (Reply UInt32 α))
    (wide : Request Nat → StateM σ (Reply Nat α)) : Prop :=
  ∀ (r : Request UInt32) (s : σ), (wide ⟨r.capacity, r.size.toNat⟩).run s =
    let (reply, s') := (narrow r).run s
    (⟨reply.status, reply.size.toNat, reply.written⟩, s')

/-- A driver that counts without a bound, asked for counts of 32 bits. -/
def narrowed (wide : Request Nat → StateM σ (Reply Nat α)) (r : Request UInt32) :
    StateM σ (Reply UInt32 α) := do
  let reply ← wide ⟨r.capacity, r.size.toNat⟩
  return ⟨reply.status, countOf reply.size, reply.written⟩

/-- It counts the same if all its counts fit. -/
theorem sameCounts_narrowed {wide : Request Nat → StateM σ (Reply Nat α)}
    (h : ∀ (r : Request Nat) (s : σ), r.size < 2 ^ 32 → ((wide r).run s).1.size < 2 ^ 32) :
    SameCounts (narrowed wide) wide := by
  intro r s
  have hfits := h ⟨r.capacity, r.size.toNat⟩ s r.size.toNat_lt
  rcases hwide : (wide ⟨r.capacity, r.size.toNat⟩).run s with ⟨reply, s'⟩
  rw [hwide] at hfits
  have hnarrow : (narrowed wide r).run s =
      (⟨reply.status, countOf reply.size, reply.written⟩, s') := run_bind_of_run_eq hwide
  simp only [hnarrow, toNat_countOf hfits]

namespace SameCounts

variable {narrow : Request UInt32 → StateM σ (Reply UInt32 α)}
  {wide : Request Nat → StateM σ (Reply Nat α)}

theorem size_lt (h : SameCounts narrow wide) {r : Request Nat} (hr : r.size < 2 ^ 32) (s : σ) :
    ((wide r).run s).1.size < 2 ^ 32 := by
  have hsame := h ⟨r.capacity, countOf r.size⟩ s
  rw [toNat_countOf hr] at hsame
  rw [hsame]
  exact UInt32.toNat_lt _

theorem counted_eq (h : SameCounts narrow wide) {r : Request Nat} (hr : r.size < 2 ^ 32) :
    counted narrow r = wide r := by
  funext s
  have hsame := h ⟨r.capacity, countOf r.size⟩ s
  rw [toNat_countOf hr] at hsame
  exact hsame.symm

/-- With counts that fit it makes no difference whether they have 32 bits. -/
theorem twoPhase_counted (h : SameCounts narrow wide) (memory width : Nat) (call : String)
    (blank : α) :
    twoPhaseWithin memory width call blank (counted narrow) =
      twoPhaseWithin memory width call blank wide := by
  funext s
  change (twoPhaseWithin memory width call blank (counted narrow)).run.run s =
    (twoPhaseWithin memory width call blank wide).run.run s
  have hfits := h.size_lt (r := ⟨none, 0⟩) (by decide) s
  rcases hask : (wide ⟨none, 0⟩).run s with ⟨asked, s₁⟩
  rw [hask] at hfits
  rw [twoPhaseWithin, twoPhaseWithin, twoPhase, twoPhase,
    h.counted_eq (r := ⟨none, 0⟩) (by decide), run_lift_bind hask, run_lift_bind hask]
  by_cases hstatus : asked.status = .success
  · rw [if_neg (not_not.2 hstatus), if_neg (not_not.2 hstatus)]
    rcases hbuffer : allocate memory width blank asked.size with halt | buffer
    · rw [run_error_bind, run_error_bind]
    · rw [run_ok_bind, run_ok_bind, (allocate_eq_ok hbuffer).1, List.length_replicate,
        h.counted_eq (r := ⟨some asked.size, asked.size⟩) hfits]
  · rw [if_pos hstatus, if_pos hstatus]

end SameCounts

/-! ### What comes out -/

/-- The first status of some calls that is no success. -/
def firstFailure? (calls : List (Exchange ν α)) : Option Status :=
  (calls.map (·.reply.status)).find? (· ≠ .success)

namespace Asks

variable {fetch : Request Nat → StateM σ (Reply Nat α)} {calls : List (Exchange Nat α)}
  {result : Except Halt (Except Error (List α))}

/-- A run fails exactly if a call does, and reports the first one that does. -/
theorem result_eq_error_iff (h : Asks memory width call blank fetch s calls result s')
    (e : Error) : result = .ok (.error e) ↔
      ∃ status, firstFailure? calls = some status ∧ e = .callFailed call status := by
  cases h with
  | refused hask hstatus => simpa [firstFailure?, hstatus] using eq_comm
  | halted hask hstatus hbuffer => simp [firstFailure?, hstatus]
  | empty hask hstatus hsize => simp [firstFailure?, hstatus]
  | failed hask hstatus hsize hroom hfill hfilled =>
    simpa [firstFailure?, hstatus, hfilled] using eq_comm
  | filled hask hstatus hsize hroom hfill hfilled => simp [firstFailure?, hstatus, hfilled]

variable {asked filled : Reply Nat α} {after last : σ}

/-- The program ends exactly if it asks for a buffer and there is none. -/
theorem result_eq_halt_iff (h : Asks memory width call blank fetch s calls result s')
    (hask : (fetch ⟨none, 0⟩).run s = (asked, after)) (halt : Halt) :
    result = .error halt ↔
      asked.status = .success ∧ allocate memory width blank asked.size = .error halt := by
  cases h with
  | refused hask' hstatus =>
    cases hask.symm.trans hask'
    simp [hstatus]
  | halted hask' hstatus hbuffer =>
    cases hask.symm.trans hask'
    simp [hstatus, hbuffer]
  | empty hask' hstatus hsize =>
    cases hask.symm.trans hask'
    simp [hsize, allocate]
  | failed hask' hstatus hsize hroom hfill hfilled =>
    cases hask.symm.trans hask'
    simp [allocate_of_le hroom]
  | filled hask' hstatus hsize hroom hfill hfilled =>
    cases hask.symm.trans hask'
    simp [allocate_of_le hroom]

/-- The second call is made exactly if the first one reports something there is room for. -/
theorem calls_eq (h : Asks memory width call blank fetch s calls result s')
    (hask : (fetch ⟨none, 0⟩).run s = (asked, after))
    (hfill : (fetch ⟨some asked.size, asked.size⟩).run after = (filled, last)) :
    calls = ⟨⟨none, 0⟩, asked⟩ ::
      if asked.status ≠ .success ∨ asked.size = 0 ∨ min maxAllocation memory < asked.size * width
      then [] else [⟨⟨some asked.size, asked.size⟩, filled⟩] := by
  cases h with
  | refused hask' hstatus =>
    cases hask.symm.trans hask'
    rw [if_pos (.inl hstatus)]
  | halted hask' hstatus hbuffer =>
    cases hask.symm.trans hask'
    have hroom : min maxAllocation memory < asked.size * width := by
      by_contra hroom
      rw [allocate_of_le (Nat.not_lt.1 hroom)] at hbuffer
      cases hbuffer
    rw [if_pos (.inr (.inr hroom))]
  | empty hask' hstatus hsize =>
    cases hask.symm.trans hask'
    rw [if_pos (.inr (.inl hsize))]
  | failed hask' hstatus hsize hroom hfill' hfilled =>
    cases hask.symm.trans hask'
    cases hfill.symm.trans hfill'
    rw [if_neg (by simp [hstatus, hsize, Nat.not_lt.2 hroom])]
  | filled hask' hstatus hsize hroom hfill' hfilled =>
    cases hask.symm.trans hask'
    cases hfill.symm.trans hfill'
    rw [if_neg (by simp [hstatus, hsize, Nat.not_lt.2 hroom])]

/-- Without a failure the buffer comes out, cut to both sizes, if there is room for it. -/
theorem result_eq_ok (h : Asks memory width call blank fetch s calls result s')
    (hask : (fetch ⟨none, 0⟩).run s = (asked, after))
    (hfill : (fetch ⟨some asked.size, asked.size⟩).run after = (filled, last))
    (hnone : firstFailure? calls = none)
    (hroom : asked.size * width ≤ min maxAllocation memory) :
    result = .ok (.ok ((filledBuffer blank asked filled).take (min asked.size filled.size))) := by
  have hlength := length_filledBuffer blank asked filled
  cases h with
  | refused hask' hstatus => simp [firstFailure?, hstatus] at hnone
  | halted hask' hstatus hbuffer =>
    cases hask.symm.trans hask'
    rw [allocate_of_le hroom] at hbuffer
    cases hbuffer
  | empty hask' hstatus hsize =>
    cases hask.symm.trans hask'
    rw [hsize, Nat.zero_min, List.take_zero]
  | failed hask' hstatus hsize hroom hfill' hfilled =>
    simp [firstFailure?, hstatus, hfilled] at hnone
  | filled hask' hstatus hsize hroom hfill' hfilled =>
    cases hask.symm.trans hask'
    cases hfill.symm.trans hfill'
    rw [Nat.min_comm, ← List.take_take, ← hlength, List.take_length]

end Asks

/-- The driver is asked once if it refuses the size, reports nothing or reports more than there is
room for, and else once more, with a buffer of exactly the size that it has reported. The program
panics exactly if what is reported exceeds every allocation, and is aborted exactly if it is merely
more than the memory that is left. Otherwise the run fails exactly if a call does, with the first
status that is no success; else the buffer comes out, cut to the smaller of the two sizes. (Where
nothing is reported the buffer is empty.) With 32 bits for the sizes nothing changes if they fit. -/
theorem twoPhase_of_any_driver (memory width : Nat) (call : String) (blank : α)
    (fetch : Request Nat → StateM σ (Reply Nat α)) (s : σ) :
    let asked := ((fetch ⟨none, 0⟩).run s).1
    let after := ((fetch ⟨none, 0⟩).run s).2
    let filled := ((fetch ⟨some asked.size, asked.size⟩).run after).1
    ∃ calls result s',
      (twoPhaseWithin memory width call blank (transcribed fetch)).run.run (s, []) =
        (result, s', calls) ∧
      (twoPhaseWithin memory width call blank fetch).run.run s = (result, s') ∧
      calls = ⟨⟨none, 0⟩, asked⟩ ::
        (if asked.status ≠ .success ∨ asked.size = 0 ∨
          min maxAllocation memory < asked.size * width then []
        else [⟨⟨some asked.size, asked.size⟩, filled⟩]) ∧
      (result = .error .capacityOverflow ↔
        asked.status = .success ∧ maxAllocation < asked.size * width) ∧
      (result = .error .outOfMemory ↔ asked.status = .success ∧
        asked.size * width ≤ maxAllocation ∧ memory < asked.size * width) ∧
      (∀ e, result = .ok (.error e) ↔
        ∃ status, firstFailure? calls = some status ∧ e = .callFailed call status) ∧
      (firstFailure? calls = none → asked.size * width ≤ min maxAllocation memory →
        result = .ok (.ok ((filledBuffer blank asked filled).take
          (min asked.size filled.size)))) ∧
      ((filledBuffer blank asked filled).length = asked.size ∧
        (filled.written.length = asked.size → filledBuffer blank asked filled = filled.written)) ∧
      ∀ narrow, SameCounts narrow fetch →
        twoPhaseWithin memory width call blank (counted narrow) =
          twoPhaseWithin memory width call blank fetch := by
  intro asked after filled
  obtain ⟨calls, result, s', hnoted, hplain, hasks⟩ :=
    asks_twoPhaseWithin memory width call blank fetch s
  refine ⟨calls, result, s', hnoted, hplain, hasks.calls_eq rfl rfl, ?_, ?_,
    hasks.result_eq_error_iff, hasks.result_eq_ok rfl rfl,
    ⟨length_filledBuffer _ _ _, fun h => filledBuffer_eq h _⟩,
    fun narrow hsame => hsame.twoPhase_counted memory width call blank⟩
  · exact (hasks.result_eq_halt_iff rfl _).trans
      (and_congr_right' allocate_eq_capacityOverflow_iff)
  · exact (hasks.result_eq_halt_iff rfl _).trans (and_congr_right' allocate_eq_outOfMemory_iff)

/-- A driver that reports two items after it has reported four, and writes three of them. -/
def shrinking : Request Nat → StateM Bool (Reply Nat UInt8) := fun _ again =>
  (⟨.success, if again then 2 else 4, [7, 8, 9]⟩, true)

theorem twoPhase_of_any_driver_shrinking :
    SameCounts (narrowed shrinking) shrinking ∧
      (∃ s' calls, (twoPhaseWithin 100 1 "query" 0 (transcribed shrinking)).run.run (false, []) =
        (.ok (.ok [7, 8]), s', calls) ∧ calls.map (·.request.capacity) = [none, some 4]) ∧
      twoPhaseWithin 100 1 "query" 0 (counted (narrowed shrinking)) =
        twoPhaseWithin 100 1 "query" 0 shrinking := by
  have hsame : SameCounts (narrowed shrinking) shrinking := by
    refine sameCounts_narrowed fun r again _ => ?_
    cases again
    · exact (by decide : 4 < 2 ^ 32)
    · exact (by decide : 2 < 2 ^ 32)
  obtain ⟨calls, result, s', hnoted, -, hcalls, -, -, -, hok, -, hcounted⟩ :=
    twoPhase_of_any_driver 100 1 "query" 0 shrinking false
  have hresult : result = .ok (.ok [7, 8]) := hok (by rw [hcalls]; rfl) (by decide)
  refine ⟨hsame, ⟨s', calls, hresult ▸ hnoted, ?_⟩, hcounted _ hsame⟩
  rw [hcalls]
  rfl

/-- A driver that reports the greatest size there is. -/
def endless : Request Nat → StateM Unit (Reply Nat UInt8) := fun _ =>
  return ⟨.success, 2 ^ 64 - 1, []⟩

/-- It is asked once although it neither refuses nor reports nothing, and no call fails. -/
theorem no_second_call_endless :
    (twoPhaseWithin maxAllocation 1 "query" 0 (transcribed endless)).run.run ((), []) =
        (.error .capacityOverflow, (), [⟨⟨none, 0⟩, ⟨.success, 2 ^ 64 - 1, []⟩⟩]) ∧
      firstFailure? [(⟨⟨none, 0⟩, ⟨.success, 2 ^ 64 - 1, []⟩⟩ : Exchange Nat UInt8)] = none := by
  refine ⟨?_, by decide⟩
  have hbuffer : allocate maxAllocation 1 (0 : UInt8) (2 ^ 64 - 1) = .error .capacityOverflow :=
    allocate_eq_capacityOverflow_iff.2 (by decide)
  have hask : (endless ⟨none, 0⟩).run () = (⟨.success, 2 ^ 64 - 1, []⟩, ()) := rfl
  rw [twoPhaseWithin, twoPhase, run_lift_bind (run_transcribed hask []), if_neg (by decide), hbuffer,
    run_error_bind]
  rfl

end KernelForge.Device
