import KernelForge.Table

/-!
# Building once for each kernel

The cache keeps one artifact for each key. Who asks for a key first gets a slot for it and builds;
whoever else asks for the key finds the same slot and waits for it. A failed build takes its slot out
of the cache, so that the next caller builds again; a caller that still holds such a slot notices
that it is not the current one any more.

The operations on slots are the steps of a caller: `slot`, `artifact?`, `isCurrent`, `publish` and
`discard`. `getOrBuild` is a caller that nobody interrupts.
-/

namespace KernelForge.Launch

universe u

variable {κ α ε : Type} [DecidableEq κ] {m : Type → Type u}

/-- Artifacts by key. -/
structure Cache (κ α : Type) where
  /-- The contents of every slot ever made. A slot is named by its position. -/
  slots : List (Option α) := []
  /-- The slot of each key. -/
  current : Table κ Nat := {}

namespace Cache

/-- The slot of a key; a new empty one if it has none. -/
def slot (c : Cache κ α) (key : κ) : Nat × Cache κ α :=
  match c.current.get? key with
  | some id => (id, c)
  | none => (c.slots.length, ⟨c.slots ++ [none], c.current.insert key c.slots.length⟩)

/-- What a slot holds. -/
def artifact? (c : Cache κ α) (id : Nat) : Option α :=
  (c.slots[id]?).join

/-- Whether a slot is still the one of a key. -/
def isCurrent (c : Cache κ α) (key : κ) (id : Nat) : Bool :=
  c.current.get? key = some id

/-- Put an artifact in a slot. -/
def publish (c : Cache κ α) (id : Nat) (artifact : α) : Cache κ α :=
  { c with slots := c.slots.set id (some artifact) }

/-- Take a slot out of the cache, if it is still the one of the key. -/
def discard (c : Cache κ α) (key : κ) (id : Nat) : Cache κ α :=
  if c.isCurrent key id then { c with current := c.current.erase key } else c

/-! ### What the steps do -/

@[simp] theorem get?_current_slot (c : Cache κ α) (key j : κ) :
    (c.slot key).2.current.get? j = if j = key then some (c.slot key).1 else c.current.get? j := by
  unfold slot
  split
  · rename_i id hid
    split
    · rename_i h
      rw [h, hid]
    · rfl
  · simp

/-- A new slot is empty. -/
@[simp] theorem artifact?_slot (c : Cache κ α) (key : κ) (id : Nat) :
    (c.slot key).2.artifact? id = c.artifact? id := by
  unfold slot artifact?
  split
  · rfl
  · grind

theorem slot_of_current {c : Cache κ α} {key : κ} {id : Nat} (h : c.current.get? key = some id) :
    c.slot key = (id, c) := by
  rw [slot, h]

theorem slot_of_none {c : Cache κ α} {key : κ} (h : c.current.get? key = none) :
    c.slot key = (c.slots.length, ⟨c.slots ++ [none], c.current.insert key c.slots.length⟩) := by
  rw [slot, h]

theorem get?_current_slot_of_current {c : Cache κ α} {j : κ} {id : Nat}
    (h : c.current.get? j = some id) (key : κ) : (c.slot key).2.current.get? j = some id := by
  rw [get?_current_slot]
  split
  · rename_i hj
    rw [hj] at h
    rw [slot_of_current h]
  · exact h

theorem isCurrent_iff {c : Cache κ α} {key : κ} {id : Nat} :
    c.isCurrent key id = true ↔ c.current.get? key = some id := by
  simp [isCurrent]

/-- A slot that was just looked up is the current one. -/
theorem isCurrent_slot (c : Cache κ α) (key : κ) :
    (c.slot key).2.isCurrent key (c.slot key).1 = true := by
  simp [isCurrent_iff]

omit [DecidableEq κ] in
theorem artifact?_publish {c : Cache κ α} {id : Nat} (h : id < c.slots.length) (artifact : α)
    (j : Nat) :
    (c.publish id artifact).artifact? j = if j = id then some artifact else c.artifact? j := by
  simp only [publish, artifact?]
  grind

@[simp] theorem artifact?_discard (c : Cache κ α) (key : κ) (id j : Nat) :
    (c.discard key id).artifact? j = c.artifact? j := by
  unfold discard
  split <;> rfl

@[simp] theorem slots_discard (c : Cache κ α) (key : κ) (id : Nat) :
    (c.discard key id).slots = c.slots := by
  unfold discard
  split <;> rfl

theorem get?_current_discard {c : Cache κ α} {key : κ} {id : Nat}
    (h : c.current.get? key = some id) (j : κ) :
    (c.discard key id).current.get? j = if j = key then none else c.current.get? j := by
  rw [discard, if_pos (isCurrent_iff.2 h)]
  simp

/-- The artifact of a key. It is built if there is none; a failed build leaves none. There is no look
whether an empty slot is still the current one of its key: it always is for a caller that nobody
interrupts (`isCurrent_slot`). -/
def getOrBuild [Monad m] (c : Cache κ α) (key : κ) (build : m (Except ε α)) :
    m (Except ε α × Cache κ α) := do
  let (id, c) := c.slot key
  match c.artifact? id with
  | some artifact => return (.ok artifact, c)
  | none =>
    match ← build with
    | .ok artifact => return (.ok artifact, c.publish id artifact)
    | .error e => return (.error e, c.discard key id)

/-- The artifact of a key, if it has been built. -/
def get? (c : Cache κ α) (key : κ) : Option α :=
  (c.current.get? key).bind c.artifact?

theorem get?_eq_some {c : Cache κ α} {key : κ} {a : α} :
    c.get? key = some a ↔ ∃ id, c.current.get? key = some id ∧ c.artifact? id = some a :=
  Option.bind_eq_some_iff

/-- Looking up a slot builds nothing. -/
@[simp] theorem get?_slot (c : Cache κ α) (key j : κ) : (c.slot key).2.get? j = c.get? j := by
  cases h : c.current.get? key with
  | some id => rw [slot_of_current h]
  | none =>
    have hempty : c.artifact? c.slots.length = none := by simp [artifact?]
    have hslot : (c.slot key).1 = c.slots.length := by rw [slot_of_none h]
    simp only [get?, get?_current_slot, hslot]
    split
    · rename_i hj
      rw [hj, h, Option.bind_some, artifact?_slot, hempty, Option.bind_none]
    · exact Option.bind_congr fun id _ => artifact?_slot c key id

/-- Whether the artifact of a key has been built. -/
def contains (c : Cache κ α) (key : κ) : Bool :=
  (c.get? key).isSome

/-- The artifacts that have been built. -/
def artifacts (c : Cache κ α) : List α :=
  c.current.entries.filterMap fun entry => c.artifact? entry.2

/-- How many artifacts have been built. -/
def size (c : Cache κ α) : Nat :=
  c.artifacts.length

/-- Whether no artifact has been built. -/
def isEmpty (c : Cache κ α) : Bool :=
  c.size == 0

/-- Take all artifacts out of the cache. -/
def drain (c : Cache κ α) : List α × Cache κ α :=
  (c.artifacts, ⟨c.current.entries.foldl (fun slots entry => slots.set entry.2 none) c.slots, {}⟩)

end Cache

end KernelForge.Launch
