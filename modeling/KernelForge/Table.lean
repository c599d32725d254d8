/-!
# Tables

A table holds at most one entry for each key. Entering a key that is present replaces its entry.
Main statements: what `get?` finds after each operation.
-/

namespace KernelForge

variable {κ α : Type} [DecidableEq κ]

/-- A finite map, as the list of its entries. -/
structure Table (κ α : Type) where
  entries : List (κ × α) := []

namespace Table

/-- The first value listed under a key. -/
def lookup (k : κ) : List (κ × α) → Option α
  | [] => none
  | (i, a) :: rest => if i = k then some a else lookup k rest

/-- The entry of a key. -/
def get? (t : Table κ α) (k : κ) : Option α :=
  lookup k t.entries

/-- Whether a key has an entry. -/
def contains (t : Table κ α) (k : κ) : Bool :=
  (t.get? k).isSome

/-- The keys that have an entry. -/
def keys (t : Table κ α) : List κ :=
  t.entries.map Prod.fst

/-- The number of entries. -/
def size (t : Table κ α) : Nat :=
  t.entries.length

/-- Remove the entry of a key. -/
def erase (t : Table κ α) (k : κ) : Table κ α :=
  ⟨t.entries.filter fun e => e.1 ≠ k⟩

/-- Enter a value under a key. -/
def insert (t : Table κ α) (k : κ) (a : α) : Table κ α :=
  ⟨(t.erase k).entries ++ [(k, a)]⟩

/-- Change the entry of a key, if there is one. -/
def modify (t : Table κ α) (k : κ) (f : α → α) : Table κ α :=
  ⟨t.entries.map fun e => if e.1 = k then (e.1, f e.2) else e⟩

theorem lookup_filter_ne (entries : List (κ × α)) (k j : κ) :
    lookup j (entries.filter fun e => e.1 ≠ k) = if j = k then none else lookup j entries := by
  induction entries with
  | nil => simp [lookup]
  | cons e rest ih => grind [lookup]

theorem lookup_append (xs ys : List (κ × α)) (k : κ) :
    lookup k (xs ++ ys) = (lookup k xs).or (lookup k ys) := by
  induction xs with
  | nil => simp [lookup]
  | cons e rest ih => grind [lookup]

@[simp] theorem get?_erase (t : Table κ α) (k j : κ) :
    (t.erase k).get? j = if j = k then none else t.get? j :=
  lookup_filter_ne t.entries k j

@[simp] theorem get?_insert (t : Table κ α) (k j : κ) (a : α) :
    (t.insert k a).get? j = if j = k then some a else t.get? j := by
  simp only [insert, get?, lookup_append, erase, lookup_filter_ne]
  grind [lookup]

@[simp] theorem get?_modify (t : Table κ α) (k j : κ) (f : α → α) :
    (t.modify k f).get? j = if j = k then (t.get? j).map f else t.get? j := by
  simp only [modify, get?]
  induction t.entries with
  | nil => simp [lookup]
  | cons e rest ih => grind [lookup]

/-! ### Keys -/

theorem contains_iff {t : Table κ α} {k : κ} : t.contains k = true ↔ k ∈ t.keys := by
  rw [contains, get?, keys]
  induction t.entries with
  | nil => simp [lookup]
  | cons e rest ih => grind [lookup]

theorem contains_of_get? {t : Table κ α} {k : κ} {a : α} (h : t.get? k = some a) :
    t.contains k = true := by
  rw [contains, h]
  rfl

omit [DecidableEq κ] in
theorem length_keys (t : Table κ α) : t.keys.length = t.size := by
  rw [keys, size, List.length_map]

theorem keys_erase (t : Table κ α) (k : κ) : (t.erase k).keys = t.keys.filter (· ≠ k) := by
  rw [erase, keys, keys, List.filter_map]
  rfl

theorem keys_insert (t : Table κ α) (k : κ) (a : α) :
    (t.insert k a).keys = t.keys.filter (· ≠ k) ++ [k] := by
  rw [← keys_erase, insert, keys, List.map_append]
  rfl

theorem nodup_keys_insert {t : Table κ α} (h : t.keys.Nodup) (k : κ) (a : α) :
    (t.insert k a).keys.Nodup := by
  rw [keys_insert, List.nodup_append]
  refine ⟨List.Pairwise.filter _ h, List.pairwise_singleton _ k, fun j hj i hi => ?_⟩
  rw [List.mem_singleton.1 hi]
  exact of_decide_eq_true (List.mem_filter.1 hj).2

theorem get?_eq_none {t : Table κ α} {k : κ} : t.get? k = none ↔ k ∉ t.keys := by
  rw [← contains_iff, contains, Bool.not_eq_true, Option.isSome_eq_false_iff,
    Option.isNone_iff_eq_none]

/-- Changing an entry that is not there changes nothing. -/
theorem get?_modify_of_not_mem {t : Table κ α} {k : κ} (h : k ∉ t.keys) (f : α → α) (j : κ) :
    (t.modify k f).get? j = t.get? j := by
  rw [get?_modify]
  split
  · rename_i hj
    rw [hj, get?_eq_none.2 h]
    rfl
  · rfl

theorem lookup_of_mem {entries : List (κ × α)} {k : κ} {a : α}
    (hkeys : (entries.map Prod.fst).Nodup) (h : (k, a) ∈ entries) : lookup k entries = some a := by
  induction entries with
  | nil => cases h
  | cons e rest ih =>
    obtain ⟨i, b⟩ := e
    rw [List.map_cons, List.nodup_cons] at hkeys
    rw [lookup]
    cases h with
    | head => rw [if_pos rfl]
    | tail _ h =>
      have hk : k ∈ rest.map Prod.fst := List.mem_map_of_mem h
      have hne : i ≠ k := fun heq => hkeys.1 (heq ▸ hk)
      rw [if_neg hne, ih hkeys.2 h]

theorem get?_of_mem {t : Table κ α} {k : κ} {a : α} (hkeys : t.keys.Nodup)
    (h : (k, a) ∈ t.entries) : t.get? k = some a :=
  lookup_of_mem hkeys h

theorem mem_of_get? {t : Table κ α} {k : κ} {a : α} (h : t.get? k = some a) :
    (k, a) ∈ t.entries := by
  rw [get?] at h
  induction hentries : t.entries generalizing t with
  | nil => simp [hentries, lookup] at h
  | cons e rest ih =>
    rw [hentries, lookup] at h
    split at h
    · rename_i hk
      rw [← hk, ← Option.some.inj h]
      exact List.mem_cons_self
    · exact List.mem_cons_of_mem _ (ih (t := ⟨rest⟩) h rfl)

theorem erase_of_not_mem {t : Table κ α} {k : κ} (h : k ∉ t.keys) : t.erase k = t := by
  have hall : ∀ e ∈ t.entries, decide (e.1 ≠ k) = true := fun e he =>
    decide_eq_true fun heq => h (heq ▸ List.mem_map_of_mem he)
  rw [erase, List.filter_eq_self.2 hall]

theorem erase_insert (t : Table κ α) (k : κ) (a : α) : (t.insert k a).erase k = t.erase k := by
  simp [insert, erase, List.filter_append]

theorem count_keys_insert (t : Table κ α) (k j : κ) (a : α) :
    (t.insert k a).keys.count j = if j = k then 1 else t.keys.count j := by
  rw [keys_insert, List.count_append, List.count_singleton]
  by_cases h : j = k
  · have hnone : (t.keys.filter (· ≠ k)).count j = 0 :=
      List.count_eq_zero.2 fun hmem => of_decide_eq_true (List.mem_filter.1 hmem).2 h
    rw [hnone, h, if_pos (beq_self_eq_true k), if_pos rfl]
  · have hkeep : (t.keys.filter (· ≠ k)).count j = t.keys.count j :=
      List.count_filter (by simpa using h)
    rw [hkeep, if_neg h, if_neg fun hk => h (eq_of_beq hk).symm]
    rfl

@[simp] theorem keys_modify (t : Table κ α) (k : κ) (f : α → α) : (t.modify k f).keys = t.keys := by
  rw [modify, keys, keys, List.map_map]
  apply List.map_congr_left
  intro e _
  simp only [Function.comp]
  split <;> rfl

end Table

end KernelForge
