import Mathlib
import KernelForge.Launch.Cache

/-!
# What a cache holds

`Cache.contents` lists what has been built, with its keys. As long as nobody interrupts a caller,
every slot that can be found is filled (`Tidy`): a key that was built is found, and a build that
fails leaves the contents as they were.
-/

namespace KernelForge.Launch.Cache

universe u

variable {κ α ε : Type} {m : Type → Type u} {c : Cache κ α} {key : κ}

/-- What has been built, with its keys. -/
def contents (c : Cache κ α) : List (κ × α) :=
  c.current.entries.filterMap fun entry => (c.artifact? entry.2).map (entry.1, ·)

theorem artifacts_eq (c : Cache κ α) : c.artifacts = c.contents.map Prod.snd := by
  rw [artifacts, contents, List.map_filterMap]
  refine List.filterMap_congr fun entry _ => ?_
  simp [Function.comp_def]

/-- Every key has one slot, and there is an artifact in it. -/
structure Tidy (c : Cache κ α) : Prop where
  keys : c.current.keys.Nodup
  filled : ∀ entry ∈ c.current.entries, ∃ a, c.artifact? entry.2 = some a

/-- The cache after an artifact has been put in a new slot. -/
def add (c : Cache κ α) (key : κ) (a : α) : Cache κ α :=
  ⟨c.slots ++ [some a], ⟨c.current.entries ++ [(key, c.slots.length)]⟩⟩

/-- The cache after a new slot was made and taken out again. -/
def skip (c : Cache κ α) : Cache κ α :=
  ⟨c.slots ++ [none], c.current⟩

theorem lt_length {id : Nat} {a : α} (h : c.artifact? id = some a) : id < c.slots.length := by
  by_contra hid
  rw [artifact?, List.getElem?_eq_none (Nat.not_lt.1 hid)] at h
  cases h

theorem artifact?_add {id : Nat} {a b : α} (h : c.artifact? id = some b) :
    (c.add key a).artifact? id = some b := by
  rw [artifact?, add, List.getElem?_append_left (lt_length h)]
  exact h

theorem artifact?_skip {id : Nat} {b : α} (h : c.artifact? id = some b) :
    c.skip.artifact? id = some b := by
  rw [artifact?, skip, List.getElem?_append_left (lt_length h)]
  exact h

theorem artifact?_add_self (c : Cache κ α) (key : κ) (a : α) :
    (c.add key a).artifact? c.slots.length = some a := by
  simp [artifact?, add]

namespace Tidy

theorem empty : Tidy ({} : Cache κ α) where
  keys := List.nodup_nil
  filled := by simp

theorem drain (c : Cache κ α) : Tidy c.drain.2 where
  keys := List.nodup_nil
  filled := by simp [Cache.drain]

theorem add (h : Tidy c) (hkey : key ∉ c.current.keys) (a : α) : Tidy (c.add key a) where
  keys := by
    rw [Table.keys, Cache.add, List.map_append, List.map_singleton, List.nodup_append]
    refine ⟨h.keys, List.nodup_singleton key, ?_⟩
    rintro k hk j hj rfl
    rw [List.mem_singleton.1 hj] at hk
    exact hkey hk
  filled := by
    intro entry hentry
    rw [Cache.add, List.mem_append, List.mem_singleton] at hentry
    obtain hold | rfl := hentry
    · obtain ⟨b, hb⟩ := h.filled entry hold
      exact ⟨b, artifact?_add hb⟩
    · exact ⟨a, artifact?_add_self c key a⟩

theorem skip (h : Tidy c) : Tidy c.skip where
  keys := h.keys
  filled entry hentry := (h.filled entry hentry).imp fun _ => artifact?_skip

theorem keys_contents (h : Tidy c) : c.contents.map Prod.fst = c.current.keys := by
  have hfst : ∀ entry ∈ c.current.entries,
      ((c.artifact? entry.2).map (entry.1, ·)).map Prod.fst = some entry.1 := by
    intro entry hentry
    obtain ⟨a, ha⟩ := h.filled entry hentry
    rw [ha]
    rfl
  rw [contents, List.map_filterMap, List.filterMap_congr hfst, List.filterMap_eq_map']
  rfl

theorem contents_add (h : Tidy c) (key : κ) (a : α) :
    (c.add key a).contents = c.contents ++ [(key, a)] := by
  have hold : ∀ entry ∈ c.current.entries,
      ((c.add key a).artifact? entry.2).map (entry.1, ·) =
        (c.artifact? entry.2).map (entry.1, ·) := by
    intro entry hentry
    obtain ⟨b, hb⟩ := h.filled entry hentry
    rw [artifact?_add hb, hb]
  have hentries : (c.add key a).current.entries = c.current.entries ++ [(key, c.slots.length)] :=
    rfl
  rw [contents, hentries, List.filterMap_append, List.filterMap_congr hold,
    List.filterMap_cons_some (by rw [artifact?_add_self]; rfl)]
  rfl

theorem contents_skip (h : Tidy c) : c.skip.contents = c.contents := by
  refine List.filterMap_congr fun entry hentry => ?_
  obtain ⟨b, hb⟩ := h.filled entry hentry
  rw [artifact?_skip hb, hb]

variable [DecidableEq κ] [Monad m]

/-- A key that was built is not built again. -/
theorem getOrBuild_of_mem (h : Tidy c) {a : α} (hmem : (key, a) ∈ c.contents)
    (build : m (Except ε α)) : c.getOrBuild key build = pure (.ok a, c) := by
  obtain ⟨⟨k, id⟩, hentry, ha⟩ := List.mem_filterMap.1 hmem
  obtain ⟨b, hb, heq⟩ := Option.map_eq_some_iff.1 ha
  cases heq
  have hslot : c.slot k = (id, c) := slot_of_current (Table.get?_of_mem h.keys hentry)
  simp only [getOrBuild, hslot, hb]

/-- A key that was not built is built now. -/
theorem getOrBuild_of_not_mem (h : Tidy c) (hkey : key ∉ c.contents.map Prod.fst)
    (build : m (Except ε α)) :
    c.getOrBuild key build = do
      match ← build with
      | .ok a => return (.ok a, c.add key a)
      | .error e => return (.error e, c.skip) := by
  rw [h.keys_contents] at hkey
  have hslot := slot_of_none (Table.get?_eq_none.2 hkey)
  have hempty : (c.slot key).2.artifact? c.slots.length = none := by
    rw [artifact?_slot]
    simp [artifact?]
  have hpublish (a : α) : (c.slot key).2.publish c.slots.length a = c.add key a := by
    rw [hslot, publish, Table.insert, Table.erase_of_not_mem hkey, List.set_append_right _ _ le_rfl,
      Nat.sub_self, List.set_cons_zero, Cache.add]
  have hdiscard : (c.slot key).2.discard key c.slots.length = c.skip := by
    have hcurrent := isCurrent_slot c key
    rw [hslot] at hcurrent ⊢
    rw [discard, if_pos hcurrent, Table.erase_insert, Table.erase_of_not_mem hkey, Cache.skip]
  rw [hslot] at hempty hpublish hdiscard
  simp only [getOrBuild, hslot, hempty]
  refine bind_congr fun result => ?_
  cases result with
  | ok a => simp only [hpublish]
  | error e => simp only [hdiscard]

end Tidy

end KernelForge.Launch.Cache
