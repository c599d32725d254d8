import KernelForge.Proofs.Artifacts

/-!
# The cache as a finite map

Somebody who asks the cache one thing after another cannot tell it from a finite map from keys to
artifacts (`observed_as_map`). `Cache.Holds` ties a cache to the map that it stands for: every slot
that can be found is filled, and what the slots hold are the entries of the map. Each query keeps
this and gets the same answer from both (`Cache.Holds.carryOut`), hence so does every history.

A build may do anything to the world around the cache, so that a build too many or too few would
show.
-/

namespace KernelForge.Launch

variable {σ κ α ε : Type} [DecidableEq κ]

/-! ### Histories -/

/-- What a cache can be asked for. A build is a computation in a world of type `σ`. -/
inductive Query (σ κ α ε : Type)
  | getOrBuild (key : κ) (build : StateM σ (Except ε α))
  | contains (key : κ)
  | size
  | isEmpty
  | drain

/-- The answer to a query. Drained artifacts have no order. -/
inductive Answer (α ε : Type)
  | artifact (result : Except ε α)
  | contains (found : Bool)
  | size (count : Nat)
  | isEmpty (empty : Bool)
  | drained (artifacts : Multiset α)

/-- Ask for one thing after another. -/
def answers {S : Type} (carryOut : S → Query σ κ α ε → StateM σ (Answer α ε × S)) (s : S) :
    List (Query σ κ α ε) → StateM σ (List (Answer α ε) × S)
  | [] => return ([], s)
  | q :: rest => do
    let (a, s) ← carryOut s q
    let (as, s) ← answers carryOut s rest
    return (a :: as, s)

/-- What the cache does. -/
def Cache.carryOut (c : Cache κ α) : Query σ κ α ε → StateM σ (Answer α ε × Cache κ α)
  | .getOrBuild key build => do
    let (result, c) ← c.getOrBuild key build
    return (.artifact result, c)
  | .contains key => return (.contains (c.contains key), c)
  | .size => return (.size c.size, c)
  | .isEmpty => return (.isEmpty c.isEmpty, c)
  | .drain => return (.drained c.drain.1, c.drain.2)

/-- What a finite map does: only a key that is absent is built, and only a success is stored. -/
def carryOutByMap (f : Finmap fun _ : κ => α) :
    Query σ κ α ε → StateM σ (Answer α ε × Finmap fun _ : κ => α)
  | .getOrBuild key build =>
    match f.lookup key with
    | some a => return (.artifact (.ok a), f)
    | none => do
      match ← build with
      | .ok a => return (.artifact (.ok a), f.insert key a)
      | .error e => return (.artifact (.error e), f)
  | .contains key => return (.contains (decide (key ∈ f)), f)
  | .size => return (.size f.keys.card, f)
  | .isEmpty => return (.isEmpty (decide (f.keys = ∅)), f)
  | .drain => return (.drained (f.entries.map Sigma.snd), ∅)

/-! ### The map that a cache stands for -/

variable {c : Cache κ α} {f : Finmap fun _ : κ => α} {key : κ}

namespace Cache

/-- A cache stands for a finite map. -/
structure Holds (c : Cache κ α) (f : Finmap fun _ : κ => α) : Prop where
  tidy : c.Tidy
  entries : f.entries = (c.contents.map fun e => (⟨e.1, e.2⟩ : Sigma fun _ : κ => α) : List _)

namespace Holds

omit [DecidableEq κ] in
theorem empty : Holds ({} : Cache κ α) ∅ :=
  ⟨.empty, rfl⟩

theorem lookup_eq_some (h : c.Holds f) {a : α} : f.lookup key = some a ↔ (key, a) ∈ c.contents := by
  rw [Finmap.lookup_eq_some_iff, h.entries, Multiset.mem_coe, List.mem_map]
  constructor
  · rintro ⟨⟨k, b⟩, hmem, heq⟩
    cases heq
    exact hmem
  · exact fun hmem => ⟨_, hmem, rfl⟩

theorem mem_iff (h : c.Holds f) : key ∈ f ↔ key ∈ c.contents.map Prod.fst := by
  rw [Finmap.mem_iff, List.mem_map]
  constructor
  · rintro ⟨a, ha⟩
    exact ⟨_, h.lookup_eq_some.1 ha, rfl⟩
  · rintro ⟨⟨k, a⟩, hmem, rfl⟩
    exact ⟨a, h.lookup_eq_some.2 hmem⟩

theorem contains_eq (h : c.Holds f) (key : κ) : c.contains key = decide (key ∈ f) := by
  rw [Bool.eq_iff_iff, decide_eq_true_iff, h.mem_iff, h.tidy.keys_contents, ← Table.contains_iff,
    Table.contains, Cache.contains, Cache.get?]
  cases hslot : c.current.get? key with
  | none => rfl
  | some id =>
    obtain ⟨a, ha⟩ := h.tidy.filled (key, id) (Table.mem_of_get? hslot)
    rw [Option.bind_some, ha]
    rfl

omit [DecidableEq κ] in
theorem values_eq (h : c.Holds f) : f.entries.map Sigma.snd = c.artifacts := by
  rw [h.entries, Multiset.map_coe, List.map_map, artifacts_eq]
  rfl

omit [DecidableEq κ] in
theorem size_eq (h : c.Holds f) : c.size = f.keys.card := by
  have hcard : f.keys.card = (f.entries.map Sigma.snd).card := by
    rw [Multiset.card_map, Finmap.keys, Finset.card_mk, Multiset.keys, Multiset.card_map]
  rw [hcard, h.values_eq, Multiset.coe_card, Cache.size]

theorem isEmpty_eq (h : c.Holds f) : c.isEmpty = decide (f.keys = ∅) := by
  rw [Cache.isEmpty, h.size_eq, Bool.eq_iff_iff, beq_iff_eq, decide_eq_true_iff,
    Finset.card_eq_zero]

theorem add (h : c.Holds f) (hkey : key ∉ f) (a : α) : (c.add key a).Holds (f.insert key a) where
  tidy := h.tidy.add (by rwa [h.mem_iff, h.tidy.keys_contents] at hkey) a
  entries := by
    rw [Finmap.entries_insert_of_notMem hkey, h.entries, h.tidy.contents_add, List.map_append,
      Multiset.cons_coe, Multiset.coe_eq_coe]
    exact (List.perm_append_singleton _ _).symm

omit [DecidableEq κ] in
theorem skip (h : c.Holds f) : c.skip.Holds f where
  tidy := h.tidy.skip
  entries := by rw [h.tidy.contents_skip, h.entries]

omit [DecidableEq κ] in
theorem drain (c : Cache κ α) : c.drain.2.Holds ∅ where
  tidy := Tidy.drain c
  entries := rfl

/-- Asking for an artifact: one that is held is returned, any other is built. -/
theorem getOrBuild (h : c.Holds f) (key : κ) (build : StateM σ (Except ε α)) (world : σ) :
    ∃ a c' f' world', c.carryOut (.getOrBuild key build) world = ((a, c'), world') ∧
      carryOutByMap f (.getOrBuild key build) world = ((a, f'), world') ∧ c'.Holds f' := by
  cases hlookup : f.lookup key with
  | some a =>
    refine ⟨.artifact (.ok a), c, f, world, ?_, ?_, h⟩
    · rw [carryOut, h.tidy.getOrBuild_of_mem (h.lookup_eq_some.1 hlookup)]
      rfl
    · rw [carryOutByMap, hlookup]
      rfl
  | none =>
    have hkey : key ∉ f := Finmap.lookup_eq_none.1 hlookup
    have hmap := carryOutByMap.eq_1 (σ := σ) (ε := ε) f key build
    have hbuild := h.tidy.getOrBuild_of_not_mem (m := StateM σ) (by rwa [h.mem_iff] at hkey) build
    rw [hlookup] at hmap
    rw [carryOut, hbuild, hmap]
    match hresult : build world with
    | (.ok a, world') =>
      refine ⟨.artifact (.ok a), c.add key a, f.insert key a, world', ?_, ?_, h.add hkey a⟩
      all_goals simp [bind, StateT.bind, hresult, pure, StateT.pure]
    | (.error e, world') =>
      refine ⟨.artifact (.error e), c.skip, f, world', ?_, ?_, h.skip⟩
      all_goals simp [bind, StateT.bind, hresult, pure, StateT.pure]

/-- A cache and its map answer a query alike. -/
theorem carryOut (h : c.Holds f) (q : Query σ κ α ε) (world : σ) :
    ∃ a c' f' world', c.carryOut q world = ((a, c'), world') ∧
      carryOutByMap f q world = ((a, f'), world') ∧ c'.Holds f' := by
  cases q with
  | getOrBuild key build => exact h.getOrBuild key build world
  | contains key =>
    exact ⟨.contains (c.contains key), c, f, world, rfl, by rw [h.contains_eq]; rfl, h⟩
  | size => exact ⟨.size c.size, c, f, world, rfl, by rw [h.size_eq]; rfl, h⟩
  | isEmpty => exact ⟨.isEmpty c.isEmpty, c, f, world, rfl, by rw [h.isEmpty_eq]; rfl, h⟩
  | drain =>
    refine ⟨.drained c.artifacts, c.drain.2, ∅, world, rfl, ?_, .drain c⟩
    rw [← h.values_eq]
    rfl

/-- A cache and its map answer a history alike. -/
theorem answers (h : c.Holds f) (history : List (Query σ κ α ε)) (world : σ) :
    ∃ as c' f' world', Launch.answers Cache.carryOut c history world = ((as, c'), world') ∧
      Launch.answers carryOutByMap f history world = ((as, f'), world') ∧ c'.Holds f' := by
  induction history generalizing c f world with
  | nil => exact ⟨[], c, f, world, rfl, rfl, h⟩
  | cons q rest ih =>
    obtain ⟨a, c₁, f₁, world₁, hcache, hmap, h₁⟩ := h.carryOut q world
    obtain ⟨as, c₂, f₂, world₂, hcaches, hmaps, h₂⟩ := ih h₁ world₁
    refine ⟨a :: as, c₂, f₂, world₂, ?_, ?_, h₂⟩
    · simp [Launch.answers, bind, StateT.bind, hcache, hcaches, pure, StateT.pure]
    · simp [Launch.answers, bind, StateT.bind, hmap, hmaps, pure, StateT.pure]

end Holds

end Cache

/-! ### What can be observed -/

/-- The answers to a history, and the world after it. -/
def observed {S : Type} (carryOut : S → Query σ κ α ε → StateM σ (Answer α ε × S)) (s : S)
    (history : List (Query σ κ α ε)) (world : σ) : List (Answer α ε) × σ :=
  let ((as, _), world) := answers carryOut s history world
  (as, world)

/-- The state after a history. -/
def stateAfter {S : Type} (carryOut : S → Query σ κ α ε → StateM σ (Answer α ε × S)) (s : S)
    (history : List (Query σ κ α ε)) (world : σ) : S :=
  (answers carryOut s history world).1.2

theorem Cache.Holds.observed_eq (h : c.Holds f) (history : List (Query σ κ α ε)) (world : σ) :
    observed Cache.carryOut c history world = observed carryOutByMap f history world := by
  obtain ⟨as, c', f', world', hcache, hmap, -⟩ := h.answers history world
  rw [observed, observed, hcache, hmap]

/-- A build that fails leaves a cache that stands for the same map. -/
theorem Cache.Holds.failed (h : c.Holds f) (key : κ) (e : ε) (change : σ → σ) (world : σ) :
    (stateAfter Cache.carryOut c
      [.getOrBuild key fun world => (.error e, change world)] world).Holds f := by
  let build : StateM σ (Except ε α) := fun world => (.error e, change world)
  obtain ⟨as, c', f', world', hcache, hmap, h'⟩ := h.answers [.getOrBuild key build] world
  have hf : stateAfter carryOutByMap f [.getOrBuild key build] world = f := by
    rw [stateAfter, Launch.answers, carryOutByMap]
    cases f.lookup key with
    | some a => rfl
    | none => rfl
  rw [stateAfter, hmap] at hf
  rw [stateAfter, hcache]
  exact hf ▸ h'

/-- Whatever is asked of a cache, one thing after another, the answers and the effects on the world
are those of a finite map. After any history no slot without an artifact can be found, and a build
that fails then makes no difference to anything observed later. -/
theorem observed_as_map (history : List (Query σ κ α ε)) (world : σ) :
    let c : Cache κ α := stateAfter Cache.carryOut {} history world
    observed Cache.carryOut ({} : Cache κ α) history world =
        observed carryOutByMap ∅ history world ∧
      (∀ entry ∈ c.current.entries, ∃ a, c.artifact? entry.2 = some a) ∧
      ∀ (key : κ) (e : ε) (change : σ → σ) (later : List (Query σ κ α ε)) (w w' : σ),
        let failed := stateAfter Cache.carryOut c
          [.getOrBuild key fun world => (.error e, change world)] w
        observed Cache.carryOut failed later w' = observed Cache.carryOut c later w' := by
  intro c
  obtain ⟨as, c', f, world', hcache, hmap, h⟩ := Cache.Holds.empty.answers history world
  have hc : c = c' := congrArg (·.1.2) hcache
  refine ⟨Cache.Holds.empty.observed_eq history world, hc ▸ h.tidy.filled, ?_⟩
  intro key e change later w w' failed
  have hfailed : failed.Holds f := by
    have hafter := h.failed key e change w
    rwa [← hc] at hafter
  rw [hfailed.observed_eq, hc, h.observed_eq]

end KernelForge.Launch
