import Mathlib
import KernelForge.Launch.Platform
import KernelForge.Proofs.Discovery

/-!
# The device that is chosen

Of the platforms that are found the first accepted one is taken, and of its devices the first
greatest one (`selectDevice_eq_ok_iff`). That there is none is the only way to fail, as a simulator
without injected failures answers every question. Whatever platforms come after the one that is
taken, the choice is the same (`selectDevice_of_take_eq`).
-/

namespace KernelForge.Launch

open Device

/-! ### Greatest items -/

section Best

variable {α : Type} {rank : α → α → Ordering} {items : List α} {a : α}

/-- No item is greater than `a`, and all items before `a` are less. -/
def FirstGreatest (rank : α → α → Ordering) (items : List α) (a : α) : Prop :=
  ∃ before after, items = before ++ a :: after ∧ (∀ x ∈ items, rank x a ≠ .gt) ∧
    ∀ x ∈ before, rank x a = .lt

theorem FirstGreatest.singleton [Std.TransCmp rank] : FirstGreatest rank [a] a :=
  have hself : rank a a = .eq := Std.ReflCmp.compare_self
  ⟨[], [], rfl, by simp [hself], by simp⟩

/-- One more item takes the place of the greatest only if it is greater. -/
theorem FirstGreatest.step [Std.TransCmp rank] (h : FirstGreatest rank items a) (b : α) :
    FirstGreatest rank (items ++ [b]) (if rank b a = .gt then b else a) := by
  obtain ⟨before, after, rfl, hle, hlt⟩ := h
  split
  · rename_i hgt
    have hless : ∀ x ∈ before ++ a :: after, rank x b = .lt := fun x hx =>
      Std.TransCmp.lt_of_isLE_of_lt (Ordering.isLE_iff_ne_gt.2 (hle x hx))
        (Std.OrientedCmp.gt_iff_lt.1 hgt)
    refine ⟨before ++ a :: after, [], rfl, fun x hx => ?_, hless⟩
    obtain hx | hx := List.mem_append.1 hx
    · rw [hless x hx]
      decide
    · have hself : rank b b = .eq := Std.ReflCmp.compare_self
      rw [List.mem_singleton.1 hx, hself]
      decide
  · rename_i hgt
    refine ⟨before, after ++ [b], by simp, fun x hx => ?_, hlt⟩
    obtain hx | hx := List.mem_append.1 hx
    · exact hle x hx
    · rwa [List.mem_singleton.1 hx]

theorem FirstGreatest.foldl [Std.TransCmp rank] (h : FirstGreatest rank items a) (rest : List α) :
    FirstGreatest rank (items ++ rest)
      (rest.foldl (fun best item => if rank item best = .gt then item else best) a) := by
  induction rest generalizing items a with
  | nil => rwa [List.append_nil]
  | cons b rest ih =>
    have hrest := ih (h.step b)
    rwa [List.append_assoc, List.singleton_append] at hrest

variable (rank) in
theorem exists_best? [Std.TransCmp rank] (h : items ≠ []) :
    ∃ a, best? rank items = some a ∧ FirstGreatest rank items a := by
  cases items with
  | nil => exact absurd rfl h
  | cons first rest => exact ⟨_, rfl, FirstGreatest.singleton.foldl rest⟩

/-- There is one first greatest item only. -/
theorem FirstGreatest.unique [Std.TransCmp rank] {b : α} (ha : FirstGreatest rank items a)
    (hb : FirstGreatest rank items b) : a = b := by
  -- an item before a first greatest one is less, so neither can come before the other
  have habsurd {x y : α} {xs ys : List α} (hx : FirstGreatest rank items x)
      (hitems : items = xs ++ y :: ys) (hlt : ∀ z ∈ xs, rank z y = .lt) (hmem : x ∈ xs) :
      False := by
    obtain ⟨-, -, -, hle, -⟩ := hx
    have hgt := Std.OrientedCmp.gt_iff_lt.2 (hlt x hmem)
    exact hle y (by simp [hitems]) hgt
  obtain ⟨xs, ys, hxs, -, hlt⟩ := id ha
  obtain ⟨xs', ys', hxs', -, hlt'⟩ := id hb
  obtain ⟨c, hc, htail⟩ | ⟨c, hc, htail⟩ := List.append_eq_append_iff.1 (hxs.symm.trans hxs')
  · cases c with
    | nil => exact (List.cons.inj htail).1
    | cons z c =>
      obtain rfl := (List.cons.inj htail).1
      exact (habsurd ha hxs' hlt' (by simp [hc])).elim
  · cases c with
    | nil => exact (List.cons.inj htail).1.symm
    | cons z c =>
      obtain rfl := (List.cons.inj htail).1
      exact (habsurd hb hxs hlt (by simp [hc])).elim

end Best

/-! ### Choosing from a catalog -/

section Catalog

variable {c : Catalog} {options : Options} {profiles before : List PlatformProfile}
  {p : PlatformProfile} {devices : List DeviceProfile}

/-- The first platform that is accepted, and the platforms before it. -/
structure FirstAccepted (accepts : PlatformProfile → Bool) (profiles before : List PlatformProfile)
    (p : PlatformProfile) : Prop where
  split : ∃ after, profiles = before ++ p :: after
  skipped : ∀ q ∈ before, accepts q = false
  accepted : accepts p = true

theorem FirstAccepted.mem (h : FirstAccepted options.accepts profiles before p) : p ∈ profiles := by
  obtain ⟨after, rfl⟩ := h.split
  exact List.mem_append_right _ List.mem_cons_self

theorem FirstAccepted.find?_eq (h : FirstAccepted options.accepts profiles before p) :
    profiles.find? options.accepts = some p := by
  obtain ⟨after, hsplit⟩ := h.split
  exact List.find?_eq_some_iff_append.2
    ⟨h.accepted, before, after, hsplit, fun q hq => by simp [h.skipped q hq]⟩

theorem none_or_firstAccepted (accepts : PlatformProfile → Bool) (profiles : List PlatformProfile) :
    (∀ p ∈ profiles, accepts p = false) ∨ ∃ before p, FirstAccepted accepts profiles before p := by
  cases h : profiles.find? accepts with
  | none => exact .inl fun p hp => by simpa using List.find?_eq_none.1 h p hp
  | some p =>
    obtain ⟨haccepted, before, after, hsplit, hskipped⟩ := List.find?_eq_some_iff_append.1 h
    exact .inr ⟨before, p, ⟨after, hsplit⟩, fun q hq => by simpa using hskipped q hq, haccepted⟩

/-- Choosing fails because the platforms are not as the options want them. -/
def Misconfigured {α : Type} (result : Except Error α) : Prop :=
  ∃ e report, result = .error e ∧ e.report? = some report ∧ report.kind = .configuration

theorem selectDevice_of_none (hplatforms : c.platforms = .ok profiles)
    (hnone : ∀ p ∈ profiles, options.accepts p = false) :
    selectDevice c options = .error (.noPlatform profiles.length) := by
  have hfind : profiles.find? options.accepts = none :=
    List.find?_eq_none.2 fun p hp => by simp [hnone p hp]
  rw [selectDevice, hplatforms]
  simp only [Except.mapError, bind, Except.bind, hfind]
  rfl

theorem selectDevice_of_first (hplatforms : c.platforms = .ok profiles)
    (hfirst : FirstAccepted options.accepts profiles before p)
    (hdevices : c.devices p.id = .ok devices) :
    selectDevice c options = match best? options.rank devices with
      | none => .error (.noDevice p.name)
      | some d => .ok ⟨p, d⟩ := by
  rw [selectDevice, hplatforms]
  simp only [Except.mapError, bind, Except.bind, hfirst.find?_eq, hdevices]
  rfl

theorem misconfigured_noPlatform {α : Type} (available : Nat) :
    Misconfigured (.error (.noPlatform available) : Except Error α) :=
  ⟨_, _, rfl, rfl, rfl⟩

theorem misconfigured_noDevice {α : Type} (platform : String) :
    Misconfigured (.error (.noDevice platform) : Except Error α) :=
  ⟨_, _, rfl, rfl, rfl⟩

variable (options) in
/-- No platform is accepted, the first accepted one has no devices, or one of them is chosen. -/
theorem selectDevice_cases [Std.TransCmp options.rank] (hplatforms : c.platforms = .ok profiles)
    (hdevices : ∀ p ∈ profiles, ∃ devices, c.devices p.id = .ok devices) :
    (∀ p ∈ profiles, options.accepts p = false) ∧ Misconfigured (selectDevice c options) ∨
    (∃ before p, FirstAccepted options.accepts profiles before p ∧ c.devices p.id = .ok [] ∧
      Misconfigured (selectDevice c options)) ∨
    ∃ before p devices d, FirstAccepted options.accepts profiles before p ∧
      c.devices p.id = .ok devices ∧ FirstGreatest options.rank devices d ∧
      selectDevice c options = .ok ⟨p, d⟩ := by
  obtain hnone | ⟨before, p, hfirst⟩ := none_or_firstAccepted options.accepts profiles
  · exact .inl ⟨hnone, selectDevice_of_none hplatforms hnone ▸ misconfigured_noPlatform _⟩
  obtain ⟨devices, hp⟩ := hdevices p hfirst.mem
  have hselect := selectDevice_of_first hplatforms hfirst hp
  by_cases hempty : devices = []
  · rw [hempty] at hp hselect
    exact .inr (.inl ⟨before, p, hfirst, hp, hselect ▸ misconfigured_noDevice _⟩)
  · obtain ⟨d, hbest, hd⟩ := exists_best? options.rank hempty
    rw [hbest] at hselect
    exact .inr (.inr ⟨before, p, devices, d, hfirst, hp, hd, hselect⟩)

/-- What is chosen. -/
theorem selectDevice_eq_ok_iff [Std.TransCmp options.rank] (hplatforms : c.platforms = .ok profiles)
    (hdevices : ∀ p ∈ profiles, ∃ devices, c.devices p.id = .ok devices) {choice : Selection} :
    selectDevice c options = .ok choice ↔
      ∃ before devices, FirstAccepted options.accepts profiles before choice.platform ∧
        c.devices choice.platform.id = .ok devices ∧
        FirstGreatest options.rank devices choice.device := by
  constructor
  · intro h
    obtain ⟨-, e, -, he, -⟩ | ⟨-, -, -, -, e, -, he, -⟩ |
        ⟨before, p, devices, d, hfirst, hp, hd, hok⟩ :=
      selectDevice_cases options hplatforms hdevices
    · cases he.symm.trans h
    · cases he.symm.trans h
    · obtain rfl := Except.ok.inj (hok.symm.trans h)
      exact ⟨before, devices, hfirst, hp, hd⟩
  · rintro ⟨before, devices, hfirst, hp, hd⟩
    have hselect := selectDevice_of_first hplatforms hfirst hp
    have hne : devices ≠ [] := by
      obtain ⟨xs, ys, rfl, -⟩ := hd
      simp
    obtain ⟨d, hbest, hd'⟩ := exists_best? options.rank hne
    rw [hselect, hbest, hd'.unique hd]

/-- When there is nothing to choose. -/
theorem misconfigured_selectDevice_iff [Std.TransCmp options.rank]
    (hplatforms : c.platforms = .ok profiles)
    (hdevices : ∀ p ∈ profiles, ∃ devices, c.devices p.id = .ok devices) :
    Misconfigured (selectDevice c options) ↔ (∀ p ∈ profiles, options.accepts p = false) ∨
      ∃ before p, FirstAccepted options.accepts profiles before p ∧ c.devices p.id = .ok [] := by
  constructor
  · rintro ⟨e, report, he, -⟩
    obtain ⟨hnone, -⟩ | ⟨before, p, hfirst, hp, -⟩ | ⟨before, p, devices, d, -, -, -, hok⟩ :=
      selectDevice_cases options hplatforms hdevices
    · exact .inl hnone
    · exact .inr ⟨before, p, hfirst, hp⟩
    · cases he.symm.trans hok
  · rintro (hnone | ⟨before, p, hfirst, hp⟩)
    · exact selectDevice_of_none hplatforms hnone ▸ misconfigured_noPlatform _
    · exact selectDevice_of_first hplatforms hfirst hp ▸ misconfigured_noDevice _

end Catalog

/-! ### Later platforms -/

section Later

variable {s s' : Simulator} {models models' : List PlatformModel}

/-- Platforms that are added later come after those that are there. -/
theorem exists_platforms_append (models more : List PlatformModel) :
    ∃ rest, (Simulator.ofPlatforms (models ++ more)).platforms =
      (Simulator.ofPlatforms models).platforms ++ rest := by
  have hadd (s : Simulator) :
      ∃ rest, (more.foldl Simulator.addPlatform s).platforms = s.platforms ++ rest := by
    induction more generalizing s with
    | nil => exact ⟨[], (List.append_nil _).symm⟩
    | cons p more ih =>
      obtain ⟨rest, hrest⟩ := ih (s.addPlatform p)
      have hfirst : (s.addPlatform p).platforms = s.platforms ++ [_] :=
        congrArg (· ++ _) (Simulator.addDevices_platforms p.devices s.advance)
      exact ⟨_, by rw [List.foldl_cons, hrest, hfirst, List.append_assoc]⟩
  obtain ⟨rest, hrest⟩ := hadd (Simulator.ofPlatforms models)
  exact ⟨rest, by rw [← hrest, Simulator.ofPlatforms, List.foldl_append, ← Simulator.ofPlatforms]⟩

/-- Where the platform of a model stands, and what it keeps. It is the same whatever comes after. -/
theorem exists_listed (first : List PlatformModel) (m : PlatformModel) :
    ∃ ls l, ls.length = first.length ∧ ∀ more, ∃ rest,
      (Simulator.ofPlatforms (first ++ m :: more)).platforms = ls ++ l :: rest ∧
        (Simulator.ofPlatforms (first ++ m :: more)).Keeps m l := by
  have hkeeps := (Simulator.Lists.ofPlatforms (first ++ [m])).keeps
  obtain ⟨ls, l, hlisted, hlength⟩ : ∃ ls l,
      (Simulator.ofPlatforms (first ++ [m])).platforms = ls ++ [l] ∧ ls.length = first.length := by
    have htotal := hkeeps.length_eq
    rw [List.length_append, List.length_singleton] at htotal
    have hne : (Simulator.ofPlatforms (first ++ [m])).platforms ≠ [] := fun hnil => by
      simp [hnil] at htotal
    refine ⟨_, _, (List.dropLast_concat_getLast hne).symm, ?_⟩
    rw [List.length_dropLast, ← htotal, Nat.add_sub_cancel]
  refine ⟨ls, l, hlength, fun more => ?_⟩
  obtain ⟨rest, hrest⟩ := exists_platforms_append (first ++ [m]) more
  rw [hlisted, List.append_assoc, List.append_assoc, List.singleton_append,
    List.singleton_append] at hrest
  refine ⟨rest, hrest, ?_⟩
  have hall := (Simulator.Lists.ofPlatforms (first ++ m :: more)).keeps
  rw [hrest] at hall
  have htail := List.forall₂_drop_append _ _ _ hall
  rw [List.drop_left' hlength.symm] at htail
  exact (List.forall₂_cons.1 htail).1

/-- If the platform of a model is the first one accepted, the choice is the same whatever comes
after. -/
theorem selectDevice_of_append {first more more' : List PlatformModel} {m : PlatformModel}
    {before : List PlatformProfile} {p : PlatformProfile} {options : Options}
    (hcount : (first ++ m :: more).length < 2 ^ 32)
    (hcount' : (first ++ m :: more').length < 2 ^ 32) (hdevices : m.devices.length < 2 ^ 32)
    (hlength : before.length = first.length)
    (hfirst : FirstAccepted options.accepts
      ((Simulator.ofPlatforms (first ++ m :: more)).platforms.map ListedPlatform.profile)
      before p) :
    selectDevice (Simulator.ofPlatforms (first ++ m :: more')).catalog options =
      selectDevice (Simulator.ofPlatforms (first ++ m :: more)).catalog options := by
  obtain ⟨ls, l, hls, hlisted⟩ := exists_listed first m
  have hbefore : before = ls.map ListedPlatform.profile ∧ p = l.profile := by
    obtain ⟨after, hsplit⟩ := hfirst.split
    obtain ⟨rest, hrest, -⟩ := hlisted more
    rw [hrest, List.map_append, List.map_cons] at hsplit
    obtain ⟨hls', hl⟩ := List.append_inj hsplit (by rw [List.length_map, hls, hlength])
    exact ⟨hls'.symm, (List.cons.inj hl).1.symm⟩
  obtain ⟨rfl, rfl⟩ := hbefore
  have hselect {more : List PlatformModel} (hcount : (first ++ m :: more).length < 2 ^ 32) :
      selectDevice (Simulator.ofPlatforms (first ++ m :: more)).catalog options =
        match best? options.rank (List.zipWith DeviceModel.profile m.devices l.devices) with
        | none => .error (.noDevice l.profile.name)
        | some d => .ok ⟨l.profile, d⟩ := by
    obtain ⟨rest, hrest, hkeeps⟩ := hlisted more
    have hlists := Simulator.Lists.ofPlatforms (first ++ m :: more)
    have hworks := (Simulator.objects_ofPlatforms (first ++ m :: more)).2.2
    have hl : l ∈ (Simulator.ofPlatforms (first ++ m :: more)).platforms := by simp [hrest]
    have haccepted : FirstAccepted options.accepts
        ((Simulator.ofPlatforms (first ++ m :: more)).platforms.map ListedPlatform.profile)
        (ls.map ListedPlatform.profile) l.profile :=
      ⟨⟨rest.map ListedPlatform.profile, by rw [hrest, List.map_append, List.map_cons]⟩,
        hfirst.skipped, hfirst.accepted⟩
    exact selectDevice_of_first (hlists.platforms_eq hworks hcount) haccepted
      (hlists.devices_eq hworks hl hkeeps hdevices)
  rw [hselect hcount, hselect hcount']

theorem selectDevice_of_take_eq {before : List PlatformProfile} {p : PlatformProfile}
    {options : Options} (hcount : models.length < 2 ^ 32) (hcount' : models'.length < 2 ^ 32)
    (hdevices : ∀ m ∈ models, m.devices.length < 2 ^ 32)
    (hfirst : FirstAccepted options.accepts
      ((Simulator.ofPlatforms models).platforms.map ListedPlatform.profile) before p)
    (htake : models'.take (before.length + 1) = models.take (before.length + 1)) :
    selectDevice (Simulator.ofPlatforms models').catalog options =
      selectDevice (Simulator.ofPlatforms models).catalog options := by
  have hlt : before.length < models.length := by
    obtain ⟨after, hsplit⟩ := hfirst.split
    have htotal := congrArg List.length hsplit
    rw [List.length_map, ← (Simulator.Lists.ofPlatforms models).keeps.length_eq,
      List.length_append, List.length_cons] at htotal
    omega
  have hsplit := List.take_append_drop (before.length + 1) models
  have hsplit' := List.take_append_drop (before.length + 1) models'
  rw [List.take_succ_eq_append_getElem hlt, List.append_assoc, List.singleton_append] at hsplit
  rw [htake, List.take_succ_eq_append_getElem hlt, List.append_assoc,
    List.singleton_append] at hsplit'
  have hlength : before.length = (models.take before.length).length := by
    rw [List.length_take, Nat.min_eq_left (Nat.le_of_lt hlt)]
  have hm := hdevices models[before.length] (List.getElem_mem hlt)
  generalize models.take before.length = first at hsplit hsplit' hlength
  generalize models[before.length] = m at hsplit hsplit' hm
  rw [← hsplit] at hcount hfirst ⊢
  rw [← hsplit'] at hcount' ⊢
  exact selectDevice_of_append hcount hcount' hm hlength hfirst

end Later

/-! ### Choosing from a simulator -/

/-- What choosing a device from a simulator of given models has to do, where `profiles` are what its
platforms report. -/
structure ChoosesDevice (s : Simulator) (models : List PlatformModel)
    (profiles : List PlatformProfile) (options : Options) : Prop where
  /-- The first greatest device of the first accepted platform is chosen. -/
  chosen : ∀ choice, selectDevice s.catalog options = .ok choice ↔
    ∃ before devices, FirstAccepted options.accepts profiles before choice.platform ∧
      s.catalog.devices choice.platform.id = .ok devices ∧
      FirstGreatest options.rank devices choice.device
  /-- The options are to blame exactly if no platform is accepted or the first accepted one has no
  devices. -/
  misconfigured : Misconfigured (selectDevice s.catalog options) ↔
    (∀ p ∈ profiles, options.accepts p = false) ∨
      ∃ before p, FirstAccepted options.accepts profiles before p ∧ s.catalog.devices p.id = .ok []
  /-- The platforms after the first accepted one do not matter. -/
  later : ∀ before p, FirstAccepted options.accepts profiles before p →
    ∀ (s' : Simulator) (models' : List PlatformModel), s'.MadeFrom models' →
      models'.length < 2 ^ 32 →
      models'.take (before.length + 1) = models.take (before.length + 1) →
      selectDevice s'.catalog options = selectDevice s.catalog options
  /-- The platform that is used has the chosen device, or is the host if the options are to blame.
  There is no other way to fail. -/
  used : ∀ hardware,
    (∃ choice, selectDevice s.catalog options = .ok choice ∧
      Platform.orHost hardware options (Platform.discover s.catalog options) =
        .accelerator choice) ∨
    Misconfigured (selectDevice s.catalog options) ∧
      Platform.orHost hardware options (Platform.discover s.catalog options) =
        .ofHost hardware options

theorem orHost_discover (c : Device.Catalog) (hardware : Nat) (options : Options) :
    Platform.orHost hardware options (Platform.discover c options) =
      match selectDevice c options with
      | .ok choice => .accelerator choice
      | .error _ => .ofHost hardware options := by
  rw [Platform.discover]
  cases selectDevice c options <;> rfl

/-- Every ready-made order but the one in which everything is greater is a total preorder. -/
theorem Ranking.transCmp_rank {r : Ranking} (h : r ≠ .greater) : Std.TransCmp r.rank := by
  cases r with
  | units => exact inferInstanceAs (Std.TransCmp (compareOn DeviceProfile.computeUnits))
  | fewestUnits =>
    exact inferInstanceAs (Std.TransCmp fun a b => compareOn DeviceProfile.computeUnits b a)
  | clock => exact inferInstanceAs (Std.TransCmp (compareOn DeviceProfile.clock))
  | group => exact inferInstanceAs (Std.TransCmp (compareOn DeviceProfile.groupSize))
  | name => exact inferInstanceAs (Std.TransCmp (compareOn DeviceProfile.name))
  | equal => exact { eq_swap := rfl, isLE_trans := fun _ _ => rfl }
  | greater => exact absurd rfl h

/-- A device is chosen as it should be from any simulator without injected failures, whatever
platforms are accepted and however devices are ranked. Platforms and devices are counted in 32
bits; more platforms than that are not listed at all (`Lists.platforms_of_le`). -/
theorem selectDevice_meets_spec {s : Simulator} {models : List PlatformModel}
    (h : s.MadeFrom models) (hplatforms : models.length < 2 ^ 32)
    (hdevices : ∀ p ∈ models, p.devices.length < 2 ^ 32) (options : Options)
    [Std.TransCmp options.rank] :
    ∃ profiles, s.catalog.platforms = .ok profiles ∧
      List.Forall₂ s.catalog.Reports models profiles ∧ ChoosesDevice s models profiles options := by
  obtain ⟨hprofiles, hreports⟩ := h.reported hplatforms hdevices
  have hanswers : ∀ p ∈ (Simulator.ofPlatforms models).platforms.map ListedPlatform.profile,
      ∃ devices, s.catalog.devices p.id = .ok devices := by
    have hanswer : List.Forall₂
        (fun p _ => (∃ devices, s.catalog.devices p.id = .ok devices) ∧ True)
        ((Simulator.ofPlatforms models).platforms.map ListedPlatform.profile) models :=
      hreports.flip.imp fun p m hm => ⟨hm.devices.imp fun _ hok => hok.1, trivial⟩
    exact ((List.forall₂_and_left _ _).1 hanswer).1
  refine ⟨_, hprofiles, hreports, ?_, ?_, ?_, ?_⟩
  · exact fun choice => selectDevice_eq_ok_iff hprofiles hanswers
  · exact misconfigured_selectDevice_iff hprofiles hanswers
  · intro before p hfirst s' models' h' hplatforms' htake
    rw [h.catalog_eq, h'.catalog_eq]
    exact selectDevice_of_take_eq hplatforms hplatforms' hdevices hfirst htake
  · intro hardware
    rw [orHost_discover]
    obtain ⟨-, hmis⟩ | ⟨-, -, -, -, hmis⟩ | ⟨before, p, devices, d, -, -, -, hok⟩ :=
      selectDevice_cases options hprofiles hanswers
    · obtain ⟨e, report, he, -⟩ := id hmis
      exact .inr ⟨hmis, by rw [he]⟩
    · obtain ⟨e, report, he, -⟩ := id hmis
      exact .inr ⟨hmis, by rw [he]⟩
    · exact .inl ⟨⟨p, d⟩, hok, by rw [hok]⟩

/-- A choice among three platforms, of which the second is the first one accepted. Two of its
devices are greatest. -/
theorem selectDevice_meets_spec_twins :
    let models : List PlatformModel :=
      [{ name := "Portable" },
        { name := "Vendor A"
          devices := [{ name := "small", computeUnits := 4 }, { name := "big", computeUnits := 32 },
            { name := "twin", computeUnits := 32 }] },
        { name := "Vendor B", devices := [{ name := "huge", computeUnits := 128 }] }]
    let options : Options :=
      { accepts := NameTest.accepts (.contains "Vendor"), rank := Ranking.units.rank }
    let s := Simulator.ofPlatforms models
    s.MadeFrom models ∧ models.length < 2 ^ 32 ∧ (∀ p ∈ models, p.devices.length < 2 ^ 32) ∧
      Std.TransCmp options.rank ∧
      ∃ profiles, s.catalog.platforms = .ok profiles ∧
        List.Forall₂ s.catalog.Reports models profiles ∧
        ChoosesDevice s models profiles options := by
  intro models options s
  have hmodels : s.MadeFrom models := .ofPlatforms models
  have hplatforms : models.length < 2 ^ 32 := by simp [models]
  have hdevices : ∀ p ∈ models, p.devices.length < 2 ^ 32 := by simp [models]
  have hrank : Std.TransCmp options.rank := Ranking.transCmp_rank (r := .units) nofun
  exact ⟨hmodels, hplatforms, hdevices, hrank,
    selectDevice_meets_spec hmodels hplatforms hdevices options⟩

end KernelForge.Launch
