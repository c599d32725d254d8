import Mathlib
import KernelForge.Proofs.Objects
import KernelForge.Proofs.Utf8

/-!
# What a driver offers is found

The profiles that are read off a simulated driver say what its models say, for every list of models
(`platforms_found`). The argument goes in layers: each encoding is undone by the decoding of the
same property, an answer gets through both ways of asking for data of unknown size
(`twoPhase_answer`, `twoPhase_answerCounted`), and the simulator keeps each model under a handle of
its own (`Simulator.Lists`).
-/

namespace KernelForge

namespace Device

variable {α : Type} {s : Simulator} {models : List PlatformModel}

/-! ### Asking for data of unknown size -/

/-- An answer gets through whatever its size. -/
theorem twoPhase_answer (call : String) (blank : α) (value : List α) :
    Id.run (twoPhase call (blanks blank) (m := Id) fun r => answer value r) = .ok value := by
  have hasked (n : Nat) : answer value ⟨none, n⟩ = ⟨.success, value.length, []⟩ := rfl
  have hfilled (n : Nat) :
      answer value ⟨some value.length, n⟩ = ⟨.success, value.length, value⟩ := by
    simp [answer]
  have hwhole : overwrite (List.replicate value.length blank) value = value := by
    simp [overwrite]
  simp only [twoPhase, blanks, Id.run, bind, pure, hasked, hfilled, List.length_replicate, ne_eq,
    not_true_eq_false, if_false, hwhole, List.take_length]
  split
  · rename_i hempty
    rw [hempty, List.eq_nil_of_length_eq_zero hempty, List.replicate_zero]
  · rfl

/-- A list that can be counted in 32 bits gets through. -/
theorem twoPhase_answerCounted {value : List α} (h : value.length < 2 ^ 32) (call : String)
    (blank : α) :
    Id.run (twoPhase call (blanks blank) (counted (m := Id) fun r => answerCounted value r)) =
      .ok value := by
  have hlength : (countOf value.length).toNat = value.length := toNat_countOf h
  have hcounted : (counted (m := Id) fun r => answerCounted value r) = fun r => answer value r := by
    funext ⟨capacity, size⟩
    simp only [counted, answerCounted, bind, pure]
    cases capacity with
    | none => simp only [answer, hlength]
    | some capacity =>
      simp only [answer]
      split <;> simp only [hlength]
  rw [hcounted, twoPhase_answer]

/-- A list that is longer does not: the driver finds the buffer too small. -/
theorem twoPhase_answerCounted_of_le {value : List α} (h : 2 ^ 32 ≤ value.length) (call : String)
    (blank : α) :
    Id.run (twoPhase call (blanks blank) (counted (m := Id) fun r => answerCounted value r)) =
      .error (.callFailed call .invalidValue) := by
  have hlength : (countOf value.length).toNat = 2 ^ 32 - 1 := by
    rw [countOf, Nat.min_eq_right (by omega)]
    rfl
  have hshort : 2 ^ 32 - 1 < value.length := by omega
  simp only [twoPhase, blanks, counted, answerCounted, answer, Id.run, bind, pure, hlength,
    List.length_replicate, hshort]
  rfl

/-- A list of objects is read as it is, also if it is empty and the driver calls that a failure. -/
theorem noneFound_twoPhase {value : List α} (h : value.length < 2 ^ 32) {empty : Status}
    (hempty : empty ≠ .success) (call : String) (blank : α) :
    noneFound empty (Id.run (twoPhase call (blanks blank) (counted (m := Id) fun r =>
      if value.isEmpty then ⟨empty, 0, []⟩ else answerCounted value r))) = .ok value := by
  cases value with
  | nil => simp [twoPhase, counted, Id.run, bind, pure, noneFound, Error.status?, hempty]
  | cons a value =>
    simp only [List.isEmpty_cons, Bool.false_eq_true, if_false]
    rw [twoPhase_answerCounted h]
    rfl

/-! ### Reading properties -/

theorem decode_number32 (param : UInt32) (name : String) (n : UInt32) :
    (Property.number32 param name).decode (Bytes.ofNat 4 n.toNat) = .ok n := by
  have hn : n.toNat % Nat.pow 256 4 = n.toNat := Nat.mod_eq_of_lt n.toNat_lt
  simp only [Property.number32, Property.decodeNumber, Bytes.length_ofNat, if_true,
    Bytes.toNat_ofNat, hn, Functor.map, Except.map, UInt32.ofNat_toNat]

theorem decode_groupSize (n : UInt64) :
    Property.groupSize.decode (Bytes.ofNat 8 n.toNat) = .ok n := by
  have hn : n.toNat % Nat.pow 256 8 = n.toNat := Nat.mod_eq_of_lt n.toNat_lt
  simp only [Property.groupSize, Property.decodeNumber, Bytes.length_ofNat, if_true,
    Bytes.toNat_ofNat, hn, Functor.map, Except.map, UInt64.ofNat_toNat]

theorem decode_itemSizes (sizes : List UInt64) :
    Property.itemSizes.decode (sizes.flatMap fun size => Bytes.ofNat 8 size.toNat) =
      .ok sizes := by
  have hlength : (sizes.flatMap fun size => Bytes.ofNat 8 size.toNat).length =
      8 * sizes.length := by
    simp [List.length_flatMap, Nat.mul_comm]
  have hmap : (sizes.flatMap fun size => Bytes.ofNat 8 size.toNat) =
      (sizes.map UInt64.toNat).flatMap (Bytes.ofNat 8) := by
    rw [List.flatMap_map]
  have hwords := Bytes.words_flatMap 8 (sizes.map UInt64.toNat) []
  rw [List.append_nil, ← hmap, List.length_map] at hwords
  simp only [Property.itemSizes, Property.decodeSizes, Bytes.allWords]
  rw [hlength, Nat.mul_mod_right, if_pos rfl, Nat.mul_div_cancel_left _ (by decide), hwords,
    List.map_map, List.map_map]
  simp [Function.comp_def]

/-! ### Devices and platforms as they report themselves -/

/-- A profile says what a model says. -/
structure DeviceModel.ReportedAs (d : DeviceModel) (profile : DeviceProfile) : Prop where
  name : profile.name = beforeNul d.name
  computeUnits : profile.computeUnits = d.computeUnits
  dimensions : profile.dimensions = d.dimensions
  itemSizes : profile.itemSizes = d.itemSizes
  groupSize : profile.groupSize = d.groupSize
  clock : profile.clock = d.clock
  alignment : profile.alignment = d.alignBits / 8

/-- What a device reports about itself when its handle is `id`. -/
def DeviceModel.profile (d : DeviceModel) (id : DeviceId) : DeviceProfile where
  id
  name := beforeNul d.name
  computeUnits := d.computeUnits
  dimensions := d.dimensions
  itemSizes := d.itemSizes
  groupSize := d.groupSize
  clock := d.clock
  alignment := d.alignBits / 8

theorem DeviceModel.reportedAs_profile (d : DeviceModel) (id : DeviceId) :
    d.ReportedAs (d.profile id) :=
  ⟨rfl, rfl, rfl, rfl, rfl, rfl, rfl⟩

/-- What a listed platform reports about itself. -/
def ListedPlatform.profile (l : ListedPlatform) : PlatformProfile :=
  ⟨l.id, beforeNul l.name⟩

/-- A simulator from models, whatever objects were created since. No entry point was made to
fail. -/
structure Simulator.MadeFrom (s : Simulator) (models : List PlatformModel) : Prop where
  platforms : s.platforms = (ofPlatforms models).platforms
  devices : s.devices = (ofPlatforms models).devices
  failures : s.failures = {}

namespace Simulator

/-- A listed platform has the name of a model and keeps its devices. -/
def Keeps (s : Simulator) (p : PlatformModel) (l : ListedPlatform) : Prop :=
  l.name = p.name ∧ List.Forall₂ (fun d id => s.devices.get? id = some d) p.devices l.devices

/-- The platforms of a simulator are those of the models, and all its handles are distinct. -/
structure Lists (s : Simulator) (models : List PlatformModel) : Prop where
  keeps : List.Forall₂ s.Keeps models s.platforms
  nodup : (s.platforms.map (·.id)).Nodup
  platforms_lt : ∀ l ∈ s.platforms, l.id.raw < s.nextHandle
  devices_lt : ∀ id d, s.devices.get? id = some d → id.raw < s.nextHandle

/-! ### Making a simulator -/

theorem addDevices_platforms (ds : List DeviceModel) (s : Simulator) :
    (addDevices ds s).2.platforms = s.platforms := by
  induction ds generalizing s with
  | nil => rfl
  | cons d ds ih => exact ih _

theorem nextHandle_le_addDevices (ds : List DeviceModel) (s : Simulator) :
    s.nextHandle ≤ (addDevices ds s).2.nextHandle := by
  induction ds generalizing s with
  | nil => exact Nat.le_refl _
  | cons d ds ih =>
    exact Nat.le_trans (Nat.le_succ _)
      (ih { s.advance with devices := s.devices.insert ⟨s.nextHandle⟩ d })

/-- New devices get new handles. -/
theorem addDevices_devices (ds : List DeviceModel) (s : Simulator)
    (hlt : ∀ id d, s.devices.get? id = some d → id.raw < s.nextHandle) :
    (∀ id d, (addDevices ds s).2.devices.get? id = some d →
      id.raw < (addDevices ds s).2.nextHandle) ∧
    (∀ id d, s.devices.get? id = some d → (addDevices ds s).2.devices.get? id = some d) ∧
    List.Forall₂ (fun d id => (addDevices ds s).2.devices.get? id = some d) ds
      (addDevices ds s).1 := by
  induction ds generalizing s with
  | nil => exact ⟨hlt, fun _ _ h => h, .nil⟩
  | cons d ds ih =>
    have hlt' : ∀ id e, (s.devices.insert ⟨s.nextHandle⟩ d).get? id = some e →
        id.raw < s.nextHandle + 1 := by
      intro id e h
      rw [Table.get?_insert] at h
      split_ifs at h with hid
      · rw [hid]
        exact Nat.lt_succ_self _
      · exact Nat.lt_succ_of_lt (hlt id e h)
    obtain ⟨hbound, hold, hnew⟩ :=
      ih { s.advance with devices := s.devices.insert ⟨s.nextHandle⟩ d } hlt'
    refine ⟨hbound, fun id e h => hold id e ?_, .cons (hold _ d ?_) hnew⟩
    · have hne : id ≠ ⟨s.nextHandle⟩ := fun hid => by
        have hraw := hlt id e h
        rw [hid] at hraw
        exact Nat.lt_irrefl _ hraw
      exact (Table.get?_insert _ _ _ _).trans ((if_neg hne).trans h)
    · exact (Table.get?_insert _ _ _ _).trans (if_pos rfl)

theorem Lists.addPlatform (h : s.Lists models) (p : PlatformModel) :
    (s.addPlatform p).Lists (models ++ [p]) := by
  have hlt : ∀ id d, s.advance.devices.get? id = some d → id.raw < s.advance.nextHandle :=
    fun id d hd => Nat.lt_succ_of_lt (h.devices_lt id d hd)
  obtain ⟨hbound, hold, hnew⟩ := addDevices_devices p.devices s.advance hlt
  have hle := nextHandle_le_addDevices p.devices s.advance
  have hplatforms := addDevices_platforms p.devices s.advance
  have hlisted : (s.addPlatform p).platforms =
      s.platforms ++ [⟨⟨s.nextHandle⟩, p.name, (addDevices p.devices s.advance).1⟩] :=
    congrArg (· ++ _) hplatforms
  refine ⟨?_, ?_, ?_, hbound⟩
  · rw [hlisted]
    refine List.rel_append ?_ (.cons ⟨rfl, hnew⟩ .nil)
    exact h.keeps.imp fun q l ⟨hname, hdevices⟩ =>
      ⟨hname, hdevices.imp fun d id hd => hold id d hd⟩
  · rw [hlisted, List.map_append, List.map_singleton]
    refine List.nodup_append.2 ⟨h.nodup, List.nodup_singleton _, ?_⟩
    intro id hid id' hid' heq
    obtain ⟨l, hl, rfl⟩ := List.mem_map.1 hid
    rw [List.mem_singleton.1 hid'] at heq
    have hraw := h.platforms_lt l hl
    rw [heq] at hraw
    exact Nat.lt_irrefl _ hraw
  · intro l hl
    rw [hlisted] at hl
    obtain hl | hl := List.mem_append.1 hl
    · exact Nat.lt_of_lt_of_le (Nat.lt_succ_of_lt (h.platforms_lt l hl)) hle
    · rw [List.mem_singleton.1 hl]
      exact Nat.lt_of_lt_of_le (Nat.lt_succ_self _) hle

theorem Lists.foldl_addPlatform (h : s.Lists models) (more : List PlatformModel) :
    (more.foldl Simulator.addPlatform s).Lists (models ++ more) := by
  induction more generalizing s models with
  | nil => rwa [List.append_nil]
  | cons p more ih =>
    have hrest := ih (h.addPlatform p)
    rwa [List.append_assoc, List.singleton_append] at hrest

/-- A new simulator lists nothing. -/
theorem Lists.empty : Lists {} [] where
  keeps := .nil
  nodup := List.nodup_nil
  platforms_lt := by simp
  devices_lt := by simp [Table.get?, Table.lookup]

theorem Lists.ofPlatforms (models : List PlatformModel) : (ofPlatforms models).Lists models :=
  empty.foldl_addPlatform models

/-! ### Asking a simulator -/

/-- Entry points work. -/
theorem reply_eq {ν : Type} (hworks : s.failures = {}) (call : Call) (r : Request ν)
    (answered : Reply ν α) : s.reply call r answered = answered := by
  rw [reply, failure?, hworks]
  rfl

theorem find?_id {ls : List ListedPlatform} (hnodup : (ls.map (·.id)).Nodup) {l : ListedPlatform}
    (hl : l ∈ ls) : (ls.find? fun p => p.id = l.id) = some l := by
  induction ls with
  | nil => cases hl
  | cons first rest ih =>
    obtain ⟨hfirst, hrest⟩ := List.nodup_cons.1 hnodup
    cases hl with
    | head => exact List.find?_cons_of_pos (decide_eq_true rfl)
    | tail _ hl =>
      have hne : first.id ≠ l.id := fun heq => hfirst (List.mem_map.2 ⟨l, hl, heq.symm⟩)
      rw [List.find?_cons_of_neg (by simpa using hne), ih hrest hl]

theorem property_eq (hworks : s.failures = {}) {p : Property α} {id : DeviceId} {d : DeviceModel}
    {bytes : List UInt8} {value : α} (hd : s.devices.get? id = some d)
    (hreport : d.report? p.param = some bytes) (hdecode : p.decode bytes = .ok value) :
    s.catalog.property p id = .ok value := by
  have hask : (fun r => s.catalog.deviceInfo id p.param r) = fun r => answer bytes r := by
    funext r
    simp only [catalog, deviceInfo, reply_eq hworks, hd, hreport]
  rw [Catalog.property, hask, twoPhase_answer]
  exact hdecode

/-- A device reports what its model says. -/
theorem deviceProfile_eq (hworks : s.failures = {}) {id : DeviceId} {d : DeviceModel}
    (hd : s.devices.get? id = some d) : s.catalog.deviceProfile id = .ok (d.profile id) := by
  have hname := property_eq hworks (p := .deviceName) hd rfl rfl
  have hunits := property_eq hworks (p := .computeUnits) hd rfl (decode_number32 ..)
  have hdimensions := property_eq hworks (p := .dimensions) hd rfl (decode_number32 ..)
  have hitems := property_eq hworks (p := .itemSizes) hd rfl (decode_itemSizes _)
  have hgroup := property_eq hworks (p := .groupSize) hd rfl (decode_groupSize _)
  have hclock := property_eq hworks (p := .clock) hd rfl (decode_number32 ..)
  have halign := property_eq hworks (p := .alignBits) hd rfl (decode_number32 ..)
  rw [decodeTerminated_terminated] at hname
  rw [Catalog.deviceProfile, hname, hunits, hdimensions, hitems, hgroup, hclock, halign]
  rfl

theorem platformProfile_eq (hworks : s.failures = {}) {id : PlatformId} {l : ListedPlatform}
    (hl : s.platform? id = some l) :
    s.catalog.platformProfile id = .ok ⟨id, beforeNul l.name⟩ := by
  have hask : (fun r => s.catalog.platformInfo id platformNameParam r) =
      fun r => answer (terminated l.name) r := by
    funext r
    simp only [catalog, platformInfo, reply_eq hworks, hl, if_true]
  rw [Catalog.platformProfile, hask, twoPhase_answer, ← decodeTerminated_terminated]
  rfl

theorem listPlatforms_eq (hworks : s.failures = {}) (hcount : s.platforms.length < 2 ^ 32) :
    s.catalog.listPlatforms = .ok (s.platforms.map (·.id)) := by
  have hask : (fun r => s.catalog.platformIds r) = fun r =>
      if (s.platforms.map (·.id)).isEmpty then ⟨.platformNotFound, 0, []⟩
      else answerCounted (s.platforms.map (·.id)) r := by
    funext r
    simp only [catalog, platformIds, reply_eq hworks, List.isEmpty_map]
  rw [Catalog.listPlatforms, hask, noneFound_twoPhase (by rwa [List.length_map]) (by decide)]

theorem listDevices_eq (hworks : s.failures = {}) {id : PlatformId} {l : ListedPlatform}
    (hl : s.platform? id = some l) (hcount : l.devices.length < 2 ^ 32) :
    s.catalog.listDevices id = .ok l.devices := by
  have hask : (fun r => s.catalog.deviceIds id r) = fun r =>
      if l.devices.isEmpty then ⟨.deviceNotFound, 0, []⟩ else answerCounted l.devices r := by
    funext r
    simp only [catalog, deviceIds, reply_eq hworks, hl]
  rw [Catalog.listDevices, hask, noneFound_twoPhase hcount (by decide)]

end Simulator

/-! ### What is found -/

theorem mapM_ok_of_forall₂ {α β ε : Type} {f : α → Except ε β} {as : List α} {bs : List β}
    (h : List.Forall₂ (fun a b => f a = .ok b) as bs) : as.mapM f = .ok bs := by
  induction h with
  | nil => rfl
  | cons hfirst _ ih =>
    rw [List.mapM_cons, hfirst, ih]
    rfl

/-- The profile of a platform and those of its devices say what a model says. -/
structure Catalog.Reports (c : Catalog) (p : PlatformModel) (profile : PlatformProfile) : Prop where
  name : profile.name = beforeNul p.name
  devices : ∃ devices, c.devices profile.id = .ok devices ∧
    List.Forall₂ DeviceModel.ReportedAs p.devices devices

namespace Simulator

theorem Lists.platforms_eq (h : s.Lists models) (hworks : s.failures = {})
    (hcount : models.length < 2 ^ 32) :
    s.catalog.platforms = .ok (s.platforms.map ListedPlatform.profile) := by
  have hprofiles : (s.platforms.map (·.id)).mapM s.catalog.platformProfile =
      .ok (s.platforms.map ListedPlatform.profile) := by
    apply mapM_ok_of_forall₂
    rw [List.forall₂_map_left_iff, List.forall₂_map_right_iff, List.forall₂_same]
    exact fun l hl => platformProfile_eq hworks (find?_id h.nodup hl)
  rw [Catalog.platforms, listPlatforms_eq hworks (h.keeps.length_eq ▸ hcount)]
  exact hprofiles

/-- More platforms than 32 bits can count are not listed at all. -/
theorem Lists.platforms_of_le (h : s.Lists models) (hworks : s.failures = {})
    (hcount : 2 ^ 32 ≤ models.length) :
    s.catalog.platforms = .error (.callFailed Call.getPlatformIds.name .invalidValue) := by
  have hlength : 2 ^ 32 ≤ (s.platforms.map (·.id)).length := by
    rwa [List.length_map, ← h.keeps.length_eq]
  have hempty : s.platforms.isEmpty = false := by
    rw [← Bool.not_eq_true, List.isEmpty_iff]
    rintro hnil
    simp [hnil] at hlength
  have hask : (fun r => s.catalog.platformIds r) =
      fun r => answerCounted (s.platforms.map (·.id)) r := by
    funext r
    simp only [catalog, platformIds, reply_eq hworks, hempty, Bool.false_eq_true, if_false]
  rw [Catalog.platforms, Catalog.listPlatforms, hask, twoPhase_answerCounted_of_le hlength]
  rfl

theorem Lists.devices_eq (h : s.Lists models) (hworks : s.failures = {}) {p : PlatformModel}
    {l : ListedPlatform} (hl : l ∈ s.platforms) (hkeeps : s.Keeps p l)
    (hcount : p.devices.length < 2 ^ 32) :
    s.catalog.devices l.id = .ok (List.zipWith DeviceModel.profile p.devices l.devices) := by
  have hprofiles : l.devices.mapM s.catalog.deviceProfile =
      .ok (List.zipWith DeviceModel.profile p.devices l.devices) := by
    apply mapM_ok_of_forall₂
    have hdevices := hkeeps.2
    generalize p.devices = ds, l.devices = ids at hdevices
    induction hdevices with
    | nil => exact .nil
    | cons hd _ ih => exact .cons (deviceProfile_eq hworks hd) ih
  have hlist : s.catalog.listDevices l.id = .ok l.devices :=
    listDevices_eq hworks (find?_id h.nodup hl) (hkeeps.2.length_eq ▸ hcount)
  rw [Catalog.devices, hlist]
  exact hprofiles

theorem Lists.reports (h : s.Lists models) (hworks : s.failures = {}) {p : PlatformModel}
    {l : ListedPlatform} (hl : l ∈ s.platforms) (hkeeps : s.Keeps p l)
    (hcount : p.devices.length < 2 ^ 32) : s.catalog.Reports p l.profile where
  name := congrArg beforeNul hkeeps.1
  devices := by
    refine ⟨_, h.devices_eq hworks hl hkeeps hcount, ?_⟩
    have hdevices := hkeeps.2
    generalize p.devices = ds, l.devices = ids at hdevices
    induction hdevices with
    | nil => exact .nil
    | cons _ _ ih => exact .cons (DeviceModel.reportedAs_profile _ _) ih

/-- Only platforms, devices and injected failures decide what is found. -/
theorem MadeFrom.catalog_eq (h : s.MadeFrom models) : s.catalog = (ofPlatforms models).catalog := by
  have hworks : s.failures = (ofPlatforms models).failures :=
    h.failures.trans (objects_ofPlatforms models).2.2.symm
  have hreply {ν β : Type} (call : Call) (r : Request ν) (answered : Reply ν β) :
      s.reply call r answered = (ofPlatforms models).reply call r answered := by
    rw [reply, reply, failure?, failure?, hworks]
  have hplatform (id : PlatformId) : s.platform? id = (ofPlatforms models).platform? id := by
    rw [platform?, platform?, h.platforms]
  rw [catalog, catalog, Catalog.mk.injEq]
  refine ⟨?_, ?_, ?_, ?_⟩
  · funext r
    rw [platformIds, platformIds, hreply, h.platforms]
  · funext id param r
    rw [platformInfo, platformInfo, hreply, hplatform]
  · funext id r
    rw [deviceIds, deviceIds, hreply, hplatform]
  · funext id param r
    rw [deviceInfo, deviceInfo, hreply, h.devices]

theorem MadeFrom.ofPlatforms (models : List PlatformModel) : (ofPlatforms models).MadeFrom models :=
  ⟨rfl, rfl, (objects_ofPlatforms models).2.2⟩

/-- All platforms are found, in order, and what they report. -/
theorem MadeFrom.reported (h : s.MadeFrom models) (hplatforms : models.length < 2 ^ 32)
    (hdevices : ∀ p ∈ models, p.devices.length < 2 ^ 32) :
    s.catalog.platforms =
        .ok ((Simulator.ofPlatforms models).platforms.map ListedPlatform.profile) ∧
      List.Forall₂ s.catalog.Reports models
        ((Simulator.ofPlatforms models).platforms.map ListedPlatform.profile) := by
  have hworks := (objects_ofPlatforms models).2.2
  have hlists := Lists.ofPlatforms models
  rw [h.catalog_eq]
  refine ⟨hlists.platforms_eq hworks hplatforms, ?_⟩
  obtain ⟨hlength, hkeeps⟩ := List.forall₂_iff_zip.1 hlists.keeps
  rw [List.forall₂_map_right_iff]
  refine List.forall₂_iff_zip.2 ⟨hlength, fun {p l} hmem => ?_⟩
  obtain ⟨hp, hl⟩ := List.of_mem_zip hmem
  exact hlists.reports hworks hl (hkeeps hmem) (hdevices p hp)

/-- What a simulator was made from is found, in the same order and with distinct ids: the
names up to their first zero character, all other properties as they are, and the alignment in
bytes. -/
theorem platforms_found (h : s.MadeFrom models) (hplatforms : models.length < 2 ^ 32)
    (hdevices : ∀ p ∈ models, p.devices.length < 2 ^ 32) :
    (∃ profiles, s.catalog.platforms = .ok profiles ∧ (profiles.map (·.id)).Nodup ∧
      List.Forall₂ s.catalog.Reports models profiles) ∧
    ∀ text : String, '\x00' ∉ text.toList → beforeNul text = text := by
  obtain ⟨hprofiles, hreports⟩ := h.reported hplatforms hdevices
  refine ⟨⟨_, hprofiles, ?_, hreports⟩, fun text => beforeNul_eq_self⟩
  rw [List.map_map]
  exact (Lists.ofPlatforms models).nodup

/-- Two platforms, one of them without devices. A name is not plain ASCII, another goes on after a
zero character, and a device has no limits for its work-items. -/
def odds : List PlatformModel :=
  [{ name := "Größe 😀"
     devices := [{ name := "first\x00second", itemSizes := [], alignBits := 4294967295 },
       { name := "", computeUnits := 0, groupSize := 18446744073709551615 }] },
    { name := "empty" }]

theorem platforms_found_odds :
    (ofPlatforms odds).MadeFrom odds ∧ odds.length < 2 ^ 32 ∧
      (∀ p ∈ odds, p.devices.length < 2 ^ 32) ∧
      (∃ profiles, (ofPlatforms odds).catalog.platforms = .ok profiles ∧
        (profiles.map (·.id)).Nodup ∧
        List.Forall₂ (ofPlatforms odds).catalog.Reports odds profiles) ∧
      ∀ text : String, '\x00' ∉ text.toList → beforeNul text = text := by
  have hdevices : ∀ p ∈ odds, p.devices.length < 2 ^ 32 := by simp [odds]
  have hplatforms : odds.length < 2 ^ 32 := by simp [odds]
  exact ⟨.ofPlatforms odds, hplatforms, hdevices,
    platforms_found (.ofPlatforms odds) hplatforms hdevices⟩

end Simulator

end Device

end KernelForge
