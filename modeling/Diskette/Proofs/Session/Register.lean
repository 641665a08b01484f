import Diskette.Proofs.Cache.Table
import Diskette.Proofs.Device.Confined
import Diskette.Proofs.Session.Slots

/-!
# The register of a session

A session is used in any order: volumes are opened from files and created, tasks are done with their
caches, and volumes are closed, one by one or all of them. No file is opened twice at a time, but
another program may do something to one, and then accesses to it fail. A `Register` keeps what the
user may expect: which volume each number stands for, and, unless its file was disturbed, the blocks
that it has.

* `Course`: the states that the use of a session leads to, each with its register.
* `Represents`: the open volumes are those of the register.
* `Represents.makeVolume_ends`, `onCache_ends`, `close_ends`, `closeAll_ends`: each step.
* `represents_of_course`: they are so after every course.
-/

namespace Diskette.Session

open Diskette.Action

/-! ## Registers -/

/-- What the user of a session may expect of an open volume. -/
structure Record where
  path : String
  /-- The number of bytes in the file. -/
  size : Nat
  /-- Where the blocks are in the file. -/
  layout : Layout
  table : Table
  /-- Whether the file had its blocks in their places when it was opened, and no other program did
  anything to it. -/
  sound : Prop

/-- Whether a device that was opened has its blocks in their places: encoded tracks have to be laid
out as those of a new image. -/
def Source.Regular (state : Device × Host) : Source → Prop
  | .file _ => Device.LaidOut state
  | .blank _ _ _ => True

namespace Record

/-- A volume as it was opened: its blocks are those that the device reads. -/
def ofDevice (source : Source) (path : String) (device : Device) (host : Host) : Record where
  path := path
  size := device.storage.size
  layout := device.container.layout.geometry
  table :=
    { size := device.blocks
      readOnly := device.readOnly
      blocks := fun block =>
        match (Device.read block).outcome (device, host) with
        | .ok bytes => bytes
        | .error _ => Bytes.zero 512 }
  sound := source.Regular (device, host)

/-- The volume after a task. -/
def after (record : Record) (task : Task) : Record :=
  { record with table := task.perform.stateAfter record.table }

/-- The volume after another program did something to a file. -/
def disturb (record : Record) (file : String) : Record :=
  { record with sound := record.sound ∧ record.path ≠ file }

/-- Every block is in the file: a device that has the file open as it was, and that knows nothing of
its tracks yet, reads the blocks that were seen last. -/
def InFile (record : Record) (host : Host) : Prop :=
  ∀ device : Device, device.storage.file = record.path → device.storage.size = record.size →
    device.container.layout = record.layout → ∀ block, block < record.table.size →
      (Device.read block).outcome (device, host) = .ok (record.table.blocks block)

end Record

/-- What the number of each open volume stands for. -/
abbrev Register : Type := Nat → Option Record

namespace Register

/-- No open volume has its image in this file. -/
def Unused (register : Register) (path : String) : Prop :=
  ∀ id record, register id = some record → record.path ≠ path

/-- Enters a volume that was opened. -/
def enter (register : Register) (source : Source) (path : String) :
    EStateM.Result DiskError Host Device → Except DiskError Nat → Register
  | .ok device host, .ok id =>
    Function.update register id (some (.ofDevice source path device host))
  | _, _ => register

/-- Keeps what a task does to a volume. -/
def change (register : Register) (id : Nat) (task : Task) : Register :=
  Function.update register id ((register id).map fun record => record.after task)

/-- Strikes out a volume that was closed. -/
def strike (register : Register) (id : Nat) : Register := Function.update register id none

/-- Keeps that another program did something to a file. -/
def disturb (register : Register) (file : String) : Register := fun id =>
  (register id).map fun record => record.disturb file

end Register

/-- The states that the use of a session on a host leads to, each with the register of the open
volumes. -/
inductive Course (initial : Host) : Session × Host → Register → Prop
  | start : Course initial (empty, initial) fun _ => none
  | makeVolume {state : Session × Host} {register : Register} (h : Course initial state register)
    (source : Source) (path : String) (hunused : register.Unused path) :
    Course initial ((source.makeVolume path).stateAfter state)
      (register.enter source path ((source.makeDevice path).run state.2)
        ((source.makeVolume path).outcome state))
  | onCache {state : Session × Host} {register : Register} (h : Course initial state register)
    (id : Nat) (task : Task) :
    Course initial ((onCache id task.perform).stateAfter state) (register.change id task)
  | close {state : Session × Host} {register : Register} (h : Course initial state register)
    (id : Nat) : Course initial ((close id).stateAfter state) (register.strike id)
  | closeAll {state : Session × Host} {register : Register} (h : Course initial state register) :
    Course initial (closeAll.stateAfter state) fun _ => none
  /-- Another program does something to a file. -/
  | disturb {session : Session} {host host' : Host} {register : Register}
    (h : Course initial (session, host) register) (file : String)
    (hapart : Host.Apart file host host') :
    Course initial (session, host') (register.disturb file)

/-! ## What is in a file -/

variable {session : Session} {host host' : Host} {state : Session × Host} {register : Register}
  {record : Record} {volume : Volume} {cache : Cache} {id other : Nat} {path file : String}
  {source : Source}

/-- The blocks of the record are in its file. -/
structure Record.Filed (record : Record) (host : Host) : Prop where
  isSome_find? : (host.find? record.path).isSome
  size_le : record.size ≤ (host.contents record.path).size
  holds : record.layout.Holds record.size (host.contents record.path) record.table.blocks
  size_eq : record.layout.blocks = record.table.size

theorem Record.Filed.inFile (h : record.Filed host) : record.InFile host := by
  rintro ⟨⟨file, size, storageReadOnly, mapped⟩, ⟨envelope, layout⟩, readOnly, modified⟩ rfl rfl rfl
    block hb
  refine Device.outcome_read_of_layout ⟨h.isSome_find?, h.size_le⟩ h.holds ?_
  exact Nat.lt_of_lt_of_eq hb h.size_eq.symm

theorem Record.Filed.elsewhere (h : record.Filed host)
    (hsame : host'.find? record.path = host.find? record.path) : record.Filed host' where
  isSome_find? := hsame ▸ h.isSome_find?
  size_le := Host.contents_eq_of_find? hsame ▸ h.size_le
  holds := Host.contents_eq_of_find? hsame ▸ h.holds
  size_eq := h.size_eq

/-! ## Volumes whose files are sound -/

/-- The cache shows the blocks of the record. -/
structure Shows (record : Record) (cache : Cache) (host : Host) : Prop where
  size_eq : cache.device.storage.size = record.size
  layout_eq : cache.device.container.layout.geometry = record.layout
  blocks_eq : cache.device.blocks = record.table.size
  readOnly_eq : cache.device.readOnly = record.table.readOnly
  bears : Cache.Bears (cache.device, host) (cache, host) record.table.blocks

/-- The cache of a device that was opened shows what the device reads. -/
theorem shows_of_calm {device : Device} {c : Nat → Block} {options : DeviceOptions}
    (h : Device.Calm (device, host) (device, host) c)
    (hle : device.container.headerSize ≤ device.container.layout.base)
    (hcache : (cacheFor device options).run host = .ok cache host) (source : Source)
    (path : String) :
    Shows (.ofDevice source path device host) cache host := by
  have hread (block : Nat) (hb : block < device.container.layout.blocks) :
      (Record.ofDevice source path device host).table.blocks block = c block := by
    show (match (Device.read block).outcome (device, host) with
      | .ok bytes => bytes
      | .error _ => Bytes.zero 512) = c block
    rw [Device.outcome_read_of_layout h.reached.2.backed h.reached.2.layout hb]
  have hcalm : Device.Calm (device, host) (device, host)
      (Record.ofDevice source path device host).table.blocks :=
    ⟨⟨.refl _, h.reached.2.backed, h.reached.2.layout.agree hread, h.reached.2.checksum,
      h.reached.2.writable⟩, h.unmodified⟩
  obtain ⟨cache', hcache', rfl, hbears⟩ := Cache.exists_bears hcalm hle options
  cases hcache.symm.trans hcache'
  exact ⟨rfl, rfl, rfl, rfl, hbears⟩

/-- A task is done as with the table of the record. -/
theorem Shows.perform_ends (h : Shows record cache host) (task : Task) :
    Ends task.perform (cache, host) fun r after =>
      r = task.perform.outcome record.table ∧ Shows (record.after task) after.1 after.2 := by
  have htable : (⟨cache.device.blocks, cache.device.readOnly, record.table.blocks⟩ : Table) =
      record.table := by rw [h.blocks_eq, h.readOnly_eq]
  obtain ⟨houtcome, c, hbears, hafter⟩ := h.bears.perform_ends task
  rw [htable] at houtcome hafter
  have hevolves := hbears.evolves
  have hbears' := hbears.elsewhere rfl
  refine ends_iff.mpr ⟨houtcome, ?_, hevolves.geometry_eq.trans h.layout_eq, ?_, ?_, ?_⟩
  · rw [hevolves.storage_eq]
    exact h.size_eq
  · rw [hevolves.blocks_eq, Record.after, hafter]
  · rw [hevolves.readOnly_eq, Record.after, hafter]
  · rw [Record.after, hafter]
    exact hbears'

/-- The cache can be closed, and then the blocks are in the file. -/
theorem Shows.closeCache_ends (h : Shows record cache host)
    (hfile : cache.device.storage.file = record.path) :
    Ends (closeCache cache) host fun r after => r = .ok () ∧ record.Filed after := by
  obtain ⟨final, hfinal, hrun⟩ := h.bears.run_closeCache
  obtain ⟨hevolves, hholds⟩ := hfinal.reached
  refine (ends_of_run_eq_ok hrun).mpr ⟨rfl, ?_⟩
  have hbacked := hholds.backed
  have hlayout := hholds.layout.geometry
  rw [hevolves.storage_eq] at hbacked
  rw [hevolves.geometry_eq, hevolves.storage_eq] at hlayout
  obtain ⟨hfound, hle⟩ := hbacked
  dsimp only at hfound hle hlayout
  rw [hfile] at hfound hle hlayout
  rw [h.size_eq] at hle hlayout
  rw [h.layout_eq] at hlayout
  refine ⟨hfound, hle, hlayout, ?_⟩
  rw [← h.layout_eq, Layout.blocks_geometry]
  exact h.blocks_eq

/-! ## One volume -/

/-- The volume has its image in the file of the record, and if the file is sound, it shows the blocks
of the record. -/
structure Tracks (record : Record) (volume : Volume) (host : Host) : Prop where
  path_eq : volume.path = record.path
  file_eq : volume.cache.device.storage.file = record.path
  grounded : volume.cache.Grounded
  shows (h : record.sound) : Shows record volume.cache host

/-- What becomes of other files does not matter to it. -/
theorem Tracks.elsewhere (h : Tracks record volume host)
    (hsame : host'.find? record.path = host.find? record.path) : Tracks record volume host' where
  path_eq := h.path_eq
  file_eq := h.file_eq
  grounded := h.grounded
  shows hsound := by
    obtain ⟨hsize, hlayout, hblocks, hreadOnly, hbears⟩ := h.shows hsound
    rw [← h.file_eq] at hsame
    exact ⟨hsize, hlayout, hblocks, hreadOnly, hbears.elsewhere hsame⟩

/-- Whatever another program does to a file, less is known of the volume then. -/
theorem Tracks.disturb (h : Tracks record volume host) (hapart : Host.Apart file host host') :
    Tracks (record.disturb file) volume host' where
  path_eq := h.path_eq
  file_eq := h.file_eq
  grounded := h.grounded
  shows hsound := by
    obtain ⟨hsize, hlayout, hblocks, hreadOnly, hbears⟩ :=
      (h.elsewhere (hapart hsound.2)).shows hsound.1
    exact ⟨hsize, hlayout, hblocks, hreadOnly, hbears⟩

/-- A task touches no other file, and one with a sound file is done as with the table of the
record. -/
theorem Tracks.perform_ends (h : Tracks record volume host) (task : Task) :
    Ends task.perform (volume.cache, host) fun r after =>
      (record.sound → r = task.perform.outcome record.table) ∧
        Tracks (record.after task) ⟨volume.path, after.1⟩ after.2 ∧
        Host.Apart record.path host after.2 := by
  obtain ⟨hstorage, hgrounded, hapart⟩ := ends_iff.mp (Cache.confined h.grounded task.uniform)
  have hsound (hs : record.sound) := ends_iff.mp ((h.shows hs).perform_ends task)
  exact ends_iff.mpr ⟨fun hs => (hsound hs).1, ⟨h.path_eq, (congrArg Storage.file hstorage).trans
    h.file_eq, hgrounded, fun hs => (hsound hs).2⟩, h.file_eq ▸ hapart⟩

/-- Closing a volume touches no other file. If its file is sound, closing it succeeds, and then its
blocks are in the file. -/
theorem Tracks.closeCache_ends (h : Tracks record volume host) :
    Ends (closeCache volume.cache) host fun r after =>
      (record.sound → r = .ok () ∧ record.Filed after) ∧ Host.Apart record.path host after := by
  have hapart := ends_iff.mp (Cache.confined_closeCache h.grounded host)
  exact ends_iff.mpr ⟨fun hs => ends_iff.mp ((h.shows hs).closeCache_ends h.file_eq),
    h.file_eq ▸ hapart⟩

/-! ## All volumes -/

/-- The open volumes are those of the register, and no two of them have their images in one file. -/
structure Represents (state : Session × Host) (register : Register) : Prop where
  slot (id : Nat) : Option.Rel (fun volume record => Tracks record volume state.2)
    (state.1.find? id) (register id)
  distinct {id other : Nat} {record record' : Record} (h : register id = some record)
    (h' : register other = some record') (hpath : record.path = record'.path) : id = other

namespace Represents

theorem exists_tracks (h : Represents state register) (hr : register id = some record) :
    ∃ volume, state.1.find? id = some volume ∧ Tracks record volume state.2 := by
  have hslot := h.slot id
  rw [hr] at hslot
  cases hfind : state.1.find? id with
  | none =>
    rw [hfind] at hslot
    cases hslot
  | some volume =>
    rw [hfind] at hslot
    cases hslot with
    | some htracks => exact ⟨volume, rfl, htracks⟩

theorem find?_eq_none_iff (h : Represents state register) (id : Nat) :
    state.1.find? id = none ↔ register id = none := by
  have hslot := h.slot id
  generalize state.1.find? id = found at hslot ⊢
  generalize register id = entry at hslot ⊢
  cases hslot with
  | none => exact ⟨fun _ => rfl, fun _ => rfl⟩
  | some _ =>
    constructor
    · intro hnone
      cases hnone
    · intro hnone
      cases hnone

theorem mem_volumes_iff (h : Represents state register) (id : Nat) :
    id ∈ state.1.volumes ↔ (register id).isSome := by
  rw [Session.mem_volumes_iff, Option.isSome_iff_ne_none, Option.isSome_iff_ne_none]
  exact not_congr (h.find?_eq_none_iff id)

/-- Two volumes that are open have their images in different files. -/
theorem path_ne (h : Represents state register) (hr : register id = some record) {record' : Record}
    (hother : other ≠ id) (hr' : register other = some record') : record'.path ≠ record.path :=
  fun hpath => hother (h.distinct hr' hr hpath)

/-- What leaves a volume as its record says leaves the slot as the register says. -/
theorem slot_of_forall (h : Represents (session, host) register)
    (hkeep : ∀ record, register id = some record → ∀ volume, Tracks record volume host →
      Tracks record volume host') :
    Option.Rel (fun volume record => Tracks record volume host') (session.find? id) (register id) := by
  have hslot := h.slot id
  generalize session.find? id = found at hslot ⊢
  generalize register id = entry at hslot hkeep ⊢
  cases hslot with
  | none => exact .none
  | some htracks => exact .some (hkeep _ rfl _ htracks)

/-- What becomes of one file does not matter to the volumes that have their images in others. -/
theorem slot_elsewhere (h : Represents (session, host) register)
    (hapart : Host.Apart file host host')
    (hne : ∀ record, register id = some record → record.path ≠ file) :
    Option.Rel (fun volume record => Tracks record volume host') (session.find? id) (register id) :=
  h.slot_of_forall fun record hr _ htracks => htracks.elsewhere (hapart (hne record hr))

/-- A warning does not matter to any. -/
theorem warn (h : Represents (session, host) register) (warning : Warning) :
    Represents (session, host.warn warning) register where
  slot _ := h.slot_of_forall fun _ _ _ htracks => htracks.elsewhere rfl
  distinct := h.distinct

/-- A volume is put into a slot, or changed there, and nothing is done to other files. -/
theorem put (h : Represents (session, host) register) (hid : id ≤ session.slots.size)
    (htracks : Tracks record volume host') (hapart : Host.Apart record.path host host')
    (hne : ∀ other record', other ≠ id → register other = some record' →
      record'.path ≠ record.path) :
    Represents (session.put id volume, host') (Function.update register id (some record)) where
  slot other := by
    by_cases hother : other = id
    · subst hother
      rw [find?_put_self hid, Function.update_self]
      exact .some htracks
    · rw [find?_put_of_ne hid hother, Function.update_of_ne hother]
      exact h.slot_elsewhere hapart fun record' hr => hne other record' hother hr
  distinct {first second record₁ record₂} h₁ h₂ hpath := by
    by_cases hfirst : first = id
    · by_cases hsecond : second = id
      · rw [hfirst, hsecond]
      · rw [hfirst, Function.update_self] at h₁
        rw [Function.update_of_ne hsecond] at h₂
        obtain rfl := Option.some.inj h₁
        exact absurd hpath.symm (hne second record₂ hsecond h₂)
    · rw [Function.update_of_ne hfirst] at h₁
      by_cases hsecond : second = id
      · rw [hsecond, Function.update_self] at h₂
        obtain rfl := Option.some.inj h₂
        exact absurd hpath (hne first record₁ hfirst h₁)
      · rw [Function.update_of_ne hsecond] at h₂
        exact h.distinct h₁ h₂ hpath

/-- A volume is taken out of its slot, and nothing is done to other files. -/
theorem vacate (h : Represents (session, host) register)
    (hapart : Host.Apart file host host')
    (hne : ∀ other record, other ≠ id → register other = some record → record.path ≠ file) :
    Represents (session.vacate id, host') (register.strike id) where
  slot other := by
    rw [find?_vacate, Register.strike]
    by_cases hother : other = id
    · rw [if_pos hother, hother, Function.update_self]
      exact .none
    · rw [if_neg hother, Function.update_of_ne hother]
      exact h.slot_elsewhere hapart fun record hr => hne other record hother hr
  distinct {first second record₁ record₂} h₁ h₂ hpath := by
    have hopen {slot : Nat} {record : Record} (hr : register.strike id slot = some record) :
        register slot = some record := by
      rw [Register.strike, Function.update_apply] at hr
      split at hr
      · cases hr
      · exact hr
    exact h.distinct (hopen h₁) (hopen h₂) hpath

end Represents

/-! ## Steps -/

theorem Register.strike_of_mem {ids : List Nat} (register : Register) (hid : id ∉ ids)
    (hmem : other ∈ ids) : register.strike id other = register other :=
  Function.update_of_ne (ne_of_mem_of_not_mem hmem hid) _ _

/-- Volumes were closed: the blocks of those whose files are sound are in them, and files of no
volume among them were not touched. -/
structure Register.Settled (register : Register) (ids : List Nat) (host after : Host) : Prop where
  filed {id : Nat} {record : Record} (hmem : id ∈ ids) (hr : register id = some record)
    (hsound : record.sound) : record.Filed after
  apart {file : String}
    (hfree : ∀ id ∈ ids, ∀ record, register id = some record → record.path ≠ file) :
    after.find? file = host.find? file

/-- One volume was closed, and then others, which have their images in other files. -/
theorem Register.Settled.cons {ids : List Nat} {final : Host}
    (h : (register.strike id).Settled ids host' final) (hid : id ∉ ids)
    (hr : register id = some record) (hfiled : record.sound → record.Filed host')
    (hapart : Host.Apart record.path host host')
    (hne : ∀ other record', other ∈ ids → register other = some record' →
      record'.path ≠ record.path) : register.Settled (id :: ids) host final := by
  have hothers {file : String}
      (hfree : ∀ other ∈ ids, ∀ record', register other = some record' → record'.path ≠ file) :
      final.find? file = host'.find? file :=
    h.apart fun other hmem record' hr' =>
      hfree other hmem record' (register.strike_of_mem hid hmem ▸ hr')
  refine ⟨fun hmem hr' hsound => ?_, fun {file} hfree => ?_⟩
  · rcases List.mem_cons.mp hmem with rfl | hmem
    · obtain rfl := Option.some.inj (hr.symm.trans hr')
      exact (hfiled hsound).elsewhere (hothers fun other hmem record' => hne other record' hmem)
    · exact h.filed hmem ((register.strike_of_mem hid hmem).trans hr') hsound
  · have hfile : file ≠ record.path := (hfree id List.mem_cons_self record hr).symm
    have hrest := hothers fun other hmem => hfree other (List.mem_cons_of_mem _ hmem)
    exact hrest.trans (hapart hfile)

/-- Making a device touches no file but its own. -/
theorem Source.makeDevice_apart (source : Source) (path : String) (host : Host) :
    Ends (source.makeDevice path) host fun _ after => Host.Apart path host after := by
  cases source with
  | file options =>
    exact (Device.files_openFile path options host).mono fun _ _ h => Host.apart_of_files_eq path h
  | blank format blocks options => exact Device.apart_create path format blocks options host

/-- A device that was made has a file, and if it is regular, it shows what is in it. -/
theorem Source.device_made {device : Device} {opened : Host}
    (h : (source.makeDevice path).run host = .ok device opened) :
    device.storage.file = path ∧ (source.Regular (device, opened) →
      device.container.headerSize ≤ device.container.layout.base ∧
        ∃ c, Device.Calm (device, opened) (device, opened) c) := by
  cases source with
  | file options =>
    refine ⟨Device.file_of_openFile h, fun hregular => ?_⟩
    exact ⟨Device.headerSize_le_of_openFile h, Device.exists_calm_of_openFile h hregular⟩
  | blank format blocks options =>
    obtain ⟨_, _, -, -, -, rfl, hlays⟩ := Device.exists_of_create h
    exact ⟨rfl, fun _ => ⟨hlays.header_le, _, Device.calm_of_create h⟩⟩

theorem represents_empty (host : Host) : Represents (empty, host) fun _ => none where
  slot _ := .none
  distinct h := by cases h

namespace Represents

/-- A volume that is opened is entered in the register. -/
theorem makeVolume_ends (h : Represents (session, host) register) (source : Source)
    (hunused : register.Unused path) :
    Ends (source.makeVolume path) (session, host) fun r after =>
      Represents after (register.enter source path ((source.makeDevice path).run host) r) := by
  have hapart := ends_iff.mp (source.makeDevice_apart path host)
  unfold stateAfter at hapart
  cases hdevice : (source.makeDevice path).run host with
  | error e opened =>
    rw [hdevice] at hapart
    refine (ends_of_run_eq_error (source.run_makeVolume_of_error hdevice)).mpr ?_
    exact ⟨fun id => h.slot_elsewhere hapart (hunused id), h.distinct⟩
  | ok device opened =>
    rw [hdevice] at hapart
    obtain ⟨hfile, hregular⟩ := source.device_made hdevice
    obtain ⟨cache, hcache, rfl, hgrounded⟩ := exists_cacheFor device source.options opened
    have htracks : Tracks (.ofDevice source path cache.device opened) ⟨path, cache⟩ opened := by
      refine ⟨rfl, hfile, hgrounded, fun hsound => ?_⟩
      obtain ⟨hle, c, hcalm⟩ := hregular hsound
      exact shows_of_calm hcalm hle hcache source path
    refine (ends_of_run_eq_ok (source.run_makeVolume_of_ok hdevice hcache)).mpr ?_
    exact h.put session.vacant_le_size htracks hapart fun other record _ hr => hunused other record hr

/-- A task that is done with an open volume is kept in the register. -/
theorem onCache_ends (h : Represents (session, host) register)
    (hr : register id = some record) (task : Task) :
    Ends (onCache id task.perform) (session, host) fun r after =>
      (record.sound → r = task.perform.outcome record.table) ∧
        Represents after (register.change id task) ∧ Host.Apart record.path host after.2 := by
  obtain ⟨⟨path, cache⟩, hfind, htracks⟩ := h.exists_tracks hr
  apply (ends_onCache hfind).mpr
  apply (htracks.perform_ends task).mono
  rintro r ⟨cache', host'⟩ ⟨houtcome, htracks', hapart⟩
  refine ⟨houtcome, ?_, hapart⟩
  rw [Register.change, hr, Option.map_some]
  exact h.put (Nat.le_of_lt (lt_size_of_find? hfind)) htracks' hapart
    fun other record' hne hr' => h.path_ne hr hne hr'

/-- A volume that is closed is struck out of the register. If its file is sound, its blocks are in
it. -/
theorem close_ends (h : Represents (session, host) register) (hr : register id = some record) :
    Ends (close id) (session, host) fun r after =>
      (record.sound → r = .ok () ∧ record.Filed after.2) ∧
        Represents after (register.strike id) ∧ Host.Apart record.path host after.2 := by
  obtain ⟨volume, hfind, htracks⟩ := h.exists_tracks hr
  obtain ⟨houtcome, hstate⟩ := close_eq_of_find? hfind host
  obtain ⟨hsound, hapart⟩ := ends_iff.mp htracks.closeCache_ends
  rw [ends_iff, houtcome, hstate]
  exact ⟨hsound, h.vacate hapart fun other record' hne hr' => h.path_ne hr hne hr', hapart⟩

/-- Volumes are closed one after the other, whatever comes of those before. If their files are sound,
nothing fails. -/
theorem closeEach_ends {ids : List Nat} (hnodup : ids.Nodup) :
    ∀ {session : Session} {host : Host} {register : Register},
      Represents (session, host) register → (∀ id ∈ ids, (register id).isSome) →
        Ends (closeEach ids) (session, host) fun r after =>
          ((∀ id ∈ ids, ∀ record, register id = some record → record.sound) → r = .ok (.ok ())) ∧
            register.Settled ids host after.2 := by
  -- Each step strikes a volume out, so the register goes with the slots that are left.
  induction ids with
  | nil =>
    intro session host register _ _
    refine ⟨fun _ => rfl, fun hmem => ?_, fun _ => rfl⟩
    cases hmem
  | cons id ids ih =>
    intro session host register h hopen
    obtain ⟨hnew, hnodup⟩ := List.nodup_cons.mp hnodup
    obtain ⟨record, hr⟩ := Option.isSome_iff_exists.mp (hopen id List.mem_cons_self)
    have hstrike (other : Nat) (hmem : other ∈ ids) : register.strike id other = register other :=
      register.strike_of_mem hnew hmem
    have hrest (other : Nat) (hmem : other ∈ ids) : (register.strike id other).isSome := by
      rw [hstrike other hmem]
      exact hopen other (List.mem_cons_of_mem _ hmem)
    have hcons {host' final : Host} (hfiled : record.sound → record.Filed host')
        (hapart : Host.Apart record.path host host')
        (hsettled : (register.strike id).Settled ids host' final) :
        register.Settled (id :: ids) host final :=
      hsettled.cons hnew hr hfiled hapart fun other record' hmem hr' =>
        h.path_ne hr (ne_of_mem_of_not_mem hmem hnew) hr'
    rw [closeEach, ends_bind, ends_attempt]
    apply (h.close_ends hr).mono
    rintro result ⟨session', host'⟩ ⟨hsound, h', hapart⟩
    dsimp only
    cases result with
    | ok _ =>
      apply (ih hnodup h' hrest).mono
      rintro r ⟨closed, final⟩ ⟨hok, hsettled⟩
      refine ⟨fun hall => hok fun other hmem record' hr' => ?_,
        hcons (fun hs => (hsound hs).2) hapart hsettled⟩
      exact hall other (List.mem_cons_of_mem _ hmem) record' (hstrike other hmem ▸ hr')
    | error e =>
      have hunsound : ¬ ∀ other ∈ id :: ids, ∀ record, register other = some record →
          record.sound := by
        intro hall
        cases (hsound (hall id List.mem_cons_self record hr)).1
      -- The failure is logged and the first one is kept, so whatever the rest gives is not `ok`.
      have hwarned : Host.Apart record.path host (host'.warn (.volumeNotClosed id e)) :=
        hapart.trans (Host.apart_of_files_eq _ rfl)
      rw [ends_bind, ends_modify, ends_bind]
      apply (ih hnodup (h'.warn (.volumeNotClosed id e)) hrest).mono
      rintro r ⟨closed, final⟩ ⟨-, hsettled⟩
      have hlast := hcons (fun hs => by cases (hsound hs).1) hwarned hsettled
      cases r with
      | ok _ => exact ⟨fun hall => absurd hall hunsound, hlast⟩
      | error e => exact ⟨fun hall => absurd hall hunsound, hlast⟩

/-- After all volumes are closed, the blocks of each whose file is sound are in it. -/
theorem closeAll_ends (h : Represents (session, host) register) :
    Ends closeAll (session, host) fun r after =>
      ((∀ id record, register id = some record → record.sound) → r = .ok ()) ∧
        ∀ id record, register id = some record → record.sound → record.Filed after.2 := by
  have hvolumes (id : Nat) : id ∈ session.volumes ↔ (register id).isSome := h.mem_volumes_iff id
  unfold closeAll
  refine ends_bind.mpr (ends_ask.mpr ?_)
  apply (h.closeEach_ends session.nodup_volumes fun id hmem => (hvolumes id).mp hmem).bind
  · rintro result after ⟨hok, hsettled⟩
    refine ends_bind.mpr (ends_modify.mpr (ends_ofExcept.mpr ⟨fun hall => ?_, ?_⟩))
    · exact Except.ok.inj (hok fun id _ record hr => hall id record hr)
    · intro id record hr hsound
      exact hsettled.filed ((hvolumes id).mpr (Option.isSome_of_eq_some hr)) hr hsound
  · rintro e after ⟨hok, hsettled⟩
    refine ⟨fun hall => ?_, fun id record hr hsound => ?_⟩
    · cases hok fun id _ record hr => hall id record hr
    · exact hsettled.filed ((hvolumes id).mpr (Option.isSome_of_eq_some hr)) hr hsound

/-- Another program does something to a file. -/
theorem disturb (h : Represents (session, host) register) (hapart : Host.Apart file host host') :
    Represents (session, host') (register.disturb file) where
  slot id := by
    have hslot := h.slot id
    unfold Register.disturb
    generalize session.find? id = found at hslot ⊢
    generalize register id = entry at hslot ⊢
    cases hslot with
    | none => exact .none
    | some htracks => exact .some (htracks.disturb hapart)
  distinct {first second record₁ record₂} h₁ h₂ hpath := by
    obtain ⟨record₁', hr₁, rfl⟩ := Option.map_eq_some_iff.mp h₁
    obtain ⟨record₂', hr₂, rfl⟩ := Option.map_eq_some_iff.mp h₂
    exact h.distinct hr₁ hr₂ hpath

end Represents

/-- However a session is used, the open volumes are those of the register. -/
theorem represents_of_course {initial : Host} (h : Course initial state register) :
    Represents state register := by
  -- On the course. A number without a volume changes neither the session nor the register.
  induction h with
  | start => exact represents_empty initial
  | makeVolume _ source path hunused ih => exact ends_iff.mp (ih.makeVolume_ends source hunused)
  | @onCache state register _ id task ih =>
    obtain ⟨session, host⟩ := state
    cases hr : register id with
    | none =>
      have hsame : register.change id task = register := by
        rw [Register.change, hr, Option.map_none, ← hr, Function.update_eq_self]
      rw [hsame, stateAfter, run_onCache_of_not_open _ _ ((ih.find?_eq_none_iff id).mpr hr)]
      exact ih
    | some record => exact (ends_iff.mp (ih.onCache_ends hr task)).2.1
  | @close state register _ id ih =>
    obtain ⟨session, host⟩ := state
    cases hr : register id with
    | none =>
      have hsame : register.strike id = register := by
        rw [Register.strike, ← hr, Function.update_eq_self]
      rw [hsame, stateAfter, run_close_of_not_open ((ih.find?_eq_none_iff id).mpr hr)]
      exact ih
    | some record => exact (ends_iff.mp (ih.close_ends hr)).2.1
  | @closeAll state register _ ih =>
    have hempty := (closeAll_eq state.1 state.2).2
    rw [hempty]
    exact represents_empty _
  | disturb _ file hapart ih => exact ih.disturb hapart

end Diskette.Session
