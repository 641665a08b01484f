import Diskette.Proofs.Cache.Table
import Diskette.Proofs.Fork.Stock

/-!
# Volumes are found again as they were left

A volume is created in a session, stocked with files and closed. When its image is opened again, in
this session or another one, its bitmap and its files are what they were, whatever the format of the
image and whichever strategies its caches have.

* `find?_put_self`, `ends_onCache`, `run_insert_of_ok`, `run_close_of_ok`: the slot of a volume.
* `stock_fresh_ends`: neither format nor strategy makes a difference to what is stored.
* `ship_ends`: what is left of a volume that was stocked and closed is in its file.
* `inspect_ends`: what is found in such a file.
* `run_inspect_of_ship`: so what is found is what was stored.
-/

namespace Diskette.Session

open Diskette.Action Diskette.Device

variable {session : Session} {id : Nat} {volume : Volume} {path : String} {format : Format}
  {blocks : Nat} {options : DeviceOptions} {device : Device} {cache : Cache} {host after : Host}

/-! ## The slot of a volume -/

theorem find?_put_self (h : id ≤ session.slots.size) (volume : Volume) :
    (session.put id volume).find? id = some volume := by
  obtain ⟨slots⟩ := session
  have hle : id ≤ slots.size := h
  unfold put
  by_cases hlt : id < slots.size
  · simp [find?, hlt]
  · obtain rfl : id = slots.size := by omega
    simp [find?]

theorem lt_size_of_find? (h : session.find? id = some volume) : id < session.slots.size := by
  by_contra hle
  rw [find?, Array.getElem?_eq_none (Nat.not_lt.mp hle)] at h
  cases h

/-- What is done to the cache of an open volume. -/
theorem ends_onCache {α : Type} {act : Action (Cache × Host) α}
    {Q : Except DiskError α → Session × Host → Prop}
    (h : session.find? id = some ⟨path, cache⟩) :
    Ends (onCache id act) (session, host) Q ↔ Ends act (cache, host) fun r state =>
      Q r (session.put id ⟨path, state.1⟩, state.2) := by
  unfold Ends EStateM.run onCache
  simp only [h]
  cases act (cache, host) <;> rfl

theorem run_insert_of_ok [Medium] (h : (cacheFor device options).run host = .ok cache after) :
    (insert path device options).run (session, host) =
      .ok session.vacant (session.put session.vacant ⟨path, cache⟩, after) := by
  rw [insert, run_bind_of_ok (run_onSecond_of_ok h)]
  rfl

theorem run_create_of_ok {created : Host}
    (h : (Device.create path format blocks options).run host = .ok device created)
    (hcache : (cacheFor device options).run created = .ok cache after) :
    (create path format blocks options).run (session, host) =
      .ok session.vacant (session.put session.vacant ⟨path, cache⟩, after) := by
  rw [create, run_bind_of_ok (run_onSecond_of_ok h), run_insert_of_ok hcache]

theorem run_openFile_of_ok {opened : Host}
    (h : (Device.openFile path options).run host = .ok device opened)
    (hcache : (cacheFor device options).run opened = .ok cache after) :
    (openFile path options).run (session, host) =
      .ok session.vacant (session.put session.vacant ⟨path, cache⟩, after) := by
  rw [openFile, run_bind_of_ok (run_onSecond_of_ok h), run_insert_of_ok hcache]

theorem run_close_of_ok (hfind : session.find? id = some ⟨path, cache⟩)
    (h : (closeCache cache).run host = .ok () after) :
    (close id).run (session, host) = .ok () (session.vacate id, after) := by
  unfold EStateM.run close at *
  simp only [hfind, h]

/-! ## A volume that comes and goes -/

/-- Creates an image, stocks it with files and closes it. The files that could be written are
returned. -/
def ship (path : String) (format : Format) (blocks : Nat) (options : DeviceOptions)
    (writes : List FileWrite) : Action (Session × Host) (List StoredFile) := do
  let id ← create path format blocks options
  let files ← onCache id (stock blocks writes)
  close id
  return files

/-- Opens an image and takes inventory of it. -/
def inspect (path : String) (blocks : Nat) (options : DeviceOptions) (files : List Descriptor) :
    Action (Session × Host) Inventory := do
  let id ← openFile path options
  onCache id (takeInventory blocks files)

variable {c : Nat → Block} {writes : List FileWrite} {files : List StoredFile}

/-- The file is an image of the array, and anyone may write to it. -/
structure Filed (path : String) (format : Format) (blocks : Nat) (host : Host) (c : Nat → Block) :
    Prop where
  image : Image format blocks (host.contents path) c
  access_eq : host.access? path = some .readWrite

/-- Whatever format a new image has and whichever strategy its cache, it is stocked with what blocks
in memory would be stocked with. -/
theorem stock_fresh_ends (hfresh : Fresh path format blocks (device, host))
    (h : Cache.Carries (device, host) (cache, host) fun _ => Bytes.zero 512)
    (writes : List FileWrite) :
    Ends (stock blocks writes) (cache, host) fun r state =>
      r = (stock blocks writes).outcome (Memory.zeros blocks) ∧
        ∃ c, Cache.Carries (device, host) state c ∧ ∀ files, r = .ok files →
          (files.map (·.2)).Sublist writes ∧
            Stocked blocks (Cache.Carries (device, host)) state files c := by
  have hcount : device.blocks = blocks := hfresh.blocks_eq
  have hwritable : device.readOnly = false := hfresh.readOnly_eq
  have hstore : ExactStore blocks false (Cache.Carries (device, host)) :=
    hcount ▸ hwritable ▸ Cache.carriesStore (device, host)
  have hshown : ∃ c, Cache.Carries (device, host) (cache, host) c ∧
      (Memory.zeros blocks).size = blocks ∧ (Memory.zeros blocks).blocks = c :=
    ⟨_, h, rfl, rfl⟩
  have hagree := parallel_stock (hstore.storesAgree (Memory.exactStore blocks)) blocks writes hshown
  refine Ends.and (ends_iff.mpr (agree_iff.mp hagree).1.symm) ?_
  exact stock_ends hstore.arrayStore hfresh.image.blocks_lt
    (Image.blocks_ne_zero hfresh.image.size_eq) h writes

/-- What a volume was stocked with is in its file once the volume is closed. -/
theorem ship_ends {created : Host} (hblocks : blocks < 0x100000000)
    (hcreate : (Device.create path format blocks options).run host = .ok device created)
    (session : Session) (writes : List FileWrite) :
    Ends (ship path format blocks options writes) (session, host) fun r state =>
      r = (stock blocks writes).outcome (Memory.zeros blocks) ∧ ∀ files, r = .ok files →
        (files.map (·.2)).Sublist writes ∧
          ∃ c, Stocked blocks (Filed path format blocks) state.2 files c := by
  have hfresh := fresh_of_create hblocks hcreate
  obtain ⟨cache, hcache, hcarries⟩ := Cache.run_cacheFor hfresh.holds hfresh.header_le options
  have hfind := find?_put_self session.vacant_le_size ⟨path, cache⟩
  rw [ship, ends_bind, ends_of_run_eq_ok (run_create_of_ok hcreate hcache)]
  dsimp only
  rw [ends_bind, ends_onCache hfind]
  refine (stock_fresh_ends hfresh hcarries writes).mono ?_
  rintro (e | files) ⟨cache', host'⟩ ⟨hr, c, hcarries', hstocked⟩
  · exact ⟨hr, nofun⟩
  · dsimp only
    have hfind' := find?_put_self (Nat.le_of_lt (lt_size_of_find? hfind)) ⟨path, cache'⟩
    obtain ⟨final, hfinal, hclose⟩ := (hcarries'.bears hfresh.readOnly_eq).run_closeCache
    rw [ends_bind, ends_of_run_eq_ok (run_close_of_ok hfind' hclose), ends_pure]
    refine ⟨hr, fun files' hok => ?_⟩
    obtain rfl := Except.ok.inj hok
    obtain ⟨hsub, hstocked⟩ := hstocked files rfl
    exact ⟨hsub, c, hstocked.carry
      ⟨hfresh.image_of_reached hfinal.reached, hfresh.access_of_reached hfinal.reached⟩⟩

/-- A volume that was stocked was created before. -/
theorem exists_of_run_ship {state : Session × Host}
    (h : (ship path format blocks options writes).run (session, host) = .ok files state) :
    ∃ device created, (Device.create path format blocks options).run host = .ok device created := by
  cases hcreate : (Device.create path format blocks options).run host with
  | ok device created => exact ⟨device, created, rfl⟩
  | error e after =>
    have hfails : Ends (ship path format blocks options writes) (session, host) fun r _ =>
        r = .error e := by
      rw [ship, create, ends_bind, ends_bind, ends_onSecond, ends_of_run_eq_error hcreate]
    cases hfails.of_ok h

/-- What a file was stocked with is found when it is opened as an image of its format. -/
theorem inspect_ends (hblocks : blocks < 0x100000000)
    (h : Stocked blocks (Filed path format blocks) host files c)
    (hformat : options.format = some format) (session : Session) :
    Ends (inspect path blocks options (files.map (·.1))) (session, host) fun r _ =>
      ∃ inventory, r = .ok inventory ∧ inventory.Lists blocks files := by
  obtain ⟨device, after, hopen, -, hcount, hholds⟩ :=
    run_openFile h.holds.image h.holds.access_eq hformat
  have hstore : ArrayStore blocks (Cache.Carries (device, after)) :=
    hcount ▸ (Cache.carriesStore (device, after)).arrayStore
  obtain ⟨cache, hcache, hcarries⟩ :=
    Cache.run_cacheFor hholds (headerSize_le_of_openFile hopen) options
  have hfind := find?_put_self session.vacant_le_size ⟨path, cache⟩
  rw [inspect, ends_bind, ends_of_run_eq_ok (run_openFile_of_ok hopen hcache)]
  dsimp only
  rw [ends_onCache hfind]
  exact (takeInventory_ends hstore hblocks (h.carry hcarries)).mono fun _ _ hr => hr.2

/-- A volume that was created, stocked with files and closed is found again as it was left: the
blocks that its bitmap says are free are all but the reserved ones and those of its files, the files
read what was written, and once they are freed, in any order, all blocks but the reserved ones are
free. -/
theorem run_inspect_of_ship {closed : Session} {reopening : DeviceOptions}
    {listed : List StoredFile} (hblocks : blocks < 0x100000000)
    (h : (ship path format blocks options writes).run (session, host) = .ok files (closed, after))
    (hformat : reopening.format = some format) (hlisted : listed.Perm files) (other : Session) :
    (files.map (·.2)).Sublist writes ∧ ∃ inventory state,
      (inspect path blocks reopening (listed.map (·.1))).run (other, after) = .ok inventory state ∧
        inventory.Lists blocks listed := by
  obtain ⟨device, created, hcreate⟩ := exists_of_run_ship h
  obtain ⟨-, hfiled⟩ := (ship_ends hblocks hcreate session writes).of_ok h
  obtain ⟨hsub, c, hstocked⟩ := hfiled files rfl
  obtain ⟨inventory, hr, hlists⟩ :=
    ends_iff.mp (inspect_ends hblocks (hstocked.perm hlisted) hformat other)
  exact ⟨hsub, inventory, _, run_eq_ok_of_outcome hr, hlists⟩

/-- Two files on a nibble image of two tracks, which is then opened for reading only. -/
theorem run_inspect_of_ship_nibble :
    ∃ files closed after inventory state,
      (ship "disk.nib" .nibble 16 {} [.plain ⟨#[1]⟩, .extended ⟨#[2]⟩ ⟨#[3]⟩]).run
        (empty, Host.empty) = .ok files (closed, after) ∧
      files.map (·.1) = [⟨.seedling, 7, 1, 1⟩, ⟨.extended, 8, 3, 512⟩] ∧
      (inspect "disk.nib" 16 { format := some .nibble, readOnly := true }
        (files.map (·.1))).run (closed, after) = .ok inventory state ∧
      inventory.Lists 16 files := by
  have hfile : Host.empty.checkCreatable "disk.nib" = .ok () :=
    Host.checkCreatable_of_absent rfl (by simp)
  have hsize : Format.nibble.fileSize 16 = .ok 13312 := rfl
  obtain ⟨device, created, hcreate, -⟩ := Device.run_create hfile hsize (by decide) {}
  have hmemory : ((stock 16 [.plain ⟨#[1]⟩, .extended ⟨#[2]⟩ ⟨#[3]⟩]).outcome
      (Memory.zeros 16)).map (List.map fun file => file.1) =
        .ok [⟨.seedling, 7, 1, 1⟩, ⟨.extended, 8, 3, 512⟩] := by decide +kernel
  have hends := ends_iff.mp (ship_ends (by decide) hcreate empty
    [.plain ⟨#[1]⟩, .extended ⟨#[2]⟩ ⟨#[3]⟩])
  rw [← hends.1] at hmemory
  cases hr : (ship "disk.nib" .nibble 16 {} [.plain ⟨#[1]⟩, .extended ⟨#[2]⟩ ⟨#[3]⟩]).outcome
      (empty, Host.empty) with
  | error e =>
    rw [hr] at hmemory
    cases hmemory
  | ok files =>
    rw [hr] at hmemory
    have hship := run_eq_ok_of_outcome hr
    obtain ⟨-, inventory, state, hinspect, hlists⟩ := run_inspect_of_ship (by decide) hship
      (show ({ format := some .nibble, readOnly := true } : DeviceOptions).format = _ from rfl)
      (List.Perm.refl files) _
    exact ⟨files, _, _, inventory, state, hship, Except.ok.inj hmemory, hinspect, hlists⟩

end Diskette.Session
