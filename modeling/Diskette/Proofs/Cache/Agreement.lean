import Diskette.Proofs.Cache.Alike
import Diskette.Proofs.Device.Copies
import Diskette.Proofs.Tasks

/-!
# Mapped and pooled caches agree

A mapped cache on an image and a pooled cache on a copy of it cannot be told apart. Whatever is done
with both, the answers are the same, values and errors, and so are the files after a sync and when
the caches have ended, with the checksum in the header.

* `Interchangeable`: two caches that cannot be told apart.
* `interchangeable_of_copied`: a mapped one and a pooled one on a copy are.
-/

namespace Diskette.Cache

open Diskette.Action

variable {layout : Layout.Sequential} {storage storage' : Storage} {readOnly : Bool}

/-- A mapped and a pooled cache that were used in the same way before copies of a plain image. -/
abbrev Matched (layout : Layout.Sequential) (storage storage' : Storage) (readOnly : Bool) :
    Cache × Host → Cache × Host → Prop :=
  Relation.Map (Alike layout storage storage' readOnly) ofMapped ofState

theorem Matched.storesAgree : StoresAgree (Matched layout storage storage' readOnly) where
  readBlock block := Parallel.mirrored (fun _ _ h => h.readBlock block)
    (embeds_ofMapped.readBlock block) (embeds_ofState.readBlock block)
  writeBlock block data := Parallel.mirrored (fun _ _ h => h.writeBlock block data)
    (embeds_ofMapped.writeBlock block data) (embeds_ofState.writeBlock block data)

theorem Matched.sync :
    Parallel (Matched layout storage storage' readOnly) BlockCache.sync BlockCache.sync :=
  Parallel.mirrored (fun _ _ h => h.sync.mono fun _ _ _ hq => hq.2.1) embeds_ofMapped.sync
    embeds_ofState.sync

/-- Two caches, on a file each, that the same tasks do not tell apart. -/
structure Interchangeable (file file' : String) (state other : Cache × Host) : Prop where
  answers_eq (tasks : List Task) :
    (Task.performAll tasks other).1 = (Task.performAll tasks state).1
  /-- A sync succeeds and leaves the same file. -/
  synced (tasks : List Task) :
    BlockCache.sync.outcome (Task.performAll tasks state).2 = .ok () ∧
      (BlockCache.sync.stateAfter (Task.performAll tasks other).2).2.contents file' =
        (BlockCache.sync.stateAfter (Task.performAll tasks state).2).2.contents file
  /-- The end of the caches leaves the same file. -/
  disposed (tasks : List Task) :
    ((Task.performAll tasks other).2.1.dispose (Task.performAll tasks other).2.2).contents file' =
      ((Task.performAll tasks state).2.1.dispose (Task.performAll tasks state).2.2).contents file

theorem Matched.interchangeable {state other : Cache × Host}
    (h : Matched layout storage storage' readOnly state other) :
    Interchangeable storage.file storage'.file state other where
  answers_eq tasks := (Task.performAll_agree Matched.storesAgree Matched.sync tasks h).1
  synced tasks := by
    obtain ⟨-, direct, buffered, halike, hdirect, hbuffered⟩ :=
      Task.performAll_agree Matched.storesAgree Matched.sync tasks h
    rw [← hdirect, ← hbuffered, embeds_ofMapped.sync.outcome_eq, embeds_ofMapped.sync.stateAfter_eq,
      embeds_ofState.sync.stateAfter_eq]
    obtain ⟨-, hok, hsynced, -, -, hcontents⟩ := agree_iff.mp halike.sync
    exact ⟨hok, hsynced.same_file hcontents⟩
  disposed tasks := by
    obtain ⟨-, direct, buffered, halike, hdirect, hbuffered⟩ :=
      Task.performAll_agree Matched.storesAgree Matched.sync tasks h
    rw [← hdirect, ← hbuffered]
    exact halike.dispose

/-- Caches on an image and on a copy of it, both just opened, have been used in the same way. -/
theorem alike_ofSize {device device' : Device} {host host' : Host}
    (h : Device.Plain layout (device, host)) (h' : Device.Plain layout (device', host'))
    (hm : device.storage.mapped = true) (htwin : Device.Twin layout (device, host) (device', host'))
    (hc : Device.contents (device', host') = Device.contents (device, host))
    (hfresh : device.modified = false) (hfresh' : device'.modified = false) (size : Nat) :
    Alike layout device.storage device'.storage device.readOnly (.clean, device, host)
      (.ofSize size, device', host') where
  displays := ⟨h, rfl, rfl, rfl⟩
  mapped := hm
  dirty_lt _ hmem := absurd hmem Std.TreeSet.not_mem_emptyc
  shows := Pool.shows_ofSize ⟨h', rfl, htwin.readOnly_eq, by rw [hc]⟩ size
  follows := by
    refine ⟨⟨h', htwin⟩, iff_of_false (not_or.mpr ⟨Bool.eq_false_iff.mp hfresh', ?_⟩)
      (Bool.eq_false_iff.mp hfresh)⟩
    rintro ⟨slot, hdirty⟩
    refine hdirty fun entry he => ?_
    simp only [Pool.ofSize, Array.getElem?_replicate] at he
    split at he
    · cases he
      rfl
    · cases he

/-- An image with its data in ProDOS order, with any header, can be mapped, and a copy of it can be
opened whatever it is reached through. The mapped cache and a pooled cache of any size on the copy
are interchangeable. -/
theorem interchangeable_of_copied {file file' : String} {options : DeviceOptions}
    {host opened host' : Host} {device : Device}
    (h : (Device.openFile file options).run host = .ok device opened)
    (hb : options.backing = .mapped) (hf : device.container.layout.format = .proDosOrder)
    (hc : host.Copied file host' file') (backing : Backing) (cache : CacheOptions) :
    ∃ mapped after device' opened',
      (ofMapping device).run opened = .ok mapped after ∧
      (Device.openFile file' { options with backing, cache }).run host' = .ok device' opened' ∧
      ∀ size, Interchangeable file file' (mapped, after) (ofPool device' size, opened') := by
  obtain ⟨layout, hl⟩ : ∃ layout, device.container.layout = .sequential layout := by
    cases hlayout : device.container.layout with
    | sequential layout => exact ⟨layout, rfl⟩
    | interleaved layout => rw [hlayout] at hf; cases hf
    | nibble layout => rw [hlayout] at hf; cases hf
  obtain ⟨device', opened', h', hcontainer, hro⟩ := Device.run_openFile_copied hc h backing cache
  obtain ⟨hplain, hcontents⟩ := Device.plain_of_openFile h hl
  obtain ⟨hplain', hcontents'⟩ := Device.plain_of_openFile h' (hcontainer ▸ hl)
  have hmapping := Device.supportsMapping_of_openFile h hl hb
  have hsame : Device.contents (device', opened') = Device.contents (device, opened) :=
    hcontents'.trans (hc.contents_eq.trans hcontents.symm)
  -- The devices differ in their files and storages only, and the files have the same bytes.
  have htwin : Device.Twin layout (device, opened) (device', opened') :=
    ⟨hro, by rw [hcontainer], congrArg _ hsame, fun _ => by rw [hsame]⟩
  refine ⟨_, _, _, _, run_ofMapping_of_supportsMapping opened hmapping, h', fun size => ?_⟩
  have halike := alike_ofSize hplain hplain' (Bool.and_eq_true_iff.mp hmapping).1 htwin hsame
    (Device.modified_of_openFile h) (Device.modified_of_openFile h') (max size minPoolSize)
  have hmatched : Matched layout device.storage device'.storage device.readOnly
      (⟨.mapped .clean, device⟩, opened) (ofPool device' size, opened') :=
    ⟨_, _, halike, rfl, rfl⟩
  have hinterchangeable := hmatched.interchangeable
  rwa [Device.file_of_openFile h, Device.file_of_openFile h'] at hinterchangeable

/-- An image of two blocks of zeros, mapped, and a copy of it behind a pool of 16 buffers. -/
theorem interchangeable_of_copied_zeros :
    let host : Host := ⟨[⟨"disk.po", zeros 1024, .readWrite⟩], #[]⟩
    let host' : Host := ⟨[⟨"copy.po", zeros 1024, .readWrite⟩], #[]⟩
    let options : DeviceOptions := { format := some .proDosOrder }
    ∃ device opened mapped after device' opened',
      (Device.openFile "disk.po" options).run host = .ok device opened ∧
        (ofMapping device).run opened = .ok mapped after ∧
        (Device.openFile "copy.po" { options with backing := .descriptor }).run host' =
          .ok device' opened' ∧
        Interchangeable "disk.po" "copy.po" (mapped, after) (ofPool device' 16, opened') := by
  intro host host' options
  have hfind : host.find? "disk.po" = some ⟨"disk.po", zeros 1024, .readWrite⟩ := rfl
  have hfind' : host'.find? "copy.po" = some ⟨"copy.po", zeros 1024, .readWrite⟩ := rfl
  have hcopied : host.Copied "disk.po" host' "copy.po" :=
    { contents_eq := by simp only [Host.contents, hfind, hfind']
      access_eq := by simp only [Host.access?, hfind, hfind', Option.map_some]
      format_eq := by decide +kernel }
  have hsize : (host.contents "disk.po").size = 1024 := by
    simp only [Host.contents, hfind, size_zeros]
  have hstorage : Storage.openFile host "disk.po" .mapped false =
      .ok (.ofSize "disk.po" (host.contents "disk.po").size .mapped false) :=
    Storage.openFile_of_access? rfl .mapped false
  rw [hsize] at hstorage
  have hlayout : Layout.Sequential.ofFileSize 1024 = .ok ⟨0, 2⟩ := by decide
  have hcontainer : (Container.openFile (.ofSize "disk.po" 1024 .mapped false) "disk.po" options).run
      host = .ok ⟨.bare, .sequential ⟨0, 2⟩⟩ host := by
    have hopened : (do return ⟨.bare, .sequential (← Layout.Sequential.ofFileSize 1024)⟩ :
        Except DiskError Container) = .ok ⟨.bare, .sequential ⟨0, 2⟩⟩ := by
      rw [hlayout]
      rfl
    exact congrArg (fun r => (Action.ofExcept r : Action Host Container).run host) hopened
  have hask : (ask fun host => Storage.openFile host "disk.po" options.backing options.readOnly :
      Action Host Storage).run host = .ok (.ofSize "disk.po" 1024 .mapped false) host :=
    run_ask_of_ok hstorage
  have hopen : (Device.openFile "disk.po" options).run host =
      .ok ⟨.ofSize "disk.po" 1024 .mapped false, ⟨.bare, .sequential ⟨0, 2⟩⟩, false, false⟩ host :=
    (run_bind_of_ok hask _).trans (run_bind_of_ok hcontainer _)
  obtain ⟨mapped, after, device', opened', hmapped, hcopy, hall⟩ :=
    interchangeable_of_copied hopen rfl rfl hcopied .descriptor {}
  exact ⟨_, _, _, _, _, _, hopen, hmapped, hcopy, hall 16⟩

end Diskette.Cache
