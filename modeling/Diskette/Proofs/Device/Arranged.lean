import Diskette.Proofs.Device.Altered
import Diskette.Proofs.Device.Opened
import Diskette.Proofs.Upheld

/-!
# Devices that show an array

A device shows an array of blocks if it was opened and its blocks are not encoded on tracks, if it
was created, or if its file was an image as a created device leaves it, in whatever way the format of
the file was found and whoever may write it. It still does when it has been used.

* `Arranged`: the devices that are known to show an array.
* `upholds_array`: no access to a device takes its array away.
* `Arranged.exists_holds`: there is the array.
-/

namespace Diskette.Device

open Diskette.Action

variable {file : String} {format : Format} {blocks : Nat} {options : DeviceOptions}
  {before after : Host} {device : Device} {state : Device × Host} {c : Nat → Block}

/-- The device shows an array, and its header is no part of that. -/
structure Shows (state : Device × Host) : Prop where
  exists_holds : ∃ c, Holds state c
  header_le : state.1.container.headerSize ≤ state.1.container.layout.base

theorem Shows.reached {state' : Device × Host} (h : Shows state) (hr : Reached state state' c) :
    Shows state' where
  exists_holds := ⟨c, hr.2⟩
  header_le := by
    rw [hr.1.headerSize_eq, hr.1.base_eq]
    exact h.header_le

/-! ## Opened and created devices -/

/-- A file is opened as an image of some format, whether that was named or found. -/
theorem exists_openAs_of_openFile {storage : Storage} {path : String} {container : Container}
    (h : (Container.openFile storage path options).run before = .ok container after) :
    ∃ found, (Container.openAs found storage options.nibble.syncPolicy).run before =
      .ok container after := by
  unfold Container.openFile at h
  cases hnamed : options.format with
  | some found =>
    rw [hnamed] at h
    exact ⟨found, h⟩
  | none =>
    rw [hnamed] at h
    obtain ⟨found, middle, hdetect, hopen⟩ := exists_of_run_bind h
    obtain ⟨-, rfl⟩ := run_ask_eq_ok_iff.mp hdetect
    exact ⟨found, hopen⟩

/-- An image that is opened as what it is shows its blocks, however its format was found and whoever
may write it. -/
theorem holds_of_openFile [Medium] (hi : Image format blocks (before.contents file) c)
    (hf : device.format = format) (h : (openFile file options).run before = .ok device after) :
    Holds (device, after) c := by
  obtain ⟨storage, container, hopen, hrun, rfl⟩ := exists_of_openFile h
  have hs : storage.Backed before := Storage.openFile_backed hopen
  obtain ⟨-, _, rfl⟩ := Storage.exists_of_openFile hopen
  obtain ⟨found, hopened⟩ := exists_openAs_of_openFile hrun
  obtain rfl : found = format := (Container.format_of_openAs hopened).symm.trans hf
  obtain ⟨_, _, hagain, hopens⟩ := hi.run_openAs hs rfl options.nibble.syncPolicy
  rw [hopened] at hagain
  cases hagain
  refine ⟨hs.kept hopens.kept, ?_, hopens.checksum, fun hw => (Bool.or_eq_false_iff.mp hw).1⟩
  change container.layout.Holds (before.contents file).size (after.contents file) c
  rw [hopens.layout_eq]
  exact (Format.layout_holds hi.holds _).congr hopens.kept.size_eq fun k _ =>
    hopens.kept.byte_eq not_false

theorem headerSize_le_of_create [Medium]
    (h : (create file format blocks options).run before = .ok device after) :
    device.container.headerSize ≤ device.container.layout.base := by
  obtain ⟨_, _, -, -, -, rfl, hlays⟩ := exists_of_create h
  exact hlays.header_le

/-! ## Used devices -/

/-- Only blocks in a row can be changed in a mapping. -/
private theorem updateMapped_refused (block : Nat) (change : Block → Block)
    (hl : ∀ layout, state.1.container.layout ≠ .sequential layout) :
    Ends (updateMapped block change) state fun _ after => after = state := by
  have hnone : state.1.container.layout.blockOffset? block = none := by
    cases hlayout : state.1.container.layout with
    | sequential layout => exact absurd hlayout (hl layout)
    | interleaved layout => rfl
    | nibble layout => rfl
  have hrefused : ∃ e, state.1.writableOffset block = .error e := by
    unfold writableOffset mappedOffset Container.blockOffset?
    rw [hnone]
    cases checkBlock block state.1.blocks with
    | error e => split <;> exact ⟨_, rfl⟩
    | ok _ => split <;> exact ⟨_, rfl⟩
  obtain ⟨e, he⟩ := hrefused
  refine ends_bind.mpr (ends_ask.mpr ?_)
  simp only [he]

/-- No access to a device takes its array away while the host does not fail. -/
theorem upholds_array : Upholds (· = .reliable) False fun _ state => Shows state where
  readOnly_eq hp := hp.elim
  warn := by
    rintro _ device host h warning
    obtain ⟨c, hc⟩ := h.exists_holds
    exact h.reached (Reached.warn ⟨.refl _, hc⟩ warning)
  read := by
    rintro _ state h block
    obtain ⟨c, hc⟩ := h.exists_holds
    exact ((arrayDisk state).read_ends ⟨.refl _, hc⟩ block).mono fun _ _ hr => h.reached hr.1
  write := by
    rintro _ state _ rfl h block data
    obtain ⟨c, hc⟩ := h.exists_holds
    refine ((arrayDisk state).write_ends ⟨.refl _, hc⟩ block data).mono ?_
    rintro (e | ⟨⟩) after hr
    · exact h.reached hr
    · exact h.reached hr
  flush := by
    rintro _ state _ rfl h
    obtain ⟨c, hc⟩ := h.exists_holds
    exact ((arrayDisk state).flush_ends ⟨.refl _, hc⟩).mono fun _ _ hr => h.reached hr
  update := by
    rintro _ state h hm block change
    obtain ⟨c, hc⟩ := h.exists_holds
    -- Only a layout of blocks in a row can be reached through the mapping; any other refuses.
    by_cases hl : ∃ layout, state.1.container.layout = .sequential layout
    · obtain ⟨layout, hl⟩ := hl
      have hsited := hc.sited hl h.header_le
      refine (hsited.updateMapped_wrote hm block change).mono ?_
      rintro (e | ⟨⟩) after hr
      · obtain rfl : after = state := hr
        exact h
      · obtain ⟨-, bytes, hw⟩ := hr
        exact h.reached ⟨hsited.evolves hw, hsited.holds_wrote hc hw⟩
    · exact (updateMapped_refused block change (not_exists.mp hl)).mono fun _ _ hsame => hsame ▸ h

/-- A device that shows an array of blocks: it was opened and its blocks are not encoded on tracks,
or it was created, or its file was an image as a created device leaves it and was opened as that; or
it is such a device that was used, by itself and through caches, while the host did not fail. -/
inductive Arranged : Device × Host → Prop
  | opened [Medium] {file : String} {options : DeviceOptions} {before after : Host}
    {device : Device} (h : (openFile file options).run before = .ok device after)
    (hn : device.container.layout.format ≠ .nibble) : Arranged (device, after)
  | created [Medium] {file : String} {format : Format} {blocks : Nat} {options : DeviceOptions}
    {before after : Host} {device : Device}
    (h : (create file format blocks options).run before = .ok device after) :
    Arranged (device, after)
  | reopened [Medium] {file : String} {format : Format} {blocks : Nat} {c : Nat → Block}
    {options : DeviceOptions} {before after : Host} {device : Device}
    (hi : Image format blocks (before.contents file) c) (hf : device.format = format)
    (h : (openFile file options).run before = .ok device after) : Arranged (device, after)
  | used {device device' : Device} {host host' : Host} {n : Nat} (h : Arranged (device, host))
    (hu : Used (· = .reliable) device host (.bare device') host' n) : Arranged (device', host')

theorem Arranged.shows (h : Arranged state) : Shows state := by
  induction h with
  | opened h hn => exact ⟨exists_holds_of_openFile h hn, headerSize_le_of_openFile h⟩
  | created h => exact ⟨⟨_, holds_of_create h⟩, headerSize_le_of_create h⟩
  | reopened hi hf h => exact ⟨⟨_, holds_of_openFile hi hf h⟩, headerSize_le_of_openFile h⟩
  | used _ hu ih => exact upholds_array.used ih hu

theorem Arranged.exists_holds (h : Arranged state) : ∃ c, Holds state c := h.shows.exists_holds

end Diskette.Device
