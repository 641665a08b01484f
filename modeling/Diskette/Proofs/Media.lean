import Diskette.Proofs.Ends
import Diskette.Proofs.Files
import Diskette.Device

/-!
# What succeeds on any medium

Where the host may fail there are more ways for an action to fail, but none to succeed that is not
there where the host never fails. So what is known of a success on the reliable medium is known of it
on every other.

* `Action.Alike`: what succeeds on some medium does the same on the reliable one.
* `Alike.bind`, `Alike.zoom`: the ways of building an action.
* `Storage.alike_write`, `Storage.alike_createFile`: files.
* `Device.alike_write`, `Device.alike_openFile`, `Device.alike_create`: devices.
-/

namespace Diskette

open Diskette.Action

namespace Action

variable {σ τ α β : Type}

/-- What succeeds on some medium does the same on the reliable one. -/
def Alike (act : [Medium] → Action σ α) : Prop :=
  ∀ (medium : Medium) ⦃s s' : σ⦄ ⦃a : α⦄,
    (@act medium).run s = .ok a s' → (@act .reliable).run s = .ok a s'

theorem alike_same (act : Action σ α) : Alike fun [Medium] => act := fun _ _ _ _ h => h

theorem Alike.bind {act : [Medium] → Action σ α} {f : [Medium] → α → Action σ β} (h : Alike act)
    (hf : ∀ a, Alike fun [Medium] => f a) : Alike fun [Medium] => act >>= f := by
  intro medium s s' b hrun
  obtain ⟨a, middle, hact, hrest⟩ := exists_of_run_bind hrun
  exact (run_bind_of_ok (h medium hact) _).trans (hf a medium hrest)

theorem Alike.zoom {act : [Medium] → Action τ α} (h : Alike act) (split : σ → τ × (τ → σ)) :
    Alike fun [Medium] => zoom split act := by
  intro medium s s' a hrun
  rw [run_zoom] at hrun ⊢
  split at hrun
  · next b part hact =>
    rw [h medium hact]
    exact hrun
  · cases hrun

theorem alike_ask {query : [Medium] → σ → Except DiskError α}
    (h : ∀ (medium : Medium) s a, @query medium s = .ok a → @query .reliable s = .ok a) :
    Alike fun [Medium] => ask query := by
  intro medium s s' a hrun
  obtain ⟨hquery, hsame⟩ := run_ask_eq_ok_iff.mp hrun
  exact run_ask_eq_ok_iff.mpr ⟨h medium s a hquery, hsame⟩

/-- The result of an action with its state put in its place. -/
def inPlace (place : τ → σ) : EStateM.Result DiskError τ α → EStateM.Result DiskError σ α
  | .ok a part => .ok a (place part)
  | .error e part => .error e (place part)

theorem alike_inPlace {act : [Medium] → Action τ α} (h : Alike act) (place : τ → σ)
    (medium : Medium) {part : τ} {s : σ} {a : α}
    (hrun : inPlace place (@act medium part) = .ok a s) :
    inPlace place (@act .reliable part) = .ok a s := by
  cases hact : @act medium part with
  | ok b part' =>
    have hreliable : @act .reliable part = .ok b part' := h medium hact
    rw [hact] at hrun
    rw [hreliable]
    exact hrun
  | error e part' =>
    rw [hact] at hrun
    cases hrun

end Action

/-! ## Files -/

namespace Storage

theorem alike_write (storage : Storage) (offset : Nat) (data : ByteArray) :
    Alike fun [Medium] => storage.write offset data := by
  intro medium host after a h
  obtain ⟨hro, hle, htakes, rfl⟩ := run_write_eq_ok_iff.mp h
  refine (@run_write_eq_ok_iff .reliable ..).mpr ⟨hro, hle, ?_, rfl⟩
  unfold Takes at htakes ⊢
  split
  · next hm => rwa [if_pos hm] at htakes
  · rfl

theorem ofFile_of_ok [medium : Medium] {host : Host} {file : String} {backing : Backing}
    {readOnly : Bool} {storage : Storage} (h : ofFile host file backing readOnly = .ok storage) :
    @ofFile .reliable host file backing readOnly = .ok storage := by
  rw [ofFile_eq]
  unfold ofFile at h
  simp only [bind, Except.bind] at h
  split at h
  · cases h
  · split at h
    · split at h
      · cases h
      · exact h
    · exact h

/-- A file that is opened on some medium is opened in the same way on the reliable one. -/
theorem openFile_of_ok [medium : Medium] {host : Host} {file : String} {backing : Backing}
    {readOnly : Bool} {storage : Storage}
    (h : Storage.openFile host file backing readOnly = .ok storage) :
    @Storage.openFile .reliable host file backing readOnly = .ok storage := by
  -- Whether it is opened to be written or, failing that, to be read, the last step is the same.
  have hopened {readOnly : Bool}
      (h : (host.checkReadable file >>= fun _ => ofFile host file backing readOnly) = .ok storage) :
      (host.checkReadable file >>= fun _ => @ofFile .reliable host file backing readOnly) =
        .ok storage := by
    cases hcheck : host.checkReadable file with
    | ok _ =>
      rw [hcheck] at h
      exact ofFile_of_ok h
    | error e =>
      rw [hcheck] at h
      cases h
  unfold Storage.openFile at h ⊢
  dsimp only at h ⊢
  split_ifs at h ⊢ with hro
  · exact hopened h
  · cases hcheck : host.checkWritable file with
    | ok _ =>
      rw [hcheck] at h
      exact hopened h
    | error e =>
      rw [hcheck] at h
      split at h
      · cases ‹Except.error e = Except.ok ()›
      · next heq =>
        cases heq
        exact hopened h
      · cases h

theorem alike_createFile (file : String) (size : Nat) (backing : Backing) :
    Alike fun [Medium] => createFile file size backing :=
  (alike_same _).bind fun _ => (alike_same _).bind fun _ =>
    (alike_ask fun _ _ _ _ => rfl).bind fun _ => (alike_same _).bind fun _ =>
      alike_ask fun _ _ _ h => ofFile_of_ok h

end Storage

/-! ## Containers -/

namespace Layout

theorem Sequential.alike_writeBlock (layout : Sequential) (storage : Storage) (block : Nat)
    (data : Block) : Alike fun [Medium] => layout.writeBlock storage block data :=
  (alike_same _).bind fun _ => storage.alike_write _ _

theorem Interleaved.alike_writeBlock (layout : Interleaved) (storage : Storage) (block : Nat)
    (data : Block) : Alike fun [Medium] => layout.writeBlock storage block data :=
  (alike_same _).bind fun _ => (storage.alike_write _ _).bind fun _ => storage.alike_write _ _

namespace Nibble

theorem alike_formatFrom (storage : Storage) (volume : UInt8) (count : Nat) :
    ∀ number, Alike fun [Medium] => formatFrom storage volume count number := by
  induction count with
  | zero => exact fun _ => alike_same (pure ())
  | succ count ih => exact fun number => (storage.alike_write _ _).bind fun _ => ih (number + 1)

theorem alike_create (storage : Storage) (blocks : Nat) (volume : UInt8) (policy : Gcr.SyncPolicy) :
    Alike fun [Medium] => create storage blocks volume policy :=
  (alike_same _).bind fun tracks => (alike_formatFrom storage volume tracks 0).bind fun _ =>
    alike_same _

theorem writeTrack_eq [Medium] (storage : Storage) (layout : Nibble) (track : Nat)
    (bytes : ByteArray) (host : Host) :
    writeTrack storage track bytes (layout, host) =
      inPlace (layout, ·) (storage.write (layout.trackOffset track) bytes host) := by
  unfold writeTrack
  dsimp only
  cases storage.write (layout.trackOffset track) bytes host <;> rfl

theorem alike_writeTrack (storage : Storage) (track : Nat) (bytes : ByteArray) :
    Alike fun [Medium] => writeTrack storage track bytes := by
  rintro medium ⟨layout, host⟩ state a h
  simp only [EStateM.run, writeTrack_eq] at h ⊢
  exact alike_inPlace (storage.alike_write _ bytes) _ medium h

theorem alike_writeBlock (storage : Storage) (block : Nat) (data : Block) :
    Alike fun [Medium] => writeBlock storage block data :=
  (alike_same _).bind fun _ => (alike_same _).bind fun _ => (alike_same _).bind fun _ =>
    (alike_same _).bind fun _ => alike_writeTrack storage _ _

end Nibble

theorem keeping_eq {α : Type} (layout : Layout) (act : Action Host α) (host : Host) :
    keeping layout act host = inPlace (layout, ·) (act host) := by
  unfold keeping
  cases act host <;> rfl

theorem onNibble_eq {α : Type} (layout : Nibble) (act : Action (Nibble × Host) α) (host : Host) :
    onNibble layout act host =
      inPlace (fun state => (nibble state.1, state.2)) (act (layout, host)) := by
  unfold onNibble
  cases act (layout, host) <;> rfl

theorem alike_writeBlock (storage : Storage) (block : Nat) (data : Block) :
    Alike fun [Medium] => writeBlock storage block data := by
  rintro medium ⟨layout, host⟩ state a h
  unfold EStateM.run writeBlock at h ⊢
  cases layout with
  | sequential layout =>
    simp only [keeping_eq] at h ⊢
    exact alike_inPlace (layout.alike_writeBlock storage block data) _ medium h
  | interleaved layout =>
    simp only [keeping_eq] at h ⊢
    exact alike_inPlace (layout.alike_writeBlock storage block data) _ medium h
  | nibble layout =>
    simp only [onNibble_eq] at h ⊢
    exact alike_inPlace (Nibble.alike_writeBlock storage block data) _ medium h

end Layout

namespace Container

theorem alike_writeBlock (storage : Storage) (block : Nat) (data : Block) :
    Alike fun [Medium] => writeBlock storage block data :=
  ((Layout.alike_writeBlock storage block data).zoom _).bind fun _ => alike_same _

theorem alike_create (format : Format) (storage : Storage) (blocks : Nat)
    (options : NibbleOptions) : Alike fun [Medium] => create format storage blocks options := by
  cases format with
  | proDosOrder => exact alike_same _
  | dosOrder => exact alike_same _
  | nibble =>
    exact (Layout.Nibble.alike_create storage blocks options.volume options.syncPolicy).bind
      fun _ => alike_same _
  | twoImg =>
    exact (alike_same _).bind fun _ => (storage.alike_write _ _).bind fun _ => alike_same _
  | diskCopy42 =>
    by_cases hlimit : blocks * 512 < 0x100000000
    · unfold create createDiskCopy
      simp only [if_pos hlimit]
      exact (storage.alike_write _ _).bind fun _ => alike_same _
    · unfold create createDiskCopy
      simp only [if_neg hlimit]
      exact alike_same _
  | davex =>
    by_cases hlimit : blocks < 0x10000
    · unfold create createDavex
      simp only [if_pos hlimit]
      exact (storage.alike_write _ _).bind fun _ => alike_same _
    · unfold create createDavex
      simp only [if_neg hlimit]
      exact alike_same _

end Container

/-! ## Devices -/

namespace Device

theorem onContainer_eq {α : Type} (act : Storage → Action (Container × Host) α) (storage : Storage)
    (container : Container) (readOnly modified : Bool) (host : Host) :
    onContainer act (⟨storage, container, readOnly, modified⟩, host) =
      inPlace (fun state => (⟨storage, state.1, readOnly, modified⟩, state.2))
        (act storage (container, host)) := by
  unfold onContainer
  dsimp only
  cases act storage (container, host) <;> rfl

theorem alike_write (block : Nat) (data : Block) : Alike fun [Medium] => write block data := by
  refine (alike_same _).bind fun _ => Alike.bind ?_ fun _ => alike_same _
  rintro medium ⟨⟨storage, container, readOnly, modified⟩, host⟩ state a h
  simp only [EStateM.run, onContainer_eq] at h ⊢
  exact alike_inPlace (Container.alike_writeBlock storage block data) _ medium h

theorem alike_create (file : String) (format : Format) (blocks : Nat) (options : DeviceOptions) :
    Alike fun [Medium] => create file format blocks options :=
  (alike_same _).bind fun _ => (Storage.alike_createFile file _ _).bind fun storage =>
    (Container.alike_create format storage blocks options.nibble).bind fun _ => alike_same _

end Device

end Diskette
