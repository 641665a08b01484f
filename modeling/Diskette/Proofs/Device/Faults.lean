import Diskette.Proofs.Device

/-!
# What a write to a device can fail with

A stale handle, and a volume that is not open, are faults of whoever keeps track of them: no device
knows of either. So a write or a flush that is refused is never mistaken for a handle that is.

* `Action.Throws`: what the errors of an action have in common.
* `DiskError.OfImage`: the errors that an image has.
* `Device.throws_write`, `Device.throws_flush`: a write to a device fails with one of those, and so
  does a flush.
-/

namespace Diskette

open Diskette.Action

namespace Action

variable {σ τ α β : Type} {P : DiskError → Prop} {act : Action σ α}

/-- Whatever error the action comes to satisfies `P`. -/
def Throws (P : DiskError → Prop) (act : Action σ α) : Prop :=
  ∀ s, Ends act s fun r _ => ∀ e, r = .error e → P e

theorem throws_of_run_eq_ok (h : ∀ s, ∃ a s', act.run s = .ok a s') : Throws P act := by
  intro s
  obtain ⟨a, s', hrun⟩ := h s
  exact (ends_of_run_eq_ok hrun).mpr nofun

theorem throws_throw {e : DiskError} (h : P e) : Throws P (throw e : Action σ α) :=
  fun _ _ he => Except.error.inj he ▸ h

theorem throws_ask {query : σ → Except DiskError α} (h : ∀ s e, query s = .error e → P e) :
    Throws P (ask query) :=
  fun s => ends_ask.mpr (h s)

theorem throws_ofExcept {r : Except DiskError α} (h : ∀ e, r = .error e → P e) :
    Throws P (ofExcept r : Action σ α) :=
  fun _ => ends_ofExcept.mpr h

theorem Throws.bind {f : α → Action σ β} (h : Throws P act) (hf : ∀ a, Throws P (f a)) :
    Throws P (act >>= f) := fun s =>
  (h s).bind (fun a s' _ => hf a s') fun e _ he e' he' => by
    cases he'
    exact he e rfl

theorem Throws.zoom {split : τ → σ × (σ → τ)} (h : Throws P act) : Throws P (zoom split act) :=
  fun s => ends_zoom.mpr (h (split s).1)

end Action

/-- An error that an image can have. The others are about what is checked out and what is open, or
they are the host's. -/
def DiskError.OfImage : DiskError → Prop
  | .staleHandle _ => False
  | .noSuchVolume _ => False
  | .file (.medium _) => False
  | _ => True

variable {storage : Storage}

theorem ofImage_of_checkBlock {block blocks : Nat} {e : DiskError}
    (h : checkBlock block blocks = .error e) : e.OfImage := by
  unfold checkBlock at h
  split at h
  · cases h
  · cases h
    trivial

namespace Storage

theorem ofImage_of_checkRange {offset len : Nat} {e : DiskError}
    (h : storage.checkRange offset len = .error e) : e.OfImage := by
  unfold checkRange at h
  split at h
  · cases h
  · cases h
    trivial

theorem ofImage_of_checkPresent {host : Host} {offset len : Nat} {e : DiskError}
    (h : storage.checkPresent host offset len = .error e) : e.OfImage := by
  unfold checkPresent at h
  split at h
  · cases h
  · cases h
    split <;> trivial

theorem ofImage_of_read {host : Host} {offset len : Nat} {e : DiskError}
    (h : storage.read host offset len = .error e) : e.OfImage := by
  unfold read at h
  cases hrange : storage.checkRange offset len with
  | error e' =>
    rw [hrange] at h
    cases h
    exact ofImage_of_checkRange hrange
  | ok _ =>
    cases hpresent : storage.checkPresent host offset len with
    | error e' =>
      rw [hrange, hpresent] at h
      cases h
      exact ofImage_of_checkPresent hpresent
    | ok _ =>
      rw [hrange, hpresent] at h
      cases h

theorem ofImage_of_checkWrite {offset len : Nat} {e : DiskError}
    (h : storage.checkWrite offset len = .error e) : e.OfImage := by
  unfold checkWrite at h
  split at h
  · cases h
    trivial
  · exact ofImage_of_checkRange h

theorem throws_putMapped (offset : Nat) (data : ByteArray) :
    Throws DiskError.OfImage (storage.putMapped offset data) :=
  (throws_ask fun _ _ h => ofImage_of_checkPresent h).bind fun _ =>
    throws_of_run_eq_ok fun _ => ⟨(), _, rfl⟩

theorem throws_write (offset : Nat) (data : ByteArray) :
    Throws DiskError.OfImage (storage.write offset data) := by
  refine (throws_ofExcept fun _ h => ofImage_of_checkWrite h).bind fun _ => ?_
  split
  · exact throws_putMapped offset data
  · exact throws_of_run_eq_ok fun _ => ⟨(), _, rfl⟩

end Storage

namespace Layout

open Gcr

namespace Nibble

private theorem throws_reportAll (policy : SyncPolicy) (number : Nat) (findings : List Finding) :
    Throws DiskError.OfImage (Survey.reportAll policy number findings) := by
  induction findings with
  | nil => exact throws_of_run_eq_ok fun s => ⟨(), s, rfl⟩
  | cons finding rest ih =>
    have hlogged (warning : Warning) : Throws DiskError.OfImage (do
        modify fun host : Host => host.warn warning
        Survey.reportAll policy number rest) :=
      (throws_of_run_eq_ok fun s => ⟨(), _, rfl⟩).bind fun _ => ih
    cases finding with
    | unreadable start cause => exact hlogged _
    | damage damage =>
      cases policy with
      | strict => exact throws_throw trivial
      | bestEffort => exact hlogged _

private theorem throws_surveyFrom (layout : Nibble) (count : Nat) :
    ∀ (number : Nat) (index : Array SectorIndex),
      Throws DiskError.OfImage (surveyFrom layout storage count number index) := by
  induction count with
  | zero => exact fun _ index => throws_of_run_eq_ok fun s => ⟨index, s, rfl⟩
  | succ count ih =>
    intro number index
    refine (throws_ask fun _ _ h => Storage.ofImage_of_read h).bind fun track => ?_
    refine Throws.bind ?_ fun sectors => ih (number + 1) (index.push sectors)
    exact (throws_reportAll layout.policy number _).bind fun _ =>
      throws_of_run_eq_ok fun s => ⟨_, s, rfl⟩

private theorem throws_ensureIndex : Throws DiskError.OfImage (ensureIndex storage) := by
  rintro ⟨layout, host⟩
  unfold Ends EStateM.run ensureIndex
  dsimp only
  cases layout.index with
  | some index => exact nofun
  | none =>
    have hsurvey := @throws_surveyFrom storage layout layout.tracks 0 #[] host
    unfold Ends EStateM.run at hsurvey
    dsimp only
    cases hr : surveyFrom layout storage layout.tracks 0 #[] host with
    | ok index host' => exact nofun
    | error e host' =>
      rw [hr] at hsurvey
      exact hsurvey

theorem throws_locate (track sector : Nat) :
    Throws DiskError.OfImage (locate storage track sector) := by
  refine (throws_of_run_eq_ok fun s => ⟨s, s, rfl⟩).bind fun ⟨layout, _⟩ => ?_
  dsimp only
  split
  · split
    · refine throws_ensureIndex.bind fun index => ?_
      split
      · next place _ => exact throws_of_run_eq_ok fun s => ⟨place, s, rfl⟩
      · exact throws_throw trivial
    · exact throws_throw trivial
  · exact throws_throw trivial

private theorem throws_writeTrack (track : Nat) (bytes : ByteArray) :
    Throws DiskError.OfImage (writeTrack storage track bytes) := by
  rintro ⟨layout, host⟩
  have hwrite := storage.throws_write (layout.trackOffset track) bytes host
  unfold Ends EStateM.run writeTrack at *
  dsimp only
  cases hr : storage.write (layout.trackOffset track) bytes host with
  | ok _ host' => exact nofun
  | error e host' =>
    rw [hr] at hwrite
    exact hwrite

theorem throws_writeBlock (block : Nat) (data : Block) :
    Throws DiskError.OfImage (writeBlock storage block data) :=
  (throws_ask fun _ _ h => ofImage_of_checkBlock h).bind fun _ =>
    (throws_locate _ _).bind fun _ => (throws_locate _ _).bind fun _ =>
      (throws_ask fun _ _ h => Storage.ofImage_of_read h).bind fun _ => throws_writeTrack _ _

end Nibble

private theorem throws_sequential (layout : Sequential) (block : Nat) (data : Block) :
    Throws DiskError.OfImage (layout.writeBlock storage block data) :=
  (throws_ofExcept fun _ h => ofImage_of_checkBlock h).bind fun _ => storage.throws_write _ _

private theorem throws_interleaved (layout : Interleaved) (block : Nat) (data : Block) :
    Throws DiskError.OfImage (layout.writeBlock storage block data) :=
  (throws_ofExcept fun _ h => ofImage_of_checkBlock h).bind fun _ =>
    (storage.throws_write _ _).bind fun _ => storage.throws_write _ _

theorem throws_writeBlock (block : Nat) (data : Block) :
    Throws DiskError.OfImage (writeBlock storage block data) := by
  rintro ⟨layout, host⟩
  cases layout with
  | sequential layout => exact (ends_of_keeping rfl).mpr (throws_sequential layout block data host)
  | interleaved layout => exact (ends_of_keeping rfl).mpr (throws_interleaved layout block data host)
  | nibble layout => exact (ends_of_onNibble rfl).mpr (Nibble.throws_writeBlock block data _)

end Layout

namespace Device

/-- A write to a device fails with an error of its image. -/
theorem throws_write (block : Nat) (data : Block) :
    Throws DiskError.OfImage (write block data) := by
  have hcheck {state : Device × Host} {e : DiskError} (h : state.1.checkWrite block = .error e) :
      e.OfImage := by
    unfold checkWrite at h
    cases hb : checkBlock block state.1.blocks with
    | error e' =>
      rw [hb] at h
      cases h
      exact ofImage_of_checkBlock hb
    | ok _ =>
      rw [hb] at h
      cases hr : state.1.readOnly with
      | false =>
        rw [hr] at h
        cases h
      | true =>
        rw [hr] at h
        cases h
        trivial
  refine (throws_ask fun _ _ h => hcheck h).bind fun _ => Throws.bind ?_ fun _ =>
    throws_of_run_eq_ok fun _ => ⟨(), _, rfl⟩
  rintro ⟨⟨storage, container, readOnly, modified⟩, host⟩
  refine ends_onContainer.mpr (Throws.bind ?_ (fun _ => ?_) (container, host))
  · exact (Layout.throws_writeBlock block data).zoom
  · exact throws_of_run_eq_ok fun _ => ⟨(), _, rfl⟩

private theorem throws_finish (storage : Storage) :
    Throws DiskError.OfImage (Container.finish storage) := by
  rintro ⟨⟨envelope, layout⟩, host⟩
  by_cases hstale : ∃ header, envelope = .diskCopy header true
  · obtain ⟨header, rfl⟩ := hstale
    have hrefresh : Throws DiskError.OfImage (Container.refreshChecksum storage header) :=
      (throws_ask fun _ _ h => Storage.ofImage_of_read h).bind fun _ =>
        (storage.throws_write _ _).bind fun _ => throws_of_run_eq_ok fun s => ⟨_, s, rfl⟩
    have hends := hrefresh host
    unfold Ends EStateM.run at hends
    unfold Ends EStateM.run Container.finish
    dsimp only
    cases hr : Container.refreshChecksum storage header host with
    | ok _ after => exact nofun
    | error e after =>
      rw [hr] at hends
      intro e' he
      cases he
      exact hends e rfl
  · have hrun : (Container.finish storage).run (⟨envelope, layout⟩, host) =
        .ok () (⟨envelope, layout⟩, host) :=
      Container.run_finish_of_not_stale storage host fun header he => hstale ⟨header, he⟩
    exact (ends_of_run_eq_ok hrun).mpr nofun

/-- So does a flush. -/
theorem throws_flush : Throws DiskError.OfImage flush := by
  rintro ⟨⟨storage, container, readOnly, modified⟩, host⟩
  cases modified with
  | false => exact nofun
  | true =>
    have hends := throws_finish storage (container, host)
    unfold Ends at hends ⊢
    rw [run_flush_eq_finish]
    cases hr : (Container.finish storage).run (container, host) with
    | ok _ after => exact nofun
    | error e after => rw [hr] at hends; exact hends

end Device

end Diskette
