import Diskette.Proofs.Device

/-!
# Disks of a fixed size

`Action.Retains view act`: whatever comes of the action, it leaves the view of the state as it was. No
access to a device changes its number of blocks, not even the survey of the tracks of a nibble image.

* `Retains.bind`, `Retains.attempt`, `Retains.onSecond`: the ways of building an action.
* `Steady`: a disk of a fixed size.
* `Device.steady`: devices are such disks.
-/

namespace Diskette

open Diskette.Action

namespace Action

variable {σ τ α β ν : Type} {view : σ → ν} {act : Action σ α}

/-- Whatever comes of the action, the view of the state is as it was. -/
def Retains (view : σ → ν) (act : Action σ α) : Prop :=
  ∀ s, Ends act s fun _ s' => view s' = view s

theorem retains_pure (a : α) : Retains view (pure a) := fun _ => rfl

theorem retains_throw (e : DiskError) : Retains view (throw e : Action σ α) := fun _ => rfl

theorem retains_ask (query : σ → Except DiskError α) : Retains view (ask query) :=
  fun _ => ends_ask.mpr rfl

theorem retains_ofExcept (r : Except DiskError α) : Retains view (ofExcept r) :=
  fun _ => ends_ofExcept.mpr rfl

/-- A view that is always the same is retained. -/
theorem retains_same {value : ν} (act : Action σ α) : Retains (fun _ => value) act :=
  fun _ => ends_iff.mpr rfl

theorem retains_get : Retains view (get : Action σ σ) := fun _ => rfl

theorem retains_modify {f : σ → σ} (h : ∀ s, view (f s) = view s) : Retains view (modify f) := h

theorem Retains.comp {μ : Type} (h : Retains view act) (f : ν → μ) :
    Retains (fun s => f (view s)) act := fun s => (h s).mono fun _ _ heq => congrArg f heq

theorem Retains.bind {f : α → Action σ β} (h : Retains view act) (hf : ∀ a, Retains view (f a)) :
    Retains view (act >>= f) := fun s =>
  (h s).bind (fun a s' hs => (hf a s').mono fun _ _ hs' => hs'.trans hs) fun _ _ hs => hs

/-- What happens to the second part of a state does not change the first one. -/
theorem retains_onSecond (act : Action τ α) : Retains (Prod.fst : σ × τ → σ) (onSecond act) := by
  rintro ⟨s, t⟩
  rw [ends_onSecond, ends_iff]

end Action

/-! ## Nibble images -/

namespace Layout.Nibble

theorem retains_ensureIndex (storage : Storage) :
    Retains (fun state : Nibble × Host => state.1.blocks) (ensureIndex storage) := by
  rintro ⟨⟨base, tracks, policy, index⟩, host⟩
  cases index with
  | some index => rfl
  | none =>
    unfold Ends EStateM.run ensureIndex
    dsimp only
    cases surveyFrom ⟨base, tracks, policy, none⟩ storage tracks 0 #[] host <;> rfl

/-- What the survey of the tracks does not change, looking for a sector does not change. -/
theorem retains_locate {ν : Type} {view : Nibble × Host → ν} {storage : Storage}
    (h : Retains view (ensureIndex storage)) (track sector : Nat) :
    Retains view (locate storage track sector) := by
  refine retains_get.bind fun ⟨layout, _⟩ => ?_
  dsimp only
  split
  · split
    · refine h.bind fun index => ?_
      split
      · exact retains_pure _
      · exact retains_throw _
    · exact retains_throw _
  · exact retains_throw _

/-- What neither the survey of the tracks nor the decoding of a sector changes, reading a block does
not change. -/
theorem retains_readBlock {ν : Type} {view : Nibble × Host → ν} {storage : Storage}
    (h : Retains view (ensureIndex storage))
    (hdecode : ∀ bytes place track sector, Retains view (onSecond (decodeAt bytes place track sector)))
    (block : Nat) : Retains view (readBlock storage block) :=
  (retains_ask _).bind fun _ => (retains_locate h _ _).bind fun _ =>
    (retains_locate h _ _).bind fun _ => (retains_ask _).bind fun _ =>
      (hdecode _ _ _ _).bind fun _ => (hdecode _ _ _ _).bind fun _ => retains_pure _

/-- Writing a track changes the file only. -/
theorem layout_writeTrack [Medium] (storage : Storage) (track : Nat) (bytes : ByteArray) :
    Retains (Prod.fst : Nibble × Host → Nibble) (writeTrack storage track bytes) := by
  rintro ⟨layout, host⟩
  unfold Ends EStateM.run writeTrack
  dsimp only
  cases storage.write (layout.trackOffset track) bytes host <;> rfl

/-- What neither the survey of the tracks nor the writing of a track changes, replacing a block does
not change. -/
theorem retains_writeBlock [Medium] {ν : Type} {view : Nibble × Host → ν} {storage : Storage}
    (h : Retains view (ensureIndex storage))
    (hwrite : ∀ track bytes, Retains view (writeTrack storage track bytes)) (block : Nat)
    (data : Block) : Retains view (writeBlock storage block data) :=
  (retains_ask _).bind fun _ => (retains_locate h _ _).bind fun _ =>
    (retains_locate h _ _).bind fun _ => (retains_ask _).bind fun _ => hwrite _ _

end Layout.Nibble

/-! ## Devices -/

namespace Layout

/-- What an access to a nibble image does not change, and the same access to the file of another
image does not change. -/
theorem retains_of_nibble {α ν : Type} {view : Layout × Host → ν} {act : Action (Layout × Host) α}
    {onTracks : Action (Nibble × Host) α}
    (h : Retains (fun state : Nibble × Host => view (nibble state.1, state.2)) onTracks)
    (hnibble : ∀ layout host, act.run (nibble layout, host) = onNibble layout onTracks host)
    (hother : ∀ layout, (∀ inner, layout ≠ nibble inner) →
      ∃ onFile, Retains (fun host => view (layout, host)) onFile ∧
        ∀ host, act.run (layout, host) = keeping layout onFile host) :
    Retains view act := by
  rintro ⟨layout, host⟩
  have hkept (hl : ∀ inner, layout ≠ nibble inner) :
      Ends act (layout, host) fun _ s' => view s' = view (layout, host) := by
    obtain ⟨onFile, hfile, hrun⟩ := hother layout hl
    exact (ends_of_keeping (hrun host)).mpr (hfile host)
  cases layout with
  | sequential layout => exact hkept nofun
  | interleaved layout => exact hkept nofun
  | nibble layout => exact (ends_of_onNibble (hnibble layout host)).mpr (h (layout, host))

theorem retains_readBlock {ν : Type} {view : Layout × Host → ν} {storage : Storage}
    (h : ∀ block, Retains (fun state : Nibble × Host => view (nibble state.1, state.2))
      (Nibble.readBlock storage block)) (block : Nat) : Retains view (readBlock storage block) :=
  retains_of_nibble (h block) (fun _ _ => rfl) fun layout hl => by
    cases layout with
    | sequential layout => exact ⟨_, retains_ask _, fun _ => rfl⟩
    | interleaved layout => exact ⟨_, retains_ask _, fun _ => rfl⟩
    | nibble layout => exact absurd rfl (hl layout)

theorem steady_readBlock (storage : Storage) (block : Nat) :
    Retains (fun state : Layout × Host => state.1.blocks) (readBlock storage block) := by
  have htracks (block : Nat) : Retains (fun state : Nibble × Host => state.1.blocks)
      (Nibble.readBlock storage block) :=
    Nibble.retains_readBlock (Nibble.retains_ensureIndex storage)
      (fun _ _ _ _ => (retains_onSecond _).comp Nibble.blocks) block
  exact retains_readBlock htracks block

theorem retains_writeBlock [Medium] {ν : Type} {view : Layout × Host → ν} {storage : Storage}
    {block : Nat} {data : Block}
    (h : Retains (fun state : Nibble × Host => view (nibble state.1, state.2))
      (Nibble.writeBlock storage block data))
    (hwrite : ∀ layout offset bytes,
      Retains (fun host => view (layout, host)) (storage.write offset bytes)) :
    Retains view (writeBlock storage block data) :=
  retains_of_nibble h (fun _ _ => rfl) fun layout hl => by
    cases layout with
    | sequential layout =>
      exact ⟨_, (retains_ofExcept _).bind fun _ => hwrite _ _ _, fun _ => rfl⟩
    | interleaved layout =>
      exact ⟨_, (retains_ofExcept _).bind fun _ => (hwrite _ _ _).bind fun _ => hwrite _ _ _,
        fun _ => rfl⟩
    | nibble layout => exact absurd rfl (hl layout)

private theorem steady_writeBlock [Medium] (storage : Storage) (block : Nat) (data : Block) :
    Retains (fun state : Layout × Host => state.1.blocks) (writeBlock storage block data) :=
  retains_writeBlock
    (Nibble.retains_writeBlock (Nibble.retains_ensureIndex storage)
      (fun track bytes => (Nibble.layout_writeTrack storage track bytes).comp Nibble.blocks) block data)
    fun layout _ _ => (retains_same _ : Retains (fun _ => layout.blocks) _)

end Layout

namespace Container

theorem retains_onLayout {α ν : Type} {view : Container × Host → ν}
    {act : Action (Layout × Host) α}
    (h : ∀ envelope, Retains (fun (layout, host) => view (⟨envelope, layout⟩, host)) act) :
    Retains view (onLayout act) := by
  rintro ⟨⟨envelope, layout⟩, host⟩
  exact ends_zoom.mpr (h envelope (layout, host))

private theorem retains_writeBlock [Medium] (storage : Storage) (block : Nat) (data : Block) :
    Retains (fun state : Container × Host => state.1.blocks) (writeBlock storage block data) :=
  (retains_onLayout fun _ => Layout.steady_writeBlock storage block data).bind fun _ =>
    retains_modify fun (container, _) => congrArg Layout.blocks (Device.noteModified_layout container)

/-- Bringing the envelope up to date does not change the layout. -/
theorem retains_layout_finish [Medium] (storage : Storage) :
    Retains (fun state : Container × Host => state.1.layout) (finish storage) := by
  rintro ⟨⟨envelope, layout⟩, host⟩
  by_cases hstale : ∃ header, envelope = .diskCopy header true
  · obtain ⟨header, rfl⟩ := hstale
    unfold Ends EStateM.run finish
    dsimp only
    cases refreshChecksum storage header host <;> rfl
  · have hrun : (finish storage).run (⟨envelope, layout⟩, host) =
        .ok () (⟨envelope, layout⟩, host) :=
      run_finish_of_not_stale storage host fun header he => hstale ⟨header, he⟩
    exact (ends_of_run_eq_ok hrun).mpr rfl

end Container

/-- A disk whose number of blocks no access changes. -/
structure Steady (δ : Type) [Disk δ] : Prop where
  read (block : Nat) : Retains (fun disk : δ => Disk.blocks disk) (Disk.read block)
  write (block : Nat) (data : Block) : Retains (fun disk : δ => Disk.blocks disk) (Disk.write block data)
  flush : Retains (fun disk : δ => Disk.blocks disk) Disk.flush

namespace Device

theorem retains_onContainer {α ν : Type} {view : Device × Host → ν}
    {act : Storage → Action (Container × Host) α}
    (h : ∀ storage readOnly modified, Retains
      (fun (container, host) => view (⟨storage, container, readOnly, modified⟩, host)) (act storage)) :
    Retains view (onContainer act) := by
  rintro ⟨⟨storage, container, readOnly, modified⟩, host⟩
  exact ends_onContainer.mpr (h storage readOnly modified (container, host))

/-- What bringing the envelope up to date does not change, a flush does not change. -/
theorem retains_flush [Medium] {ν : Type} {view : Device × Host → ν}
    (hfinish : ∀ storage readOnly, Retains
      (fun (container, host) => view (⟨storage, container, readOnly, true⟩, host))
      (Container.finish storage))
    (hmodified : ∀ storage container readOnly host,
      view (⟨storage, container, readOnly, false⟩, host) =
        view (⟨storage, container, readOnly, true⟩, host)) : Retains view flush := by
  rintro ⟨⟨storage, container, readOnly, modified⟩, host⟩
  cases modified with
  | false => rfl
  | true =>
    have hends := hfinish storage readOnly (container, host)
    unfold Ends EStateM.run at hends
    unfold Ends EStateM.run flush
    dsimp only
    cases hr : Container.finish storage (container, host) with
    | ok _ after =>
      rw [hr] at hends
      cases hsync : storage.sync after.2 with
      | ok _ => simp only [hsync]; exact (hmodified ..).trans hends
      | error e => simp only [hsync]; exact hends
    | error e after => rw [hr] at hends; exact hends

/-- Neither a flush nor a change of a mapping changes what the storage is. -/
theorem retains_storage_flush [Medium] :
    Retains (fun state : Device × Host => state.1.storage) flush :=
  retains_flush (fun _ _ => retains_same _) fun _ _ _ _ => rfl

theorem retains_storage_updateMapped (block : Nat) (change : Block → Block) :
    Retains (fun state : Device × Host => state.1.storage) (updateMapped block change) := by
  refine (retains_ask _).bind fun offset => ?_
  have hnoted : Retains (fun state : Device × Host => state.1.storage)
      (modify fun state => (state.1.noteModified, state.2)) := retains_modify fun _ => rfl
  exact hnoted.bind fun _ => (retains_ask _).bind fun _ =>
    retains_onContainer fun _ _ _ => retains_same _

/-- No access to a device changes its number of blocks. -/
theorem steady [Medium] : Steady (Device × Host) where
  read block := (retains_ask _).bind fun _ => retains_onContainer fun storage _ _ =>
    Container.retains_onLayout fun _ => Layout.steady_readBlock storage block
  write block data := (retains_ask _).bind fun _ =>
    (retains_onContainer fun storage _ _ =>
      Container.retains_writeBlock storage block data).bind fun _ => retains_modify fun _ => rfl
  flush := retains_flush (fun storage _ => (Container.retains_layout_finish storage).comp Layout.blocks)
    fun _ _ _ _ => rfl

end Device

end Diskette
