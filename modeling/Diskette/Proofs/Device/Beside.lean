import Diskette.Proofs.Device.ReadOnly

/-!
# Devices beside each other

A device of one file does not care what becomes of the other files, and does nothing to them. So what
it shows is the same whatever else is open, and it can be flushed and dropped at any time: one that
is protected has nothing to bring to its file.

* `Host.Apart`: no file but one was touched.
* `Device.Calm`: a device that shows an array and that can be flushed.
* `Device.calmDisk`: it is an array of blocks from then on.
* `Device.Calm.elsewhere`: what becomes of the other files does not matter.
* `Device.exists_calm_of_openFile`, `Device.calm_of_create`: opened and created devices.
* `Device.outcome_read_of_layout`: what is read is known from the layout and the bytes of the file.
-/

namespace Diskette

open Diskette.Action

/-! ## Other files -/

namespace Host

variable {before middle after host : Host} {file other : String}

theorem contents_eq_of_find? (h : after.find? file = before.find? file) :
    after.contents file = before.contents file := by
  unfold contents
  rw [h]

/-- From `before` to `after` no file but one was touched. -/
def Apart (file : String) (before after : Host) : Prop :=
  ∀ ⦃other : String⦄, other ≠ file → after.find? other = before.find? other

theorem Apart.trans (h : Apart file before middle) (h' : Apart file middle after) :
    Apart file before after := fun _ hne => (h' hne).trans (h hne)

theorem apart_of_files_eq (file : String) (h : after.files = before.files) :
    Apart file before after := by
  intro other _
  unfold find?
  rw [h]

/-- A change of what is in a file leaves the others alone. -/
theorem find?_withChanged_of_ne (host : Host) (change : ByteArray → ByteArray) (h : other ≠ file) :
    { host with files := changeContents file change host.files }.find? other =
      host.find? other := by
  simp only [find?, find?_changeContents]
  cases ho : host.files.find? fun seen => seen.name = other with
  | none => rfl
  | some seen =>
    have hfound : host.find? other = some seen := ho
    have hname : seen.name ≠ file := find?_eq_some_name hfound ▸ h
    rw [Option.map_some, if_neg hname]

/-- What is put in place of a file leaves the others alone. -/
theorem find?_replace_of_ne (host : Host) (data : ByteArray) (h : other ≠ file) :
    (host.replace file data).find? other = host.find? other := by
  unfold replace
  cases host.lookUp file with
  | ok found => exact host.find?_withChanged_of_ne _ h
  | error e =>
    -- Whoever is filtered out has the name of the file.
    have hothers : (host.files.filter fun seen => seen.name ≠ file).find?
        (fun seen => seen.name = other) = host.files.find? fun seen => seen.name = other := by
      rw [List.find?_filter]
      congr 1
      funext seen
      by_cases hname : seen.name = other
      · simp [hname, h]
      · simp [hname]
    simp only [find?]
    rw [List.find?_append, hothers]
    simp [h.symm]

theorem apart_replace (host : Host) (file : String) (data : ByteArray) :
    Apart file host (host.replace file data) := fun _ hne => host.find?_replace_of_ne data hne

end Host

/-! ## Layouts -/

/-- Only the blocks of the layout matter. -/
theorem Layout.Holds.agree {layout : Layout} {size : Nat} {data : ByteArray} {c c' : Nat → Block}
    (h : layout.Holds size data c) (hc : ∀ block, block < layout.blocks → c' block = c block) :
    layout.Holds size data c' := by
  cases layout with
  | sequential layout =>
    refine ⟨h.fits, fun block hb i hi => ?_⟩
    rw [hc block hb]
    exact h.placed block hb i hi
  | interleaved layout =>
    refine ⟨h.whole, h.fits, fun block hb i hi => ?_⟩
    rw [hc block hb]
    exact h.placed block hb i hi
  | nibble layout =>
    obtain ⟨volume, sectors, hf, hblocks⟩ := h
    exact ⟨volume, sectors, hf, fun block hb => (hc block hb).trans (hblocks block hb)⟩

namespace Device

variable {start state : Device × Host} {device : Device} {host host' after : Host} {file : String}
  {options : DeviceOptions} {format : Format} {blocks block : Nat} {c : Nat → Block}

/-! ## Devices that can be flushed -/

/-- The device was reached from `start` and shows the array, and a protected one has nothing to
flush. -/
structure Calm (start state : Device × Host) (c : Nat → Block) : Prop where
  reached : Reached start state c
  unmodified (h : start.1.readOnly = true) : state.1.modified = false

theorem Calm.readOnly_eq (h : Calm start state c) : state.1.readOnly = start.1.readOnly :=
  h.reached.1.readOnly_eq

theorem Calm.warn (h : Calm start (device, host) c) (warning : Warning) :
    Calm start (device, host.warn warning) c :=
  ⟨h.reached.warn warning, h.unmodified⟩

/-- A flush succeeds. -/
theorem Calm.run_flush (h : Calm start state c) :
    ∃ after, flush.run state = .ok () after ∧ Calm start after c := by
  obtain ⟨device, host⟩ := state
  cases hro : start.1.readOnly with
  | true =>
    exact ⟨_, run_flush_of_not_modified host (h.unmodified hro), h⟩
  | false =>
    obtain ⟨he, hholds, hok⟩ := ends_iff.mp h.reached.2.flush_ends
    refine ⟨_, run_eq_ok_of_outcome (hok (h.readOnly_eq.trans hro)),
      ⟨h.reached.1.trans he, hholds⟩, fun hprotected => ?_⟩
    rw [hro] at hprotected
    cases hprotected

/-- So does the end of the device. -/
theorem Calm.dispose_eq (h : Calm start state c) :
    ∃ final, Calm start final c ∧ state.1.dispose state.2 = final.2 := by
  obtain ⟨final, hrun, hfinal⟩ := h.run_flush
  refine ⟨final, hfinal, ?_⟩
  unfold EStateM.run at hrun
  unfold dispose
  simp only [hrun]

/-- Such a device is an array of blocks from then on. -/
theorem calmDisk (start : Device × Host) :
    ArrayDisk start.1.blocks start.1.readOnly (Calm start) where
  read_ends {state c} h block := by
    have hview := retains_read block state
    apply (((arrayDisk start).read_ends h.reached block).and hview).mono
    rintro r after ⟨⟨hreached, hr⟩, hsame⟩
    obtain ⟨-, hrest⟩ := Prod.mk.inj hsame
    exact ⟨⟨hreached, fun hro => (Prod.mk.inj hrest).1.trans (h.unmodified hro)⟩, hr⟩
  write_ends {state c} h block data := by
    cases hro : start.1.readOnly with
    | true =>
      obtain ⟨e, he⟩ := checkWrite_of_readOnly (h.readOnly_eq.trans hro) block
      exact (ends_of_run_eq_error (run_write_of_error he data)).mpr h
    | false =>
      -- This device can be written, so nothing is claimed of a protected one.
      have hnever {modified : Bool} (h : start.1.readOnly = true) : modified = false := by
        rw [hro] at h
        cases h
      apply ((arrayDisk start).write_ends h.reached block data).mono
      intro r after hafter
      cases r with
      | ok _ => exact ⟨hafter, hnever⟩
      | error e => exact ⟨hafter, hnever⟩
  blocks_eq h := h.reached.1.blocks_eq
  readOnly_eq h := h.readOnly_eq
  flush_ends h := by
    obtain ⟨after, hrun, hafter⟩ := h.run_flush
    exact (ends_of_run_eq_ok hrun).mpr hafter
  read_ok h hb := (arrayDisk start).read_ok h.reached hb
  write_ok h hb hw := (arrayDisk start).write_ok h.reached hb hw

/-- What a device shows is in its file alone. -/
theorem Holds.elsewhere (h : Holds (device, host) c)
    (hsame : host'.find? device.storage.file = host.find? device.storage.file) :
    Holds (device, host') c where
  backed := by
    refine ⟨?_, ?_⟩
    · show (host'.find? device.storage.file).isSome
      rw [hsame]
      exact h.backed.isSome_find?
    · show device.storage.size ≤ (host'.contents device.storage.file).size
      rw [Host.contents_eq_of_find? hsame]
      exact h.backed.size_le
  layout := by
    show device.container.layout.Holds device.storage.size (host'.contents device.storage.file) c
    rw [Host.contents_eq_of_find? hsame]
    exact h.layout
  checksum := h.checksum
  writable := h.writable

/-- Whatever became of the other files, the device goes on from here. -/
theorem Calm.elsewhere (h : Calm start (device, host) c)
    (hsame : host'.find? device.storage.file = host.find? device.storage.file) :
    Calm (device, host') (device, host') c :=
  ⟨⟨.refl _, h.reached.2.elsewhere hsame⟩, fun hro =>
    h.unmodified (h.readOnly_eq.symm.trans hro)⟩

/-! ## Opened and created devices -/

/-- If the blocks are encoded on tracks, the tracks are laid out as those of a new image, with some
blocks on them. -/
def LaidOut (state : Device × Host) : Prop :=
  state.1.container.layout.format = .nibble →
    ∃ c, state.1.container.layout.Holds state.1.storage.size
      (state.2.contents state.1.storage.file) c

theorem exists_calm_of_openFile (h : (openFile file options).run host = .ok device after)
    (hlaid : LaidOut (device, after)) : ∃ c, Calm (device, after) (device, after) c := by
  have hcalm {c : Nat → Block} (hc : Holds (device, after) c) :
      Calm (device, after) (device, after) c :=
    ⟨⟨.refl _, hc⟩, fun _ => modified_of_openFile h⟩
  by_cases hn : device.container.layout.format = .nibble
  · obtain ⟨c, hc⟩ := hlaid hn
    obtain ⟨storage, container, hopen, hrun, rfl⟩ := exists_of_openFile h
    obtain ⟨hkept, haccepted⟩ := (Container.openFile_ends storage host file options).of_ok hrun
    exact ⟨c, hcalm ⟨(Storage.openFile_backed hopen).kept hkept, hc,
      (haccepted container rfl).checksum, fun hw => (Bool.or_eq_false_iff.mp hw).1⟩⟩
  · obtain ⟨c, hc⟩ := exists_holds_of_openFile h hn
    exact ⟨c, hcalm hc⟩

theorem calm_of_create (h : (create file format blocks options).run host = .ok device after) :
    Calm (device, after) (device, after) fun _ => Bytes.zero 512 := by
  refine ⟨⟨.refl _, holds_of_create h⟩, fun hro => ?_⟩
  obtain ⟨_, _, -, -, -, rfl, -⟩ := exists_of_create h
  cases hro

/-! ## What is in a file -/

/-- A block is read as the layout finds it in the file, whatever else the device is. -/
theorem outcome_read_of_layout (hs : device.storage.Backed host)
    (h : device.container.layout.Holds device.storage.size (host.contents device.storage.file) c)
    (hb : block < device.blocks) : (read block).outcome (device, host) = .ok (c block) := by
  obtain ⟨storage, ⟨envelope, layout⟩, readOnly, modified⟩ := device
  obtain ⟨layout', hrun, -⟩ := h.run_readBlock hs hb
  have hread : Ends (read block) (⟨storage, ⟨envelope, layout⟩, readOnly, modified⟩, host) fun r _ =>
      r = .ok (c block) := by
    refine ends_bind.mpr (ends_ask.mpr ?_)
    dsimp only
    rw [checkBlock_eq_ok_iff.mpr hb]
    apply ends_onContainer.mpr
    unfold Container.readBlock Container.onLayout
    exact ends_zoom.mpr ((ends_of_run_eq_ok hrun).mpr rfl)
  exact ends_iff.mp hread

end Device

end Diskette
