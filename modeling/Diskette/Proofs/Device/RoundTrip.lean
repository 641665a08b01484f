import Diskette.Proofs.Device.Creating

/-!
# Images are opened with the blocks that were written

Whatever is done to a device that was just created, its file stays an image of the blocks that the
device shows. So the blocks are still there when the device is closed, or just dropped, and the file
is opened again.

* `Operation`: what can be done to an open device.
* `performAll_reached`: operations of any number and order do to the array what they should.
* `Fresh.image_of_reached`: the file stays an image.
* `run_openFile`: an image is opened with the blocks that it has.
* `run_create_reopen`: created, used, closed, and opened again.
-/

namespace Diskette

open Diskette.Action

/-- The array depends only on what the layout is besides the index of its tracks. -/
theorem Layout.Holds.geometry {layout : Layout} {size : Nat} {data : ByteArray} {c : Nat → Block}
    (h : layout.Holds size data c) : layout.geometry.Holds size data c := by
  cases layout with
  | sequential layout => exact h
  | interleaved layout => exact h
  | nibble layout =>
    obtain ⟨volume, sectors, hf, hc⟩ := h
    exact ⟨volume, sectors, ⟨hf.fits, hf.tracks_le, hf.track, fun _ hi => nomatch hi⟩, hc⟩

theorem Format.geometry_layout (format : Format) (blocks : Nat) (policy : Gcr.SyncPolicy) :
    (format.layout blocks policy).geometry = format.layout blocks policy := by
  cases format <;> rfl

namespace Device

variable {format : Format} {blocks : Nat} {file : String} {start state after : Device × Host}
  {host : Host} {c : Nat → Block}

/-! ## Operations -/

/-- What can be done to an open device. -/
inductive Operation where
  | read (block : Nat)
  | write (block : Nat) (data : Block)
  | zeroBlock (block : Nat)
  | sync
  | flush

namespace Operation

/-- Does it, and forgets what is read. -/
def perform [Medium] : Operation → Action (Device × Host) Unit
  | read block => do let _ ← Device.read block
  | write block data => Device.write block data
  | zeroBlock block => Device.zeroBlock block
  | sync => Device.sync
  | flush => Device.flush

/-- What it does to an array of `blocks` blocks. -/
def apply (blocks : Nat) (c : Nat → Block) : Operation → Nat → Block
  | write block data => if block < blocks then Function.update c block data else c
  | zeroBlock block => if block < blocks then Function.update c block (Bytes.zero 512) else c
  | _ => c

/-- Whether it speaks of a block of the device, if of any. -/
def InRange (blocks : Nat) : Operation → Prop
  | read block | write block _ | zeroBlock block => block < blocks
  | sync | flush => True

end Operation

/-- The state after operations one after the other, whatever comes of them. -/
def performAll (operations : List Operation) (state : Device × Host) : Device × Host :=
  operations.foldl (fun state operation => operation.perform.stateAfter state) state

/-- The blocks that operations make of blocks of zeros. -/
def contentsAfter (blocks : Nat) (operations : List Operation) : Nat → Block :=
  operations.foldl (fun c operation => operation.apply blocks c) fun _ => Bytes.zero 512

private theorem write_ends (h : Reached start state c) (hw : start.1.readOnly = false) (block : Nat)
    (data : Block) :
    Ends (write block data) state fun r after =>
      Reached start after (if block < start.1.blocks then Function.update c block data else c) ∧
        (block < start.1.blocks → r = .ok ()) := by
  have hblocks := h.1.blocks_eq
  by_cases hb : block < start.1.blocks
  · obtain ⟨after, hrun, he, hh⟩ := h.2.run_write (hblocks ▸ hb) (h.1.readOnly_eq.trans hw) data
    rw [ends_of_run_eq_ok hrun, if_pos hb]
    exact ⟨⟨h.1.trans he, hh⟩, fun _ => rfl⟩
  · have hcheck : state.1.checkWrite block = .error (.blockOutOfRange block state.1.blocks) := by
      unfold checkWrite checkBlock
      rw [if_neg (by omega)]
      rfl
    rw [ends_of_run_eq_error (run_write_of_error hcheck data), if_neg hb]
    exact ⟨h, fun hb' => absurd hb' hb⟩

/-- An operation does to the array what it should, and succeeds on every block of the device. -/
theorem Operation.perform_ends (h : Reached start state c) (hw : start.1.readOnly = false)
    (operation : Operation) :
    Ends operation.perform state fun r after =>
      Reached start after (operation.apply start.1.blocks c) ∧
        (operation.InRange start.1.blocks → r = .ok ()) := by
  cases operation with
  | read block =>
    rw [perform, ends_bind]
    refine (((arrayDisk start).read_ends h block).and (R := fun r _ => block < start.1.blocks →
      ∃ data, r = .ok data) ?_).mono fun r after hr => ?_
    · by_cases hb : block < start.1.blocks
      · obtain ⟨after, hrun⟩ := (arrayDisk start).read_ok h hb
        rw [ends_of_run_eq_ok hrun]
        exact fun _ => ⟨_, rfl⟩
      · exact ends_iff.mpr fun hb' => absurd hb' hb
    · obtain ⟨⟨hr, -⟩, hok⟩ := hr
      cases r with
      | ok data => exact ⟨hr, fun _ => rfl⟩
      | error e => exact ⟨hr, fun hb => nomatch hok hb⟩
  | write block data => exact write_ends h hw block data
  | zeroBlock block => exact write_ends h hw block (Bytes.zero 512)
  | sync =>
    rw [perform, Device.sync, ends_ask]
    exact ⟨h, fun _ => Storage.sync_eq ..⟩
  | flush =>
    exact h.2.flush_ends.mono fun r after hr =>
      ⟨⟨h.1.trans hr.1, hr.2.1⟩, fun _ => hr.2.2 (h.1.readOnly_eq.trans hw)⟩

/-- Operations do to the array what they should, one after the other. -/
theorem performAll_reached (h : Reached start state c) (hw : start.1.readOnly = false)
    (operations : List Operation) :
    Reached start (performAll operations state)
      (operations.foldl (fun c operation => operation.apply start.1.blocks c) c) := by
  induction operations generalizing state c with
  | nil => exact h
  | cons operation rest ih =>
    have hstep := ends_iff.mp (operation.perform_ends h hw)
    exact ih hstep.1

/-! ## The end of a device -/

theorem dispose_eq (h : Reached start state c) (hw : start.1.readOnly = false) :
    ∃ after, Reached start after c ∧ state.1.dispose state.2 = after.2 := by
  have hends := h.2.flush_ends
  obtain ⟨device, host⟩ := state
  unfold Ends EStateM.run at hends
  unfold dispose
  cases hf : flush (device, host) with
  | ok _ after =>
    rw [hf] at hends
    exact ⟨after, ⟨h.1.trans hends.1, hends.2.1⟩, rfl⟩
  | error e after =>
    rw [hf] at hends
    cases hends.2.2 (h.1.readOnly_eq.trans hw)

theorem run_close (h : Reached start state c) (hw : start.1.readOnly = false) :
    ∃ after, Reached start after c ∧ state.1.close.run state.2 = .ok () after.2 := by
  have hends := h.2.flush_ends
  obtain ⟨device, host⟩ := state
  unfold Ends EStateM.run at hends
  unfold EStateM.run close
  cases hf : flush (device, host) with
  | ok _ after =>
    rw [hf] at hends
    obtain ⟨ended, hreached, hdispose⟩ := dispose_eq ⟨h.1.trans hends.1, hends.2.1⟩ hw
    exact ⟨ended, hreached, congrArg _ hdispose⟩
  | error e after =>
    rw [hf] at hends
    cases hends.2.2 (h.1.readOnly_eq.trans hw)

/-! ## The file of a device -/

private theorem envelope_ne_diskCopy {container : Container} (h : container.format ≠ .diskCopy42)
    (header : Header.DiskCopy) (stale : Bool) : container.envelope ≠ .diskCopy header stale := by
  intro he
  rw [Container.format, he] at h
  exact h rfl

theorem Fresh.blocks_eq (h : Fresh file format blocks start) : start.1.blocks = blocks := by
  obtain ⟨policy, hlayout⟩ := h.layout_eq
  change start.1.container.layout.blocks = blocks
  rw [hlayout]
  exact Image.blocks_layout h.image.size_eq policy

/-- A new image of 140 KB, the only file there is. -/
theorem exists_created :
    ∃ device created, (create "disk.po" .proDosOrder 280 {}).run Host.empty = .ok device created ∧
      Fresh "disk.po" .proDosOrder 280 (device, created) ∧ device.blocks = 280 := by
  have hfile : Host.empty.checkCreatable "disk.po" = .ok () :=
    Host.checkCreatable_of_absent rfl (by simp)
  have hsize : Format.proDosOrder.fileSize 280 = .ok (280 * 512) :=
    Format.fileSize_proDosOrder (by decide)
  obtain ⟨device, created, hcreate, hfresh⟩ := run_create hfile hsize (by decide) {}
  exact ⟨device, created, hcreate, hfresh, hfresh.blocks_eq⟩

/-- A header is no part of what changes. -/
theorem Fresh.heads (h : Fresh file format blocks start) (he : Evolves start after) :
    format.Heads blocks (after.2.contents file) := by
  obtain ⟨policy, hlayout⟩ := h.layout_eq
  have hkept := he.kept
  rw [h.file_eq] at hkept
  have hhead := h.image.heads
  have hformat : start.1.container.format = format := h.format_eq
  -- Only blocks and the checksum are written, and both lie outside what a header is known by.
  cases format with
  | proDosOrder => trivial
  | dosOrder => trivial
  | nibble => trivial
  | twoImg =>
    obtain ⟨header, hheader, hbytes⟩ := hhead
    refine ⟨header, hheader, fun i hi => (hkept.byte_eq ?_).trans (hbytes i hi)⟩
    rintro (hbase | ⟨-, -, header, stale, henvelope⟩)
    · rw [hlayout] at hbase
      exact absurd hbase (Nat.not_le.mpr hi)
    · exact envelope_ne_diskCopy (by rw [hformat]; exact nofun) header stale henvelope
  | diskCopy42 =>
    refine fun i hi hne => (hkept.byte_eq ?_).trans (hhead i hi hne)
    rintro (hbase | ⟨hlo, hhi, -⟩)
    · rw [hlayout] at hbase
      exact absurd hbase (Nat.not_le.mpr hi)
    · exact hne ⟨hlo, hhi⟩
  | davex =>
    refine fun i hi => (hkept.byte_eq ?_).trans (hhead i hi)
    rintro (hbase | ⟨-, -, header, stale, henvelope⟩)
    · rw [hlayout] at hbase
      exact absurd hbase (Nat.not_le.mpr hi)
    · exact envelope_ne_diskCopy (by rw [hformat]; exact nofun) header stale henvelope

/-- The file of a device that was just created stays an image of the blocks that the device
shows. -/
theorem Fresh.image_of_reached (h : Fresh file format blocks start) (hr : Reached start after c) :
    Image format blocks (after.2.contents file) c := by
  obtain ⟨he, hh⟩ := hr
  obtain ⟨policy, hlayout⟩ := h.layout_eq
  have hsize : (after.2.contents file).size = (start.2.contents file).size := by
    have := he.kept.size_eq
    rwa [h.file_eq] at this
  refine ⟨?_, h.image.blocks_lt, h.image.limit, h.heads he, ?_⟩
  · rw [hsize]
    exact h.image.size_eq
  · have hholds := hh.layout.geometry
    rw [he.geometry_eq, hlayout, Format.geometry_layout, he.storage_eq, h.file_eq, h.size_eq,
      ← hsize] at hholds
    exact Format.layout_holds hholds .strict

theorem Fresh.access_of_reached (h : Fresh file format blocks start) (hr : Reached start after c) :
    after.2.access? file = some .readWrite := by
  rw [hr.1.kept.access_eq]
  exact h.access_eq

/-! ## Opening -/

/-- A file that is an image is opened with the blocks that it has, under any options that name its
format. -/
theorem run_openFile (h : Image format blocks (host.contents file) c)
    (ha : host.access? file = some .readWrite) {options : DeviceOptions}
    (hformat : options.format = some format) :
    ∃ device after, (openFile file options).run host = .ok device after ∧
      device.format = format ∧ device.blocks = blocks ∧ Holds (device, after) c := by
  obtain ⟨storage, hopen, hfile, hsize⟩ : ∃ storage,
      Storage.openFile host file options.backing options.readOnly = .ok storage ∧
        storage.file = file ∧ storage.size = (host.contents file).size :=
    ⟨_, Storage.openFile_of_access? ha _ _, rfl, rfl⟩
  subst hfile
  have hs : storage.Backed host :=
    ⟨Host.isSome_find?.mpr (by rw [ha]; rfl), Nat.le_of_eq hsize⟩
  obtain ⟨container, after, hrun, hopens⟩ := h.run_openAs hs hsize options.nibble.syncPolicy
  have hstorage : (ask fun host => Storage.openFile host storage.file options.backing
      options.readOnly : Action Host Storage).run host = .ok storage host := run_ask_of_ok hopen
  have hcontainer : (Container.openFile storage storage.file options).run host =
      .ok container after := by
    unfold Container.openFile
    rw [hformat]
    exact hrun
  refine ⟨⟨storage, container, storage.readOnly || container.locked, false⟩, after, ?_,
    hopens.format_eq, ?_, hs.kept hopens.kept, ?_, hopens.checksum, ?_⟩
  · rw [openFile, run_bind_of_ok hstorage, run_bind_of_ok hcontainer]
    rfl
  · change container.layout.blocks = blocks
    rw [hopens.layout_eq]
    exact Image.blocks_layout h.size_eq _
  · change container.layout.Holds storage.size (after.contents storage.file) c
    rw [hopens.layout_eq, hsize]
    exact (Format.layout_holds h.holds _).congr hopens.kept.size_eq fun k _ =>
      hopens.kept.byte_eq (not_false)
  · exact fun hw => (Bool.or_eq_false_iff.mp hw).1

/-- A list of blocks is read as it stands in the array. -/
theorem Holds.outcome_mapM_read (h : Holds state c) {requested : List Nat}
    (hb : ∀ block ∈ requested, block < state.1.blocks) :
    (requested.mapM read).outcome state = .ok (requested.map c) := by
  obtain ⟨after, hrun⟩ : ∃ after, (requested.mapM read).run state = .ok (requested.map c) after := by
    induction requested generalizing state with
    | nil => exact ⟨state, rfl⟩
    | cons block rest ih =>
      obtain ⟨middle, hread, he, hh⟩ := h.run_read (hb block (List.mem_cons_self ..))
      obtain ⟨after, hrest⟩ := ih hh fun other ho => by
        rw [he.blocks_eq]
        exact hb other (List.mem_cons_of_mem _ ho)
      refine ⟨after, ?_⟩
      rw [List.mapM_cons, run_bind_of_ok hread, run_bind_of_ok hrest]
      rfl
  exact outcome_of_run_eq_ok hrun

/-- A device is created with as many blocks as the format takes. Whatever is then done to it, once
it is closed or dropped the file is opened again as an image of the same format, and every block
reads what was last written to it. -/
theorem run_create_reopen {size : Nat} (hfile : host.checkCreatable file = .ok ())
    (hsize : format.fileSize blocks = .ok size) (hlimit : blocks * 512 < 0x100000000)
    (options : DeviceOptions) :
    ∃ device created, (create file format blocks options).run host = .ok device created ∧
      device.blocks = blocks ∧ ∀ operations,
        ∃ closed, (performAll operations (device, created)).1.close.run
            (performAll operations (device, created)).2 = .ok () closed ∧
          ∀ ended, ended = closed ∨ ended = (performAll operations (device, created)).1.dispose
            (performAll operations (device, created)).2 →
          ∀ reopening : DeviceOptions, reopening.format = some format →
            ∃ reopened opened, (openFile file reopening).run ended = .ok reopened opened ∧
              reopened.format = format ∧ reopened.blocks = blocks ∧
              ∀ requested : List Nat, (∀ block ∈ requested, block < blocks) →
                (requested.mapM read).outcome (reopened, opened) =
                  .ok (requested.map (contentsAfter blocks operations)) := by
  obtain ⟨device, created, hcreate, hfresh⟩ := run_create hfile hsize hlimit options
  have hblocks : device.blocks = blocks := hfresh.blocks_eq
  refine ⟨device, created, hcreate, hblocks, fun operations => ?_⟩
  have hreached := performAll_reached ⟨.refl _, hfresh.holds⟩ hfresh.readOnly_eq operations
  obtain ⟨closed, hclosed, hclose⟩ := run_close hreached hfresh.readOnly_eq
  obtain ⟨dropped, hdropped, hdispose⟩ := dispose_eq hreached hfresh.readOnly_eq
  refine ⟨closed.2, hclose, fun ended hended reopening hformat => ?_⟩
  -- Closing and dropping differ in what they report, not in the state that they leave.
  obtain ⟨final, hfinal, rfl⟩ : ∃ final, Reached (device, created) final
      (operations.foldl (fun c operation => operation.apply device.blocks c)
        fun _ => Bytes.zero 512) ∧ final.2 = ended := by
    rcases hended with rfl | rfl
    · exact ⟨closed, hclosed, rfl⟩
    · exact ⟨dropped, hdropped, hdispose.symm⟩
  obtain ⟨reopened, opened, hopen, hsame, hcount, hholds⟩ :=
    run_openFile (hfresh.image_of_reached hfinal) (hfresh.access_of_reached hfinal) hformat
  refine ⟨reopened, opened, hopen, hsame, hcount, fun requested hrequested => ?_⟩
  rw [hblocks] at hholds
  exact hholds.outcome_mapM_read fun block hb => hcount.symm ▸ hrequested block hb

/-- A nibble image of 140 KB, one block of which is written before it is closed. -/
theorem run_create_reopen_nibble :
    ∃ device created closed reopened opened,
      (create "disk.nib" .nibble 280 {}).run Host.empty = .ok device created ∧
      (performAll [.write 7 (.tabulate 512 .ofNat), .sync] (device, created)).1.close.run
        (performAll [.write 7 (.tabulate 512 .ofNat), .sync] (device, created)).2 =
          .ok () closed ∧
      (openFile "disk.nib" { format := some .nibble, backing := .descriptor }).run closed =
        .ok reopened opened ∧
      ([6, 7].mapM read).outcome (reopened, opened) =
        .ok [Bytes.zero 512, .tabulate 512 .ofNat] := by
  have hfile : Host.empty.checkCreatable "disk.nib" = .ok () :=
    Host.checkCreatable_of_absent rfl (by simp)
  have hsize : Format.nibble.fileSize 280 = .ok 232960 := rfl
  obtain ⟨device, created, hcreate, -, hends⟩ := run_create_reopen hfile hsize (by decide) {}
  obtain ⟨closed, hclose, hreopen⟩ := hends [.write 7 (.tabulate 512 .ofNat), .sync]
  obtain ⟨reopened, opened, hopen, -, -, hread⟩ := hreopen closed (.inl rfl)
    { format := some .nibble, backing := .descriptor } rfl
  refine ⟨device, created, closed, reopened, opened, hcreate, hclose, hopen, ?_⟩
  rw [hread [6, 7] (by decide)]
  simp [contentsAfter, Operation.apply, Function.update]

end Device

end Diskette
