import Diskette.Device
import Diskette.Proofs.BlockArray
import Diskette.Proofs.Layout

/-!
# Devices as arrays of blocks

A device whose layout shows an array of blocks is a disk that behaves as that array. What its
accesses do to the host stays inside the data of its file, apart from the checksum in a DiskCopy 4.2
header.

* `Holds`: the device shows an array of blocks.
* `Evolves`: what accesses leave as it is.
* `arrayDisk`: from any state on, a device that shows an array is an array of blocks.
-/

namespace Diskette

open Diskette.Action

/-- The envelope without the checksum of the data. -/
def Envelope.withoutChecksum : Envelope → Envelope
  | .diskCopy header _ => .diskCopy { header with dataChecksum := 0 } false
  | envelope => envelope

/-- Whether a position in the file may change with the data: it is one of the data, or of the
checksum of the data. -/
def Container.Free (container : Container) (k : Nat) : Prop :=
  container.layout.base ≤ k ∨
    (0x48 ≤ k ∧ k < 0x4C ∧ ∃ header stale, container.envelope = .diskCopy header stale)

/-- The number of bytes that the header takes. -/
def Container.headerSize (container : Container) : Nat :=
  match container.envelope with
  | .bare => 0
  | .twoImg header => header.headerSize.toNat
  | .diskCopy _ _ => Header.DiskCopy.size
  | .davex => Header.Davex.size

namespace Device

/-- The device shows the array `c`. -/
structure Holds (state : Device × Host) (c : Nat → Block) : Prop where
  backed : state.1.storage.Backed state.2
  layout : state.1.container.layout.Holds state.1.storage.size
    (state.2.contents state.1.storage.file) c
  /-- The checksum can be computed anew, and the header is no part of the data. -/
  checksum (header : Header.DiskCopy) (stale : Bool)
    (h : state.1.container.envelope = .diskCopy header stale) :
    84 ≤ state.1.container.layout.base ∧ 84 + header.dataSize ≤ state.1.storage.size
  writable (h : state.1.readOnly = false) : state.1.storage.readOnly = false

/-- What accesses to a device leave as it is. -/
structure Evolves (before after : Device × Host) : Prop where
  storage_eq : after.1.storage = before.1.storage
  readOnly_eq : after.1.readOnly = before.1.readOnly
  geometry_eq : after.1.container.layout.geometry = before.1.container.layout.geometry
  envelope_eq :
    after.1.container.envelope.withoutChecksum = before.1.container.envelope.withoutChecksum
  kept : Host.Kept before.1.storage.file before.1.container.Free before.2 after.2

variable {state before middle after : Device × Host} {c : Nat → Block} {block : Nat}

theorem Evolves.refl (state : Device × Host) : Evolves state state := ⟨rfl, rfl, rfl, rfl, .refl⟩

private theorem isDiskCopy_iff {envelope envelope' : Envelope}
    (h : envelope'.withoutChecksum = envelope.withoutChecksum) :
    (∃ header stale, envelope' = .diskCopy header stale) ↔
      ∃ header stale, envelope = .diskCopy header stale := by
  cases envelope <;> cases envelope' <;> simp_all [Envelope.withoutChecksum]

theorem Evolves.base_eq (h : Evolves before after) :
    after.1.container.layout.base = before.1.container.layout.base := by
  rw [← Layout.base_geometry, h.geometry_eq, Layout.base_geometry]

theorem Evolves.blocks_eq (h : Evolves before after) : after.1.blocks = before.1.blocks := by
  unfold blocks Container.blocks
  rw [← Layout.blocks_geometry, h.geometry_eq, Layout.blocks_geometry]

theorem Evolves.free_iff (h : Evolves before after) (k : Nat) :
    after.1.container.Free k ↔ before.1.container.Free k := by
  unfold Container.Free
  rw [h.base_eq, isDiskCopy_iff h.envelope_eq]

theorem Evolves.trans (h : Evolves before middle) (h' : Evolves middle after) :
    Evolves before after where
  storage_eq := h'.storage_eq.trans h.storage_eq
  readOnly_eq := h'.readOnly_eq.trans h.readOnly_eq
  geometry_eq := h'.geometry_eq.trans h.geometry_eq
  envelope_eq := h'.envelope_eq.trans h.envelope_eq
  kept := by
    have hk := h'.kept
    rw [h.storage_eq] at hk
    exact h.kept.trans (hk.mono fun k => (h.free_iff k).mp)

/-! ## Reading and writing -/

private theorem run_onLayout_of_ok {α : Type} {act : Action (Layout × Host) α} {a : α}
    {layout layout' : Layout} {host host' : Host} (envelope : Envelope)
    (h : act.run (layout, host) = .ok a (layout', host')) :
    (Container.onLayout act).run (⟨envelope, layout⟩, host) = .ok a (⟨envelope, layout'⟩, host') := by
  unfold Container.onLayout
  rw [run_zoom]
  simp only [h]

private theorem run_onContainer_of_ok {α : Type} {act : Storage → Action (Container × Host) α} {a : α}
    {storage : Storage} {container container' : Container} {host host' : Host}
    (readOnly modified : Bool)
    (h : (act storage).run (container, host) = .ok a (container', host')) :
    (onContainer act).run (⟨storage, container, readOnly, modified⟩, host) =
      .ok a (⟨storage, container', readOnly, modified⟩, host') := by
  unfold EStateM.run at h ⊢
  simp only [onContainer, h]

theorem ends_onContainer {α : Type} {act : Storage → Action (Container × Host) α} {storage : Storage}
    {container : Container} {readOnly modified : Bool} {host : Host}
    {Q : Except DiskError α → Device × Host → Prop} :
    Ends (onContainer act) (⟨storage, container, readOnly, modified⟩, host) Q ↔
      Ends (act storage) (container, host) fun r s =>
        Q r (⟨storage, s.1, readOnly, modified⟩, s.2) := by
  unfold Ends EStateM.run onContainer
  dsimp only
  cases act storage (container, host) <;> rfl

theorem run_read_of_le (h : state.1.blocks ≤ block) :
    (read block).run state = .error (.blockOutOfRange block state.1.blocks) state := by
  have hcheck : checkBlock block state.1.blocks =
      .error (.blockOutOfRange block state.1.blocks) := if_neg (Nat.not_lt.mpr h)
  rw [read, EStateM.run_bind, run_ask]
  simp only [hcheck]

theorem Holds.run_read (h : Holds state c) (hb : block < state.1.blocks) :
    ∃ after, (read block).run state = .ok (c block) after ∧ Evolves state after ∧ Holds after c := by
  obtain ⟨⟨storage, ⟨envelope, layout⟩, readOnly, modified⟩, host⟩ := state
  obtain ⟨layout', hrun, hgeometry, hlayout⟩ := h.layout.run_readBlock h.backed hb
  refine ⟨(⟨storage, ⟨envelope, layout'⟩, readOnly, modified⟩, host), ?_,
    ⟨rfl, rfl, hgeometry, rfl, .refl⟩, h.backed, hlayout, ?_, h.writable⟩
  · have hcheck : (ask fun state => checkBlock block state.1.blocks :
        Action (Device × Host) Unit).run
        (⟨storage, ⟨envelope, layout⟩, readOnly, modified⟩, host) = .ok () _ :=
      run_ask_of_ok (checkBlock_eq_ok_iff.mpr hb)
    rw [read, run_bind_of_ok hcheck]
    exact run_onContainer_of_ok _ _ (run_onLayout_of_ok _ hrun)
  · have hbase : layout'.base = layout.base := by
      rw [← Layout.base_geometry, hgeometry, Layout.base_geometry]
    intro header stale he
    simp only [hbase]
    exact h.checksum header stale he

theorem run_write_of_error [Medium] {e : DiskError} (h : state.1.checkWrite block = .error e)
    (data : Block) : (write block data).run state = .error e state := by
  rw [write, EStateM.run_bind, run_ask]
  simp only [h]

/-- A write that fails is refused, or it fails in the layout and changes no more than that does. -/
theorem write_onError [Medium] {data : Block} {Q : DiskError → Device × Host → Prop}
    (hcheck : ∀ e, state.1.checkWrite block = .error e → Q e state)
    (h : Ends (Layout.writeBlock state.1.storage block data) (state.1.container.layout, state.2)
      fun r after => ∀ e, r = .error e →
        Q e ({ state.1 with container := ⟨state.1.container.envelope, after.1⟩ }, after.2)) :
    Ends (write block data) state fun r after => ∀ e, r = .error e → Q e after := by
  obtain ⟨⟨storage, ⟨envelope, layout⟩, readOnly, modified⟩, host⟩ := state
  have hlayout : Ends (Container.onLayout (Layout.writeBlock storage block data))
      (⟨envelope, layout⟩, host) fun r after => ∀ e, r = .error e →
        Q e (⟨storage, after.1, readOnly, modified⟩, after.2) := ends_zoom.mpr h
  have hcontainer : Ends (onContainer fun storage => Container.writeBlock storage block data)
      (⟨storage, ⟨envelope, layout⟩, readOnly, modified⟩, host) fun r after => ∀ e, r = .error e →
        Q e after :=
    ends_onContainer.mpr (hlayout.bind (fun _ _ _ => nofun) fun _ _ he _ hsame => by
      cases hsame
      exact he _ rfl)
  rw [write, ends_bind, ends_ask]
  split
  · exact hcontainer.bind (fun _ _ _ => nofun) fun _ _ he _ hsame => by
      cases hsame
      exact he _ rfl
  · next e he => exact fun _ hsame => Except.error.inj hsame ▸ hcheck e he

theorem checkWrite_eq_ok_iff {device : Device} :
    device.checkWrite block = .ok () ↔ block < device.blocks ∧ device.readOnly = false := by
  unfold checkWrite checkBlock
  cases hr : device.readOnly <;> by_cases hb : block < device.blocks <;>
    simp [hb, bind, Except.bind, throw, throwThe, MonadExceptOf.throw, pure, Except.pure]

theorem noteModified_layout (container : Container) :
    container.noteModified.layout = container.layout := by
  obtain ⟨envelope, layout⟩ := container
  cases envelope <;> rfl

theorem noteModified_withoutChecksum (container : Container) :
    container.noteModified.envelope.withoutChecksum = container.envelope.withoutChecksum := by
  obtain ⟨envelope, layout⟩ := container
  cases envelope <;> rfl

theorem exists_of_noteModified {container : Container} {header : Header.DiskCopy}
    {stale : Bool} (h : container.noteModified.envelope = .diskCopy header stale) :
    ∃ stale', container.envelope = .diskCopy header stale' := by
  obtain ⟨envelope, layout⟩ := container
  cases envelope with
  | diskCopy header' stale' =>
    injection h with hheader
    exact ⟨stale', by rw [hheader]⟩
  | bare => cases h
  | twoImg _ => cases h
  | davex => cases h

theorem Holds.run_write (h : Holds state c) (hb : block < state.1.blocks)
    (hw : state.1.readOnly = false) (data : Block) :
    ∃ after, (write block data).run state = .ok () after ∧ Evolves state after ∧
      Holds after (Function.update c block data) := by
  obtain ⟨⟨storage, ⟨envelope, layout⟩, readOnly, modified⟩, host⟩ := state
  obtain ⟨layout', host', hrun, hgeometry, hkept, hlayout⟩ :=
    h.layout.run_writeBlock h.backed (h.writable hw) hb data
  refine ⟨(⟨storage, (⟨envelope, layout'⟩ : Container).noteModified, readOnly, true⟩, host'), ?_,
    ⟨rfl, rfl, ?_, noteModified_withoutChecksum _, hkept.mono fun k hk => .inl hk⟩,
    h.backed.kept hkept, ?_, ?_, h.writable⟩
  · have hcheck : (ask fun state => state.1.checkWrite block :
        Action (Device × Host) Unit).run
        (⟨storage, ⟨envelope, layout⟩, readOnly, modified⟩, host) = .ok () _ :=
      run_ask_of_ok (checkWrite_eq_ok_iff.mpr ⟨hb, hw⟩)
    have hinner : (Container.writeBlock storage block data).run (⟨envelope, layout⟩, host) =
        .ok () ((⟨envelope, layout'⟩ : Container).noteModified, host') := by
      rw [Container.writeBlock, run_bind_of_ok (run_onLayout_of_ok envelope hrun)]
      rfl
    rw [write, run_bind_of_ok hcheck, run_bind_of_ok (run_onContainer_of_ok _ _ hinner)]
    rfl
  · rw [noteModified_layout]
    exact hgeometry
  · rw [noteModified_layout]
    exact hlayout
  · intro header stale he
    obtain ⟨stale', he'⟩ := exists_of_noteModified he
    have hbase : layout'.base = layout.base := by
      rw [← Layout.base_geometry, hgeometry, Layout.base_geometry]
    rw [noteModified_layout]
    simp only [hbase]
    exact h.checksum header stale' he'

/-! ## Flushing -/

/-- The header with the checksum of the data that is in the file now. -/
def refreshed (storage : Storage) (header : Header.DiskCopy) (host : Host) :
    Header.DiskCopy :=
  { header with
    dataChecksum :=
      Header.DiskCopy.checksum (slice (host.contents storage.file) 84 header.dataSize) }

theorem size_checksum_le {storage : Storage} {header : Header.DiskCopy} (sum : Nat)
    (hle : 84 + header.dataSize ≤ storage.size) :
    0x48 + (beBytes 4 sum).toByteArray.size ≤ storage.size := by
  rw [List.size_toByteArray, length_beBytes]
  exact Nat.le_trans (by decide : 0x48 + 4 ≤ 84) (Nat.le_trans (Nat.le_add_right _ _) hle)

/-- On any medium the checksum is computed anew, unless the host breaks off the write of it. -/
theorem refreshChecksum_cases [Medium] {storage : Storage} {header : Header.DiskCopy} {host : Host}
    (hs : storage.Backed host) (hw : storage.readOnly = false)
    (hle : 84 + header.dataSize ≤ storage.size) :
    (Container.refreshChecksum storage header).run host =
        .ok (refreshed storage header host) (host.writeAt storage.file 0x48
          (beBytes 4 (refreshed storage header host).dataChecksum.toNat).toByteArray) ∨
      ∃ e after, e.IsOutage ∧ storage.Broken host 0x48
          (beBytes 4 (refreshed storage header host).dataChecksum.toNat).toByteArray after ∧
        (Container.refreshChecksum storage header).run host = .error e after := by
  have hread : (ask fun host => storage.read host Header.DiskCopy.size header.dataSize :
      Action Host ByteArray).run host =
        .ok (slice (host.contents storage.file) 84 header.dataSize) host :=
    run_ask_of_ok (hs.read_eq hle)
  have hle' := size_checksum_le (refreshed storage header host).dataChecksum.toNat hle
  rw [Container.refreshChecksum, run_bind_of_ok hread]
  rcases Storage.run_write_cases hw hle' (hs.reaches hle') with hrun | ⟨e, after, he, hbroken, hrun⟩
  · exact .inl (run_bind_of_ok hrun _)
  · exact .inr ⟨e, after, he, hbroken, run_bind_of_error hrun _⟩

theorem refreshChecksum_of_readOnly [Medium] {storage : Storage} {header : Header.DiskCopy}
    {host : Host} (hs : storage.Backed host) (hro : storage.readOnly = true)
    (hle : 84 + header.dataSize ≤ storage.size) :
    (Container.refreshChecksum storage header).run host = .error .readOnly host := by
  have hread : (ask fun host => storage.read host Header.DiskCopy.size header.dataSize :
      Action Host ByteArray).run host =
        .ok (slice (host.contents storage.file) 84 header.dataSize) host :=
    run_ask_of_ok (hs.read_eq hle)
  rw [Container.refreshChecksum, run_bind_of_ok hread]
  exact run_bind_of_error (Storage.run_write_of_readOnly hro ..) _

theorem run_refreshChecksum {storage : Storage} {header : Header.DiskCopy} {host : Host}
    (hs : storage.Backed host) (hle : 84 + header.dataSize ≤ storage.size) :
    (Container.refreshChecksum storage header).run host =
      if storage.readOnly then .error .readOnly host
      else .ok (refreshed storage header host) (host.writeAt storage.file 0x48
        (beBytes 4 (refreshed storage header host).dataChecksum.toNat).toByteArray) := by
  cases hro : storage.readOnly with
  | true => exact refreshChecksum_of_readOnly hs hro hle
  | false =>
    exact (refreshChecksum_cases hs hro hle).resolve_right fun ⟨_, _, _, hbroken, _⟩ =>
      Storage.not_broken hbroken

/-- The new checksum is written over the old one. -/
theorem kept_refreshChecksum {storage : Storage} {header : Header.DiskCopy} {host : Host}
    (hs : storage.Backed host) (hle : 84 + header.dataSize ≤ storage.size) :
    Host.Kept storage.file (fun k => 0x48 ≤ k ∧ k < 0x4C) host
      (host.writeAt storage.file 0x48
        (beBytes 4 (refreshed storage header host).dataChecksum.toNat).toByteArray) := by
  refine hs.kept_writeAt (size_checksum_le _ hle) fun k hlo hhi => ⟨hlo, ?_⟩
  rwa [List.size_toByteArray, length_beBytes] at hhi

/-- So is as much of it as the host lets through. -/
theorem kept_of_broken_checksum [Medium] {storage : Storage} {host after : Host} {sum : Nat}
    (hs : storage.Backed host)
    (h : storage.Broken host 0x48 (beBytes 4 sum).toByteArray after) :
    Host.Kept storage.file (fun k => 0x48 ≤ k ∧ k < 0x4C) host after := by
  refine h.kept hs fun k hlo hhi => ⟨hlo, ?_⟩
  rwa [List.size_toByteArray, length_beBytes] at hhi

/-- A flush brings the envelope up to date and then all to the medium. -/
theorem run_flush_of_modified [Medium] (storage : Storage) (container : Container) (readOnly : Bool)
    (host : Host) :
    flush.run (⟨storage, container, readOnly, true⟩, host) =
      match (Container.finish storage).run (container, host) with
      | .ok () after =>
        match storage.sync after.2 with
        | .ok () => .ok () (⟨storage, after.1, readOnly, false⟩, after.2)
        | .error e => .error e (⟨storage, after.1, readOnly, true⟩, after.2)
      | .error e after => .error e (⟨storage, after.1, readOnly, true⟩, after.2) := by
  unfold EStateM.run flush
  dsimp only
  cases Container.finish storage (container, host) with
  | ok _ after => rfl
  | error e after => rfl

/-- Where the host never fails, there is no more to a flush than to bring the envelope up to date. -/
theorem run_flush_eq_finish (storage : Storage) (container : Container) (readOnly : Bool)
    (host : Host) :
    flush.run (⟨storage, container, readOnly, true⟩, host) =
      match (Container.finish storage).run (container, host) with
      | .ok () after => .ok () (⟨storage, after.1, readOnly, false⟩, after.2)
      | .error e after => .error e (⟨storage, after.1, readOnly, true⟩, after.2) := by
  simp only [run_flush_of_modified, Storage.sync_eq]

/-- Bringing the envelope up to date changes the checksum at most. -/
theorem Holds.finish_ends [medium : Medium] {storage : Storage} {container : Container}
    {readOnly modified : Bool} {host : Host}
    (h : Holds (⟨storage, container, readOnly, modified⟩, host) c) :
    Ends (Container.finish storage) (container, host) fun r after =>
      Evolves (⟨storage, container, readOnly, modified⟩, host)
          (⟨storage, after.1, readOnly, modified⟩, after.2) ∧
        Holds (⟨storage, after.1, readOnly, modified⟩, after.2) c ∧
        (readOnly = false → medium.Serves storage.file → r = .ok ()) := by
  by_cases hstale : ∃ header, container.envelope = .diskCopy header true
  · obtain ⟨envelope, layout⟩ := container
    obtain ⟨header, rfl⟩ := hstale
    obtain ⟨hbase, hle⟩ := h.checksum header true rfl
    unfold Ends EStateM.run Container.finish
    dsimp only
    cases hro : storage.readOnly with
    | true =>
      have hrefresh := refreshChecksum_of_readOnly h.backed hro hle
      unfold EStateM.run at hrefresh
      rw [hrefresh]
      refine ⟨.refl _, h, fun hw _ => ?_⟩
      have : storage.readOnly = false := h.writable hw
      rw [hro] at this
      cases this
    | false =>
      -- The write changes nothing but the checksum, which is no part of the blocks.
      have hrefreshed {host' : Host} (header' : Header.DiskCopy) (stale : Bool)
          (hsize : header'.dataSize = header.dataSize)
          (henvelope : ({ header' with dataChecksum := 0 } : Header.DiskCopy) =
            { header with dataChecksum := 0 })
          (hkept : Host.Kept storage.file (fun k => 0x48 ≤ k ∧ k < 0x4C) host host') :
          Evolves (⟨storage, ⟨.diskCopy header true, layout⟩, readOnly, modified⟩, host)
              (⟨storage, ⟨.diskCopy header' stale, layout⟩, readOnly, modified⟩, host') ∧
            Holds (⟨storage, ⟨.diskCopy header' stale, layout⟩, readOnly, modified⟩, host') c := by
        refine ⟨⟨rfl, rfl, rfl, congrArg (Envelope.diskCopy · false) henvelope,
          hkept.mono fun k hk => .inr ⟨hk.1, hk.2, header, true, rfl⟩⟩,
          h.backed.kept hkept, h.layout.congr hkept.size_eq fun k hk => hkept.byte_eq ?_, ?_,
          h.writable⟩
        · have hbase' : 84 ≤ layout.base := hbase
          have hk' : layout.base ≤ k := hk
          omega
        · rintro _ _ ⟨⟩
          exact ⟨hbase, hsize ▸ hle⟩
      rcases refreshChecksum_cases h.backed hro hle with hrun | ⟨e, after, -, hbroken, hrun⟩
      · unfold EStateM.run at hrun
        rw [hrun]
        obtain ⟨hevolves, hholds⟩ := hrefreshed (refreshed storage header host) false rfl rfl
          (kept_refreshChecksum h.backed hle)
        exact ⟨hevolves, hholds, fun _ _ => rfl⟩
      · unfold EStateM.run at hrun
        rw [hrun]
        obtain ⟨hevolves, hholds⟩ := hrefreshed header true rfl rfl
          (kept_of_broken_checksum h.backed hbroken)
        exact ⟨hevolves, hholds, fun _ hserves => absurd hserves hbroken.not_serves⟩
  · have hrun := Container.run_finish_of_not_stale storage host fun header he => hstale ⟨header, he⟩
    exact (ends_of_run_eq_ok hrun).mpr ⟨.refl _, h, fun _ _ => rfl⟩

/-- A flush leaves the blocks as they are on any medium, and only a host that does not do all that
it is asked makes it fail. -/
theorem Holds.flush_keeps [medium : Medium] (h : Holds state c) :
    Ends flush state fun r after => Evolves state after ∧ Holds after c ∧
      (state.1.readOnly = false → medium.Serves state.1.storage.file → r = .ok ()) := by
  obtain ⟨⟨storage, container, readOnly, modified⟩, host⟩ := state
  cases modified with
  | false => exact ⟨.refl _, h, fun _ _ => rfl⟩
  | true =>
    have hfinish := h.finish_ends
    unfold Ends at hfinish ⊢
    rw [run_flush_of_modified]
    cases hr : (Container.finish storage).run (container, host) with
    | error e after =>
      rw [hr] at hfinish
      exact hfinish
    | ok _ after =>
      rw [hr] at hfinish
      obtain ⟨hevolves, hholds, -⟩ := hfinish
      dsimp only
      cases hsync : storage.sync after.2 with
      | ok _ =>
        exact ⟨⟨rfl, rfl, hevolves.geometry_eq, hevolves.envelope_eq, hevolves.kept⟩,
          ⟨hholds.backed, hholds.layout, hholds.checksum, hholds.writable⟩, fun _ _ => rfl⟩
      | error e =>
        refine ⟨hevolves, hholds, fun _ hserves => ?_⟩
        rw [Storage.sync_of_serves hserves] at hsync
        cases hsync

theorem Holds.flush_ends (h : Holds state c) :
    Ends flush state fun r after => Evolves state after ∧ Holds after c ∧
      (state.1.readOnly = false → r = .ok ()) :=
  h.flush_keeps.mono fun _ _ hs =>
    ⟨hs.1, hs.2.1, fun hw => hs.2.2 hw (Medium.serves_reliable _)⟩

/-! ## Arrays of blocks -/

/-- The device was reached from `start` and shows the array `c`. -/
def Reached (start state : Device × Host) (c : Nat → Block) : Prop :=
  Evolves start state ∧ Holds state c

/-- A warning is no change of a device. -/
theorem Reached.warn {start : Device × Host} {device : Device} {host : Host}
    (h : Reached start (device, host) c) (warning : Warning) :
    Reached start (device, host.warn warning) c :=
  ⟨h.1.trans ⟨rfl, rfl, rfl, rfl, Host.kept_warn host warning⟩,
    ⟨h.2.backed.isSome_find?, h.2.backed.size_le⟩, h.2.layout, h.2.checksum, h.2.writable⟩

/-- A device that shows an array behaves as that array from then on. -/
theorem arrayDisk (start : Device × Host) :
    ArrayDisk start.1.blocks start.1.readOnly (Reached start) where
  read_ends := by
    intro state c h block
    by_cases hb : block < state.1.blocks
    · obtain ⟨after, hrun, he, hs⟩ := h.2.run_read hb
      exact (ends_of_run_eq_ok hrun).mpr ⟨⟨h.1.trans he, hs⟩, fun data hr => (Except.ok.inj hr).symm⟩
    · exact (ends_of_run_eq_error (run_read_of_le (Nat.not_lt.mp hb))).mpr ⟨h, nofun⟩
  write_ends := by
    intro state c h block data
    cases hcheck : state.1.checkWrite block with
    | error e => exact (ends_of_run_eq_error (run_write_of_error hcheck data)).mpr h
    | ok _ =>
      obtain ⟨hb, hw⟩ := checkWrite_eq_ok_iff.mp hcheck
      obtain ⟨after, hrun, he, hs⟩ := h.2.run_write hb hw data
      exact (ends_of_run_eq_ok hrun).mpr ⟨h.1.trans he, hs⟩
  blocks_eq h := h.1.blocks_eq
  readOnly_eq h := h.1.readOnly_eq
  flush_ends h := h.2.flush_ends.mono fun _ _ hs => ⟨h.1.trans hs.1, hs.2.1⟩
  read_ok := by
    intro state c block h hb
    obtain ⟨after, hrun, -⟩ := h.2.run_read (h.1.blocks_eq ▸ hb)
    exact ⟨after, hrun⟩
  write_ok := by
    intro state c block data h hb hw
    obtain ⟨after, hrun, -⟩ := h.2.run_write (h.1.blocks_eq ▸ hb) (h.1.readOnly_eq.trans hw) data
    exact ⟨after, hrun⟩

end Device

end Diskette
