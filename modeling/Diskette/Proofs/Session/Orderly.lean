import Diskette.Proofs.Cache.Faults
import Diskette.Proofs.Session.Register

/-!
# What the user of a session may rely on

However a session is used, the number of an open volume stands for that volume until it is closed:
what is done with it is done to its blocks and to its file, and no other volume is disturbed. A
volume that was closed has its blocks in its file. Failures do not change that. A volume that cannot
be opened leaves no trace, and one that cannot be synced is closed nevertheless.

* `Slotted`: what the slots are given to, whatever becomes of the files.
* `Undisturbed`: nothing that was done made a difference to a volume.
* `Orderly`: what the user of a session may rely on.
* `orderly_of_course`: it can be relied on however the session was used before.
-/

namespace Diskette.Session

open Diskette.Action

/-! ## Promises -/

/-- What happens to the slots of a session, whatever is in the files. -/
structure Slotted (session : Session) (host : Host) : Prop where
  /-- A new volume gets the lowest slot that is empty, which may be the one after the last. -/
  made {source : Source} {path : String} {id : Nat}
    (h : (source.makeVolume path).outcome (session, host) = .ok id) :
    session.find? id = none ∧ ∀ other, other < id → (session.find? other).isSome
  /-- A volume that was not opened or created leaves the session as it was. -/
  refused {source : Source} {path : String} {e : DiskError}
    (h : (source.makeVolume path).outcome (session, host) = .error e) :
    ((source.makeVolume path).stateAfter (session, host)).1 = session
  /-- A slot is empty after its volume was closed, even if that failed, and the others are as they
  were. -/
  closed (id other : Nat) :
    ((close id).stateAfter (session, host)).1.find? other =
      if other = id then none else session.find? other
  /-- All volumes are closed, each one whatever became of those before it, and the first failure is
  returned. -/
  closedAll :
    closeAll.outcome (session, host) =
        firstFailure (closings (session.among session.volumes) host).1 ∧
      closeAll.stateAfter (session, host) =
        (empty, (closings (session.among session.volumes) host).2)

/-- What was done between two states made no difference to a volume: it is in its slot, its file is
the same, and if that is sound, every task comes to the same. -/
structure Undisturbed (id : Nat) (record : Record) (before after : Session × Host) : Prop where
  find?_eq : after.1.find? id = before.1.find? id
  file_eq : after.2.find? record.path = before.2.find? record.path
  outcome_eq (hsound : record.sound) (task : Task) :
    (onCache id task.perform).outcome after = (onCache id task.perform).outcome before

/-- What the user of a session may rely on. -/
structure Orderly (state : Session × Host) (register : Register) : Prop where
  /-- The open volumes are those of the register. -/
  mem_volumes_iff (id : Nat) : id ∈ state.1.volumes ↔ (register id).isSome
  path_eq {id : Nat} {record : Record} (hr : register id = some record) :
    state.1.path id = .ok record.path
  /-- Slots are given as they should, even if all files were lost. -/
  slotted (host : Host) : Slotted state.1 host
  /-- A new volume gets the lowest number that stands for none. -/
  made {source : Source} {path : String} {id : Nat}
    (h : (source.makeVolume path).outcome state = .ok id) :
    register id = none ∧ ∀ other, other < id → (register other).isSome
  /-- Opening or creating a volume, or failing to, disturbs none. -/
  undisturbed_makeVolume {path : String} (source : Source) (hunused : register.Unused path) {id : Nat}
    {record : Record} (hr : register id = some record) :
    Undisturbed id record state ((source.makeVolume path).stateAfter state)
  /-- A number that stands for no volume cannot be used, and nothing comes of it. -/
  absent {id : Nat} (hr : register id = none) :
    (∀ {α : Type} (act : Action (Cache × Host) α),
      (onCache id act).run state = .error (.noSuchVolume id) state) ∧
    (close id).run state = .error (.noSuchVolume id) state
  /-- One that stands for a volume can be. Closing it may fail, but not because it is not open. -/
  present {id : Nat} {record : Record} (hr : register id = some record) :
    (onCache id (pure () : Action (Cache × Host) Unit)).outcome state = .ok () ∧
    (∀ other, (close id).outcome state ≠ .error (.noSuchVolume other)) ∧
    (record.sound → (close id).outcome state = .ok ())
  /-- A task is done with the blocks of the volume that the number stands for. -/
  outcome_eq {id : Nat} {record : Record} (hr : register id = some record) (hsound : record.sound)
    (task : Task) : (onCache id task.perform).outcome state = task.perform.outcome record.table
  undisturbed_onCache {id other : Nat} {record : Record} (hr : register other = some record)
    (hne : other ≠ id) (task : Task) :
    Undisturbed other record state ((onCache id task.perform).stateAfter state)
  /-- A volume that was closed has its blocks in its file. -/
  inFile_close {id : Nat} {record : Record} (hr : register id = some record)
    (hsound : record.sound) : record.InFile ((close id).stateAfter state).2
  undisturbed_close {id other : Nat} {record : Record} (hr : register other = some record)
    (hne : other ≠ id) : Undisturbed other record state ((close id).stateAfter state)
  /-- So has each when all are closed, even if others could not be synced. -/
  inFile_closeAll {id : Nat} {record : Record} (hr : register id = some record)
    (hsound : record.sound) : record.InFile (closeAll.stateAfter state).2
  closeAll_eq_ok (hsound : ∀ id record, register id = some record → record.sound) :
    closeAll.outcome state = .ok ()

/-! ## Why they hold -/

variable {session session' : Session} {host host' : Host} {state : Session × Host}
  {register : Register} {record : Record} {volume : Volume} {id other : Nat} {path file : String}

theorem slotted (session : Session) (host : Host) : Slotted session host where
  made {source path id} h := by
    obtain ⟨-, ⟨e, hr, -⟩ | ⟨cache, hr, -⟩⟩ :=
      ends_iff.mp (source.makeVolume_ends path session host)
    · cases h.symm.trans hr
    · obtain rfl := Except.ok.inj (h.symm.trans hr)
      exact ⟨session.find?_vacant, fun other hlt => isSome_find?_of_lt_vacant hlt⟩
  refused {source path e} h := by
    obtain ⟨-, ⟨e, -, hafter⟩ | ⟨cache, hr, -⟩⟩ :=
      ends_iff.mp (source.makeVolume_ends path session host)
    · exact hafter
    · cases h.symm.trans hr
  closed := find?_close session host
  closedAll := closeAll_eq session host

/-- What is done with one volume leaves the others in their slots. -/
theorem find?_onCache {α : Type} (act : Action (Cache × Host) α) (session : Session) (host : Host)
    (hne : other ≠ id) :
    ((onCache id act).stateAfter (session, host)).1.find? other = session.find? other := by
  cases hfind : session.find? id with
  | none => rw [stateAfter, run_onCache_of_not_open act host hfind]
  | some volume =>
    obtain ⟨path, cache⟩ := volume
    have hends : Ends (onCache id act) (session, host) fun _ after =>
        after.1.find? other = session.find? other :=
      (ends_onCache hfind).mpr (ends_iff.mpr
        (find?_put_of_ne (Nat.le_of_lt (lt_size_of_find? hfind)) hne _))
    exact ends_iff.mp hends

/-- A task with a volume whose file is sound is done with the blocks of the record. -/
theorem Tracks.outcome_onCache (h : Tracks record volume host)
    (hfind : session.find? id = some volume) (hsound : record.sound) (task : Task) :
    (onCache id task.perform).outcome (session, host) = task.perform.outcome record.table := by
  obtain ⟨path, cache⟩ := volume
  have hends : Ends (onCache id task.perform) (session, host) fun r _ =>
      r = task.perform.outcome record.table :=
    (ends_onCache hfind).mpr ((h.perform_ends task).mono fun _ _ hr => hr.1 hsound)
  exact ends_iff.mp hends

theorem Undisturbed.refl (id : Nat) (record : Record) (state : Session × Host) :
    Undisturbed id record state state := ⟨rfl, rfl, fun _ _ => rfl⟩

namespace Represents

/-- A volume that stays in its slot is not disturbed by what becomes of another file. -/
theorem undisturbed_elsewhere (h : Represents (session, host) register)
    (hr : register id = some record) (hfind : session'.find? id = session.find? id)
    (hapart : Host.Apart file host host') (hne : record.path ≠ file) :
    Undisturbed id record (session, host) (session', host') := by
  obtain ⟨volume, hvolume, htracks⟩ := h.exists_tracks hr
  refine ⟨hfind, hapart hne, fun hsound task => ?_⟩
  have hafter := htracks.elsewhere (hapart hne)
  rw [hafter.outcome_onCache (hfind.trans hvolume) hsound, htracks.outcome_onCache hvolume hsound]

theorem undisturbed_makeVolume (h : Represents (session, host) register) (source : Source)
    (hunused : register.Unused path) (hr : register id = some record) :
    Undisturbed id record (session, host) ((source.makeVolume path).stateAfter (session, host)) := by
  obtain ⟨volume, hvolume, -⟩ := h.exists_tracks hr
  have hfind := find?_makeVolume source path host hvolume
  obtain ⟨hhost, -⟩ := ends_iff.mp (source.makeVolume_ends path session host)
  have hapart := ends_iff.mp (source.makeDevice_apart path host)
  rw [← hhost] at hapart
  exact h.undisturbed_elsewhere hr (hfind.trans hvolume.symm) hapart (hunused id record hr)

theorem undisturbed_onCache (h : Represents (session, host) register)
    (hr : register other = some record) (hne : other ≠ id) (task : Task) :
    Undisturbed other record (session, host)
      ((onCache id task.perform).stateAfter (session, host)) := by
  cases hr' : register id with
  | none =>
    rw [stateAfter, run_onCache_of_not_open _ _ ((h.find?_eq_none_iff id).mpr hr')]
    exact .refl other record _
  | some record' =>
    obtain ⟨-, -, hapart⟩ := ends_iff.mp (h.onCache_ends hr' task)
    exact h.undisturbed_elsewhere hr (find?_onCache _ session host hne) hapart (h.path_ne hr' hne hr)

theorem undisturbed_close (h : Represents (session, host) register)
    (hr : register other = some record) (hne : other ≠ id) :
    Undisturbed other record (session, host) ((close id).stateAfter (session, host)) := by
  have hfind := find?_close session host id other
  rw [if_neg hne] at hfind
  cases hr' : register id with
  | none =>
    rw [stateAfter, run_close_of_not_open ((h.find?_eq_none_iff id).mpr hr')]
    exact .refl other record _
  | some record' =>
    obtain ⟨-, -, hapart⟩ := ends_iff.mp (h.close_ends hr')
    exact h.undisturbed_elsewhere hr hfind hapart (h.path_ne hr' hne hr)

/-- As long as the register is kept, the session can be relied on. -/
theorem orderly (h : Represents (session, host) register) : Orderly (session, host) register where
  mem_volumes_iff := h.mem_volumes_iff
  path_eq {id record} hr := by
    obtain ⟨volume, hfind, htracks⟩ := h.exists_tracks hr
    rw [path, hfind, ← htracks.path_eq]
  slotted := Session.slotted session
  made {source path id} hmade := by
    have hisSome (id : Nat) : (session.find? id).isSome ↔ (register id).isSome :=
      Session.mem_volumes_iff.symm.trans (h.mem_volumes_iff id)
    obtain ⟨hnone, hlower⟩ := (Session.slotted session host).made hmade
    exact ⟨(h.find?_eq_none_iff id).mp hnone, fun other hlt => (hisSome other).mp (hlower other hlt)⟩
  undisturbed_makeVolume {path} source hunused {id record} hr :=
    h.undisturbed_makeVolume source hunused hr
  absent {id} hr := by
    have hnone := (h.find?_eq_none_iff id).mpr hr
    exact ⟨fun act => run_onCache_of_not_open act host hnone, run_close_of_not_open hnone host⟩
  present {id record} hr := by
    obtain ⟨⟨path, cache⟩, hfind, -⟩ := h.exists_tracks hr
    have hends : Ends (onCache id (pure () : Action (Cache × Host) Unit)) (session, host)
        fun r _ => r = .ok () := (ends_onCache hfind).mpr rfl
    refine ⟨ends_iff.mp hends, fun other hfails => ?_,
      fun hsound => ((ends_iff.mp (h.close_ends hr)).1 hsound).1⟩
    rw [(close_eq_of_find? hfind host).1] at hfails
    exact ends_iff.mp (Cache.throws_closeCache cache host) _ hfails
  outcome_eq {id record} hr hsound task := by
    obtain ⟨volume, hfind, htracks⟩ := h.exists_tracks hr
    exact htracks.outcome_onCache hfind hsound task
  undisturbed_onCache := h.undisturbed_onCache
  inFile_close {id record} hr hsound := ((ends_iff.mp (h.close_ends hr)).1 hsound).2.inFile
  undisturbed_close := h.undisturbed_close
  inFile_closeAll {id record} hr hsound :=
    ((ends_iff.mp h.closeAll_ends).2 id record hr hsound).inFile
  closeAll_eq_ok := (ends_iff.mp h.closeAll_ends).1

end Represents

/-- However a session was used before, and whatever failed, the number of an open volume stands for
that volume and no other, and what is done with it is done to its blocks and its file. -/
theorem orderly_of_course {initial : Host} (h : Course initial state register) :
    Orderly state register :=
  (represents_of_course h).orderly

/-- The course of a session that creates an image. -/
private theorem course_create {initial : Host} {format : Format} {blocks : Nat} {device : Device}
    (h : Course initial (session, host) register) (hunused : register.Unused path)
    (hcreate : (Device.create path format blocks {}).run host = .ok device host') :
    ∃ cache, Course initial (session.put session.vacant ⟨path, cache⟩, host')
      (Function.update register session.vacant
        (some (.ofDevice (.blank format blocks {}) path device host'))) := by
  obtain ⟨cache, hcache, -, -⟩ := exists_cacheFor device {} host'
  have hmade : ((Source.blank format blocks {}).makeDevice path).run host = .ok device host' :=
    hcreate
  have hrun : ((Source.blank format blocks {}).makeVolume path).run (session, host) =
      .ok session.vacant (session.put session.vacant ⟨path, cache⟩, host') :=
    Source.run_makeVolume_of_ok hmade hcache
  have hcourse := h.makeVolume (.blank format blocks {}) path hunused
  unfold stateAfter outcome at hcourse
  rw [hrun, hmade] at hcourse
  exact ⟨cache, hcourse⟩

/-- Two new images: a block of the first one is replaced, and another program empties the file of the
second one. The first one can be relied on all the same. -/
theorem orderly_of_course_created :
    ∃ state register record other, Course Host.empty state register ∧ Orderly state register ∧
      register 0 = some record ∧ record.path = "a.nib" ∧ record.sound ∧
      record.table.blocks 3 = Bytes.ofList 512 [7] ∧
      register 1 = some other ∧ other.path = "b.po" ∧ ¬ other.sound := by
  have hfile : Host.empty.checkCreatable "a.nib" = .ok () :=
    Host.checkCreatable_of_absent rfl (by simp)
  obtain ⟨device, host, hcreate, hfresh⟩ := Device.run_create hfile
    (show Format.nibble.fileSize 16 = .ok 13312 from rfl) (by decide) {}
  have hfile' : host.checkCreatable "b.po" = .ok () := by
    have hapart := ends_iff.mp (Device.apart_create "a.nib" .nibble 16 {} Host.empty)
    rw [stateAfter, hcreate] at hapart
    have habsent : host.find? "b.po" = none := hapart (by decide)
    exact Host.checkCreatable_of_absent habsent (by simp)
  obtain ⟨device', host', hcreate', -⟩ := Device.run_create hfile'
    (show Format.proDosOrder.fileSize 16 = .ok 8192 from rfl) (by decide) {}
  obtain ⟨record, hrecord⟩ :
      ∃ record, record = Record.ofDevice (.blank .nibble 16 {}) "a.nib" device host := ⟨_, rfl⟩
  obtain ⟨cache, hfirst⟩ := course_create .start (fun _ _ hr => by cases hr) hcreate
  -- The first volume goes into slot 0, whose record the rest of the run may not touch.
  rw [← hrecord, show empty.vacant = 0 by simp [empty, vacant]] at hfirst
  have hunused : Register.Unused (Function.update (fun _ => none) 0 (some record)) "b.po" := by
    intro id record' hr
    rw [Function.update_apply] at hr
    split at hr
    · obtain rfl := Option.some.inj hr
      rw [hrecord]
      show "a.nib" ≠ "b.po"
      decide
    · cases hr
  obtain ⟨cache', hsecond⟩ := course_create hfirst hunused hcreate'
  rw [show (empty.put 0 ⟨"a.nib", cache⟩).vacant = 1 by simp [empty, vacant, put]] at hsecond
  obtain ⟨bytes, hbytes⟩ : ∃ bytes : Block, bytes = Bytes.ofList 512 [7] := ⟨_, rfl⟩
  have hcourse := (hsecond.onCache 0 (.writeBlock 3 bytes)).disturb "b.po"
    (Host.apart_replace _ "b.po" .empty)
  have hblock : Ends (Task.writeBlock 3 bytes).perform record.table fun _ after =>
      after.blocks 3 = Bytes.ofList 512 [7] := by
    have hblocks : record.table.size = 16 := hrecord ▸ hfresh.blocks_eq
    have hwritable : record.table.readOnly = false := hrecord ▸ hfresh.readOnly_eq
    refine ends_bind.mpr ((record.table.writeBlock_ends 3 bytes).mono ?_)
    intro r after hafter
    rw [hblocks, if_pos (by decide), hwritable, if_neg (by decide)] at hafter
    obtain ⟨rfl, rfl⟩ := hafter
    show Function.update record.table.blocks 3 bytes 3 = _
    rw [Function.update_self, hbytes]
  -- The file of volume 1 is emptied behind the session's back; volume 0 lies at another path.
  refine ⟨_, _, (record.after (.writeBlock 3 bytes)).disturb "b.po",
    (Record.ofDevice (.blank .proDosOrder 16 {}) "b.po" device' host').disturb "b.po", hcourse,
    orderly_of_course hcourse, ?_, ?_, ⟨?_, ?_⟩, ?_, ?_, ?_, fun hsound => ?_⟩
  · simp [Register.disturb, Register.change]
  · rw [hrecord]
    rfl
  · rw [hrecord]
    trivial
  · rw [hrecord]
    show "a.nib" ≠ "b.po"
    decide
  · have hlast := ends_iff.mp hblock
    exact hlast
  · simp [Register.disturb, Register.change]
  · rfl
  · exact hsound.2 rfl

end Diskette.Session
