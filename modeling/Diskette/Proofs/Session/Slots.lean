import Diskette.Proofs.Session.Persistence
import Diskette.Proofs.Upheld

/-!
# The slots of a session

What opening and closing do to the slots, whatever becomes of the images: a new volume gets the
lowest slot that is empty, a closed volume leaves its slot empty even if it could not be synced, and
no other slot is touched.

* `find?_put_of_ne`, `find?_vacate`: the other slots.
* `find?_vacant`, `isSome_find?_of_lt_vacant`: the slot of a new volume.
* `closings`, `firstFailure`: every open volume is closed in the order of the slots.
* `closeAll_eq`: what closing all of them comes to.
-/

namespace Diskette.Session

open Diskette.Action

variable {session : Session} {host : Host} {id other : Nat} {volume : Volume} {path : String}
  {cache : Cache}

/-! ## Slots -/

theorem find?_put_of_ne (h : id ≤ session.slots.size) (hne : other ≠ id) (volume : Volume) :
    (session.put id volume).find? other = session.find? other := by
  obtain ⟨slots⟩ := session
  have hle : id ≤ slots.size := h
  unfold put
  by_cases hlt : id < slots.size
  · simp only [if_pos hlt, find?, Array.getElem?_setIfInBounds_ne hne.symm]
  · obtain rfl : id = slots.size := by omega
    simp only [if_neg hlt, find?, Array.getElem?_push, if_neg hne]

theorem find?_vacate (session : Session) (id other : Nat) :
    (session.vacate id).find? other = if other = id then none else session.find? other := by
  obtain ⟨slots⟩ := session
  unfold vacate find?
  by_cases h : other = id
  · subst h
    rw [if_pos rfl]
    by_cases hlt : other < slots.size
    · simp [hlt]
    · simp [hlt]
  · rw [if_neg h]
    simp only [Array.getElem?_setIfInBounds_ne (Ne.symm h)]

/-- A new volume gets a slot that is empty. -/
theorem find?_vacant (session : Session) : session.find? session.vacant = none := by
  unfold find? vacant
  cases h : session.slots.findIdx? Option.isNone with
  | none =>
    rw [Option.getD_none, Array.getElem?_eq_none (Nat.le_refl _)]
    rfl
  | some id =>
    obtain ⟨hlt, hnone, -⟩ := Array.findIdx?_eq_some_iff_getElem.mp h
    rw [Option.getD_some, Array.getElem?_eq_getElem hlt]
    exact Option.isNone_iff_eq_none.mp hnone

/-- No slot before it is empty. -/
theorem isSome_find?_of_lt_vacant (h : id < session.vacant) : (session.find? id).isSome := by
  have hlt : id < session.slots.size := Nat.lt_of_lt_of_le h session.vacant_le_size
  have htaken : ¬ session.slots[id].isNone := by
    unfold vacant at h
    cases hfind : session.slots.findIdx? Option.isNone with
    | none => simp [Array.findIdx?_eq_none_iff.mp hfind _ (Array.getElem_mem hlt)]
    | some least =>
      obtain ⟨hleast, -, hbefore⟩ := Array.findIdx?_eq_some_iff_getElem.mp hfind
      rw [hfind] at h
      exact hbefore id h
  rw [find?, Array.getElem?_eq_getElem hlt]
  simpa [Option.isSome_iff_ne_none] using htaken

theorem mem_volumes_iff : id ∈ session.volumes ↔ (session.find? id).isSome := by
  unfold volumes
  rw [List.mem_filter, List.mem_range, and_iff_right_iff_imp]
  intro h
  obtain ⟨volume, hvolume⟩ := Option.isSome_iff_exists.mp h
  exact lt_size_of_find? hvolume

theorem nodup_volumes (session : Session) : session.volumes.Nodup :=
  List.nodup_range.filter _

/-! ## What opening and closing do -/

/-- A device can always be given a cache. -/
theorem exists_cacheFor [Medium] (device : Device) (options : DeviceOptions) (host : Host) :
    ∃ cache, (cacheFor device options).run host = .ok cache host ∧ cache.device = device ∧
      cache.Grounded := by
  unfold cacheFor
  split
  · next hsuits =>
    refine ⟨_, Cache.run_ofMapping_of_supportsMapping host hsuits.2, rfl, ?_⟩
    exact (Bool.and_eq_true_iff.mp hsuits.2).1
  · exact ⟨_, rfl, rfl, trivial⟩

/-- Where the device of a volume comes from: from a file that is opened, or from a new one. -/
inductive Source where
  | file (options : DeviceOptions)
  | blank (format : Format) (blocks : Nat) (options : DeviceOptions)

namespace Source

variable {source : Source} {device : Device} {opened : Host} {e : DiskError}

/-- What the user asks of the device. -/
def options : Source → DeviceOptions
  | file options => options
  | blank _ _ options => options

/-- Opens or creates the device. -/
def makeDevice [Medium] (path : String) : Source → Action Host Device
  | file options => Device.openFile path options
  | blank format blocks options => Device.create path format blocks options

/-- Opens or creates the volume. -/
def makeVolume [Medium] (path : String) : Source → Action (Session × Host) Nat
  | file options => openFile path options
  | blank format blocks options => create path format blocks options

theorem makeVolume_eq [Medium] (source : Source) (path : String) :
    source.makeVolume path = (do
      let device ← onSecond (source.makeDevice path)
      insert path device source.options) := by
  cases source <;> rfl

theorem run_makeVolume_of_ok [Medium] (h : (source.makeDevice path).run host = .ok device opened)
    (hcache : (cacheFor device source.options).run opened = .ok cache opened) :
    (source.makeVolume path).run (session, host) =
      .ok session.vacant (session.put session.vacant ⟨path, cache⟩, opened) := by
  rw [makeVolume_eq, run_bind_of_ok (run_onSecond_of_ok h), run_insert_of_ok hcache]

theorem run_makeVolume_of_error [Medium] (h : (source.makeDevice path).run host = .error e opened) :
    (source.makeVolume path).run (session, host) = .error e (session, opened) := by
  rw [makeVolume_eq]
  exact run_bind_of_error (run_onSecond_of_error h) _

/-- The device may be refused: then the session stays as it is. If it is made, the volume gets the
slot that is vacant. -/
theorem makeVolume_ends [Medium] (source : Source) (path : String) (session : Session) (host : Host) :
    Ends (source.makeVolume path) (session, host) fun r after =>
      after.2 = (source.makeDevice path).stateAfter host ∧
        ((∃ e, r = .error e ∧ after.1 = session) ∨
          ∃ cache, r = .ok session.vacant ∧ after.1 = session.put session.vacant ⟨path, cache⟩) := by
  cases h : (source.makeDevice path).run host with
  | ok device opened =>
    obtain ⟨cache, hcache, -, -⟩ := exists_cacheFor device source.options opened
    refine (ends_of_run_eq_ok (run_makeVolume_of_ok h hcache)).mpr ⟨?_, .inr ⟨cache, rfl, rfl⟩⟩
    rw [stateAfter, h]
  | error e opened =>
    refine (ends_of_run_eq_error (run_makeVolume_of_error h)).mpr ⟨?_, .inl ⟨e, rfl, rfl⟩⟩
    rw [stateAfter, h]

end Source

theorem close_eq_of_find? (h : session.find? id = some volume) (host : Host) :
    (close id).outcome (session, host) = (closeCache volume.cache).outcome host ∧
      (close id).stateAfter (session, host) =
        (session.vacate id, (closeCache volume.cache).stateAfter host) := by
  unfold outcome stateAfter EStateM.run close
  simp only [h]
  cases closeCache volume.cache host with
  | ok _ after => exact ⟨rfl, rfl⟩
  | error e after => exact ⟨rfl, rfl⟩

theorem run_close_of_not_open (h : session.find? id = none) (host : Host) :
    (close id).run (session, host) = .error (.noSuchVolume id) (session, host) := by
  unfold EStateM.run close
  simp only [h]

/-- Opening or creating a volume leaves every other one where it is. -/
theorem find?_makeVolume (source : Source) (path : String) (host : Host)
    (h : session.find? id = some volume) :
    ((source.makeVolume path).stateAfter (session, host)).1.find? id = some volume := by
  obtain ⟨-, ⟨_, -, hafter⟩ | ⟨cache, -, hafter⟩⟩ :=
    ends_iff.mp (source.makeVolume_ends path session host)
  · rw [hafter, h]
  · have hne : id ≠ session.vacant := by
      rintro rfl
      rw [find?_vacant] at h
      cases h
    rw [hafter, find?_put_of_ne session.vacant_le_size hne, h]

/-- A volume that is closed leaves its slot empty, whether or not it could be synced, and every other
volume stays where it is. -/
theorem find?_close (session : Session) (host : Host) (id other : Nat) :
    ((close id).stateAfter (session, host)).1.find? other =
      if other = id then none else session.find? other := by
  cases h : session.find? id with
  | some volume =>
    rw [(close_eq_of_find? h host).2]
    exact find?_vacate session id other
  | none =>
    have hstate : (close id).stateAfter (session, host) = (session, host) := by
      unfold stateAfter
      rw [run_close_of_not_open h]
    rw [hstate]
    split
    · next heq => rw [heq, h]
    · rfl

/-! ## Closing every volume -/

/-- Logs that a volume could not be closed. -/
def noteFailure (id : Nat) (host : Host) : Except DiskError Unit → Host
  | .ok _ => host
  | .error e => host.warn (.volumeNotClosed id e)

/-- Closes volumes in turn and logs each failure: what came of each, and the host that is left. -/
def closings : List (Nat × Volume) → Host → List (Except DiskError Unit) × Host
  | [], host => ([], host)
  | (id, volume) :: rest, host =>
    let result := (closeCache volume.cache).outcome host
    let after := noteFailure id ((closeCache volume.cache).stateAfter host) result
    (result :: (closings rest after).1, (closings rest after).2)

/-- The first failure, if there is one. -/
def firstFailure (results : List (Except DiskError Unit)) : Except DiskError Unit :=
  (results.find? fun result => !result.isOk).getD (.ok ())

/-- The volumes in some slots, each with its slot. -/
def among (session : Session) (ids : List Nat) : List (Nat × Volume) :=
  ids.filterMap fun id => (session.find? id).map fun volume => (id, volume)

theorem among_vacate {ids : List Nat} (h : id ∉ ids) :
    (session.vacate id).among ids = session.among ids := by
  refine List.filterMap_congr fun other hmem => ?_
  have hne : other ≠ id := fun heq => h (heq ▸ hmem)
  rw [find?_vacate, if_neg hne]

/-- Volumes are closed one after the other, and the first failure is kept. -/
theorem closeEach_ends {ids : List Nat} (hnodup : ids.Nodup) :
    ∀ {session : Session} {host : Host}, (∀ id ∈ ids, (session.find? id).isSome) →
      Ends (closeEach ids) (session, host) fun r after =>
        r = .ok (firstFailure (closings (session.among ids) host).1) ∧
          after.2 = (closings (session.among ids) host).2 := by
  induction ids with
  | nil => exact fun _ => ⟨rfl, rfl⟩
  | cons id ids ih =>
    intro session host hopen
    obtain ⟨hnew, hnodup⟩ := List.nodup_cons.mp hnodup
    obtain ⟨volume, hfind⟩ := Option.isSome_iff_exists.mp (hopen id List.mem_cons_self)
    obtain ⟨hresult, hafter⟩ := close_eq_of_find? hfind host
    have hrest (other : Nat) (hmem : other ∈ ids) : ((session.vacate id).find? other).isSome := by
      have hne : other ≠ id := fun heq => hnew (heq ▸ hmem)
      rw [find?_vacate, if_neg hne]
      exact hopen other (List.mem_cons_of_mem _ hmem)
    -- What is left to be closed is untouched by the closing of this one.
    have hamong : session.among (id :: ids) = (id, volume) :: (session.vacate id).among ids := by
      rw [among_vacate hnew, among, List.filterMap_cons, hfind]
      rfl
    rw [closeEach, ends_bind, ends_attempt, ends_iff, hresult, hafter, hamong, closings]
    dsimp only
    cases hr : (closeCache volume.cache).outcome host with
    | ok _ => exact ih hnodup hrest
    | error e =>
      rw [ends_bind, ends_modify]
      apply (ih hnodup hrest).bind
      · rintro later after ⟨-, hlast⟩
        exact ⟨rfl, hlast⟩
      · rintro e after ⟨hfails, -⟩
        cases hfails

/-- Closing every volume closes each of them in the order of their slots, whatever became of those
before. It returns the first failure and leaves no volume. -/
theorem closeAll_eq (session : Session) (host : Host) :
    closeAll.outcome (session, host) =
        firstFailure (closings (session.among session.volumes) host).1 ∧
      closeAll.stateAfter (session, host) =
        (empty, (closings (session.among session.volumes) host).2) := by
  have hall : Ends closeAll (session, host) fun r after =>
      r = firstFailure (closings (session.among session.volumes) host).1 ∧
        after = (empty, (closings (session.among session.volumes) host).2) := by
    unfold closeAll
    refine ends_bind.mpr (ends_ask.mpr ?_)
    apply (closeEach_ends session.nodup_volumes fun id hmem => mem_volumes_iff.mp hmem).bind
    · rintro result after ⟨hr, hlast⟩
      obtain rfl := Except.ok.inj hr
      refine ends_bind.mpr (ends_modify.mpr (ends_ofExcept.mpr ⟨rfl, ?_⟩))
      exact Prod.ext rfl hlast
    · rintro e after ⟨hr, -⟩
      cases hr
  exact ends_iff.mp hall

end Diskette.Session
