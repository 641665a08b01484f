import Diskette.Gcr.Track
import Diskette.Host

/-!
# Surveys of tracks

A survey finds the sectors of a track. It lists the places of the data fields and, in the order in
which they were met, the findings: address fields that cannot be read, and damage. What a damaged
track means is up to the policy.

* `report_bestEffort`: a best-effort report logs every finding and never fails.
* `survey_index_of_isEmpty`: without findings every sector was found.
-/

namespace Diskette.Gcr

/-- What damage to the structure of a track means. -/
inductive SyncPolicy where
  /-- Damage makes the image unreadable. -/
  | strict
  /-- Damage is logged, and the sectors that were found are used. -/
  | bestEffort
  deriving DecidableEq, Repr

/-- For each sector of a track the place of its data field, if it was found. -/
abbrev SectorIndex := Vector (Option Nat) 16

/-- What a survey met on a track, apart from good sectors. -/
inductive Finding where
  /-- The address field at `start` cannot be read. -/
  | unreadable (start : Nat) (cause : DiskError)
  | damage (damage : TrackDamage)
  deriving DecidableEq, Repr

/-- What is known about a track. -/
structure Survey where
  index : SectorIndex
  /-- The findings, the first one first. -/
  findings : Array Finding

namespace Survey

/-- How far behind an address field its data field may start. -/
abbrev dataWindow : Nat := 64

/-- The place of the first data prologue that starts less than `dataWindow` bytes after `place`. -/
def dataPrologue? (track : ByteArray) (place : Nat) : Option Nat :=
  ((List.range dataWindow).map (place + ·)).find? (Track.occursAt track · dataPrologue)

/-- Reads the address field whose prologue starts at `start` on track `number`: a sector and the
place of its data field, or what is wrong. -/
def examine (number : Nat) (track : ByteArray) (start : Nat) : Except Finding (Fin 16 × Nat) :=
  match AddressField.decode (Track.field 8 track (start + 3)) with
  | .error cause => .error (.unreadable start cause)
  | .ok address =>
    if address.track.toNat ≠ number then .error (.damage (.foreignTrack start address.track))
    else if h : address.sector.toNat < 16 then
      match dataPrologue? track (start + 11) with
      | none => .error (.damage (.noDataField address.sector.toNat))
      | some place => .ok (⟨address.sector.toNat, h⟩, (place + 3) % track.size)
    else .error (.damage (.sectorTooLarge start address.sector))

/-- Adds what the address field at `start` says to a survey. The first one of a sector counts. -/
def step (number : Nat) (track : ByteArray) (survey : Survey) (start : Nat) : Survey :=
  match examine number track start with
  | .error finding => { survey with findings := survey.findings.push finding }
  | .ok (sector, place) =>
    match survey.index.get sector with
    | some _ =>
      { survey with findings := survey.findings.push (.damage (.duplicateSector sector start)) }
    | none => { survey with index := survey.index.set sector (some place) }

/-- The places at which an address field starts. -/
def addressStarts (track : ByteArray) : List Nat :=
  (List.range track.size).filter (Track.occursAt track · addressPrologue)

/-- The sectors that an index does not know. -/
def missing (index : SectorIndex) : List Nat :=
  (List.finRange 16).filterMap fun sector =>
    if (index.get sector).isNone then some sector.val else none

/-- The survey of track `number`. -/
def ofTrack (number : Nat) (track : ByteArray) : Survey :=
  let found := (addressStarts track).foldl (step number track) ⟨Vector.replicate 16 none, #[]⟩
  { found with
    findings := found.findings ++ ((missing found.index).map fun sector =>
      Finding.damage (.missingSector sector)).toArray }

/-- Logs findings on track `number`, up to the first damage that the policy does not allow. -/
def reportAll (policy : SyncPolicy) (number : Nat) : List Finding → Action Host Unit
  | [] => pure ()
  | .unreadable start cause :: rest => do
    modify (·.warn (.skippedAddress number start cause))
    reportAll policy number rest
  | .damage damage :: rest =>
    match policy with
    | .strict => throw (.format .nibble (.damagedTrack number damage))
    | .bestEffort => do
      modify (·.warn (.damagedTrack number damage))
      reportAll policy number rest

/-- Logs the findings of a survey of track `number` and returns the index. -/
def report (policy : SyncPolicy) (number : Nat) (survey : Survey) : Action Host SectorIndex := do
  reportAll policy number survey.findings.toList
  return survey.index

/-- The warning for a finding on track `number`. -/
def warningOf (number : Nat) : Finding → Warning
  | .unreadable start cause => .skippedAddress number start cause
  | .damage damage => .damagedTrack number damage

theorem run_reportAll_bestEffort (number : Nat) (findings : List Finding) (host : Host) :
    (reportAll .bestEffort number findings).run host =
      .ok () (host.warnAll (findings.map (warningOf number))) := by
  induction findings generalizing host with
  | nil => rfl
  | cons finding rest ih => cases finding <;> simp [reportAll, Host.warnAll, warningOf, ih]

theorem report_bestEffort (number : Nat) (survey : Survey) (host : Host) :
    (report .bestEffort number survey).run host =
      .ok survey.index (host.warnAll (survey.findings.toList.map (warningOf number))) := by
  rw [report, EStateM.run_bind, run_reportAll_bestEffort]
  rfl

theorem survey_index_of_isEmpty {number : Nat} {track : ByteArray}
    (h : (ofTrack number track).findings = #[]) (sector : Fin 16) :
    ((ofTrack number track).index.get sector).isSome := by
  have hm : missing (ofTrack number track).index = [] := by
    have := congrArg Array.toList h
    simp only [ofTrack] at this ⊢
    simp at this
    exact this.2
  cases hs : (ofTrack number track).index.get sector with
  | some _ => rfl
  | none =>
    have : sector.val ∈ missing (ofTrack number track).index := by
      simp only [missing, List.mem_filterMap]
      exact ⟨sector, List.mem_finRange _, by rw [hs]; rfl⟩
    simp [hm] at this

end Survey

end Diskette.Gcr
