import Diskette.Host

/-!
# Media

What a host keeps its files on may fail. Whoever writes to a file through a descriptor may be
stopped after a part of the data, as when no room is left, and the host may refuse to give a file
its size, to tell it, to map a file, or to bring what was written to the medium. A `Medium` says
which of these happen. It is asked by what the engine does and is the same during one call; from
one call to the next it may be another one.

Nothing else can fail but for the reasons that the engine itself finds: bytes that a file has can be
read, and a mapping takes what is written to it. Where nothing is said of the medium, it is the one
that never fails.

* `Medium.reliable`: the medium that never fails.
* `Medium.Any`: every medium.
* `Medium.Untorn`: a medium on which a write that fails has changed nothing.
* `Medium.Steady`: one that besides does not fail in the middle of a run of writes.
* `Medium.Serves`: one that does all that is asked of it for a file.
-/

namespace Diskette

/-- What the host does for those who have a file open, besides reading and writing. -/
inductive Service where
  /-- Gives the file a size. -/
  | resize
  /-- Tells the size of the file. -/
  | inspect
  | map
  /-- Brings what was written to the medium. -/
  | sync
  deriving DecidableEq, Repr

/-- A write that the host stopped. -/
structure WriteFault where
  /-- How many bytes had been written. -/
  written : Nat
  message : String
  deriving DecidableEq, Repr

/-- What the host does when it is asked. -/
class Medium where
  /-- Why a write of `data` at `offset` is stopped, or `none` if all of it is written. -/
  write (host : Host) (file : String) (offset : Nat) (data : ByteArray) : Option WriteFault
  /-- Why a service is refused, or `none` if it is done. -/
  refuse (host : Host) (service : Service) (file : String) : Option String

namespace Medium

/-- The medium that never fails. -/
instance reliable : Medium where
  write _ _ _ _ := none
  refuse _ _ _ := none

/-- Asks the host for a service. -/
def serve [Medium] (host : Host) (service : Service) (file : String) : Except DiskError Unit :=
  match Medium.refuse host service file with
  | some message => .error (.file (.medium message))
  | none => .ok ()

@[simp] theorem write_reliable (host : Host) (file : String) (offset : Nat) (data : ByteArray) :
    Medium.write host file offset data = none := rfl

@[simp] theorem serve_reliable (host : Host) (service : Service) (file : String) :
    serve host service file = .ok () := rfl

/-- No more is asked of the medium. -/
def Any (_ : Medium) : Prop := True

/-- A write that fails has changed nothing. -/
def Untorn (medium : Medium) : Prop :=
  ∀ ⦃host file offset data fault⦄, medium.write host file offset data = some fault →
    fault.written = 0

/-- A write that fails has changed nothing, and none fails right after one that did not. -/
structure Steady (medium : Medium) : Prop where
  untorn : medium.Untorn
  next {host : Host} {file : String} {offset offset' : Nat} {data data' : ByteArray}
    (h : medium.write host file offset data = none) :
    medium.write (host.writeAt file offset data) file offset' data' = none

/-- All that is asked for the file of that name is done. -/
structure Serves (medium : Medium) (file : String) : Prop where
  write (host : Host) (offset : Nat) (data : ByteArray) : medium.write host file offset data = none
  refuse (host : Host) (service : Service) : medium.refuse host service file = none

theorem serves_reliable (file : String) : reliable.Serves file := ⟨fun _ _ _ => rfl, fun _ _ => rfl⟩

end Medium

end Diskette
