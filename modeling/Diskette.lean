import Diskette.Proofs.Arena.Linked
import Diskette.Proofs.Bitmap.Allocator
import Diskette.Proofs.Bitmap.Persistence
import Diskette.Proofs.Bitmap.Refused
import Diskette.Proofs.Cache.Agreement
import Diskette.Proofs.Cache.Checkouts
import Diskette.Proofs.Cache.Growth
import Diskette.Proofs.Cache.Refused
import Diskette.Proofs.Cache.Residency
import Diskette.Proofs.Cache.Transparent
import Diskette.Proofs.Device.Altered
import Diskette.Proofs.Device.InStep
import Diskette.Proofs.Device.ReadOnly
import Diskette.Proofs.Device.Recognized
import Diskette.Proofs.Fork.BlockZero
import Diskette.Proofs.Fork.Flat
import Diskette.Proofs.Fork.Footprint
import Diskette.Proofs.Fork.Interrupted
import Diskette.Proofs.Fork.Rollback
import Diskette.Proofs.Fork.RoundTrip
import Diskette.Proofs.Fork.Steps
import Diskette.Proofs.Gcr.DataField
import Diskette.Proofs.Gcr.Rotation
import Diskette.Proofs.Header.TwoImg
import Diskette.Proofs.Layout.Halves
import Diskette.Proofs.Layout.Sectors
import Diskette.Proofs.Layout.Separation
import Diskette.Proofs.Pool.Teardown
import Diskette.Proofs.Session.Creating
import Diskette.Proofs.Session.Orderly
