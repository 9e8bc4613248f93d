import Memberwise.Codec.Custom
import Memberwise.Main
import Memberwise.Message.Debug
import Memberwise.Proofs.Accessor.Requests
import Memberwise.Proofs.Message.CutNumber
import Memberwise.Proofs.Message.Decode
import Memberwise.Proofs.Message.Probe
import Memberwise.Proofs.Message.Registration
import Memberwise.Value.Text
import Memberwise.Workbench
import Memberwise.Proofs.Accessor.BuildOnce
import Memberwise.Proofs.Accessor.Objection
import Memberwise.Proofs.Message.Admission
import Memberwise.Proofs.Accessor.Order
import Memberwise.Proofs.Accessor.Agreement
import Memberwise.Proofs.Message.Measure
import Memberwise.Proofs.Message.Report
import Memberwise.Proofs.Message.Refusal
import Memberwise.Proofs.Message.InPlace
import Memberwise.Proofs.Codec.Window
import Memberwise.Proofs.Message.Assignment
import Memberwise.Proofs.Message.Reproduce
import Memberwise.Proofs.Message.Locality
import Memberwise.Proofs.Accessor.Lockstep
import Memberwise.Proofs.Message.Settings
import Memberwise.Proofs.Codec.InUse
import Memberwise.Proofs.Accessor.Needs
import Memberwise.Proofs.Accessor.Registered
import Memberwise.Proofs.Message.Capability
import Memberwise.Proofs.Message.FirstUse
import Memberwise.Proofs.Codec.Canonical
import Memberwise.Proofs.Codec.FixedWidth
import Memberwise.Proofs.Codec.VariableLength
import Memberwise.Proofs.Codec.BoundedLength
import Memberwise.Proofs.Codec.Registering
import Memberwise.Proofs.Accessor.MemberTable
import Memberwise.Proofs.Value.ShortName
import Memberwise.Proofs.Message.Overrun
import Memberwise.Proofs.Message.Samples
