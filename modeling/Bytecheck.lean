import Bytecheck.Main
import Bytecheck.Script
import Bytecheck.Proofs.Schedules
import Bytecheck.Proofs.Identity
import Bytecheck.Proofs.InternalFaults
import Bytecheck.Proofs.DeadCode
import Bytecheck.Proofs.CallReceivers
import Bytecheck.Proofs.Ceiling
import Bytecheck.Proofs.Staircase
import Bytecheck.Proofs.DescriptorText
import Bytecheck.Proofs.JoinLaws
import Bytecheck.Proofs.Labels
import Bytecheck.Proofs.Tiling
import Bytecheck.Proofs.Concatenation
import Bytecheck.Proofs.CodeFaults
import Bytecheck.Proofs.ExactGraphs
import Bytecheck.Proofs.Coverage
import Bytecheck.Proofs.StackWords
import Bytecheck.Proofs.Escapes
import Bytecheck.Proofs.FreshObjects
import Bytecheck.Proofs.ArgumentLayout
import Bytecheck.Proofs.Locality
import Bytecheck.Proofs.LocalAccess
import Bytecheck.Proofs.MergeLaws
import Bytecheck.Proofs.UpperBounds
import Bytecheck.Proofs.OperandOrder
import Bytecheck.Proofs.Truncation
import Bytecheck.Proofs.LineRuns
import Bytecheck.Proofs.SwitchKeys
import Bytecheck.Proofs.ConstantText
import Bytecheck.Proofs.SlotLists
import Bytecheck.Proofs.LocalWrites
import Bytecheck.Proofs.Histories
