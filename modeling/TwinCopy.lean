import TwinCopy.Config.Document
import TwinCopy.Indicator.Script
import TwinCopy.Lock.Script
import TwinCopy.Proofs.AfterFault
import TwinCopy.Proofs.Combining
import TwinCopy.Proofs.Contention
import TwinCopy.Proofs.ExactGates
import TwinCopy.Proofs.Fieldwise
import TwinCopy.Proofs.Flags
import TwinCopy.Proofs.GateInvariant
import TwinCopy.Proofs.GateSimulation
import TwinCopy.Proofs.IndicatorScripts
import TwinCopy.Proofs.LockHolding
import TwinCopy.Proofs.LockstepSimulation
import TwinCopy.Proofs.LoggedGate
import TwinCopy.Proofs.ObservationalEq
import TwinCopy.Proofs.Order
import TwinCopy.Proofs.Patience
import TwinCopy.Proofs.Plain
import TwinCopy.Proofs.Quiescence
import TwinCopy.Proofs.ReadInvariant
import TwinCopy.Proofs.ReadNoninterference
import TwinCopy.Proofs.ReadTransparency
import TwinCopy.Proofs.Rebasing
import TwinCopy.Proofs.Recycling
import TwinCopy.Proofs.RoundLog
import TwinCopy.Proofs.ScriptSimulation
import TwinCopy.Proofs.Settings
import TwinCopy.Proofs.SingleWriter
import TwinCopy.Proofs.SlotRange
import TwinCopy.Proofs.Spreading
import TwinCopy.Proofs.Standby
import TwinCopy.Proofs.Steady
import TwinCopy.Proofs.Traffic
import TwinCopy.Proofs.TransparentGates
import TwinCopy.Proofs.Undisturbed
import TwinCopy.Proofs.Unhindered
import TwinCopy.Proofs.UnmatchedDepartures
import TwinCopy.Proofs.Versionless
import TwinCopy.Proofs.Waiting
import TwinCopy.Proofs.Withdrawal
import TwinCopy.Proofs.WorkloadReport
import TwinCopy.Proofs.WovenReads
import TwinCopy.Session.Script
import TwinCopy.Session.Setup
import TwinCopy.Slot.Script
import TwinCopy.Workload
