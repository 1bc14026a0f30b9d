import GuardedBoot.Boot.Trace
import GuardedBoot.Device.Memory
import GuardedBoot.Main
import GuardedBoot.Proofs.Boot.Capabilities
import GuardedBoot.Proofs.Boot.EarlyMatches
import GuardedBoot.Proofs.Boot.FailClosed
import GuardedBoot.Proofs.Boot.FinalState
import GuardedBoot.Proofs.Boot.InTurn
import GuardedBoot.Proofs.Boot.MemoryMap
import GuardedBoot.Proofs.Boot.Refusals
import GuardedBoot.Proofs.Boot.SameHardware
import GuardedBoot.Proofs.Boot.SlotsInForce
import GuardedBoot.Proofs.Boot.Transients
import GuardedBoot.Proofs.Boot.Unhalted
import GuardedBoot.Proofs.Boot.WatchedRange
import GuardedBoot.Proofs.Bus.Ensures
import GuardedBoot.Proofs.Bus.LastWrite
import GuardedBoot.Proofs.Device.Accesses
import GuardedBoot.Proofs.Device.Contents
import GuardedBoot.Proofs.Device.Formats
import GuardedBoot.Proofs.Device.Latches
import GuardedBoot.Proofs.Mpu.Decoding
import GuardedBoot.Proofs.Mpu.Precedence
import GuardedBoot.Proofs.Watch.AnyBus
import GuardedBoot.Proofs.Watch.Armed
import GuardedBoot.Proofs.Watch.Attribution
import GuardedBoot.Proofs.Watch.Capabilities
import GuardedBoot.Proofs.Watch.Enumeration
import GuardedBoot.Proofs.Watch.Matches
import GuardedBoot.Proofs.Watch.Policy
import GuardedBoot.Proofs.Watch.Sessions
import GuardedBoot.Proofs.Watch.Widths
import GuardedBoot.Proofs.Word.Domains
import GuardedBoot.Proofs.Word.Kinds
import GuardedBoot.Proofs.Word.Lenses
import GuardedBoot.Proofs.Word.Updates
