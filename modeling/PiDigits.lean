import PiDigits.CommandLine
import PiDigits.Digit.Text
import PiDigits.Event.Text
import PiDigits.Machine.Scripted
import PiDigits.Main
import PiDigits.Settings.Text
import PiDigits.Proofs.PiSeries
import PiDigits.Proofs.RadixPass
import PiDigits.Proofs.CountedSums
import PiDigits.Proofs.CountedComparisons
import PiDigits.Proofs.CountedQuotients
import PiDigits.Proofs.MachineAgreement
import PiDigits.Proofs.ColumnSweep
import PiDigits.Proofs.Calls
import PiDigits.Proofs.ExactRun
import PiDigits.Proofs.ExactInvariants
import PiDigits.Proofs.SpigotRun
import PiDigits.Proofs.TrueDigits
import PiDigits.Proofs.DirectRun
import PiDigits.Proofs.MachineIndependence
import PiDigits.Proofs.SweepBounds
import PiDigits.Proofs.CarryRun
import PiDigits.Proofs.CarryPolicy
import PiDigits.Proofs.PolicySchedules
import PiDigits.Proofs.FaultlessRun
import PiDigits.Proofs.PrefixStability
import PiDigits.Proofs.StepOutcomes
import PiDigits.Proofs.RefusedCarries
import PiDigits.Proofs.StepsMade
import PiDigits.Proofs.KeptFaults
import PiDigits.Proofs.DigitLedger
import PiDigits.Proofs.SweepValue
import PiDigits.Proofs.Lifecycle
import PiDigits.Proofs.EndOfDigits
import PiDigits.Proofs.ColumnAllocation
import PiDigits.Proofs.DecimalPrecision
import PiDigits.Proofs.SelfExamination
import PiDigits.Proofs.CommonPrefixes
import PiDigits.Proofs.JsonReading
import PiDigits.Proofs.SettingsText
import PiDigits.Proofs.RunIdText
import PiDigits.Proofs.TimestampText
import PiDigits.Proofs.DigitCount
import PiDigits.Proofs.ExpansionText
import PiDigits.Proofs.PassedExamination
import PiDigits.Proofs.Demonstration
