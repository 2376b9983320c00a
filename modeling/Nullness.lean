import Nullness.Assembly.Printer
import Nullness.Main
import Nullness.Proofs.FrameOrder
import Nullness.Proofs.Exchange
import Nullness.Proofs.Transport
import Nullness.Proofs.Step
import Nullness.Proofs.TableAccess
import Nullness.Proofs.Invariant
import Nullness.Proofs.Entry
import Nullness.Proofs.EntryLayout
import Nullness.Proofs.Handler
import Nullness.Proofs.Rank
import Nullness.Proofs.Worklist
import Nullness.Proofs.Fixpoint
import Nullness.Proofs.LeastSolution
import Nullness.Proofs.Paths
import Nullness.Proofs.Soundness
import Nullness.Proofs.Precision
import Nullness.Proofs.Progress
import Nullness.Proofs.Schedule
import Nullness.Proofs.Termination
import Nullness.Proofs.OrderOfVisits
import Nullness.Proofs.Acceptance
import Nullness.Proofs.Annotations
import Nullness.Proofs.Reachability
import Nullness.Proofs.ExceptionTable
import Nullness.Proofs.Bounds
import Nullness.Proofs.WellFormed
import Nullness.Proofs.Numerals
import Nullness.Proofs.Tokens
import Nullness.Proofs.Mnemonics
import Nullness.Proofs.Reading
import Nullness.Proofs.Spelling
import Nullness.Proofs.RoundTrip
import Nullness.Proofs.Drafts
import Nullness.Proofs.Assembled
import Nullness.Proofs.TransferRules
import Nullness.Proofs.AssembledAnalysis
import Nullness.Proofs.ConfigurationFile
import Nullness.Proofs.Crashes
import Nullness.Proofs.StackSlots
import Nullness.Proofs.DescriptorGrammar
import Nullness.Proofs.Distributive
import Nullness.Proofs.Receivers
import Nullness.Proofs.Continuation
import Nullness.Proofs.Concatenation
import Nullness.Proofs.ParseFailures
import Nullness.Proofs.LeastUpperBound
import Nullness.Proofs.LocalMemory
import Nullness.Proofs.Representation
import Nullness.Proofs.Layout
import Nullness.Proofs.SettingFlags
import Nullness.Proofs.Updates
