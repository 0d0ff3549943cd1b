import AccessList.Published
import AccessList.RuleList.Reader
import AccessList.Proofs.RegionOrder
import AccessList.Proofs.Underlay
import AccessList.Proofs.Insertion
import AccessList.Proofs.Tiling
import AccessList.Proofs.TableLookup
import AccessList.Proofs.TopBits
import AccessList.Proofs.Compilation
import AccessList.Proofs.Boundaries
import AccessList.Proofs.CanonicalForm
import AccessList.Proofs.TableRegions
import AccessList.Proofs.GuardedInsertion
import AccessList.Proofs.GuardedTable
import AccessList.Proofs.NumeralText
import AccessList.Proofs.JoinedText
import AccessList.Proofs.AddressText
import AccessList.Proofs.RegionText
import AccessList.Proofs.Equivalence
import AccessList.Proofs.InsertionLaws
import AccessList.Proofs.RuleEdits
import AccessList.Proofs.BoundaryOrigin
import AccessList.Proofs.OppositeRules
import AccessList.Proofs.FamilyIndependence
import AccessList.Proofs.Fields
import AccessList.Proofs.LineCutting
import AccessList.Proofs.TargetText
import AccessList.Proofs.Utf8Text
import AccessList.Proofs.LineText
import AccessList.Proofs.RuleListText
import AccessList.Proofs.FirstFault
import AccessList.Proofs.RuleText
import AccessList.Proofs.Layout
import AccessList.Proofs.Concatenation
import AccessList.Proofs.BufferedReading
import AccessList.Proofs.Reports
import AccessList.Proofs.Publication
import AccessList.Proofs.Decisions
import AccessList.Proofs.RoundTrip
import AccessList.Proofs.KeptEntries
import AccessList.Proofs.Coverage
import AccessList.Proofs.StepReports
import AccessList.Proofs.CompilationRuns
import AccessList.Proofs.SingleRule
import AccessList.Proofs.LineSpacing
import AccessList.Proofs.BlockRanges
import AccessList.Proofs.StrictSpelling
import AccessList.Proofs.BareAddresses
import AccessList.Proofs.Zones
import AccessList.Proofs.BlockNesting
import AccessList.Proofs.FilledGaps
import AccessList.Proofs.Octets
import AccessList.Proofs.CanonicalText
import AccessList.Proofs.Neighbors
import AccessList.Proofs.SweepTurns
import AccessList.Proofs.WireOrder
