import UnitFiles.Editing
import UnitFiles.Encode
import UnitFiles.Loader
import UnitFiles.Records
import UnitFiles.Spec.Reader
import UnitFiles.Proofs.MergeOutcome
import UnitFiles.Proofs.NestedApplications
import UnitFiles.Proofs.OpenValues
import UnitFiles.Proofs.RecordRoundTrip
import UnitFiles.Proofs.Remerging
import UnitFiles.Proofs.Reordering
import UnitFiles.Proofs.Revalidation
import UnitFiles.Proofs.Rewriting
import UnitFiles.Proofs.StrictMode
import UnitFiles.Proofs.VariableOutcome
import UnitFiles.Proofs.VariableReach
import UnitFiles.Proofs.JsonText
import UnitFiles.Proofs.JsonTrees
import UnitFiles.Proofs.SpecText
import UnitFiles.Proofs.DeclaredOptions
import UnitFiles.Proofs.IntegerNotation
import UnitFiles.Proofs.AcceptedOptions
import UnitFiles.Proofs.DurationFractions
import UnitFiles.Proofs.SectionRecords
import UnitFiles.Proofs.SectionViews
import UnitFiles.Proofs.FlatRecords
import UnitFiles.Proofs.FlatSections
import UnitFiles.Proofs.ZeroValues
import UnitFiles.Proofs.FaultyLines
import UnitFiles.Proofs.Concatenation
import UnitFiles.Proofs.Replacement
import UnitFiles.Proofs.DropInSearch
import UnitFiles.Proofs.RepeatedOptions
import UnitFiles.Proofs.PreparedSections
import UnitFiles.Proofs.Interleaving
import UnitFiles.Proofs.KeyLines
import UnitFiles.Proofs.SharedNames
import UnitFiles.Proofs.SpecRegistry
