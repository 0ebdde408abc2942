import RuleAnalysis.Config.Resolution
import RuleAnalysis.Proofs.Analysis.Addresses
import RuleAnalysis.Proofs.Analysis.FileAddresses
import RuleAnalysis.Proofs.Analysis.Gathering
import RuleAnalysis.Proofs.Analysis.HostPlatform
import RuleAnalysis.Proofs.Analysis.Outputs
import RuleAnalysis.Proofs.Analysis.Scripts
import RuleAnalysis.Proofs.Config.Exclusion
import RuleAnalysis.Proofs.Depmap.Building
import RuleAnalysis.Proofs.Depmap.Globs
import RuleAnalysis.Proofs.Exec.Substitution
import RuleAnalysis.Proofs.Exec.Views
import RuleAnalysis.Proofs.Label.ActionAddress
import RuleAnalysis.Proofs.Label.Join
import RuleAnalysis.Proofs.Label.Navigation
import RuleAnalysis.Proofs.Label.Normalization
import RuleAnalysis.Proofs.Label.RelativePaths
import RuleAnalysis.Proofs.Label.RootSpelling
import RuleAnalysis.Proofs.Rule.Anchoring
import RuleAnalysis.Proofs.Rule.Defaults
import RuleAnalysis.Proofs.Rule.Invocations
import RuleAnalysis.Proofs.Rule.OneBatch
import RuleAnalysis.Proofs.Rule.ProviderTypes
import RuleAnalysis.Proofs.Rule.ResolvedValues
import RuleAnalysis.Proofs.Rule.Supply
import RuleAnalysis.Proofs.Schedule.Rejection
import RuleAnalysis.Proofs.Schedule.SideBySide
import RuleAnalysis.Proofs.Schedule.Tickets
import RuleAnalysis.Proofs.Schema.Instances
import RuleAnalysis.Proofs.Session.Calls
import RuleAnalysis.Proofs.Session.Lookup
import RuleAnalysis.Proofs.Value.Shapes
import RuleAnalysis.Proofs.Wire.DerivedIds
import RuleAnalysis.Proofs.Wire.GivenIds
import RuleAnalysis.Proofs.Wire.Identity
import RuleAnalysis.Proofs.Wire.Messages
import RuleAnalysis.Proofs.Workspace.Containment
import RuleAnalysis.Proofs.Workspace.SourceFiles
import RuleAnalysis.Recipe.Statement
import RuleAnalysis.Schedule.Plan
import RuleAnalysis.Session.Server
import RuleAnalysis.Value.Notation
