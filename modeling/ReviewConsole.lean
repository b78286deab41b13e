import ReviewConsole.PortPrograms
import ReviewConsole.GuardedRuns
import ReviewConsole.KeyedTables
import ReviewConsole.InterleavedPools
import ReviewConsole.DateTimes
import ReviewConsole.ReviewArtifacts
import ReviewConsole.MakerCheckerEngine
import ReviewConsole.PolicyDocuments
import ReviewConsole.CaseArtifacts
import ReviewConsole.DeadlineClocks
import ReviewConsole.BusinessDayCounts
import ReviewConsole.CaseAssessments
import ReviewConsole.LocalPorts
import ReviewConsole.ConsoleService
import ReviewConsole.CaseWorkflowService
import ReviewConsole.ConsoleRuns
import ReviewConsole.ShownThresholds
import ReviewConsole.FourEyesRuns
import ReviewConsole.SignOffCounts
import ReviewConsole.SignOffTrails
import ReviewConsole.AuditFaults
import ReviewConsole.ConcurrentDispositions
import ReviewConsole.CaseRuns
import ReviewConsole.CaseTrails
import ReviewConsole.ConcurrentTransitions
import ReviewConsole.TimerSchedules
import ReviewConsole.FinishedCases
import ReviewConsole.RoutedReviews
import ReviewConsole.CloudTaskTimers
import ReviewConsole.IapIdentities
import ReviewConsole.TimerCallbacks
import ReviewConsole.FirestoreReviews
import ReviewConsole.TenantViews
import ReviewConsole.RedactedTrails
import ReviewConsole.CaseFaults
import ReviewConsole.RelyGuarantee
import ReviewConsole.SourceKeyedStores
import ReviewConsole.ProducerIntake
import ReviewConsole.SignedCounts
import ReviewConsole.BusinessDayAlgebra
import ReviewConsole.ClockProgress
import ReviewConsole.ApprovalSequences
import ReviewConsole.DecisionRecords
import ReviewConsole.PaddedTexts
import ReviewConsole.IsoTexts
import ReviewConsole.QueueOrder
import ReviewConsole.ServiceIntake
import ReviewConsole.FrameAncestors
import ReviewConsole.RenameRules
import ReviewConsole.SimultaneousRename
import ReviewConsole.ApiRoutes
import ReviewConsole.ApiCalls
import ReviewConsole.ServerRuns
import ReviewConsole.ServerSignOffs
import ReviewConsole.ServerMakers
import ReviewConsole.ServiceAnswers
import ReviewConsole.ApiResponses
import ReviewConsole.ServerErrors
import ReviewConsole.RefusedRequests
import ReviewConsole.ServerReads
import ReviewConsole.ServerCases
import ReviewConsole.DelimitedFields
import ReviewConsole.Base64Texts
import ReviewConsole.DocumentPolicies
import ReviewConsole.PolicyReadings
import ReviewConsole.HydrationGate
import ReviewConsole.WalkedGraphs
import ReviewConsole.Ballots
import ReviewConsole.SignOffQuorums
import ReviewConsole.DeployedPostures
import ReviewConsole.LocalDeployments
import ReviewConsole.ServerWorkflows
import ReviewConsole.BranchedCells
import ReviewConsole.ConcurrentCalls
import ReviewConsole.ConcurrentSignOffs
import ReviewConsole.ConcurrentTenants
