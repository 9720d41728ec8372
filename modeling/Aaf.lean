import Aaf.Loop
import Aaf.F64
import Aaf.Text
import Aaf.Contracts
import Aaf.Intent
import Aaf.IntentHistory
import Aaf.Policy
import Aaf.Budget
import Aaf.Node
import Aaf.Graph
import Aaf.Approval
import Aaf.Executor
import Aaf.ExecutorRun
import Aaf.Effects
import Aaf.Rollback
import Aaf.StepOrder
import Aaf.TraceRecord
import Aaf.IntentIdentity
import Aaf.BudgetBoundary
import Aaf.GraphValidation
import Aaf.Saga
import Aaf.SagaRecovery
import Aaf.ApprovalPause
import Aaf.ApprovalRace
import Aaf.Agent
import Aaf.AgentLoop
import Aaf.Registry
import Aaf.ToolCalls
import Aaf.Spend
import Aaf.CircuitBreaker
import Aaf.BreakerRuns
import Aaf.BreakerSnapshots
import Aaf.Registration
import Aaf.ReputationRace
import Aaf.Dfs
import Aaf.Discovery
import Aaf.Composition
import Aaf.ExecutionPlan
import Aaf.Planner
import Aaf.PlannerRuns
import Aaf.PlannerSelection
import Aaf.DiscoveryOrder
import Aaf.Scope
import Aaf.ClassificationFlow
import Aaf.PolicyLadder
import Aaf.RegistrationRace
import Aaf.Trust
import Aaf.TrustResets
import Aaf.JsonText
import Aaf.Keystore
import Aaf.Identity
import Aaf.Revocation
import Aaf.Cosign
import Aaf.ArtifactSigning
import Aaf.Federation
import Aaf.TraceHistory
import Aaf.TraceRace
import Aaf.FastPathMiner
import Aaf.FastPathRules
import Aaf.FastPathEvaluation
import Aaf.OntologyHistory
import Aaf.OntologyRace
import Aaf.FieldRenaming
import Aaf.EntityIndex
import Aaf.EventRouting
import Aaf.CallBudget
import Aaf.ForkJoin
import Aaf.AgentTurns
import Aaf.Paths
import Aaf.Scheduler
import Aaf.CycleReport
import Aaf.BudgetHistory
import Aaf.SagaPreserve
import Aaf.DiscoveryTopK
import Aaf.DfsOrder
import Aaf.TopoSort
import Aaf.PlanKeys
import Aaf.PlanCacheHistory
import Aaf.CompositionVerdict
import Aaf.ReputationFaults
import Aaf.BreakerWindow
import Aaf.Version
import Aaf.CostAttribution
import Aaf.Checkpoints
import Aaf.Proposals
import Aaf.Regression
import Aaf.Replay
import Aaf.SbomExport
import Aaf.Isolation
import Aaf.Memory
import Aaf.MockChat
import Aaf.GraphChain
import Aaf.Server
import Aaf.SagaBridge
import Aaf.Wrapper
import Aaf.Anthropic
import Aaf.EventWait
import Aaf.Learning
import Aaf.Observability
import Aaf.Evaluation
import Aaf.Lifecycle
import Aaf.Lint
import Aaf.Relay
import Aaf.IdentityCli
import Aaf.OntologyImport
import Aaf.Enrichment
