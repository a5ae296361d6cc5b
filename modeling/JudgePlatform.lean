import JudgePlatform.Pool.LanguageBound
import JudgePlatform.Pool.GlobalCap
import JudgePlatform.Pool.Shutdown
import JudgePlatform.Judge.PathAgreement
import JudgePlatform.Library.Program
import JudgePlatform.Api.Finality
import JudgePlatform.Api.GraceTime
import JudgePlatform.Api.Challenges
import JudgePlatform.Api.SubmissionReads
import JudgePlatform.Api.RunProblem
import JudgePlatform.Api.HiddenReads
import JudgePlatform.Api.Rejudges
import JudgePlatform.Api.Scores
import JudgePlatform.Api.Quotas
import JudgePlatform.Api.Seats
import JudgePlatform.Library.Expansion
import JudgePlatform.Api.Allowance
import JudgePlatform.Api.Publishing
import JudgePlatform.Library.FileTree
import JudgePlatform.Judge.Workspace
import JudgePlatform.Judge.RawRuns
import JudgePlatform.Judge.StdinRunner
import JudgePlatform.Judge.Hygiene
import JudgePlatform.Library.LevelOrder
import JudgePlatform.Judge.TreeCodec
import JudgePlatform.Library.Bracketed
import JudgePlatform.Judge.TypeStrings
import JudgePlatform.Library.Matching
import JudgePlatform.Judge.ExactComparison
import JudgePlatform.Judge.ComparatorEquivalence
import JudgePlatform.Pool.Autoscaler
import JudgePlatform.Api.ArventiqVerdicts
import JudgePlatform.Api.Starts
import JudgePlatform.Library.Overwriting
import JudgePlatform.Api.Subscriptions
import JudgePlatform.Api.Backup
import JudgePlatform.Judge.SuccessMeaning
import JudgePlatform.Api.Redelivery
import JudgePlatform.Judge.Aggregation
import JudgePlatform.Judge.ResultRoundTrip
import JudgePlatform.Judge.RunnerCompleteness
import JudgePlatform.Judge.DataValidation
import JudgePlatform.Judge.TreeAnswers
import JudgePlatform.Judge.RustJson
import JudgePlatform.Judge.TreeOutputs
import JudgePlatform.Judge.Base64Inputs
import JudgePlatform.Library.Traversal
import JudgePlatform.Judge.GraphCodec
import JudgePlatform.Judge.GraphOutputs
import JudgePlatform.Judge.DeepCopy
import JudgePlatform.Judge.TypeGrammar
import JudgePlatform.Judge.CallGenerators
import JudgePlatform.Judge.GeneratedCalls
import JudgePlatform.Judge.StarterCode
import JudgePlatform.Library.StructFields
import JudgePlatform.Judge.TestDecoding
import JudgePlatform.Library.Lines
import JudgePlatform.Judge.JudgeLine
import JudgePlatform.Library.Replacing
import JudgePlatform.Judge.SubmittedCode
import JudgePlatform.Library.Searching
import JudgePlatform.Judge.DiscardDecision
import JudgePlatform.Judge.RunHandler
import JudgePlatform.Api.RunLabels
import JudgePlatform.Library.ExactIntegers
import JudgePlatform.Api.Expiry
import JudgePlatform.Api.ResultReads
import JudgePlatform.Api.CacheReads
import JudgePlatform.Pool.Convergence
import JudgePlatform.Judge.NumberNormalization
import JudgePlatform.Judge.FunctionNames
import JudgePlatform.Library.UnixPath
import JudgePlatform.Judge.SafeJoin
import JudgePlatform.Judge.Sweeper
import JudgePlatform.Api.BulkRegistration
import JudgePlatform.Library.Rounding
import JudgePlatform.Api.Analytics
import JudgePlatform.Library.DecodedValues
import JudgePlatform.Judge.RetryMessages
import JudgePlatform.Api.Consumer
import JudgePlatform.Api.Deliveries
import JudgePlatform.Library.Broker
import JudgePlatform.Library.Histories
import JudgePlatform.Api.DeliveryHistories
import JudgePlatform.Api.SubmissionQueue
import JudgePlatform.Api.PublishedMessages
import JudgePlatform.Library.Knowledge
import JudgePlatform.Api.Proctoring
import JudgePlatform.Api.AccessRules
import JudgePlatform.Api.AccessControl
import JudgePlatform.Api.AuditTrail
import JudgePlatform.Api.Sessions
import JudgePlatform.Api.RoleConfinement
import JudgePlatform.Api.ServiceAccount
import JudgePlatform.Library.JsonSchema
import JudgePlatform.Api.ProblemPayloads
import JudgePlatform.Api.ProblemStore
import JudgePlatform.Api.CheckedProblems
import JudgePlatform.Api.StoredProblems
