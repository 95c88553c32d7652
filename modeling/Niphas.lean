import Niphas.Nix.NarArchive
import Niphas.Csi.Cache
import Niphas.Csi.ClosureView
import Niphas.Csi.ReadOnlyMounts
import Niphas.Lib.Triple
import Niphas.Lib.Worklist
import Niphas.Nix.Closure
import Niphas.Operator.Cluster
import Niphas.Operator.ChildHistory
import Niphas.Operator.Rollout
import Niphas.Operator.Watch
import Niphas.Operator.RolloutRuns
import Niphas.Operator.DualLeader
import Niphas.Operator.ReadyPods
import Niphas.Operator.StatusHistory
import Niphas.Csi.PublishSource
import Niphas.Eval.Allowlist
import Niphas.Eval.Evaluator
import Niphas.Lib.DirTree
import Niphas.Lib.Render
import Niphas.Nix.Fingerprint
import Niphas.Operator.CachedEval
import Niphas.Csi.ExtractTree
import Niphas.Csi.CacheWorld
import Niphas.Csi.Extraction
import Niphas.Csi.CacheRuns
import Niphas.Csi.CacheCalls
import Niphas.Csi.CacheIntegrity
import Niphas.Operator.Finalizers
import Niphas.Lib.Monitor
import Niphas.Operator.ReconcileNotes
import Niphas.Operator.Readiness
import Niphas.Operator.StatusTimes
import Niphas.Nix.CacheClient
import Niphas.Csi.Download
import Niphas.Eval.Evaluate
import Niphas.Csi.LockMap
import Niphas.Lib.Mutex
import Niphas.Csi.SingleDownload
import Niphas.Csi.ExtractAlone
import Niphas.Csi.FetchAlone
import Niphas.Csi.FailedPublish
import Niphas.Nix.Base32Inputs
import Niphas.Nix.ParserPanics
import Niphas.Csi.ClosurePaths
import Niphas.Lib.WorklistOrder
import Niphas.Nix.ClosureRuns
import Niphas.Lib.Grammar
import Niphas.Eval.Grammars
import Niphas.Eval.Pinning
import Niphas.Operator.InjectedSettings
import Niphas.Nix.NarinfoLookups
import Niphas.Durations
import Niphas.Nix.NarChecked
import Niphas.Nix.NarDepth
import Niphas.Csi.MountInfo
import Niphas.Operator.Election
import Niphas.Nix.ClosureSchedules
import Niphas.Lib.Account
import Niphas.Operator.ReconcileScript
import Niphas.Operator.Provenance
import Niphas.Operator.SerialRuns
import Niphas.Lib.Alone
import Niphas.Operator.Convergence
import Niphas.Operator.Webhook
import Niphas.Csi.CacheScript
import Niphas.Csi.CacheDurability
import Niphas.Csi.CacheTidiness
import Niphas.Lib.View
import Niphas.Operator.Fleet
