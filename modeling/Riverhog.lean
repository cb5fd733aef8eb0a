import Riverhog.Recovery.RecoverPack
import Riverhog.Allowance.StoreRuns
import Riverhog.Allowance.KeyRuns
import Riverhog.Cache.Workers
import Riverhog.Cache.Reconciliation
import Riverhog.Upload.UploadAccounting
import Riverhog.Browse.Keyset
import Riverhog.Stores.MirrorRuns
import Riverhog.Manifest.CollectionPlan
import Riverhog.Archive.Commitment
import Riverhog.Stove0.EvaluationLineage
import Riverhog.Stove0.Cancellation
import Riverhog.Stove0.DecisionTrees
import Riverhog.Stove0.AdmissionWorkers
import Riverhog.Stove0.SettlementBinding
import Riverhog.Tags.Projection
import Riverhog.Retirement.Copies
import Riverhog.Retirement.TagMutations
import Riverhog.Provenance.Journal
import Riverhog.Publication.Attempts
import Riverhog.Deletion.Workers
import Riverhog.Retrieval.Servable
import Riverhog.Workflow.StagedSets
import Riverhog.Age.Decrypt
