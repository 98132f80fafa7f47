import ObjectAudit.LogEvent
import ObjectAudit.Record.Reader
import ObjectAudit.Record.Writer
import ObjectAudit.Report.Console
import ObjectAudit.Report.Plain
import ObjectAudit.Report.Record
import ObjectAudit.Session
import ObjectAudit.Settings.Reader
import ObjectAudit.Snapshot.File
import ObjectAudit.Snapshot.Synthetic
import ObjectAudit.Proofs.Sorting
import ObjectAudit.Proofs.Tables
import ObjectAudit.Proofs.Requirements
import ObjectAudit.Proofs.ViolationOrder
import ObjectAudit.Proofs.GraphLookup
import ObjectAudit.Proofs.AnalysisShape
import ObjectAudit.Proofs.Completion
import ObjectAudit.Proofs.Outcomes
import ObjectAudit.Proofs.Totality
import ObjectAudit.Proofs.Accounting
import ObjectAudit.Proofs.RuleIndependence
import ObjectAudit.Proofs.SurveyAgreement
import ObjectAudit.Proofs.DeclarationOrder
import ObjectAudit.Proofs.Representatives
import ObjectAudit.Proofs.Affinity
import ObjectAudit.Proofs.ChainWalk
import ObjectAudit.Proofs.Responsibilities
import ObjectAudit.Proofs.SnapshotLayout
import ObjectAudit.Proofs.SnapshotGrammar
import ObjectAudit.Proofs.Outline
import ObjectAudit.Proofs.BodyPrivacy
import ObjectAudit.Proofs.Rearrangement
import ObjectAudit.Proofs.StatementOrder
import ObjectAudit.Proofs.Thresholds
import ObjectAudit.Proofs.Cancellation
import ObjectAudit.Proofs.Redeclaration
import ObjectAudit.Proofs.JsonRoundTrip
import ObjectAudit.Proofs.ReportEncoding
import ObjectAudit.Proofs.SyntheticRow
import ObjectAudit.Proofs.SyntheticAudit
import ObjectAudit.Proofs.Shortcuts
import ObjectAudit.Proofs.DistinctChains
import ObjectAudit.Proofs.OperationWalk
import ObjectAudit.Proofs.PlainLookups
import ObjectAudit.Proofs.WalkAgreement
import ObjectAudit.Proofs.TransactionVerdicts
import ObjectAudit.Proofs.OutsideNode
import ObjectAudit.Proofs.EntryIsolation
import ObjectAudit.Proofs.PathText
import ObjectAudit.Proofs.FaultPaths
import ObjectAudit.Proofs.ClassFlaws
import ObjectAudit.Proofs.ChainExtension
import ObjectAudit.Proofs.SettingsReading
import ObjectAudit.Proofs.SettingsGrammar
import ObjectAudit.Proofs.SettingsBlame
import ObjectAudit.Proofs.GlobMeaning
import ObjectAudit.Proofs.CallbackEffects
import ObjectAudit.Proofs.PlaceOrder
import ObjectAudit.Proofs.UnionFind
