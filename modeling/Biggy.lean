import Biggy.Run
import Biggy.Keyed
import Biggy.Outcome
import Biggy.Paired
import Biggy.Python
import Biggy.Metadata
import Biggy.Triggers
import Biggy.Workflow
import Biggy.Approvals
import Biggy.RecordService
import Biggy.ApprovalWrites
import Biggy.ApprovalSignoff
import Biggy.ApprovalRace
import Biggy.SlaClock
import Biggy.Sla
import Biggy.SlaOneClock
import Biggy.SlaDeadline
import Biggy.SlaEscalation
import Biggy.SlaIsolation
import Biggy.SlaHold
import Biggy.SlaRemoval
import Biggy.Csv
import Biggy.Coerce
import Biggy.Importer
import Biggy.ImportFrame
import Biggy.ImportStrict
import Biggy.Batch
import Biggy.Jobs
import Biggy.Feeds
import Biggy.FeedDelivery
import Biggy.FeedClaims
import Biggy.Paging
import Biggy.Pull
import Biggy.PullLoss
import Biggy.PeerPull
import Biggy.PeerComplete
import Biggy.RestPull
import Biggy.RestComplete
import Biggy.RowScope
import Biggy.Restore
import Biggy.Numeral
import Biggy.Dependency
import Biggy.FormRules
import Biggy.FormTrust
import Biggy.FormSave
import Biggy.Access
import Biggy.MailAccess
import Biggy.Transitions
import Biggy.Mutations
import Biggy.Outgoing
import Biggy.ApiWrites
import Biggy.Relations
import Biggy.Search
import Biggy.Topology
import Biggy.Listing
import Biggy.FieldLeaks
import Biggy.FormDesign
import Biggy.ConfigCheck
import Biggy.Studio
import Biggy.DraftVersions
import Biggy.PublishGate
import Biggy.Traced
import Biggy.Formula
import Biggy.FormulaCrash
import Biggy.Related
import Biggy.RelatedFresh
import Biggy.RelatedRun
import Biggy.Commits
import Biggy.Database
import Biggy.DatabaseFrame
import Biggy.Merge
import Biggy.MergeAtomic
import Biggy.MergeTrace
import Biggy.MergeRemoval
import Biggy.MergeSound
import Biggy.AuditReplay
import Biggy.AuditComplete
import Biggy.Utf16
import Biggy.FormScript
import Biggy.FormAgree
import Biggy.CsvWrite
import Biggy.ListExport
import Biggy.ExportImport
import Biggy.RateLimit
import Biggy.TwoFactor
import Biggy.Oidc
import Biggy.Ties
import Biggy.Pagination
import Biggy.Sequences
import Biggy.Handlers
import Biggy.TriggerChains
import Biggy.SchemaInference
import Biggy.TicketMail
import Biggy.ApiReadBack
import Biggy.SlaVerdict
import Biggy.Forest
import Biggy.CompanyTree
import Biggy.Menus
import Biggy.Rollups
import Biggy.Reach
import Biggy.TopologyReach
import Biggy.FormulaReads
import Biggy.FormulaFixpoint
import Biggy.RenamedRules
import Biggy.FieldRename
import Biggy.ImportUpsert
import Biggy.RulesReadBack
import Biggy.FormTemplates
import Biggy.TemplateCapture
import Biggy.TemplateItems
import Biggy.TemplateMapping
import Biggy.TemplateTrip
import Biggy.Integrity
import Biggy.DesignerDeletes
import Biggy.DesignerIntegrity
import Biggy.WorkflowChoices
import Biggy.ApproverInbox
import Biggy.RetryAfter
import Biggy.SafeNext
import Biggy.IdToken
import Biggy.Allotment
import Biggy.SchemaNames
import Biggy.Rounding
import Biggy.ValueRules
import Biggy.ApiImport
import Biggy.SoftDelete
import Biggy.Forecast
import Biggy.MergePreview
import Biggy.RedirectChecks
import Biggy.ScriptNumbers
import Biggy.RuleOrder
import Biggy.RawRules
import Biggy.RuleMapping
import Biggy.TemplateConditions
import Biggy.TemplateRules
import Biggy.SqlTokens
import Biggy.SqlConsole
import Biggy.FormComparison
import Biggy.JunctionNames
import Biggy.Inbound
import Biggy.InboundTwice
import Biggy.Loop
import Biggy.GraphLoop
import Biggy.FormCheck
import Biggy.SetupCheck
import Biggy.PyDict
import Biggy.Courses
import Biggy.SchemaImport
import Biggy.ImportClosed
import Biggy.ImportAtomic
import Biggy.Accounts
import Biggy.SessionEffects
import Biggy.SignIn
import Biggy.Bearer
import Biggy.Lockout
import Biggy.BackupTrip
import Biggy.Purge
import Biggy.Conversation
import Biggy.WorkNotes
import Biggy.CommentRights
import Biggy.Ddl
import Biggy.TableDesign
import Biggy.TablesMapped
import Biggy.TableChanges
import Biggy.TableRuns
import Biggy.Grouping
import Biggy.Reports
import Biggy.ReportViews
import Biggy.DashboardLeaks
import Biggy.ReportTotals
import Biggy.QueryString
import Biggy.SavedReports
import Biggy.Attachments
import Biggy.Previews
import Biggy.AttachmentFiles
