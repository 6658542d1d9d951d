import QuerySplit.Catalog.Document
import QuerySplit.Decimal.Reader
import QuerySplit.Dialect.Document
import QuerySplit.Pipeline.Standard
import QuerySplit.Proofs.Accounts
import QuerySplit.Proofs.BaseNames
import QuerySplit.Proofs.BindRuns
import QuerySplit.Proofs.BuiltInRules
import QuerySplit.Proofs.ChainGroups
import QuerySplit.Proofs.ChainOperands
import QuerySplit.Proofs.ChainReplacement
import QuerySplit.Proofs.ChainSelection
import QuerySplit.Proofs.ChangeReports
import QuerySplit.Proofs.Columns
import QuerySplit.Proofs.Conjunctions
import QuerySplit.Proofs.CountedColumns
import QuerySplit.Proofs.CountingOutcome
import QuerySplit.Proofs.Dimensions
import QuerySplit.Proofs.DisplayText
import QuerySplit.Proofs.Documents
import QuerySplit.Proofs.FederatedNames
import QuerySplit.Proofs.FilterGrouping
import QuerySplit.Proofs.GroupedCounts
import QuerySplit.Proofs.Isolation
import QuerySplit.Proofs.JoinReports
import QuerySplit.Proofs.JoinedRows
import QuerySplit.Proofs.JsonRecords
import QuerySplit.Proofs.JsonText
import QuerySplit.Proofs.JsonTokens
import QuerySplit.Proofs.LastConjunct
import QuerySplit.Proofs.LeftGrouping
import QuerySplit.Proofs.Meaning
import QuerySplit.Proofs.MembershipTests
import QuerySplit.Proofs.MetadataDocuments
import QuerySplit.Proofs.NativeDimensions
import QuerySplit.Proofs.Occurrences
import QuerySplit.Proofs.OptimizedDocuments
import QuerySplit.Proofs.OuterJoins
import QuerySplit.Proofs.Positions
import QuerySplit.Proofs.PrettyText
import QuerySplit.Proofs.PushableJoins
import QuerySplit.Proofs.PushedConjuncts
import QuerySplit.Proofs.QuotedLiterals
import QuerySplit.Proofs.Reach
import QuerySplit.Proofs.Recognition
import QuerySplit.Proofs.RecordSpellings
import QuerySplit.Proofs.ReferenceNames
import QuerySplit.Proofs.RereadDocuments
import QuerySplit.Proofs.RoutedColumns
import QuerySplit.Proofs.RoutedFederation
import QuerySplit.Proofs.RoutingOutcome
import QuerySplit.Proofs.RuleEffects
import QuerySplit.Proofs.RuleOrder
import QuerySplit.Proofs.Runs
import QuerySplit.Proofs.SecondRun
import QuerySplit.Proofs.SelfContained
import QuerySplit.Proofs.SettingsDocuments
import QuerySplit.Proofs.Spellings
import QuerySplit.Proofs.SplitSoundness
import QuerySplit.Proofs.Traversals
import QuerySplit.Proofs.Unqualified
import QuerySplit.Proofs.WrittenNames
import QuerySplit.Select.Build
import QuerySplit.Select.Display
import QuerySplit.Select.Visitor
import QuerySplit.Settings.Document
import QuerySplit.Split.Document
