import Bulletin.Bench.Session
import Bulletin.Main
import Bulletin.Problem
import Bulletin.Proofs.ActiveAlerts
import Bulletin.Proofs.AlertHistories
import Bulletin.Proofs.ReadBack
import Bulletin.Proofs.ForwardAlerts
import Bulletin.Proofs.TriggerOutcomes
import Bulletin.Proofs.CacheHistory
import Bulletin.Proofs.RepositoriesAgree
import Bulletin.Proofs.StoredForms
import Bulletin.Proofs.ReportWrites
import Bulletin.Proofs.StandingResults
import Bulletin.Proofs.TickOutcomes
import Bulletin.Proofs.TicksInAnyOrder
import Bulletin.Proofs.TriggersSideBySide
import Bulletin.Proofs.Grouping
import Bulletin.Proofs.Schedules
import Bulletin.Proofs.RunsAmongWriters
import Bulletin.Proofs.DashboardLoads
import Bulletin.Proofs.CsvReading
import Bulletin.Proofs.CompoundQueries
import Bulletin.Proofs.FilterMeaning
import Bulletin.Proofs.WholeComparisons
import Bulletin.Proofs.SumOrders
import Bulletin.Proofs.SortedRows
import Bulletin.Proofs.ExecutionLives
import Bulletin.Proofs.AlertLives
import Bulletin.Proofs.LoneEvaluations
import Bulletin.Proofs.WorkbookReading
import Bulletin.Proofs.PlacesAmongWriters
import Bulletin.Proofs.FailingAlerts
import Bulletin.Proofs.ArtifactsInDirectories
import Bulletin.Proofs.WorkbookCharacters
import Bulletin.Proofs.DocumentLayout
import Bulletin.Proofs.Placeholders
import Bulletin.Proofs.LiteralReading
import Bulletin.Proofs.CleanedQueries
import Bulletin.Proofs.RequiredSettings
import Bulletin.Proofs.SourcesInTurn
import Bulletin.Proofs.StoredDefinitions
import Bulletin.Proofs.CalendarEnds
import Bulletin.Proofs.SavedEntities
import Bulletin.Proofs.IdentSpellings
import Bulletin.Proofs.BuiltCharts
import Bulletin.Proofs.DocumentPaths
