import FactCore.VirtualPathEncoding
import FactCore.Scheduler.Layering
import FactCore.Scheduler.Workers
import FactCore.Scheduler.SkipDecision
import FactCore.Scheduler.FailurePropagation
import FactCore.Storage.AnalysisRoundTrip
import FactCore.Storage.ChunkRaces
import FactCore.Storage.SearchRight
import FactCore.Storage.SearchPages
import FactCore.CveLookup.Repository
import FactCore.WebInterface.FileTree
import FactCore.Compare.ComparePlugin
import FactCore.CveLookup.UpdateFailure
import FactCore.CveLookup.ImportYears
import FactCore.CveLookup.Escaping
import FactCore.CveLookup.LookUp
import FactCore.CveLookup.SuffixOrder
import FactCore.Scheduler.AnalysisRun
import FactCore.Storage.FirmwareRole
import FactCore.Storage.AddObjectErrors
import FactCore.Storage.LoadStore
import FactCore.Storage.RecursiveListing
import FactCore.Storage.TagCollection
import FactCore.Storage.FirmwareFiles
import FactCore.Storage.Comments
import FactCore.Storage.DeleteAgreement
import FactCore.Scheduler.FirmwareProgress
import FactCore.Scheduler.ConcurrentUpdates
import FactCore.Scheduler.EntryPoints
import FactCore.Scheduler.UpdateFixpoint
import FactCore.Scheduler.Outcomes
import FactCore.Scheduler.Comparison
import FactCore.Intercom.RequestResponse
import FactCore.Intercom.DeleteFile
import FactCore.Plugins.KeyParser
import FactCore.Plugins.DeviceTrees
import FactCore.Plugins.QemuExec
import FactCore.Plugins.MergeResults
import FactCore.Scheduler.MimeFilter
import FactCore.Plugins.LuacheckOutput
import FactCore.Plugins.InterestingUris
import FactCore.Plugins.InformationLeaks
import FactCore.Intercom.YaraSearch
import FactCore.Plugins.Rulebook
import FactCore.Plugins.FormatStrings
import FactCore.Plugins.YaraPluginBase
import FactCore.Plugins.YaraMetaData
import FactCore.Plugins.YaraResults
import FactCore.Statistic.AnalysisStats
import FactCore.Statistic.GeneralStats
import FactCore.Statistic.SummaryStats
import FactCore.Statistic.TimeStats
import FactCore.WebInterface.HexHighlighting
import FactCore.WebInterface.RegexQuoting
import FactCore.Scheduler.Pipeline
import FactCore.Scheduler.PipelineCoverage
import FactCore.Scheduler.PipelineParents
import FactCore.Scheduler.PipelineProgress
import FactCore.Scheduler.PipelineWays
import FactCore.Lib.ForEach
import FactCore.Storage.MigrationValues
import FactCore.Storage.Migration
import FactCore.Storage.Overviews
import FactCore.Storage.MissingAnalyses
import FactCore.Compare.StoredComparison
import FactCore.Storage.PathRoots
