import TemplateAxum.Aggregates
import TemplateAxum.Assembly
import TemplateAxum.CacheKeys
import TemplateAxum.Challenge
import TemplateAxum.CheckLayering
import TemplateAxum.Conditional
import TemplateAxum.CpuWindow
import TemplateAxum.Dsn
import TemplateAxum.FormUpdate
import TemplateAxum.HeroForm
import TemplateAxum.HeroPage
import TemplateAxum.HeroesV1
import TemplateAxum.History
import TemplateAxum.Invalidation
import TemplateAxum.Isolation
import TemplateAxum.JwksCache
import TemplateAxum.Lib.CommitGraph
import TemplateAxum.Lib.Fnmatch
import TemplateAxum.Lib.JsNumber
import TemplateAxum.Lib.Keeps
import TemplateAxum.Lib.Rely
import TemplateAxum.Lib.Walk
import TemplateAxum.LimiterRuns
import TemplateAxum.LinkedWrites
import TemplateAxum.Manifest
import TemplateAxum.ModerationFinish
import TemplateAxum.Pages
import TemplateAxum.Predict
import TemplateAxum.ReleaseTags
import TemplateAxum.ScanInvalidate
import TemplateAxum.SecurityTxt
import TemplateAxum.Served
import TemplateAxum.Siblings
import TemplateAxum.Staleness
import TemplateAxum.Stats
import TemplateAxum.SyncApply
import TemplateAxum.SyncManifest
import TemplateAxum.TextFilters
import TemplateAxum.TokenLinks
import TemplateAxum.Validity
import TemplateAxum.Versions
import TemplateAxum.WriteSim
import TemplateAxum.Enhancement
import TemplateAxum.Interchange
import TemplateAxum.Lib.Double
import TemplateAxum.PerfSummary
import TemplateAxum.SyncState
import TemplateAxum.SyncReport
