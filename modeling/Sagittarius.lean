import Sagittarius.BigEndian
import Sagittarius.Wire
import Sagittarius.Delimited
import Sagittarius.Name
import Sagittarius.NameRoundTrip
import Sagittarius.NameSkip
import Sagittarius.NameWalk
import Sagittarius.Message
import Sagittarius.TtlScan
import Sagittarius.RecordLayout
import Sagittarius.IpAddr
import Sagittarius.Numeral
import Sagittarius.IpText
import Sagittarius.Synth
import Sagittarius.SynthLayout
import Sagittarius.EdnsScan
import Sagittarius.ReverseName
import Sagittarius.ReverseQuery
import Sagittarius.SuffixProbe
import Sagittarius.LongestSuffix
import Sagittarius.LastWrite
import Sagittarius.ForwardZones
import Sagittarius.ZoneMatch
import Sagittarius.DecisionStack
import Sagittarius.DnsCache
import Sagittarius.PatchFrame
import Sagittarius.PatchStructure
import Sagittarius.Transition
import Sagittarius.CacheService
import Sagittarius.SqlTable
import Sagittarius.Storage
import Sagittarius.ForwardService
import Sagittarius.ZoneFlush
import Sagittarius.AdminEdits
import Sagittarius.Settings
import Sagittarius.ConfigApply
import Sagittarius.Reconcile
import Sagittarius.ConfigMirror
import Sagittarius.SectionPasses
import Sagittarius.TornSections
import Sagittarius.ConfigTorn
import Sagittarius.ConfigSync
import Sagittarius.SnapshotOrder
import Sagittarius.BlocklistParse
import Sagittarius.Fields
import Sagittarius.BlocklistText
import Sagittarius.BlocklistRefresh
import Sagittarius.RefreshValidators
import Sagittarius.RefreshTrigger
import Sagittarius.Listener
import Sagittarius.ErrorReplies
import Sagittarius.Truncation
import Sagittarius.QuestionEcho
import Sagittarius.QueryParse
import Sagittarius.UdpReplies
import Sagittarius.SegmentedStream
import Sagittarius.Connection
import Sagittarius.StorePolicy
import Sagittarius.TtlBounds
import Sagittarius.Sessions
import Sagittarius.Headers
import Sagittarius.CsrfGuard
import Sagittarius.SessionLifetime
import Sagittarius.SessionIsolation
import Sagittarius.SettingsEdits
import Sagittarius.Unblock
import Sagittarius.RecordEdits
import Sagittarius.RecordLookup
import Sagittarius.KeepBest
import Sagittarius.ReverseIndex
import Sagittarius.UpstreamPool
import Sagittarius.WhileLoop
import Sagittarius.WeightedSelector
import Sagittarius.QueryLogWriter
import Sagittarius.KeysetPages
import Sagittarius.TopCounts
import Sagittarius.QueryLogStore
import Sagittarius.QueryLogPages
import Sagittarius.QueryLogPurge
import Sagittarius.Stats
import Sagittarius.TelemetrySink
import Sagittarius.ApiKeys
import Sagittarius.SetupWizard
import Sagittarius.ReverseResolver
import Sagittarius.ClientLabels
import Sagittarius.Engine
import Sagittarius.UpstreamEdits
import Sagittarius.Startup
import Sagittarius.SignIn
