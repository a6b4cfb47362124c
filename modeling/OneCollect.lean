import OneCollect.Callstack.FileCaches
import OneCollect.Callstack.MachineState
import OneCollect.Callstack.Partial
import OneCollect.Callstack.Records
import OneCollect.Dotnet.CallstackRequests
import OneCollect.Dotnet.CollectTracing
import OneCollect.Dotnet.EventFactory
import OneCollect.Dotnet.EventHandling
import OneCollect.Dotnet.FieldTurns
import OneCollect.Dotnet.Metadata
import OneCollect.Dotnet.Overrides
import OneCollect.Dotnet.ProviderRuns
import OneCollect.Dotnet.Providers
import OneCollect.Dotnet.RecordRuns
import OneCollect.Dotnet.RecordTypes
import OneCollect.Dotnet.Routing
import OneCollect.Dotnet.Trackers
import OneCollect.Etw.Registrations
import OneCollect.Etw.TdhPayload
import OneCollect.Event.Layout
import OneCollect.Event.TextFilters
import OneCollect.Event.TraceFormat
import OneCollect.Exporting.AttributeWalk
import OneCollect.Exporting.Attributes
import OneCollect.Exporting.CSwitches
import OneCollect.Exporting.Conserved
import OneCollect.Exporting.DynamicSymbols
import OneCollect.Exporting.EnvironmentMaps
import OneCollect.Exporting.FileSymbols
import OneCollect.Exporting.Formats
import OneCollect.Exporting.GraphTotals
import OneCollect.Exporting.KernelSymbols
import OneCollect.Exporting.LoadedModules
import OneCollect.Exporting.MappingIndex
import OneCollect.Exporting.Metrics
import OneCollect.Exporting.ModuleLookup
import OneCollect.Exporting.ModuleMetadata
import OneCollect.Exporting.NetTrace.Fields
import OneCollect.Exporting.NetTrace.Reader
import OneCollect.Exporting.NetTrace.Stream
import OneCollect.Exporting.NetTrace.SystemEvents
import OneCollect.Exporting.PageMap
import OneCollect.Exporting.PeFile
import OneCollect.Exporting.PerfMap
import OneCollect.Exporting.PerfViewFiles
import OneCollect.Exporting.R2RMap
import OneCollect.Exporting.RecordStore
import OneCollect.Exporting.Recording
import OneCollect.Exporting.RecordingLog
import OneCollect.Exporting.SymbolFiles
import OneCollect.Exporting.TimelineSpans
import OneCollect.Exporting.Windows
import OneCollect.Exporting.WindowsCpu
import OneCollect.Exporting.WindowsPids
import OneCollect.Exporting.WindowsWaits
import OneCollect.Interning.Slices
import OneCollect.Perf.Abi
import OneCollect.Perf.Environment
import OneCollect.Perf.Merge
import OneCollect.Perf.RingSession
import OneCollect.Perf.Sample
import OneCollect.Ruwind.CallChain
import OneCollect.Ruwind.CfaRule
import OneCollect.Ruwind.FdeSelection
import OneCollect.Ruwind.Progress
import OneCollect.Ruwind.RegisterRules
import OneCollect.Ruwind.StackSlots
import OneCollect.Theory.Place
