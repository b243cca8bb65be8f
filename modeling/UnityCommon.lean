import UnityCommon.PPtr.Path
import UnityCommon.PPtr.PathShape
import UnityCommon.Lib.Loop
import UnityCommon.SerializedFile.Records
import UnityCommon.PPtr.Resolver
import UnityCommon.PPtr.Walk
import UnityCommon.PPtr.Scope
import UnityCommon.Lib.SelfCopy
import UnityCommon.Lz4.Decompress
import UnityCommon.Lz4.Block
import UnityCommon.Common.Stream
import UnityCommon.TypeTree.Validate
import UnityCommon.TypeTree.Value
import UnityCommon.TypeTree.Parse
import UnityCommon.TypeTree.ByteArrays
import UnityCommon.TypeTree.Grammar
import UnityCommon.TypeTree.Progress
import UnityCommon.Lib.Preorder
import UnityCommon.TypeTree.Coverage
import UnityCommon.Common.Words
import UnityCommon.Lib.Call
import UnityCommon.Lib.SortedAssoc
import UnityCommon.Registry.Key
import UnityCommon.Registry.Profile
import UnityCommon.Registry.Schema
import UnityCommon.Registry.Learn
import UnityCommon.Lib.Codec
import UnityCommon.Registry.Format
import UnityCommon.Registry.Serialize
import UnityCommon.Registry.Deserialize
import UnityCommon.Registry.Records
import UnityCommon.Registry.File
import UnityCommon.Registry.Runs
import UnityCommon.Registry.RoundTrip
import UnityCommon.Common.StreamSpan
import UnityCommon.SerializedFile.TypeTables
import UnityCommon.Bundle.Archive
import UnityCommon.Bundle.Layout
import UnityCommon.Bundle.Open
import UnityCommon.SerializedFile.MetadataReader
import UnityCommon.SerializedFile.Directory
import UnityCommon.SerializedFile.Tail
import UnityCommon.SerializedFile.Materialize
import UnityCommon.SerializedFile.ObjectTable
import UnityCommon.SerializedFile.Open
import UnityCommon.Lib.Metered
import UnityCommon.Lib.Tiling
import UnityCommon.SerializedFile.Format
import UnityCommon.SerializedFile.Spans
import UnityCommon.SerializedFile.Scan
import UnityCommon.SerializedFile.DirectoryScan
import UnityCommon.SerializedFile.TailScan
import UnityCommon.SerializedFile.PrefixScan
import UnityCommon.Lib.Needs
import UnityCommon.SerializedFile.TwoPass
import UnityCommon.SerializedFile.DirectoryOwner
import UnityCommon.SerializedFile.TailOwner
import UnityCommon.SerializedFile.Truncation
import UnityCommon.SerializedFile.ReferenceIndex
import UnityCommon.SerializedFile.ReferenceIndexOwner
import UnityCommon.SerializedFile.Stores
import UnityCommon.SerializedFile.WorkLaw
import UnityCommon.SerializedFile.Grammar
import UnityCommon.SerializedFile.Recognize
import UnityCommon.SerializedFile.Partition
import UnityCommon.Lib.CountingSort
import UnityCommon.Lib.Work
import UnityCommon.SerializedFile.Schema
import UnityCommon.SerializedFile.SchemaScan
import UnityCommon.SerializedFile.SchemaNames
import UnityCommon.SerializedFile.SchemaLaw
import UnityCommon.SerializedFile.SchemaTree
import UnityCommon.Lz4.Exact
import UnityCommon.Registry.Binding
import UnityCommon.Registry.Map
import UnityCommon.PPtr.Normalize
import UnityCommon.TypeTree.Decode
import UnityCommon.Common.StringBuilder
import UnityCommon.Common.StringBuilderRun
import UnityCommon.Lib.Breadth
import UnityCommon.Lib.ProbeTable
import UnityCommon.Lib.Triple
import UnityCommon.Common.PathDiscovery
import UnityCommon.Common.PathIndex
import UnityCommon.Common.PathTree
import UnityCommon.Common.PathSearch
import UnityCommon.Common.PathOutcome
import UnityCommon.Lib.Ledger
import UnityCommon.SerializedFile.SchemaContext
import UnityCommon.SerializedFile.ManagedProfile
import UnityCommon.SerializedFile.ManagedTypes
import UnityCommon.SerializedFile.ManagedValues
import UnityCommon.SerializedFile.NestedPeaks
import UnityCommon.SerializedFile.ManagedFrame
import UnityCommon.SerializedFile.ManagedHeap
import UnityCommon.Lib.Sweep
import UnityCommon.SerializedFile.ObjectRanges
import UnityCommon.SerializedFile.ReferenceQuery
import UnityCommon.Lib.Blocks
import UnityCommon.Lib.Sha256
import UnityCommon.Common.Sha256
import UnityCommon.Common.Sha256Block
import UnityCommon.Common.Sha256Stream
import UnityCommon.Common.AsciiGlob
import UnityCommon.Lib.GlobLanguage
import UnityCommon.Common.GlobGrammar
import UnityCommon.Common.GlobMatch
import UnityCommon.Lib.PrefixFree
import UnityCommon.Registry.Shape
import UnityCommon.TypeTree.Canonical
import UnityCommon.TypeTree.ValueIdentity
import UnityCommon.SerializedFile.ContextQuery
import UnityCommon.SerializedFile.RidResolution
import UnityCommon.SerializedFile.ClassSchema
import UnityCommon.Common.StreamExact
import UnityCommon.Player.BuildSettings
import UnityCommon.Player.BuildSettingsCodec
import UnityCommon.Player.BuildSettingsDecode
import UnityCommon.Lib.PrefixCode
import UnityCommon.Common.Utf8
import UnityCommon.Common.RelativePath
import UnityCommon.Lib.SortedMerge
import UnityCommon.Common.PathMerge
import UnityCommon.Lib.Attempts
import UnityCommon.Lib.Upsert
import UnityCommon.Common.PathIndexRuns
import UnityCommon.Lib.AlignedLayout
import UnityCommon.SerializedFile.StorageLayout
import UnityCommon.PPtr.Renumbering
import UnityCommon.PPtr.NodeSet
import UnityCommon.PPtr.ScopeEscape
import UnityCommon.Common.StreamLocal
import UnityCommon.TypeTree.ReadType
import UnityCommon.SerializedFile.RecordStream
import UnityCommon.SerializedFile.TypeAgreement
import UnityCommon.SerializedFile.TypeReaders
import UnityCommon.SerializedFile.OpenedFile
import UnityCommon.SerializedFile.ValuesProfile
import UnityCommon.SerializedFile.Values
import UnityCommon.SerializedFile.ValuesFormat
import UnityCommon.SerializedFile.ValuesGrammar
import UnityCommon.SerializedFile.ValuesPayload
import UnityCommon.SerializedFile.ValuesSchema
import UnityCommon.SerializedFile.ValuesExact
import UnityCommon.SerializedFile.ValuesSpans
import UnityCommon.TypeTree.Wire
import UnityCommon.TypeTree.WireParse
import UnityCommon.SerializedFile.TreeLoaders
import UnityCommon.TypeTree.Leaves
import UnityCommon.SerializedFile.ValuesAgree
import UnityCommon.Lib.Sampled
import UnityCommon.Lib.Collect
import UnityCommon.Common.FileSystem
import UnityCommon.Common.FileView
import UnityCommon.Common.QuietFile
import UnityCommon.Input.Probe
import UnityCommon.Input.VisitBundle
import UnityCommon.Input.Snapshot
import UnityCommon.Input.QuietInput
import UnityCommon.Input.Sessions
