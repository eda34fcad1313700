import HermesNode.Lib.Buffer
import HermesNode.Lib.Base64
import HermesNode.Lib.Occurrences
import HermesNode.Lib.Patch
import HermesNode.Lib.Check
import HermesNode.Lib.Segments
import HermesNode.Lib.Path
import HermesNode.Lib.Relative
import HermesNode.Lib.Climb
import HermesNode.Lib.Links
import HermesNode.Lib.Copies
import HermesNode.Lib.FileSys
import HermesNode.Lib.FileTree
import HermesNode.Lib.Gather
import HermesNode.Lib.Json
import HermesNode.Lib.JsSource
import HermesNode.Lib.Lists
import HermesNode.Lib.Machine
import HermesNode.Lib.Mailbox
import HermesNode.Lib.OrderedSet
import HermesNode.Lib.PosixPath
import HermesNode.Lib.UrlPath
import HermesNode.Lib.Replace
import HermesNode.Lib.Search
import HermesNode.Lib.Shell
import HermesNode.Lib.Text
import HermesNode.Lib.Unicode
import HermesNode.Lib.Uri
import HermesNode.Lib.Utf8
import HermesNode.Lib.Wander
import HermesNode.Lib.WorkList
import HermesNode.Resolve.PackageJson
import HermesNode.Resolve.Resolver
import HermesNode.Resolve.Refinement
import HermesNode.Resolve.Answers
import HermesNode.Resolve.Canonical
import HermesNode.Resolve.ScanAt
import HermesNode.Resolve.MainField
import HermesNode.Resolve.Search
import HermesNode.Bundle.Format
import HermesNode.Bundle.Reader
import HermesNode.Bundle.ReaderSpec
import HermesNode.Bundle.ReaderSafety
import HermesNode.Bundle.Writer
import HermesNode.Bundle.Contents
import HermesNode.Bundle.FileSource
import HermesNode.Bundle.Layout
import HermesNode.Bundle.RoundTrip
import HermesNode.Bundle.Oversize
import HermesNode.Bundle.Reproducible
import HermesNode.Bundle.RootPaths
import HermesNode.Build.Disk
import HermesNode.Build.AtomicWrite
import HermesNode.Build.Walk
import HermesNode.Build.Assemble
import HermesNode.Build.Emission
import HermesNode.Build.Closure
import HermesNode.Build.Artifact
import HermesNode.Build.Root
import HermesNode.Build.Backends
import HermesNode.Build.LinkedDisk
import HermesNode.Build.Readable
import HermesNode.Build.SidecarNames
import HermesNode.Build.Placement
import HermesNode.Build.RequireScanner
import HermesNode.Build.Routes
import HermesNode.Build.ScanComplete
import HermesNode.Loader.Callbacks
import HermesNode.Loader.Requests
import HermesNode.Loader.ClosedWorld
import HermesNode.Loader.Agreement
import HermesNode.Loader.Identities
import HermesNode.Build.Served
import HermesNode.Loader.Relocation
import HermesNode.Loader.BuildTree
import HermesNode.Loader.ModuleCache
import HermesNode.Loader.CacheInvariant
import HermesNode.Loader.Sidecars
import HermesNode.Loader.Suggestion
import HermesNode.Loader.SuggestionWorks
import HermesNode.CompileCache.Cache
import HermesNode.CompileCache.Readers
import HermesNode.CompileCache.Run
import HermesNode.CompileCache.Safety
import HermesNode.CompileCache.Transparency
import HermesNode.Http.Parser
import HermesNode.Http.ChunkLimit
import HermesNode.Http.Connections
import HermesNode.Http.Execute
import HermesNode.Http.Headers
import HermesNode.StringDecoder.Decoder
import HermesNode.StringDecoder.Cuts
import HermesNode.StringDecoder.Chunks
import HermesNode.StringDecoder.Slices
import HermesNode.EventLoop.Loop
import HermesNode.EventLoop.Effects
import HermesNode.EventLoop.Tasks
import HermesNode.EventLoop.Close
import HermesNode.Zlib.Stream
import HermesNode.Zlib.Lifecycle
import HermesNode.Contextify.Watchdog
import HermesNode.Contextify.Attribution
import HermesNode.VmOptions.Options
import HermesNode.VmOptions.Precedence
import HermesNode.VmOptions.Independence
import HermesNode.Url.Url
import HermesNode.Url.RoundTrip
import HermesNode.Url.Form
import HermesNode.Url.FileUrl
import HermesNode.Url.FileRoundTrip
import HermesNode.Url.Sync
import HermesNode.Bindings.ByteExtents
import HermesNode.Bindings.Crypto
import HermesNode.Bindings.HandleWrap
import HermesNode.Bootstrap.Loader
import HermesNode.Bootstrap.Fallback
import HermesNode.Bootstrap.History
import HermesNode.Bootstrap.Instances
import HermesNode.Streams.Writes
import HermesNode.Fs.Encodings
import HermesNode.Fs.Transfer
import HermesNode.Fs.Functions
import HermesNode.Fs.Requests
import HermesNode.Inspector.Bridge
import HermesNode.Inspector.BridgeLaws
import HermesNode.Process.Emitter
import HermesNode.Process.EmitterLaws
import HermesNode.Process.Exit
import HermesNode.Process.Uncaught
import HermesNode.Buffer.Base64
import HermesNode.Buffer.Search
import HermesNode.Buffer.SliceRange
import HermesNode.Buffer.Fill
import HermesNode.Encoding.EncodeInto
import HermesNode.Buffer.Codecs
import HermesNode.Buffer.UnitSearch
import HermesNode.Buffer.Lenient
import HermesNode.BuildExe.CommandLine
import HermesNode.Build.ThrowingStub
import HermesNode.BuildExe.Manifest
import HermesNode.BuildExe.LinkLine
import HermesNode.BuildExe.LinkCommand
import HermesNode.Dns.ChannelWrap
import HermesNode.Fs.Utf8FastPath
import HermesNode.Fs.Remove
import HermesNode.Bundle.Alignment
import HermesNode.Bindings.RandomInt
import HermesNode.Cli.InspectAddress
import HermesNode.Process.Environment
import HermesNode.Process.Dlopen
import HermesNode.CompileCache.Prune
import HermesNode.Fs.MkdirRecursive
import HermesNode.Bindings.Watcher
import HermesNode.Lib.Shuffle
import HermesNode.Cli.ParseLoop
import HermesNode.Cli.FlagOrder
import HermesNode.Cli.Main
import HermesNode.Bindings.SpawnSync
import HermesNode.Bindings.SpawnSyncLaws
import HermesNode.Bindings.SpawnSyncRun
import HermesNode.Lib.Crc
import HermesNode.CompileCache.Keys
import HermesNode.Build.RootLaws
import HermesNode.Url.EncodeStr
import HermesNode.Loader.SuggestionFails
import HermesNode.Fs.CpEnds
