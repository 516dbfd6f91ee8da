import PhpWasm.Base.Run
import PhpWasm.Base.FdTable
import PhpWasm.Base.Heap
import PhpWasm.Base.Ledger
import PhpWasm.Base.Pipe
import PhpWasm.Base.Slots
import PhpWasm.Base.Assignments
import PhpWasm.Base.Json
import PhpWasm.Base.JsValue
import PhpWasm.Base.Lines
import PhpWasm.Base.LittleEndian
import PhpWasm.Base.Emitter
import PhpWasm.Base.Scan
import PhpWasm.Base.CommandLine
import PhpWasm.Base.KeepLast
import PhpWasm.Base.VersionOrder
import PhpWasm.Base.LazySearch
import PhpWasm.Base.Capture
import PhpWasm.Base.Segments
import PhpWasm.Base.Utf16
import PhpWasm.Base.JsNumber
import PhpWasm.Base.NumberText
import PhpWasm.Base.Matcher
import PhpWasm.Base.Polling
import PhpWasm.Base.Making
import PhpWasm.Base.Extent
import PhpWasm.Base.Probing
import PhpWasm.Base.Distribution
import PhpWasm.Sapi.Context
import PhpWasm.Sapi.Request
import PhpWasm.Sapi.Lifetime
import PhpWasm.Sapi.Variables
import PhpWasm.Sapi.Headers
import PhpWasm.Sapi.PostBody
import PhpWasm.Sapi.Output
import PhpWasm.Sapi.PostMessage
import PhpWasm.Sapi.IniPath
import PhpWasm.Sapi.RequestSteps
import PhpWasm.Sapi.MemoryStorage
import PhpWasm.Popen.Handles
import PhpWasm.Popen.Exec
import PhpWasm.Popen.PopenForWriting
import PhpWasm.Popen.ProcessTable
import PhpWasm.Process.ExitCode
import PhpWasm.Process.OutputPipes
import PhpWasm.Process.StdinInvariant
import PhpWasm.Process.StdinServes
import PhpWasm.Process.ProcOpen
import PhpWasm.Process.ProcOpenDescriptors
import PhpWasm.Process.ProcOpenMemory
import PhpWasm.Process.Environment
import PhpWasm.Process.FdRead
import PhpWasm.Process.PipeReads
import PhpWasm.Socket.Poll
import PhpWasm.Socket.Peek
import PhpWasm.Socket.BlockingReads
import PhpWasm.Socket.Connect
import PhpWasm.Socket.Options
import PhpWasm.Socket.SockOpt
import PhpWasm.Socket.PollResumes
import PhpWasm.Socket.Select
import PhpWasm.Socket.WrapPoll
import PhpWasm.Build.PackageVersion
import PhpWasm.Build.Publishing
import PhpWasm.Build.Review
import PhpWasm.Build.Bundles
import PhpWasm.Build.Vendored
import PhpWasm.Build.RunCommand
import PhpWasm.Build.EmccWrapper
import PhpWasm.Build.LibVersions
import PhpWasm.Build.PhpVersions
import PhpWasm.Build.PhpReleases
import PhpWasm.Build.ExtensionTags
import PhpWasm.Build.LatestVersion
import PhpWasm.Build.SourceTemplates
import PhpWasm.Build.FetchText
import PhpWasm.Build.BuildHash
import PhpWasm.Build.BuildArgs
import PhpWasm.Build.StripAliases
import PhpWasm.Build.StripAliasesPieces
import PhpWasm.Build.StripAliasesText
import PhpWasm.Build.StripAliasesLoop
import PhpWasm.Build.StripAliasesFits
import PhpWasm.Build.StripAliasesRight
import PhpWasm.Build.LibTargets
import PhpWasm.Dba.Requests
import PhpWasm.Dba.CdbMake
import PhpWasm.Dba.CdbFind
import PhpWasm.Dba.DbaCdb
import PhpWasm.Dba.Flatfile
import PhpWasm.Dba.FlatfileRight
