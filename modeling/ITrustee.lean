import ITrustee.Foundation.CInt
import ITrustee.Foundation.Bytes
import ITrustee.Foundation.Layout
import ITrustee.Foundation.Machine
import ITrustee.Foundation.Securec
import ITrustee.Teleport.Serialize
import ITrustee.Teleport.SerializeBounds
import ITrustee.Teleport.SerializeRoundTrip
import ITrustee.Foundation.Words
import ITrustee.Libteec.Operation
import ITrustee.Libteec.EncodeParam
import ITrustee.Foundation.BitSet
import ITrustee.Libteec.Bitmap
import ITrustee.Libteec.EncodeParamBounds
import ITrustee.Libteec.EncodeParamTypes
import ITrustee.Libteec.SharedMemory
import ITrustee.Libteec.SharedMemoryBitmap
import ITrustee.Libteec.SessionPool
import ITrustee.Foundation.CString
import ITrustee.Foundation.LexPath
import ITrustee.Teecd.FsPath
import ITrustee.Teecd.FsPathContainment
import ITrustee.Teecd.FsWorkAgent
import ITrustee.Teecd.OpenedFiles
import ITrustee.Foundation.RefCount
import ITrustee.Teleport.FdList
import ITrustee.Teleport.PkgHandlers
import ITrustee.Teleport.PkgLedger
import ITrustee.Teleport.PkgRefs
import ITrustee.Teleport.RecvBuffers
import ITrustee.Foundation.FlipRing
import ITrustee.Xtasklet.BlockingQueue
import ITrustee.Xtasklet.BlockingQueueBlocks
import ITrustee.Xtasklet.BlockingQueueFifo
import ITrustee.Libteec.SessionPoolAccounting
import ITrustee.Libteec.SessionPoolLifetime
import ITrustee.Libteec.ContextCalls
import ITrustee.Libteec.ContextRefs
import ITrustee.Libteec.SessionLists
import ITrustee.Libteec.StaleClose
import ITrustee.Libteec.SessionClosing
import ITrustee.Foundation.Descriptors
import ITrustee.Teleport.FileDescriptors
import ITrustee.Teleport.ProtectedDescriptors
import ITrustee.Teleport.PkgContent
import ITrustee.Foundation.Disk
import ITrustee.Tlogcat.FileNames
import ITrustee.Tlogcat.LogFiles
import ITrustee.Tlogcat.Compression
import ITrustee.Tlogcat.ArchiveRetention
import ITrustee.Tlogcat.LogRotation
import ITrustee.Xtasklet.BoundedWaiting
import ITrustee.Xtasklet.QueueCapacity
import ITrustee.Xtasklet.HostileMetadata
import ITrustee.Tlogcat.LogItems
import ITrustee.Foundation.Octal
import ITrustee.Tlogcat.TarZip
import ITrustee.Tlogcat.TarRoundTrip
import ITrustee.Teleport.IoRegions
import ITrustee.Xtasklet.TaskEcho
import ITrustee.Foundation.Labelled
import ITrustee.Libteec.SharedMemoryHandles
import ITrustee.Xtasklet.QueueStart
import ITrustee.Xtasklet.TaskletLifetime
import ITrustee.Libteec.DriverReply
import ITrustee.Libteec.EncodeParamParents
import ITrustee.Teecd.DeletePaths
import ITrustee.Teecd.UserSeparation
import ITrustee.Teleport.SerializeSize
import ITrustee.Teleport.Dispatch
import ITrustee.Teleport.PkgExpiry
import ITrustee.Teleport.RecvmsgOwnership
import ITrustee.Foundation.AddressRanges
import ITrustee.Foundation.CountedLoop
import ITrustee.Teleport.MsgHdr
import ITrustee.Teleport.MsgHdrBounds
import ITrustee.Teleport.MsgHdrRoundTrip
import ITrustee.Teleport.PkgCounts
import ITrustee.Teleport.RecvmsgRuns
import ITrustee.Foundation.Strtok
import ITrustee.Foundation.FileTree
import ITrustee.Teecd.StorageCeBuffer
import ITrustee.Teecd.UnlinkRecursive
import ITrustee.Foundation.FileStore
import ITrustee.Teecd.CopyFile
import ITrustee.Tlogcat.ArchiveFailures
import ITrustee.Tlogcat.ReadRetry
import ITrustee.Foundation.ReflectedWalk
import ITrustee.Foundation.Tokens
import ITrustee.TeeTeleport.ParseParam
import ITrustee.TeeTeleport.ParamTokens
import ITrustee.TeeTeleport.RunArguments
import ITrustee.TeeTeleport.ParamSplitting
import ITrustee.TeeTeleport.MakeArgs
import ITrustee.Foundation.Blocks
import ITrustee.TeeTeleport.Scp
import ITrustee.TeeTeleport.BlockTransfer
import ITrustee.Foundation.NulStrings
import ITrustee.TeeTeleport.ThirdLib
import ITrustee.Foundation.Strtol
import ITrustee.TeeTeleport.Identifiers
import ITrustee.TeeTeleport.RunRequest
import ITrustee.Foundation.DirectoryPaths
import ITrustee.Common.Dir
import ITrustee.Authentication.Passwd
import ITrustee.Authentication.PkgName
import ITrustee.Authentication.NativeCert
import ITrustee.Libteec.AppLoad
import ITrustee.Libteec.BitmapSets
import ITrustee.Foundation.LinkedRing
import ITrustee.Teecd.OpenedRing
import ITrustee.Common.ClientList
import ITrustee.Authentication.PasswdBounds
import ITrustee.Tlogcat.LogTable
import ITrustee.Xtasklet.CreationFailure
import ITrustee.Foundation.Holdings
import ITrustee.Foundation.RequestLoop
import ITrustee.Libteec.LoadSecFile
import ITrustee.Teecd.AgentThreads
import ITrustee.Teecd.LoginFiles
import ITrustee.Teecd.LoginMessages
import ITrustee.Teecd.LoginThreads
import ITrustee.Teecd.SecLoadAgent
import ITrustee.Teleport.ChildProxy
import ITrustee.Teleport.ChildProxyRuns
import ITrustee.Teleport.MessagePlaces
import ITrustee.Teleport.PosixForward
import ITrustee.Teleport.RemoteCalls
import ITrustee.Teleport.RemoteReplies
import ITrustee.Teleport.RemoteRuns
import ITrustee.Foundation.CriticalSection
import ITrustee.Xtasklet.TaskService
import ITrustee.Xtasklet.TaskServiceRuns
import ITrustee.Tlogcat.LogCollection
