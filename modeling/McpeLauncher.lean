import McpeLauncher.IpcCompaction
import McpeLauncher.IpcSenders
import McpeLauncher.IpcAccept
import McpeLauncher.IpcFailedCall
import McpeLauncher.IpcRpcHandler
import McpeLauncher.FileEventFaults
import McpeLauncher.MultiFileProgress
import McpeLauncher.UploadBackoff
import McpeLauncher.UploadLists
import McpeLauncher.EventCompressor
import McpeLauncher.ConfigurationRetry
import McpeLauncher.BatchNames
import McpeLauncher.PropertyList
import McpeLauncher.EnvPathUtil
import McpeLauncher.PatternSearch
import McpeLauncher.CallPatch
import McpeLauncher.EventConservation
import McpeLauncher.FileConfigurationCache
import McpeLauncher.DaemonLauncher
import McpeLauncher.ModLoader
import McpeLauncher.JoystickManagers
import McpeLauncher.InputDelivery
import McpeLauncher.FakeLooper
import McpeLauncher.JniExceptions
import McpeLauncher.JniString
import McpeLauncher.FindClass
import McpeLauncher.GameControllers
import McpeLauncher.GameExit
import McpeLauncher.VirtualDispatch
import McpeLauncher.MethodHandles
import McpeLauncher.LocalRefs
import McpeLauncher.SubtypeTests
import McpeLauncher.NativeRegistration
import McpeLauncher.FakeJniArrays
import McpeLauncher.JniLocalFrames
import McpeLauncher.JniSignatureBounds
import McpeLauncher.JniTypeNames
import McpeLauncher.TouchPointers
import McpeLauncher.FakeAssetManager
import McpeLauncher.TextInputHandler
import McpeLauncher.XalWebViewQt
import McpeLauncher.HelperOutput
import McpeLauncher.ConstructorNames
import McpeLauncher.MappingTexts
import McpeLauncher.ModDependencies
import McpeLauncher.AxisRange
import McpeLauncher.RemovedWindows
import McpeLauncher.RandomUuid
import McpeLauncher.EcdsaPublicKey
import McpeLauncher.PathRewrite
import McpeLauncher.SemTimedwait
import McpeLauncher.PollViaSelect
import McpeLauncher.AddrInfo
import McpeLauncher.SyncObjects
import McpeLauncher.LibraryLifeCycle
