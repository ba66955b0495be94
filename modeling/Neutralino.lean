import Neutralino.Library.Lexical
import Neutralino.Library.FilePath
import Neutralino.Library.Links
import Neutralino.Library.Regex
import Neutralino.Library.Replace
import Neutralino.Library.Runs
import Neutralino.Library.Calls
import Neutralino.Library.Shell
import Neutralino.Library.Paths
import Neutralino.Library.Utf8
import Neutralino.Library.Quoted
import Neutralino.Library.JsonText
import Neutralino.Library.EmbeddedJson
import Neutralino.Base.Json
import Neutralino.Base.Helpers
import Neutralino.Base.Numbers
import Neutralino.Base.Errors
import Neutralino.Base.Settings
import Neutralino.Base.Pointer
import Neutralino.Config.CommandLine
import Neutralino.Config.Overrides
import Neutralino.Config.Effective
import Neutralino.Config.AddedArgument
import Neutralino.Config.Shadowing
import Neutralino.Config.GlobalVars
import Neutralino.Api.PathConstants
import Neutralino.Auth.Permission
import Neutralino.Auth.Registration
import Neutralino.Auth.ScopePath
import Neutralino.Auth.LinkedPath
import Neutralino.Auth.MethodLists
import Neutralino.Auth.ScopeModes
import Neutralino.Auth.CommandShell
import Neutralino.Api.OpenedFiles
import Neutralino.Api.SpawnedProcesses
import Neutralino.Api.FileReader
import Neutralino.Resources.FileTree
import Neutralino.Resources.Backends
import Neutralino.Resources.Bundle
import Neutralino.Resources.HeaderBytes
import Neutralino.Resources.PathLookup
import Neutralino.Server.NativeCall
import Neutralino.Server.Mounts
import Neutralino.Server.Assets
import Neutralino.Server.Lookups
import Neutralino.Server.StartPage
import Neutralino.Server.RequestPath
import Neutralino.Server.MountRouting
import Neutralino.Server.RangeHeader
import Neutralino.Server.TokenDisclosure
import Neutralino.Api.Platform
import Neutralino.Api.FileSystem
import Neutralino.Api.UsedPath
import Neutralino.Api.Ungated
import Neutralino.Api.Watchers
import Neutralino.Api.Storage
import Neutralino.Server.Confinement
import Neutralino.Server.Connections
import Neutralino.Server.Handshake
import Neutralino.Server.ExtensionStart
import Neutralino.Server.Broadcast
import Neutralino.Server.Serializer
import Neutralino.Api.StreamedText
import Neutralino.Api.Inputs
import Neutralino.Api.Followed
import Neutralino.Server.FieldReads
import Neutralino.Server.Mediation
import Neutralino.Server.MountRegistry
import Neutralino.Config.DevTools
import Neutralino.Server.PortAgreement
import Neutralino.Api.TrayMenu
import Neutralino.Server.IdleExit
import Neutralino.Server.FrameTypes
import Neutralino.Library.Words
import Neutralino.Auth.CommandWords
import Neutralino.Library.Glob
import Neutralino.Auth.MethodWildcards
import Neutralino.Library.RegexText
import Neutralino.Auth.CommandPatterns
import Neutralino.Server.RangeResponse
import Neutralino.Server.ScriptHeaders
import Neutralino.Server.Completion
import Neutralino.Server.SpaFallback
import Neutralino.Resources.LargeArchives
import Neutralino.Resources.ShortReads
import Neutralino.Resources.Listing
import Neutralino.Api.FileWrites
import Neutralino.Resources.Extraction
import Neutralino.Api.ReadTermination
import Neutralino.Api.OpenedReading
import Neutralino.Api.OpenedFileInfo
import Neutralino.Config.AppId
import Neutralino.Config.KeyValue
import Neutralino.Api.NetworkInterfaces
import Neutralino.Api.WindowState
import Neutralino.Config.IntegerFlags
import Neutralino.Library.ShellExpansion
import Neutralino.Library.ShellProgram
import Neutralino.Api.OpenUrl
import Neutralino.Library.Substitution
import Neutralino.Api.PathSubstitution
import Neutralino.Library.Literals
import Neutralino.Library.Declarations
import Neutralino.Config.BuiltinVars
import Neutralino.Config.Schema
import Neutralino.Server.TypedPort
import Neutralino.Server.Startup
import Neutralino.Server.TypedStart
import Neutralino.Server.PortReaders
import Neutralino.Auth.ScopeComponents
import Neutralino.Library.LiteralPass
import Neutralino.Base.ErrorMessages
import Neutralino.Base.Splitting
import Neutralino.Server.PercentDecoding
import Neutralino.Base.Base64
import Neutralino.Api.Clipboard
import Neutralino.Library.JsonNumeral
import Neutralino.Library.ByteReaders
import Neutralino.Server.Lexer
import Neutralino.Server.Tokens
import Neutralino.Server.Parser
import Neutralino.Server.JsonRoundTrip
import Neutralino.Server.Messages
import Neutralino.Resources.ArchiveHeader
import Neutralino.Library.Utf8Prefix
import Neutralino.Library.WebSocketFrames
import Neutralino.Server.FrameReader
import Neutralino.Server.FrameReading
import Neutralino.Server.OutgoingFrames
import Neutralino.Server.Session
import Neutralino.Server.Wire
import Neutralino.Api.StreamedBytes
