import EnvProxy.Library.Stream
import EnvProxy.Library.Utf8
import EnvProxy.Library.Text
import EnvProxy.Library.Machine
import EnvProxy.Proto.Wire
import EnvProxy.Proto.VaultRef
import EnvProxy.Agent.Backend
import EnvProxy.Agent.Server
import EnvProxy.Client.Environ
import EnvProxy.Client.Connection
import EnvProxy.Client.Getenv
import EnvProxy.System.EndToEnd
import EnvProxy.Client.Constructor
import EnvProxy.Client.Python
import EnvProxy.Client.Java
import EnvProxy.System.Clients
import EnvProxy.System.Lookups
import EnvProxy.System.Isolation
import EnvProxy.Agent.Vault
import EnvProxy.Agent.VaultTasks
import EnvProxy.Agent.VaultSoundness
import EnvProxy.Agent.VaultHits
import EnvProxy.Agent.VaultRotation
import EnvProxy.Agent.File
import EnvProxy.Agent.FileTasks
import EnvProxy.Agent.FileStartup
import EnvProxy.Agent.Kubernetes
import EnvProxy.Library.PrefixCode
import EnvProxy.Proto.Frames
import EnvProxy.Agent.VaultGrammar
import EnvProxy.Client.Readers
import EnvProxy.Agent.Requests
import EnvProxy.Client.Encoders
import EnvProxy.Agent.FileHistory
import EnvProxy.Agent.FileDeletion
import EnvProxy.Injector.Pod
import EnvProxy.Injector.Mutator
import EnvProxy.Cli.Run
import EnvProxy.System.Injection
import EnvProxy.Library.TomlString
import EnvProxy.Library.Toml
import EnvProxy.Library.TomlReader
import EnvProxy.Agent.Config
import EnvProxy.System.ConfigRoundTrip
import EnvProxy.Library.Overflow
import EnvProxy.Agent.Renewal
import EnvProxy.Agent.VaultStartup
import EnvProxy.Agent.VaultSnapshot
import EnvProxy.Agent.FileFreshness
import EnvProxy.Cli.Query
import EnvProxy.Client.PythonWrites
import EnvProxy.Client.PythonCache
import EnvProxy.Client.PythonThreads
import EnvProxy.Client.PythonMapping
import EnvProxy.Client.JavaLookups
import EnvProxy.Client.JavaClock
import EnvProxy.Client.Failures
import EnvProxy.Agent.RequestedKeys
import EnvProxy.System.Admission
import EnvProxy.Client.ExecChain
import EnvProxy.Cli.Init
import EnvProxy.Agent.Startup
import EnvProxy.System.Sidecar
import EnvProxy.Agent.Connections
import EnvProxy.Agent.Handling
import EnvProxy.Agent.Services
import EnvProxy.Agent.Provenance
import EnvProxy.Agent.VaultFreshness
import EnvProxy.System.Served
import EnvProxy.Client.JavaThreads
import EnvProxy.System.Jvm
import EnvProxy.System.JvmLookups
import EnvProxy.System.JvmRotation
import EnvProxy.Library.Copies
import EnvProxy.Cli.Installation
import EnvProxy.System.Processes
import EnvProxy.System.Deployment
import EnvProxy.Agent.Lifecycle
import EnvProxy.Client.PythonSite
import EnvProxy.System.LibraryLookups
import EnvProxy.Client.JavaMapping
import EnvProxy.Client.JavaAgent
import EnvProxy.System.Tool
import EnvProxy.System.PythonLookups
