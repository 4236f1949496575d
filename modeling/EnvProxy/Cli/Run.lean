-- SUMMARY: The command line tool: what `envproxy run` executes.
import EnvProxy.Proto.Wire
import EnvProxy.Library.Utf8
import Mathlib.Logic.Function.Basic

/-!
# `envproxy run`

The parser that `clap` derives is a parameter. The wait for the agent's socket delays
the execution by at most ten seconds and decides nothing else; it is left out.
-/

namespace EnvProxy.CommandLine

inductive Commands where
  | run (cmd : List Str)
  | get (key : Str)
  | status
  | init (target : Str) (writeConfig : Option Str)

structure Cli where
  socket : Str
  command : Commands

/-- What the process finds around it. -/
structure Host where
  env : Str → Option Bytes
  /-- The directory of the current executable. -/
  exeDir : Option Str
  fileExists : Str → Bool

/-- `std::env::var`: a variable that is Unicode. -/
def Host.var (host : Host) (name : Str) : Option Str := (host.env name).bind Utf8.decode?

/-- `Path::join` with a relative path. -/
def join (dir path : Str) : Str :=
  if dir.getLast?.all (· = '/') then dir ++ path else dir ++ '/' :: path

def libenvproxyNotFound : Str :=
  ("libenvproxy.so not found. Set ENVPROXY_LIB to its path, or build it with:\n" ++
    "cargo build --release -p libenvproxy").toList

/-- `find_libenvproxy`. -/
def findLibenvproxy (host : Host) : Except Str Str :=
  match host.var "ENVPROXY_LIB".toList with
  | some path => .ok path
  | none =>
    let candidates := match host.exeDir with
      | some dir => [join dir "libenvproxy.so".toList, join dir "../lib/libenvproxy.so".toList]
      | none => []
    let systemPaths := ["/usr/local/lib/libenvproxy.so".toList, "/usr/lib/libenvproxy.so".toList]
    match (candidates ++ systemPaths).find? host.fileExists with
    | some path => .ok path
    | none => .error libenvproxyNotFound

/-- The process image that replaces the tool: its argument vector and its environment. -/
structure Exec where
  argv : List Str
  env : Str → Option Bytes

def Exec.setEnv (command : Exec) (name value : Str) : Exec :=
  { command with env := Function.update command.env name (some (Utf8.encode value)) }

/-- `cmd_run` up to its `exec`. -/
def cmdRun (host : Host) (cmd : List Str) (socket : Str) : Except Str Exec :=
  match cmd with
  | [] => .error "no command specified".toList
  | program :: args =>
    match findLibenvproxy host with
    | .error e => .error e
    | .ok libPath =>
      let command : Exec := { argv := program :: args, env := host.env }
      let command := command.setEnv "LD_PRELOAD".toList libPath
      -- Only set ENVPROXY_SOCKET if not already in the environment.
      match host.var "ENVPROXY_SOCKET".toList with
      | some _ => .ok command
      | none => .ok (command.setEnv "ENVPROXY_SOCKET".toList socket)

/-- What the arguments of the tool make it execute, if they are those of `run`. -/
def runs (parse : List Str → Option Cli) (host : Host) (args : List Str) : Option (Except Str Exec) :=
  match parse args with
  | some { socket, command := .run cmd } => some (cmdRun host cmd socket)
  | _ => none

/-- What `run` relies on `clap` for: all that follows `--` is the command. -/
def Trailing (parse : List Str → Option Cli) : Prop :=
  ∀ cmd, cmd ≠ [] → parse ("run".toList :: "--".toList :: cmd) =
    some { socket := defaultSocketPath, command := .run cmd }

/-- Whatever it is executed with, the argument vector is the command. -/
theorem argv_of_cmdRun {host : Host} {cmd : List Str} {socket : Str} {command : Exec}
    (h : cmdRun host cmd socket = .ok command) : command.argv = cmd := by
  unfold cmdRun at h
  split at h
  · cases h
  · split at h
    · cases h
    · split at h
      · cases h
        rfl
      · cases h
        rfl

/-- With the library and the socket in the environment, the command is executed in it;
    `LD_PRELOAD` is added and nothing else. -/
theorem cmdRun_of_env {host : Host} {lib sock : Str} {cmd : List Str} (socket : Str)
    (hcmd : cmd ≠ []) (hlib : host.var "ENVPROXY_LIB".toList = some lib)
    (hsock : host.var "ENVPROXY_SOCKET".toList = some sock) :
    cmdRun host cmd socket =
      .ok { argv := cmd, env := Function.update host.env "LD_PRELOAD".toList (some (Utf8.encode lib)) } := by
  have hfind : findLibenvproxy host = .ok lib := by
    unfold findLibenvproxy
    rw [hlib]
  cases cmd with
  | nil => exact absurd rfl hcmd
  | cons program args => simp only [cmdRun, hfind, hsock, Exec.setEnv]

/-- `run` hands on the command it gets. -/
theorem runs_trailing {parse : List Str → Option Cli} (hparse : Trailing parse) (host : Host)
    {cmd : List Str} (hcmd : cmd ≠ []) :
    runs parse host ("run".toList :: "--".toList :: cmd) =
      some (cmdRun host cmd defaultSocketPath) := by
  simp only [runs, hparse cmd hcmd]

end EnvProxy.CommandLine
