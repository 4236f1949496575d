-- SUMMARY: The command line tool: what `envproxy init` copies and writes.
import EnvProxy.Cli.Run

/-!
# `envproxy init`

The tool copies the runtime files of its image to a directory and writes the agent's
configuration there. A file is its contents; directories and permissions are calls that
can fail and change no contents. Paths are spellings of places: a file is one file under
all its paths.
-/

namespace EnvProxy.CommandLine

/-- The files by their places. -/
abbrev Files := Str → Option Bytes

/-- The calls of `std::fs` that write. -/
inductive Operation where
  | createDirAll (path : Str)
  | copy (src dest : Str)
  | setPermissions (path : Str) (mode : Nat)
  | write (path contents : Str)

def noSuchFile : Str := "No such file or directory (os error 2)".toList

structure DirEntry where
  fileName : Str
  isFile : Bool

/-- What the tool runs into besides its files. -/
structure Disk where
  /-- The place a path leads to, through dots, repeated separators and links. -/
  place : Str → Str
  /-- Why a call fails although its files are there. -/
  refuses : Operation → Option Str
  /-- The Python support directory, if it is a directory, as it is read. -/
  pythonDir : Option (Except Str (List (Except Str DirEntry)))

/-- The contents of the files by their paths. -/
def Disk.contents (disk : Disk) (files : Files) (path : Str) : Option Bytes := files (disk.place path)

/-- A copy of a file onto itself truncates it before it reads it. -/
def Operation.perform (disk : Disk) : Operation → Files → Except Str Files
  | .createDirAll _, files => .ok files
  | .copy src dest, files =>
    match files (disk.place src) with
    | some contents =>
      .ok (Function.update files (disk.place dest)
        (some (if disk.place src = disk.place dest then [] else contents)))
    | none => .error noSuchFile
  | .setPermissions _ _, files => .ok files
  | .write path contents, files =>
    .ok (Function.update files (disk.place path) (some (Utf8.encode contents)))

structure InitError where
  context : Option Str
  cause : Str

/-- One call, with the context of its error. -/
def attempt (disk : Disk) (context : Str) (op : Operation) : StateT Files (Except InitError) Unit :=
  fun files =>
    match disk.refuses op with
    | some cause => .error { context := some context, cause }
    | none =>
      match op.perform disk files with
      | .ok files' => .ok ((), files')
      | .error cause => .error { context := some context, cause }

section

variable (disk : Disk) (target : Str)

def copyTo (src dest : Str) : StateT Files (Except InitError) Unit :=
  attempt disk ("failed to copy ".toList ++ src ++ " → ".toList ++ dest) (.copy src dest)

/-- Create directory structure. -/
def createDirs : StateT Files (Except InitError) Unit :=
  ["lib".toList, "python".toList, "java".toList].forM fun dir =>
    attempt disk ("failed to create ".toList ++ target ++ '/' :: dir) (.createDirAll (join target dir))

/-- Source → destination mappings. -/
def copyFiles : StateT Files (Except InitError) Unit :=
  [("/usr/bin/envproxy".toList, "envproxy".toList),
    ("/usr/bin/envproxy-agent".toList, "envproxy-agent".toList),
    ("/usr/lib/envproxy/lib/libenvproxy.so".toList, "lib/libenvproxy.so".toList),
    ("/usr/lib/envproxy/java/envproxy-agent.jar".toList, "java/envproxy-agent.jar".toList)].forM
    fun (src, dst) => copyTo disk src (join target dst)

/-- Copy Python support directory (multiple files). -/
def copyPython : StateT Files (Except InitError) Unit :=
  match disk.pythonDir with
  | none => pure ()
  | some (.error cause) => throw { context := some "failed to read python dir".toList, cause }
  | some (.ok entries) => entries.forM fun
    | .error cause => throw { context := none, cause }
    | .ok entry =>
      if entry.isFile then
        copyTo disk (join "/usr/lib/envproxy/python".toList entry.fileName)
          (join (join target "python".toList) entry.fileName)
      else pure ()

/-- Set executable permissions. -/
def setExecutable : StateT Files (Except InitError) Unit :=
  ["envproxy".toList, "envproxy-agent".toList].forM fun name => do
    let files ← get
    if (disk.contents files (join target name)).isSome then
      attempt disk ("failed to chmod ".toList ++ join target name)
        (.setPermissions (join target name) 0o755)
    else pure ()

def cmdInit (configContent : Option Str) : StateT Files (Except InitError) Unit := do
  createDirs disk target
  copyFiles disk target
  copyPython disk target
  setExecutable disk target
  match configContent with
  | some content =>
    let configPath := join target "config.toml".toList
    attempt disk ("failed to write ".toList ++ configPath) (.write configPath content)
  | none => pure ()

end

/-- What the arguments of the tool make it leave, if they are those of `init`. -/
def inits (parse : List Str → Option Cli) (disk : Disk) (files : Files) (args : List Str) :
    Option (Except InitError Files) :=
  match parse args with
  | some { command := .init target writeConfig, .. } =>
    some (((cmdInit disk target writeConfig).run files).map Prod.snd)
  | _ => none

/-- What `init` relies on `clap` for: an option has the argument behind it as its value,
    unless that starts with a hyphen, or is empty where it is to be a path. -/
def InitOptions (parse : List Str → Option Cli) : Prop :=
  ∀ target content, target ≠ [] → target.head? ≠ some '-' → content.head? ≠ some '-' →
    parse ["init".toList, "--target".toList, target, "--write-config".toList, content] =
      some { socket := defaultSocketPath, command := .init target (some content) }

theorem attempt_write {disk : Disk} {context path contents : Str} {files files' : Files}
    (h : (attempt disk context (.write path contents)).run files = .ok ((), files')) :
    files' = Function.update files (disk.place path) (some (Utf8.encode contents)) := by
  change attempt disk context (.write path contents) files = .ok ((), files') at h
  unfold attempt at h
  split at h
  · cases h
  · cases h
    rfl

/-- What comes last in a run without an error has run without one. -/
theorem run_last {first last : StateT Files (Except InitError) Unit} {files : Files}
    {r : Unit × Files} (h : (first >>= fun _ => last).run files = .ok r) :
    ∃ files', last.run files' = .ok r := by
  rw [StateT.run_bind] at h
  cases hfirst : first.run files with
  | error e =>
    rw [hfirst] at h
    cases h
  | ok r' =>
    rw [hfirst] at h
    exact ⟨r'.2, h⟩

/-- The configuration is written last: a run without an error has it in its file. -/
theorem cmdInit_writes {disk : Disk} {target content : Str} {files files' : Files}
    (h : (cmdInit disk target (some content)).run files = .ok ((), files')) :
    disk.contents files' (join target "config.toml".toList) = some (Utf8.encode content) := by
  unfold cmdInit at h
  obtain ⟨_, h⟩ := run_last h
  obtain ⟨_, h⟩ := run_last h
  obtain ⟨_, h⟩ := run_last h
  obtain ⟨_, h⟩ := run_last h
  rw [attempt_write h]
  exact Function.update_self ..

theorem inits_writes {parse : List Str → Option Cli} (hparse : InitOptions parse) {disk : Disk}
    {files files' : Files} {target content : Str} (hpath : target ≠ [])
    (htarget : target.head? ≠ some '-') (hcontent : content.head? ≠ some '-')
    (h : inits parse disk files
      ["init".toList, "--target".toList, target, "--write-config".toList, content] =
        some (.ok files')) :
    disk.contents files' (join target "config.toml".toList) = some (Utf8.encode content) := by
  simp only [inits, hparse target content hpath htarget hcontent, Option.some.injEq] at h
  cases hrun : (cmdInit disk target (some content)).run files with
  | error e =>
    rw [hrun] at h
    cases h
  | ok r =>
    rw [hrun] at h
    cases h
    exact cmdInit_writes hrun

end EnvProxy.CommandLine
