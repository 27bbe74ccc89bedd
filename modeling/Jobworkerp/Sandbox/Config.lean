/-
Jobworkerp/Sandbox/Config.lean

The settings of a sandbox (`sandbox/config.rs`): how the settings of a worker are
validated, and how the arguments of a job are merged into them.

Environment variables are finite maps; the order of a map's entries stands for
the order in which the source iterates over its `HashMap`.  A canonical path is
the list of its components below the root.  `canonicalize`, the `Debug` text of a
string, and the question whether a timeout fits the monotonic clock are left to
`Host`.
-/
import Mathlib.Data.List.AList
import Mathlib.Data.Finset.Basic
import Jobworkerp.Sandbox.Network

namespace Jobworkerp.Sandbox

/-- Environment variables. -/
abbrev EnvMap := AList fun _ : String => String

/-- A canonical path: its components below the root. -/
abbrev HostPath := List String

structure Host (Rule : Type) where
  /-- `Path::canonicalize`; `none` when the path does not exist. -/
  canonicalize : String → Option HostPath
  /-- `Instant::now().checked_add(Duration::from_millis(ms)).is_some()`. -/
  clockFits : UInt64 → Bool
  /-- The `Debug` text of a string. -/
  debug : String → String
  sdk : NetworkSdk Rule

/-! ### The messages -/

structure SandboxBindMount where
  hostPath : String
  guestPath : String
  writable : Bool
  executable : Bool

structure SandboxAllowedHostMount where
  hostRoot : String
  allowWrite : Bool
  allowExec : Bool

structure SandboxVmConfig where
  image : Option String
  cpus : Option UInt32
  memoryMib : Option UInt32
  rootDiskMib : Option UInt32
  env : EnvMap
  workingDir : Option String
  mounts : List SandboxBindMount
  maxDurationSec : Option UInt64
  idleTimeoutSec : Option UInt64

structure SandboxRunnerSettings where
  vm : Option SandboxVmConfig
  network : Option SandboxNetworkConfig
  allowedImages : List String
  allowedHostMounts : List SandboxAllowedHostMount
  defaultExecTimeoutMs : Option UInt64

/-- `SandboxExecArgs`, without the command and its arguments. -/
structure SandboxExecArgs where
  workingDir : Option String
  env : EnvMap
  user : Option String
  timeoutMs : Option UInt64
  treatNonzeroAsError : Bool
  successExitCodes : List Int
  stdin : Option (List UInt8)
  tty : Option Bool
  vm : Option SandboxVmConfig
  network : Option SandboxNetworkConfig

/-! ### The resolved settings -/

structure ResolvedMount where
  hostPath : HostPath
  guestPath : String
  writable : Bool
  executable : Bool
  deriving DecidableEq

structure ResolvedSandboxVm where
  image : String
  cpus : UInt8
  memoryMib : UInt32
  rootDiskMib : UInt32
  env : EnvMap
  workingDir : Option String
  mounts : List ResolvedMount
  maxDurationSec : Option UInt64
  idleTimeoutSec : Option UInt64

structure ResolvedAllowedHostMount where
  hostRoot : HostPath
  allowWrite : Bool
  allowExec : Bool
  deriving DecidableEq

structure ValidatedSandboxSettings (Rule : Type) where
  vm : ResolvedSandboxVm
  network : Option (ValidatedNetworkConfig Rule)
  defaultExecTimeoutMs : Option UInt64
  allowedImages : Finset String
  allowedHostMounts : List ResolvedAllowedHostMount

structure ResolvedExecutionSettings (Rule : Type) where
  vm : ResolvedSandboxVm
  network : Option (ValidatedNetworkConfig Rule)
  execEnv : EnvMap
  execWorkingDir : Option String
  execUser : Option String
  execTimeoutMs : Option UInt64
  stdin : Option (List UInt8)
  tty : Bool
  treatNonzeroAsError : Bool
  successExitCodes : List Int

inductive SandboxMode
  | static_ | nonStatic
  deriving DecidableEq

/-! ### Paths and names -/

inductive Component
  | rootDir | curDir | parentDir
  | normal (part : List Char)
  deriving DecidableEq

def isAbsolute (path : List Char) : Bool := path.head? = some '/'

/-- `Path::components`: repeated separators and dots inside a path are passed
over. -/
def components (path : List Char) : List Component :=
  let parts := path.splitOn '/'
  let start :=
    if isAbsolute path then [.rootDir]
    else if parts.head? = some ['.'] then [.curDir] else []
  start ++ parts.filterMap fun
    | [] => none
    | ['.'] => none
    | ['.', '.'] => some .parentDir
    | part => some (.normal part)

/-- `PathBuf::push`, of a relative part. -/
def pushPart (path part : List Char) : List Char :=
  if path.getLast? = some '/' then path ++ part else path ++ '/' :: part

/-- The normal components pushed on a path, if there are no others. -/
def normalized : List Char → List Component → Option (List Char)
  | path, [] => some path
  | path, .rootDir :: rest => normalized path rest
  | path, .normal part :: rest => normalized (pushPart path part) rest
  | _, .curDir :: _ => none
  | _, .parentDir :: _ => none

def validateGuestPath (path field : String) : Except String Unit := do
  ensure (path ≠ "") (field ++ " must not be empty")
  ensure (isAbsolute path.toList = true) (field ++ " must be absolute")
  match normalized ['/'] (components path.toList) with
  | none => .error (field ++ " must be normalized and cannot contain dot components")
  | some text =>
    ensure (text = path.toList) (field ++ " must use its normalized absolute path")

def validateOciImage (image field : String) : Except String Unit := do
  ensure (image ≠ "") (field ++ " must not be empty")
  let text := image.toList
  ensure (text = Text.trim Workflow.isWhitespace text ∧ text.head? ≠ some '/' ∧
      ['.', '/'].isPrefixOf text = false ∧ ['.', '.', '/'].isPrefixOf text = false ∧
      '\x00' ∉ text ∧ text.any Workflow.isWhitespace = false)
    (field ++ " must be an OCI image reference, not a local path")

def requiredImage (image : Option String) (field : String) : Except String String :=
  match image with
  | none => .error (field ++ " is required")
  | some image => do
      validateOciImage image field
      return image

def requiredResource (value : Option UInt32) (field : String) : Except String UInt32 :=
  match value.filter (0 < ·) with
  | some value => .ok value
  | none => .error (field ++ " is required and must be positive")

def validateOptionalPositive (value : Option UInt64) (field : String) :
    Except String (Option UInt64) := do
  ensure (value.all (0 < ·)) (field ++ " must be positive when specified")
  return value

def validateVariable (field : String) (key value : String) : Except String Unit := do
  ensure (key ≠ "" ∧ '=' ∉ key.toList ∧ '\x00' ∉ key.toList)
    (field ++ " has an invalid environment variable name")
  ensure ('\x00' ∉ value.toList) (field ++ " values cannot contain NUL bytes")

def validateEnv (env : EnvMap) (field : String) : Except String Unit :=
  env.entries.forM fun entry => validateVariable field entry.1 entry.2

def resolveLifetimeOverride (workerLimit jobLimit : Option UInt64) (field : String) :
    Except String (Option UInt64) := do
  let _ ← validateOptionalPositive jobLimit field
  ensure (workerLimit.all fun limit => jobLimit.all (· ≤ limit))
    (field ++ " cannot exceed the worker limit")
  return jobLimit.or workerLimit

/-! ### Mounts -/

section Mounts

variable {Rule : Type} (host : Host Rule)

def validateAllowedHostMount (mount : SandboxAllowedHostMount) :
    Except String ResolvedAllowedHostMount := do
  ensure (isAbsolute mount.hostRoot.toList = true) "allowed host mount root must be absolute"
  match host.canonicalize mount.hostRoot with
  | none => .error ("allowed host mount root does not exist: " ++ mount.hostRoot)
  | some hostRoot => return ⟨hostRoot, mount.allowWrite, mount.allowExec⟩

/-- A root that grants the permissions of a mount. -/
def ResolvedAllowedHostMount.Grants (root : ResolvedAllowedHostMount) (writable executable : Bool) :
    Prop :=
  (writable = true → root.allowWrite = true) ∧ (executable = true → root.allowExec = true)
  deriving Decidable

def validateMount (allowed : List ResolvedAllowedHostMount) (field : String)
    (mount : SandboxBindMount) : Except String ResolvedMount := do
  validateGuestPath mount.guestPath (field ++ ".guest_path")
  ensure (isAbsolute mount.hostPath.toList = true) (field ++ ".host_path must be absolute")
  match host.canonicalize mount.hostPath with
  | none => .error (field ++ ".host_path does not exist: " ++ mount.hostPath)
  | some hostPath => do
      let matchingRoots := allowed.filter (·.hostRoot <+: hostPath)
      ensure (matchingRoots ≠ []) (field ++ ".host_path is outside allowed_host_mounts")
      ensure (∃ root ∈ matchingRoots, root.Grants mount.writable mount.executable)
        (field ++ " permissions exceed allowed_host_mounts")
      return ⟨hostPath, mount.guestPath, mount.writable, mount.executable⟩

def validateMounts (mounts : List SandboxBindMount) (allowed : List ResolvedAllowedHostMount)
    (field : String) : Except String (List ResolvedMount) :=
  mounts.mapM (validateMount host allowed field)

/-- The guest paths so far are `guests`. -/
def ensureUniqueGuestMounts (guests : List String) : List ResolvedMount → Except String Unit
  | [] => .ok ()
  | mount :: rest => do
      ensure (mount.guestPath ∉ guests) ("duplicate guest mount path: " ++ mount.guestPath)
      ensureUniqueGuestMounts (mount.guestPath :: guests) rest

end Mounts

/-! ### The worker -/

section Settings

variable {Rule : Type} (host : Host Rule)

def maxSdkCpus : UInt32 := 255

/-- A timeout, of the worker or of a job. -/
def validateTimeout (timeout : Option UInt64) (field : String) : Except String Unit :=
  match timeout with
  | none => .ok ()
  | some ms => do
      ensure (0 < ms) (field ++ " must be positive")
      ensure (host.clockFits ms = true)
        (field ++ " cannot be represented by the host monotonic clock")

def validateWorkingDir (workingDir : Option String) (field : String) : Except String Unit :=
  match workingDir with
  | none => .ok ()
  | some workingDir => validateGuestPath workingDir field

def validateNetwork (network : Option SandboxNetworkConfig) :
    Except String (Option (ValidatedNetworkConfig Rule)) :=
  match network with
  | none => .ok none
  | some network => validateNetworkConfig host.sdk network

def validateSettings (settings : SandboxRunnerSettings) :
    Except String (ValidatedSandboxSettings Rule) :=
  match settings.vm with
  | none => .error "SANDBOX settings require vm"
  | some vm => do
      let image ← requiredImage vm.image "worker vm.image"
      settings.allowedImages.forM fun image => validateOciImage image "allowed_images"
      let allowedImages := settings.allowedImages.toFinset
      ensure (allowedImages ≠ ∅) "SANDBOX settings require at least one allowed_images entry"
      ensure (image ∈ allowedImages) "worker vm.image must exactly match an allowed_images entry"
      let cpus ← requiredResource vm.cpus "worker vm.cpus"
      ensure (cpus ≤ maxSdkCpus) "worker vm.cpus must not exceed the microsandbox SDK u8 limit"
      let memoryMib ← requiredResource vm.memoryMib "worker vm.memory_mib"
      let rootDiskMib ← requiredResource vm.rootDiskMib "worker vm.root_disk_mib"
      validateEnv vm.env "worker vm.env"
      validateWorkingDir vm.workingDir "worker vm.working_dir"
      let allowedHostMounts ← settings.allowedHostMounts.mapM (validateAllowedHostMount host)
      let mounts ← validateMounts host vm.mounts allowedHostMounts "worker vm.mounts"
      ensureUniqueGuestMounts [] mounts
      validateTimeout host settings.defaultExecTimeoutMs "default_exec_timeout_ms"
      let network ← validateNetwork host settings.network
      let maxDurationSec ← validateOptionalPositive vm.maxDurationSec "worker vm.max_duration_sec"
      let idleTimeoutSec ← validateOptionalPositive vm.idleTimeoutSec "worker vm.idle_timeout_sec"
      return {
        vm := {
          image := image, cpus := cpus.toUInt8, memoryMib := memoryMib, rootDiskMib := rootDiskMib
          env := vm.env, workingDir := vm.workingDir, mounts := mounts
          maxDurationSec := maxDurationSec, idleTimeoutSec := idleTimeoutSec }
        network := network
        defaultExecTimeoutMs := settings.defaultExecTimeoutMs
        allowedImages := allowedImages
        allowedHostMounts := allowedHostMounts }

/-! ### The job -/

def rejectWorkerEnvOverride (workerEnv jobEnv : EnvMap) (field : String) : Except String Unit :=
  jobEnv.keys.forM fun key =>
    ensure (key ∉ workerEnv) (field ++ " cannot override Worker vm.env key " ++ host.debug key)

variable (settings : ValidatedSandboxSettings Rule)

def resolveImage (image : Option String) : Except String String :=
  match image with
  | none => .ok settings.vm.image
  | some image => do
      validateOciImage image "job vm.image"
      ensure (image ∈ settings.allowedImages)
        "job vm.image must exactly match an allowed_images entry"
      return image

/-- A resource of a job, under the worker's limit. -/
def resolveResource (limit : UInt32) (value : Option UInt32) (field : String) :
    Except String UInt32 :=
  match value with
  | none => .ok limit
  | some value => do
      ensure (0 < value) (field ++ " must be positive")
      ensure (value ≤ limit) (field ++ " cannot exceed the worker limit")
      return value

def resolveCpus (value : Option UInt32) : Except String UInt8 := do
  let cpus ← resolveResource settings.vm.cpus.toUInt32 value "job vm.cpus"
  return cpus.toUInt8

/-- The settings of the VM with the overrides of a job. -/
def mergeVm (overrideVm : SandboxVmConfig) : Except String ResolvedSandboxVm := do
  let vm := settings.vm
  let image ← resolveImage settings overrideVm.image
  let cpus ← resolveCpus settings overrideVm.cpus
  let memoryMib ← resolveResource vm.memoryMib overrideVm.memoryMib "job vm.memory_mib"
  let rootDiskMib ← resolveResource vm.rootDiskMib overrideVm.rootDiskMib "job vm.root_disk_mib"
  validateWorkingDir overrideVm.workingDir "job vm.working_dir"
  validateEnv overrideVm.env "job vm.env"
  rejectWorkerEnvOverride host vm.env overrideVm.env "job vm.env"
  let mounts ← validateMounts host overrideVm.mounts settings.allowedHostMounts "job vm.mounts"
  ensureUniqueGuestMounts [] (vm.mounts ++ mounts)
  let maxDurationSec ← resolveLifetimeOverride vm.maxDurationSec overrideVm.maxDurationSec
    "job vm.max_duration_sec"
  let idleTimeoutSec ← resolveLifetimeOverride vm.idleTimeoutSec overrideVm.idleTimeoutSec
    "job vm.idle_timeout_sec"
  return {
    image := image, cpus := cpus, memoryMib := memoryMib, rootDiskMib := rootDiskMib
    -- the later entries of `extend` win
    env := overrideVm.env ∪ vm.env
    workingDir := overrideVm.workingDir.or vm.workingDir
    mounts := vm.mounts ++ mounts
    maxDurationSec := maxDurationSec, idleTimeoutSec := idleTimeoutSec }

def resolveVm (vm : Option SandboxVmConfig) : Except String ResolvedSandboxVm :=
  match vm with
  | none => .ok settings.vm
  | some overrideVm => mergeVm host settings overrideVm

def validateUser (user : Option String) : Except String Unit :=
  ensure (∀ u ∈ user, u ≠ "" ∧ '\x00' ∉ u.toList)
    "job user must be non-empty and contain no NUL byte"

def resolveNetwork (network : Option SandboxNetworkConfig) :
    Except String (Option (ValidatedNetworkConfig Rule)) :=
  match network with
  | none => .ok settings.network
  | some jobNetwork => do
      validateNetworkDisabledOverride jobNetwork
      return none

def resolveExecutionSettings (args : SandboxExecArgs) (mode : SandboxMode) :
    Except String (ResolvedExecutionSettings Rule) := do
  ensure (mode = .static_ → args.vm.isNone ∧ args.network.isNone)
    "static SANDBOX jobs cannot override vm or network settings"
  validateEnv args.env "job env"
  validateUser args.user
  validateWorkingDir args.workingDir "job working_dir"
  validateTimeout host args.timeoutMs "job timeout_ms"
  let vm ← resolveVm host settings args.vm
  rejectWorkerEnvOverride host settings.vm.env args.env "job env"
  let network ← resolveNetwork settings args.network
  return {
    vm := vm
    network := network
    execEnv := args.env
    execWorkingDir := args.workingDir
    execUser := args.user
    execTimeoutMs := args.timeoutMs.or settings.defaultExecTimeoutMs
    stdin := args.stdin
    tty := args.tty.getD false
    treatNonzeroAsError := args.treatNonzeroAsError
    successExitCodes := args.successExitCodes }

end Settings

end Jobworkerp.Sandbox
