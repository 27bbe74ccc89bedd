/-
Jobworkerp/Sandbox/Narrowing.lean

A job can only narrow the policy of its worker.

`Within v vm` says that a VM keeps to what the validated settings `v` grant.  The
VM of the worker does, and every override of a job is checked against the worker
and not against what the job has set before, so the VM of the job does as well.

* `resolve_within_worker`: whatever is accepted keeps to the settings of the
  worker as they were given.
-/
import Jobworkerp.Sandbox.Config

namespace Jobworkerp.Sandbox

open List

/-! ### Checks over lists -/

section Lists

variable {α β : Type}

variable {l : List α}

theorem forM_eq_ok {f : α → Except String Unit} {u : Unit} :
    l.forM f = .ok u ↔ ∀ a ∈ l, f a = .ok () := by
  induction l with
  | nil => exact iff_of_true rfl (by simp)
  | cons a l ih =>
    rw [forM_eq_forM, forM_cons, bind_eq_ok]
    rw [forM_eq_forM] at ih
    simp only [mem_cons, forall_eq_or_imp, ← ih]
    constructor
    · rintro ⟨_, ha, hl⟩
      exact ⟨ha, hl⟩
    · rintro ⟨ha, hl⟩
      exact ⟨(), ha, hl⟩

/-- Every element of the result is the value of an element of the list. -/
theorem mapM_eq_ok {f : α → Except String β} {l' : List β}
    (h : l.mapM f = .ok l') : ∀ b ∈ l', ∃ a ∈ l, f a = .ok b := by
  induction l generalizing l' with
  | nil =>
    cases h
    simp
  | cons a l ih =>
    rw [mapM_cons] at h
    obtain ⟨b, hb, h⟩ := bind_eq_ok.1 h
    obtain ⟨rest, hrest, h⟩ := bind_eq_ok.1 h
    cases h
    intro b' hb'
    rcases mem_cons.1 hb' with rfl | hb'
    · exact ⟨a, mem_cons_self, hb⟩
    · obtain ⟨a', ha', hfa'⟩ := ih hrest b' hb'
      exact ⟨a', mem_cons_of_mem a ha', hfa'⟩

end Lists

section Narrowing

variable {Rule : Type} {host host' : Host Rule} {settings : SandboxRunnerSettings}
  {v : ValidatedSandboxSettings Rule} {field : String}

/-! ### What the checks establish -/

variable {value : Option UInt32}

theorem requiredResource_ok
    (h : requiredResource value field = .ok result) : value = some result := by
  unfold requiredResource at h
  split at h
  · cases h
    rename_i hfilter
    exact (Option.filter_eq_some_iff.1 hfilter).1
  · cases h

theorem validateOptionalPositive_ok {value result : Option UInt64}
    (h : validateOptionalPositive value field = .ok result) : result = value := by
  obtain ⟨-, -, h⟩ := bind_eq_ok.1 h
  cases h
  rfl

theorem resolveResource_ok
    (h : resolveResource limit value field = .ok result) : result ≤ limit := by
  unfold resolveResource at h
  split at h
  · cases h
    exact UInt32.le_refl _
  · obtain ⟨-, -, h⟩ := bind_eq_ok.1 h
    obtain ⟨_, hle, h⟩ := bind_eq_ok.1 h
    cases h
    exact ensure_eq_ok.1 hle

/-- The number of CPUs is not cut by the conversion. -/
theorem resolveCpus_ok (h : resolveCpus v value = .ok cpus) : cpus ≤ v.vm.cpus := by
  obtain ⟨n, hn, h⟩ := bind_eq_ok.1 h
  cases h
  have hle : n.toNat ≤ v.vm.cpus.toNat := by
    have hle := UInt32.le_iff_toNat_le.1 (resolveResource_ok hn)
    rwa [UInt8.toNat_toUInt32] at hle
  rw [UInt8.le_iff_toNat_le, UInt32.toNat_toUInt8]
  exact (Nat.mod_le _ _).trans hle

/-- A lifetime keeps to a limit, where there is one. -/
def WithinLimit (limit lifetime : Option UInt64) : Prop :=
  ∀ n ∈ limit, ∃ m ∈ lifetime, m ≤ n

theorem WithinLimit.refl (limit : Option UInt64) : WithinLimit limit limit :=
  fun n hn => ⟨n, hn, UInt64.le_refl n⟩

theorem resolveLifetimeOverride_ok
    (h : resolveLifetimeOverride workerLimit jobLimit field = .ok result) :
    WithinLimit workerLimit result := by
  obtain ⟨-, -, h⟩ := bind_eq_ok.1 h
  obtain ⟨_, hle, h⟩ := bind_eq_ok.1 h
  cases h
  cases jobLimit with
  | none => exact .refl workerLimit
  | some n =>
    intro limit hlimit
    cases hlimit
    exact ⟨n, rfl, of_decide_eq_true (ensure_eq_ok.1 hle)⟩

theorem rejectWorkerEnvOverride_ok {workerEnv jobEnv : EnvMap} {u : Unit}
    (h : rejectWorkerEnvOverride host workerEnv jobEnv field = .ok u) {key : String}
    (hkey : key ∈ workerEnv) : key ∉ jobEnv :=
  fun hjob => ensure_eq_ok.1 (forM_eq_ok.1 h key hjob) hkey

/-- A mount lies under an allowed root that grants its permissions. -/
def Granted (allowed : List ResolvedAllowedHostMount) (mount : ResolvedMount) : Prop :=
  ∃ root ∈ allowed, root.hostRoot <+: mount.hostPath ∧
    root.Grants mount.writable mount.executable

theorem validateMounts_ok {mounts : List SandboxBindMount} {result : List ResolvedMount}
    {allowed : List ResolvedAllowedHostMount}
    (h : validateMounts host mounts allowed field = .ok result) :
    ∀ mount ∈ result, Granted allowed mount := by
  intro mount hmount
  obtain ⟨requested, -, h⟩ := mapM_eq_ok h mount hmount
  obtain ⟨-, -, h⟩ := bind_eq_ok.1 h
  obtain ⟨-, -, h⟩ := bind_eq_ok.1 h
  split at h
  · cases h
  · obtain ⟨-, -, h⟩ := bind_eq_ok.1 h
    obtain ⟨_, hroots, h⟩ := bind_eq_ok.1 h
    cases h
    obtain ⟨root, hroot, hgrants⟩ := ensure_eq_ok.1 hroots
    obtain ⟨hallowed, hbelow⟩ := mem_filter.1 hroot
    exact ⟨root, hallowed, of_decide_eq_true hbelow, hgrants⟩

/-! ### The VM of the worker and of a job -/

/-- The VM keeps to what the settings grant. -/
structure Within (v : ValidatedSandboxSettings Rule) (vm : ResolvedSandboxVm) : Prop where
  image : vm.image ∈ v.allowedImages
  cpus : vm.cpus ≤ v.vm.cpus
  memoryMib : vm.memoryMib ≤ v.vm.memoryMib
  rootDiskMib : vm.rootDiskMib ≤ v.vm.rootDiskMib
  maxDurationSec : WithinLimit v.vm.maxDurationSec vm.maxDurationSec
  idleTimeoutSec : WithinLimit v.vm.idleTimeoutSec vm.idleTimeoutSec
  env : ∀ key ∈ v.vm.env, vm.env.lookup key = v.vm.env.lookup key
  mounts : ∀ mount ∈ vm.mounts, Granted v.allowedHostMounts mount

/-- The overrides of a job are checked one by one against the worker. -/
theorem mergeVm_within
    (hworker : Within v v.vm) (h : mergeVm host v overrideVm = .ok vm) : Within v vm := by
  simp only [mergeVm, bind_eq_ok] at h
  obtain ⟨image, himage, cpus, hcpus, memoryMib, hmemory, rootDiskMib, hdisk, -, -, -, -, _, henv,
    mounts, hmounts, -, -, maxDurationSec, hduration, idleTimeoutSec, hidle, h⟩ := h
  cases h
  refine {
    image := ?_
    cpus := resolveCpus_ok hcpus
    memoryMib := resolveResource_ok hmemory
    rootDiskMib := resolveResource_ok hdisk
    maxDurationSec := resolveLifetimeOverride_ok hduration
    idleTimeoutSec := resolveLifetimeOverride_ok hidle
    env := fun key hkey => AList.lookup_union_right (rejectWorkerEnvOverride_ok henv hkey)
    mounts := ?_ }
  · unfold resolveImage at himage
    split at himage
    · cases himage
      exact hworker.image
    · obtain ⟨-, -, himage⟩ := bind_eq_ok.1 himage
      obtain ⟨_, hallowed, himage⟩ := bind_eq_ok.1 himage
      cases himage
      exact ensure_eq_ok.1 hallowed
  · intro mount hmount
    rcases mem_append.1 hmount with hmount | hmount
    · exact hworker.mounts mount hmount
    · exact validateMounts_ok hmounts mount hmount

/-- What the validated settings are made of. -/
structure Validated (host : Host Rule) (settings : SandboxRunnerSettings) (w : SandboxVmConfig)
    (v : ValidatedSandboxSettings Rule) : Prop where
  vm : settings.vm = some w
  image : v.vm.image ∈ v.allowedImages
  allowedImages : v.allowedImages = settings.allowedImages.toFinset
  cpus : ∃ n, w.cpus = some n ∧ v.vm.cpus.toNat = n.toNat
  memoryMib : w.memoryMib = some v.vm.memoryMib
  rootDiskMib : w.rootDiskMib = some v.vm.rootDiskMib
  env : v.vm.env = w.env
  mounts : ∀ mount ∈ v.vm.mounts, Granted v.allowedHostMounts mount
  maxDurationSec : v.vm.maxDurationSec = w.maxDurationSec
  idleTimeoutSec : v.vm.idleTimeoutSec = w.idleTimeoutSec
  roots : ∀ root ∈ v.allowedHostMounts, ∃ mount ∈ settings.allowedHostMounts,
    host.canonicalize mount.hostRoot = some root.hostRoot ∧
      root.allowWrite = mount.allowWrite ∧ root.allowExec = mount.allowExec

theorem validateAllowedHostMount_ok (h : validateAllowedHostMount host mount = .ok root) :
    host.canonicalize mount.hostRoot = some root.hostRoot ∧
      root.allowWrite = mount.allowWrite ∧ root.allowExec = mount.allowExec := by
  obtain ⟨-, -, h⟩ := bind_eq_ok.1 h
  split at h
  · cases h
  · rename_i hostRoot hcanonical
    cases h
    exact ⟨hcanonical, rfl, rfl⟩

theorem validateSettings_ok (h : validateSettings host settings = .ok v) :
    ∃ w, Validated host settings w v := by
  unfold validateSettings at h
  split at h
  · cases h
  · rename_i w hvm
    simp only [bind_eq_ok] at h
    obtain ⟨image, himage, -, -, -, -, _, hallowed, cpus, hcpus, _, hmax, memoryMib, hmemory,
      rootDiskMib, hdisk, -, -, -, -, allowedHostMounts, hroots, mounts, hmounts, -, -, -, -,
      network, -, maxDurationSec, hduration, idleTimeoutSec, hidle, h⟩ := h
    cases h
    refine ⟨w, {
      vm := hvm
      image := ensure_eq_ok.1 hallowed
      allowedImages := rfl
      cpus := ⟨cpus, requiredResource_ok hcpus, ?_⟩
      memoryMib := requiredResource_ok hmemory
      rootDiskMib := requiredResource_ok hdisk
      env := rfl
      mounts := validateMounts_ok hmounts
      maxDurationSec := validateOptionalPositive_ok hduration
      idleTimeoutSec := validateOptionalPositive_ok hidle
      roots := fun root hroot => ?_ }⟩
    · -- the SDK's limit is what a `u8` holds
      have hle : cpus.toNat ≤ 255 := UInt32.le_iff_toNat_le.1 (ensure_eq_ok.1 hmax)
      rw [UInt32.toNat_toUInt8]
      exact Nat.mod_eq_of_lt (by omega)
    · obtain ⟨mount, hmount, hok⟩ := mapM_eq_ok hroots root hroot
      exact ⟨mount, hmount, validateAllowedHostMount_ok hok⟩

theorem Validated.within (h : Validated host settings w v) : Within v v.vm where
  image := h.image
  cpus := UInt8.le_refl _
  memoryMib := UInt32.le_refl _
  rootDiskMib := UInt32.le_refl _
  maxDurationSec := .refl _
  idleTimeoutSec := .refl _
  env _ _ := rfl
  mounts := h.mounts

/-! ### The whole execution -/

/-- The variables a command sees: those of its VM, and the job's over them. -/
def ResolvedExecutionSettings.commandEnv (r : ResolvedExecutionSettings Rule) : EnvMap :=
  r.execEnv ∪ r.vm.env

/-- What an accepted job is made of. -/
structure Resolved (v : ValidatedSandboxSettings Rule) (args : SandboxExecArgs)
    (mode : SandboxMode) (r : ResolvedExecutionSettings Rule) : Prop where
  vm : Within v v.vm → Within v r.vm
  execEnv : ∀ key ∈ v.vm.env, key ∉ r.execEnv
  network : r.network = v.network ∨ r.network = none
  fixed : mode = .static_ → r.vm = v.vm ∧ r.network = v.network

theorem resolveExecutionSettings_ok (h : resolveExecutionSettings host v args mode = .ok r) :
    Resolved v args mode r := by
  simp only [resolveExecutionSettings, bind_eq_ok] at h
  obtain ⟨_, hstatic, -, -, -, -, -, -, -, -, vm, hvm, _, henv, network, hnetwork, h⟩ := h
  cases h
  have hnetwork' : network = v.network ∨ network = none := by
    unfold resolveNetwork at hnetwork
    split at hnetwork
    · cases hnetwork
      exact .inl rfl
    · obtain ⟨-, -, hnetwork⟩ := bind_eq_ok.1 hnetwork
      cases hnetwork
      exact .inr rfl
  refine ⟨fun hworker => ?_, fun key hkey => rejectWorkerEnvOverride_ok henv hkey, hnetwork',
    fun hmode => ?_⟩
  · unfold resolveVm at hvm
    split at hvm
    · cases hvm
      exact hworker
    · exact mergeVm_within hworker hvm
  · obtain ⟨hnoVm, hnoNetwork⟩ := ensure_eq_ok.1 hstatic hmode
    rw [Option.isNone_iff_eq_none] at hnoVm hnoNetwork
    rw [hnoVm] at hvm
    rw [hnoNetwork] at hnetwork
    cases hvm
    cases hnetwork
    exact ⟨rfl, rfl⟩

/-- **A job can only narrow the policy of its worker.**  The hosts are those at
the time the worker and the job are looked at. -/
theorem resolve_within_worker {args : SandboxExecArgs} {mode : SandboxMode}
    {r : ResolvedExecutionSettings Rule} (hv : validateSettings host settings = .ok v)
    (hr : resolveExecutionSettings host' v args mode = .ok r) :
    ∃ w, settings.vm = some w ∧
      r.vm.image ∈ settings.allowedImages ∧
      (∀ n ∈ w.cpus, r.vm.cpus.toNat ≤ n.toNat) ∧
      (∀ n ∈ w.memoryMib, r.vm.memoryMib ≤ n) ∧
      (∀ n ∈ w.rootDiskMib, r.vm.rootDiskMib ≤ n) ∧
      WithinLimit w.maxDurationSec r.vm.maxDurationSec ∧
      WithinLimit w.idleTimeoutSec r.vm.idleTimeoutSec ∧
      (∀ key value, w.env.lookup key = some value →
        r.vm.env.lookup key = some value ∧ r.commandEnv.lookup key = some value) ∧
      (∀ mount ∈ r.vm.mounts, ∃ allowed ∈ settings.allowedHostMounts, ∃ root,
        host.canonicalize allowed.hostRoot = some root ∧ root <+: mount.hostPath ∧
        (mount.writable = true → allowed.allowWrite = true) ∧
        (mount.executable = true → allowed.allowExec = true)) ∧
      (r.network = v.network ∨ r.network = none) ∧
      (mode = .static_ → r.vm = v.vm ∧ r.network = v.network) := by
  obtain ⟨w, hvalid⟩ := validateSettings_ok hv
  have hresolved := resolveExecutionSettings_ok hr
  have hwithin := hresolved.vm hvalid.within
  refine ⟨w, hvalid.vm, ?_, ?_, ?_, ?_, ?_, ?_, ?_, ?_, hresolved.network, hresolved.fixed⟩
  · have himage := hwithin.image
    rw [hvalid.allowedImages] at himage
    exact mem_toFinset.1 himage
  · intro n hn
    obtain ⟨n', hn', heq⟩ := hvalid.cpus
    cases hn'.symm.trans hn
    rw [← heq]
    exact UInt8.le_iff_toNat_le.1 hwithin.cpus
  · intro n hn
    cases hvalid.memoryMib.symm.trans hn
    exact hwithin.memoryMib
  · intro n hn
    cases hvalid.rootDiskMib.symm.trans hn
    exact hwithin.rootDiskMib
  · rw [← hvalid.maxDurationSec]
    exact hwithin.maxDurationSec
  · rw [← hvalid.idleTimeoutSec]
    exact hwithin.idleTimeoutSec
  · intro key value hlookup
    rw [← hvalid.env] at hlookup
    have hkey : key ∈ v.vm.env := AList.lookup_isSome.1 (by rw [hlookup]; rfl)
    have hvm : r.vm.env.lookup key = some value := (hwithin.env key hkey).trans hlookup
    exact ⟨hvm, (AList.lookup_union_right (hresolved.execEnv key hkey)).trans hvm⟩
  · intro mount hmount
    obtain ⟨root, hroot, hbelow, hwrite, hexec⟩ := hwithin.mounts mount hmount
    obtain ⟨allowed, hallowed, hcanonical, hwrite', hexec'⟩ := hvalid.roots root hroot
    exact ⟨allowed, hallowed, root.hostRoot, hcanonical, hbelow,
      fun h => hwrite'.symm.trans (hwrite h), fun h => hexec'.symm.trans (hexec h)⟩

end Narrowing

/-! ### A worker with one shared directory -/

/-- Paths are canonical, and every rule is accepted. -/
def plainHost : Host Unit where
  canonicalize path := some (((path.toList.splitOn '/').filter (· ≠ [])).map String.ofList)
  clockFits _ := true
  debug s := s
  sdk := ⟨fun _ => ⟨.deny, .deny, []⟩, fun _ => some (), fun _ => none⟩

def sharedWorker : SandboxVmConfig :=
  ⟨some "alpine", some 4, some 512, some 1024, AList.singleton "TOKEN" "t", none, [], some 60, none⟩

/-- A shared directory that can only be read, and a writable one below it. -/
def sharedSettings : SandboxRunnerSettings where
  vm := some sharedWorker
  network := some ⟨some true, [], [], some 1, some 1⟩
  allowedImages := ["alpine", "debian"]
  allowedHostMounts := [⟨"/data", false, false⟩, ⟨"/data/out", true, false⟩]
  defaultExecTimeoutMs := none

def sharedArgs : SandboxExecArgs where
  workingDir := some "/work"
  env := AList.singleton "A" "1"
  user := none
  timeoutMs := some 10
  treatNonzeroAsError := false
  successExitCodes := []
  stdin := none
  tty := none
  vm := some ⟨some "debian", some 1, none, some 8, AList.singleton "B" "2", none,
    [⟨"/data/out/job", "/out", true, false⟩], some 5, some 5⟩
  network := some ⟨some false, [], [], none, none⟩

/-- The job's directory is writable because one of the two roots above it is. -/
theorem resolve_shared_directory :
    ∃ v r, validateSettings plainHost sharedSettings = .ok v ∧
      resolveExecutionSettings plainHost v sharedArgs .nonStatic = .ok r ∧
      r.vm.mounts = [⟨["data", "out", "job"], "/out", true, false⟩] ∧
      ∀ mount ∈ r.vm.mounts, ∃ allowed ∈ sharedSettings.allowedHostMounts, ∃ root,
        plainHost.canonicalize allowed.hostRoot = some root ∧ root <+: mount.hostPath ∧
        (mount.writable = true → allowed.allowWrite = true) ∧
        (mount.executable = true → allowed.allowExec = true) := by
  obtain ⟨v, hv, r, hr, hmounts⟩ : ∃ v, validateSettings plainHost sharedSettings = .ok v ∧
      ∃ r, resolveExecutionSettings plainHost v sharedArgs .nonStatic = .ok r ∧
        r.vm.mounts = [⟨["data", "out", "job"], "/out", true, false⟩] :=
    ⟨_, rfl, _, rfl, rfl⟩
  obtain ⟨w, -, -, -, -, -, -, -, -, hgranted, -, -⟩ := resolve_within_worker hv hr
  exact ⟨v, r, hv, hr, hmounts, hgranted⟩

end Jobworkerp.Sandbox
