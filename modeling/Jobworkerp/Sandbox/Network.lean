/-
Jobworkerp/Sandbox/Network.lean

The network of a sandbox (`sandbox/config/network.rs`).

A worker without a network, or with one that is not enabled, has none; options
of a network that is not enabled are refused.  An enabled network needs finite
limits, denies everything by default, and has its own rules behind the one that
denies the metadata service.  A job may only switch the network off.

The rules and policies of the SDK, and the text of an IP address, are left to
`NetworkSdk`.
-/
import Jobworkerp.Workflow.Expressions

namespace Jobworkerp.Sandbox

open Text (Json)

/-- `ensure!`. -/
def ensure (c : Prop) [Decidable c] (text : String) : Except String Unit :=
  if c then .ok () else .error text

@[simp] theorem ensure_eq_ok {c : Prop} [Decidable c] {text : String} {u : Unit} :
    ensure c text = .ok u ↔ c := by
  unfold ensure
  split
  · exact iff_of_true rfl ‹_›
  · exact iff_of_false (by simp) ‹_›

theorem bind_eq_ok {α β : Type} {x : Except String α} {f : α → Except String β} {b : β} :
    x >>= f = .ok b ↔ ∃ a, x = .ok a ∧ f a = .ok b := by
  cases x with
  | error e => exact iff_of_false (by intro h; cases h) (by rintro ⟨a, h, -⟩; cases h)
  | ok a =>
    constructor
    · intro h
      exact ⟨a, rfl, h⟩
    · rintro ⟨a', ha, h⟩
      cases ha
      exact h

/-! ### The messages -/

inductive Destination
  | group (name : String)
  | ip (text : String)
  | cidr (text : String)
  | domain (name : String)
  | domainSuffix (name : String)
  | any (value : Bool)
  deriving DecidableEq

structure SandboxPortRange where
  start : UInt32
  end_ : UInt32
  deriving DecidableEq

/-- A rule; a message without a destination has none in its `destination`
either. -/
structure SandboxNetworkRule where
  action : String
  destination : Option Destination
  protocols : List String
  ports : List SandboxPortRange
  deriving DecidableEq

structure SandboxNetworkConfig where
  enabled : Option Bool
  profiles : List String
  rules : List SandboxNetworkRule
  maxTcpConnections : Option UInt32
  maxUdpConnections : Option UInt32
  deriving DecidableEq

/-! ### The SDK -/

inductive NetworkProfile
  | public_ | private_ | host
  deriving DecidableEq

inductive NetworkAction
  | allow | deny
  deriving DecidableEq

structure NetworkPolicy (Rule : Type) where
  defaultEgress : NetworkAction
  defaultIngress : NetworkAction
  rules : List Rule
  deriving DecidableEq

/-- `IpAddr`, with its text. -/
inductive IpAddr
  | v4 (text : String)
  | v6 (text : String)

/-- What is taken from the SDK and the standard library. -/
structure NetworkSdk (Rule : Type) where
  /-- `NetworkPolicy::from_profiles`. -/
  fromProfiles : List NetworkProfile → NetworkPolicy Rule
  /-- `serde_json::from_value`. -/
  ruleOfJson : Json → Option Rule
  /-- `str::parse::<IpAddr>`. -/
  parseIp : List Char → Option IpAddr

structure ValidatedNetworkConfig (Rule : Type) where
  policy : NetworkPolicy Rule
  maxTcpConnections : ℕ
  maxUdpConnections : ℕ
  deriving DecidableEq

/-! ### Rules -/

variable {Rule : Type} (sdk : NetworkSdk Rule)

def parseSdkRule (value : Json) : Except String Rule :=
  match sdk.ruleOfJson value with
  | some rule => .ok rule
  | none => .error "failed to build microsandbox network rule"

/-- `str::parse::<u8>`. -/
def parseU8 (text : List Char) : Option ℕ :=
  let digits := match text with
    | '+' :: rest => rest
    | _ => text
  if digits ≠ [] ∧ digits.all (·.isDigit) then
    let n := digits.foldl (fun n c => 10 * n + (c.toNat - '0'.toNat)) 0
    if n ≤ 255 then some n else none
  else none

def validateCidr (cidr : String) : Except String Unit := do
  match cidr.toList.span (· ≠ '/') with
  | (_, []) => .error "network cidr must include a prefix"
  | (ip, _ :: length) =>
    match sdk.parseIp ip with
    | none => .error "network cidr must use a valid IP address"
    | some ip =>
      match parseU8 length with
      | none => .error "network cidr prefix is invalid"
      | some length =>
        let limit := match ip with
          | .v4 _ => 32
          | .v6 _ => 128
        ensure (length ≤ limit) "network cidr prefix is out of range"

def validateDomain (domain : String) : Except String Unit := do
  ensure (domain ≠ "") "network domain must not be empty"
  ensure (domain.toList.all fun c => c.toNat < 128 ∧ Workflow.isWhitespace c = false ∧ c ≠ '/' ∧
    c ≠ '\x00') "network domain must be an ASCII host name"

/-- The destination of a rule, as the SDK reads it. -/
def destinationJson : Destination → Except String Json
  | .group group => do
      ensure (group ∈ ["public", "private", "host"])
        ("unsupported network destination group: " ++ group)
      return .object [("group", .string group)]
  | .ip ip =>
    match sdk.parseIp ip.toList with
    | none => .error "network rule ip must be a valid IP address"
    | some (.v4 text) => .ok (.object [("cidr", .string (text ++ "/32"))])
    | some (.v6 text) => .ok (.object [("cidr", .string (text ++ "/128"))])
  | .cidr cidr => do
      validateCidr sdk cidr
      return .object [("cidr", .string cidr)]
  | .domain domain => do
      validateDomain domain
      return .object [("domain", .string domain)]
  | .domainSuffix domain => do
      validateDomain domain
      return .object [("domain_suffix", .string domain)]
  | .any true => .ok (.string "any")
  | .any false => .error "network destination any must be true"

def ruleProtocols (protocols : List String) : Except String (List String) :=
  if protocols = [] then .ok ["tcp", "udp"]
  else protocols.mapM fun protocol =>
    if protocol = "tcp" ∨ protocol = "udp" then .ok protocol
    else .error "network rule protocols may contain only tcp and udp"

def portJson (port : SandboxPortRange) : Except String Json := do
  ensure (1 ≤ port.start ∧ port.start ≤ 65535 ∧ 1 ≤ port.end_ ∧ port.end_ ≤ 65535 ∧
    port.start ≤ port.end_) "network port ranges must be between 1 and 65535 with start <= end"
  return .object [("start", .number (some port.start.toNat)),
    ("end", .number (some port.end_.toNat))]

def ruleJson (destination : Json) (protocols : List String) (ports : List Json) (action : String) :
    Json :=
  .object [("direction", .string "egress"), ("destination", destination),
    ("protocols", .array (protocols.map .string)), ("ports", .array ports),
    ("action", .string action)]

def parseWorkerRule (rule : SandboxNetworkRule) : Except String Rule := do
  ensure (rule.action = "allow" ∨ rule.action = "deny") "network rule action must be allow or deny"
  match rule.destination with
  | none => .error "network rule requires exactly one destination"
  | some destination =>
    let destination ← destinationJson sdk destination
    let protocols ← ruleProtocols rule.protocols
    ensure protocols.Nodup "network rule protocols cannot contain duplicates"
    let ports ← rule.ports.mapM portJson
    parseSdkRule sdk (ruleJson destination protocols ports rule.action)

/-! ### The network -/

def parseProfile (profile : String) : Except String NetworkProfile :=
  match profile with
  | "public" => .ok .public_
  | "private" => .ok .private_
  | "host" => .ok .host
  | _ => .error ("unsupported network profile: " ++ profile)

/-- No option of a network is set. -/
def SandboxNetworkConfig.Bare (config : SandboxNetworkConfig) : Prop :=
  config.profiles = [] ∧ config.rules = [] ∧ config.maxTcpConnections = none ∧
    config.maxUdpConnections = none
  deriving Decidable

/-- The limit of an enabled network. -/
def requiredConnections (limit : Option UInt32) (field : String) : Except String ℕ :=
  match limit.filter (0 < ·) with
  | some limit => .ok limit.toNat
  | none => .error ("enabled network requires a positive finite " ++ field)

def validateNetworkConfig (config : SandboxNetworkConfig) :
    Except String (Option (ValidatedNetworkConfig Rule)) :=
  if config.enabled.getD false then do
    let tcp ← requiredConnections config.maxTcpConnections "max_tcp_connections"
    let udp ← requiredConnections config.maxUdpConnections "max_udp_connections"
    let profiles ← config.profiles.mapM parseProfile
    let metadataDeny ← parseSdkRule sdk
      (ruleJson (.object [("group", .string "metadata")]) [] [] "deny")
    let policy := sdk.fromProfiles profiles
    let explicitRules ← config.rules.mapM (parseWorkerRule sdk)
    return some ⟨⟨.deny, .deny, metadataDeny :: (explicitRules ++ policy.rules)⟩, tcp, udp⟩
  else do
    ensure config.Bare "network options cannot be set while networking is disabled"
    return none

def validateNetworkDisabledOverride (config : SandboxNetworkConfig) : Except String Unit := do
  ensure (config.enabled = some false) "job network override may only explicitly disable networking"
  ensure config.Bare "job network disable override cannot add rules, profiles, or limits"

end Jobworkerp.Sandbox
