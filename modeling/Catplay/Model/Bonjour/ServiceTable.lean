import Mathlib.Data.Finmap
import Mathlib.Data.List.DropRight

/-!
# The table of mDNS services

What `core/catplay_bonjour/src/raw/mdns_backend.rs` keeps of the services it hears of: the records
of one message (`handle_responses`) and the tick that drops what has expired (`expiry_task`). A
text is a list of characters. A hash map has no order, so the order in which `handle_responses`
goes through the names it collected is given to it. Times are in nanoseconds.
-/

set_option autoImplicit false

namespace Catplay.Model.Bonjour

abbrev Name := List Char

/-- A hash map from texts. -/
abbrev NameMap (α : Type) := Finmap fun _ : Name => α

/-! ## Addresses -/

inductive IpAddr
  | v4 (octets : Vector UInt8 4)
  | v6 (octets : Vector UInt8 16)
  deriving DecidableEq, Repr

inductive SocketAddr
  | v4 (ip : Vector UInt8 4) (port : UInt16)
  | v6 (ip : Vector UInt8 16) (port : UInt16) (flowinfo scopeId : UInt32)
  deriving DecidableEq, Repr

/-- `fe80::/10`. -/
def isUnicastLinkLocal (octets : Vector UInt8 16) : Bool :=
  octets[0] = 0xfe ∧ octets[1] &&& 0xc0 = 0x80

def toScopedAddr (ip : IpAddr) (port : UInt16) (ifindex : UInt32) : SocketAddr :=
  match ip with
  | .v4 v4 => .v4 v4 port
  | .v6 v6 => if isUnicastLinkLocal v6 then .v6 v6 port 0 ifindex else .v6 v6 port 0 0

/-! ## Records -/

inductive DnsRData
  | ptr (target : Name)
  | srv (target : Name) (port : UInt16)
  | txt (map : NameMap Name)
  | a (ip : Vector UInt8 4)
  | aaaa (ip : Vector UInt8 16)
  | unknown
  deriving DecidableEq

structure DnsRecord where
  name : Name
  ttl : UInt32
  data : DnsRData
  deriving DecidableEq

/-- `to_ascii_lowercase`. -/
def dnsNameKey (name : Name) : Name := name.map Char.toLower

/-- The instance and the service type of a full name, cut in front of the first label with an
underscore. -/
def splitInstanceAndServiceType (fullname : Name) : Option (Name × Name) :=
  let labels := (fullname.rdropWhile (· = '.')).splitOn '.'
  if labels.length < 4 then none
  else
    match labels.findIdx? fun l => l.head? = some '_' with
    | none => none
    | some idx =>
      if idx = 0 ∨ idx + 2 ≥ labels.length then none
      else
        some (['.'].intercalate (labels.take idx), ['.'].intercalate (labels.drop idx) ++ ['.'])

/-! ## Services -/

structure BonjourMeta where
  iface : Name
  hostname : Name
  port : UInt16
  ips : List IpAddr
  addrs : List SocketAddr
  txt : NameMap Name
  serviceType : Name
  instanceName : Name
  fullname : Name
  deriving DecidableEq

inductive RawMdnsEvent
  | resolved (service : BonjourMeta)
  | removed (serviceType fullname : Name)
  deriving DecidableEq

structure ObservedService where
  service : BonjourMeta
  expiresAt : Nat
  deriving DecidableEq

structure RawMdnsState where
  iface : Name
  ifindex : UInt32
  observed : NameMap ObservedService
  /-- What was sent into the channel so far. -/
  events : List RawMdnsEvent
  /-- The hosts whose addresses were asked for. -/
  queried : List Name

/-- The records of a message, sorted by what they say. -/
structure Sorted where
  ptrs : NameMap (Name × UInt32)
  srv : NameMap (Name × UInt16 × UInt32)
  txt : NameMap (NameMap Name × UInt32)
  hostIps : NameMap (List IpAddr × UInt32)

namespace Sorted

def empty : Sorted := ⟨∅, ∅, ∅, ∅⟩

/-- One more address of a host; the shortest time to live counts. -/
def addHostIp (self : Sorted) (rr : DnsRecord) (ip : IpAddr) : Sorted :=
  let entry := (self.hostIps.lookup (dnsNameKey rr.name)).getD ([], rr.ttl)
  { self with
    hostIps := self.hostIps.insert (dnsNameKey rr.name) (entry.1 ++ [ip], min entry.2 rr.ttl) }

end Sorted

namespace RawMdnsState

def new (iface : Name) (ifindex : UInt32) : RawMdnsState := ⟨iface, ifindex, ∅, [], []⟩

def sendEvent (self : RawMdnsState) (event : RawMdnsEvent) : RawMdnsState :=
  { self with events := self.events ++ [event] }

/-- The first loop of `handle_responses`; a goodbye takes effect at once. -/
def sortRecord (self : RawMdnsState) (sorted : Sorted) (rr : DnsRecord) : RawMdnsState × Sorted :=
  match rr.data with
  | .ptr target =>
    match splitInstanceAndServiceType target with
    | some (_, serviceType) =>
      if rr.ttl = 0 then
        let self := self.sendEvent (.removed serviceType target)
        ({ self with observed := self.observed.erase target }, sorted)
      else (self, { sorted with ptrs := sorted.ptrs.insert target (rr.name, rr.ttl) })
    | none => (self, sorted)
  | .srv target port =>
    (self, { sorted with srv := sorted.srv.insert rr.name (target, port, rr.ttl) })
  | .txt map => (self, { sorted with txt := sorted.txt.insert rr.name (map, rr.ttl) })
  | .a ip => (self, sorted.addHostIp rr (.v4 ip))
  | .aaaa ip => (self, sorted.addHostIp rr (.v6 ip))
  | .unknown => (self, sorted)

def sortRecords (self : RawMdnsState) (records : List DnsRecord) : RawMdnsState × Sorted :=
  records.foldl (fun acc rr => acc.1.sortRecord acc.2 rr) (self, .empty)

/-- The names that the message says something of. -/
def touched (self : RawMdnsState) (sorted : Sorted) : Finset Name :=
  sorted.ptrs.keys ∪ sorted.srv.keys ∪ sorted.txt.keys ∪
    self.observed.keys.filter fun fullname =>
      (self.observed.lookup fullname).any fun observed =>
        dnsNameKey observed.service.hostname ∈ sorted.hostIps

/-- The shortest time to live of what was used. -/
def ttlOf (sorted : Sorted) (fullname hostname : Name) : UInt32 :=
  let ttls := [(sorted.ptrs.lookup fullname).map (·.2), (sorted.srv.lookup fullname).map (·.2.2),
    (sorted.txt.lookup fullname).map (·.2),
    (sorted.hostIps.lookup (dnsNameKey hostname)).map (·.2)]
  (ttls.filterMap id).min?.getD 120

/-- The second loop of `handle_responses`: one name. -/
def merge (sorted : Sorted) (now : Nat) (self : RawMdnsState) (fullname : Name) : RawMdnsState :=
  match splitInstanceAndServiceType fullname with
  | none => self
  | some (instanceName, serviceType) =>
    let old := (self.observed.lookup fullname).map (·.service)
    let hostname := ((sorted.srv.lookup fullname).map (·.1) <|> old.map (·.hostname)).getD []
    let port := ((sorted.srv.lookup fullname).map (·.2.1) <|> old.map (·.port)).getD 0
    let txt := ((sorted.txt.lookup fullname).map (·.1) <|> old.map (·.txt)).getD ∅
    let ips :=
      ((sorted.hostIps.lookup (dnsNameKey hostname)).map (·.1) <|> old.map (·.ips)).getD []
    if port = 0 ∨ hostname = [] then self
    else
      let ttl := ttlOf sorted fullname hostname
      let service : BonjourMeta :=
        { iface := self.iface, hostname, port, ips
          addrs := ips.map fun ip => toScopedAddr ip port self.ifindex
          txt, serviceType, instanceName, fullname }
      let expiresAt := now + (max ttl 1).toNat * 1000000000
      let self :=
        { self with observed := self.observed.insert fullname { service, expiresAt } }
      if old = some service then self
      else if service.addrs = [] then { self with queried := self.queried ++ [hostname] }
      else self.sendEvent (.resolved service)

/-- `handle_responses`; `order` lists the names that are touched. -/
def handleResponses (self : RawMdnsState) (records : List DnsRecord) (order : List Name)
    (now : Nat) : Option RawMdnsState :=
  let (self, sorted) := self.sortRecords records
  if order.Nodup ∧ order.toFinset = self.touched sorted then
    some (order.foldl (merge sorted now) self)
  else none

/-- One tick of `expiry_task`; `keys` lists the names that have expired. -/
def expire (self : RawMdnsState) (keys : List Name) (now : Nat) : Option RawMdnsState :=
  let expired := self.observed.keys.filter fun key =>
    (self.observed.lookup key).any fun observed => observed.expiresAt ≤ now
  if keys.Nodup ∧ keys.toFinset = expired then
    some (keys.foldl (fun self key =>
      match self.observed.lookup key with
      | some observed =>
        { self with observed := self.observed.erase key }.sendEvent
          (.removed observed.service.serviceType key)
      | none => self) self)
  else none

end RawMdnsState

/-! ## Runs -/

inductive TableAction
  | responses (records : List DnsRecord) (order : List Name) (now : Nat)
  | tick (keys : List Name) (now : Nat)

def tableStep (s : RawMdnsState) : TableAction → Option RawMdnsState
  | .responses records order now => s.handleResponses records order now
  | .tick keys now => s.expire keys now

end Catplay.Model.Bonjour
