import Catplay.Library.Checked
import Catplay.Library.Endian
import Catplay.Library.Text
import Catplay.Model.Bonjour.ServiceTable
import Mathlib.Data.Multiset.Sort

/-!
# mDNS messages

The builder of announcements (`core/catplay_bonjour/src/raw/mdns_coder.rs`) and the parser of
messages (`ParsedDnsMessage` in `mdns_backend.rs`). Bytes are a list; a read out of bounds panics,
and what the parser returns `None` for is an error. The names written end in a dot, as `write_name`
asserts.
-/

set_option autoImplicit false

namespace Catplay.Model.Bonjour

open Catplay.Library Catplay.Library.Checked Catplay.Library.Text

/-! ## The builder -/

def classIn : UInt16 := 0x0001

def cacheFlush : UInt16 := 0x8000

def typeA : UInt16 := 1

def typeAaaa : UInt16 := 28

def typePtr : UInt16 := 12

def typeTxt : UInt16 := 16

def typeSrv : UInt16 := 33

/-- The labels from number `i` on, as a text. -/
def suffixOf (labels : List Name) (i : Nat) : Name :=
  ['.'].intercalate (labels.drop i) ++ ['.']

/-- `NameCompressor`: where a suffix was written first. -/
abbrev NameCompressor := NameMap UInt16

namespace NameCompressor

def rememberSuffix (self : NameCompressor) (suffix : Name) (offset : UInt16) : NameCompressor :=
  if suffix ∈ self then self else self.insert suffix offset

/-- The longest suffix that was written, with the number of its first label. -/
def findBest (self : NameCompressor) (labels : List Name) : Option (Nat × UInt16) :=
  (List.range labels.length).findSome? fun i =>
    (self.lookup (suffixOf labels i)).map fun off => (i, off)

end NameCompressor

structure MdnsBuilder where
  msg : List UInt8
  comp : NameCompressor
  arcount : Nat
  ancount : Nat

namespace MdnsBuilder

def headerSize : UInt16 := 12

def new : MdnsBuilder := ⟨[], ∅, 0, 0⟩

def buildHeader (self : MdnsBuilder) : List UInt8 :=
  [0, 0] ++ BigEndian.toBytes 2 0x8400 ++ [0, 0] ++
    BigEndian.toBytes 2 (UInt16.ofNat self.ancount).toNat ++ [0, 0] ++
    BigEndian.toBytes 2 (UInt16.ofNat self.arcount).toNat

def extend (self : MdnsBuilder) (bytes : List UInt8) : MdnsBuilder :=
  { self with msg := self.msg ++ bytes }

def writeU16 (self : MdnsBuilder) (v : UInt16) : MdnsBuilder :=
  self.extend (BigEndian.toBytes 2 v.toNat)

def writeU32 (self : MdnsBuilder) (v : UInt32) : MdnsBuilder :=
  self.extend (BigEndian.toBytes 4 v.toNat)

/-- One label of a name: its suffix is remembered. -/
def writeLabel (labels : List Name) (self : MdnsBuilder) (j : Nat) : MdnsBuilder :=
  let offset := UInt16.ofNat self.msg.length
  let self :=
    { self with comp := self.comp.rememberSuffix (suffixOf labels j) (offset + headerSize) }
  let lb := toUtf8 (labels[j]?.getD [])
  (self.extend [UInt8.ofNat lb.length]).extend lb

/-- The labels in front of `best`, and a pointer to it. -/
def writeLabels (self : MdnsBuilder) (labels : List Name) (best : Option (Nat × UInt16)) :
    MdnsBuilder :=
  let prefixLen := (best.map (·.1)).getD labels.length
  let self := (List.range prefixLen).foldl (writeLabel labels) self
  match best with
  | some (_, off) => self.writeU16 (0xC000 ||| (off &&& 0x3FFF))
  | none => self.extend [0]

def writeName (self : MdnsBuilder) (fqdn : Name) : MdnsBuilder :=
  let labels := (fqdn.rdropWhile (· = '.')).splitOn '.'
  self.writeLabels labels (self.comp.findBest labels)

/-- What every record begins with. -/
def writeHead (self : MdnsBuilder) (name : Name) (rrType : UInt16) (ttl : UInt32) (flush : Bool) :
    MdnsBuilder :=
  let self := (self.writeName name).writeU16 rrType
  (self.writeU16 (classIn ||| if flush then cacheFlush else 0)).writeU32 ttl

def rrAaaa (self : MdnsBuilder) (name : Name) (ttl : UInt32) (addr : Vector UInt8 16)
    (flush : Bool) : MdnsBuilder :=
  let self := ((self.writeHead name typeAaaa ttl flush).writeU16 16).extend addr.toList
  { self with ancount := self.ancount + 1 }

def rrA (self : MdnsBuilder) (name : Name) (ttl : UInt32) (addr : Vector UInt8 4) (flush : Bool) :
    MdnsBuilder :=
  let self := ((self.writeHead name typeA ttl flush).writeU16 4).extend addr.toList
  { self with ancount := self.ancount + 1 }

/-- A record whose length is filled in once its data is written. -/
def rrFilled (self : MdnsBuilder) (name : Name) (rrType : UInt16) (ttl : UInt32) (flush : Bool)
    (writeData : MdnsBuilder → MdnsBuilder) : MdnsBuilder :=
  let self := self.writeHead name rrType ttl flush
  let rdlenPos := self.msg.length
  let self := self.writeU16 0
  let start := self.msg.length
  let self := writeData self
  let rdlen := UInt16.ofNat (self.msg.length - start)
  { self with
    msg := self.msg.take rdlenPos ++ BigEndian.toBytes 2 rdlen.toNat ++ self.msg.drop (rdlenPos + 2)
    ancount := self.ancount + 1 }

def rrPtr (self : MdnsBuilder) (name : Name) (ttl : UInt32) (target : Name) (flush : Bool) :
    MdnsBuilder :=
  self.rrFilled name typePtr ttl flush fun self => self.writeName target

def rrSrv (self : MdnsBuilder) (name : Name) (ttl : UInt32) (port : UInt16) (target : Name)
    (flush : Bool) : MdnsBuilder :=
  self.rrFilled name typeSrv ttl flush fun self =>
    (((self.writeU16 0).writeU16 0).writeU16 port).writeName target

def rrTxt (self : MdnsBuilder) (name : Name) (ttl : UInt32) (entries : List (List UInt8))
    (flush : Bool) : MdnsBuilder :=
  self.rrFilled name typeTxt ttl flush fun self =>
    entries.foldl (fun self e => (self.extend [UInt8.ofNat e.length]).extend e) self

def rrIp (self : MdnsBuilder) (name : Name) (ttl : UInt32) (flush : Bool) : IpAddr → MdnsBuilder
  | .v4 v4 => self.rrA name ttl v4 flush
  | .v6 v6 => self.rrAaaa name ttl v6 flush

end MdnsBuilder

def servicesFqdn : Name := "_services._dns-sd._udp.local.".toList

/-- The entries of a TXT record. -/
def txtEntries (txt : NameMap Name) : List (List UInt8) :=
  (txt.entries.map fun entry => toUtf8 (entry.1 ++ ['='] ++ entry.2)).sort (· ≤ ·)

def buildAnnouncement (serviceType instanceName hostname : Name) (port : UInt16)
    (txt : NameMap Name) (ips : List IpAddr) (ttl : UInt32) : MdnsBuilder :=
  let fullname := instanceName ++ ['.'] ++ serviceType
  let b := MdnsBuilder.new.rrPtr serviceType ttl fullname false
  let b := b.rrPtr servicesFqdn ttl serviceType false
  let b := b.rrSrv fullname ttl port hostname true
  let b := b.rrTxt fullname ttl (txtEntries txt) true
  ips.foldl (fun b ip => b.rrIp hostname ttl true ip) b

/-- `build_announcement_packet`. -/
def buildAnnouncementPacket (serviceType instanceName hostname : Name) (port : UInt16)
    (txt : NameMap Name) (ips : List IpAddr) (ttl : UInt32) : List UInt8 :=
  let b := buildAnnouncement serviceType instanceName hostname port txt ips ttl
  b.buildHeader ++ b.msg

/-! ## The parser -/

structure DnsQuestion where
  name : Name
  deriving DecidableEq

structure ParsedDnsMessage where
  isResponse : Bool
  questions : List DnsQuestion
  records : List DnsRecord

abbrev Parse (α : Type) := Exec Unit α

/-- `from_be_bytes` of bytes read one by one. -/
def readBe (buf : List UInt8) (pos width : Nat) : Parse Nat := do
  let bytes ← slice buf pos (pos + width)
  pure (BigEndian.ofBytes bytes)

/-- The loop of `parse_name`: a pointer takes one of the 20 steps, a label goes on in the buffer. -/
def nameLoop (buf : List UInt8) (name : Name) (pos : Nat) (jumped : Bool) (jumpEnd steps : Nat) :
    Parse (Name × Nat) :=
  if pos ≥ buf.length then fail ()
  else do
    let len ← index buf pos
    if len &&& 0xC0 = 0xC0 then
      if pos + 1 ≥ buf.length then fail ()
      else
        let low ← index buf (pos + 1)
        let ptr := (((len.toUInt16 &&& 0x3F) <<< 8) ||| low.toUInt16).toNat
        let jumpEnd := if jumped then jumpEnd else pos + 2
        if steps + 1 > 20 then fail ()
        else nameLoop buf name ptr true jumpEnd (steps + 1)
    else if len = 0 then pure (name ++ ['.'], if jumped then jumpEnd else pos + 1)
    else if pos + 1 + len.toNat > buf.length then fail ()
    else
      let name := if name ≠ [] then name ++ ['.'] else name
      let bytes ← slice buf (pos + 1) (pos + 1 + len.toNat)
      let label ← orFail (fromUtf8 bytes) ()
      nameLoop buf (name ++ label) (pos + 1 + len.toNat) jumped jumpEnd steps
termination_by (20 - steps, buf.length - pos)

def parseName (buf : List UInt8) (start : Nat) : Parse (Name × Nat) :=
  nameLoop buf [] start false start 0

def parseQuestions (buf : List UInt8) : Nat → Nat → Parse (List DnsQuestion × Nat)
  | 0, pos => pure ([], pos)
  | qd + 1, pos => do
    let (name, pos) ← parseName buf pos
    if pos + 4 > buf.length then fail ()
    else
      let (questions, pos) ← parseQuestions buf qd (pos + 4)
      pure (⟨name⟩ :: questions, pos)

/-- An entry of a TXT record; without `=` it is dropped. -/
def insertEntry (map : NameMap Name) (bytes : List UInt8) : NameMap Name :=
  let txt := (fromUtf8 bytes).getD []
  match txt.findIdx? (· = '=') with
  | some eq => map.insert (txt.take eq) (txt.drop (eq + 1))
  | none => map

def parseTxt (buf : List UInt8) (rend : Nat) (map : NameMap Name) (i : Nat) :
    Parse (NameMap Name) :=
  if i < rend then do
    let len ← index buf i
    if i + 1 + len.toNat > rend then pure map
    else
      let bytes ← slice buf (i + 1) (i + 1 + len.toNat)
      parseTxt buf rend (insertEntry map bytes) (i + 1 + len.toNat)
  else pure map
termination_by rend - i

/-- `copy_from_slice`, into an array. -/
def copyFromSlice (n : Nat) (bytes : List UInt8) : Parse (Vector UInt8 n) :=
  if h : bytes.length = n then pure ⟨bytes.toArray, h⟩ else .error .panic

def parseData (buf : List UInt8) (rrType rstart rdlen : Nat) : Parse DnsRData :=
  match rrType with
  | 12 => do
    let (target, _) ← parseName buf rstart
    pure (.ptr target)
  | 33 =>
    if rdlen < 6 then pure .unknown
    else do
      let port ← readBe buf (rstart + 4) 2
      let (target, _) ← parseName buf (rstart + 6)
      pure (.srv target (.ofNat port))
  | 16 => do
    let map ← parseTxt buf (rstart + rdlen) ∅ rstart
    pure (.txt map)
  | 1 =>
    if rdlen = 4 then do
      let bytes ← slice buf rstart (rstart + 4)
      let ip ← copyFromSlice 4 bytes
      pure (.a ip)
    else pure .unknown
  | 28 =>
    if rdlen = 16 then do
      let bytes ← slice buf rstart (rstart + 16)
      let oct ← copyFromSlice 16 bytes
      pure (.aaaa oct)
    else pure .unknown
  | _ => pure .unknown

def parseRecord (buf : List UInt8) (pos : Nat) : Parse (DnsRecord × Nat) := do
  let (name, pos) ← parseName buf pos
  if pos + 10 > buf.length then fail ()
  else
    let rrType ← readBe buf pos 2
    let _rrClass ← readBe buf (pos + 2) 2
    let ttl ← readBe buf (pos + 4) 4
    let rdlen ← readBe buf (pos + 8) 2
    let pos := pos + 10
    if pos + rdlen > buf.length then fail ()
    else
      let data ← parseData buf rrType pos rdlen
      pure (⟨name, .ofNat ttl, data⟩, pos + rdlen)

def parseRecords (buf : List UInt8) : Nat → Nat → Parse (List DnsRecord)
  | 0, _ => pure []
  | count + 1, pos => do
    let (record, pos) ← parseRecord buf pos
    let records ← parseRecords buf count pos
    pure (record :: records)

/-- `ParsedDnsMessage::parse`. -/
def ParsedDnsMessage.parse (buf : List UInt8) : Parse ParsedDnsMessage :=
  if buf.length < 12 then fail ()
  else do
    let flags ← readBe buf 2 2
    let isResponse : Bool := flags &&& 0x8000 ≠ 0
    let qd ← readBe buf 4 2
    let an ← readBe buf 6 2
    let ns ← readBe buf 8 2
    let ar ← readBe buf 10 2
    let (questions, pos) ← parseQuestions buf qd 12
    let records ← parseRecords buf (an + ns + ar) pos
    pure ⟨isResponse, questions, records⟩

end Catplay.Model.Bonjour
