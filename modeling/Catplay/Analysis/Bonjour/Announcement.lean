import Catplay.Analysis.Bonjour.Names

/-!
# The round trip of announcements

What the parser makes of an announcement (`announcement_round_trip`): the builder keeps its table of
suffixes right and every record readable (`Written`), one record after another. And the parser
reads no byte out of bounds, whatever it is given (`meets_parse`).
-/

set_option autoImplicit false

namespace Catplay.Analysis.Bonjour

open Catplay.Library Catplay.Library.Checked Catplay.Library.Text Catplay.Model.Bonjour

/-! ## What a record is written as -/

/-- The fields between the name of a record and its data. -/
def headBytes (rrType : UInt16) (ttl : UInt32) (flush : Bool) (rdlen : Nat) : List UInt8 :=
  BigEndian.toBytes 2 rrType.toNat ++
    (BigEndian.toBytes 2 (classIn ||| if flush then cacheFlush else 0).toNat ++
      (BigEndian.toBytes 4 ttl.toNat ++ BigEndian.toBytes 2 rdlen))

theorem length_headBytes (rrType : UInt16) (ttl : UInt32) (flush : Bool) (rdlen : Nat) :
    (headBytes rrType ttl flush rdlen).length = 10 := by
  unfold headBytes
  simp only [List.length_append, BigEndian.length_toBytes]

theorem length_append_sub (front back : List UInt8) :
    (front ++ back).length - front.length = back.length := by
  rw [List.length_append, Nat.add_sub_cancel_left]

theorem patched (front hole back filled : List UInt8) (hhole : hole.length = 2) :
    (front ++ hole ++ back).take front.length ++ filled ++
      (front ++ hole ++ back).drop (front.length + 2) = front ++ filled ++ back := by
  have hfront : (front ++ hole ++ back).take front.length = front := by
    rw [List.append_assoc, List.take_left]
  have hback : (front ++ hole ++ back).drop (front.length + 2) = back := by
    rw [← hhole, ← List.length_append, List.drop_left]
  rw [hfront, hback]

variable {bytes : NameCompressor → List UInt8} {labels : List Name}
  {remember : NameCompressor → Nat → NameCompressor} {writeData : MdnsBuilder → MdnsBuilder}
  {n jumps jumps' : Nat} {data : DnsRData} {rrType : UInt16} {b : MdnsBuilder} {txt : NameMap Name}

/-- **A record is written** after what the builder has. -/
theorem rrFilled_eq (b : MdnsBuilder) (hlabels : AreLabels labels)
    (rrType : UInt16) (ttl : UInt32) (flush : Bool)
    (hdata : ∀ b, writeData b =
      { b with msg := b.msg ++ bytes b.comp, comp := remember b.comp b.msg.length }) :
    b.rrFilled (fqdn labels) rrType ttl flush writeData =
      let known := rememberAll b.comp b.comp b.msg.length labels
      { msg := b.msg ++ (nameBytes b.comp labels ++
          (headBytes rrType ttl flush (UInt16.ofNat (bytes known).length).toNat ++ bytes known))
        comp := remember known (b.msg.length + (nameBytes b.comp labels).length + 10)
        arcount := b.arcount
        ancount := b.ancount + 1 } := by
  unfold MdnsBuilder.rrFilled MdnsBuilder.writeHead
  rw [writeName_eq b hlabels]
  unfold MdnsBuilder.writeU16 MdnsBuilder.writeU32 MdnsBuilder.extend
  dsimp only
  rw [hdata]
  dsimp only
  rw [length_append_sub, patched _ _ _ _ (BigEndian.length_toBytes 2 _)]
  unfold headBytes
  simp only [List.append_assoc, List.length_append, BigEndian.length_toBytes, ← Nat.add_assoc]

/-! ## Reading a record -/

theorem readBe_of_holds {buf : List UInt8} {pos width : Nat} (hwidth : 0 < width)
    (hn : n < 256 ^ width) (h : Holds buf pos (BigEndian.toBytes width n)) :
    readBe buf pos width = .ok n := by
  have hne : BigEndian.toBytes width n ≠ [] := by
    intro hnil
    have := BigEndian.length_toBytes width n
    rw [hnil] at this
    exact absurd this (Nat.ne_of_lt hwidth)
  unfold readBe
  rw [h.slice hne (by rw [BigEndian.length_toBytes]), ok_bind, BigEndian.ofBytes_toBytes hn]
  rfl

/-- **A record is read** once its data is. -/
theorem parseRecord_of_holds {buf : List UInt8} {pos mid rdlen : Nat} {ttl : UInt32} {flush : Bool}
    (hname : NameAt buf pos labels jumps mid) (hlabels : AreLabels labels) (hjumps : jumps ≤ 20)
    (hhead : Holds buf mid (headBytes rrType ttl flush rdlen)) (hrdlen : rdlen < 2 ^ 16)
    (hfits : mid + 10 + rdlen ≤ buf.length)
    (hdata : parseData buf rrType.toNat (mid + 10) rdlen = .ok data) :
    parseRecord buf pos = .ok (⟨fqdn labels, ttl, data⟩, mid + 10 + rdlen) := by
  have htype : readBe buf mid 2 = .ok rrType.toNat :=
    readBe_of_holds (by decide) rrType.toNat_lt hhead.left
  have hclass := readBe_of_holds (by decide) (UInt16.toNat_lt _) hhead.right.left
  have httl := readBe_of_holds (by decide) ttl.toNat_lt hhead.right.right.left
  have hlen := readBe_of_holds (by decide) hrdlen hhead.right.right.right
  simp only [BigEndian.length_toBytes] at hclass httl hlen
  unfold parseRecord
  rw [parseName_of_nameAt hname hlabels hjumps, ok_bind]
  dsimp only
  rw [if_neg (by omega), htype, ok_bind, hclass, ok_bind, httl, ok_bind, hlen, ok_bind,
    if_neg (by omega), hdata, ok_bind, UInt32.ofNat_toNat]
  rfl

/-- The records are read one after another, whatever follows them. -/
def RecordsAt (buf : List UInt8) : Nat → List DnsRecord → Nat → Prop
  | pos, [], stop => pos = stop
  | pos, record :: records, stop =>
    ∃ mid, (∀ more, parseRecord (buf ++ more) pos = .ok (record, mid)) ∧
      RecordsAt buf mid records stop

namespace RecordsAt

variable {buf : List UInt8} {pos mid stop : Nat} {records : List DnsRecord}

theorem append (h : RecordsAt buf pos records stop) (more : List UInt8) :
    RecordsAt (buf ++ more) pos records stop := by
  induction records generalizing pos with
  | nil => exact h
  | cons record records ih =>
    obtain ⟨mid, hrecord, hrest⟩ := h
    refine ⟨mid, fun further => ?_, ih hrest⟩
    rw [List.append_assoc]
    exact hrecord _

theorem concat (h : RecordsAt buf pos records mid) {record : DnsRecord}
    (hrecord : ∀ more, parseRecord (buf ++ more) mid = .ok (record, stop)) :
    RecordsAt buf pos (records ++ [record]) stop := by
  induction records generalizing pos with
  | nil =>
    obtain rfl : pos = mid := h
    exact ⟨stop, hrecord, rfl⟩
  | cons first records ih =>
    obtain ⟨next, hfirst, hrest⟩ := h
    exact ⟨next, hfirst, ih hrest⟩

theorem parse (h : RecordsAt buf pos records stop) :
    parseRecords buf records.length pos = .ok records := by
  induction records generalizing pos with
  | nil => rfl
  | cons record records ih =>
    obtain ⟨mid, hrecord, hrest⟩ := h
    have hfirst := hrecord []
    rw [List.append_nil] at hfirst
    rw [List.length_cons, parseRecords, hfirst, ok_bind]
    dsimp only
    rw [ih hrest]
    rfl

end RecordsAt

/-! ## What the builder has written -/

/-- Behind a header the records are read as they were written, with that many jumps to a suffix at
most. -/
structure Written (header : List UInt8) (jumps : Nat) (records : List DnsRecord) (b : MdnsBuilder) :
    Prop where
  table : Table (header ++ b.msg) jumps b.comp
  reads : RecordsAt (header ++ b.msg) 12 records (12 + b.msg.length)
  ancount : b.ancount = records.length
  arcount : b.arcount = 0
  /-- A record has a byte at least. -/
  count : records.length ≤ b.msg.length

variable {header : List UInt8}

theorem written_new : Written header 0 [] .new :=
  ⟨Table.empty, rfl, rfl, rfl, Nat.le_refl 0⟩

/-- **The data of a record**: what a step writes of it is read back, and the table stays right. -/
structure WritesData (rrType : UInt16) (data : DnsRData) (jumps jumps' : Nat)
    (writeData : MdnsBuilder → MdnsBuilder) (bytes : NameCompressor → List UInt8)
    (remember : NameCompressor → Nat → NameCompressor) : Prop where
  write : ∀ b, writeData b =
    { b with msg := b.msg ++ bytes b.comp, comp := remember b.comp b.msg.length }
  read : ∀ {buf known length}, Table buf jumps known → Holds buf (length + 12) (bytes known) →
    length + 12 + (bytes known).length ≤ 2 ^ 14 →
    parseData buf rrType.toNat (length + 12) (bytes known).length = .ok data
  table : ∀ {buf known length}, Table buf jumps known → Holds buf (length + 12) (bytes known) →
    length + 12 + (bytes known).length ≤ 2 ^ 14 → Table buf jumps' (remember known length)

/-- **A name leaves the table right**, with no further jump if it was known. -/
theorem Table.afterName {buf : List UInt8} {length : Nat} {comp : NameCompressor}
    (h : Table buf jumps comp) (hlabels : AreLabels labels)
    (hknown : jumps' = jumps + 1 ∨ jumps' = jumps ∧ (comp.lookup (fqdn labels)).isSome)
    (hname : Holds buf (length + 12) (nameBytes comp labels))
    (hsmall : length + 12 + (nameBytes comp labels).length ≤ 2 ^ 14) :
    Table buf jumps' (Analysis.Bonjour.rememberAll comp comp length labels) := by
  rcases hknown with rfl | ⟨rfl, hsome⟩
  · exact Table.rememberAll h (h.mono (Nat.le_succ jumps)) hlabels.label hname hsmall
  · rw [rememberAll_of_known hsome hlabels.nonempty]
    exact h

/-- **One more record.** -/
theorem Written.filled (hheader : header.length = 12) {jumps'' : Nat} {records : List DnsRecord}
    (h : Written header jumps records b) (hjumps : jumps < 20) (hlabels : AreLabels labels)
    (hknown : jumps' = jumps + 1 ∨ jumps' = jumps ∧ (b.comp.lookup (fqdn labels)).isSome)
    (hdata : WritesData rrType data jumps' jumps'' writeData bytes remember) (ttl : UInt32)
    (flush : Bool)
    (hsmall : 12 + (b.rrFilled (fqdn labels) rrType ttl flush writeData).msg.length ≤ 2 ^ 14) :
    Written header jumps'' (records ++ [⟨fqdn labels, ttl, data⟩])
      (b.rrFilled (fqdn labels) rrType ttl flush writeData) := by
  rw [rrFilled_eq b hlabels rrType ttl flush hdata.write] at hsmall ⊢
  dsimp only at hsmall ⊢
  generalize hknow : rememberAll b.comp b.comp b.msg.length labels = known at hsmall ⊢
  have hhead := length_headBytes rrType ttl flush
  rw [List.length_append, List.length_append, List.length_append, hhead] at hsmall
  have hrdlen : (UInt16.ofNat (bytes known).length).toNat = (bytes known).length := by
    rw [UInt16.toNat_ofNat']
    omega
  rw [hrdlen]
  have hholds := holds_end (header ++ b.msg) (nameBytes b.comp labels ++
    (headBytes rrType ttl flush (bytes known).length ++ bytes known))
  rw [List.append_assoc, List.length_append, hheader, Nat.add_comm] at hholds
  have hbytes := hholds.right.right
  have hmid : b.msg.length + 12 + (nameBytes b.comp labels).length +
      (headBytes rrType ttl flush (bytes known).length).length =
        b.msg.length + (nameBytes b.comp labels).length + 10 + 12 := by
    rw [hhead]
    omega
  rw [hmid] at hbytes
  have htable := h.table.append (nameBytes b.comp labels ++
    (headBytes rrType ttl flush (bytes known).length ++ bytes known))
  rw [List.append_assoc] at htable
  have hname := nameAt_of_nameBytes htable hlabels.label hholds.left
  have hknownTable := htable.afterName hlabels hknown hholds.left (by omega)
  rw [hknow] at hknownTable
  refine ⟨hdata.table hknownTable hbytes (by omega), ?_, ?_, h.arcount, ?_⟩
  · have hreads := h.reads.append (nameBytes b.comp labels ++
      (headBytes rrType ttl flush (bytes known).length ++ bytes known))
    rw [List.append_assoc] at hreads
    refine hreads.concat fun more => ?_
    have hread := hdata.read (hknownTable.append more) (hbytes.append more) (by omega)
    have hstop : 12 + (b.msg ++ (nameBytes b.comp labels ++
        (headBytes rrType ttl flush (bytes known).length ++ bytes known))).length =
          b.msg.length + 12 + (nameBytes b.comp labels).length + 10 + (bytes known).length := by
      simp only [List.length_append, hhead]
      omega
    have hstart : b.msg.length + (nameBytes b.comp labels).length + 10 + 12 =
        b.msg.length + 12 + (nameBytes b.comp labels).length + 10 := by omega
    have hfits : b.msg.length + 12 + (nameBytes b.comp labels).length + 10 + (bytes known).length ≤
        (header ++ (b.msg ++ (nameBytes b.comp labels ++
          (headBytes rrType ttl flush (bytes known).length ++ bytes known))) ++ more).length := by
      rw [List.length_append, List.length_append, hheader]
      omega
    rw [hstart] at hread
    rw [hstop, Nat.add_comm 12]
    exact parseRecord_of_holds (hname.append more) hlabels hjumps
      (hholds.right.left.append more) (by omega) hfits hread
  · rw [h.ancount, List.length_append, List.length_singleton]
  · have hcount := h.count
    simp only [List.length_append, List.length_singleton, hhead]
    omega

/-! ## The data of the records -/

theorem writesData_ptr (hjumps : jumps < 20) {target : List Name} (htarget : AreLabels target) :
    WritesData typePtr (.ptr (fqdn target)) jumps (jumps + 1) (·.writeName (fqdn target))
      (nameBytes · target) (fun comp length => rememberAll comp comp length target) where
  write b := writeName_eq b htarget
  read := by
    intro buf known length htable hholds hsmall
    have hname := nameAt_of_nameBytes htable htarget.label hholds
    show (parseName buf (length + 12) >>= fun target => pure (DnsRData.ptr target.1)) = _
    rw [parseName_of_nameAt hname htarget hjumps, ok_bind]
    rfl
  table := by
    intro buf known length htable hholds hsmall
    exact htable.afterName htarget (.inl rfl) hholds hsmall

theorem writesData_srv (hjumps : jumps < 20) {target : List Name}
    (htarget : AreLabels target) (port : UInt16) :
    WritesData typeSrv (.srv (fqdn target) port) jumps (jumps + 1)
      (fun b => (((b.writeU16 0).writeU16 0).writeU16 port).writeName (fqdn target))
      (fun comp => BigEndian.toBytes 2 0 ++ BigEndian.toBytes 2 0 ++
        (BigEndian.toBytes 2 port.toNat ++ nameBytes comp target))
      (fun comp length => rememberAll comp comp (length + 6) target) where
  write b := by
    rw [writeName_eq _ htarget]
    unfold MdnsBuilder.writeU16 MdnsBuilder.extend
    simp only [List.append_assoc, List.length_append, BigEndian.length_toBytes, ← Nat.add_assoc]
    rfl
  read := by
    intro buf known length htable hholds hsmall
    have hport := readBe_of_holds (by decide) port.toNat_lt hholds.right.left
    have hname := nameAt_of_nameBytes htable htarget.label hholds.right.right
    simp only [List.length_append, BigEndian.length_toBytes] at hport hname
    have hlong : ¬(BigEndian.toBytes 2 0 ++ BigEndian.toBytes 2 0 ++
        (BigEndian.toBytes 2 port.toNat ++ nameBytes known target)).length < 6 := by
      simp only [List.length_append, BigEndian.length_toBytes]
      omega
    have htype : typeSrv.toNat = 33 := rfl
    rw [htype]
    unfold parseData
    dsimp only
    rw [if_neg hlong, hport, ok_bind, parseName_of_nameAt hname htarget hjumps, ok_bind,
      UInt16.ofNat_toNat]
    rfl
  table := by
    intro buf known length htable hholds hsmall
    have hname := hholds.right.right
    simp only [List.length_append, BigEndian.length_toBytes] at hname hsmall
    have hpos : length + 12 + (2 + 2) + 2 = length + 6 + 12 := by omega
    rw [hpos] at hname
    exact htable.afterName htarget (.inl rfl) hname (by omega)

theorem copyFromSlice_toList (v : Vector UInt8 n) :
    copyFromSlice n v.toList = .ok v := by
  unfold copyFromSlice
  rw [dif_pos v.length_toList]
  rfl

/-- An address, of 4 bytes or of 16. -/
theorem writesData_octets (hn : 0 < n) (jumps : Nat)
    {data : Vector UInt8 n → DnsRData}
    (hparse : ∀ buf rstart, parseData buf rrType.toNat rstart n =
      slice buf rstart (rstart + n) >>= fun bytes => copyFromSlice n bytes >>= fun ip =>
        pure (data ip))
    (ip : Vector UInt8 n) :
    WritesData rrType (data ip) jumps jumps (·.extend ip.toList) (fun _ => ip.toList)
      (fun comp _ => comp) where
  write _ := rfl
  read := by
    intro buf known length _ hholds _
    have hne : ip.toList ≠ [] := List.length_pos_iff.mp (by rw [ip.length_toList]; exact hn)
    rw [ip.length_toList, hparse, hholds.slice hne (by rw [ip.length_toList]), ok_bind,
      copyFromSlice_toList, ok_bind]
    rfl
  table := fun htable _ _ => htable

theorem writesData_a (jumps : Nat) (ip : Vector UInt8 4) :
    WritesData typeA (.a ip) jumps jumps (·.extend ip.toList) (fun _ => ip.toList)
      (fun comp _ => comp) :=
  writesData_octets (by decide) jumps (fun _ _ => rfl) ip

theorem writesData_aaaa (jumps : Nat) (ip : Vector UInt8 16) :
    WritesData typeAaaa (.aaaa ip) jumps jumps (·.extend ip.toList) (fun _ => ip.toList)
      (fun comp _ => comp) :=
  writesData_octets (by decide) jumps (fun _ _ => rfl) ip

/-- The length of an address is written at once. -/
theorem rrFilled_octets (b : MdnsBuilder) (name : Name) (rrType : UInt16) (ttl : UInt32)
    (flush : Bool) (ip : Vector UInt8 n) :
    b.rrFilled name rrType ttl flush (·.extend ip.toList) =
      let b' := ((b.writeHead name rrType ttl flush).writeU16 (.ofNat n)).extend ip.toList
      { b' with ancount := b'.ancount + 1 } := by
  unfold MdnsBuilder.rrFilled MdnsBuilder.writeU16 MdnsBuilder.extend
  dsimp only
  rw [length_append_sub, ip.length_toList, patched _ _ _ _ (BigEndian.length_toBytes 2 _)]

/-! ## TXT entries -/

def entryBytes (entry : Σ _ : Name, Name) : List UInt8 :=
  toUtf8 (entry.1 ++ ['='] ++ entry.2)

/-- **An entry is read back.** -/
theorem insertEntry_entryBytes (map : NameMap Name) {entry : Σ _ : Name, Name} (h : '=' ∉ entry.1) :
    insertEntry map (entryBytes entry) = map.insert entry.1 entry.2 := by
  have hfind : (entry.1 ++ ['='] ++ entry.2).findIdx? (· = '=') = some entry.1.length := by
    have hkey : entry.1.findIdx? (· = '=') = none := by
      rw [List.findIdx?_eq_none_iff]
      intro c hc
      exact decide_eq_false fun heq => h (heq ▸ hc)
    rw [List.append_assoc, List.findIdx?_append, hkey]
    simp [List.findIdx?_cons]
  unfold insertEntry entryBytes
  rw [fromUtf8_toUtf8, Option.getD_some]
  dsimp only
  rw [hfind]
  dsimp only
  have htake : (entry.1 ++ ['='] ++ entry.2).take entry.1.length = entry.1 := by
    rw [List.append_assoc, List.take_left]
  have hdrop : (entry.1 ++ ['='] ++ entry.2).drop (entry.1.length + 1) = entry.2 := by
    rw [← List.drop_drop, List.append_assoc, List.drop_left]
    rfl
  rw [htake, hdrop]

theorem lookup_insertEntries
    (hkeys : ∀ key value, txt.lookup key = some value → '=' ∉ key) {entries : List (List UInt8)}
    (hentries : ∀ bytes ∈ entries, ∃ key value, txt.lookup key = some value ∧
      entryBytes ⟨key, value⟩ = bytes) (map : NameMap Name) (key : Name)
    (h : map.lookup key = txt.lookup key ∨
      ∃ value, txt.lookup key = some value ∧ entryBytes ⟨key, value⟩ ∈ entries) :
    (entries.foldl insertEntry map).lookup key = txt.lookup key := by
  induction entries generalizing map with
  | nil =>
    rcases h with h | ⟨_, _, hmem⟩
    · exact h
    · cases hmem
  | cons bytes entries ih =>
    rw [List.foldl_cons]
    refine ih (fun e he => hentries e (List.mem_cons_of_mem bytes he)) _ ?_
    obtain ⟨key', value', hvalue', hbytes'⟩ := hentries bytes List.mem_cons_self
    by_cases heq : key = key'
    · left
      rw [← hbytes', insertEntry_entryBytes map (hkeys key' value' hvalue'), heq,
        Finmap.lookup_insert, hvalue']
    · rcases h with h | ⟨value, hvalue, hmem⟩
      · left
        rw [← hbytes', insertEntry_entryBytes map (hkeys key' value' hvalue'),
          Finmap.lookup_insert_of_ne _ heq, h]
      · rcases List.mem_cons.mp hmem with hhere | hlater
        · left
          rw [← hhere, insertEntry_entryBytes map (hkeys key value hvalue), Finmap.lookup_insert,
            hvalue]
        · exact .inr ⟨value, hvalue, hlater⟩

/-- **The map is read back**, in whatever order its entries are. -/
theorem insertEntries_txtEntries (hkeys : ∀ key value, txt.lookup key = some value → '=' ∉ key) :
    (txtEntries txt).foldl insertEntry ∅ = txt := by
  have hmem : ∀ bytes, bytes ∈ txtEntries txt ↔
      ∃ key value, txt.lookup key = some value ∧ entryBytes ⟨key, value⟩ = bytes := by
    intro bytes
    unfold txtEntries
    rw [Multiset.mem_sort, Multiset.mem_map]
    constructor
    · rintro ⟨⟨key, value⟩, hentry, heq⟩
      exact ⟨key, value, Finmap.mem_lookup_iff.mpr hentry, heq⟩
    · rintro ⟨key, value, hvalue, heq⟩
      exact ⟨⟨key, value⟩, Finmap.mem_lookup_iff.mp hvalue, heq⟩
  refine Finmap.ext_lookup fun key => ?_
  refine lookup_insertEntries hkeys (fun bytes h => (hmem bytes).mp h) ∅ key ?_
  cases hvalue : txt.lookup key with
  | none => exact .inl (Finmap.lookup_empty key)
  | some value => exact .inr ⟨value, rfl, (hmem _).mpr ⟨key, value, hvalue, rfl⟩⟩

theorem parseTxt_of_holds {buf : List UInt8} {entries : List (List UInt8)}
    (hentries : ∀ e ∈ entries, e ≠ [] ∧ e.length < 256) {i rend : Nat}
    (hrend : rend = i + (entries.flatMap fun e => UInt8.ofNat e.length :: e).length)
    (h : Holds buf i (entries.flatMap fun e => UInt8.ofNat e.length :: e)) (map : NameMap Name) :
    parseTxt buf rend map i = .ok (entries.foldl insertEntry map) := by
  induction entries generalizing i map with
  | nil =>
    rw [parseTxt, if_neg (by simp at hrend; omega)]
    rfl
  | cons e entries ih =>
    obtain ⟨hne, hshort⟩ := hentries e List.mem_cons_self
    rw [List.flatMap_cons] at h hrend
    have hlen : (UInt8.ofNat e.length).toNat = e.length := by
      rw [UInt8.toNat_ofNat', Nat.mod_eq_of_lt hshort]
    rw [List.length_append, List.length_cons] at hrend
    have hnext : i + (UInt8.ofNat e.length :: e).length = i + 1 + e.length := by
      rw [List.length_cons]
      omega
    have hrest := h.right
    rw [hnext] at hrest
    rw [parseTxt, if_pos (by omega), h.left.index, ok_bind, hlen, if_neg (by omega),
      h.left.tail.slice hne rfl, ok_bind]
    exact ih (fun e he => hentries e (List.mem_cons_of_mem _ he)) (by omega) hrest _

theorem extend_entries (b : MdnsBuilder) (entries : List (List UInt8)) :
    entries.foldl (fun b e => (b.extend [UInt8.ofNat e.length]).extend e) b =
      { b with msg := b.msg ++ entries.flatMap fun e => UInt8.ofNat e.length :: e } := by
  induction entries generalizing b with
  | nil => exact (congrArg (fun msg => { b with msg }) (List.append_nil b.msg)).symm
  | cons e entries ih =>
    rw [List.foldl_cons, ih, List.flatMap_cons]
    unfold MdnsBuilder.extend
    simp

/-- What the builder is given for the TXT record: keys without `=`, entries of up to 255 bytes. -/
def TxtFits (txt : NameMap Name) : Prop :=
  ∀ key value, txt.lookup key = some value →
    '=' ∉ key ∧ (toUtf8 (key ++ ['='] ++ value)).length ≤ 255

theorem writesData_txt (jumps : Nat) (htxt : TxtFits txt) :
    WritesData typeTxt (.txt txt) jumps jumps
      (fun b => (txtEntries txt).foldl (fun b e => (b.extend [UInt8.ofNat e.length]).extend e) b)
      (fun _ => (txtEntries txt).flatMap fun e => UInt8.ofNat e.length :: e)
      (fun comp _ => comp) where
  write b := extend_entries b (txtEntries txt)
  read := by
    intro buf known length _ hholds _
    have hentries : ∀ e ∈ txtEntries txt, e ≠ [] ∧ e.length < 256 := by
      intro e he
      unfold txtEntries at he
      rw [Multiset.mem_sort, Multiset.mem_map] at he
      obtain ⟨⟨key, value⟩, hentry, rfl⟩ := he
      obtain ⟨-, hshort⟩ := htxt key value (Finmap.mem_lookup_iff.mpr hentry)
      exact ⟨toUtf8_ne_nil (by simp), Nat.lt_succ_of_le hshort⟩
    show (parseTxt buf _ ∅ (length + 12) >>= fun map => pure (DnsRData.txt map)) = _
    rw [parseTxt_of_holds hentries rfl hholds, ok_bind,
      insertEntries_txtEntries fun key value h => (htxt key value h).1]
    rfl
  table := fun htable _ _ => htable

/-! ## The announcement -/

theorem length_le_rrFilled (b : MdnsBuilder) (hlabels : AreLabels labels)
    (hdata : WritesData rrType data jumps jumps' writeData bytes remember) (ttl : UInt32)
    (flush : Bool) :
    b.msg.length ≤ (b.rrFilled (fqdn labels) rrType ttl flush writeData).msg.length := by
  rw [rrFilled_eq b hlabels rrType ttl flush hdata.write, List.length_append]
  exact Nat.le_add_right _ _

theorem comp_rrFilled (b : MdnsBuilder) (hlabels : AreLabels labels)
    (hdata : WritesData rrType data jumps jumps' writeData bytes remember) (ttl : UInt32)
    (flush : Bool) :
    (b.rrFilled (fqdn labels) rrType ttl flush writeData).comp =
      remember (rememberAll b.comp b.comp b.msg.length labels)
        (b.msg.length + (nameBytes b.comp labels).length + 10) := by
  rw [rrFilled_eq b hlabels rrType ttl flush hdata.write]

/-- What an address is read as. -/
def ipData : IpAddr → DnsRData
  | .v4 v4 => .a v4
  | .v6 v6 => .aaaa v6

/-- An address is a record of the same kind whether of 4 bytes or of 16. -/
theorem rrIp_eq (b : MdnsBuilder) (name : Name) (ttl : UInt32) (flush : Bool) (ip : IpAddr) :
    ∃ (rrType : UInt16) (octets : List UInt8),
      (∀ jumps, WritesData rrType (ipData ip) jumps jumps (·.extend octets) (fun _ => octets)
        fun comp _ => comp) ∧
      b.rrIp name ttl flush ip = b.rrFilled name rrType ttl flush (·.extend octets) := by
  cases ip with
  | v4 v4 =>
    exact ⟨_, _, fun jumps => writesData_a jumps v4,
      (rrFilled_octets b name _ ttl flush v4).symm⟩
  | v6 v6 =>
    exact ⟨_, _, fun jumps => writesData_aaaa jumps v6,
      (rrFilled_octets b name _ ttl flush v6).symm⟩

theorem length_le_ips (b : MdnsBuilder) (hlabels : AreLabels labels)
    (ttl : UInt32) (ips : List IpAddr) :
    b.msg.length ≤ (ips.foldl (fun b ip => b.rrIp (fqdn labels) ttl true ip) b).msg.length := by
  induction ips generalizing b with
  | nil => exact Nat.le_refl _
  | cons ip ips ih =>
    obtain ⟨rrType, octets, hdata, heq⟩ := rrIp_eq b (fqdn labels) ttl true ip
    rw [List.foldl_cons, heq]
    exact Nat.le_trans (length_le_rrFilled b hlabels (hdata 0) ttl true) (ih _)

/-- **The addresses**: the name of the host is known, so no table entry needs a further jump. -/
theorem Written.ips (hheader : header.length = 12)
    {records : List DnsRecord} (h : Written header jumps records b) (hjumps : jumps < 20)
    (hlabels : AreLabels labels)
    (hknown : (b.comp.lookup (fqdn labels)).isSome) (ttl : UInt32) (ips : List IpAddr)
    (hsmall : 12 + (ips.foldl (fun b ip => b.rrIp (fqdn labels) ttl true ip) b).msg.length ≤
      2 ^ 14) :
    Written header jumps (records ++ ips.map fun ip => ⟨fqdn labels, ttl, ipData ip⟩)
      (ips.foldl (fun b ip => b.rrIp (fqdn labels) ttl true ip) b) := by
  induction ips generalizing b records with
  | nil =>
    rw [List.map_nil, List.append_nil]
    exact h
  | cons ip ips ih =>
    obtain ⟨rrType, octets, hdata, heq⟩ := rrIp_eq b (fqdn labels) ttl true ip
    rw [List.foldl_cons, heq] at hsmall ⊢
    have hhere := length_le_ips (b.rrFilled (fqdn labels) rrType ttl true (·.extend octets)) hlabels
      ttl ips
    have hone := h.filled hheader hjumps hlabels (.inr ⟨rfl, hknown⟩) (hdata jumps) ttl true
      (by omega)
    have hknown' : ((b.rrFilled (fqdn labels) rrType ttl true (·.extend octets)).comp.lookup
        (fqdn labels)).isSome := by
      rw [comp_rrFilled b hlabels (hdata jumps)]
      exact isSome_rememberAll hknown _ _
    have hrest := ih hone hknown' hsmall
    rw [List.append_assoc, List.singleton_append] at hrest
    rw [List.map_cons]
    exact hrest

/-- The records of an announcement. -/
def announced (serviceType instanceName hostname : List Name) (port : UInt16) (txt : NameMap Name)
    (ips : List IpAddr) (ttl : UInt32) : List DnsRecord :=
  let fullname := dotted instanceName ++ ['.'] ++ fqdn serviceType
  [⟨fqdn serviceType, ttl, .ptr fullname⟩, ⟨servicesFqdn, ttl, .ptr (fqdn serviceType)⟩,
    ⟨fullname, ttl, .srv (fqdn hostname) port⟩, ⟨fullname, ttl, .txt txt⟩] ++
    ips.map fun ip => ⟨fqdn hostname, ttl, ipData ip⟩

def servicesLabels : List Name :=
  ["_services".toList, "_dns-sd".toList, "_udp".toList, "local".toList]

theorem areLabels_services : AreLabels servicesLabels := by
  refine ⟨by decide, fun label hlabel => ?_⟩
  have hall : ∀ label ∈ servicesLabels,
      label ≠ [] ∧ '.' ∉ label ∧ (toUtf8 label).length ≤ 63 := by decide
  obtain ⟨h1, h2, h3⟩ := hall label hlabel
  exact ⟨h1, h2, h3⟩

theorem fqdn_services : fqdn servicesLabels = servicesFqdn := rfl

/-- **The builder writes the announcement.** -/
theorem written_announcement (hheader : header.length = 12)
    {serviceType instanceName hostname : List Name} (hservice : AreLabels serviceType)
    (hinstance : AreLabels instanceName) (hhost : AreLabels hostname) (port : UInt16)
    (htxt : TxtFits txt) (ips : List IpAddr) (ttl : UInt32)
    (hsmall : 12 + (buildAnnouncement (fqdn serviceType) (dotted instanceName) (fqdn hostname) port
      txt ips ttl).msg.length ≤ 2 ^ 14) :
    Written header 7 (announced serviceType instanceName hostname port txt ips ttl)
      (buildAnnouncement (fqdn serviceType) (dotted instanceName) (fqdn hostname) port txt ips
        ttl) := by
  have hfull := hinstance.append hservice
  unfold announced
  unfold buildAnnouncement at hsmall ⊢
  dsimp only at hsmall ⊢
  rw [fqdn_append hinstance.nonempty hservice.nonempty, ← fqdn_services] at hsmall ⊢
  unfold MdnsBuilder.rrPtr MdnsBuilder.rrSrv MdnsBuilder.rrTxt at hsmall ⊢
  have hwrite1 := writesData_ptr (by decide : 1 < 20) hfull
  have hwrite2 := writesData_ptr (by decide : 3 < 20) hservice
  have hwrite3 := writesData_srv (by decide : 5 < 20) hhost port
  have hwrite4 := writesData_txt 7 htxt
  generalize hb1 : MdnsBuilder.new.rrFilled (fqdn serviceType) typePtr ttl false
    (fun b => b.writeName (fqdn (instanceName ++ serviceType))) = b1 at hsmall ⊢
  generalize hb2 : b1.rrFilled (fqdn servicesLabels) typePtr ttl false
    (fun b => b.writeName (fqdn serviceType)) = b2 at hsmall ⊢
  generalize hb3 : b2.rrFilled (fqdn (instanceName ++ serviceType)) typeSrv ttl true
    (fun b => (((b.writeU16 0).writeU16 0).writeU16 port).writeName (fqdn hostname)) = b3
      at hsmall ⊢
  generalize hb4 : b3.rrFilled (fqdn (instanceName ++ serviceType)) typeTxt ttl true
    (fun b => (txtEntries txt).foldl (fun b e => (b.extend [UInt8.ofNat e.length]).extend e) b) = b4
      at hsmall ⊢
  have hle1 := length_le_rrFilled b1 areLabels_services hwrite2 ttl false
  have hle2 := length_le_rrFilled b2 hfull hwrite3 ttl true
  have hle3 := length_le_rrFilled b3 hfull hwrite4 ttl true
  have hle4 := length_le_ips b4 hhost ttl ips
  rw [hb2] at hle1
  rw [hb3] at hle2
  rw [hb4] at hle3
  have h1 := written_new.filled hheader (by decide) hservice (.inl rfl) hwrite1 ttl false
    (by rw [hb1]; omega)
  rw [hb1] at h1
  have h2 := h1.filled hheader (by decide) areLabels_services (.inl rfl) hwrite2 ttl false
    (by rw [hb2]; omega)
  rw [hb2] at h2
  have h3 := h2.filled hheader (by decide) hfull (.inl rfl) hwrite3 ttl true (by rw [hb3]; omega)
  rw [hb3] at h3
  have h4 := h3.filled hheader (by decide) hfull (.inl rfl) hwrite4 ttl true (by rw [hb4]; omega)
  rw [hb4] at h4
  have hknown : (b4.comp.lookup (fqdn hostname)).isSome := by
    rw [← hb4, comp_rrFilled b3 hfull hwrite4, ← hb3, comp_rrFilled b2 hfull hwrite3]
    exact isSome_rememberAll (known_rememberAll _ hhost.nonempty _) _ _
  exact h4.ips hheader (by decide) hhost hknown ttl ips hsmall

/-! ## No read out of bounds -/

section

variable (buf : List UInt8)

/-- The loop reads a byte only once it has seen that it is there; a jump leaves one step fewer, a
label is before the end of the buffer. -/
theorem meets_nameLoop (name : Name) (pos : Nat) (jumped : Bool) (jumpEnd steps : Nat) :
    Meets (nameLoop buf name pos jumped jumpEnd steps) fun _ => True := by
  induction name, pos, jumped, jumpEnd, steps using nameLoop.induct buf with
  | case1 name pos jumped jumpEnd steps hend =>
    rw [nameLoop, if_pos hend]
    exact meets_fail _ _
  | case2 name pos jumped jumpEnd steps hin hjump hlabel =>
    rw [nameLoop, if_neg hin]
    refine (meets_index (Nat.lt_of_not_le hin) (P := fun _ => True) trivial).bind fun len _ => ?_
    refine meets_ite (fun _ => ?_) fun _ => ?_
    · refine meets_ite (fun _ => meets_fail _ _) fun hsecond => ?_
      refine (meets_index (Nat.lt_of_not_le hsecond) (P := fun _ => True) trivial).bind
        fun low _ => ?_
      exact meets_ite (fun _ => meets_fail _ _) fun hsteps => hjump len low hsteps
    · refine meets_ite (fun _ => meets_pure trivial) fun _ => ?_
      refine meets_ite (fun _ => meets_fail _ _) fun hfits => ?_
      refine (meets_slice (Nat.le_add_right _ _) (Nat.le_of_not_lt hfits) (P := fun _ => True)
        trivial).bind fun bytes _ => ?_
      exact (meets_orFail (fun _ _ => trivial) _).bind fun label (_ : True) =>
        hlabel len hfits label

theorem meets_parseName (start : Nat) : Meets (parseName buf start) fun _ => True :=
  meets_nameLoop buf [] start false start 0

theorem meets_readBe {pos width : Nat} (h : pos + width ≤ buf.length) :
    Meets (readBe buf pos width) fun n => n < 256 ^ width := by
  refine (meets_slice (Nat.le_add_right _ _) h (P := fun bytes => bytes.length = width) ?_).bind
    fun bytes hlength => meets_pure ?_
  · rw [List.length_take, List.length_drop]
    omega
  · rw [← hlength]
    exact BigEndian.ofBytes_lt bytes

theorem meets_parseQuestions (qd pos : Nat) : Meets (parseQuestions buf qd pos) fun _ => True := by
  induction qd generalizing pos with
  | zero => exact meets_pure trivial
  | succ qd ih =>
    refine (meets_parseName buf pos).bind fun name _ => ?_
    refine meets_ite (fun _ => meets_fail _ _) fun _ => ?_
    exact (ih _).bind fun _ _ => meets_pure trivial

theorem meets_parseTxt {rend : Nat} (hrend : rend ≤ buf.length) (map : NameMap Name) (i : Nat) :
    Meets (parseTxt buf rend map i) fun _ => True := by
  induction map, i using parseTxt.induct rend with
  | case1 map i hin ih =>
    rw [parseTxt, if_pos hin]
    refine (meets_index (Nat.lt_of_lt_of_le hin hrend) (P := fun _ => True) trivial).bind
      fun len _ => ?_
    refine meets_ite (fun _ => meets_pure trivial) fun hfits => ?_
    refine (meets_slice (Nat.le_add_right _ _) (by omega) (P := fun _ => True) trivial).bind
      fun bytes _ => ?_
    exact ih len hfits bytes
  | case2 map i hend =>
    rw [parseTxt, if_neg hend]
    exact meets_pure trivial

theorem meets_copyFromSlice {n : Nat} {bytes : List UInt8} (h : bytes.length = n) :
    Meets (copyFromSlice n bytes) fun _ => True := by
  unfold copyFromSlice
  rw [dif_pos h]
  exact meets_pure trivial

theorem meets_octets {rstart n : Nat} (hfits : rstart + n ≤ buf.length)
    (data : Vector UInt8 n → DnsRData) :
    Meets (slice buf rstart (rstart + n) >>= fun bytes => copyFromSlice n bytes >>= fun ip =>
      pure (data ip)) fun _ => True := by
  refine (meets_slice (Nat.le_add_right _ _) hfits (P := fun bytes => bytes.length = n) ?_).bind
    fun bytes hlength => ?_
  · rw [List.length_take, List.length_drop]
    omega
  · exact (meets_copyFromSlice hlength).bind fun _ _ => meets_pure trivial

theorem meets_parseData {rrType rstart rdlen : Nat} (hfits : rstart + rdlen ≤ buf.length) :
    Meets (parseData buf rrType rstart rdlen) fun _ => True := by
  unfold parseData
  split
  · exact (meets_parseName buf rstart).bind fun _ _ => meets_pure trivial
  · refine meets_ite (fun _ => meets_pure trivial) fun hlong => ?_
    refine (meets_readBe buf (by omega)).bind fun port _ => ?_
    exact (meets_parseName buf _).bind fun _ _ => meets_pure trivial
  · exact (meets_parseTxt buf hfits ∅ rstart).bind fun _ _ => meets_pure trivial
  · refine meets_ite (fun hlen => ?_) fun _ => meets_pure trivial
    exact meets_octets buf (by omega) .a
  · refine meets_ite (fun hlen => ?_) fun _ => meets_pure trivial
    exact meets_octets buf (by omega) .aaaa
  · exact meets_pure trivial

theorem meets_parseRecord (pos : Nat) : Meets (parseRecord buf pos) fun _ => True := by
  refine (meets_parseName buf pos).bind fun name _ => ?_
  refine meets_ite (fun _ => meets_fail _ _) fun hhead => ?_
  refine (meets_readBe buf (by omega)).bind fun rrType _ => ?_
  refine (meets_readBe buf (by omega)).bind fun rrClass _ => ?_
  refine (meets_readBe buf (by omega)).bind fun ttl _ => ?_
  refine (meets_readBe buf (by omega)).bind fun rdlen _ => ?_
  refine meets_ite (fun _ => meets_fail _ _) fun hfits => ?_
  exact (meets_parseData buf (by omega)).bind fun _ _ => meets_pure trivial

theorem meets_parseRecords (count pos : Nat) :
    Meets (parseRecords buf count pos) fun _ => True := by
  induction count generalizing pos with
  | zero => exact meets_pure trivial
  | succ count ih =>
    refine (meets_parseRecord buf pos).bind fun record _ => ?_
    exact (ih _).bind fun _ _ => meets_pure trivial

/-- **Whatever is received is parsed or refused.** -/
theorem meets_parse : Meets (ParsedDnsMessage.parse buf) fun _ => True := by
  refine meets_ite (fun _ => meets_fail _ _) fun hlong => ?_
  refine (meets_readBe buf (by omega)).bind fun flags _ => ?_
  refine (meets_readBe buf (by omega)).bind fun qd _ => ?_
  refine (meets_readBe buf (by omega)).bind fun an _ => ?_
  refine (meets_readBe buf (by omega)).bind fun ns _ => ?_
  refine (meets_readBe buf (by omega)).bind fun ar _ => ?_
  refine (meets_parseQuestions buf qd 12).bind fun questions _ => ?_
  exact (meets_parseRecords buf _ _).bind fun _ _ => meets_pure trivial

end

/-! ## The round trip -/

theorem length_buildHeader (b : MdnsBuilder) : b.buildHeader.length = 12 := by
  unfold MdnsBuilder.buildHeader
  simp only [List.length_append, BigEndian.length_toBytes, List.length_cons, List.length_nil]

/-- **What was written is parsed.** -/
theorem parse_of_written {records : List DnsRecord}
    (h : Written b.buildHeader jumps records b) (hsmall : 12 + b.msg.length ≤ 2 ^ 14) :
    ParsedDnsMessage.parse (b.buildHeader ++ b.msg) = .ok ⟨true, [], records⟩ := by
  have hcount := h.count
  have hancount : (UInt16.ofNat b.ancount).toNat = records.length := by
    rw [h.ancount, UInt16.toNat_ofNat']
    omega
  have hheader : Holds (b.buildHeader ++ b.msg) 0 (BigEndian.toBytes 2 0 ++
      (BigEndian.toBytes 2 0x8400 ++ (BigEndian.toBytes 2 0 ++
        (BigEndian.toBytes 2 records.length ++
          (BigEndian.toBytes 2 0 ++ BigEndian.toBytes 2 0))))) := by
    refine Holds.append ?_ b.msg
    unfold MdnsBuilder.buildHeader
    rw [hancount, h.arcount]
    simp only [List.append_assoc]
    exact List.prefix_refl _
  have hflags := readBe_of_holds (by decide) (by decide) hheader.right.left
  have hqd := readBe_of_holds (by decide) (by decide) hheader.right.right.left
  have han := readBe_of_holds (by decide) (by omega) hheader.right.right.right.left
  have hns := readBe_of_holds (by decide) (by decide) hheader.right.right.right.right.left
  have har := readBe_of_holds (by decide) (by decide) hheader.right.right.right.right.right
  simp only [BigEndian.length_toBytes, Nat.zero_add, Nat.reduceAdd] at hflags hqd han hns har
  have hlong : ¬(b.buildHeader ++ b.msg).length < 12 := by
    rw [List.length_append, length_buildHeader]
    omega
  unfold ParsedDnsMessage.parse
  rw [if_neg hlong, hflags, ok_bind, hqd, ok_bind, han, ok_bind, hns, ok_bind, har, ok_bind]
  show (parseRecords (b.buildHeader ++ b.msg) records.length 12 >>= _) = _
  rw [h.reads.parse]
  rfl

/-- **Round trip and safety**: an announcement of less than 2^14 bytes is parsed to its records,
every pointer to the suffix it stands for; and whatever is received, nothing is read out of
bounds. -/
theorem announcement_round_trip :
    (∀ serviceType instanceName hostname : List Name, AreLabels serviceType →
      AreLabels instanceName → AreLabels hostname →
      ∀ (port : UInt16) (txt : NameMap Name), TxtFits txt → ∀ (ips : List IpAddr) (ttl : UInt32),
        (buildAnnouncementPacket (fqdn serviceType) (dotted instanceName) (fqdn hostname) port txt
          ips ttl).length < 2 ^ 14 →
        ParsedDnsMessage.parse (buildAnnouncementPacket (fqdn serviceType) (dotted instanceName)
          (fqdn hostname) port txt ips ttl) =
            .ok ⟨true, [], announced serviceType instanceName hostname port txt ips ttl⟩) ∧
      ∀ buf, Meets (ParsedDnsMessage.parse buf) fun _ => True := by
  refine ⟨?_, meets_parse⟩
  intro serviceType instanceName hostname hservice hinstance hhost port txt htxt ips ttl hsmall
  unfold buildAnnouncementPacket at hsmall ⊢
  dsimp only at hsmall ⊢
  rw [List.length_append, length_buildHeader] at hsmall
  exact parse_of_written (written_announcement (length_buildHeader _) hservice hinstance hhost port
    htxt ips ttl (Nat.le_of_lt hsmall)) (Nat.le_of_lt hsmall)

/-- One entry. -/
def oneTxt : NameMap Name := (∅ : NameMap Name).insert "path".toList "=/".toList

theorem txtFits_oneTxt : TxtFits oneTxt := by
  intro key value h
  unfold oneTxt at h
  by_cases heq : key = "path".toList
  · rw [heq, Finmap.lookup_insert] at h
    obtain rfl := Option.some.inj h
    rw [heq]
    decide
  · rw [Finmap.lookup_insert_of_ne _ heq, Finmap.lookup_empty] at h
    cases h

theorem txtEntries_oneTxt : txtEntries oneTxt = [toUtf8 "path==/".toList] := by
  have hentries : oneTxt.entries = {⟨"path".toList, "=/".toList⟩} :=
    Finmap.entries_insert_of_notMem Finmap.notMem_empty
  unfold txtEntries
  rw [hentries, Multiset.map_singleton, Multiset.sort_singleton]
  decide

/-- The service type ends in labels of `servicesFqdn`, and the host has two addresses. -/
theorem announcement_round_trip_host :
    ParsedDnsMessage.parse (buildAnnouncementPacket (fqdn ["_udp".toList, "local".toList])
      (dotted ["Car".toList]) (fqdn ["car".toList, "local".toList]) 7000 oneTxt
      [.v4 #v[10, 0, 0, 1], .v4 #v[10, 0, 0, 2]] 4500) =
        .ok ⟨true, [], announced ["_udp".toList, "local".toList] ["Car".toList]
          ["car".toList, "local".toList] 7000 oneTxt
          [.v4 #v[10, 0, 0, 1], .v4 #v[10, 0, 0, 2]] 4500⟩ := by
  have hlabels : ∀ labels ∈ [["_udp".toList, "local".toList], ["Car".toList],
      ["car".toList, "local".toList]], AreLabels labels := by
    have hall : ∀ labels ∈ [["_udp".toList, "local".toList], ["Car".toList],
        ["car".toList, "local".toList]], labels ≠ [] ∧ ∀ label ∈ labels,
          label ≠ [] ∧ '.' ∉ label ∧ (toUtf8 label).length ≤ 63 := by decide
    intro labels hmem
    obtain ⟨hne, hlabel⟩ := hall labels hmem
    exact ⟨hne, fun label h => ⟨(hlabel label h).1, (hlabel label h).2.1, (hlabel label h).2.2⟩⟩
  have hsmall : (buildAnnouncementPacket (fqdn ["_udp".toList, "local".toList])
      (dotted ["Car".toList]) (fqdn ["car".toList, "local".toList]) 7000 oneTxt
      [.v4 #v[10, 0, 0, 1], .v4 #v[10, 0, 0, 2]] 4500).length < 2 ^ 14 := by
    unfold buildAnnouncementPacket buildAnnouncement
    rw [txtEntries_oneTxt]
    decide +kernel
  exact announcement_round_trip.1 _ _ _ (hlabels _ (by simp)) (hlabels _ (by simp))
    (hlabels _ (by simp)) 7000 oneTxt txtFits_oneTxt _ 4500 hsmall

end Catplay.Analysis.Bonjour
