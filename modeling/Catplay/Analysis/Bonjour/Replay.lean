import Catplay.Library.Run
import Catplay.Model.Bonjour.ServiceTable

/-!
# The events of the service table

Replaying the events gives the observed services that have an address (`Consistent`). A goodbye
takes its service off the table while the records are sorted; what else the message says of the
name is merged afterwards and brings the service back if there is an SRV record among it
(`goodbyeIsFinal_iff`).
-/

set_option autoImplicit false

namespace Catplay.Analysis.Bonjour

open Catplay.Library.Run Catplay.Model.Bonjour Catplay.Model.Bonjour.RawMdnsState

/-! ## Statements -/

def replayEvent (table : NameMap BonjourMeta) : RawMdnsEvent → NameMap BonjourMeta
  | .resolved service => table.insert service.fullname service
  | .removed _ fullname => table.erase fullname

/-- The services that are known from the events alone. -/
def replay (events : List RawMdnsEvent) : NameMap BonjourMeta := events.foldl replayEvent ∅

/-- The service of a name, if it has an address. -/
def reachable (s : RawMdnsState) (fullname : Name) : Option BonjourMeta :=
  (s.observed.lookup fullname).bind fun observed =>
    if observed.service.addrs = [] then none else some observed.service

/-- Replaying the events gives the observed services that have an address. -/
def Agrees (s : RawMdnsState) : Prop :=
  ∀ fullname, (replay s.events).lookup fullname = reachable s fullname

/-- A PTR record for the name with time to live 0. -/
def Goodbye (records : List DnsRecord) (target : Name) : Prop :=
  ∃ rr ∈ records, rr.data = .ptr target ∧ rr.ttl = 0

/-- After a goodbye the service is not observed, and the message resolved it in no event. -/
def GoodbyeIsFinal (s : RawMdnsState) (action : TableAction) : Prop :=
  ∀ records order now t, action = .responses records order now → tableStep s action = some t →
    ∀ target, Goodbye records target →
      t.observed.lookup target = none ∧
        ∀ service, .resolved service ∈ t.events.drop s.events.length → service.fullname ≠ target

/-- The table and its events agree along the run, and every goodbye is final. -/
def TableHolds (s : RawMdnsState) (actions : List TableAction) : Prop :=
  (∀ front t, front <+: actions → run tableStep s front = some t → Agrees t) ∧
    AllSteps tableStep GoodbyeIsFinal s actions

/-- The last SRV record of a name. -/
def lastSrv (records : List DnsRecord) (fullname : Name) : Option (Name × UInt16) :=
  (records.filterMap fun rr =>
    match rr.data with
    | .srv target port => if rr.name = fullname then some (target, port) else none
    | _ => none).getLast?

/-- No message says goodbye to a service and has an SRV record that makes it one again. -/
def NoSrvWithGoodbye (s : RawMdnsState) (action : TableAction) : Prop :=
  ∀ records order now, action = .responses records order now → (tableStep s action).isSome →
    ∀ target, Goodbye records target → (splitInstanceAndServiceType target).isSome →
      ∀ host port, lastSrv records target = some (host, port) → port = 0 ∨ host = []

/-! ## Lookups -/

theorem lookup_insert_eq {α : Type} (m : NameMap α) (k n : Name) (v : α) :
    (m.insert k v).lookup n = if n = k then some v else m.lookup n := by
  split
  · rename_i h
    rw [h, Finmap.lookup_insert]
  · rename_i h
    exact Finmap.lookup_insert_of_ne m h

theorem lookup_erase_eq {α : Type} (m : NameMap α) (k n : Name) :
    (m.erase k).lookup n = if n = k then none else m.lookup n := by
  split
  · rename_i h
    rw [h, Finmap.lookup_erase]
  · rename_i h
    exact Finmap.lookup_erase_ne h

theorem replay_append (events more : List RawMdnsEvent) :
    replay (events ++ more) = more.foldl replayEvent (replay events) :=
  List.foldl_append

/-! ## The invariant -/

/-- The table agrees with its events; an observed service stands under its name, which is that of
a service, and has as many socket addresses as addresses. -/
structure Consistent (s : RawMdnsState) : Prop where
  agrees : Agrees s
  named : ∀ fullname observed, s.observed.lookup fullname = some observed →
    observed.service.fullname = fullname ∧ (splitInstanceAndServiceType fullname).isSome
  addrs : ∀ fullname observed, s.observed.lookup fullname = some observed →
    observed.service.addrs.length = observed.service.ips.length

theorem consistent_new (iface : Name) (ifindex : UInt32) : Consistent (new iface ifindex) :=
  ⟨fun _ => rfl, (fun _ _ h => nomatch h), (fun _ _ h => nomatch h)⟩

variable {s t : RawMdnsState} {sorted : Sorted} {target fullname : Name}

/-- A service is taken off the table and removed in an event. -/
theorem Consistent.remove (hs : Consistent s) (serviceType fullname : Name) :
    Consistent ({ s with observed := s.observed.erase fullname }.sendEvent
      (.removed serviceType fullname)) := by
  have hlookup : ∀ n, ({ s with observed := s.observed.erase fullname }.sendEvent
      (.removed serviceType fullname)).observed.lookup n =
        if n = fullname then none else s.observed.lookup n :=
    lookup_erase_eq s.observed fullname
  refine ⟨fun n => ?_, fun n o hn => ?_, fun n o hn => ?_⟩
  · have hagrees := hs.agrees n
    unfold reachable at hagrees ⊢
    rw [hlookup, sendEvent, replay_append]
    show ((replay s.events).erase fullname).lookup n = _
    rw [lookup_erase_eq]
    split
    · rfl
    · exact hagrees
  · rw [hlookup] at hn
    split at hn
    · cases hn
    · exact hs.named n o hn
  · rw [hlookup] at hn
    split at hn
    · cases hn
    · exact hs.addrs n o hn

/-! ## The first loop -/

/-- Every host that was found has an address. -/
def HostsHaveIps (sorted : Sorted) : Prop :=
  ∀ key entry, sorted.hostIps.lookup key = some entry → entry.1 ≠ []

theorem hostsHaveIps_addHostIp (h : HostsHaveIps sorted) (rr : DnsRecord)
    (ip : IpAddr) : HostsHaveIps (sorted.addHostIp rr ip) := by
  intro key entry hentry
  unfold Sorted.addHostIp at hentry
  dsimp only at hentry
  rw [lookup_insert_eq] at hentry
  split at hentry
  · obtain rfl := Option.some.inj hentry
    simp
  · exact h key entry hentry

/-- What one record does: a goodbye, or a note in one of the four maps. -/
theorem sortRecord_cases (s : RawMdnsState) (sorted : Sorted) (rr : DnsRecord) :
    (∃ target serviceType, rr.data = .ptr target ∧ rr.ttl = 0 ∧
      (splitInstanceAndServiceType target).isSome ∧
      s.sortRecord sorted rr =
        ({ s with observed := s.observed.erase target }.sendEvent (.removed serviceType target),
          sorted)) ∨
    (s.sortRecord sorted rr).1 = s ∧
      ∀ target, rr.data = .ptr target → rr.ttl = 0 →
        splitInstanceAndServiceType target = none := by
  unfold sortRecord
  cases hdata : rr.data with
  | ptr target =>
    cases hsplit : splitInstanceAndServiceType target with
    | none =>
      refine .inr ⟨by simp [hsplit], ?_⟩
      rintro other hother -
      obtain rfl := DnsRData.ptr.inj hother
      exact hsplit
    | some parts =>
      by_cases httl : rr.ttl = 0
      · exact .inl ⟨target, parts.2, rfl, httl, by rw [hsplit]; rfl, by simp [hsplit, httl]; rfl⟩
      · exact .inr ⟨by simp [hsplit, httl], fun _ _ hzero => absurd hzero httl⟩
  | srv target port => exact .inr ⟨rfl, fun _ h => nomatch h⟩
  | txt map => exact .inr ⟨rfl, fun _ h => nomatch h⟩
  | a ip => exact .inr ⟨rfl, fun _ h => nomatch h⟩
  | aaaa ip => exact .inr ⟨rfl, fun _ h => nomatch h⟩
  | unknown => exact .inr ⟨rfl, fun _ h => nomatch h⟩

theorem sortRecord_hosts (h : HostsHaveIps sorted)
    (rr : DnsRecord) : HostsHaveIps (s.sortRecord sorted rr).2 := by
  unfold sortRecord
  cases rr.data with
  | ptr target =>
    dsimp only
    split
    · split <;> exact h
    · exact h
  | srv target port => exact h
  | txt map => exact h
  | a ip => exact hostsHaveIps_addHostIp h rr _
  | aaaa ip => exact hostsHaveIps_addHostIp h rr _
  | unknown => exact h

/-- The SRV record of a name, after one more record. -/
theorem sortRecord_srv (s : RawMdnsState) (sorted : Sorted) (rr : DnsRecord) (fullname : Name) :
    (((s.sortRecord sorted rr).2.srv.lookup fullname).map fun v => (v.1, v.2.1)) =
      match rr.data with
      | .srv target port =>
        if rr.name = fullname then some (target, port)
        else (sorted.srv.lookup fullname).map fun v => (v.1, v.2.1)
      | _ => (sorted.srv.lookup fullname).map fun v => (v.1, v.2.1) := by
  unfold sortRecord
  cases hdata : rr.data with
  | ptr target =>
    dsimp only
    split
    · split <;> rfl
    · rfl
  | srv target port =>
    dsimp only
    rw [lookup_insert_eq]
    by_cases hname : fullname = rr.name
    · rw [if_pos hname, if_pos hname.symm]
      rfl
    · rw [if_neg hname, if_neg (Ne.symm hname)]
  | txt map => rfl
  | a ip => rfl
  | aaaa ip => rfl
  | unknown => rfl

theorem sortRecords_append (s : RawMdnsState) (records : List DnsRecord) (rr : DnsRecord) :
    s.sortRecords (records ++ [rr]) =
      (s.sortRecords records).1.sortRecord (s.sortRecords records).2 rr :=
  List.foldl_append

theorem sortRecords_consistent (hs : Consistent s) (records : List DnsRecord) :
    Consistent (s.sortRecords records).1 := by
  induction records using List.reverseRecOn with
  | nil => exact hs
  | append_singleton records rr ih =>
    rw [sortRecords_append]
    obtain ⟨target, serviceType, -, -, -, heq⟩ | ⟨heq, -⟩ :=
      sortRecord_cases (s.sortRecords records).1 (s.sortRecords records).2 rr
    · rw [heq]
      exact ih.remove serviceType target
    · rw [heq]
      exact ih

theorem sortRecords_hosts (s : RawMdnsState) (records : List DnsRecord) :
    HostsHaveIps (s.sortRecords records).2 := by
  induction records using List.reverseRecOn with
  | nil => exact fun _ _ h => nomatch h
  | append_singleton records rr ih =>
    rw [sortRecords_append]
    exact sortRecord_hosts ih rr

/-- The SRV record that is kept is the last one of its name. -/
theorem sortRecords_srv (s : RawMdnsState) (records : List DnsRecord) (fullname : Name) :
    (((s.sortRecords records).2.srv.lookup fullname).map fun v => (v.1, v.2.1)) =
      lastSrv records fullname := by
  induction records using List.reverseRecOn with
  | nil => rfl
  | append_singleton records rr ih =>
    rw [sortRecords_append, sortRecord_srv]
    unfold lastSrv at ih ⊢
    rw [List.filterMap_append]
    cases hdata : rr.data with
    | srv target port =>
      by_cases hname : rr.name = fullname
      · simp [hdata, hname]
      · simp [hdata, hname, ih]
    | ptr target => simp [hdata, ih]
    | txt map => simp [hdata, ih]
    | a ip => simp [hdata, ih]
    | aaaa ip => simp [hdata, ih]
    | unknown => simp [hdata, ih]

/-- After the first loop no service is left that a goodbye was said to. -/
theorem sortRecords_goodbye (s : RawMdnsState) {records : List DnsRecord}
    (hgoodbye : Goodbye records target) (hsplit : (splitInstanceAndServiceType target).isSome) :
    (s.sortRecords records).1.observed.lookup target = none := by
  induction records using List.reverseRecOn with
  | nil =>
    obtain ⟨rr, hrr, -⟩ := hgoodbye
    cases hrr
  | append_singleton records rr ih =>
    rw [sortRecords_append]
    obtain ⟨other, serviceType, hdata, -, -, heq⟩ | ⟨heq, hnot⟩ :=
      sortRecord_cases (s.sortRecords records).1 (s.sortRecords records).2 rr
    · rw [heq]
      show ((s.sortRecords records).1.observed.erase other).lookup target = none
      rw [lookup_erase_eq]
      split
      · rfl
      · rename_i hother
        refine ih ?_
        obtain ⟨rr', hrr', hdata', httl'⟩ := hgoodbye
        obtain hfront | hlast := List.mem_append.mp hrr'
        · exact ⟨rr', hfront, hdata', httl'⟩
        · obtain rfl := List.mem_singleton.mp hlast
          exact absurd (DnsRData.ptr.inj (hdata'.symm.trans hdata)) hother
    · rw [heq]
      refine ih ?_
      obtain ⟨rr', hrr', hdata', httl'⟩ := hgoodbye
      obtain hfront | hlast := List.mem_append.mp hrr'
      · exact ⟨rr', hfront, hdata', httl'⟩
      · obtain rfl := List.mem_singleton.mp hlast
        rw [hnot target hdata' httl'] at hsplit
        cases hsplit

/-- The first loop resolves nothing. -/
theorem sortRecords_events (s : RawMdnsState) (records : List DnsRecord) :
    ∃ events, (s.sortRecords records).1.events = s.events ++ events ∧
      ∀ service, .resolved service ∉ events := by
  induction records using List.reverseRecOn with
  | nil => exact ⟨[], (List.append_nil _).symm, fun _ h => nomatch h⟩
  | append_singleton records rr ih =>
    obtain ⟨events, hevents, hnone⟩ := ih
    rw [sortRecords_append]
    obtain ⟨target, serviceType, -, -, -, heq⟩ | ⟨heq, -⟩ :=
      sortRecord_cases (s.sortRecords records).1 (s.sortRecords records).2 rr
    · refine ⟨events ++ [.removed serviceType target], ?_, fun service hmem => ?_⟩
      · rw [heq, ← List.append_assoc, ← hevents]
        rfl
      · obtain hfront | hlast := List.mem_append.mp hmem
        · exact hnone service hfront
        · exact nomatch List.mem_singleton.mp hlast
    · rw [heq]
      exact ⟨events, hevents, hnone⟩

/-! ## The second loop -/

/-- What merging does to the table: nothing, or an entry for the name and an event for it. -/
structure MergedAs (s t : RawMdnsState) (fullname : Name) (entry : ObservedService) : Prop where
  observed : t.observed = s.observed.insert fullname entry
  named : entry.service.fullname = fullname
  split : (splitInstanceAndServiceType fullname).isSome
  addrs : entry.service.addrs.length = entry.service.ips.length
  ips : entry.service.ips = [] → ∀ old, s.observed.lookup fullname = some old →
    old.service.ips = []
  events : t.events = s.events ++ [.resolved entry.service] ∧ entry.service.addrs ≠ [] ∨
    t.events = s.events ∧ (entry.service.addrs = [] ∨
      (s.observed.lookup fullname).map (·.service) = some entry.service)

theorem merge_cases (hhosts : HostsHaveIps sorted) (now : Nat)
    (s : RawMdnsState) (fullname : Name) :
    merge sorted now s fullname = s ∨
      ∃ entry, MergedAs s (merge sorted now s fullname) fullname entry := by
  unfold merge
  cases hsplit : splitInstanceAndServiceType fullname with
  | none => exact .inl rfl
  | some parts =>
    obtain ⟨instanceName, serviceType⟩ := parts
    dsimp only
    split
    · exact .inl rfl
    · right
      have hips : ∀ hostname : Name,
          ((sorted.hostIps.lookup (dnsNameKey hostname)).map (·.1) <|>
            ((s.observed.lookup fullname).map (·.service)).map (·.ips)).getD [] = [] →
          ∀ old, s.observed.lookup fullname = some old → old.service.ips = [] := by
        intro hostname hempty old hold
        cases hhost : sorted.hostIps.lookup (dnsNameKey hostname) with
        | none => simpa [hhost, hold] using hempty
        | some entry =>
          have hentry : entry.1 = [] := by simpa [hhost] using hempty
          exact absurd hentry (hhosts _ entry hhost)
      split
      · rename_i hsame
        exact ⟨_, rfl, rfl, by rw [hsplit]; rfl, List.length_map _, hips _, .inr ⟨rfl, .inr hsame⟩⟩
      · split
        · rename_i hnone
          exact ⟨_, rfl, rfl, by rw [hsplit]; rfl, List.length_map _, hips _,
            .inr ⟨rfl, .inl hnone⟩⟩
        · rename_i haddrs
          exact ⟨_, rfl, rfl, by rw [hsplit]; rfl, List.length_map _, hips _,
            .inl ⟨rfl, haddrs⟩⟩

theorem MergedAs.lookup {entry : ObservedService} (h : MergedAs s t fullname entry) (n : Name) :
    t.observed.lookup n = if n = fullname then some entry else s.observed.lookup n := by
  rw [h.observed, lookup_insert_eq]

theorem MergedAs.consistent {entry : ObservedService}
    (hs : Consistent s) (h : MergedAs s t fullname entry) : Consistent t := by
  refine ⟨fun n => ?_, fun n o hn => ?_, fun n o hn => ?_⟩
  · have hagrees := hs.agrees n
    unfold reachable at hagrees ⊢
    rw [h.lookup]
    obtain ⟨hevents, haddrs⟩ | ⟨hevents, hsame⟩ := h.events
    · rw [hevents, replay_append]
      show ((replay s.events).insert entry.service.fullname entry.service).lookup n = _
      rw [lookup_insert_eq, h.named]
      split
      · rw [Option.bind_some, if_neg haddrs]
      · exact hagrees
    · rw [hevents, hagrees]
      split
      · rename_i hn
        subst hn
        obtain hempty | hold := hsame
        · -- without an address the service had none before
          have hnoIps : entry.service.ips = [] :=
            List.length_eq_zero_iff.mp (h.addrs ▸ List.length_eq_zero_iff.mpr hempty)
          have hboth : ∀ old, s.observed.lookup n = some old → old.service.addrs = [] := by
            intro old hold
            have hlength := hs.addrs n old hold
            rw [h.ips hnoIps old hold] at hlength
            exact List.length_eq_zero_iff.mp hlength
          rw [Option.bind_some, if_pos hempty]
          cases hold : s.observed.lookup n with
          | none => rfl
          | some old => rw [Option.bind_some, if_pos (hboth old hold)]
        · obtain ⟨old, hlookup, hservice⟩ := Option.map_eq_some_iff.mp hold
          rw [hlookup, Option.bind_some, Option.bind_some, hservice]
      · rfl
  · rw [h.lookup] at hn
    split at hn
    · rename_i hname
      obtain rfl := Option.some.inj hn
      rw [hname]
      exact ⟨h.named, h.split⟩
    · exact hs.named n o hn
  · rw [h.lookup] at hn
    split at hn
    · obtain rfl := Option.some.inj hn
      exact h.addrs
    · exact hs.addrs n o hn

theorem foldl_merge_consistent (hhosts : HostsHaveIps sorted) (now : Nat)
    (order : List Name) (hs : Consistent s) :
    Consistent (order.foldl (merge sorted now) s) := by
  induction order generalizing s with
  | nil => exact hs
  | cons fullname order ih =>
    refine ih ?_
    obtain hsame | ⟨entry, hmerged⟩ := merge_cases hhosts now s fullname
    · rw [hsame]
      exact hs
    · exact hmerged.consistent hs

/-! ## Goodbyes -/

/-- Without an SRV record that has a port and a host, a service does not come onto the table. -/
theorem merge_fresh (now : Nat) (hfresh : s.observed.lookup fullname = none)
    (hsrv : ∀ v, sorted.srv.lookup fullname = some v → v.2.1 = 0 ∨ v.1 = []) :
    merge sorted now s fullname = s := by
  unfold merge
  cases splitInstanceAndServiceType fullname with
  | none => rfl
  | some parts =>
    dsimp only
    rw [hfresh]
    cases hlookup : sorted.srv.lookup fullname with
    | none => rfl
    | some v => exact if_pos (hsrv v hlookup)

/-- With one, it does. -/
theorem merge_srv (now : Nat) (s : RawMdnsState)
    (hsplit : (splitInstanceAndServiceType fullname).isSome) {v : Name × UInt16 × UInt32}
    (hsrv : sorted.srv.lookup fullname = some v) (hv : ¬(v.2.1 = 0 ∨ v.1 = [])) :
    (merge sorted now s fullname).observed.lookup fullname ≠ none := by
  obtain ⟨parts, hparts⟩ := Option.isSome_iff_exists.mp hsplit
  unfold merge
  rw [hparts, hsrv]
  dsimp only
  split
  · rename_i hnone
    exact absurd hnone hv
  · have hput : ∀ entry : ObservedService,
        (s.observed.insert fullname entry).lookup fullname ≠ none := by
      intro entry
      rw [Finmap.lookup_insert]
      exact Option.some_ne_none entry
    split
    · exact hput _
    · split
      · exact hput _
      · exact hput _

/-- A service that is off the table and does not come onto it stays off it, and is not resolved. -/
theorem foldl_merge_fresh (hhosts : HostsHaveIps sorted) (now : Nat)
    (order : List Name)
    (hfresh : s.observed.lookup target = none)
    (hskip : ∀ u : RawMdnsState, u.observed.lookup target = none →
      merge sorted now u target = u) :
    (order.foldl (merge sorted now) s).observed.lookup target = none ∧
      ∃ events, (order.foldl (merge sorted now) s).events = s.events ++ events ∧
        ∀ service, .resolved service ∈ events → service.fullname ≠ target := by
  induction order generalizing s with
  | nil => exact ⟨hfresh, [], (List.append_nil _).symm, fun _ h => nomatch h⟩
  | cons fullname order ih =>
    rw [List.foldl_cons]
    by_cases hname : fullname = target
    · rw [hname, hskip s hfresh]
      exact ih hfresh
    obtain hsame | ⟨entry, hmerged⟩ := merge_cases hhosts now s fullname
    · rw [hsame]
      exact ih hfresh
    · have hother : (merge sorted now s fullname).observed.lookup target = none := by
        rw [hmerged.lookup, if_neg (Ne.symm hname)]
        exact hfresh
      obtain ⟨hend, events, hevents, hnot⟩ := ih hother
      refine ⟨hend, ?_⟩
      obtain ⟨hfirst, -⟩ | ⟨hfirst, -⟩ := hmerged.events
      · refine ⟨.resolved entry.service :: events, ?_, fun service hmem => ?_⟩
        · rw [hevents, hfirst, List.append_assoc]
          rfl
        · obtain heq | hlater := List.mem_cons.mp hmem
          · rw [RawMdnsEvent.resolved.inj heq, hmerged.named]
            exact hname
          · exact hnot service hlater
      · exact ⟨events, by rw [hevents, hfirst], hnot⟩

theorem foldl_merge_keeps (hhosts : HostsHaveIps sorted) (now : Nat) (order : List Name)
    (hthere : s.observed.lookup target ≠ none) :
    (order.foldl (merge sorted now) s).observed.lookup target ≠ none := by
  induction order generalizing s with
  | nil => exact hthere
  | cons fullname order ih =>
    rw [List.foldl_cons]
    refine ih ?_
    obtain hsame | ⟨entry, hmerged⟩ := merge_cases hhosts now s fullname
    · rw [hsame]
      exact hthere
    · rw [hmerged.lookup]
      split
      · exact Option.some_ne_none entry
      · exact hthere

/-- A service with such a record comes back when its turn comes. -/
theorem foldl_merge_srv (hhosts : HostsHaveIps sorted) (now : Nat)
    {order : List Name} (s : RawMdnsState) (hmem : target ∈ order)
    (hsplit : (splitInstanceAndServiceType target).isSome) {v : Name × UInt16 × UInt32}
    (hsrv : sorted.srv.lookup target = some v) (hv : ¬(v.2.1 = 0 ∨ v.1 = [])) :
    (order.foldl (merge sorted now) s).observed.lookup target ≠ none := by
  obtain ⟨front, back, rfl⟩ := List.append_of_mem hmem
  rw [List.foldl_append, List.foldl_cons]
  exact foldl_merge_keeps hhosts now back (merge_srv now _ hsplit hsrv hv)

/-! ## Steps -/

theorem handleResponses_eq {records : List DnsRecord} {order : List Name}
    {now : Nat} (h : s.handleResponses records order now = some t) :
    order.toFinset = (s.sortRecords records).1.touched (s.sortRecords records).2 ∧
      t = order.foldl (merge (s.sortRecords records).2 now) (s.sortRecords records).1 := by
  unfold handleResponses at h
  dsimp only at h
  split at h
  · rename_i horder
    exact ⟨horder.2, (Option.some.inj h).symm⟩
  · cases h

theorem Consistent.expire {keys : List Name} {now : Nat}
    (hs : Consistent s) (h : s.expire keys now = some t) : Consistent t := by
  unfold RawMdnsState.expire at h
  dsimp only at h
  split at h
  · obtain rfl := Option.some.inj h
    clear h
    rename_i hkeys
    clear hkeys
    induction keys generalizing s with
    | nil => exact hs
    | cons key keys ih =>
      rw [List.foldl_cons]
      cases s.observed.lookup key with
      | none => exact ih hs
      | some observed => exact ih (hs.remove observed.service.serviceType key)
  · cases h

theorem Consistent.step {action : TableAction} (hs : Consistent s)
    (h : tableStep s action = some t) : Consistent t := by
  cases action with
  | responses records order now =>
    obtain ⟨-, rfl⟩ := handleResponses_eq h
    exact foldl_merge_consistent (sortRecords_hosts s records) now order
      (sortRecords_consistent hs records)
  | tick keys now => exact hs.expire h

/-- **A goodbye is final** exactly when no SRV record of the same message brings the service
back. -/
theorem goodbyeIsFinal_iff (hs : Consistent s) (action : TableAction) :
    GoodbyeIsFinal s action ↔ NoSrvWithGoodbye s action := by
  constructor
  · rintro hfinal records order now rfl hsome target hgoodbye hsplit host port hsrv
    obtain ⟨t, ht⟩ := Option.isSome_iff_exists.mp hsome
    obtain ⟨hgone, -⟩ := hfinal records order now t rfl ht target hgoodbye
    obtain ⟨horder, rfl⟩ := handleResponses_eq ht
    rw [← sortRecords_srv s] at hsrv
    obtain ⟨v, hv, hparts⟩ := Option.map_eq_some_iff.mp hsrv
    obtain ⟨rfl, rfl⟩ := Prod.mk.inj hparts
    by_contra hserves
    have hmem : target ∈ order := by
      rw [← List.mem_toFinset, horder]
      have hkey : target ∈ (s.sortRecords records).2.srv.keys := by
        rw [Finmap.mem_keys, ← Finmap.lookup_isSome, hv]
        rfl
      unfold touched
      simp [hkey]
    exact foldl_merge_srv (sortRecords_hosts s records) now _ hmem hsplit hv hserves hgone
  · rintro hnone records order now t rfl ht target hgoodbye
    obtain ⟨-, rfl⟩ := handleResponses_eq ht
    have hhosts := sortRecords_hosts s records
    have hstart : (s.sortRecords records).1.observed.lookup target = none ∧
        ∀ u : RawMdnsState, u.observed.lookup target = none →
          merge (s.sortRecords records).2 now u target = u := by
      cases hsplit : splitInstanceAndServiceType target with
      | none =>
        refine ⟨?_, fun u _ => ?_⟩
        · rw [← Option.not_isSome_iff_eq_none]
          intro hlookup
          obtain ⟨observed, hobserved⟩ := Option.isSome_iff_exists.mp hlookup
          have hnamed := ((sortRecords_consistent hs records).named target observed hobserved).2
          rw [hsplit] at hnamed
          cases hnamed
        · unfold merge
          rw [hsplit]
      | some parts =>
        have hsome : (splitInstanceAndServiceType target).isSome := by
          rw [hsplit]
          rfl
        refine ⟨sortRecords_goodbye s hgoodbye hsome, fun u hu => merge_fresh now hu ?_⟩
        intro v hv
        have hlast : lastSrv records target = some (v.1, v.2.1) := by
          rw [← sortRecords_srv s, hv]
          rfl
        exact hnone records order now rfl (by rw [ht]; rfl) target hgoodbye hsome _ _ hlast
    obtain ⟨hgone, events, hevents, hother⟩ :=
      foldl_merge_fresh hhosts now order hstart.1 hstart.2
    obtain ⟨sorted, hsorted, hnoneResolved⟩ := sortRecords_events s records
    refine ⟨hgone, fun service hmem => ?_⟩
    rw [hevents, hsorted, List.append_assoc, List.drop_left] at hmem
    obtain hfirst | hsecond := List.mem_append.mp hmem
    · exact absurd hfirst (hnoneResolved service)
    · exact hother service hsecond

/-! ## Runs -/

/-- **The table and its events agree along every run; the goodbyes of a run are final exactly when
no message says goodbye to a service and has an SRV record that brings it back.** -/
theorem table_iff (iface : Name) (ifindex : UInt32) (actions : List TableAction) :
    TableHolds (.new iface ifindex) actions ↔
      AllSteps tableStep NoSrvWithGoodbye (.new iface ifindex) actions := by
  have hiff : AllSteps tableStep GoodbyeIsFinal (.new iface ifindex) actions ↔
      AllSteps tableStep NoSrvWithGoodbye (.new iface ifindex) actions :=
    allSteps_iff_of_invariant Consistent (fun s action hs => goodbyeIsFinal_iff hs action)
      (fun s action t hs _ h => hs.step h) (consistent_new iface ifindex)
  constructor
  · exact fun hholds => hiff.mp hholds.2
  · refine fun hnone => ⟨fun front t _ ht => ?_, hiff.mpr hnone⟩
    have hconsistent : Consistent t :=
      run_invariant Consistent (fun s action u hs h => hs.step h) (consistent_new iface ifindex) ht
    exact hconsistent.agrees

/-- What a responder sends when it goes away: all records of the service with time to live 0. -/
def farewell : List DnsRecord :=
  let fullname := "Car._airplay._tcp.local.".toList
  [⟨"_airplay._tcp.local.".toList, 0, .ptr fullname⟩,
    ⟨fullname, 0, .srv "car.local.".toList 7000⟩, ⟨fullname, 0, .txt ∅⟩]

/-- The service is back on the table after its farewell. -/
theorem farewell_brings_back :
    ¬ ∀ (iface : Name) (ifindex : UInt32) (actions : List TableAction),
      TableHolds (.new iface ifindex) actions := by
  intro h
  have hfinal := (h [] 0 [.responses farewell ["Car._airplay._tcp.local.".toList] 0]).2.1
  obtain ⟨hgone, -⟩ := hfinal farewell ["Car._airplay._tcp.local.".toList] 0 _ rfl rfl
    "Car._airplay._tcp.local.".toList ⟨_, List.mem_cons_self, rfl, rfl⟩
  exact absurd hgone (by decide)

end Catplay.Analysis.Bonjour
