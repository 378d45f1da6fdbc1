import Catplay.Library.Run
import Catplay.Model.Lingo.Transactions

/-!
# Transaction bookkeeping

What a prepared message does to the helper (`Prepared`): a new id is the first one from the counter
on that is not pending. A search that finds none moves the counter once around, so every call that
fails leaves the helper as it was (`prepareOutgoing_spec`). A poll prepares the due messages one
after the other on a trial copy and takes them out of the schedule from behind (`prepareDue_spec`).
Together this is what the link does in every state that calls lead to (`bookkeeping`).
-/

set_option autoImplicit false

namespace Catplay.Analysis.Lingo.Bookkeeping

open Catplay.Library.Run Catplay.Model.Lingo

variable {M E : Type}

/-! ## Allocation -/

/-- The first id from the counter on that no local transaction has. -/
def FirstFree (h : TransactionHelper) (id : UInt16) : Prop :=
  h.pendingCommand id = none ∧ ∃ k, k < 65536 ∧ id = h.nextLocalId + UInt16.ofNat k ∧
    ∀ j, j < k → (h.pendingCommand (h.nextLocalId + UInt16.ofNat j)).isSome = true

theorem add_ofNat_succ (start : UInt16) (k : Nat) :
    start + 1 + UInt16.ofNat k = start + UInt16.ofNat (k + 1) := by
  rw [UInt16.ofNat_add, UInt16.add_assoc, UInt16.add_comm (UInt16.ofNat k)]
  rfl

/-- **The search** goes on to the first free id, or moves the counter by all its turns. -/
theorem allocateLoop_spec (turns : Nat) (h : TransactionHelper) :
    (∀ h' id, h.allocateLoop turns = (h', some id) →
      h' = { h with nextLocalId := id + 1 } ∧ h.pendingCommand id = none ∧
        ∃ k, k < turns ∧ id = h.nextLocalId + UInt16.ofNat k ∧
          ∀ j, j < k → (h.pendingCommand (h.nextLocalId + UInt16.ofNat j)).isSome = true) ∧
      ∀ h', h.allocateLoop turns = (h', none) →
        h' = { h with nextLocalId := h.nextLocalId + UInt16.ofNat turns } := by
  induction turns generalizing h with
  | zero =>
    refine ⟨fun h' id heq => ?_, fun h' heq => ?_⟩
    · cases heq
    · obtain rfl := (Prod.mk.inj heq).1
      show h = { h with nextLocalId := h.nextLocalId + 0 }
      rw [UInt16.add_zero]
  | succ turns ih =>
    obtain ⟨hfound, hnone⟩ := ih { h with nextLocalId := h.nextLocalId + 1 }
    have hpending : ∀ (next id : UInt16),
        { h with nextLocalId := next }.pendingCommand id = h.pendingCommand id := fun _ _ => rfl
    simp only [hpending] at hfound
    unfold TransactionHelper.allocateLoop
    dsimp only
    rw [hpending]
    by_cases hfree : (h.pendingCommand h.nextLocalId).isNone = true
    · rw [if_pos hfree]
      refine ⟨fun h' id heq => ?_, fun h' heq => ?_⟩
      · obtain ⟨rfl, hid⟩ := Prod.mk.inj heq
        obtain rfl := Option.some.inj hid
        refine ⟨rfl, Option.isNone_iff_eq_none.mp hfree, 0, Nat.succ_pos _, ?_, ?_⟩
        · exact (UInt16.add_zero _).symm
        · exact fun j hj => absurd hj (Nat.not_lt_zero j)
      · cases (Prod.mk.inj heq).2
    · rw [if_neg hfree]
      refine ⟨fun h' id heq => ?_, fun h' heq => ?_⟩
      · obtain ⟨rfl, hid, k, hk, rfl, hbefore⟩ := hfound h' id heq
        refine ⟨rfl, hid, k + 1, Nat.succ_lt_succ hk, add_ofNat_succ _ _, fun j hj => ?_⟩
        cases j with
        | zero =>
          have htaken : (h.pendingCommand h.nextLocalId).isSome = true := by
            cases hcommand : h.pendingCommand h.nextLocalId with
            | none =>
              rw [hcommand] at hfree
              exact absurd rfl hfree
            | some command => rfl
          rw [show h.nextLocalId + UInt16.ofNat 0 = h.nextLocalId from UInt16.add_zero _]
          exact htaken
        | succ j =>
          have htaken := hbefore j (Nat.lt_of_succ_lt_succ hj)
          rw [add_ofNat_succ] at htaken
          exact htaken
      · rw [hnone h' heq]
        dsimp only
        rw [add_ofNat_succ]

/-- **An id that is allocated is free**, and a search without result leaves the counter. -/
theorem allocateId_spec (h : TransactionHelper) :
    (∀ h' id, h.allocateId (E := E) = (h', .ok id) →
      h' = { h with nextLocalId := id + 1 } ∧ FirstFree h id) ∧
      ∀ h' e, h.allocateId (E := E) = (h', .error e) → h' = h := by
  obtain ⟨hfound, hnone⟩ := allocateLoop_spec 65536 h
  unfold TransactionHelper.allocateId
  rcases hloop : h.allocateLoop 65536 with ⟨h₁, _ | id₁⟩
  · refine ⟨fun h' id heq => ?_, fun h' e heq => ?_⟩
    · cases (Prod.mk.inj heq).2
    · obtain ⟨rfl, -⟩ := Prod.mk.inj heq
      rw [hnone h₁ hloop]
      -- the counter has come around
      show { h with nextLocalId := h.nextLocalId + 0 } = h
      rw [UInt16.add_zero]
  · refine ⟨fun h' id heq => ?_, fun h' e heq => ?_⟩
    · obtain ⟨rfl, hid⟩ := Prod.mk.inj heq
      obtain rfl := Except.ok.inj hid
      obtain ⟨hafter, hfree, hfirst⟩ := hfound h₁ id₁ hloop
      exact ⟨hafter, hfree, hfirst⟩
    · cases (Prod.mk.inj heq).2

/-! ## Preparing a message -/

/-- The helper once a message with a key is on its way. -/
def enabledBy (h : TransactionHelper) (key : CommandKey) : TransactionHelper :=
  if key = startIDPSKey then { h with enabled := true } else h

def trackedBy (h : TransactionHelper) (key : CommandKey) (id : UInt16) (start : Bool) :
    TransactionHelper :=
  if start then { h with pending := h.pending.insert id.toNat key } else h

/-- **A prepared message**: the id that it gets and the helper after it. -/
inductive Prepared (key : CommandKey) (h : TransactionHelper) :
    TransactionIntent → Option UInt16 → TransactionHelper → Prop
  | none : Prepared key h .none none (enabledBy h key)
  | existing (id : UInt16) (start : Bool) (hfree : start = true → h.pendingCommand id = none) :
    Prepared key h (.existing id start) (some id) (enabledBy (trackedBy h key id start) key)
  | new (id : UInt16) (start : Bool) (hfree : FirstFree h id) :
    Prepared key h (.new start) (some id)
      (enabledBy (trackedBy { h with nextLocalId := id + 1 } key id start) key)

/-- The check asks whether there is an id, not which. -/
theorem checkId_some (key : CommandKey) (policy : TransactionIdPolicy) (a b : UInt16)
    (enabled : Bool) :
    TransactionHelper.checkId (E := E) key policy (some a) enabled =
      TransactionHelper.checkId key policy (some b) enabled := by
  cases policy <;> rfl

/-- With an id, or without one to track, the last part of `prepare_outgoing` does not panic. -/
theorem finishOutgoing_spec (h : TransactionHelper) (key : CommandKey)
    (policy : TransactionIdPolicy) (id : Option UInt16) (enabled start : Bool)
    (hid : start = true → id.isSome = true) :
    ∃ h' result, h.finishOutgoing (E := E) key policy id enabled start = some (h', result) ∧
      (∀ e, result = .error e → h' = h ∧
        (TransactionHelper.checkId (E := E) key policy id enabled = .ok () →
          ∃ n, id = some n ∧ (h.pendingCommand n).isSome = true)) ∧
      ∀ answer, result = .ok answer → answer = id ∧ (id = none → h' = enabledBy h key) ∧
        ∀ n, id = some n → h' = enabledBy (trackedBy h key n start) key ∧
          (start = true → h.pendingCommand n = none) := by
  unfold TransactionHelper.finishOutgoing
  cases hcheck : TransactionHelper.checkId (E := E) key policy id enabled with
  | error error =>
    refine ⟨h, .error error, rfl, fun e _ => ⟨rfl, fun hok => by cases hok⟩, fun answer hok => ?_⟩
    cases hok
  | ok _ =>
    dsimp only
    cases start with
    | false =>
      rw [if_neg Bool.false_ne_true]
      refine ⟨_, _, rfl, (fun e he => by cases he), fun answer hok => ?_⟩
      obtain rfl := Except.ok.inj hok
      exact ⟨rfl, fun _ => rfl, fun n _ => ⟨rfl, fun hfalse => by cases hfalse⟩⟩
    | true =>
      rw [if_pos rfl]
      cases id with
      | none => cases hid rfl
      | some n =>
        dsimp only
        by_cases hpending : (h.pendingCommand n).isSome = true
        · rw [if_pos hpending]
          refine ⟨_, _, rfl, fun e _ => ⟨rfl, fun _ => ⟨n, rfl, hpending⟩⟩, fun answer hok => ?_⟩
          cases hok
        · rw [if_neg hpending]
          refine ⟨_, _, rfl, (fun e he => by cases he), fun answer hok => ?_⟩
          obtain rfl := Except.ok.inj hok
          refine ⟨rfl, (fun hnone => by cases hnone), fun m hm => ?_⟩
          obtain rfl := Option.some.inj hm
          refine ⟨rfl, fun _ => ?_⟩
          cases hcommand : h.pendingCommand n with
          | none => rfl
          | some command =>
            rw [hcommand] at hpending
            exact absurd rfl hpending

/-- **`prepare_outgoing`** never panics; when it fails the helper is as it was. -/
theorem prepareOutgoing_spec (registry : ProtocolRegistry M E) (h : TransactionHelper) (message : M)
    (intent : TransactionIntent) :
    ∃ h' result, h.prepareOutgoing registry message intent = some (h', result) ∧
      (∀ e, result = .error e → h' = h) ∧
      ∀ id, result = .ok id →
        Prepared (TransactionHelper.key registry message) h intent id h' := by
  unfold TransactionHelper.prepareOutgoing
  dsimp only
  generalize TransactionHelper.key registry message = key
  have hfailed : ∀ error : TransactionError E, ∃ h' result,
      some (h, (.error error : Except (TransactionError E) (Option UInt16))) = some (h', result) ∧
        (∀ e, result = .error e → h' = h) ∧
          ∀ id, result = .ok id → Prepared key h intent id h' :=
    fun error => ⟨h, .error error, rfl, fun _ _ => rfl, fun id hok => by cases hok⟩
  cases TransactionHelper.metadata (E := E) registry key with
  | error error => exact hfailed error
  | ok entry =>
    dsimp only
    cases h.checkDirection (E := E) key entry true with
    | error error => exact hfailed error
    | ok _ =>
      dsimp only
      generalize (h.enabled || key == startIDPSKey) = enabled
      cases intent with
      | none =>
        obtain ⟨h', result, heq, herror, hok⟩ := finishOutgoing_spec (E := E) h key
          entry.transactionId none enabled false (fun hfalse => by cases hfalse)
        refine ⟨h', result, heq, fun e he => (herror e he).1, fun id hid => ?_⟩
        obtain ⟨rfl, hnone, -⟩ := hok id hid
        obtain rfl := hnone rfl
        exact .none
      | existing n start =>
        obtain ⟨h', result, heq, herror, hok⟩ := finishOutgoing_spec (E := E) h key
          entry.transactionId (some n) enabled start (fun _ => rfl)
        refine ⟨h', result, heq, fun e he => (herror e he).1, fun id hid => ?_⟩
        obtain ⟨rfl, -, hsome⟩ := hok id hid
        obtain ⟨rfl, hfree⟩ := hsome n rfl
        exact .existing n start hfree
      | new start =>
        cases hcheck : TransactionHelper.checkId (E := E) key entry.transactionId (some 0)
            enabled with
        | error error => exact hfailed error
        | ok _ =>
          dsimp only
          obtain ⟨hallocated, hexhausted⟩ := allocateId_spec (E := E) h
          rcases hallocate : h.allocateId (E := E) with ⟨h₁, error | n⟩
          · obtain rfl := hexhausted h₁ error hallocate
            exact hfailed error
          · obtain ⟨rfl, hfirst⟩ := hallocated h₁ n hallocate
            obtain ⟨h', result, heq, herror, hok⟩ := finishOutgoing_spec (E := E)
              { h with nextLocalId := n + 1 } key entry.transactionId (some n) enabled start
                (fun _ => rfl)
            refine ⟨h', result, heq, fun e he => ?_, fun id hid => ?_⟩
            · -- the checks have been made and the id is free
              rw [checkId_some key entry.transactionId n 0, hcheck] at herror
              obtain ⟨m, hm, hpending⟩ := (herror e he).2 rfl
              obtain rfl := Option.some.inj hm
              have hfree : { h with nextLocalId := n + 1 }.pendingCommand n = none := hfirst.1
              rw [hfree] at hpending
              cases hpending
            · obtain ⟨rfl, -, hsome⟩ := hok id hid
              obtain ⟨rfl, -⟩ := hsome n rfl
              exact .new n start hfirst

/-! ## Polling -/

def dueMessages (elapsed : Nat) (scheduled : List (Nat × Outgoing M)) : List (Outgoing M) :=
  (scheduled.filter fun entry => decide (entry.1 ≤ elapsed)).map Prod.snd

def notDue (elapsed : Nat) (scheduled : List (Nat × Outgoing M)) : List (Nat × Outgoing M) :=
  scheduled.filter fun entry => !decide (entry.1 ≤ elapsed)

/-- **Messages going out in order**, each prepared in the state that the one before it left. -/
inductive Emits (registry : ProtocolRegistry M E) :
    TransactionHelper → List (Outgoing M) → List (Packet M) → TransactionHelper → Prop
  | nil (h : TransactionHelper) : Emits registry h [] [] h
  | cons {h h' h'' : TransactionHelper} {outgoing : Outgoing M} {id : Option UInt16}
      {rest : List (Outgoing M)} {packets : List (Packet M)}
      (hprepare : h.prepareOutgoing registry outgoing.message outgoing.transaction =
        some (h', .ok id))
      (hprepared : Prepared (TransactionHelper.key registry outgoing.message) h
        outgoing.transaction id h')
      (hrest : Emits registry h' rest packets h'') :
      Emits registry h (outgoing :: rest) (⟨outgoing.message, id⟩ :: packets) h''

theorem Emits.messages {registry : ProtocolRegistry M E} {h h' : TransactionHelper}
    {due : List (Outgoing M)} {packets : List (Packet M)} (hemits : Emits registry h due packets h') :
    packets.map Packet.message = due.map Outgoing.message := by
  induction hemits with
  | nil h => rfl
  | cons hprepare hprepared hrest ih => rw [List.map_cons, List.map_cons, ih]

theorem removeReady_append (first second : List (Nat × Option UInt16))
    (scheduled : List (Nat × Outgoing M)) (packets : List (Packet M)) :
    LinkLayer.removeReady (first ++ second) scheduled packets =
      (LinkLayer.removeReady first scheduled packets).bind fun result =>
        LinkLayer.removeReady second result.1 result.2 := by
  induction first generalizing scheduled packets with
  | nil => rfl
  | cons entry first ih =>
    obtain ⟨index, id⟩ := entry
    rw [List.cons_append]
    rcases hat : scheduled[index]? with _ | ⟨due, outgoing⟩
    · simp only [LinkLayer.removeReady, hat, Option.bind_none]
    · simp only [LinkLayer.removeReady, hat]
      exact ih _ _

/-- **The trial run** over the schedule behind some entries. The indices that it notes are those of
the due messages; taking these out from behind leaves the others. -/
theorem prepareDue_spec (registry : ProtocolRegistry M E) (elapsed : Nat)
    (scheduled : List (Nat × Outgoing M)) (trial : TransactionHelper)
    (front : List (Nat × Outgoing M)) :
    (∃ error, LinkLayer.prepareDue registry elapsed trial front.length scheduled =
        some (.error error)) ∨
      ∃ trial' ready packets,
        LinkLayer.prepareDue registry elapsed trial front.length scheduled =
          some (.ok (trial', ready)) ∧
        Emits registry trial (dueMessages elapsed scheduled) packets trial' ∧
        ∀ taken, LinkLayer.removeReady ready.reverse (front ++ scheduled) taken =
          some (front ++ notDue elapsed scheduled, taken ++ packets.reverse) := by
  induction scheduled generalizing trial front with
  | nil =>
    refine Or.inr ⟨trial, [], [], rfl, .nil trial, fun taken => ?_⟩
    rw [List.reverse_nil, List.reverse_nil, List.append_nil taken]
    rfl
  | cons entry scheduled ih =>
    obtain ⟨due, outgoing⟩ := entry
    have hfront : ∀ rest, front ++ (due, outgoing) :: rest = (front ++ [(due, outgoing)]) ++ rest :=
      fun rest => (List.append_cons front (due, outgoing) rest)
    have hlength : (front ++ [(due, outgoing)]).length = front.length + 1 := List.length_append
    unfold LinkLayer.prepareDue
    by_cases hdue : due ≤ elapsed
    · rw [if_pos hdue]
      obtain ⟨trial₁, result, hprepare, -, hprepared⟩ :=
        prepareOutgoing_spec registry trial outgoing.message outgoing.transaction
      rw [hprepare]
      cases result with
      | error error => exact Or.inl ⟨error, rfl⟩
      | ok id =>
        have hrest := ih trial₁ (front ++ [(due, outgoing)])
        rw [hlength] at hrest
        obtain ⟨error, herror⟩ | ⟨trial', ready, packets, hready, hemits, hremove⟩ := hrest
        · refine Or.inl ⟨error, ?_⟩
          dsimp only
          rw [herror]
          rfl
        · refine Or.inr ⟨trial', (front.length, id) :: ready, ⟨outgoing.message, id⟩ :: packets,
            ?_, ?_, fun taken => ?_⟩
          · dsimp only
            rw [hready]
            rfl
          · have hmessages : dueMessages elapsed ((due, outgoing) :: scheduled) =
                outgoing :: dueMessages elapsed scheduled := by
              unfold dueMessages
              rw [List.filter_cons_of_pos (by simpa using hdue)]
              rfl
            rw [hmessages]
            exact .cons hprepare (hprepared id rfl) hemits
          · have hlater : notDue elapsed ((due, outgoing) :: scheduled) =
                notDue elapsed scheduled := by
              unfold notDue
              rw [List.filter_cons_of_neg (by simpa using hdue)]
            have hat : (front ++ (due, outgoing) :: notDue elapsed scheduled)[front.length]? =
                some (due, outgoing) := by
              rw [List.getElem?_append_right (Nat.le_refl _), Nat.sub_self]
              rfl
            have herase : (front ++ (due, outgoing) :: notDue elapsed scheduled).eraseIdx
                front.length = front ++ notDue elapsed scheduled := by
              rw [List.eraseIdx_append_of_length_le (Nat.le_refl _), Nat.sub_self]
              rfl
            rw [List.reverse_cons, removeReady_append, hfront, hremove, Option.bind_some,
              ← hfront, hlater]
            unfold LinkLayer.removeReady
            dsimp only
            rw [hat]
            dsimp only
            rw [herase, List.reverse_cons, List.append_assoc]
            rfl
    · rw [if_neg hdue]
      have hmessages : dueMessages elapsed ((due, outgoing) :: scheduled) =
          dueMessages elapsed scheduled := by
        unfold dueMessages
        rw [List.filter_cons_of_neg (by simpa using hdue)]
      have hlater : notDue elapsed ((due, outgoing) :: scheduled) =
          (due, outgoing) :: notDue elapsed scheduled := by
        unfold notDue
        rw [List.filter_cons_of_pos (by simpa using hdue)]
      have hrest := ih trial (front ++ [(due, outgoing)])
      rw [hlength] at hrest
      rw [hmessages, hlater, hfront scheduled, hfront (notDue elapsed scheduled)]
      exact hrest

/-- **A poll** sends what is due, or leaves everything as it was. -/
theorem poll_spec (registry : ProtocolRegistry M E) (link : LinkLayer M) (elapsed : Nat) :
    ∃ link' result, link.poll registry elapsed = some (link', result) ∧
      (∀ e, result = .error e → link' = link) ∧
      ∀ packets, result = .ok packets →
        Emits registry link.transactions (dueMessages elapsed link.scheduled) packets
            link'.transactions ∧
          link'.scheduled = notDue elapsed link.scheduled := by
  unfold LinkLayer.poll
  by_cases hnone : (link.scheduled.any fun entry => decide (entry.1 ≤ elapsed)) = false
  · have hlate : ∀ entry ∈ link.scheduled, ¬decide (entry.1 ≤ elapsed) = true := by
      rw [List.any_eq_false] at hnone
      exact hnone
    have hmessages : dueMessages elapsed link.scheduled = [] := by
      unfold dueMessages
      rw [List.filter_eq_nil_iff.mpr hlate]
      rfl
    have hlater : notDue elapsed link.scheduled = link.scheduled := by
      unfold notDue
      rw [List.filter_eq_self]
      intro entry hentry
      simpa using hlate entry hentry
    rw [if_pos (by rw [hnone]; rfl)]
    refine ⟨link, .ok [], rfl, fun e _ => rfl, fun packets hok => ?_⟩
    obtain rfl := Except.ok.inj hok
    rw [hmessages, hlater]
    exact ⟨.nil _, rfl⟩
  · rw [Bool.not_eq_false] at hnone
    rw [if_neg (by rw [hnone]; exact Bool.false_ne_true)]
    have htrial := prepareDue_spec registry elapsed link.scheduled link.transactions []
    rw [List.length_nil] at htrial
    obtain ⟨error, herror⟩ | ⟨trial, ready, packets, hready, hemits, hremove⟩ := htrial
    · rw [herror]
      refine ⟨link, .error error, rfl, fun e _ => rfl, fun packets hok => ?_⟩
      cases hok
    · have htaken := hremove []
      rw [List.nil_append, List.nil_append, List.nil_append] at htaken
      rw [hready]
      dsimp only
      rw [htaken]
      refine ⟨_, _, rfl, (fun e he => by cases he), fun sent hok => ?_⟩
      obtain rfl := Except.ok.inj hok
      rw [List.reverse_reverse]
      exact ⟨hemits, rfl⟩

/-! ## Every sequence of calls -/

inductive LinkCall (M : Type)
  | prepareOutgoing (message : M) (intent : TransactionIntent)
  | send (outgoing : Outgoing M)
  | decode (frame : Frame)
  | observeIncoming (packet : Packet M)
  | finishTransaction (id : UInt16)
  | setIdsEnabled (enabled : Bool)
  | reset
  | schedule (due : Nat) (outgoing : Outgoing M)
  | poll (elapsed : Nat)

inductive Answer (M : Type)
  | done
  | id (id : Option UInt16)
  | command (key : Option CommandKey)
  | packet (packet : Packet M)
  | packets (packets : List (Packet M))

/-- The helper calls go through `transactions_mut`. -/
def performCall (registry : ProtocolRegistry M E) (link : LinkLayer M) :
    LinkCall M → Option (LinkLayer M × Except (TransactionError E) (Answer M))
  | .prepareOutgoing message intent =>
    (link.transactions.prepareOutgoing registry message intent).map fun (transactions, result) =>
      ({ link with transactions }, result.map .id)
  | .send outgoing =>
    (link.send registry outgoing).map fun (link, result) => (link, result.map .packet)
  | .decode frame =>
    let (link, result) := link.onFrame registry frame
    some (link, result.map .packet)
  | .observeIncoming packet =>
    let (transactions, result) := link.transactions.observeIncoming registry packet
    some ({ link with transactions }, result.map fun _ => .done)
  | .finishTransaction id =>
    let (transactions, key) := link.transactions.finishTransaction id
    some ({ link with transactions }, .ok (.command key))
  | .setIdsEnabled enabled =>
    some ({ link with transactions := link.transactions.setIdsEnabled enabled }, .ok .done)
  | .reset => some ({ link with transactions := link.transactions.reset }, .ok .done)
  | .schedule due outgoing => some (link.schedule due outgoing, .ok .done)
  | .poll elapsed =>
    (link.poll registry elapsed).map fun (link, result) => (link, result.map .packets)

def linkStep (registry : ProtocolRegistry M E) (link : LinkLayer M) (call : LinkCall M) :
    Option (LinkLayer M) :=
  (performCall registry link call).map Prod.fst

/-- What a call does that gives an answer. -/
def Does (registry : ProtocolRegistry M E) (link link' : LinkLayer M) (answer : Answer M) :
    LinkCall M → Prop
  | .prepareOutgoing message intent => ∃ id, answer = .id id ∧
    Prepared (TransactionHelper.key registry message) link.transactions intent id
      link'.transactions ∧ link'.scheduled = link.scheduled
  | .send outgoing => ∃ id, answer = .packet ⟨outgoing.message, id⟩ ∧
    Prepared (TransactionHelper.key registry outgoing.message) link.transactions
      outgoing.transaction id link'.transactions ∧ link'.scheduled = link.scheduled
  | .poll elapsed => ∃ packets, answer = .packets packets ∧
    Emits registry link.transactions (dueMessages elapsed link.scheduled) packets
      link'.transactions ∧
    packets.map Packet.message = (dueMessages elapsed link.scheduled).map Outgoing.message ∧
    link'.scheduled = notDue elapsed link.scheduled
  | _ => True

theorem observeIncoming_error {registry : ProtocolRegistry M E} {h h' : TransactionHelper}
    {packet : Packet M} {e : TransactionError E}
    (heq : h.observeIncoming registry packet = (h', .error e)) : h' = h := by
  unfold TransactionHelper.observeIncoming at heq
  split at heq
  · exact (Prod.mk.inj heq).1.symm
  · split at heq
    · cases (Prod.mk.inj heq).2
    · cases (Prod.mk.inj heq).2

theorem decode_error {registry : ProtocolRegistry M E} {h h' : TransactionHelper} {frame : Frame}
    {e : TransactionError E} (heq : h.decode registry frame = (h', .error e)) : h' = h := by
  unfold TransactionHelper.decode at heq
  split at heq
  · exact (Prod.mk.inj heq).1.symm
  · split at heq
    · next hobserve =>
      obtain ⟨rfl, -⟩ := Prod.mk.inj heq
      exact observeIncoming_error hobserve
    · cases (Prod.mk.inj heq).2

/-- **One call** returns; when it fails nothing has changed. -/
theorem performCall_spec (registry : ProtocolRegistry M E) (link : LinkLayer M)
    (call : LinkCall M) :
    ∃ link' result, performCall registry link call = some (link', result) ∧
      (∀ e, result = .error e → link' = link) ∧
      ∀ answer, result = .ok answer → Does registry link link' answer call := by
  have hmap : ∀ {α : Type} {f : α → Answer M} {x : Except (TransactionError E) α}
      {e : TransactionError E}, x.map f = .error e → x = .error e := by
    intro α f x e hx
    cases x with
    | error error =>
      obtain rfl := Except.error.inj hx
      rfl
    | ok a => cases hx
  cases call with
  | prepareOutgoing message intent =>
    obtain ⟨h', result, hprepare, herror, hok⟩ :=
      prepareOutgoing_spec registry link.transactions message intent
    refine ⟨{ link with transactions := h' }, result.map .id, ?_, fun e he => ?_, fun answer ha => ?_⟩
    · unfold performCall
      dsimp only
      rw [hprepare]
      rfl
    · rw [herror e (hmap he)]
    · cases result with
      | error error => cases ha
      | ok id =>
        obtain rfl := Except.ok.inj ha
        exact ⟨id, rfl, hok id rfl, rfl⟩
  | send outgoing =>
    obtain ⟨h', result, hprepare, herror, hok⟩ :=
      prepareOutgoing_spec registry link.transactions outgoing.message outgoing.transaction
    refine ⟨{ link with transactions := h' }, (result.map fun id =>
      (⟨outgoing.message, id⟩ : Packet M)).map .packet, ?_, fun e he => ?_, fun answer ha => ?_⟩
    · unfold performCall LinkLayer.send
      dsimp only
      rw [hprepare]
      rfl
    · cases result with
      | error error => rw [herror error rfl]
      | ok id => cases he
    · cases result with
      | error error => cases ha
      | ok id =>
        obtain rfl := Except.ok.inj ha
        exact ⟨id, rfl, hok id rfl, rfl⟩
  | decode frame =>
    rcases hdecode : link.transactions.decode registry frame with ⟨h', result⟩
    refine ⟨{ link with transactions := h' }, result.map .packet, ?_, fun e he => ?_,
      fun answer _ => trivial⟩
    · unfold performCall LinkLayer.onFrame
      dsimp only
      rw [hdecode]
    · rw [hmap he] at hdecode
      rw [decode_error hdecode]
  | observeIncoming packet =>
    rcases hobserve : link.transactions.observeIncoming registry packet with ⟨h', result⟩
    refine ⟨{ link with transactions := h' }, result.map fun _ => .done, ?_, fun e he => ?_,
      fun answer _ => trivial⟩
    · unfold performCall
      dsimp only
      rw [hobserve]
    · rw [hmap he] at hobserve
      rw [observeIncoming_error hobserve]
  | finishTransaction id => exact ⟨_, _, rfl, (fun e he => by cases he), fun _ _ => trivial⟩
  | setIdsEnabled enabled => exact ⟨_, _, rfl, (fun e he => by cases he), fun _ _ => trivial⟩
  | reset => exact ⟨_, _, rfl, (fun e he => by cases he), fun _ _ => trivial⟩
  | schedule due outgoing => exact ⟨_, _, rfl, (fun e he => by cases he), fun _ _ => trivial⟩
  | poll elapsed =>
    obtain ⟨link', result, hpoll, herror, hok⟩ := poll_spec registry link elapsed
    refine ⟨link', result.map .packets, ?_, fun e he => herror e (hmap he), fun answer ha => ?_⟩
    · unfold performCall
      dsimp only
      rw [hpoll]
      rfl
    · cases result with
      | error error => cases ha
      | ok packets =>
        obtain rfl := Except.ok.inj ha
        obtain ⟨hemits, hscheduled⟩ := hok packets rfl
        exact ⟨packets, rfl, hemits, hemits.messages, hscheduled⟩

/-- **Transaction bookkeeping.** Every sequence of calls runs through. In the state that it leads to,
a call that fails changes neither the helper nor the schedule; a message with a new id gets the
first one from the counter on that is not pending then; and a poll sends every due message once,
in the order of the schedule, each prepared in the state that the one before it left. -/
theorem bookkeeping (registry : ProtocolRegistry M E) (server : Bool) (calls : List (LinkCall M)) :
    ∃ link, run (linkStep registry) (LinkLayer.withRole server) calls = some link ∧
      ∀ call, ∃ link' result, performCall registry link call = some (link', result) ∧
        (∀ e, result = .error e → link' = link) ∧
        ∀ answer, result = .ok answer → Does registry link link' answer call := by
  have hruns : ∀ (link : LinkLayer M), ∃ link', run (linkStep registry) link calls = some link' := by
    induction calls with
    | nil => exact fun link => ⟨link, rfl⟩
    | cons call calls ih =>
      intro link
      obtain ⟨link₁, result, hcall, -⟩ := performCall_spec registry link call
      obtain ⟨link', hrest⟩ := ih link₁
      refine ⟨link', run_cons_eq_some.mpr ⟨link₁, ?_, hrest⟩⟩
      unfold linkStep
      rw [hcall]
      rfl
  obtain ⟨link, hrun⟩ := hruns (LinkLayer.withRole server)
  exact ⟨link, hrun, fun call => performCall_spec registry link call⟩

end Catplay.Analysis.Lingo.Bookkeeping
