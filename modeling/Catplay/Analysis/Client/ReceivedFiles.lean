import Catplay.Model.Client.IncomingFiles

/-!
# What a session is told of a file

The transfer of an id is the last setup of it that was accepted, with the chunks that came since
(`ongoing`). It ends with the first chunk that is final or finds the announced size reached; the
file is what the chunks are together, cut to the announced size (`received_files`). So a transfer
that is ended early is reported with less than was announced (`short_file_completes`).
-/

set_option autoImplicit false

namespace Catplay.Analysis.Client

open Catplay.Library Catplay.Model.Link Catplay.Model.Client

/-- An event of the link for an id. -/
abbrev Incoming := UInt8 × FileTransferEvent

/-! ## Transfers -/

/-- A transfer, with the chunks that came for it. -/
structure Transfer where
  size : Nat
  fileType : UInt16
  setupData : Bytes
  chunks : List Bytes
  deriving DecidableEq, Repr

def Transfer.bytes (t : Transfer) : Bytes := t.chunks.flatten

/-- A setup that is offered to the session. -/
def Accepted (file : FileTransferEvent) : Prop :=
  match file with
  | .setup size _ _ => size ≤ isizeMax
  | _ => False

/-- The transfer of an id behind one more event. -/
def ongoingStep (id : UInt8) (t : Option Transfer) (event : Incoming) : Option Transfer :=
  if event.1 ≠ id then t
  else
    match event.2, t with
    | .setup size fileType setupData, t =>
      if size > isizeMax then t else some ⟨size, fileType, setupData, []⟩
    | .data data isFinalChunk, some t =>
      if t.size ≤ t.bytes.length ∨ isFinalChunk then none
      else some { t with chunks := t.chunks ++ [data] }
    | .cancel, _ => none
    | _, t => t

/-- The transfer of an id behind some events. -/
def ongoing (id : UInt8) (events : List Incoming) : Option Transfer :=
  events.foldl (ongoingStep id) none

/-- The map behind some events. -/
def filesAfter (events : List Incoming) : ByteMap InflightFileTransfer :=
  events.foldl (fun files event => (onFileEvent files event.1 event.2).1) .empty

/-- What the session is told of one more event. -/
def told (events : List Incoming) (event : Incoming) : Option (UInt8 × CsmFileTransferEvent) :=
  (onFileEvent (filesAfter events) event.1 event.2).2

theorem filesAfter_concat (events : List Incoming) (event : Incoming) :
    filesAfter (events ++ [event]) = (onFileEvent (filesAfter events) event.1 event.2).1 := by
  unfold filesAfter
  rw [List.foldl_append]
  rfl

theorem ongoing_concat (id : UInt8) (events : List Incoming) (event : Incoming) :
    ongoing id (events ++ [event]) = ongoingStep id (ongoing id events) event := by
  unfold ongoing
  rw [List.foldl_append]
  rfl

/-! ## The map holds the transfers -/

/-- The entry of a transfer: its chunks, cut to the announced size. -/
def Transfer.entry (t : Transfer) : InflightFileTransfer :=
  ⟨t.size, t.fileType, t.setupData, t.bytes.take t.size⟩

/-- **One more chunk** in the entry. -/
theorem Transfer.entry_data (t : Transfer) (data : Bytes) :
    t.entry.data ++ data.take (min (t.size - t.entry.data.length) data.length) =
      (t.bytes ++ data).take t.size := by
  unfold Transfer.entry
  dsimp only
  rw [List.take_append, List.length_take, ← List.take_eq_take_min]
  congr 2
  omega

theorem Transfer.entry_append (t : Transfer) (data : Bytes) :
    Transfer.entry { t with chunks := t.chunks ++ [data] } = { t.entry with
      data := t.entry.data ++ data.take (min (t.size - t.entry.data.length) data.length) } := by
  have hbytes : (t.chunks ++ [data]).flatten = t.bytes ++ data := by
    unfold Transfer.bytes
    simp
  rw [t.entry_data]
  unfold Transfer.entry
  dsimp only
  rw [← hbytes]
  rfl

theorem Transfer.missing (t : Transfer) :
    t.size - t.entry.data.length = 0 ↔ t.size ≤ t.bytes.length := by
  unfold Transfer.entry
  dsimp only
  rw [List.length_take]
  omega

/-- **One event** does to the map what it does to the transfer of each id. -/
theorem onFileEvent_entry {files : ByteMap InflightFileTransfer} {id : UInt8} {t : Option Transfer}
    (h : files id = t.map Transfer.entry) (event : Incoming) :
    (onFileEvent files event.1 event.2).1 id = (ongoingStep id t event).map Transfer.entry := by
  obtain ⟨id', file⟩ := event
  dsimp only
  unfold ongoingStep
  dsimp only
  by_cases hid : id' = id
  · subst hid
    rw [if_neg (fun hne => hne rfl)]
    cases file with
    | setup size fileType setupData =>
      unfold onFileEvent
      dsimp only
      split
      · exact h
      · dsimp only
        rw [ByteMap.insert_self]
        simp [Transfer.entry, Transfer.bytes]
    | data data isFinalChunk =>
      unfold onFileEvent
      dsimp only
      cases t with
      | none =>
        rw [h]
        exact h
      | some t =>
        have hentry : files id' = some t.entry := h
        have hmissing := t.missing
        rw [hentry]
        dsimp only
        have hiff : (t.entry.size - t.entry.data.length = 0 ∨ isFinalChunk = true) ↔
            (t.size ≤ t.bytes.length ∨ isFinalChunk = true) := or_congr_left hmissing
        by_cases hdone : t.size ≤ t.bytes.length ∨ isFinalChunk = true
        · rw [if_pos hdone, if_pos (hiff.mpr hdone)]
          dsimp only
          rw [ByteMap.remove_apply, if_pos rfl]
          rfl
        · rw [if_neg hdone, if_neg (fun h => hdone (hiff.mp h))]
          dsimp only
          rw [ByteMap.insert_self]
          rw [Option.map_some, t.entry_append]
          rfl
    | cancel =>
      unfold onFileEvent
      dsimp only
      cases t with
      | none =>
        rw [h]
        exact h
      | some t =>
        have hentry : files id' = some t.entry := h
        rw [hentry]
        dsimp only
        rw [ByteMap.remove_apply, if_pos rfl]
        rfl
    | start => exact h
    | pause => exact h
    | success => exact h
    | failure => exact h
  · rw [if_pos hid]
    have hother : (onFileEvent files id' file).1 id = files id := by
      have hne : id ≠ id' := fun heq => hid heq.symm
      unfold onFileEvent
      cases file with
      | setup size fileType setupData =>
        dsimp only
        split
        · rfl
        · dsimp only
          rw [ByteMap.insert_apply, if_neg hne]
      | data data isFinalChunk =>
        dsimp only
        cases files id' with
        | none => rfl
        | some transfer =>
          dsimp only
          split
          · show files.remove id' id = files id
            rw [ByteMap.remove_apply, if_neg hne]
          · show files.insert id' _ id = files id
            rw [ByteMap.insert_apply, if_neg hne]
      | cancel =>
        dsimp only
        cases files id' with
        | none => rfl
        | some transfer =>
          dsimp only
          rw [ByteMap.remove_apply, if_neg hne]
      | start => rfl
      | pause => rfl
      | success => rfl
      | failure => rfl
    rw [hother, h]

/-- **The map** has the transfers that go on. -/
theorem filesAfter_eq (events : List Incoming) (id : UInt8) :
    filesAfter events id = (ongoing id events).map Transfer.entry := by
  induction events using List.reverseRecOn with
  | nil => rfl
  | append_singleton events event ih =>
    rw [filesAfter_concat, ongoing_concat]
    exact onFileEvent_entry ih event

/-! ## What is told of one id -/

/-- The chunks of an id. -/
def chunksOf (id : UInt8) (events : List Incoming) : List Bytes :=
  events.filterMap fun event =>
    match event with
    | (id', .data data _) => if id' = id then some data else none
    | _ => none

/-- **Where a transfer comes from**: its setup is the last one that was accepted, and its chunks
are those that came since. -/
theorem ongoing_origin {id : UInt8} {events : List Incoming} {t : Transfer}
    (h : ongoing id events = some t) :
    ∃ before since, events = before ++ (id, .setup t.size t.fileType t.setupData) :: since ∧
      t.size ≤ isizeMax ∧ t.chunks = chunksOf id since ∧
      ∀ event ∈ since, event.1 = id → ¬Accepted event.2 := by
  induction events using List.reverseRecOn generalizing t with
  | nil => cases h
  | append_singleton events event ih =>
    obtain ⟨id', file⟩ := event
    rw [ongoing_concat] at h
    -- the event leaves the transfer, and says nothing new about it
    have hkeep : ongoing id events = some t → chunksOf id [(id', file)] = [] →
        (id' = id → ¬Accepted file) →
        ∃ before since, events ++ [(id', file)] =
            before ++ (id, .setup t.size t.fileType t.setupData) :: since ∧
          t.size ≤ isizeMax ∧ t.chunks = chunksOf id since ∧
          ∀ event ∈ since, event.1 = id → ¬Accepted event.2 := by
      intro hbefore hchunks haccepted
      obtain ⟨before, since, hevents, hsize, hsince, hnone⟩ := ih hbefore
      refine ⟨before, since ++ [(id', file)], ?_, hsize, ?_, ?_⟩
      · rw [hevents, List.append_assoc, List.cons_append]
      · have happend : chunksOf id (since ++ [(id', file)]) =
            chunksOf id since ++ chunksOf id [(id', file)] := List.filterMap_append
        rw [happend, hchunks, List.append_nil, hsince]
      · intro event hevent
        rcases List.mem_append.mp hevent with hevent | hevent
        · exact hnone event hevent
        · rw [List.mem_singleton.mp hevent]
          exact haccepted
    unfold ongoingStep at h
    by_cases hid : id' = id
    · subst hid
      rw [if_neg (fun hne => hne rfl)] at h
      cases file with
      | setup size fileType setupData =>
        dsimp only at h
        by_cases hbig : size > isizeMax
        · rw [if_pos hbig] at h
          refine hkeep h rfl fun _ haccepted => ?_
          have hle : size ≤ isizeMax := haccepted
          omega
        · rw [if_neg hbig] at h
          obtain rfl := Option.some.inj h
          exact ⟨events, [], rfl, Nat.le_of_not_lt hbig, rfl, fun event hevent => by cases hevent⟩
      | data data isFinalChunk =>
        cases hbefore : ongoing id' events with
        | none =>
          rw [hbefore] at h
          cases h
        | some old =>
          rw [hbefore] at h
          dsimp only at h
          split at h
          · cases h
          · obtain rfl := Option.some.inj h
            obtain ⟨before, since, hevents, hsize, hsince, hnone⟩ := ih hbefore
            refine ⟨before, since ++ [(id', .data data isFinalChunk)], ?_, hsize, ?_, ?_⟩
            · rw [hevents, List.append_assoc, List.cons_append]
            · have happend : chunksOf id' (since ++ [(id', .data data isFinalChunk)]) =
                  chunksOf id' since ++ chunksOf id' [(id', .data data isFinalChunk)] :=
                List.filterMap_append
              have hone : chunksOf id' [(id', FileTransferEvent.data data isFinalChunk)] = [data] := by
                simp [chunksOf]
              rw [happend, hone, ← hsince]
            · intro event hevent
              rcases List.mem_append.mp hevent with hevent | hevent
              · exact hnone event hevent
              · rw [List.mem_singleton.mp hevent]
                exact fun _ haccepted => haccepted
      | cancel => cases h
      | start => exact hkeep h rfl fun _ haccepted => haccepted
      | pause => exact hkeep h rfl fun _ haccepted => haccepted
      | success => exact hkeep h rfl fun _ haccepted => haccepted
      | failure => exact hkeep h rfl fun _ haccepted => haccepted
    · rw [if_pos hid] at h
      refine hkeep h ?_ fun heq => absurd heq hid
      cases file <;> simp [chunksOf, hid]

/-- What the session is told of the events, in order. -/
def toldAll (files : ByteMap InflightFileTransfer) : List Incoming → List (UInt8 × CsmFileTransferEvent)
  | [] => []
  | event :: events =>
    (onFileEvent files event.1 event.2).2.toList ++
      toldAll (onFileEvent files event.1 event.2).1 events

/-- Of one id. -/
def toldOf (id : UInt8) (told : List (UInt8 × CsmFileTransferEvent)) : List CsmFileTransferEvent :=
  told.filterMap fun event => if event.1 = id then some event.2 else none

/-- Every end belongs to an offer that has not ended yet: between two ends there is an offer, and
so there is before the first one. -/
def EndsOnce : Bool → List CsmFileTransferEvent → Prop
  | _, [] => True
  | _, .offer _ _ _ :: told => EndsOnce true told
  | isOpen, .completed _ _ _ _ :: told => isOpen = true ∧ EndsOnce false told
  | isOpen, .cancelled :: told => isOpen = true ∧ EndsOnce false told

/-- **One event**: an offer opens the id, an end closes it, and otherwise it stays as it is. -/
theorem onFileEvent_isSome (files : ByteMap InflightFileTransfer) (id : UInt8) (event : Incoming)
    {rest : List CsmFileTransferEvent}
    (h : EndsOnce ((onFileEvent files event.1 event.2).1 id).isSome rest) :
    EndsOnce (files id).isSome
      (toldOf id (onFileEvent files event.1 event.2).2.toList ++ rest) := by
  obtain ⟨id', file⟩ := event
  dsimp only at h ⊢
  have hquiet : (onFileEvent files id' file).1 = files → (onFileEvent files id' file).2 = none →
      EndsOnce (files id).isSome (toldOf id (onFileEvent files id' file).2.toList ++ rest) := by
    intro hfiles hnone
    rw [hnone]
    rw [hfiles] at h
    exact h
  cases file with
  | setup size fileType setupData =>
    by_cases hbig : size > isizeMax
    · apply hquiet <;> unfold onFileEvent <;> dsimp only <;> rw [if_pos hbig]
    · unfold onFileEvent at h ⊢
      dsimp only at h ⊢
      rw [if_neg hbig] at h ⊢
      dsimp only at h ⊢
      rw [ByteMap.insert_apply] at h
      by_cases hid : id = id'
      · subst hid
        rw [if_pos rfl] at h
        simpa [toldOf, EndsOnce] using h
      · rw [if_neg hid] at h
        simpa [toldOf, Ne.symm hid] using h
  | data data isFinalChunk =>
    cases hentry : files id' with
    | none => apply hquiet <;> unfold onFileEvent <;> dsimp only <;> rw [hentry]
    | some transfer =>
      unfold onFileEvent at h ⊢
      dsimp only at h ⊢
      rw [hentry] at h ⊢
      dsimp only at h ⊢
      by_cases hdone : transfer.size - transfer.data.length = 0 ∨ isFinalChunk = true
      · rw [if_pos hdone] at h ⊢
        dsimp only at h ⊢
        rw [ByteMap.remove_apply] at h
        by_cases hid : id = id'
        · subst hid
          rw [if_pos rfl] at h
          simpa [toldOf, EndsOnce, hentry] using h
        · rw [if_neg hid] at h
          simpa [toldOf, Ne.symm hid] using h
      · rw [if_neg hdone] at h ⊢
        dsimp only at h ⊢
        rw [ByteMap.insert_apply] at h
        by_cases hid : id = id'
        · subst hid
          rw [if_pos rfl] at h
          simpa [toldOf, hentry] using h
        · rw [if_neg hid] at h
          simpa [toldOf] using h
  | cancel =>
    cases hentry : files id' with
    | none => apply hquiet <;> unfold onFileEvent <;> dsimp only <;> rw [hentry]
    | some transfer =>
      unfold onFileEvent at h ⊢
      dsimp only at h ⊢
      rw [hentry] at h ⊢
      dsimp only at h ⊢
      rw [ByteMap.remove_apply] at h
      by_cases hid : id = id'
      · subst hid
        rw [if_pos rfl] at h
        simpa [toldOf, EndsOnce, hentry] using h
      · rw [if_neg hid] at h
        simpa [toldOf, Ne.symm hid] using h
  | start => exact hquiet rfl rfl
  | pause => exact hquiet rfl rfl
  | success => exact hquiet rfl rfl
  | failure => exact hquiet rfl rfl

theorem toldAll_endsOnce (files : ByteMap InflightFileTransfer) (id : UInt8)
    (events : List Incoming) : EndsOnce (files id).isSome (toldOf id (toldAll files events)) := by
  induction events generalizing files with
  | nil => trivial
  | cons event events ih =>
    have happend : toldOf id (toldAll files (event :: events)) =
        toldOf id (onFileEvent files event.1 event.2).2.toList ++
          toldOf id (toldAll (onFileEvent files event.1 event.2).1 events) :=
      List.filterMap_append
    rw [happend]
    exact onFileEvent_isSome files id event (ih _)

/-- **Received files.** For every id an offer is followed by at most one end before the next offer,
and an end by an offer. A file that is completed is what the chunks since its setup are together,
cut to the announced size; it is completed by a final chunk, or by one before which the announced
size was reached. -/
theorem received_files (events : List Incoming) :
    (∀ id, EndsOnce false (toldOf id (toldAll .empty events))) ∧
      ∀ first event last, events = first ++ event :: last →
        ∀ id data size fileType setupData,
          told first event = some (id, .completed data size fileType setupData) →
            ∃ announced before since chunk isFinalChunk,
              first = before ++ (id, .setup announced fileType setupData) :: since ∧
              announced ≤ isizeMax ∧ (∀ other ∈ since, other.1 = id → ¬Accepted other.2) ∧
              event = (id, .data chunk isFinalChunk) ∧
              data = ((chunksOf id since).flatten ++ chunk).take announced ∧ size = data.length ∧
              (isFinalChunk = true ∨ announced ≤ (chunksOf id since).flatten.length) := by
  refine ⟨fun id => toldAll_endsOnce .empty id events, ?_⟩
  rintro first ⟨id', file⟩ last - id data size fileType setupData htold
  unfold told onFileEvent at htold
  dsimp only at htold
  cases file with
  | setup announced fileType' setupData' =>
    dsimp only at htold
    split at htold <;> cases htold
  | data chunk isFinalChunk =>
    have hentry := filesAfter_eq first id'
    cases hongoing : ongoing id' first with
    | none =>
      rw [hongoing] at hentry
      rw [hentry] at htold
      cases htold
    | some t =>
      obtain ⟨before, since, hfirst, hsize, hchunks, hnone⟩ := ongoing_origin hongoing
      have hmissing := t.missing
      have hdata := t.entry_data chunk
      rw [hongoing] at hentry
      rw [hentry] at htold
      dsimp only [Option.map_some] at htold
      split at htold
      · next hdone =>
        have hbytes : t.bytes = (chunksOf id' since).flatten := by
          unfold Transfer.bytes
          rw [hchunks]
        obtain ⟨rfl, hcompleted⟩ := Prod.mk.inj (Option.some.inj htold)
        obtain ⟨rfl, rfl, rfl, rfl⟩ := CsmFileTransferEvent.completed.inj hcompleted
        refine ⟨t.size, before, since, chunk, isFinalChunk, hfirst, hsize, hnone, rfl, ?_, rfl, ?_⟩
        · rw [← hbytes]
          exact hdata
        · rw [← hbytes]
          rcases hdone with hreached | hfinal
          · exact Or.inr (hmissing.mp hreached)
          · exact Or.inl hfinal
      · cases htold
  | cancel =>
    dsimp only at htold
    split at htold <;> cases htold
  | start => cases htold
  | pause => cases htold
  | success => cases htold
  | failure => cases htold

/-- **A short file** is completed by its final chunk, an overlong one is cut. -/
theorem short_file_completes :
    toldAll .empty [(1, .setup 5 0 []), (1, .data [1, 2] true)] =
        [(1, .offer 5 0 []), (1, .completed [1, 2] 2 0 [])] ∧
      toldAll .empty [(1, .setup 2 0 []), (1, .data [1, 2, 3] true)] =
        [(1, .offer 2 0 []), (1, .completed [1, 2] 2 0 [])] := by
  constructor
  · rfl
  · rfl

end Catplay.Analysis.Client
