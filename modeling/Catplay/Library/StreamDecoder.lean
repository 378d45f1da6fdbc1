import Mathlib.Data.List.Basic

/-!
# Decoders that read a stream in pieces

A decoder is called with a state and a buffer. It takes an item off the front of the
buffer, asks for more input, or fails. `decodeAll` calls it as long as it yields items, and
`feed` does so after each chunk of a stream that arrives in pieces. For a decoder that is
`Lawful`, that is one whose answers do not depend on what follows, the pieces do not matter
(`Lawful.feed_eq`), and a stream that was written item by item is read item by item
(`Lawful.decodeAll_written`).
-/

set_option autoImplicit false

namespace Catplay.Library.StreamDecoder

variable {σ α β ε : Type*}

/-- What a call of a decoder ends with. -/
inductive Outcome (σ α β ε : Type*)
  /-- An item, with the next state and the rest of the buffer. -/
  | item (a : α) (s : σ) (rest : List β)
  /-- More input is needed; a front part of the buffer may have been dropped. -/
  | more (s : σ) (rest : List β)
  | error (e : ε)

/-- The items of a stream, and the state and buffer that are left or the first error. -/
abbrev Result (σ α β ε : Type*) := List α × Except ε (σ × List β)

/-- More items in front. -/
def prepend (items : List α) (result : Result σ α β ε) : Result σ α β ε :=
  (items ++ result.1, result.2)

@[simp] theorem prepend_nil (result : Result σ α β ε) : prepend [] result = result := rfl

@[simp] theorem prepend_prepend (items more : List α) (result : Result σ α β ε) :
    prepend items (prepend more result) = prepend (items ++ more) result := by
  unfold prepend
  rw [List.append_assoc]

/-- The loop that takes items until none is left, at most `fuel` calls of it. -/
def drain (decode : σ → List β → Outcome σ α β ε) : Nat → σ → List β → Result σ α β ε
  | 0, s, buffer => ([], .ok (s, buffer))
  | fuel + 1, s, buffer =>
    match decode s buffer with
    | .item a s' rest => prepend [a] (drain decode fuel s' rest)
    | .more s' rest => ([], .ok (s', rest))
    | .error e => ([], .error e)

/-- Everything that a buffer holds. Each item is at least one element long. -/
def decodeAll (decode : σ → List β → Outcome σ α β ε) (s : σ) (buffer : List β) :
    Result σ α β ε :=
  drain decode (buffer.length + 1) s buffer

/-- Decode after each chunk until one fails. -/
def feed (decode : σ → List β → Outcome σ α β ε) :
    σ → List β → List (List β) → Result σ α β ε
  | s, buffer, [] => ([], .ok (s, buffer))
  | s, buffer, chunk :: chunks =>
    match decodeAll decode s (buffer ++ chunk) with
    | (items, .ok (s', rest)) => prepend items (feed decode s' rest chunks)
    | (items, .error e) => (items, .error e)

/-- **A lawful decoder.** Items take room, and what follows a buffer does not change what the
decoder says about it. -/
structure Lawful (decode : σ → List β → Outcome σ α β ε) : Prop where
  item_shorter : ∀ {s buffer a s' rest}, decode s buffer = .item a s' rest →
    rest.length < buffer.length
  item_append : ∀ {s buffer a s' rest}, decode s buffer = .item a s' rest →
    ∀ later, decode s (buffer ++ later) = .item a s' (rest ++ later)
  more_append : ∀ {s buffer s' rest}, decode s buffer = .more s' rest →
    ∀ later, decode s (buffer ++ later) = decode s' (rest ++ later)
  error_append : ∀ {s buffer e}, decode s buffer = .error e →
    ∀ later, decode s (buffer ++ later) = .error e

section Lawful

variable {decode : σ → List β → Outcome σ α β ε} (h : Lawful decode)

include h

/-- More fuel than there are elements does not matter. -/
theorem Lawful.drain_eq {fuel : Nat} {s : σ} {buffer : List β} (hfuel : buffer.length < fuel) :
    drain decode fuel s buffer = decodeAll decode s buffer := by
  suffices hmore : ∀ n m s buffer, List.length buffer < n → List.length buffer < m →
      drain decode n s buffer = drain decode m s buffer from
    hmore fuel (buffer.length + 1) s buffer hfuel (Nat.lt_succ_self _)
  intro n
  induction n with
  | zero =>
    intro m s buffer hn
    exact absurd hn (Nat.not_lt_zero _)
  | succ n ih =>
    intro m s buffer hn hm
    obtain ⟨m, rfl⟩ : ∃ k, m = k + 1 := ⟨m - 1, by omega⟩
    unfold drain
    cases hstep : decode s buffer with
    | item a s' rest =>
      have hshorter := h.item_shorter hstep
      dsimp only
      rw [ih m s' rest (by omega) (by omega)]
    | more s' rest => rfl
    | error e => rfl

/-- One call, and the rest of the buffer. -/
theorem Lawful.decodeAll_eq (s : σ) (buffer : List β) :
    decodeAll decode s buffer =
      match decode s buffer with
      | .item a s' rest => prepend [a] (decodeAll decode s' rest)
      | .more s' rest => ([], .ok (s', rest))
      | .error e => ([], .error e) := by
  conv_lhs => unfold decodeAll drain
  cases hstep : decode s buffer with
  | item a s' rest =>
    have hshorter := h.item_shorter hstep
    dsimp only
    rw [h.drain_eq hshorter]
  | more s' rest => rfl
  | error e => rfl

theorem Lawful.decodeAll_item {s s' : σ} {buffer rest : List β} {a : α}
    (hstep : decode s buffer = .item a s' rest) :
    decodeAll decode s buffer = prepend [a] (decodeAll decode s' rest) := by
  rw [h.decodeAll_eq, hstep]

/-- **A later part of the stream** is decoded from where the earlier part ended. -/
theorem Lawful.decodeAll_append (s : σ) (buffer later : List β) :
    decodeAll decode s (buffer ++ later) =
      match decodeAll decode s buffer with
      | (items, .ok (s', rest)) => prepend items (decodeAll decode s' (rest ++ later))
      | (items, .error e) => (items, .error e) := by
  induction hlength : buffer.length using Nat.strongRecOn generalizing s buffer with
  | _ n ih =>
    subst hlength
    rw [h.decodeAll_eq s buffer]
    cases hstep : decode s buffer with
    | item a s' rest =>
      dsimp only
      rw [h.decodeAll_item (h.item_append hstep later),
        ih rest.length (h.item_shorter hstep) s' rest rfl]
      obtain ⟨items, ⟨e⟩ | ⟨s'', rest'⟩⟩ := decodeAll decode s' rest <;> rfl
    | more s' rest =>
      dsimp only
      rw [prepend_nil, h.decodeAll_eq, h.more_append hstep later, ← h.decodeAll_eq]
    | error e =>
      dsimp only
      rw [h.decodeAll_eq, h.error_append hstep later]

/-- Nothing more can be taken from what `decodeAll` leaves. -/
theorem Lawful.settled {s s' : σ} {buffer rest : List β} {items : List α}
    (hall : decodeAll decode s buffer = (items, .ok (s', rest))) :
    decodeAll decode s' rest = ([], .ok (s', rest)) := by
  have happend := h.decodeAll_append s buffer []
  rw [List.append_nil, hall] at happend
  simp only [prepend, List.append_nil, Prod.mk.injEq] at happend
  obtain ⟨hitems, hend⟩ := happend
  have hnone : (decodeAll decode s' rest).1 = [] := by
    simpa using hitems.symm
  rw [Prod.ext_iff]
  exact ⟨hnone, hend.symm⟩

/-- **Fragmentation does not matter**: the items and the first error of a stream are the
same for all its partitions. -/
theorem Lawful.feed_eq (chunks : List (List β)) {s : σ} {buffer : List β}
    (hsettled : decodeAll decode s buffer = ([], .ok (s, buffer))) :
    feed decode s buffer chunks = decodeAll decode s (buffer ++ chunks.flatten) := by
  induction chunks generalizing s buffer with
  | nil =>
    rw [List.flatten_nil, List.append_nil, hsettled]
    rfl
  | cons chunk chunks ih =>
    unfold feed
    rw [List.flatten_cons, ← List.append_assoc, h.decodeAll_append s (buffer ++ chunk)]
    rcases hall : decodeAll decode s (buffer ++ chunk) with ⟨items, e | ⟨s', rest⟩⟩
    · rfl
    · dsimp only
      rw [ih (h.settled hall)]

/-- A stream that was written item by item: each item is read back whatever follows it. -/
inductive Written (decode : σ → List β → Outcome σ α β ε) : σ → List α → List β → σ → Prop
  | nil (s : σ) : Written decode s [] [] s
  | cons {s s₁ s₂ : σ} {a : α} {items : List α} {bytes more : List β}
      (first : ∀ later, decode s (bytes ++ later) = .item a s₁ later)
      (rest : Written decode s₁ items more s₂) :
      Written decode s (a :: items) (bytes ++ more) s₂

/-- **Round trip.** What was written is read, and the decoder stops where the writer did. -/
theorem Lawful.decodeAll_written {s s' : σ} {items : List α} {bytes : List β}
    (hwritten : Written decode s items bytes s') (later : List β) :
    decodeAll decode s (bytes ++ later) = prepend items (decodeAll decode s' later) := by
  induction hwritten with
  | nil s => rfl
  | cons first _ ih =>
    rw [List.append_assoc, h.decodeAll_item (first _), ih, prepend_prepend]
    rfl

end Lawful

/-! ## Calls in any order -/

/-- What happens to a buffer: a chunk arrives, or the decoder is called once. -/
inductive Call (β : Type*)
  | append (chunk : List β)
  | decode

/-- The bytes that arrive. -/
def received : List (Call β) → List β
  | [] => []
  | .append chunk :: calls => chunk ++ received calls
  | .decode :: calls => received calls

/-- The calls one after the other, up to the first error. -/
def run (decode : σ → List β → Outcome σ α β ε) :
    σ → List β → List (Call β) → Result σ α β ε
  | s, buffer, [] => ([], .ok (s, buffer))
  | s, buffer, .append chunk :: calls => run decode s (buffer ++ chunk) calls
  | s, buffer, .decode :: calls =>
    match decode s buffer with
    | .item a s' rest => prepend [a] (run decode s' rest calls)
    | .more s' rest => run decode s' rest calls
    | .error e => ([], .error e)

/-- The result after everything that is left has been decoded, too. -/
def finish (decode : σ → List β → Outcome σ α β ε) : Result σ α β ε → Result σ α β ε
  | (items, .ok (s, rest)) => prepend items (decodeAll decode s rest)
  | (items, .error e) => (items, .error e)

theorem finish_prepend (decode : σ → List β → Outcome σ α β ε) (items : List α)
    (result : Result σ α β ε) :
    finish decode (prepend items result) = prepend items (finish decode result) := by
  obtain ⟨more, e | ⟨s, rest⟩⟩ := result
  · rfl
  · exact (prepend_prepend items more _).symm

/-- **The order of the calls does not matter**, only the bytes. -/
theorem Lawful.finish_run {decode : σ → List β → Outcome σ α β ε} (h : Lawful decode)
    (calls : List (Call β)) (s : σ) (buffer : List β) :
    finish decode (run decode s buffer calls) = decodeAll decode s (buffer ++ received calls) := by
  induction calls generalizing s buffer with
  | nil =>
    rw [received, List.append_nil]
    exact prepend_nil _
  | cons call calls ih =>
    cases call with
    | append chunk => rw [run, received, ih, List.append_assoc]
    | decode =>
      rw [received, run]
      cases hstep : decode s buffer with
      | item a s' rest =>
        rw [h.decodeAll_item (h.item_append hstep _), finish_prepend, ih]
      | more s' rest =>
        dsimp only
        rw [ih, h.decodeAll_eq s, h.more_append hstep, ← h.decodeAll_eq]
      | error e =>
        rw [h.decodeAll_eq, h.error_append hstep]
        rfl

/-! ## One decoder follows another -/

variable {τ : Type*}

/-- Two results with the same items, and the same error or the same rest and related states. -/
def Alike (related : σ → List β → τ → Prop) (first : Result σ α β ε) (second : Result τ α β ε) :
    Prop :=
  first.1 = second.1 ∧
    match first.2, second.2 with
    | .ok (s, rest), .ok (t, rest') => rest = rest' ∧ related s rest t
    | .error e, .error e' => e = e'
    | _, _ => False

/-- The first decoder does what the second does, as long as their states are related. -/
structure Follows (decode : σ → List β → Outcome σ α β ε) (decode' : τ → List β → Outcome τ α β ε)
    (related : σ → List β → τ → Prop) : Prop where
  append : ∀ {s buffer t}, related s buffer t → ∀ later, related s (buffer ++ later) t
  item : ∀ {s buffer t a s' rest}, related s buffer t → decode s buffer = .item a s' rest →
    ∃ t', decode' t buffer = .item a t' rest ∧ related s' rest t'
  more : ∀ {s buffer t s' rest}, related s buffer t → decode s buffer = .more s' rest →
    ∃ t', decode' t buffer = .more t' rest ∧ related s' rest t'
  error : ∀ {s buffer t e}, related s buffer t → decode s buffer = .error e →
    decode' t buffer = .error e

section Follows

variable {decode : σ → List β → Outcome σ α β ε} {decode' : τ → List β → Outcome τ α β ε}
  {related : σ → List β → τ → Prop}

theorem Alike.prepend {first : Result σ α β ε} {second : Result τ α β ε} (items : List α)
    (h : Alike related first second) :
    Alike related (prepend items first) (prepend items second) :=
  ⟨congrArg (items ++ ·) h.1, h.2⟩

theorem Follows.drain (h : Follows decode decode' related) {fuel : Nat} {s : σ}
    {buffer : List β} {t : τ} (hrelated : related s buffer t) :
    Alike related (drain decode fuel s buffer) (drain decode' fuel t buffer) := by
  induction fuel generalizing s buffer t with
  | zero => exact ⟨rfl, rfl, hrelated⟩
  | succ fuel ih =>
    unfold StreamDecoder.drain
    cases hstep : decode s buffer with
    | item a s' rest =>
      obtain ⟨t', hstep', hrelated'⟩ := h.item hrelated hstep
      rw [hstep']
      exact (ih hrelated').prepend [a]
    | more s' rest =>
      obtain ⟨t', hstep', hrelated'⟩ := h.more hrelated hstep
      rw [hstep']
      exact ⟨rfl, rfl, hrelated'⟩
    | error e =>
      rw [h.error hrelated hstep]
      exact ⟨rfl, rfl⟩

theorem Follows.run (h : Follows decode decode' related) (calls : List (Call β)) {s : σ}
    {buffer : List β} {t : τ} (hrelated : related s buffer t) :
    Alike related (run decode s buffer calls) (run decode' t buffer calls) := by
  induction calls generalizing s buffer t with
  | nil => exact ⟨rfl, rfl, hrelated⟩
  | cons call calls ih =>
    cases call with
    | append chunk => exact ih (h.append hrelated chunk)
    | decode =>
      unfold StreamDecoder.run
      cases hstep : decode s buffer with
      | item a s' rest =>
        obtain ⟨t', hstep', hrelated'⟩ := h.item hrelated hstep
        rw [hstep']
        exact (ih hrelated').prepend [a]
      | more s' rest =>
        obtain ⟨t', hstep', hrelated'⟩ := h.more hrelated hstep
        rw [hstep']
        exact ih hrelated'
      | error e =>
        rw [h.error hrelated hstep]
        exact ⟨rfl, rfl⟩

theorem Follows.finish (h : Follows decode decode' related) {first : Result σ α β ε}
    {second : Result τ α β ε} (halike : Alike related first second) :
    Alike related (finish decode first) (finish decode' second) := by
  obtain ⟨items, e | ⟨s, rest⟩⟩ := first <;> obtain ⟨items', e' | ⟨t, rest'⟩⟩ := second
  · exact halike
  · exact halike.2.elim
  · exact halike.2.elim
  · obtain ⟨rfl, rfl, hrelated⟩ := halike
    exact (h.drain hrelated).prepend items

end Follows

/-! ## A decoder that keeps to a script -/

/-- `related s buffer later items`: with `later` still to come, `items` are what the decoder is going
to read. Where nothing more comes, it reads all of them. -/
structure Scripted (decode : σ → List β → Outcome σ α β ε)
    (related : σ → List β → List β → List α → Prop) : Prop where
  append : ∀ {s buffer chunk later items}, related s buffer (chunk ++ later) items →
    related s (buffer ++ chunk) later items
  item : ∀ {s buffer later items a s' rest}, related s buffer later items →
    decode s buffer = .item a s' rest →
    ∃ more, items = a :: more ∧ related s' rest later more ∧ rest.length < buffer.length
  more : ∀ {s buffer later items s' rest}, related s buffer later items →
    decode s buffer = .more s' rest → related s' rest later items
  error : ∀ {s buffer later items e}, related s buffer later items → decode s buffer ≠ .error e
  settled : ∀ {s buffer items s' rest}, related s buffer [] items →
    decode s buffer = .more s' rest → items = [] ∧ rest = []

section Scripted

variable {decode : σ → List β → Outcome σ α β ε} {related : σ → List β → List β → List α → Prop}
  (h : Scripted decode related)

include h

/-- Some of the items are read on the way, and the others are still to be read. -/
theorem Scripted.run (calls : List (Call β)) {s : σ} {buffer later : List β} {items : List α}
    (hrelated : related s buffer (received calls ++ later) items) :
    ∃ front back s' rest, run decode s buffer calls = (front, .ok (s', rest)) ∧
      items = front ++ back ∧ related s' rest later back := by
  induction calls generalizing s buffer items with
  | nil => exact ⟨[], items, s, buffer, rfl, rfl, hrelated⟩
  | cons call calls ih =>
    cases call with
    | append chunk =>
      rw [received, List.append_assoc] at hrelated
      exact ih (h.append hrelated)
    | decode =>
      rw [StreamDecoder.run]
      cases hstep : decode s buffer with
      | item a s' rest =>
        obtain ⟨more, rfl, hnext, -⟩ := h.item hrelated hstep
        obtain ⟨front, back, s'', rest', hrun, rfl, hend⟩ := ih hnext
        refine ⟨a :: front, back, s'', rest', ?_, rfl, hend⟩
        dsimp only
        rw [hrun]
        rfl
      | more s' rest => exact ih (h.more hrelated hstep)
      | error e => exact absurd hstep (h.error hrelated)

/-- What is there is read to its end. -/
theorem Scripted.drain {fuel : Nat} {s : σ} {buffer : List β} {items : List α}
    (hrelated : related s buffer [] items) (hfuel : buffer.length < fuel) :
    ∃ s', drain decode fuel s buffer = (items, .ok (s', [])) ∧ related s' [] [] [] := by
  induction fuel generalizing s buffer items with
  | zero => exact absurd hfuel (Nat.not_lt_zero _)
  | succ fuel ih =>
    unfold StreamDecoder.drain
    cases hstep : decode s buffer with
    | item a s' rest =>
      obtain ⟨more, rfl, hnext, hshorter⟩ := h.item hrelated hstep
      obtain ⟨s'', hdrain, hend⟩ := ih hnext (by omega)
      refine ⟨s'', ?_, hend⟩
      dsimp only
      rw [hdrain]
      rfl
    | more s' rest =>
      obtain ⟨rfl, rfl⟩ := h.settled hrelated hstep
      exact ⟨s', rfl, h.more hrelated hstep⟩
    | error e => exact absurd hstep (h.error hrelated)

/-- **The script is read**, however its bytes come in. -/
theorem Scripted.finish_run {calls : List (Call β)} {s : σ} {buffer : List β} {items : List α}
    (hrelated : related s buffer (received calls) items) :
    ∃ s', finish decode (StreamDecoder.run decode s buffer calls) = (items, .ok (s', [])) ∧
      related s' [] [] [] := by
  rw [← List.append_nil (received calls)] at hrelated
  obtain ⟨front, back, s', rest, hrun, rfl, hnext⟩ := h.run calls hrelated
  obtain ⟨s'', hdrain, hend⟩ := h.drain hnext (Nat.lt_succ_self _)
  refine ⟨s'', ?_, hend⟩
  rw [hrun]
  show prepend front (StreamDecoder.drain decode (rest.length + 1) s' rest) = _
  rw [hdrain]
  rfl

end Scripted

end Catplay.Library.StreamDecoder
