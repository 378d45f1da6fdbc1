import Mathlib.Data.UInt

/-!
# The media ring and its gaps

`carplay/catplay_ring/src/{bitmap,ring_buffer,ring_storage}.rs`.
-/

set_option autoImplicit false

/-!
## The gap bitmap of the media ring

`Bitmap` of `carplay/catplay_ring/src/bitmap.rs`, a set of ring positions in words of 64
bits.
-/

namespace Catplay.Model.Ring

structure Bitmap where
  gapBitmap : List (BitVec 64)
  capacity : Nat
  empty : Bool
  deriving DecidableEq, Repr

/-- `(1 << count) - 1`. -/
def lowMask (count : Nat) : BitVec 64 := (1#64 <<< count) - 1#64

namespace Bitmap

def new (capacity : Nat) : Bitmap where
  gapBitmap := List.replicate ((capacity + 63) / 64) 0
  capacity
  empty := true

def word (bm : List (BitVec 64)) (wi : Nat) : BitVec 64 := bm.getD wi 0

/-- The loop `for w in lo..hi { bm[w] = value }`. -/
def fillWords (bm : List (BitVec 64)) (lo hi : Nat) (value : BitVec 64) : List (BitVec 64) :=
  (List.range' lo (hi - lo)).foldl (fun bm w => bm.set w value) bm

/-- The bits of a region in its first word. -/
def firstMask (start stop : Nat) : BitVec 64 :=
  if start / 64 = (stop - 1) / 64 then
    if stop % 64 = 0 then ~~~lowMask (start % 64)
    else lowMask (stop % 64) &&& ~~~lowMask (start % 64)
  else ~~~lowMask (start % 64)

/-- The bits of a region in its last word, when that is not the first one. -/
def lastMask (stop : Nat) : BitVec 64 :=
  if stop % 64 = 0 then BitVec.allOnes 64 else lowMask (stop % 64)

def markRegion (self : Bitmap) (start len : Nat) : Bitmap :=
  if len = 0 then self
  else
    let stop := start + len
    let bm := self.gapBitmap
    let firstWord := start / 64
    let lastWord := (stop - 1) / 64
    let bm := bm.set firstWord (word bm firstWord ||| firstMask start stop)
    let bm := fillWords bm (firstWord + 1) lastWord (BitVec.allOnes 64)
    let bm :=
      if lastWord ≠ firstWord then bm.set lastWord (word bm lastWord ||| lastMask stop) else bm
    { self with gapBitmap := bm, empty := false }

def unmarkRegion (self : Bitmap) (start len : Nat) : Bitmap :=
  if len = 0 ∨ self.empty then self
  else
    let stop := start + len
    let bm := self.gapBitmap
    let firstWord := start / 64
    let lastWord := (stop - 1) / 64
    let bm := bm.set firstWord (word bm firstWord &&& ~~~firstMask start stop)
    let bm := fillWords bm (firstWord + 1) lastWord 0
    let bm :=
      if lastWord ≠ firstWord then bm.set lastWord (word bm lastWord &&& ~~~lastMask stop) else bm
    let stillNonEmpty := bm.any fun w => w != 0
    { self with gapBitmap := bm, empty := if !stillNonEmpty then true else self.empty }

/-- A word without the bits outside the searched range. -/
def maskedWord (self : Bitmap) (start stop wi : Nat) : BitVec 64 :=
  let w := word self.gapBitmap wi
  let w := if wi = start / 64 ∧ start % 64 ≠ 0 then w &&& ~~~lowMask (start % 64) else w
  if wi = (stop - 1) / 64 ∧ stop % 64 ≠ 0 then w &&& lowMask (stop % 64) else w

/-- The first loop of `search_next_gap`: the next word with a gap. -/
def nextWord (self : Bitmap) (start stop : Nat) : Nat → Nat → Option Nat
  | 0, _ => none
  | fuel + 1, wi =>
    if self.maskedWord start stop wi ≠ 0 then some wi
    else if wi = (stop - 1) / 64 then none
    else nextWord self start stop fuel (wi + 1)

/-- The second loop: a gap that reaches the end of a word goes on in the next one. -/
def extendRun (self : Bitmap) (start stop gapStart : Nat) : Nat → Nat → Nat → Nat
  | 0, _, run => run
  | fuel + 1, nextWi, run =>
    if gapStart + run < stop ∧ nextWi ≤ (stop - 1) / 64 then
      let ww := self.maskedWord start stop nextWi
      let remaining := stop - (gapStart + run)
      if ww = BitVec.allOnes 64 then
        let run := run + min remaining 64
        if run = stop - gapStart then run
        else extendRun self start stop gapStart fuel (nextWi + 1) run
      else if ww = 0 then run
      else run + min (min (~~~ww).ctz.toNat remaining) 64
    else run

/-- The first gap in a range of positions: where it starts and how long it is. -/
def searchNextGap (self : Bitmap) (start len : Nat) : Option (Nat × Nat) :=
  if len = 0 ∨ self.empty then none
  else
    let stop := start + len
    let firstWord := start / 64
    let lastWord := (stop - 1) / 64
    match self.nextWord start stop (lastWord - firstWord + 1) firstWord with
    | none => none
    | some wi =>
      let w := self.maskedWord start stop wi
      let tz := w.ctz.toNat
      let gapStart := wi * 64 + tz
      let onesHere := (~~~(w >>> tz)).ctz.toNat
      let bitsAvailableInWord := 64 - tz
      let maxTotal := stop - gapStart
      let take := min (min onesHere bitsAvailableInWord) maxTotal
      if take = maxTotal then some (gapStart, take)
      else if take < bitsAvailableInWord then some (gapStart, take)
      else some (gapStart, self.extendRun start stop gapStart (lastWord - wi) (wi + 1) take)

end Bitmap

end Catplay.Model.Ring

/-!
## The media ring

`RingBuffer` of `carplay/catplay_ring/src/ring_buffer.rs` over the storage of
`ring_storage.rs`. The ring keeps the last `capacity` samples of a timeline whose positions
are counted by the two heads, which are `usize` and wrap.
-/

namespace Catplay.Model.Ring

variable {T : Type}

/-- `dst[at..at + src.len()].copy_from_slice(src)`. -/
def copyFromSlice (dst : List T) (start : Nat) (src : List T) : List T :=
  dst.take start ++ src ++ dst.drop (start + src.length)

/-- `MirroredVec` holds the samples twice; `MirroredMmap` maps the same pages twice. -/
inductive RingStorage (T : Type)
  | mirroredVec (ring : List T)
  | mirroredMmap (pages : List T)
  deriving DecidableEq, Repr

namespace RingStorage

/-- Whether the mapping succeeds is up to the system. -/
def new [Inhabited T] (mapped : Bool) (capacity : Nat) : RingStorage T :=
  if mapped then .mirroredMmap (List.replicate capacity default)
  else .mirroredVec (List.replicate (capacity * 2) default)

def asSlice : RingStorage T → List T
  | mirroredVec ring => ring
  | mirroredMmap pages => pages ++ pages

/-- A write through `as_mut_slice`. What is written behind the first mapping appears at the
start of it. -/
def writeSlice (self : RingStorage T) (head : Nat) (src : List T) : RingStorage T :=
  match self with
  | mirroredVec ring => mirroredVec (copyFromSlice ring head src)
  | mirroredMmap pages =>
    let room := pages.length - head
    mirroredMmap (copyFromSlice (copyFromSlice pages head (src.take room)) 0 (src.drop room))

def syncMirrorRange (self : RingStorage T) (cap head writtenPhys : Nat) : RingStorage T :=
  match self with
  | mirroredVec ring =>
    let start := head
    let stop := head + writtenPhys
    let bStart := min start cap
    let bEnd := min stop cap
    let ring :=
      if bEnd > bStart then
        copyFromSlice ring (cap + bStart) ((ring.drop bStart).take (bEnd - bStart))
      else ring
    let mStart := max start cap
    let mEnd := min stop (2 * cap)
    let ring :=
      if mEnd > mStart then
        copyFromSlice ring (mStart - cap) ((ring.drop mStart).take (mEnd - mStart))
      else ring
    mirroredVec ring
  | mirroredMmap pages => mirroredMmap pages

end RingStorage

inductive RingSegment (T : Type)
  | data (samples : List T)
  | gap (count : Nat)
  | overflow (count : Nat)
  | underflow (count : Nat)
  deriving DecidableEq, Repr

def RingSegment.len : RingSegment T → Nat
  | data samples => samples.length
  | gap count | overflow count | underflow count => count

inductive WriteReport
  | ok
  | partialWrite (written : Nat)
  deriving DecidableEq, Repr

structure XRunReport where
  overflow : Nat
  copied : Nat
  underflow : Nat
  deriving DecidableEq, Repr

structure RingBuffer (T : Type) where
  ring : RingStorage T
  capacity : Nat
  writeHead : Nat
  readHead : Nat
  mask : Nat
  gaps : Bitmap
  deriving DecidableEq, Repr

/-- The iterator that a read makes; `consumed` is committed when it is dropped. -/
structure RingSegments where
  cursor : Nat
  overflow : Nat
  readable : Nat
  underflow : Nat
  consumed : Nat
  deriving DecidableEq, Repr

/-- `fetch_add` on a `usize`. -/
def fetchAdd (head count : Nat) : Nat := (head + count) % 2 ^ 64

namespace RingBuffer

def newUnsplit [Inhabited T] (mapped : Bool) (size : Nat) : RingBuffer T :=
  let size := max size.nextPowerOfTwo 1
  { ring := .new mapped size
    capacity := size
    writeHead := 0
    readHead := 0
    mask := size - 1
    gaps := .new size }

/-- A mapped ring is at least the elements that fill whole pages. -/
def spsc [Inhabited T] (mapped : Bool) (elemsPerPage size : Nat) : RingBuffer T :=
  newUnsplit mapped (max (max size 1).nextPowerOfTwo elemsPerPage)

def logicalToRingIndex (self : RingBuffer T) (logical : Nat) : Nat := logical &&& self.mask

/-! ### Writing -/

def writeCommitAdvance (self : RingBuffer T) (writtenPhys advance : Nat) : RingBuffer T :=
  let cap := self.capacity
  let old := self.writeHead
  let head := self.logicalToRingIndex old
  let ring := if writtenPhys > 0 then self.ring.syncMirrorRange cap head writtenPhys else self.ring
  let firstLen := min (cap - head) writtenPhys
  let secondLen := writtenPhys - firstLen
  { self with
    ring
    gaps := (self.gaps.unmarkRegion head firstLen).unmarkRegion 0 secondLen
    writeHead := fetchAdd old advance }

/-- A write into `writable_slice`. -/
def writeInto (self : RingBuffer T) (src : List T) : RingBuffer T :=
  { self with ring := self.ring.writeSlice (self.logicalToRingIndex self.writeHead) src }

def writeCommit (self : RingBuffer T) (written : Nat) : RingBuffer T :=
  self.writeCommitAdvance written written

def write (self : RingBuffer T) (input : List T) : RingBuffer T × WriteReport :=
  let cap := self.capacity
  let total := input.length
  if total = 0 then (self, .ok)
  else
    let phys := min total cap
    let src := input.drop (total - phys)
    let self := (self.writeInto src).writeCommitAdvance phys total
    (self, if phys < total then .partialWrite phys else .ok)

def writeDefault [Inhabited T] (self : RingBuffer T) (count : Nat) : RingBuffer T :=
  if count = 0 then self
  else
    let writtenPhys := min count self.capacity
    (self.writeInto (List.replicate writtenPhys default)).writeCommitAdvance writtenPhys count

def advanceTimeline (self : RingBuffer T) (size : Nat) : RingBuffer T :=
  let cap := self.capacity
  if size = 0 then self
  else
    let mark := min size cap
    let start := self.logicalToRingIndex self.writeHead
    let firstLen := min (cap - start) mark
    let secondLen := mark - firstLen
    { self with
      gaps := (self.gaps.markRegion start firstLen).markRegion 0 secondLen
      }.writeCommitAdvance 0 size

/-! ### Reading -/

def iterSegments (self : RingBuffer T) (requested : Nat) (emitUnderflow : Bool) : RingSegments :=
  let read := self.readHead
  let write := self.writeHead
  let overflow := min (write - self.capacity - read) requested
  let cursor := read + overflow
  let remaining := requested - overflow
  let readable := min (min (write - cursor) self.capacity) remaining
  { cursor
    overflow
    readable
    underflow := if emitUnderflow then remaining - readable else 0
    consumed := 0 }

/-- The first gap on the timeline, merging gaps across the bitmap boundary. -/
def searchGapAbs (self : RingBuffer T) (startAbs len : Nat) : Option (Nat × Nat) :=
  let cap := self.capacity
  let start := self.logicalToRingIndex startAbs
  let firstLen := min len (cap - start)
  match self.gaps.searchNextGap start firstLen with
  | some (gapStart, gapLen) =>
    let absStart := startAbs + (gapStart - start)
    if gapStart + gapLen = cap ∧ len > firstLen then
      match self.gaps.searchNextGap 0 (len - firstLen) with
      | some (nextStart, nextLen) =>
        some (absStart, if nextStart = 0 then gapLen + nextLen else gapLen)
      | none => some (absStart, gapLen)
    else some (absStart, gapLen)
  | none =>
    if len > firstLen then
      match self.gaps.searchNextGap 0 (len - firstLen) with
      | some (gapStart, gapLen) => some (startAbs + firstLen + gapStart, gapLen)
      | none => none
    else none

/-- The segment that starts at a readable position. -/
def segmentAt (self : RingBuffer T) (cursor readable : Nat) : RingSegment T :=
  match self.searchGapAbs cursor readable with
  | some (start, len) =>
    if start = cursor then .gap len
    else
      .data ((self.ring.asSlice.drop (self.logicalToRingIndex cursor)).take (start - cursor))
  | none => .data ((self.ring.asSlice.drop (self.logicalToRingIndex cursor)).take readable)

def next (self : RingBuffer T) (it : RingSegments) : Option (RingSegment T × RingSegments) :=
  if it.overflow > 0 then
    some (.overflow it.overflow, { it with
      overflow := 0
      consumed := it.consumed + it.overflow })
  else if it.readable > 0 then
    let segment := self.segmentAt it.cursor it.readable
    some (segment, { it with
      cursor := it.cursor + segment.len
      readable := it.readable - segment.len
      consumed := it.consumed + segment.len })
  else if it.underflow > 0 then
    some (.underflow it.underflow, { it with
      underflow := 0
      consumed := it.consumed + it.underflow })
  else none

/-- At most `visits` calls of `next`. -/
def visit (self : RingBuffer T) : Nat → RingSegments → List (RingSegment T) × RingSegments
  | 0, it => ([], it)
  | visits + 1, it =>
    match self.next it with
    | some (segment, it) =>
      let (segments, it) := self.visit visits it
      (segment :: segments, it)
    | none => ([], it)

def readCommit (self : RingBuffer T) (count : Nat) : RingBuffer T :=
  if count = 0 then self else { self with readHead := fetchAdd self.readHead count }

/-- What was lost, and what can be read behind it. -/
def readableSlice (self : RingBuffer T) : Nat × List T :=
  let read := self.readHead
  let write := self.writeHead
  let lost := write - self.capacity - read
  let overflow := lost
  let available := write - (read + overflow)
  if available = 0 then (overflow, [])
  else
    let toRead := min available self.capacity
    let head := self.logicalToRingIndex (read + overflow)
    (overflow, (self.ring.asSlice.drop head).take toRead)

/-- An iterator over `requested` samples that is dropped after `visits` calls of `next`. -/
def takeSegments (self : RingBuffer T) (requested : Nat) (emitUnderflow : Bool) (visits : Nat) :
    RingBuffer T × List (RingSegment T) :=
  let (segments, it) := self.visit visits (self.iterSegments requested emitUnderflow)
  (self.readCommit it.consumed, segments)

/-- Every segment takes at least one sample. -/
def readSegments (self : RingBuffer T) (requested : Nat) (emitUnderflow : Bool) :
    RingBuffer T × List (RingSegment T) :=
  self.takeSegments requested emitUnderflow (requested + 1)

/-- The buffer of `read`, where it is written next, and the counts of the report. -/
structure Reading (T : Type) where
  out : List T
  cursor : Nat
  report : XRunReport

def readSegment (state : Reading T) : RingSegment T → Reading T
  | .data samples =>
    { out := copyFromSlice state.out state.cursor samples
      cursor := state.cursor + samples.length
      report := { state.report with copied := state.report.copied + samples.length } }
  | .overflow count =>
    { state with
      cursor := state.cursor + count
      report := { state.report with overflow := state.report.overflow + count } }
  | .gap count | .underflow count =>
    { state with
      cursor := state.cursor + count
      report := { state.report with underflow := state.report.underflow + count } }

/-- The new contents of `out`, and the report unless every sample was copied. -/
def read (self : RingBuffer T) (out : List T) : RingBuffer T × List T × Except XRunReport Unit :=
  let requested := out.length
  if requested = 0 then (self, out, .ok ())
  else
    let (self, segments) := self.readSegments requested true
    let state := segments.foldl readSegment ⟨out, 0, ⟨0, 0, 0⟩⟩
    if state.report.overflow = 0 ∧ state.report.underflow = 0 then (self, state.out, .ok ())
    else (self, state.out, .error state.report)

end RingBuffer

end Catplay.Model.Ring
