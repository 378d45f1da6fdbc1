import Mathlib.Data.List.Basic

/-!
# Buffers, chunks and blocks

Lists as buffers: writing inside one, cutting one into pieces, and absorbing data piece by piece.
-/

set_option autoImplicit false

/-!
## Writing inside a buffer

A buffer is the list of its bytes. `overwrite` replaces bytes from a position on, `copyWithin`
copies a range of the buffer, which may overlap its target, to a position.
-/

namespace Catplay.Library.Buffer

variable {β : Type*}

/-- `buffer[position..position + bytes.len()].copy_from_slice(bytes)`. -/
def overwrite (buffer : List β) (position : Nat) (bytes : List β) : List β :=
  buffer.take position ++ bytes ++ buffer.drop (position + bytes.length)

/-- `buffer.copy_within(start..stop, position)`. -/
def copyWithin (buffer : List β) (start stop position : Nat) : List β :=
  overwrite buffer position ((buffer.take stop).drop start)

end Catplay.Library.Buffer

/-!
## Cutting a list into chunks

`chunks n l` cuts `l` into pieces of `n` elements, the last one shorter when `n` does not
divide the length. The pieces make up the list (`flatten_chunks`), and each of them is
short (`length_le_of_mem_chunks`) and not empty.
-/

namespace Catplay.Library

variable {α : Type*}

/-- The loop of `chunks`; a list has no more chunks than elements. -/
def chunksAux (n : Nat) : Nat → List α → List (List α)
  | 0, _ => []
  | fuel + 1, l => if l.isEmpty then [] else l.take n :: chunksAux n fuel (l.drop n)

theorem chunksAux_succ (n fuel : Nat) (l : List α) : chunksAux n (fuel + 1) l =
    if l.isEmpty then [] else l.take n :: chunksAux n fuel (l.drop n) := rfl

def chunks (n : Nat) (l : List α) : List (List α) := chunksAux n l.length l

/-- Whole chunks, and the elements that are left. -/
def chunksExact (n : Nat) (l : List α) : List (List α) × List α :=
  (chunks n (l.take (l.length / n * n)), l.drop (l.length / n * n))

variable {n : Nat} {c l : List α}

theorem flatten_chunksAux (hn : 0 < n) (fuel : Nat) (l : List α)
    (hfuel : l.length ≤ fuel) : (chunksAux n fuel l).flatten = l := by
  induction fuel generalizing l with
  | zero =>
    rw [List.length_eq_zero_iff.mp (Nat.le_zero.mp hfuel)]
    rfl
  | succ fuel ih =>
    rw [chunksAux_succ]
    cases l with
    | nil => rfl
    | cons x l =>
      have hdrop : ((x :: l).drop n).length ≤ fuel := by
        rw [List.length_drop]
        rw [List.length_cons] at hfuel ⊢
        omega
      simp only [List.isEmpty_cons, Bool.false_eq_true, if_false, List.flatten_cons]
      rw [ih _ hdrop, List.take_append_drop]

/-- **The chunks make up the list.** -/
theorem flatten_chunks (hn : 0 < n) (l : List α) : (chunks n l).flatten = l :=
  flatten_chunksAux hn _ l (Nat.le_refl _)

theorem length_le_of_mem_chunksAux {fuel : Nat} (hc : c ∈ chunksAux n fuel l) :
    c.length ≤ n := by
  induction fuel generalizing l with
  | zero => cases hc
  | succ fuel ih =>
    rw [chunksAux_succ] at hc
    split at hc
    · cases hc
    · rcases List.mem_cons.mp hc with rfl | hc
      · exact List.length_take_le n l
      · exact ih hc

theorem length_le_of_mem_chunks (hc : c ∈ chunks n l) : c.length ≤ n :=
  length_le_of_mem_chunksAux hc

theorem length_le_of_mem_chunksExact (hc : c ∈ (chunksExact n l).1) :
    c.length ≤ n :=
  length_le_of_mem_chunks hc

theorem length_of_mem_chunksAux {fuel k : Nat} (hl : l.length = k * n)
    (hc : c ∈ chunksAux n fuel l) : c.length = n := by
  induction fuel generalizing l k with
  | zero => cases hc
  | succ fuel ih =>
    rw [chunksAux_succ] at hc
    split at hc
    · cases hc
    · rename_i hne
      obtain ⟨k, rfl⟩ : ∃ j, k = j + 1 := by
        refine Nat.exists_eq_succ_of_ne_zero fun hzero => hne ?_
        rw [hzero, Nat.zero_mul] at hl
        rw [List.length_eq_zero_iff.mp hl]
        rfl
      rw [Nat.succ_mul] at hl
      rcases List.mem_cons.mp hc with rfl | hc
      · rw [List.length_take]
        omega
      · exact ih (k := k) (by rw [List.length_drop]; omega) hc

/-- Whole chunks have the whole length. -/
theorem length_of_mem_chunksExact (hc : c ∈ (chunksExact n l).1) :
    c.length = n := by
  refine length_of_mem_chunksAux (k := l.length / n) ?_ hc
  rw [List.length_take]
  exact Nat.min_eq_left (Nat.div_mul_le_self l.length n)

/-- Whole chunks and the rest make up the list. -/
theorem flatten_chunksExact (hn : 0 < n) (l : List α) :
    (chunksExact n l).1.flatten ++ (chunksExact n l).2 = l := by
  show (chunks n _).flatten ++ l.drop _ = l
  rw [flatten_chunks hn, List.take_append_drop]

theorem chunksAux_of_le (fuel more : Nat) (hn : 0 < n)
    (hfuel : l.length ≤ fuel) (hmore : l.length ≤ more) :
    chunksAux n fuel l = chunksAux n more l := by
  induction fuel generalizing l more with
  | zero =>
    rw [List.length_eq_zero_iff.mp (Nat.le_zero.mp hfuel)]
    cases more with
    | zero => rfl
    | succ more => rfl
  | succ fuel ih =>
    cases l with
    | nil =>
      cases more with
      | zero => rfl
      | succ more => rfl
    | cons x l =>
      rw [List.length_cons] at hfuel hmore
      obtain ⟨more, rfl⟩ : ∃ k, more = k + 1 := ⟨more - 1, by omega⟩
      rw [chunksAux_succ, chunksAux_succ]
      have hdrop : ((x :: l).drop n).length ≤ l.length := by
        rw [List.length_drop, List.length_cons]
        omega
      rw [ih more (by omega) (by omega)]

/-- One chunk and the others. -/
theorem chunks_eq (hn : 0 < n) (hl : l ≠ []) :
    chunks n l = l.take n :: chunks n (l.drop n) := by
  obtain ⟨x, rest, rfl⟩ := List.exists_cons_of_ne_nil hl
  have hdrop : ((x :: rest).drop n).length ≤ rest.length := by
    rw [List.length_drop, List.length_cons]
    omega
  show chunksAux n (rest.length + 1) (x :: rest) = _
  rw [chunksAux_succ, chunks, chunksAux_of_le rest.length _ hn hdrop (Nat.le_refl _)]
  rfl

/-- A short list is one chunk. -/
theorem chunks_of_short (hn : 0 < n) (hl : l ≠ []) (hshort : l.length ≤ n) :
    chunks n l = [l] := by
  rw [chunks_eq hn hl, List.take_of_length_le hshort, List.drop_of_length_le hshort]
  rfl

/-- Behind whole chunks the rest is cut on its own. -/
theorem chunks_append {k : Nat} (hn : 0 < n) {front : List α} (hfront : front.length = k * n)
    (back : List α) : chunks n (front ++ back) = chunks n front ++ chunks n back := by
  induction k generalizing front with
  | zero =>
    rw [Nat.zero_mul] at hfront
    rw [List.length_eq_zero_iff.mp hfront]
    rfl
  | succ k ih =>
    rw [Nat.succ_mul] at hfront
    have hne : front ≠ [] := by
      rintro rfl
      rw [List.length_nil] at hfront
      omega
    have happend : front ++ back ≠ [] := fun h => hne (List.append_eq_nil_iff.mp h).1
    rw [chunks_eq hn happend, chunks_eq hn hne, List.take_append_of_le_length (by omega),
      List.drop_append_of_le_length (by omega), ih (by rw [List.length_drop]; omega),
      List.cons_append]

/-- **All the chunks**: the whole ones, and the rest if there is one. -/
theorem chunks_eq_exact (hn : 0 < n) (l : List α) :
    chunks n l =
      (chunksExact n l).1 ++ if (chunksExact n l).2 = [] then [] else [(chunksExact n l).2] := by
  have hfront : (l.take (l.length / n * n)).length = l.length / n * n := by
    rw [List.length_take]
    exact Nat.min_eq_left (Nat.div_mul_le_self l.length n)
  have hshort : (l.drop (l.length / n * n)).length ≤ n := by
    have hmod := Nat.mod_lt l.length hn
    have hdiv := Nat.div_add_mod l.length n
    rw [Nat.mul_comm] at hdiv
    rw [List.length_drop]
    omega
  conv_lhs => rw [← List.take_append_drop (l.length / n * n) l]
  rw [chunks_append hn hfront]
  unfold chunksExact
  dsimp only
  split
  · rename_i hnil
    rw [hnil]
    rfl
  · rename_i hne
    rw [chunks_of_short hn hne hshort]

end Catplay.Library

/-!
## Absorbing data block by block

A state takes whole blocks of `size` elements; what does not fill a block is kept until more data
come. `pushAll` takes the elements one by one, so data cut in two are absorbed piece by piece
(`pushAll_append`), and it is what any way of filling the blocks comes to (`pushAll_short`,
`pushAll_fill`, `pushAll_blocks`).
-/

namespace Catplay.Library.Blocks

variable {σ β : Type*} (block : σ → List β → σ) (size : Nat)

/-- One element: it fills the block or is kept. -/
def push (s : σ × List β) (b : β) : σ × List β :=
  if (s.2 ++ [b]).length = size then (block s.1 (s.2 ++ [b]), []) else (s.1, s.2 ++ [b])

def pushAll (s : σ × List β) (data : List β) : σ × List β := data.foldl (push block size) s

variable {block size}

@[simp] theorem pushAll_nil (s : σ × List β) : pushAll block size s [] = s := rfl

/-- **Piece by piece.** -/
theorem pushAll_append (s : σ × List β) (front back : List β) :
    pushAll block size s (front ++ back) = pushAll block size (pushAll block size s front) back :=
  List.foldl_append

variable {state : σ}

/-- Data that do not fill the block are kept. -/
theorem pushAll_short {left data : List β} (h : left.length + data.length < size) :
    pushAll block size (state, left) data = (state, left ++ data) := by
  induction data generalizing left with
  | nil => rw [List.append_nil, pushAll_nil]
  | cons b data ih =>
    rw [List.length_cons] at h
    have hne : (left ++ [b]).length ≠ size := by
      rw [List.length_append, List.length_singleton]
      omega
    have hpush : push block size (state, left) b = (state, left ++ [b]) := if_neg hne
    show pushAll block size (push block size (state, left) b) data = _
    rw [hpush, ih (by rw [List.length_append, List.length_singleton]; omega), List.append_assoc,
      List.singleton_append]

/-- Data that fill the block are absorbed with what was kept. -/
theorem pushAll_fill {left data : List β} (hdata : data ≠ [])
    (h : left.length + data.length = size) :
    pushAll block size (state, left) data = (block state (left ++ data), []) := by
  set front := data.dropLast
  set last := data.getLast hdata
  have hcut : data = front ++ [last] := (List.dropLast_append_getLast hdata).symm
  rw [hcut, List.length_append, List.length_singleton] at h
  have hshort : left.length + front.length < size := by omega
  have hfull : (left ++ front ++ [last]).length = size := by
    rw [List.length_append, List.length_append, List.length_singleton]
    omega
  rw [hcut, pushAll_append, pushAll_short hshort, ← List.append_assoc]
  exact if_pos hfull

/-- Whole blocks are absorbed one after the other. -/
theorem pushAll_blocks {blocks : List (List β)} (hsize : 0 < size)
    (h : ∀ b ∈ blocks, b.length = size) :
    pushAll block size (state, []) blocks.flatten = (blocks.foldl block state, []) := by
  induction blocks generalizing state with
  | nil => rfl
  | cons b blocks ih =>
    have hb := h b List.mem_cons_self
    have hne : b ≠ [] := by
      rintro rfl
      rw [List.length_nil] at hb
      omega
    rw [List.flatten_cons, pushAll_append, pushAll_fill hne (by rw [List.length_nil, hb, Nat.zero_add]),
      List.nil_append, ih fun c hc => h c (List.mem_cons_of_mem b hc)]
    rfl

/-- No block is ever kept whole. -/
theorem length_push_lt (hsize : 0 < size) {s : σ × List β} (h : s.2.length < size) (b : β) :
    (push block size s b).2.length < size := by
  unfold push
  split
  · exact hsize
  · rename_i hne
    rw [List.length_append, List.length_singleton] at hne ⊢
    omega

theorem length_pushAll_lt (hsize : 0 < size) {s : σ × List β} (h : s.2.length < size)
    (data : List β) : (pushAll block size s data).2.length < size := by
  induction data generalizing s with
  | nil => exact h
  | cons b data ih => exact ih (length_push_lt hsize h b)

end Catplay.Library.Blocks
