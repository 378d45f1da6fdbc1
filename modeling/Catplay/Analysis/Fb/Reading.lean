import Catplay.Library.BitString
import Catplay.Model.Fb.Semantics

/-!
# What bit readers and writers do

The rules by which the bits that a program reads and writes are followed.
-/

set_option autoImplicit false

/-!
## What the bit reader reads

`Accepts x l a` says that `x` gives `a` wherever the bits that are left begin with `l`, and goes
behind them. `Reads x P` says that `x` does not panic and that what it gives was read from bits
with which it has `P`. The crate is assumed to code as H.264 defines (`CodesAsH264`).
-/

namespace Catplay.Analysis.Fb

open Catplay.Library Catplay.Library.Checked
open Catplay.Library.BitString Catplay.Library.ExpGolomb
open Catplay.Model.Fb

/-- The bits of a `u8` that is a flag. -/
def flag (b : Bool) : UInt8 := if b then 1 else 0

theorem flag_eq_zero (b : Bool) : flag b = 0 ↔ b = false := by
  cases b <;> decide

/-- **What the source relies on**: the decoder finds `v` where the code of `v` is, the encoder
writes the code of `v`. A signed value stands for a code number of 64 bits and is an `i64`. -/
structure CodesAsH264 (crate : ExpGolomb) : Prop where
  newDecoder : ∀ data start, data ≠ [] → start < 8 → ∃ d, crate.newDecoder data start = some d
  nextUnsigned : ∀ data start d, crate.newDecoder data start = some d → ∀ v < 2 ^ 32,
    crate.nextUnsigned d = some v ↔ ueCode v <+: (bits data).drop start
  nextSigned : ∀ data start d, crate.newDecoder data start = some d → ∀ k : Int,
    -2 ^ 31 ≤ k → k < 2 ^ 31 →
      (crate.nextSigned d = some k ↔ seCode k <+: (bits data).drop start)
  signedRange : ∀ d k, crate.nextSigned d = some k → -2 ^ 63 < k ∧ k < 2 ^ 63
  encode : ∀ n v, (ueCode v).length ≤ 8 * n → 0 < n →
    ∃ e e' out byte b, crate.newEncoder (List.replicate n 0) 0 = some e ∧
      crate.putUnsigned e v = some e' ∧ crate.close e' = (out, byte, b) ∧
      byte * 8 + b = (ueCode v).length ∧ ueCode v <+: bits out

variable {α β : Type}

/-- The bits that are left. -/
def rest (r : BitReader) : List Bool := (bits r.data).drop r.pos

def advance (r : BitReader) (n : Nat) : BitReader := { r with pos := r.pos + n }

def Accepts (x : Read α) (l : List Bool) (a : α) : Prop :=
  ∀ r, l <+: rest r → x r = .ok (a, advance r l.length)

def Reads (x : Read α) (P : α → List Bool → Prop) : Prop :=
  ∀ r : BitReader, r.pos ≤ 8 * r.data.length →
    Meets (x r) fun out => ∃ l, l <+: rest r ∧ out.2 = advance r l.length ∧ P out.1 l

/-! ### Positions -/

theorem rest_advance (r : BitReader) (n : Nat) : rest (advance r n) = (rest r).drop n := by
  unfold rest advance
  rw [List.drop_drop]

theorem advance_advance (r : BitReader) (m n : Nat) :
    advance (advance r m) n = advance r (m + n) := by
  unfold advance
  rw [Nat.add_assoc]

variable {l m : List Bool} {r : BitReader} {x : Read α} {c : Prop} {v : Nat} {crate : ExpGolomb}

/-- Bits that are there lie within the data. -/
theorem pos_le_of_prefix (hpos : r.pos ≤ 8 * r.data.length)
    (h : l <+: rest r) : r.pos + l.length ≤ 8 * r.data.length := by
  have hlen := h.length_le
  unfold rest at hlen
  rw [List.length_drop, length_bits] at hlen
  omega

theorem prefix_rest_append (hl : l <+: rest r)
    (hm : m <+: rest (advance r l.length)) : l ++ m <+: rest r := by
  obtain ⟨t, ht⟩ := hl
  rw [rest_advance, ← ht, List.drop_left] at hm
  rw [← ht]
  exact List.prefix_append_right_inj l |>.mpr hm

theorem prefix_left (h : l ++ m <+: rest r) : l <+: rest r :=
  (List.prefix_append l m).trans h

theorem prefix_right (h : l ++ m <+: rest r) :
    m <+: rest (advance r l.length) := by
  obtain ⟨t, ht⟩ := h
  rw [rest_advance, ← ht, List.append_assoc, List.drop_left]
  exact List.prefix_append m t

/-! ### Rules -/

theorem accepts_pure (a : α) : Accepts (pure a) [] a := fun _ _ => rfl

theorem Accepts.bind {f : α → Read β} {a : α} {b : β}
    (hx : Accepts x l a) (hf : Accepts (f a) m b) : Accepts (x >>= f) (l ++ m) b := by
  intro r h
  have hfirst := hx r (prefix_left h)
  have hsecond := hf _ (prefix_right h)
  show (x r >>= fun out => f out.1 out.2) = _
  rw [hfirst, List.length_append, ← advance_advance]
  exact hsecond

theorem reads_pure (a : α) : Reads (pure a) fun b l => b = a ∧ l = [] := by
  intro r _
  exact ⟨[], List.nil_prefix, rfl, rfl, rfl⟩

theorem Reads.mono {P Q : α → List Bool → Prop} (h : Reads x P)
    (hle : ∀ a l, P a l → Q a l) : Reads x Q := by
  intro r hpos
  apply (h r hpos).mono
  rintro out ⟨l, hl, hout, hP⟩
  exact ⟨l, hl, hout, hle _ _ hP⟩

theorem Reads.bind {f : α → Read β} {P : α → List Bool → Prop}
    {Q : β → List Bool → Prop} (hx : Reads x P)
    (hf : ∀ a l, P a l → Reads (f a) fun b m => Q b (l ++ m)) : Reads (x >>= f) Q := by
  intro r hpos
  show Meets (x r >>= fun out => f out.1 out.2) _
  apply (hx r hpos).bind
  rintro out ⟨l, hl, hout, hP⟩
  rw [hout]
  have hin : (advance r l.length).pos ≤ 8 * (advance r l.length).data.length :=
    pos_le_of_prefix hpos hl
  apply (hf _ _ hP _ hin).mono
  rintro last ⟨m, hm, hlast, hQ⟩
  refine ⟨l ++ m, prefix_rest_append hl hm, ?_, hQ⟩
  rw [hlast, advance_advance, List.length_append]

theorem accepts_failIf [Decidable c] (reason : String) (h : ¬c) :
    Accepts (failIf c reason) [] () := by
  unfold failIf
  rw [if_neg h]
  exact accepts_pure ()

theorem reads_failIf [Decidable c] (reason : String) :
    Reads (failIf c reason) fun _ l => ¬c ∧ l = [] := by
  unfold failIf
  by_cases h : c
  · rw [if_pos h]
    intro r _
    trivial
  · rw [if_neg h]
    exact (reads_pure ()).mono fun _ l hl => ⟨h, hl.2⟩

theorem accepts_onlyIf [Decidable c] {a : α}
    (h : Accepts x l a) : Accepts (onlyIf c x) (if c then l else []) () := by
  unfold onlyIf
  by_cases hc : c
  · rw [if_pos hc, if_pos hc]
    intro r hr
    show (x r >>= fun out => .ok ((), out.2)) = _
    rw [h r hr]
    rfl
  · rw [if_neg hc, if_neg hc]
    exact accepts_pure ()

/-! ### A bit, and bits -/

theorem shift_and_one (byte : UInt8) {k : Nat} (hk : k < 8) :
    (byte >>> UInt8.ofNat k) &&& 1 = flag (byte.toNat.testBit k) := by
  apply UInt8.toNat_inj.mp
  have hshift : (UInt8.ofNat k).toNat = k := by
    rw [UInt8.toNat_ofNat']
    omega
  have hflag : (flag (byte.toNat.testBit k)).toNat = (byte.toNat.testBit k).toNat := by
    cases byte.toNat.testBit k <;> rfl
  rw [UInt8.toNat_and, UInt8.toNat_shiftRight, hshift, Nat.mod_eq_of_lt hk, hflag]
  show byte.toNat >>> k &&& 1 = _
  rw [Nat.and_one_is_mod, Nat.testBit_eq_decide_div_mod_eq, Nat.shiftRight_eq_div_pow]
  cases Nat.mod_two_eq_zero_or_one (byte.toNat / 2 ^ k) with
  | inl h => rw [h]; rfl
  | inr h => rw [h]; rfl

theorem getElem?_rest (r : BitReader) : (rest r)[0]? = (bits r.data)[r.pos]? := by
  unfold rest
  rw [List.getElem?_drop, Nat.add_zero]

theorem accepts_bit (b : Bool) : Accepts BitReader.bit [b] (flag b) := by
  rintro r ⟨t, ht⟩
  have hread := getElem?_rest r
  rw [← ht, getElem?_bits] at hread
  unfold BitReader.bit
  cases hbyte : r.data[r.pos / 8]? with
  | none =>
    rw [hbyte] at hread
    cases hread
  | some byte =>
    rw [hbyte] at hread
    have hb : b = byte.toNat.testBit (7 - r.pos % 8) := Option.some.inj hread
    show Except.ok _ = _
    rw [shift_and_one byte (by omega), hb]
    rfl

theorem reads_bit : Reads BitReader.bit fun a l => ∃ b, a = flag b ∧ l = [b] := by
  intro r hpos
  cases hrest : rest r with
  | nil =>
    have hend : (bits r.data)[r.pos]? = none := by
      rw [← getElem?_rest, hrest]
      rfl
    rw [getElem?_bits, Option.map_eq_none_iff] at hend
    unfold BitReader.bit
    rw [hend]
    trivial
  | cons b t =>
    have hprefix : [b] <+: rest r := ⟨t, hrest.symm⟩
    rw [accepts_bit b r hprefix]
    exact ⟨[b], ⟨t, rfl⟩, rfl, b, rfl, rfl⟩

theorem shift_or (v : Nat) (b : Bool) : v <<< 1 ||| (flag b).toNat = 2 * v + b.toNat := by
  have hb : (flag b).toNat = b.toNat := by cases b <;> rfl
  have hlt : b.toNat < 2 ^ 1 := by cases b <;> decide
  rw [hb, Nat.shiftLeft_eq, Nat.mul_comm, ← Nat.two_pow_add_eq_or_of_lt hlt, Nat.pow_one]

theorem accepts_bitsLoop (l : List Bool) (v : Nat) :
    Accepts (BitReader.bitsLoop l.length v) l (l.foldl (fun v b => 2 * v + b.toNat) v) := by
  induction l generalizing v with
  | nil => exact accepts_pure v
  | cons b l ih =>
    rw [List.length_cons, List.foldl_cons]
    refine (accepts_bit b).bind (m := l) ?_
    rw [shift_or]
    exact ih _

theorem reads_bitsLoop (n v : Nat) : Reads (BitReader.bitsLoop n v) fun a l =>
    l.length = n ∧ a = l.foldl (fun v b => 2 * v + b.toNat) v := by
  induction n generalizing v with
  | zero => exact (reads_pure v).mono fun a l h => by simp [h.1, h.2]
  | succ n ih =>
    refine reads_bit.bind fun a l hl => ?_
    obtain ⟨b, rfl, rfl⟩ := hl
    rw [shift_or]
    refine (ih _).mono fun a l hl => ?_
    exact ⟨by simp [hl.1], hl.2⟩

/-- **A field of `n` bits.** -/
theorem accepts_bits {n : Nat} (hn : n ≤ 32) (hv : v < 2 ^ n) :
    Accepts (BitReader.bits n) (natBits n v) v := by
  have hloop := accepts_bitsLoop (natBits n v) 0
  rw [length_natBits] at hloop
  have hvalue : (natBits n v).foldl (fun v b => 2 * v + b.toNat) 0 = v := ofBits_natBits hv
  rw [hvalue] at hloop
  exact (accepts_failIf _ (by omega)).bind hloop

theorem reads_bits (n : Nat) : Reads (BitReader.bits n) fun a l => l = natBits n a ∧ a < 2 ^ n := by
  refine (reads_failIf _).bind fun _ front hfront => ?_
  refine (reads_bitsLoop n 0).mono fun a l hl => ?_
  obtain ⟨rfl, ha⟩ := hl
  have hbits : a = ofBits l := ha
  rw [hfront.2, List.nil_append, hbits, natBits_ofBits]
  exact ⟨rfl, ofBits_lt l⟩

/-! ### Exponential Golomb codes -/

theorem expGolombBitLen_of_lt (h : v + 1 < 2 ^ 64) :
    BitReader.expGolombBitLen v = .ok (ueCode v).length := by
  unfold BitReader.expGolombBitLen
  rw [if_pos h, length_ueCode]
  show Except.ok ((zeros v + 1) * 2 - 1) = _
  rw [show (zeros v + 1) * 2 - 1 = 2 * zeros v + 1 by omega]

/-- What the decoder is given, and the bits it sees. -/
theorem sliceFrom_rest (hpos : r.pos ≤ 8 * r.data.length) :
    BitReader.sliceFrom r.data (r.pos / 8) = .ok (r.data.drop (r.pos / 8)) ∧
      (bits (r.data.drop (r.pos / 8))).drop (r.pos % 8) = rest r := by
  constructor
  · unfold BitReader.sliceFrom slice
    rw [if_pos ⟨by omega, Nat.le_refl _⟩, List.take_of_length_le (by rw [List.length_drop])]
  · rw [bits_drop, List.drop_drop, Nat.div_add_mod]
    rfl

theorem length_ueCode_pos (v : Nat) : 0 < (ueCode v).length := by
  rw [length_ueCode]
  omega

/-- Where a code is, there is a decoder. -/
theorem newDecoder_of_prefix (hc : CodesAsH264 crate)
    (h : ueCode v <+: rest r) : r.pos ≤ 8 * r.data.length ∧
      ∃ d, crate.newDecoder (r.data.drop (r.pos / 8)) (r.pos % 8) = some d := by
  have hlen := h.length_le
  have hcode := length_ueCode_pos v
  unfold rest at hlen
  rw [List.length_drop, length_bits] at hlen
  refine ⟨by omega, hc.newDecoder _ _ ?_ (Nat.mod_lt _ (by omega))⟩
  intro hnil
  have hshort := congrArg List.length hnil
  rw [List.length_drop, List.length_nil] at hshort
  omega

/-- **An unsigned code.** -/
theorem accepts_ue (hc : CodesAsH264 crate) (hv : v < 2 ^ 32) :
    Accepts (BitReader.ue crate) (ueCode v) v := by
  intro r h
  obtain ⟨hpos, d, hd⟩ := newDecoder_of_prefix hc h
  obtain ⟨hslice, hbits⟩ := sliceFrom_rest hpos
  have hnext : crate.nextUnsigned d = some v := by
    rw [hc.nextUnsigned _ _ d hd v hv, hbits]
    exact h
  unfold BitReader.ue
  simp only [hslice, hd, hnext, orFail, expGolombBitLen_of_lt (show v + 1 < 2 ^ 64 by omega),
    bind, Except.bind, if_pos hv]
  rfl

theorem reads_ue (hc : CodesAsH264 crate) :
    Reads (BitReader.ue crate) fun v l => l = ueCode v ∧ v < 2 ^ 32 := by
  intro r hpos
  obtain ⟨hslice, hbits⟩ := sliceFrom_rest hpos
  unfold BitReader.ue
  rw [hslice]
  show Meets (orFail _ _ >>= _) _
  apply (meets_orFail (P := fun d => crate.newDecoder _ _ = some d) (fun d hd => hd) _).bind
  intro d hd
  apply (meets_orFail (P := fun v => crate.nextUnsigned d = some v) (fun v hv => hv) _).bind
  intro v hv
  unfold BitReader.expGolombBitLen
  split
  · show Meets (if v < 2 ^ 32 then _ else _) _
    split
    · rename_i hsmall
      have hcode : ueCode v <+: rest r := by
        rw [← hbits]
        exact (hc.nextUnsigned _ _ d hd v hsmall).mp hv
      refine ⟨ueCode v, hcode, ?_, rfl, hsmall⟩
      show (⟨r.data, r.pos + ((zeros v + 1) * 2 - 1)⟩ : BitReader) = _
      rw [show (zeros v + 1) * 2 - 1 = (ueCode v).length by rw [length_ueCode]; omega]
      rfl
    · trivial
  · trivial

theorem seNum_eq (k : Int) :
    (if k ≤ 0 then k.natAbs * 2 else k.natAbs * 2 - 1) = seNum k := by
  unfold seNum
  rw [Nat.mul_comm]

/-- **A signed code.** -/
theorem accepts_se (hc : CodesAsH264 crate) {k : Int} (hlo : -2 ^ 31 ≤ k)
    (hhi : k < 2 ^ 31) : Accepts (BitReader.se crate) (seCode k) k := by
  intro r h
  obtain ⟨hpos, d, hd⟩ := newDecoder_of_prefix hc h
  obtain ⟨hslice, hbits⟩ := sliceFrom_rest hpos
  have hnext : crate.nextSigned d = some k := by
    rw [hc.nextSigned _ _ d hd k hlo hhi, hbits]
    exact h
  have habs : k.natAbs * 2 < 2 ^ 64 := by omega
  have hnum : seNum k + 1 < 2 ^ 64 := by
    rw [← seNum_eq]
    split <;> omega
  unfold BitReader.se
  simp only [hslice, hd, hnext, orFail, if_pos habs, seNum_eq, expGolombBitLen_of_lt hnum,
    bind, Except.bind, if_pos (And.intro hlo hhi)]
  rfl

theorem reads_se (hc : CodesAsH264 crate) :
    Reads (BitReader.se crate) fun k l => l = seCode k ∧ -2 ^ 31 ≤ k ∧ k < 2 ^ 31 := by
  intro r hpos
  obtain ⟨hslice, hbits⟩ := sliceFrom_rest hpos
  unfold BitReader.se
  rw [hslice]
  show Meets (orFail _ _ >>= _) _
  apply (meets_orFail (P := fun d => crate.newDecoder _ _ = some d) (fun d hd => hd) _).bind
  intro d hd
  apply (meets_orFail (P := fun k => crate.nextSigned d = some k) (fun k hk => hk) _).bind
  intro k hk
  obtain ⟨hlow, hhigh⟩ := hc.signedRange d k hk
  have habs : k.natAbs * 2 < 2 ^ 64 := by omega
  rw [if_pos habs, seNum_eq]
  show Meets (BitReader.expGolombBitLen (seNum k) >>= _) _
  unfold BitReader.expGolombBitLen
  split
  · show Meets (if -2 ^ 31 ≤ k ∧ k < 2 ^ 31 then _ else _) _
    split
    · rename_i hsmall
      have hcode : seCode k <+: rest r := by
        rw [← hbits]
        exact (hc.nextSigned _ _ d hd k hsmall.1 hsmall.2).mp hk
      refine ⟨seCode k, hcode, ?_, rfl, hsmall⟩
      show (⟨r.data, r.pos + ((zeros (seNum k) + 1) * 2 - 1)⟩ : BitReader) = _
      rw [show (zeros (seNum k) + 1) * 2 - 1 = (seCode k).length by
        rw [seCode, length_ueCode]; omega]
      rfl
    · trivial
  · trivial

/-! ### To the next byte -/

/-- Behind `k` ones the reader is at a byte boundary. -/
theorem alignOne_ok {k : Nat} (fuel : Nat) (hfuel : k ≤ fuel) (hk : k < 8)
    (hto : (r.pos + k) % 8 = 0) (hones : List.replicate k true <+: rest r) :
    BitReader.alignOne fuel r = .ok ((), advance r k) := by
  induction k generalizing r fuel with
  | zero =>
    cases fuel with
    | zero => rfl
    | succ fuel =>
      show (if r.pos % 8 = 0 then (pure () : Read Unit) else _) r = _
      rw [if_pos (by omega)]
      rfl
  | succ k ih =>
    obtain ⟨fuel, rfl⟩ : ∃ n, fuel = n + 1 := ⟨fuel - 1, by omega⟩
    rw [List.replicate_succ] at hones
    have hone : [true] <+: rest r := (prefix_left (l := [true]) hones)
    have hmore : List.replicate k true <+: rest (advance r 1) := prefix_right (l := [true]) hones
    show (if r.pos % 8 = 0 then (pure () : Read Unit) else
      BitReader.bit >>= fun b => failIf (b ≠ 1) _ >>= fun _ => BitReader.alignOne fuel) r = _
    rw [if_neg (by omega)]
    show (BitReader.bit r >>= fun out => _) = _
    rw [accepts_bit true r hone]
    have hrest := ih (r := advance r 1) fuel (by omega) (by omega)
      (show (r.pos + 1 + k) % 8 = 0 by rw [← hto]; congr 1; omega) hmore
    rw [Nat.add_comm k 1, ← advance_advance]
    exact hrest

theorem alignOne_meets (fuel : Nat) (hpos : r.pos ≤ 8 * r.data.length)
    (hfuel : (8 - r.pos % 8) % 8 ≤ fuel) :
    Meets (BitReader.alignOne fuel r) fun out => ∃ k < 8, (r.pos + k) % 8 = 0 ∧
      List.replicate k true <+: rest r ∧ out.2 = advance r k := by
  induction fuel generalizing r with
  | zero => exact ⟨0, by omega, by omega, List.nil_prefix, rfl⟩
  | succ fuel ih =>
    show Meets ((if r.pos % 8 = 0 then (pure () : Read Unit) else
      BitReader.bit >>= fun b => failIf (b ≠ 1) _ >>= fun _ => BitReader.alignOne fuel) r) _
    by_cases hzero : r.pos % 8 = 0
    · rw [if_pos hzero]
      exact ⟨0, by omega, by omega, List.nil_prefix, rfl⟩
    · rw [if_neg hzero]
      show Meets (BitReader.bit r >>= fun out => _) _
      apply (reads_bit r hpos).bind
      rintro ⟨a, r'⟩ ⟨l, hl, hr', b, ha, hb⟩
      subst ha hb
      obtain rfl : r' = advance r 1 := hr'
      have hin : (advance r 1).pos ≤ 8 * (advance r 1).data.length := pos_le_of_prefix hpos hl
      show Meets (failIf (flag b ≠ 1) _ (advance r 1) >>= fun out => _) _
      apply (reads_failIf _ (advance r 1) hin).bind
      rintro ⟨_, r''⟩ ⟨m, hm, hr'', hb, rfl⟩
      obtain rfl : r'' = advance r 1 := hr''
      have hb1 : b = true := by
        cases b with
        | true => rfl
        | false => exact absurd (show flag false ≠ 1 by decide) hb
      have hnext : (advance r 1).pos = r.pos + 1 := rfl
      apply (ih hin (by rw [hnext]; omega)).mono
      rintro out ⟨k, hk, hto, hones, hout⟩
      rw [hnext] at hto
      have hk7 : k < 7 := by omega
      refine ⟨k + 1, by omega, by rw [← hto]; congr 1; omega, ?_, ?_⟩
      · rw [List.replicate_succ]
        rw [hb1] at hl
        exact prefix_rest_append hl hones
      · rw [hout, advance_advance, Nat.add_comm]

end Catplay.Analysis.Fb

/-!
## What the bit writer writes

`Holds w l` says that the bits of `w` are `l` and zeros up to the next byte. `Writes x l` says
that `x` adds the bits `l` and does not panic, and `Panics x` that it does.
-/

namespace Catplay.Analysis.Fb

open Catplay.Library Catplay.Library.Checked
open Catplay.Library.BitString Catplay.Library.ExpGolomb
open Catplay.Model.Fb

/-- The zeros that are missing to a whole byte. -/
def padding (n : Nat) : Nat := (8 - n % 8) % 8

structure Holds (w : BitWriter) (l : List Bool) : Prop where
  data : bits w.data = l ++ List.replicate (padding l.length) false
  len : w.len = l.length

def Writes (x : Write) (l : List Bool) : Prop :=
  ∀ w before, Holds w before → ∃ w', x w = .ok ((), w') ∧ Holds w' (before ++ l)

theorem lift_ok_bind {σ α β : Type} (a : α) (f : α → StateT σ (Exec H264FrameBufferError) β) :
    ((liftM (Except.ok a : RewriteResult α) : StateT σ (Exec H264FrameBufferError) α) >>= f) =
      f a := rfl

theorem holds_new : Holds BitWriter.new [] := ⟨rfl, rfl⟩

theorem writes_pure : Writes (pure ()) [] := by
  intro w before h
  exact ⟨w, rfl, by rw [List.append_nil]; exact h⟩

variable {l : List Bool} {w : BitWriter}

/-- **One after the other.** -/
theorem Writes.bind {x : Write} {f : Unit → Write} {m : List Bool} (hx : Writes x l)
    (hf : Writes (f ()) m) : Writes (x >>= f) (l ++ m) := by
  intro w before h
  obtain ⟨w1, h1, hold1⟩ := hx w before h
  obtain ⟨w2, h2, hold2⟩ := hf w1 _ hold1
  refine ⟨w2, ?_, by rw [← List.append_assoc]; exact hold2⟩
  show (x w >>= fun out => f out.1 out.2) = _
  rw [h1]
  exact h2

/-! ### A bit -/

/-- Setting a bit of a byte. -/
theorem or_shift_testBit (byte : UInt8) {j : Nat} (hj : j < 8) (k : Nat) :
    (byte ||| 1 <<< UInt8.ofNat (7 - j)).toNat.testBit k =
      if k = 7 - j then true else byte.toNat.testBit k := by
  have hone : ((1 : UInt8) <<< UInt8.ofNat (7 - j)).toNat = 2 ^ (7 - j) := by
    have hall : ∀ i : Fin 8, ((1 : UInt8) <<< UInt8.ofNat (7 - i)).toNat = 2 ^ (7 - i.val) := by
      decide
    exact hall ⟨j, hj⟩
  rw [UInt8.toNat_or, hone, Nat.testBit_or, Nat.testBit_two_pow]
  by_cases h : k = 7 - j
  · simp [h]
  · rw [if_neg h, decide_eq_false fun h' => h h'.symm, Bool.or_false]

theorem set_append_replicate (l : List Bool) (n : Nat) :
    (l ++ List.replicate (n + 1) false).set l.length true =
      (l ++ [true]) ++ List.replicate n false := by
  rw [List.set_append_right _ _ (Nat.le_refl _), Nat.sub_self, List.replicate_succ]
  simp

theorem padding_succ {n : Nat} (h : n % 8 ≠ 0) : padding n = padding (n + 1) + 1 := by
  unfold padding
  omega

theorem padding_of_dvd {n : Nat} (h : n % 8 = 0) : padding n = 0 ∧ padding (n + 1) = 7 := by
  unfold padding
  omega

/-- The byte that the next bit goes into is there, with zeros from that bit on. -/
theorem Holds.data_next (h : Holds w l) :
    bits (if w.len % 8 = 0 then w.data ++ [0] else w.data) =
      l ++ List.replicate (padding (l.length + 1) + 1) false := by
  rw [h.len]
  by_cases hzero : l.length % 8 = 0
  · rw [if_pos hzero, bits_append, h.data, (padding_of_dvd hzero).1, (padding_of_dvd hzero).2,
      List.append_assoc]
    rfl
  · rw [if_neg hzero, h.data, padding_succ hzero]

theorem writes_bit (b : Bool) : Writes (BitWriter.bit (flag b)) [b] := by
  intro w before h
  have hdata := h.data_next
  generalize hnext : (if w.len % 8 = 0 then w.data ++ [0] else w.data) = data at hdata
  have hlen : (before ++ [b]).length = before.length + 1 := by
    rw [List.length_append]
    rfl
  have hcount : 8 * data.length = before.length + (padding (before.length + 1) + 1) := by
    rw [← length_bits, hdata, List.length_append, List.length_replicate]
  have hpad : padding (before.length + 1) < 8 := Nat.mod_lt _ (by omega)
  unfold BitWriter.bit
  rw [hnext]
  cases b with
  | false =>
    refine ⟨⟨data, w.len + 1⟩, by rfl, ?_, ?_⟩
    · show bits data = _
      rw [hdata, hlen, List.append_assoc, List.replicate_succ]
      rfl
    · show w.len + 1 = _
      rw [hlen, h.len]
  | true =>
    have hlast : data.length - 1 < data.length := by omega
    have hbyte : data[data.length - 1]? = some data[data.length - 1] :=
      List.getElem?_eq_getElem hlast
    refine ⟨⟨data.set (data.length - 1)
      (data[data.length - 1] ||| 1 <<< UInt8.ofNat (7 - w.len % 8)), w.len + 1⟩, ?_, ?_, ?_⟩
    · have hpos : ¬data.length = 0 := by omega
      dsimp only
      rw [if_pos (by decide), if_neg hpos]
      unfold index
      rw [hbyte]
      rfl
    · show bits (data.set _ _) = _
      have hindex : 8 * (data.length - 1) + w.len % 8 = before.length := by
        rw [h.len]
        unfold padding at hcount hpad
        omega
      rw [bits_set hbyte (Nat.mod_lt _ (by omega))
        fun k _ => or_shift_testBit _ (Nat.mod_lt _ (by omega)) k, hindex, hdata,
        set_append_replicate, hlen]
    · show w.len + 1 = _
      rw [hlen, h.len]

/-! ### Bits and codes -/

theorem ofNat_shift_and (value shift : Nat) :
    UInt8.ofNat ((value >>> shift) &&& 1) = flag (value.testBit shift) := by
  rw [Nat.and_one_is_mod, Nat.testBit_eq_decide_div_mod_eq, Nat.shiftRight_eq_div_pow]
  cases Nat.mod_two_eq_zero_or_one (value / 2 ^ shift) with
  | inl h => rw [h]; rfl
  | inr h => rw [h]; rfl

theorem writes_bits (value count : Nat) :
    Writes (BitWriter.bits value count) (natBits count value) := by
  induction count with
  | zero => exact writes_pure
  | succ shift ih =>
    show Writes (BitWriter.bit _ >>= fun _ => BitWriter.bits value shift) _
    rw [ofNat_shift_and, natBits]
    exact (writes_bit _).bind ih

theorem writes_copyBits {encoded : List UInt8} {pos : Nat}
    (h : l <+: (bits encoded).drop pos) : Writes (BitWriter.copyBits encoded l.length pos) l := by
  induction l generalizing pos with
  | nil => exact writes_pure
  | cons b l ih =>
    obtain ⟨t, ht⟩ := h
    have hhead : (bits encoded)[pos]? = some b := by
      rw [← Nat.add_zero pos, ← List.getElem?_drop, ← ht]
      rfl
    have htail : l <+: (bits encoded).drop (pos + 1) := by
      rw [← List.drop_drop, ← ht]
      exact List.prefix_append l t
    rw [getElem?_bits, Option.map_eq_some_iff] at hhead
    obtain ⟨byte, hbyte, hb⟩ := hhead
    intro w before hold
    have hboth : Writes (BitWriter.bit (flag b) >>= fun _ =>
        BitWriter.copyBits encoded l.length (pos + 1)) ([b] ++ l) := (writes_bit b).bind (ih htail)
    obtain ⟨w', hw', hold'⟩ := hboth w before hold
    refine ⟨w', ?_, hold'⟩
    rw [← hw', List.length_cons]
    have hindex : (index encoded (pos / 8) : RewriteResult UInt8) = .ok byte := by
      unfold index
      rw [hbyte]
    show ((liftM (index encoded (pos / 8) : RewriteResult UInt8) : StateT BitWriter _ UInt8) >>=
      fun byte => BitWriter.bit ((byte >>> UInt8.ofNat (7 - pos % 8)) &&& 1) >>= fun _ =>
        BitWriter.copyBits encoded l.length (pos + 1)) w = _
    rw [hindex, lift_ok_bind, shift_and_one byte (by omega), hb]

/-- **An unsigned code**: nine bytes are enough for it. -/
theorem writes_ue {crate : ExpGolomb} (hc : CodesAsH264 crate) {v : Nat} (hv : v < 2 ^ 32) :
    Writes (BitWriter.ue crate v) (ueCode v) := by
  have hfits : (ueCode v).length ≤ 8 * 9 := by
    have hz := zeros_le hv
    rw [length_ueCode]
    omega
  obtain ⟨e, e', out, byte, b, hnew, hput, hclose, hlen, hcode⟩ := hc.encode 9 v hfits (by omega)
  intro w before hold
  have hcopy : Writes (BitWriter.copyBits out (ueCode v).length 0) (ueCode v) :=
    writes_copyBits hcode
  obtain ⟨w', hw', hold'⟩ := hcopy w before hold
  refine ⟨w', ?_, hold'⟩
  rw [← hw', ← hlen]
  unfold BitWriter.ue expect
  rw [hnew, lift_ok_bind, hput, lift_ok_bind, hclose]

/-- **A signed code**, of all values but the smallest. -/
theorem writes_se {crate : ExpGolomb} (hc : CodesAsH264 crate) {k : Int} (hlo : -2 ^ 31 < k)
    (hhi : k < 2 ^ 31) : Writes (BitWriter.se crate k) (seCode k) := by
  have habs : k.natAbs * 2 < 2 ^ 32 := by omega
  have hnum : seNum k < 2 ^ 32 := by
    rw [← seNum_eq]
    split <;> omega
  unfold BitWriter.se
  rw [if_pos habs, seNum_eq]
  exact writes_ue hc hnum

/-- **The smallest value overflows.** -/
theorem se_min_panics (crate : ExpGolomb) (w : BitWriter) :
    BitWriter.se crate (-2 ^ 31) w = .error .panic := rfl

/-! ### To the next byte -/

theorem writes_alignWith (b : Bool) (fuel : Nat) (h : Holds w l)
    (hfuel : padding l.length ≤ fuel) : ∃ w', BitWriter.alignWith (flag b) fuel w = .ok ((), w') ∧
      Holds w' (l ++ List.replicate (padding l.length) b) := by
  induction fuel generalizing w l with
  | zero =>
    rw [Nat.le_zero.mp hfuel]
    exact ⟨w, rfl, by simpa using h⟩
  | succ fuel ih =>
    show ∃ w', (if w.len % 8 = 0 then (pure () : Write) else
      BitWriter.bit (flag b) >>= fun _ => BitWriter.alignWith (flag b) fuel) w = .ok ((), w') ∧ _
    by_cases hzero : l.length % 8 = 0
    · rw [if_pos (by rw [h.len]; exact hzero), (padding_of_dvd hzero).1]
      exact ⟨w, rfl, by simpa using h⟩
    · rw [if_neg (by rw [h.len]; exact hzero)]
      have hpad := padding_succ hzero
      obtain ⟨w1, h1, hold1⟩ := writes_bit b w l h
      have hlen : (l ++ [b]).length = l.length + 1 := by
        rw [List.length_append]
        rfl
      obtain ⟨w2, h2, hold2⟩ := ih hold1 (by rw [hlen]; omega)
      refine ⟨w2, ?_, ?_⟩
      · show (BitWriter.bit (flag b) w >>= fun out => _) = _
        rw [h1]
        exact h2
      · rw [hlen, List.append_assoc] at hold2
        rw [hpad, List.replicate_succ]
        exact hold2

/-- A writer at a byte boundary has only the bits it holds. -/
theorem Holds.bits_eq (h : Holds w l) (hlen : l.length % 8 = 0) :
    bits w.data = l := by
  rw [h.data, (padding_of_dvd hlen).1]
  exact List.append_nil l

theorem length_align (l : List Bool) (b : Bool) :
    (l ++ List.replicate (padding l.length) b).length % 8 = 0 := by
  rw [List.length_append, List.length_replicate]
  unfold padding
  omega

end Catplay.Analysis.Fb
