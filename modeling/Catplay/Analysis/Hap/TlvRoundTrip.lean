import Catplay.Library.Chunks
import Catplay.Model.Hap.Tlv

/-!
# What TLV decoding gives back

The encoder writes fragments, each at most 255 bytes long, and the decoder merges what the
encoder wrote fragment by fragment (`decode_fragments`). For types that differ, a type comes
back with exactly its value if and only if the value has a byte: an empty value is written as
no fragment at all (`round_trip_iff`). Decoding never reads past the end (`decode_total`).
-/

set_option autoImplicit false

namespace Catplay.Analysis.Hap

open Catplay.Library Catplay.Library.Checked
open Catplay.Model.Hap.Tlv

/-! ## Fragments -/

/-- The bytes of one fragment. -/
def fragment (f : UInt8 × List UInt8) : List UInt8 := f.1 :: UInt8.ofNat f.2.length :: f.2

/-- The fragments of a record. -/
def fragments (tlv : UInt8 × List UInt8) : List (UInt8 × List UInt8) :=
  (chunks 255 tlv.2).map fun c => (tlv.1, c)

theorem encodeValue_eq (t : UInt8) (fuel : Nat) (v out : List UInt8) :
    encodeValue t fuel v out =
      out ++ ((chunksAux 255 fuel v).map fun c => (t, c)).flatMap fragment := by
  induction fuel generalizing v out with
  | zero => simp [encodeValue, chunksAux]
  | succ fuel ih =>
    unfold encodeValue chunksAux
    by_cases hempty : v.isEmpty
    · rw [if_pos hempty, if_pos hempty]
      simp
    · rw [if_neg hempty, if_neg hempty]
      dsimp only
      have htake : v.take (min v.length 255) = v.take 255 := by
        rw [List.take_eq_take_iff]
        omega
      have hdrop : v.drop (min v.length 255) = v.drop 255 := by
        rw [List.drop_eq_drop_iff]
        omega
      have hlen : min v.length 255 = (v.take 255).length := by
        rw [List.length_take]
        omega
      rw [ih, htake, hdrop]
      simp only [List.map_cons, List.flatMap_cons, fragment, ← hlen]
      simp

/-- **The encoder writes fragments.** -/
theorem encode_eq (tlvs : List (UInt8 × List UInt8)) :
    encode tlvs = (tlvs.flatMap fragments).flatMap fragment := by
  have hfold : ∀ out : List UInt8,
      tlvs.foldl (fun out tlv => encodeValue tlv.1 tlv.2.length tlv.2 out) out =
        out ++ (tlvs.flatMap fragments).flatMap fragment := by
    induction tlvs with
    | nil => simp
    | cons tlv tlvs ih =>
      intro out
      rw [List.foldl_cons, ih, encodeValue_eq]
      simp [fragments, chunks]
  exact hfold []

theorem length_le_of_mem_fragments {tlv f : UInt8 × List UInt8} (hf : f ∈ fragments tlv) :
    f.2.length ≤ 255 := by
  obtain ⟨c, hc, rfl⟩ := List.mem_map.mp hf
  exact length_le_of_mem_chunks hc

/-! ## The decoder on fragments -/

/-- One fragment merged into the container. -/
def merge (hm : TlvContainer) (f : UInt8 × List UInt8) : TlvContainer := extend hm f.1 f.2

theorem decodeLoop_fragment (front back : List UInt8) (f : UInt8 × List UInt8)
    (hf : f.2.length ≤ 255) (hm : TlvContainer) :
    decodeLoop (front ++ (fragment f ++ back)) hm front.length =
      decodeLoop ((front ++ fragment f) ++ back) (merge hm f) (front ++ fragment f).length := by
  have hl : (UInt8.ofNat f.2.length).toNat = f.2.length := by
    rw [UInt8.toNat_ofNat']
    exact Nat.mod_eq_of_lt (by omega)
  have htotal : (front ++ (fragment f ++ back)).length =
      front.length + 2 + f.2.length + back.length := by
    simp [fragment]
    omega
  conv_lhs => unfold decodeLoop
  rw [if_pos (by omega)]
  have htype : index (ε := Empty) (front ++ (fragment f ++ back)) front.length = .ok f.1 :=
    index_append front _ f.1 rfl
  have hlength : index (ε := Empty) (front ++ (fragment f ++ back)) (front.length + 1) =
      .ok (UInt8.ofNat f.2.length) := by
    have h := index_append (ε := Empty) (front ++ [f.1]) (f.2 ++ back)
      (UInt8.ofNat f.2.length) (i := front.length + 1) (by simp)
    simpa [fragment] using h
  have hchunk : slice (ε := Empty) (front ++ (fragment f ++ back)) (front.length + 2)
      (front.length + 2 + f.2.length) = .ok f.2 := by
    have h : slice (ε := Empty) ((front ++ [f.1, UInt8.ofNat f.2.length]) ++ (f.2 ++ back))
        (front.length + 2) (front.length + 2 + f.2.length) = .ok f.2 :=
      slice_append _ f.2 back (by simp) (by simp)
    simpa [fragment] using h
  have hfit : ¬front.length + 2 + f.2.length > (front ++ (fragment f ++ back)).length := by
    omega
  have hend : (front ++ fragment f).length = front.length + 2 + f.2.length := by
    simp [fragment]
    omega
  simp only [htype, hlength, bind, Except.bind, hl, if_neg hfit, hchunk, hend, merge,
    List.append_assoc]

theorem decodeLoop_fragments (l : List (UInt8 × List UInt8)) (front : List UInt8)
    (hl : ∀ f ∈ l, f.2.length ≤ 255) (hm : TlvContainer) :
    decodeLoop (front ++ l.flatMap fragment) hm front.length = .ok (l.foldl merge hm) := by
  induction l generalizing front hm with
  | nil =>
    unfold decodeLoop
    rw [if_neg (by simp)]
    rfl
  | cons f l ih =>
    rw [List.flatMap_cons, decodeLoop_fragment _ _ f (hl f List.mem_cons_self), List.foldl_cons]
    exact ih _ (fun g hg => hl g (List.mem_cons_of_mem f hg)) _

/-- **Decoding merges the fragments.** -/
theorem decode_fragments (l : List (UInt8 × List UInt8)) (hl : ∀ f ∈ l, f.2.length ≤ 255) :
    decode (l.flatMap fragment) = .ok (l.foldl merge ByteMap.empty) :=
  decodeLoop_fragments l [] hl ByteMap.empty

/-! ## Which types come back -/

theorem fragments_eq_nil {t : UInt8} {v : List UInt8} : fragments (t, v) = [] ↔ v = [] := by
  constructor
  · intro h
    have hflat : (chunks 255 v).flatten = v := flatten_chunks (by omega) v
    rw [List.map_eq_nil_iff.mp h] at hflat
    exact hflat.symm
  · rintro rfl
    rfl

/-- Merging the chunks of one value appends the value, if there is a chunk. -/
theorem foldl_merge_chunks (t q : UInt8) (cs : List (List UInt8)) (hm : TlvContainer) :
    ((cs.map fun c => (t, c)).foldl merge hm) q =
      if q = t ∧ cs ≠ [] then some ((hm t).getD [] ++ cs.flatten) else hm q := by
  induction cs generalizing hm with
  | nil => simp
  | cons c cs ih =>
    rw [List.map_cons, List.foldl_cons, ih]
    simp only [merge, extend, ByteMap.insert_apply, if_true, Option.getD_some,
      List.flatten_cons, List.append_assoc]
    by_cases hq : q = t
    · by_cases hcs : cs = []
      · simp [hq, hcs]
      · simp [hq, hcs]
    · simp [hq]

/-- **One record**: a type that is not there yet gets its value, if the value has a byte. -/
theorem foldl_merge_record (tlv : UInt8 × List UInt8) (hm : TlvContainer) (hnew : hm tlv.1 = none)
    (q : UInt8) :
    ((fragments tlv).foldl merge hm) q =
      if q = tlv.1 ∧ tlv.2 ≠ [] then some tlv.2 else hm q := by
  have hcs : chunks 255 tlv.2 ≠ [] ↔ tlv.2 ≠ [] := by
    rw [Ne, Ne, ← fragments_eq_nil (t := tlv.1), fragments, List.map_eq_nil_iff]
  unfold fragments
  rw [foldl_merge_chunks]
  simp only [hcs, hnew, flatten_chunks (by omega : 0 < 255), Option.getD_none, List.nil_append]

/-- **What the container holds** after records of different types: each value that has a
byte, under its type. -/
theorem foldl_merge_records (tlvs : List (UInt8 × List UInt8)) (hm : TlvContainer)
    (hdistinct : (tlvs.map Prod.fst).Nodup) (hnew : ∀ tlv ∈ tlvs, hm tlv.1 = none)
    (t : UInt8) (v : List UInt8) :
    ((tlvs.flatMap fragments).foldl merge hm) t = some v ↔
      hm t = some v ∨ ((t, v) ∈ tlvs ∧ v ≠ []) := by
  induction tlvs generalizing hm with
  | nil => simp
  | cons tlv tlvs ih =>
    rw [List.map_cons, List.nodup_cons] at hdistinct
    have hhere : hm tlv.1 = none := hnew tlv List.mem_cons_self
    have hread := foldl_merge_record tlv hm hhere
    have hrest : ∀ other ∈ tlvs, ((fragments tlv).foldl merge hm) other.1 = none := by
      intro other hother
      have hne : other.1 ≠ tlv.1 := by
        intro heq
        exact hdistinct.1 (heq ▸ List.mem_map_of_mem hother)
      rw [hread, if_neg fun h => hne h.1]
      exact hnew other (List.mem_cons_of_mem tlv hother)
    rw [List.flatMap_cons, List.foldl_append, ih _ hdistinct.2 hrest, hread]
    constructor
    · rintro (h | ⟨hmem, hv⟩)
      · split at h
        · rename_i hq
          obtain rfl := Option.some.inj h
          exact .inr ⟨List.mem_cons.mpr (.inl (Prod.ext hq.1 rfl)), hq.2⟩
        · exact .inl h
      · exact .inr ⟨List.mem_cons_of_mem tlv hmem, hv⟩
    · rintro (h | ⟨hmem, hv⟩)
      · have hq : ¬(t = tlv.1 ∧ tlv.2 ≠ []) := by
          rintro ⟨rfl, -⟩
          rw [hhere] at h
          cases h
        rw [if_neg hq]
        exact .inl h
      · cases List.mem_cons.mp hmem with
        | inl heq =>
          subst heq
          rw [if_pos ⟨rfl, hv⟩]
          exact .inl rfl
        | inr hmem => exact .inr ⟨hmem, hv⟩

/-- **Decoding what was encoded** gives each value that has a byte, under its type. -/
theorem decode_encode (tlvs : List (UInt8 × List UInt8))
    (hdistinct : (tlvs.map Prod.fst).Nodup) :
    ∃ hm, decode (encode tlvs) = .ok hm ∧
      ∀ t v, hm t = some v ↔ (t, v) ∈ tlvs ∧ v ≠ [] := by
  refine ⟨(tlvs.flatMap fragments).foldl merge ByteMap.empty, ?_, ?_⟩
  · rw [encode_eq]
    apply decode_fragments
    intro f hf
    obtain ⟨tlv, -, hf⟩ := List.mem_flatMap.mp hf
    exact length_le_of_mem_fragments hf
  · intro t v
    rw [foldl_merge_records tlvs _ hdistinct fun tlv _ => rfl]
    simp [ByteMap.empty_apply]

/-! ## No input is read past its end -/

theorem decodeLoop_total (tlv : List UInt8) (hm : TlvContainer) (i : Nat) :
    ∃ out, decodeLoop tlv hm i = .ok out := by
  induction hm, i using decodeLoop.induct tlv with
  | case1 hm i hin ih =>
    unfold decodeLoop
    rw [if_pos hin]
    have htype : index (ε := Empty) tlv i = .ok tlv[i] := by
      simp [index, List.getElem?_eq_getElem (show i < tlv.length by omega)]
    have hlength : index (ε := Empty) tlv (i + 1) = .ok tlv[i + 1] := by
      simp [index, List.getElem?_eq_getElem (show i + 1 < tlv.length by omega)]
    simp only [htype, hlength, bind, Except.bind]
    split
    · exact ⟨_, rfl⟩
    · rename_i hfit
      unfold slice
      rw [if_pos ⟨by omega, by omega⟩]
      exact ih tlv[i] tlv[i + 1] hfit _
  | case2 hm i hin =>
    unfold decodeLoop
    rw [if_neg hin]
    exact ⟨_, rfl⟩

/-- **Decoding ends** with a container, whatever the bytes are. -/
theorem decode_total (tlv : List UInt8) : ∃ hm, decode tlv = .ok hm :=
  decodeLoop_total tlv ByteMap.empty 0

/-! ## The round trip -/

/-- Decoding what is encoded gives exactly the types of `tlvs`, each with exactly its value. -/
def RoundTrips (tlvs : List (UInt8 × List UInt8)) : Prop :=
  ∃ hm, decode (encode tlvs) = .ok hm ∧ ∀ t v, hm t = some v ↔ (t, v) ∈ tlvs

/-- **The round trip** of records with different types works if and only if none of the values
is empty; and decoding never reads past the end. -/
theorem round_trip_iff (tlvs : List (UInt8 × List UInt8))
    (hdistinct : (tlvs.map Prod.fst).Nodup) :
    (RoundTrips tlvs ↔ ∀ tlv ∈ tlvs, tlv.2 ≠ []) ∧ ∀ bytes, ∃ hm, decode bytes = .ok hm := by
  obtain ⟨hm, hdecode, hread⟩ := decode_encode tlvs hdistinct
  refine ⟨?_, decode_total⟩
  constructor
  · rintro ⟨hm', hdecode', hread'⟩ tlv hmem
    obtain rfl : hm = hm' := Except.ok.inj (hdecode.symm.trans hdecode')
    exact ((hread tlv.1 tlv.2).mp ((hread' tlv.1 tlv.2).mpr hmem)).2
  · intro hvalues
    refine ⟨hm, hdecode, fun t v => ?_⟩
    rw [hread]
    exact ⟨fun h => h.1, fun h => ⟨h, hvalues (t, v) h⟩⟩

/-- The identifier and the state that start a verification. -/
theorem round_trip_iff_start :
    (RoundTrips [(0x01, [0x41]), (0x06, [0x01])] ↔
        ∀ tlv ∈ [((0x01 : UInt8), [(0x41 : UInt8)]), (0x06, [0x01])], tlv.2 ≠ []) ∧
      ∀ bytes, ∃ hm, decode bytes = .ok hm :=
  round_trip_iff [(0x01, [0x41]), (0x06, [0x01])] (by decide)

/-- **An empty value is lost**: the type of an empty identifier is not there after decoding. -/
theorem empty_value_lost : ¬RoundTrips [(0x01, [])] := by
  rintro ⟨hm, hdecode, hread⟩
  have hempty : decode [] = .ok ByteMap.empty := by
    unfold decode decodeLoop
    exact if_neg (by simp)
  obtain rfl : ByteMap.empty = hm := Except.ok.inj (hempty.symm.trans hdecode)
  have hsome := (hread 0x01 []).mpr (List.mem_singleton.mpr rfl)
  cases hsome

end Catplay.Analysis.Hap
