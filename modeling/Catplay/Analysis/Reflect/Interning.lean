import Catplay.Analysis.Reflect.Layout

/-!
# The string pool is a faithful interning

The pool holds the records of the distinct strings. A string is read back from its offset,
the offsets are the places behind a NUL, and the scan of the records and the table of the
declarations give the same answer to every query (`strings_interned`).
-/

set_option autoImplicit false

namespace Catplay.Analysis.Reflect

open Catplay.Library.Records Catplay.Model.Reflect

/-! ## Reading a record -/

theorem untilNul_append {word : Bytes} (h : 0 ∉ word) (rest : Bytes) :
    untilNul (word ++ 0 :: rest) = some word.length := by
  induction word with
  | nil => rfl
  | cons b word ih =>
    have hb : b ≠ 0 := fun hbad => h (hbad ▸ List.mem_cons_self)
    rw [List.cons_append]
    unfold untilNul
    rw [if_neg hb, ih fun hbad => h (List.mem_cons_of_mem b hbad)]
    rfl

theorem recordBytes_of_drop {pool word rest : Bytes} {offset : Nat} (hclean : 0 ∉ word)
    (h : pool.drop offset = word ++ 0 :: rest) : recordBytes pool offset = some word := by
  unfold recordBytes
  rw [h, untilNul_append hclean]
  simp

/-- The pool of some strings. -/
def poolWith (poolPrefix : Nat) (words : List Bytes) : Bytes :=
  List.replicate poolPrefix 0 ++ packed 0 words

theorem length_poolWith (poolPrefix : Nat) (words : List Bytes) :
    (poolWith poolPrefix words).length = poolPrefix + room words :=
  length_front poolPrefix words

variable {poolPrefix : Nat} {words : List Bytes}

/-- **A record** is read from its start. -/
theorem recordBytes_start (hclean : Clean 0 words) {k : Nat} {word : Bytes}
    (h : words[k]? = some word) :
    recordBytes (poolWith poolPrefix words) (poolPrefix + start words k) = some word := by
  have hdrop : (poolWith poolPrefix words).drop (poolPrefix + start words k) =
      word ++ 0 :: packed 0 (words.drop (k + 1)) := by
    unfold poolWith
    rw [← List.drop_drop, List.drop_left' List.length_replicate]
    exact drop_start 0 h
  exact recordBytes_of_drop (hclean word (List.mem_of_getElem? h)) hdrop

/-- **The scan** of the records from some record on. -/
theorem lookupLoop_spec (poolPrefix : Nat) (direct : Bool) (hclean : Clean 0 words)
    (value : Bytes) (fuel : Nat) {k : Nat} (hk : k ≤ words.length) (hpast : ∀ j < k, words[j]? ≠ some value)
    (hfuel : words.length < fuel + k)
    (hfits : poolPrefix + room words ≤ 65536 ∧ words.length ≤ 65535) :
    lookupLoop direct (poolWith poolPrefix words) value fuel (poolPrefix + start words k)
        (if direct then 1 else k + 1) =
      if value ∈ words then
        some (some (UInt16.ofNat (if direct then poolPrefix + start words (words.idxOf value)
          else words.idxOf value + 1)))
      else some none := by
  induction fuel generalizing k with
  | zero => omega
  | succ fuel ih =>
    unfold lookupLoop
    rw [length_poolWith]
    rcases Nat.lt_or_ge k words.length with hlt | hge
    · obtain ⟨word, hword⟩ : ∃ word, words[k]? = some word := ⟨_, List.getElem?_eq_getElem hlt⟩
      have hinside := start_lt hword
      rw [if_pos (by omega), recordBytes_start hclean hword]
      simp only [Option.bind_eq_bind, Option.bind_some]
      by_cases hequal : word = value
      · subst hequal
        have hmem : word ∈ words := List.mem_of_getElem? hword
        have hidx : words.idxOf word = k := by
          refine idxOf_of_new hword fun hbad => ?_
          obtain ⟨j, hj⟩ := List.mem_iff_getElem?.mp hbad
          rw [List.getElem?_take] at hj
          split at hj
          · rename_i hlt'
            exact hpast j hlt' hj
          · cases hj
        rw [if_pos (bytesEqual_iff.mpr rfl), if_pos hmem, hidx]
        have hbound : (if direct = true then poolPrefix + start words k
            else if direct = true then 1 else k + 1) ≤ 65535 := by
          cases direct <;> simp <;> omega
        simp only [guard, if_pos hbound]
        cases direct <;> rfl
      · rw [if_neg fun hbad => hequal (bytesEqual_iff.mp hbad)]
        have hnext : poolPrefix + start words k + (1 + word.length) =
            poolPrefix + start words (k + 1) := by
          rw [start_succ hword]
          omega
        have hraw : (if direct = true then (if direct = true then 1 else k + 1)
            else (if direct = true then 1 else k + 1) + 1) =
              if direct = true then 1 else k + 1 + 1 := by
          cases direct <;> rfl
        rw [hnext, hraw]
        refine ih hlt (fun j hj => ?_) (by omega)
        rcases Nat.lt_or_ge j k with hlt' | hge'
        · exact hpast j hlt'
        · obtain rfl : j = k := by omega
          rw [hword]
          exact fun hbad => hequal (Option.some.inj hbad)
    · obtain rfl : k = words.length := by omega
      rw [start_length, if_neg (by omega), if_neg]
      intro hmem
      exact hpast _ (List.idxOf_lt_length_of_mem hmem) (List.getElem?_idxOf hmem)

theorem length_le_room (words : List Bytes) : words.length ≤ room words := by
  induction words with
  | nil => exact Nat.le_refl _
  | cons word words ih =>
    rw [List.length_cons, room_cons]
    omega

/-- **Every query** of the records terminates, with the place of the equal string. -/
theorem lookupString_spec (hclean : Clean 0 words)
    (hfits : poolPrefix + room words ≤ 65536 ∧ words.length ≤ 65535) (hreserved : poolPrefix ≤ 1)
    (value : Bytes) :
    lookupString (poolPrefix != 0) (poolWith poolPrefix words) value =
      if value ∈ words then
        some (some (UInt16.ofNat (if poolPrefix = 0 then words.idxOf value + 1
          else poolPrefix + start words (words.idxOf value))))
      else some none := by
  have hroom := length_le_room words
  have hlength := length_poolWith poolPrefix words
  have hloop := lookupLoop_spec poolPrefix (poolPrefix != 0) hclean value
    ((poolWith poolPrefix words).length + 1) (Nat.zero_le _) (fun j hj => by omega) (by omega) hfits
  unfold lookupString
  rw [start_zero] at hloop
  obtain rfl | rfl : poolPrefix = 0 ∨ poolPrefix = 1 := by omega
  · exact hloop
  · exact hloop

/-! ## Offsets -/

/-- **The offsets** of a pool with a prefix are the starts of its records. -/
theorem isStringOffset_iff (hclean : Clean 0 words) (raw : UInt16) :
    isStringOffset (poolWith 1 words) raw = true ↔
      ∃ k < words.length, raw.toNat = 1 + start words k := by
  have hpool : poolWith 1 words = 0 :: packed 0 words := rfl
  have hlength := length_poolWith 1 words
  have hstart : ∀ k < words.length, start words k < room words := by
    intro k hk
    have hlt := start_lt (List.getElem?_eq_getElem hk)
    omega
  unfold isStringOffset
  rw [hlength]
  simp only [Bool.and_eq_true, decide_eq_true_eq]
  constructor
  · rintro ⟨⟨hpositive, hbound⟩, hbefore⟩
    obtain ⟨p, hp⟩ : ∃ p, raw.toNat = p + 1 := ⟨raw.toNat - 1, by omega⟩
    rw [hp, Nat.add_sub_cancel, hpool] at hbefore
    cases p with
    | zero =>
      cases words with
      | nil =>
        rw [room_nil] at hbound
        omega
      | cons word words => exact ⟨0, Nat.zero_lt_succ _, by rw [hp, start_zero]⟩
    | succ p =>
      rw [List.getElem?_cons_succ] at hbefore
      obtain ⟨k, hk, hplace⟩ := (terminator_iff hclean p).mp hbefore
      refine ⟨k + 1, ?_, by omega⟩
      by_contra hlast
      have hend : k + 1 = words.length := by omega
      rw [hend, start_length] at hplace
      omega
  · rintro ⟨k, hk, hraw⟩
    have hlt := hstart k hk
    refine ⟨⟨by omega, by omega⟩, ?_⟩
    rw [hraw, Nat.add_sub_cancel_left, hpool]
    cases k with
    | zero => rfl
    | succ k =>
      have hpositive : start words 0 < start words (k + 1) :=
        start_strictMono (Nat.zero_lt_succ k) (Nat.le_of_lt hk)
      rw [start_zero] at hpositive
      obtain ⟨p, hp⟩ : ∃ p, start words (k + 1) = p + 1 := ⟨start words (k + 1) - 1, by omega⟩
      rw [hp, List.getElem?_cons_succ]
      exact (terminator_iff hclean p).mpr ⟨k, by omega, hp.symm⟩

/-- The ordinal of an offset is the number of records before it. -/
theorem stringIndex_start (hclean : Clean 0 words) {raw : UInt16} {k : Nat} (hk : k < words.length)
    (hraw : raw.toNat = 1 + start words k) :
    stringIndex (poolWith 1 words) raw.toNat = some k := by
  have hoffset := (isStringOffset_iff hclean raw).mpr ⟨k, hk, hraw⟩
  unfold isStringOffset at hoffset
  simp only [Bool.and_eq_true, decide_eq_true_eq] at hoffset
  obtain ⟨⟨hpositive, hbound⟩, hbefore⟩ := hoffset
  have hpool : poolWith 1 words = 0 :: packed 0 words := rfl
  have hguard : raw.toNat ≠ 0 ∧ raw.toNat < (poolWith 1 words).length ∧
      (poolWith 1 words)[0]? = some 0 ∧ (poolWith 1 words)[raw.toNat - 1]? = some 0 :=
    ⟨hpositive, hbound, rfl, hbefore⟩
  unfold stringIndex
  simp only [guard, if_pos hguard]
  have hcount : ((poolWith 1 words).take raw.toNat).drop 1 =
      (packed 0 words).take (start words k) := by
    rw [hraw, hpool, Nat.add_comm, List.take_succ_cons]
    rfl
  rw [hcount, count_start hclean (Nat.le_of_lt hk)]
  rfl

/-! ## The offset table of a dense pool -/

/-- Entries that agree on equal keys are all found in the table that is filled with them. -/
theorem fill_spec (pairs seen : List (UInt16 × UInt16)) (table : List UInt16)
    (hkeys : ∀ p ∈ pairs, 0 < p.1.toNat ∧ p.1.toNat - 1 < table.length)
    (hagree : ∀ p ∈ seen ++ pairs, ∀ q ∈ seen ++ pairs,
      p.1.toNat - 1 = q.1.toNat - 1 → p.2 = q.2)
    (hseen : ∀ p ∈ seen, table[p.1.toNat - 1]? = some p.2) :
    ∃ table', pairs.foldlM (fun (offsets : List UInt16) (p : UInt16 × UInt16) => (do
        guard (0 < p.1.toNat ∧ p.1.toNat - 1 < offsets.length)
        return offsets.set (p.1.toNat - 1) p.2 : Option (List UInt16))) table = some table' ∧
      ∀ p ∈ seen ++ pairs, table'[p.1.toNat - 1]? = some p.2 := by
  induction pairs generalizing seen table with
  | nil =>
    refine ⟨table, rfl, fun p hp => ?_⟩
    rw [List.append_nil] at hp
    exact hseen p hp
  | cons pair pairs ih =>
    have hpair := hkeys pair List.mem_cons_self
    rw [List.foldlM_cons]
    simp only [guard, if_pos hpair]
    have hsplit : seen ++ pair :: pairs = (seen ++ [pair]) ++ pairs := by simp
    rw [hsplit] at hagree ⊢
    refine ih _ _ (fun p hp => ?_) hagree fun p hp => ?_
    · rw [List.length_set]
      exact hkeys p (List.mem_cons_of_mem pair hp)
    · by_cases hplace : pair.1.toNat - 1 = p.1.toNat - 1
      · have hvalue := hagree pair (by simp) p (List.mem_append_left pairs hp) hplace
        rw [← hplace, List.getElem?_set_self hpair.2, hvalue]
      · rw [List.getElem?_set_ne hplace]
        rcases List.mem_append.mp hp with hp | hp
        · exact hseen p hp
        · rw [List.mem_singleton.mp hp] at hplace
          exact absurd rfl hplace

/-! ## The whole pool -/

/-- **A faithful interning** of the declared strings. -/
structure Interned (input : List Bytes) (poolPrefix : Nat) (layout : StringLayout)
    (slots : List Nat) (pool : Bytes) : Prop where
  lengths : layout.ids.length = input.length ∧ layout.offsets.length = input.length
  unique : layout.uniqueLen = input.eraseDups.length
  ids : ∀ (i : Nat) s id, input[i]? = some s → layout.ids[i]? = some id →
    id.toNat = input.eraseDups.idxOf s + 1
  sameIds : ∀ (i j : Nat) s t a b, input[i]? = some s → input[j]? = some t →
    layout.ids[i]? = some a → layout.ids[j]? = some b → (a = b ↔ s = t)
  sameOffsets : ∀ (i j : Nat) s t a b, input[i]? = some s → input[j]? = some t →
    layout.offsets[i]? = some a → layout.offsets[j]? = some b → (a = b ↔ s = t)
  record : ∀ (i : Nat) s offset, input[i]? = some s → layout.offsets[i]? = some offset →
    recordBytes pool offset.toNat = some s
  offsets : poolPrefix = 1 → ∀ raw, isStringOffset pool raw = true ↔ raw ∈ layout.offsets
  index : poolPrefix = 1 → ∀ (i : Nat) id offset, layout.ids[i]? = some id →
    layout.offsets[i]? = some offset → stringIndex pool offset.toNat = some (id.toNat - 1)
  table : ∃ table, stringOffsets layout layout.uniqueLen = some table ∧
    ∀ (i : Nat) id offset, layout.ids[i]? = some id → layout.offsets[i]? = some offset →
      table[id.toNat - 1]? = some offset
  found : ∀ value ∈ input, ∃ i handle, input[i]? = some value ∧
    lookupDeclared input slots value = some (some i) ∧
    layout.handle poolPrefix i = some handle ∧
    lookupString (poolPrefix != 0) pool value = some (some handle)
  missing : ∀ value ∉ input, lookupDeclared input slots value = some none ∧
    lookupString (poolPrefix != 0) pool value = some none

section Laid

variable {input : List Bytes} {layout : StringLayout}

theorem Laid.id_eq (h : Laid poolPrefix input layout) {i : Nat} {s : Bytes} {id : UInt16}
    (hs : input[i]? = some s) (hid : layout.ids[i]? = some id) :
    id = idIn input.eraseDups s ∧ id.toNat = input.eraseDups.idxOf s + 1 := by
  have hmem : s ∈ input := List.mem_of_getElem? hs
  have hlt := List.idxOf_lt_length_of_mem (List.mem_eraseDups.mpr hmem)
  have hcount := h.counted
  rw [h.uniqueLen] at hcount
  rw [h.ids, List.getElem?_map, hs] at hid
  obtain rfl := Option.some.inj hid
  refine ⟨rfl, ?_⟩
  unfold idIn
  rw [UInt16.toNat_ofNat', Nat.mod_eq_of_lt]
  omega

theorem Laid.offset_eq (h : Laid poolPrefix input layout) {i : Nat} {s : Bytes} {offset : UInt16}
    (hs : input[i]? = some s) (hoffset : layout.offsets[i]? = some offset) :
    offset = offsetIn poolPrefix input.eraseDups s ∧
      offset.toNat = poolPrefix + start input.eraseDups (input.eraseDups.idxOf s) := by
  rw [h.offsets, List.getElem?_map, hs] at hoffset
  obtain rfl := Option.some.inj hoffset
  exact ⟨rfl, (h.offset (List.mem_of_getElem? hs)).1⟩

/-- Equal places among the distinct strings are places of equal strings. -/
theorem idxOf_inj {s t : Bytes} (hs : s ∈ input) (ht : t ∈ input)
    (h : input.eraseDups.idxOf s = input.eraseDups.idxOf t) : s = t := by
  have hfirst := List.getElem?_idxOf (List.mem_eraseDups.mpr hs)
  rw [h, List.getElem?_idxOf (List.mem_eraseDups.mpr ht)] at hfirst
  exact (Option.some.inj hfirst).symm

theorem Laid.length_eq (h : Laid poolPrefix input layout) :
    layout.ids.length = input.length ∧ layout.offsets.length = input.length := by
  rw [h.ids, h.offsets, List.length_map, List.length_map]
  exact ⟨rfl, rfl⟩

/-- The string behind an id or an offset. -/
theorem Laid.string (h : Laid poolPrefix input layout) {i : Nat} {offset : UInt16}
    (hoffset : layout.offsets[i]? = some offset) : ∃ s, input[i]? = some s := by
  obtain ⟨hi, -⟩ := List.getElem?_eq_some_iff.mp hoffset
  rw [h.length_eq.2] at hi
  exact ⟨_, List.getElem?_eq_getElem hi⟩

theorem Laid.table (h : Laid poolPrefix input layout) :
    ∃ table, stringOffsets layout layout.uniqueLen = some table ∧
      ∀ (i : Nat) id offset, layout.ids[i]? = some id → layout.offsets[i]? = some offset →
        table[id.toNat - 1]? = some offset := by
  have hpairs : ∀ p ∈ layout.ids.zip layout.offsets, ∃ s ∈ input,
      p.1.toNat = input.eraseDups.idxOf s + 1 ∧ p.2 = offsetIn poolPrefix input.eraseDups s := by
    rintro ⟨id, offset⟩ hp
    obtain ⟨i, hi⟩ := List.mem_iff_getElem?.mp hp
    obtain ⟨hid, hoffset⟩ := List.getElem?_zip_eq_some.mp hi
    obtain ⟨s, hs⟩ := h.string hoffset
    exact ⟨s, List.mem_of_getElem? hs, (h.id_eq hs hid).2, (h.offset_eq hs hoffset).1⟩
  obtain ⟨table, htable, hfound⟩ := fill_spec (layout.ids.zip layout.offsets) []
    (List.replicate layout.uniqueLen 0)
    (fun p hp => by
      obtain ⟨s, hs, hid, -⟩ := hpairs p hp
      have hlt := List.idxOf_lt_length_of_mem (List.mem_eraseDups.mpr hs)
      rw [List.length_replicate, h.uniqueLen]
      omega)
    (fun p hp q hq hsame => by
      obtain ⟨s, hs, hid, hoffset⟩ := hpairs p hp
      obtain ⟨t, ht, hid', hoffset'⟩ := hpairs q hq
      rw [hoffset, hoffset', idxOf_inj hs ht (by omega)])
    (fun p hp => by cases hp)
  refine ⟨table, ?_, fun i id offset hid hoffset => ?_⟩
  · unfold stringOffsets
    simp only [guard, if_true]
    exact htable
  · refine hfound (id, offset) ?_
    exact List.mem_iff_getElem?.mpr ⟨i, List.getElem?_zip_eq_some.mpr ⟨hid, hoffset⟩⟩

end Laid

/-- **The string pool.** Whatever the layout accepts is interned faithfully. -/
theorem strings_interned (input : List Bytes) (hashSlots poolPrefix : Nat) (layout : StringLayout)
    (h : stringLayout input hashSlots poolPrefix = some layout) :
    ∃ slots pool, stringLookupTable input hashSlots = some slots ∧
      packStrings layout.byteLen input layout poolPrefix = some pool ∧
      Interned input poolPrefix layout slots pool := by
  obtain ⟨hreserved, hlaid, slots, htable, hindexes, hroom⟩ := stringLayout_spec h
  have hclean : Clean 0 input.eraseDups := fun word hword =>
    hlaid.clean word (List.mem_eraseDups.mp hword)
  have hfits : poolPrefix + room input.eraseDups ≤ 65536 ∧ input.eraseDups.length ≤ 65535 := by
    rw [← hlaid.byteLen, ← hlaid.uniqueLen]
    exact ⟨hlaid.fits, hlaid.counted⟩
  have hidx : ∀ s ∈ input, input.eraseDups[input.eraseDups.idxOf s]? = some s := fun s hs =>
    List.getElem?_idxOf (List.mem_eraseDups.mpr hs)
  have hlt : ∀ s ∈ input, input.eraseDups.idxOf s < input.eraseDups.length := fun s hs =>
    List.idxOf_lt_length_of_mem (List.mem_eraseDups.mpr hs)
  refine ⟨slots, poolWith poolPrefix input.eraseDups, htable, packed_of_laid hreserved hlaid, ?_⟩
  refine ⟨hlaid.length_eq, hlaid.uniqueLen, fun i s id hs hid => (hlaid.id_eq hs hid).2, ?_, ?_, ?_,
    ?_, ?_, hlaid.table, ?_, ?_⟩
  · intro i j s t a b hs ht ha hb
    obtain ⟨rfl, ha'⟩ := hlaid.id_eq hs ha
    obtain ⟨rfl, hb'⟩ := hlaid.id_eq ht hb
    refine ⟨fun hsame => ?_, fun hsame => by rw [hsame]⟩
    rw [hsame, hb'] at ha'
    exact idxOf_inj (List.mem_of_getElem? hs) (List.mem_of_getElem? ht) (by omega)
  · intro i j s t a b hs ht ha hb
    obtain ⟨rfl, ha'⟩ := hlaid.offset_eq hs ha
    obtain ⟨rfl, hb'⟩ := hlaid.offset_eq ht hb
    refine ⟨fun hsame => ?_, fun hsame => by rw [hsame]⟩
    rw [hsame, hb'] at ha'
    have hs' := List.mem_of_getElem? hs
    have ht' := List.mem_of_getElem? ht
    refine idxOf_inj hs' ht' (start_injective (hlt s hs') (hlt t ht') ?_)
    omega
  · intro i s offset hs hoffset
    rw [(hlaid.offset_eq hs hoffset).2]
    exact recordBytes_start hclean (hidx s (List.mem_of_getElem? hs))
  · rintro rfl raw
    rw [isStringOffset_iff hclean]
    constructor
    · rintro ⟨k, hk, hraw⟩
      have hword : input.eraseDups[k]? = some input.eraseDups[k] := List.getElem?_eq_getElem hk
      have hmem : input.eraseDups[k] ∈ input := List.mem_eraseDups.mp (List.getElem_mem hk)
      rw [hlaid.offsets, List.mem_map]
      refine ⟨_, hmem, ?_⟩
      have hplace : input.eraseDups.idxOf input.eraseDups[k] = k :=
        (nodup_eraseDups input).idxOf_getElem k hk
      rw [← UInt16.toNat_inj, (hlaid.offset hmem).1, hplace, hraw]
    · intro hraw
      obtain ⟨i, hi⟩ := List.mem_iff_getElem?.mp hraw
      obtain ⟨s, hs⟩ := hlaid.string hi
      exact ⟨_, hlt s (List.mem_of_getElem? hs), (hlaid.offset_eq hs hi).2⟩
  · rintro rfl i id offset hid hoffset
    obtain ⟨s, hs⟩ := hlaid.string hoffset
    rw [(hlaid.id_eq hs hid).2, Nat.add_sub_cancel]
    exact stringIndex_start hclean (hlt s (List.mem_of_getElem? hs)) (hlaid.offset_eq hs hoffset).2
  · intro value hvalue
    have hnul : (value.any (· = 0)) = false := by
      rw [List.any_eq_false]
      intro b hb hzero
      have hzero' : b = 0 := by simpa using hzero
      exact hlaid.clean value hvalue (hzero' ▸ hb)
    have hfirst : input[input.idxOf value]? = some value := List.getElem?_idxOf hvalue
    have hlookup := lookupString_spec hclean hfits hreserved value
    rw [if_pos (List.mem_eraseDups.mpr hvalue)] at hlookup
    rcases hindexes.finds hroom (hlaid.clean value hvalue) with ⟨-, hsearch⟩ | ⟨hnew, -⟩
    · refine ⟨input.idxOf value, _, hfirst, ?_, ?_, hlookup⟩
      · unfold lookupDeclared
        rw [hnul, hsearch]
        rfl
      · unfold StringLayout.handle
        split
        · rw [hlaid.ids, List.getElem?_map, hfirst]
          rfl
        · rw [hlaid.offsets, List.getElem?_map, hfirst]
          rfl
    · exact absurd hvalue hnew
  · intro value hvalue
    have hlookup := lookupString_spec hclean hfits hreserved value
    rw [if_neg fun hbad => hvalue (List.mem_eraseDups.mp hbad)] at hlookup
    refine ⟨?_, hlookup⟩
    unfold lookupDeclared
    split
    · rfl
    · rename_i hnul
      have hclean' : 0 ∉ value := by
        intro hbad
        refine hnul ?_
        rw [List.any_eq_true]
        exact ⟨0, hbad, by simp⟩
      rcases hindexes.finds hroom hclean' with ⟨hseen, -⟩ | ⟨-, slot, hsearch, -⟩
      · exact absurd hseen hvalue
      · rw [hsearch]
        rfl

/-- Two strings, one of them twice and one empty. -/
def declaredTwice : List Bytes := [[97], [], [97]]

theorem strings_interned_twice :
    stringLayout declaredTwice 8 1 = some ⟨[1, 2, 1], [1, 3, 1], 4, 2⟩ ∧
      ∃ slots pool, packStrings 4 declaredTwice ⟨[1, 2, 1], [1, 3, 1], 4, 2⟩ 1 = some pool ∧
        Interned declaredTwice 1 ⟨[1, 2, 1], [1, 3, 1], 4, 2⟩ slots pool := by
  have hlayout : stringLayout declaredTwice 8 1 = some ⟨[1, 2, 1], [1, 3, 1], 4, 2⟩ := by
    decide
  obtain ⟨slots, pool, -, hpool, hinterned⟩ := strings_interned declaredTwice 8 1 _ hlayout
  exact ⟨hlayout, slots, pool, hpool, hinterned⟩

end Catplay.Analysis.Reflect
