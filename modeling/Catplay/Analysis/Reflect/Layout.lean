import Catplay.Library.Probing
import Catplay.Library.Records
import Catplay.Model.Reflect.StringPool

/-!
# The string pool

The table of the declarations, and the layout of the pool.
-/

set_option autoImplicit false

/-!
## The table of the declarations

The slots that `string_layout` and `string_lookup_table` fill are a table with linear
probing whose keys are the strings seen so far (`Indexes`): a slot holds the index of the
first declaration of its string. So a search ends, at that index or at an empty slot
(`Indexes.finds`), and the table with the string put there is one of all strings up to it.
-/

namespace Catplay.Analysis.Reflect

open Catplay.Library.Probing Catplay.Model.Reflect

/-! ### Strings and hashes -/

theorem bytesEqual_iff {left right : Bytes} : bytesEqual left right = true ↔ left = right := by
  unfold bytesEqual
  induction left generalizing right with
  | nil => cases right <;> simp
  | cons b left ih =>
    cases right with
    | nil => simp
    | cons c right =>
      have hrest := @ih right
      simp only [Bool.and_eq_true, beq_iff_eq] at hrest
      simp only [List.length_cons, List.zip_cons_cons, List.all_cons, Bool.and_eq_true,
        beq_iff_eq, Nat.add_right_cancel_iff, List.cons.injEq]
      rw [← hrest]
      exact and_left_comm

variable {bytes : Bytes} {input seen : List Bytes} {slots : List Nat}

/-- A string has a hash exactly when it holds no NUL. -/
theorem stringHash_isSome : (stringHash bytes).isSome = true ↔ 0 ∉ bytes := by
  unfold stringHash
  generalize (0xcbf29ce484222325 : UInt64) = hash
  induction bytes generalizing hash with
  | nil => simp
  | cons b bytes ih =>
    rw [List.foldlM_cons]
    by_cases hzero : b = 0
    · simp [hzero]
    · rw [if_neg hzero]
      simp only [Option.bind_eq_bind, Option.bind_some]
      rw [ih]
      simp [Ne.symm hzero]

/-- The number of slots is a power of two, and at least twice the number of strings. -/
theorem stringHashSlots_spec {count slots : Nat} (h : stringHashSlots count = some slots) :
    (∃ n, slots = 2 ^ n) ∧ count * 2 ≤ slots ∧ slots ≤ usizeMax := by
  unfold stringHashSlots at h
  split at h
  · rename_i hbounds
    obtain rfl := Option.some.inj h
    exact ⟨⟨_, rfl⟩, Nat.le_pow_clog (by omega) _, hbounds.2⟩
  · cases h

/-! ### The table -/

/-- The slot at which the search for a string starts. -/
def homeOf (size : Nat) (bytes : Bytes) : Nat := ((stringHash bytes).getD 0).toNat % size

/-- The string of a slot. -/
def occupantOf (input : List Bytes) (slots : List Nat) (slot : Nat) : Option Bytes :=
  slots[slot]?.bind fun index => if index = usizeMax then none else input[index]?

/-- **The slots index the strings seen so far**, by their first declarations. -/
structure Indexes (input seen : List Bytes) (slots : List Nat) : Prop where
  size : ∃ n, slots.length = 2 ^ n
  table : Table slots.length (homeOf slots.length) seen (occupantOf input slots)
  first : ∀ slot index : Nat, slots[slot]? = some index → index ≠ usizeMax →
    ∃ bytes, input[index]? = some bytes ∧ input.idxOf bytes = index

theorem Indexes.start (input : List Bytes) {hashSlots n : Nat} (hsize : hashSlots = 2 ^ n) :
    Indexes input [] (List.replicate hashSlots usizeMax) := by
  have hempty : occupantOf input (List.replicate hashSlots usizeMax) = fun _ => none := by
    funext slot
    unfold occupantOf
    rw [List.getElem?_replicate]
    split <;> simp
  refine ⟨⟨n, by rw [List.length_replicate, hsize]⟩, ?_, fun slot index hslot hindex => ?_⟩
  · rw [hempty]
    exact .empty _ _
  · rw [List.getElem?_replicate] at hslot
    split at hslot
    · exact absurd (Option.some.inj hslot).symm hindex
    · cases hslot

theorem Indexes.of_same {seen' : List Bytes}
    (h : Indexes input seen slots) (hsame : ∀ bytes, bytes ∈ seen' ↔ bytes ∈ seen) :
    Indexes input seen' slots :=
  ⟨h.size, ⟨fun k => (hsame k).trans (h.table.stored k), h.table.reach⟩, h.first⟩

/-- The mask of a power of two takes the remainder. -/
theorem Indexes.mask (h : Indexes input seen slots)
    (n : Nat) : n &&& (slots.length - 1) = n % slots.length := by
  obtain ⟨e, he⟩ := h.size
  rw [he, Nat.and_two_pow_sub_one_eq_mod]

/-- **The loop** over the slots goes where the search of the table goes. -/
theorem Indexes.probes (h : Indexes input seen slots) (hsize : 0 < slots.length) {steps : Nat}
    (hpass : Passes slots.length (homeOf slots.length) (occupantOf input slots) bytes steps)
    (fuel : Nat) {e : Nat} (he : e ≤ steps) (hfuel : steps < fuel + e) :
    (occupantOf input slots (slotAt slots.length (homeOf slots.length) bytes steps) = some bytes →
      probe input slots bytes fuel (slotAt slots.length (homeOf slots.length) bytes e) =
        some (.declared (input.idxOf bytes))) ∧
    (occupantOf input slots (slotAt slots.length (homeOf slots.length) bytes steps) = none →
      probe input slots bytes fuel (slotAt slots.length (homeOf slots.length) bytes e) =
        some (.empty (slotAt slots.length (homeOf slots.length) bytes steps))) := by
  induction fuel generalizing e with
  | zero => omega
  | succ fuel ih =>
    have hlt : slotAt slots.length (homeOf slots.length) bytes e < slots.length :=
      slotAt_lt hsize bytes e
    obtain ⟨index, hindex⟩ : ∃ index,
        slots[slotAt slots.length (homeOf slots.length) bytes e]? = some index :=
      ⟨_, List.getElem?_eq_getElem hlt⟩
    have hoccupant : occupantOf input slots (slotAt slots.length (homeOf slots.length) bytes e) =
        if index = usizeMax then none else input[index]? := by
      unfold occupantOf
      rw [hindex]
      rfl
    unfold probe
    rw [hindex]
    simp only [Option.bind_eq_bind, Option.bind_some]
    by_cases hmark : index = usizeMax
    · rw [if_pos hmark] at hoccupant
      rw [if_pos hmark]
      -- an empty slot ends the search
      have hend : e = steps := by
        by_contra hne
        obtain ⟨other, hother, -⟩ := hpass e (by omega)
        rw [hoccupant] at hother
        cases hother
      subst hend
      refine ⟨fun hbad => ?_, fun _ => rfl⟩
      rw [hoccupant] at hbad
      cases hbad
    · rw [if_neg hmark] at hoccupant
      obtain ⟨string, hstring, hfirst⟩ := h.first _ _ hindex hmark
      rw [hstring] at hoccupant
      rw [if_neg hmark, hstring]
      simp only [Option.bind_some]
      by_cases hequal : bytes = string
      · subst hequal
        rw [if_pos (bytesEqual_iff.mpr rfl)]
        have hend : e = steps := by
          by_contra hne
          obtain ⟨other, hother, hdiffers⟩ := hpass e (by omega)
          rw [hoccupant] at hother
          exact hdiffers (Option.some.inj hother).symm
        subst hend
        refine ⟨fun _ => by rw [hfirst]; rfl, fun hbad => ?_⟩
        rw [hoccupant] at hbad
        cases hbad
      · rw [if_neg (fun hbad => hequal (bytesEqual_iff.mp hbad)), h.mask]
        have hnext : (slotAt slots.length (homeOf slots.length) bytes e + 1) % slots.length =
            slotAt slots.length (homeOf slots.length) bytes (e + 1) := by
          unfold slotAt
          rw [Nat.mod_add_mod, Nat.add_assoc]
        rw [hnext]
        by_cases hend : e = steps
        · subst hend
          refine ⟨fun hbad => ?_, fun hbad => ?_⟩
          · rw [hoccupant] at hbad
            exact absurd (Option.some.inj hbad).symm hequal
          · rw [hoccupant] at hbad
            cases hbad
        · exact ih (by omega) (by omega)

/-- The slots after a string has got one of its own. -/
theorem Indexes.insert (h : Indexes input seen slots) {steps : Nat} (hsteps : steps < slots.length)
    (hpass : Passes slots.length (homeOf slots.length) (occupantOf input slots) bytes steps)
    (hempty : occupantOf input slots (slotAt slots.length (homeOf slots.length) bytes steps) = none)
    {index : Nat} (hindex : input[index]? = some bytes) (hfirst : input.idxOf bytes = index)
    (hmark : index ≠ usizeMax) :
    Indexes input (seen ++ [bytes])
      (slots.set (slotAt slots.length (homeOf slots.length) bytes steps) index) := by
  have hlt : slotAt slots.length (homeOf slots.length) bytes steps < slots.length :=
    slotAt_lt (by omega) bytes steps
  have hoccupant : occupantOf input
      (slots.set (slotAt slots.length (homeOf slots.length) bytes steps) index) =
        Function.update (occupantOf input slots)
          (slotAt slots.length (homeOf slots.length) bytes steps) (some bytes) := by
    funext slot
    by_cases hslot : slot = slotAt slots.length (homeOf slots.length) bytes steps
    · subst hslot
      rw [Function.update_self]
      unfold occupantOf
      rw [List.getElem?_set_self hlt, Option.bind_some, if_neg hmark, hindex]
    · rw [Function.update_of_ne hslot]
      unfold occupantOf
      rw [List.getElem?_set_ne (Ne.symm hslot)]
  refine ⟨?_, ?_, fun slot i hslot hi => ?_⟩
  · rw [List.length_set]
    exact h.size
  · rw [List.length_set, hoccupant]
    exact h.table.insert hsteps hpass hempty
  · by_cases hsame : slot = slotAt slots.length (homeOf slots.length) bytes steps
    · rw [hsame, List.getElem?_set_self hlt] at hslot
      obtain rfl := Option.some.inj hslot
      exact ⟨bytes, hindex, hfirst⟩
    · rw [List.getElem?_set_ne (Ne.symm hsame)] at hslot
      exact h.first slot i hslot hi

/-- **The search** for a string ends at its first declaration, or at a slot where it can be put. -/
theorem Indexes.finds (h : Indexes input seen slots)
    (hroom : seen.length < slots.length) (hclean : 0 ∉ bytes) :
    (bytes ∈ seen ∧ search input slots bytes = some (.declared (input.idxOf bytes))) ∨
    (bytes ∉ seen ∧ ∃ slot, search input slots bytes = some (.empty slot) ∧
      ∀ index, input[index]? = some bytes → input.idxOf bytes = index → index ≠ usizeMax →
        Indexes input (seen ++ [bytes]) (slots.set slot index)) := by
  have hsize : 0 < slots.length := by omega
  obtain ⟨hash, hhash⟩ := Option.isSome_iff_exists.mp (stringHash_isSome.mpr hclean)
  have hhome : hash.toNat &&& (slots.length - 1) =
      slotAt slots.length (homeOf slots.length) bytes 0 := by
    unfold slotAt homeOf
    rw [h.mask, hhash, Nat.add_zero, Nat.mod_mod]
    rfl
  have hsearch : search input slots bytes = probe input slots bytes slots.length
      (slotAt slots.length (homeOf slots.length) bytes 0) := by
    unfold search
    rw [hhash, ← hhome]
    rfl
  obtain ⟨steps, hsteps, hpass, hcases⟩ := h.table.search hroom bytes
  obtain ⟨hfound, hempty⟩ := h.probes hsize hpass slots.length (Nat.zero_le _) (by omega)
  rw [hsearch]
  rcases hcases with ⟨hseen, hstored⟩ | ⟨hnew, hnone⟩
  · exact Or.inl ⟨hseen, hfound hstored⟩
  · refine Or.inr ⟨hnew, _, hempty hnone, fun index hindex hfirst hmark => ?_⟩
    exact h.insert hsteps hpass hnone hindex hfirst hmark

/-- A string with a NUL stops the search. -/
theorem search_nul (input : List Bytes) (slots : List Nat) (h : 0 ∈ bytes) :
    search input slots bytes = none := by
  have hnone : stringHash bytes = none := by
    rw [← Option.not_isSome_iff_eq_none, stringHash_isSome]
    exact fun hbad => hbad h
  unfold search
  rw [hnone]
  rfl

end Catplay.Analysis.Reflect

/-!
## The layout of a string pool

A list of strings that the layout accepts is laid out as its distinct strings in the order
of their first occurrences (`Laid`), one step of the loop after the other
(`stringLayout_spec`), and the packed pool is the records of these strings
(`packed_of_laid`).
-/

namespace Catplay.Analysis.Reflect

open Catplay.Library.Records Catplay.Model.Reflect

/-! ### Distinct strings -/

/-- One more string is one more distinct string, or none. -/
theorem eraseDups_concat (seen : List Bytes) (bytes : Bytes) :
    (seen ++ [bytes]).eraseDups =
      if bytes ∈ seen then seen.eraseDups else seen.eraseDups ++ [bytes] := by
  rw [List.eraseDups_append]
  by_cases hseen : bytes ∈ seen
  · rw [if_pos hseen]
    simp [List.removeAll, hseen]
  · rw [if_neg hseen]
    have hone : [bytes].removeAll seen = [bytes] := by
      simp [List.removeAll, hseen]
    rw [hone, List.eraseDups_cons]
    rfl

/-- The distinct strings of the first declarations come first. -/
theorem eraseDups_take (input : List Bytes) (n : Nat) :
    ∃ more, input.eraseDups = (input.take n).eraseDups ++ more := by
  have hsplit : input = input.take n ++ input.drop n := (List.take_append_drop n input).symm
  refine ⟨((input.drop n).removeAll (input.take n)).eraseDups, ?_⟩
  rw [← List.eraseDups_append, List.take_append_drop]

variable {bytes : Bytes} {input seen : List Bytes} {n poolPrefix : Nat} {layout : StringLayout}

theorem take_succ_of_getElem?
    (h : input[n]? = some bytes) : input.take (n + 1) = input.take n ++ [bytes] := by
  rw [List.take_add_one, h]
  rfl

/-- A declaration whose string was not seen before is the first one of its string. -/
theorem idxOf_of_new (h : input[n]? = some bytes)
    (hnew : bytes ∉ input.take n) : input.idxOf bytes = n := by
  obtain ⟨hn, hbytes⟩ := List.getElem?_eq_some_iff.mp h
  have hsplit : input = input.take n ++ bytes :: input.drop (n + 1) := by
    rw [← hbytes, List.getElem_cons_drop, List.take_append_drop]
  rw [hsplit, List.idxOf_append_of_notMem hnew, List.idxOf_cons_self, List.length_take]
  omega

theorem nodup_eraseDups (seen : List Bytes) : seen.eraseDups.Nodup := by
  induction seen using List.reverseRecOn with
  | nil => simp
  | append_singleton seen bytes ih =>
    rw [eraseDups_concat]
    split
    · exact ih
    · rename_i hnew
      refine List.nodup_append.mpr ⟨ih, List.nodup_singleton _, fun a ha b hb => ?_⟩
      rw [List.mem_singleton.mp hb]
      rintro rfl
      exact hnew (List.mem_eraseDups.mp ha)

/-! ### The layout -/

/-- The id of a string. -/
def idIn (distinct : List Bytes) (bytes : Bytes) : UInt16 :=
  UInt16.ofNat (distinct.idxOf bytes + 1)

/-- The offset of the record of a string. -/
def offsetIn (poolPrefix : Nat) (distinct : List Bytes) (bytes : Bytes) : UInt16 :=
  UInt16.ofNat (poolPrefix + start distinct (distinct.idxOf bytes))

/-- **The layout of the strings seen so far.** -/
structure Laid (poolPrefix : Nat) (seen : List Bytes) (layout : StringLayout) : Prop where
  ids : layout.ids = seen.map (idIn seen.eraseDups)
  offsets : layout.offsets = seen.map (offsetIn poolPrefix seen.eraseDups)
  byteLen : layout.byteLen = poolPrefix + room seen.eraseDups
  uniqueLen : layout.uniqueLen = seen.eraseDups.length
  fits : layout.byteLen ≤ 65536
  counted : layout.uniqueLen ≤ 65535
  clean : ∀ bytes ∈ seen, 0 ∉ bytes

/-- A string seen before changes nothing but the two lists. -/
theorem Laid.alias (h : Laid poolPrefix seen layout) (hseen : bytes ∈ seen) :
    Laid poolPrefix (seen ++ [bytes])
      { layout with
        ids := layout.ids ++ [idIn seen.eraseDups bytes]
        offsets := layout.offsets ++ [offsetIn poolPrefix seen.eraseDups bytes] } := by
  have hsame : (seen ++ [bytes]).eraseDups = seen.eraseDups := by
    rw [eraseDups_concat, if_pos hseen]
  refine ⟨?_, ?_, ?_, ?_, h.fits, h.counted, fun other hother => ?_⟩
  · rw [hsame, List.map_append, ← h.ids]
    rfl
  · rw [hsame, List.map_append, ← h.offsets]
    rfl
  · rw [hsame]
    exact h.byteLen
  · rw [hsame]
    exact h.uniqueLen
  · rcases List.mem_append.mp hother with hother | hother
    · exact h.clean other hother
    · rw [List.mem_singleton.mp hother]
      exact h.clean bytes hseen

/-- A new string gets the next id and the next free byte. -/
theorem Laid.add (h : Laid poolPrefix seen layout) (hnew : bytes ∉ seen) (hclean : 0 ∉ bytes)
    (hroom : 1 + bytes.length ≤ 65536 - layout.byteLen) (hcount : layout.uniqueLen < 65535) :
    Laid poolPrefix (seen ++ [bytes])
      { ids := layout.ids ++ [UInt16.ofNat (layout.uniqueLen + 1)]
        offsets := layout.offsets ++ [UInt16.ofNat layout.byteLen]
        byteLen := layout.byteLen + (1 + bytes.length)
        uniqueLen := layout.uniqueLen + 1 } := by
  have hfits := h.fits
  have hmore : (seen ++ [bytes]).eraseDups = seen.eraseDups ++ [bytes] := by
    rw [eraseDups_concat, if_neg hnew]
  have hnew' : bytes ∉ seen.eraseDups := fun hbad => hnew (List.mem_eraseDups.mp hbad)
  have hlast : (seen.eraseDups ++ [bytes]).idxOf bytes = seen.eraseDups.length := by
    rw [List.idxOf_append_of_notMem hnew', List.idxOf_cons_self, Nat.add_zero]
  have hkept : ∀ other ∈ seen,
      (seen.eraseDups ++ [bytes]).idxOf other = seen.eraseDups.idxOf other := fun other hother =>
    List.idxOf_append_of_mem (List.mem_eraseDups.mpr hother)
  refine ⟨?_, ?_, ?_, ?_, ?_, ?_, fun other hother => ?_⟩
  · dsimp only
    rw [hmore, List.map_append, h.ids]
    congr 1
    · refine List.map_congr_left fun other hother => ?_
      unfold idIn
      rw [hkept other hother]
    · unfold idIn
      rw [List.map_singleton, hlast, h.uniqueLen]
  · dsimp only
    rw [hmore, List.map_append, h.offsets]
    congr 1
    · refine List.map_congr_left fun other hother => ?_
      unfold offsetIn
      rw [hkept other hother, start_append]
      exact (List.idxOf_lt_length_of_mem (List.mem_eraseDups.mpr hother)).le
    · unfold offsetIn
      rw [List.map_singleton, hlast, start_append _ _ (le_refl _), start_length, h.byteLen]
  · dsimp only
    rw [hmore, room_append, h.byteLen, room_cons, room_nil]
    omega
  · rw [hmore, List.length_append, h.uniqueLen]
    rfl
  · dsimp only
    omega
  · dsimp only
    omega
  · rcases List.mem_append.mp hother with hother | hother
    · exact h.clean other hother
    · rw [List.mem_singleton.mp hother]
      exact hclean

/-- **One declaration** is laid out, and enters the table as it does in `string_lookup_table`. -/
theorem layoutStep_spec {slots slots' : List Nat} {layout' : StringLayout}
    (hindexes : Indexes input (input.take n) slots) (hlaid : Laid poolPrefix (input.take n) layout)
    (hroom : input.length < slots.length) (hmark : input.length < usizeMax)
    (h : stringLayoutStep input poolPrefix (slots, layout) n = some (slots', layout')) :
    Indexes input (input.take (n + 1)) slots' ∧ Laid poolPrefix (input.take (n + 1)) layout' ∧
      slots'.length = slots.length ∧ stringLookupStep input slots n = some slots' := by
  unfold stringLayoutStep at h
  obtain ⟨bytes, hbytes, h⟩ := Option.bind_eq_some_iff.mp h
  obtain ⟨-, -, h⟩ := Option.bind_eq_some_iff.mp h
  obtain ⟨found, hfound, h⟩ := Option.bind_eq_some_iff.mp h
  have hn : n < input.length := (List.getElem?_eq_some_iff.mp hbytes).1
  have hclean : 0 ∉ bytes := by
    intro hbad
    rw [search_nul input slots hbad] at hfound
    cases hfound
  have hshort : (input.take n).length < slots.length := by
    rw [List.length_take]
    omega
  rw [take_succ_of_getElem? hbytes]
  unfold stringLookupStep
  rw [hbytes, Option.bind_eq_bind, Option.bind_some, hfound, Option.bind_eq_bind, Option.bind_some]
  rcases hindexes.finds hshort hclean with ⟨hseen, hsearch⟩ | ⟨hnew, slot, hsearch, hinsert⟩
  · rw [hsearch] at hfound
    obtain rfl := Option.some.inj hfound
    dsimp only at h ⊢
    obtain ⟨id, hid, h⟩ := Option.bind_eq_some_iff.mp h
    obtain ⟨offset, hoffset, h⟩ := Option.bind_eq_some_iff.mp h
    obtain ⟨rfl, rfl⟩ := Prod.mk.inj (Option.some.inj h)
    have hfirst : (input.take n)[input.idxOf bytes]? = some bytes := by
      have hsplit : input = input.take n ++ input.drop n := (List.take_append_drop n input).symm
      have hidx : input.idxOf bytes = (input.take n).idxOf bytes := by
        conv_lhs => rw [hsplit]
        exact List.idxOf_append_of_mem hseen
      rw [hidx, List.getElem?_idxOf hseen]
    rw [hlaid.ids, List.getElem?_map, hfirst] at hid
    rw [hlaid.offsets, List.getElem?_map, hfirst] at hoffset
    obtain rfl := Option.some.inj hid
    obtain rfl := Option.some.inj hoffset
    refine ⟨hindexes.of_same fun other => ?_, hlaid.alias hseen, rfl, rfl⟩
    rw [List.mem_append, List.mem_singleton]
    exact ⟨fun hother => hother.elim id fun hother => hother ▸ hseen, Or.inl⟩
  · rw [hsearch] at hfound
    obtain rfl := Option.some.inj hfound
    dsimp only at h ⊢
    obtain ⟨_, hfits, h⟩ := Option.bind_eq_some_iff.mp h
    obtain ⟨_, hcount, h⟩ := Option.bind_eq_some_iff.mp h
    obtain ⟨rfl, rfl⟩ := Prod.mk.inj (Option.some.inj h)
    refine ⟨hinsert n hbytes (idxOf_of_new hbytes hnew) (by omega), ?_, List.length_set, rfl⟩
    exact hlaid.add hnew hclean (by simpa [guard] using hfits) (by simpa [guard] using hcount)

/-- **The whole layout**, together with the table for the lookups. -/
theorem stringLayout_spec {hashSlots : Nat}
    (h : stringLayout input hashSlots poolPrefix = some layout) :
    poolPrefix ≤ 1 ∧ Laid poolPrefix input layout ∧
      ∃ slots, stringLookupTable input hashSlots = some slots ∧ Indexes input input slots ∧
        input.length < slots.length := by
  unfold stringLayout at h
  obtain ⟨_, hreserved, h⟩ := Option.bind_eq_some_iff.mp h
  obtain ⟨_, hslots, h⟩ := Option.bind_eq_some_iff.mp h
  obtain ⟨⟨slots, layout'⟩, hloop, h⟩ := Option.bind_eq_some_iff.mp h
  obtain rfl := Option.some.inj h
  have hreserved' : poolPrefix ≤ 1 := by simpa [guard] using hreserved
  have hslots' : stringHashSlots input.length = some hashSlots := by simpa [guard] using hslots
  obtain ⟨⟨e, he⟩, hhalf, hmax⟩ := stringHashSlots_spec hslots'
  have hpositive : 0 < hashSlots := by
    rw [he]
    exact Nat.two_pow_pos e
  have husize : 1 < usizeMax := by decide
  -- the loop up to each declaration
  have hrun : ∀ n ≤ input.length, ∀ slots layout',
      (List.range n).foldlM (stringLayoutStep input poolPrefix)
        (List.replicate hashSlots usizeMax, ⟨[], [], poolPrefix, 0⟩) = some (slots, layout') →
      Indexes input (input.take n) slots ∧ Laid poolPrefix (input.take n) layout' ∧
        slots.length = hashSlots ∧
        (List.range n).foldlM (stringLookupStep input) (List.replicate hashSlots usizeMax) =
          some slots := by
    intro n
    induction n with
    | zero =>
      intro _ slots layout' h
      obtain ⟨rfl, rfl⟩ := Prod.mk.inj (Option.some.inj h)
      refine ⟨.start input he, ⟨rfl, rfl, rfl, rfl, ?_, by simp, by simp⟩, List.length_replicate, rfl⟩
      dsimp only
      omega
    | succ n ih =>
      intro hn slots layout' h
      rw [List.range_succ, List.foldlM_append] at h
      obtain ⟨⟨slots₀, layout₀⟩, hbefore, hlast⟩ := Option.bind_eq_some_iff.mp h
      obtain ⟨hindexes, hlaid, hlength, htable⟩ := ih (by omega) slots₀ layout₀ hbefore
      rw [List.foldlM_cons] at hlast
      obtain ⟨⟨slots₁, layout₁⟩, hstep, hdone⟩ := Option.bind_eq_some_iff.mp hlast
      obtain ⟨rfl, rfl⟩ := Prod.mk.inj (Option.some.inj hdone)
      obtain ⟨hindexes', hlaid', hlength', htable'⟩ :=
        layoutStep_spec hindexes hlaid (by omega) (by omega) hstep
      refine ⟨hindexes', hlaid', hlength'.trans hlength, ?_⟩
      rw [List.range_succ, List.foldlM_append, htable]
      simp only [List.foldlM_cons, List.foldlM_nil, Option.bind_eq_bind, Option.bind_some, htable']
      rfl
  obtain ⟨hindexes, hlaid, hlength, htable⟩ := hrun _ (Nat.le_refl _) slots layout' hloop
  rw [List.take_length] at hindexes hlaid
  exact ⟨hreserved', hlaid, slots, htable, hindexes, by omega⟩

/-! ### Packing -/

/-- The pool while its records are written, with the rest still zero. -/
def poolOf (size poolPrefix : Nat) (words : List Bytes) : Bytes :=
  List.replicate poolPrefix 0 ++ packed 0 words ++
    List.replicate (size - (poolPrefix + room words)) 0

theorem length_front (poolPrefix : Nat) (words : List Bytes) :
    (List.replicate poolPrefix (0 : UInt8) ++ packed 0 words).length = poolPrefix + room words := by
  rw [List.length_append, List.length_replicate, length_packed]

/-- The record of a string lies within the pool. -/
theorem Laid.offset (h : Laid poolPrefix seen layout) (hmem : bytes ∈ seen) :
    (offsetIn poolPrefix seen.eraseDups bytes).toNat =
      poolPrefix + start seen.eraseDups (seen.eraseDups.idxOf bytes) ∧
    start seen.eraseDups (seen.eraseDups.idxOf bytes) + bytes.length < room seen.eraseDups := by
  have hlt := start_lt (List.getElem?_idxOf (List.mem_eraseDups.mpr hmem))
  have hfits := h.fits
  rw [h.byteLen] at hfits
  refine ⟨?_, hlt⟩
  unfold offsetIn
  rw [UInt16.toNat_ofNat', Nat.mod_eq_of_lt]
  omega

/-- A record is written at its place, over zeros. -/
theorem packStep_write {offset : UInt16}
    {front : Bytes} (left : Nat) (hoffset : layout.offsets[n]? = some offset)
    (hbytes : input[n]? = some bytes) (hpos : offset.toNat = front.length) :
    packStep input layout
        (front ++ List.replicate (bytes.length + (left + 1)) 0, front.length) n =
      some (front ++ (bytes ++ 0 :: List.replicate left 0), front.length + (1 + bytes.length)) := by
  have hwritten : (front ++ List.replicate (bytes.length + (left + 1)) 0).take front.length ++
      bytes ++ (front ++ List.replicate (bytes.length + (left + 1)) 0).drop
        (front.length + bytes.length) = front ++ (bytes ++ 0 :: List.replicate left 0) := by
    rw [List.take_left, List.append_assoc, List.drop_append, List.drop_replicate,
      List.drop_eq_nil_of_le (by omega), List.nil_append]
    have hleft : bytes.length + (left + 1) - (front.length + bytes.length - front.length) =
        left + 1 := by
      omega
    rw [hleft]
    rfl
  have hset : (front ++ (bytes ++ 0 :: List.replicate left 0)).set
      (front.length + bytes.length) 0 = front ++ (bytes ++ 0 :: List.replicate left 0) := by
    rw [List.set_append_right _ _ (by omega), Nat.add_sub_cancel_left,
      List.set_append_right _ _ (Nat.le_refl _), Nat.sub_self, List.set_cons_zero]
  have hguard : front.length ≤ (front ++ List.replicate (bytes.length + (left + 1)) 0).length ∧
      bytes.length ≤
        (front ++ List.replicate (bytes.length + (left + 1)) 0).length - front.length := by
    rw [List.length_append, List.length_replicate]
    omega
  have hguard' : front.length + bytes.length <
      (front ++ (bytes ++ 0 :: List.replicate left 0)).length := by
    rw [List.length_append, List.length_append, List.length_cons]
    omega
  unfold packStep
  dsimp only
  rw [hoffset]
  simp only [Option.bind_eq_bind, Option.bind_some]
  rw [if_pos hpos, hbytes]
  simp only [Option.bind_some]
  rw [hpos, hwritten, hset]
  simp only [guard, if_pos hguard, if_pos hguard']
  rfl

/-- A duplicate is not written again. -/
theorem packStep_skip {next : Nat} {offset : UInt16}
    (out : Bytes) (hoffset : layout.offsets[n]? = some offset) (hpos : offset.toNat ≠ next) :
    packStep input layout (out, next) n = some (out, next) := by
  unfold packStep
  dsimp only
  rw [hoffset]
  simp only [Option.bind_eq_bind, Option.bind_some]
  rw [if_neg hpos]
  rfl

/-- **One declaration** is packed: its record is written if its string is new. -/
theorem packStep_spec (hlaid : Laid poolPrefix input layout) (hbytes : input[n]? = some bytes) :
    packStep input layout (poolOf layout.byteLen poolPrefix (input.take n).eraseDups,
        poolPrefix + room (input.take n).eraseDups) n =
      some (poolOf layout.byteLen poolPrefix (input.take (n + 1)).eraseDups,
        poolPrefix + room (input.take (n + 1)).eraseDups) := by
  have hmem : bytes ∈ input := List.mem_of_getElem? hbytes
  obtain ⟨hoffset, hinside⟩ := hlaid.offset hmem
  have hlookup : layout.offsets[n]? = some (offsetIn poolPrefix input.eraseDups bytes) := by
    rw [hlaid.offsets, List.getElem?_map, hbytes]
    rfl
  rw [take_succ_of_getElem? hbytes, eraseDups_concat]
  by_cases hseen : bytes ∈ input.take n
  · -- the record of a duplicate starts before the free part
    obtain ⟨more, hmore⟩ := eraseDups_take input n
    have hidx : input.eraseDups.idxOf bytes = (input.take n).eraseDups.idxOf bytes := by
      rw [hmore]
      exact List.idxOf_append_of_mem (List.mem_eraseDups.mpr hseen)
    have hbefore := start_lt (List.getElem?_idxOf (List.mem_eraseDups.mpr hseen))
    have hstart : start input.eraseDups (input.eraseDups.idxOf bytes) =
        start (input.take n).eraseDups ((input.take n).eraseDups.idxOf bytes) := by
      rw [hidx, hmore, start_append]
      exact (List.idxOf_lt_length_of_mem (List.mem_eraseDups.mpr hseen)).le
    rw [if_pos hseen]
    exact packStep_skip _ hlookup (by omega)
  · have hnew : bytes ∉ (input.take n).eraseDups := fun hbad => hseen (List.mem_eraseDups.mp hbad)
    have hstart : start input.eraseDups (input.eraseDups.idxOf bytes) =
        room (input.take n).eraseDups := by
      obtain ⟨rest, hrest⟩ := eraseDups_take input (n + 1)
      rw [take_succ_of_getElem? hbytes, eraseDups_concat, if_neg hseen, List.append_assoc] at hrest
      rw [hrest, List.idxOf_append_of_notMem hnew, List.singleton_append, List.idxOf_cons_self,
        Nat.add_zero, start_append _ _ (le_refl _), start_length]
    have hroom : layout.byteLen = poolPrefix + room input.eraseDups := hlaid.byteLen
    have hlength := length_front poolPrefix (input.take n).eraseDups
    rw [hstart] at hoffset hinside
    -- the free part is long enough for the record
    obtain ⟨left, hleft⟩ : ∃ left, layout.byteLen - (poolPrefix + room (input.take n).eraseDups) =
        bytes.length + (left + 1) :=
      ⟨layout.byteLen - (poolPrefix + room (input.take n).eraseDups) - bytes.length - 1, by omega⟩
    have hrest : layout.byteLen - (poolPrefix + room ((input.take n).eraseDups ++ [bytes])) =
        left := by
      rw [room_append, room_cons, room_nil]
      omega
    have hwrite := packStep_write left hlookup hbytes (hoffset.trans hlength.symm)
    rw [if_neg hseen]
    unfold poolOf
    rw [hleft, hrest, packed_append, packed_cons, packed_nil, ← hlength, hwrite, room_append,
      room_cons, room_nil, hlength]
    congr 2
    · simp
    · omega

/-- **The packed pool** holds the records of the distinct strings, behind the prefix. -/
theorem packed_of_laid (hreserved : poolPrefix ≤ 1) (hlaid : Laid poolPrefix input layout) :
    packStrings layout.byteLen input layout poolPrefix =
      some (List.replicate poolPrefix 0 ++ packed 0 input.eraseDups) := by
  have hrun : ∀ n ≤ input.length, (List.range n).foldlM (packStep input layout)
      (List.replicate layout.byteLen 0, poolPrefix) =
        some (poolOf layout.byteLen poolPrefix (input.take n).eraseDups,
          poolPrefix + room (input.take n).eraseDups) := by
    intro n
    induction n with
    | zero =>
      intro _
      have hbyteLen := hlaid.byteLen
      have hstart : List.replicate layout.byteLen (0 : UInt8) =
          List.replicate poolPrefix 0 ++ List.replicate (layout.byteLen - poolPrefix) 0 := by
        rw [← List.replicate_add]
        congr 1
        omega
      rw [hstart]
      simp [poolOf]
    | succ n ih =>
      intro hn
      have hbytes : input[n]? = some input[n] := List.getElem?_eq_getElem (by omega)
      rw [List.range_succ, List.foldlM_append, ih (by omega)]
      simp only [List.foldlM_cons, List.foldlM_nil, Option.bind_eq_bind, Option.bind_some,
        packStep_spec hlaid hbytes]
      rfl
  have hall := hrun input.length (Nat.le_refl _)
  have hbyteLen : poolPrefix + room input.eraseDups = layout.byteLen := hlaid.byteLen.symm
  rw [List.take_length] at hall
  unfold packStrings
  rw [hall]
  simp only [guard, if_pos hreserved, if_true, Option.bind_eq_bind, Option.bind_some, hbyteLen]
  unfold poolOf
  rw [hbyteLen, Nat.sub_self]
  simp

end Catplay.Analysis.Reflect
