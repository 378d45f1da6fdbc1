import Catplay.Model.Bonjour.Message

/-!
# Names in mDNS messages

What it is for a name to stand at a place of a message, whatever pointers it is written with
(`NameAt`): the parser reads it back (`parseName_of_nameAt`), and the builder writes it as long as
its table of suffixes is right (`Table`), which it stays (`Table.written`).
-/

set_option autoImplicit false

namespace Catplay.Analysis.Bonjour

open Catplay.Library Catplay.Library.Checked Catplay.Library.Text Catplay.Model.Bonjour

/-! ## Names -/

/-- A label of 1 to 63 bytes. -/
structure IsLabel (label : Name) : Prop where
  nonempty : label ≠ []
  noDot : '.' ∉ label
  short : (toUtf8 label).length ≤ 63

/-- One label or more. -/
structure AreLabels (labels : List Name) : Prop where
  nonempty : labels ≠ []
  label : ∀ label ∈ labels, IsLabel label

def dotted (labels : List Name) : Name := ['.'].intercalate labels

/-- The name with the dot of the root. -/
def fqdn (labels : List Name) : Name := dotted labels ++ ['.']

theorem AreLabels.tail {label : Name} {labels : List Name} (h : AreLabels (label :: labels))
    (hne : labels ≠ []) : AreLabels labels :=
  ⟨hne, fun l hl => h.label l (List.mem_cons_of_mem label hl)⟩

theorem AreLabels.append {front back : List Name} (hfront : AreLabels front)
    (hback : AreLabels back) : AreLabels (front ++ back) := by
  refine ⟨fun hnil => hfront.nonempty (List.append_eq_nil_iff.mp hnil).1, fun label hlabel => ?_⟩
  exact (List.mem_append.mp hlabel).elim (hfront.label label) (hback.label label)

theorem dotted_singleton (label : Name) : dotted [label] = label := List.intercalate_singleton

theorem dotted_cons (label : Name) {labels : List Name} (h : labels ≠ []) :
    dotted (label :: labels) = label ++ '.' :: dotted labels := by
  unfold dotted
  rw [List.intercalate_cons_of_ne_nil h, List.append_assoc]
  rfl

theorem dotted_append {front back : List Name} (hfront : front ≠ []) (hback : back ≠ []) :
    dotted (front ++ back) = dotted front ++ '.' :: dotted back := by
  induction front with
  | nil => exact absurd rfl hfront
  | cons label front ih =>
    by_cases hnil : front = []
    · rw [hnil, List.singleton_append, dotted_cons label hback, dotted_singleton]
    · rw [List.cons_append, dotted_cons label (by simp [hnil]), ih hnil, dotted_cons label hnil,
        List.append_assoc, List.cons_append]

/-- The last character of a name is none of a dot. -/
theorem dotted_ends {labels : List Name} (h : AreLabels labels) :
    ∃ front c, dotted labels = front ++ [c] ∧ c ≠ '.' := by
  induction labels with
  | nil => exact absurd rfl h.nonempty
  | cons label labels ih =>
    by_cases hnil : labels = []
    · have hlabel := h.label label List.mem_cons_self
      rw [hnil, dotted_singleton]
      refine ⟨label.dropLast, label.getLast hlabel.nonempty,
        (List.dropLast_append_getLast hlabel.nonempty).symm, fun hdot => hlabel.noDot ?_⟩
      rw [← hdot]
      exact List.getLast_mem hlabel.nonempty
    · obtain ⟨front, c, heq, hdot⟩ := ih (h.tail hnil)
      rw [dotted_cons label hnil, heq]
      exact ⟨label ++ '.' :: front, c, by simp, hdot⟩

/-- **Splitting a name gives its labels.** -/
theorem labels_fqdn {labels : List Name} (h : AreLabels labels) :
    ((fqdn labels).rdropWhile (· = '.')).splitOn '.' = labels := by
  obtain ⟨front, c, heq, hdot⟩ := dotted_ends h
  have htrim : (fqdn labels).rdropWhile (· = '.') = dotted labels := by
    unfold fqdn
    rw [heq, List.rdropWhile_concat_pos _ _ _ (by decide),
      List.rdropWhile_concat_neg _ _ _ (by simpa using hdot)]
  rw [htrim]
  exact List.splitOn_intercalate '.' (fun label hlabel => (h.label label hlabel).noDot) h.nonempty

theorem fqdn_inj {labels labels' : List Name} (h : AreLabels labels) (h' : AreLabels labels')
    (heq : fqdn labels = fqdn labels') : labels = labels' := by
  rw [← labels_fqdn h, heq, labels_fqdn h']

/-- A name before one that ends in the root. -/
theorem fqdn_append {front back : List Name} (hfront : front ≠ []) (hback : back ≠ []) :
    dotted front ++ ['.'] ++ fqdn back = fqdn (front ++ back) := by
  unfold fqdn
  rw [dotted_append hfront hback]
  simp

/-! ## A name at a place of a message -/

/-- The name of the labels is read at `pos` with that many jumps at most, and what follows it
is at `stop`. -/
inductive NameAt (buf : List UInt8) : Nat → List Name → Nat → Nat → Prop
  | root {pos : Nat} (jumps : Nat) (h : Holds buf pos [0]) : NameAt buf pos [] jumps (pos + 1)
  | label {pos jumps stop : Nat} {label : Name} {labels : List Name}
      (h : Holds buf pos (UInt8.ofNat (toUtf8 label).length :: toUtf8 label))
      (rest : NameAt buf (pos + 1 + (toUtf8 label).length) labels jumps stop) :
      NameAt buf pos (label :: labels) jumps stop
  | pointer {pos target jumps stop : Nat} {labels : List Name} (hsmall : target < 2 ^ 14)
      (h : Holds buf pos (BigEndian.toBytes 2 (0xC000 + target)))
      (rest : NameAt buf target labels jumps stop) : NameAt buf pos labels (jumps + 1) (pos + 2)

namespace NameAt

variable {buf : List UInt8} {pos jumps stop : Nat} {labels : List Name}

theorem append (h : NameAt buf pos labels jumps stop) (more : List UInt8) :
    NameAt (buf ++ more) pos labels jumps stop := by
  induction h with
  | root jumps h => exact .root jumps (h.append more)
  | label h rest ih => exact .label (h.append more) ih
  | pointer hsmall h rest ih => exact .pointer hsmall (h.append more) ih

theorem mono (h : NameAt buf pos labels jumps stop) {jumps' : Nat} (hle : jumps ≤ jumps') :
    NameAt buf pos labels jumps' stop := by
  induction h generalizing jumps' with
  | root jumps h => exact .root jumps' h
  | label h rest ih => exact .label h (ih hle)
  | @pointer _ _ jumps _ _ hsmall h rest ih =>
    obtain ⟨jumps'', rfl⟩ : ∃ n, jumps' = n + 1 := ⟨jumps' - 1, by omega⟩
    exact .pointer hsmall h (ih (by omega))

end NameAt

/-! ## Reading a name -/

theorem and_mask : ∀ n < 256, n &&& 192 = 192 ↔ 192 ≤ n := by decide +kernel

theorem isPointer_iff (len : UInt8) : len &&& 0xC0 = 0xC0 ↔ 192 ≤ len.toNat := by
  rw [← UInt8.toNat_inj, UInt8.toNat_and]
  exact and_mask len.toNat len.toNat_lt

theorem toNat_pointer (len low : UInt8) :
    (((len.toUInt16 &&& 0x3F) <<< 8) ||| low.toUInt16).toNat =
      len.toNat % 64 * 256 + low.toNat := by
  have hlow := low.toNat_lt
  have hmask : (len.toUInt16 &&& 0x3F).toNat = len.toNat % 64 := by
    rw [UInt16.toNat_and, UInt8.toNat_toUInt16]
    exact Nat.and_two_pow_sub_one_eq_mod len.toNat 6
  have hshift : ((len.toUInt16 &&& 0x3F) <<< 8).toNat = len.toNat % 64 * 2 ^ 8 := by
    rw [UInt16.toNat_shiftLeft, hmask, Nat.shiftLeft_eq]
    show len.toNat % 64 * 2 ^ 8 % 2 ^ 16 = _
    omega
  rw [UInt16.toNat_or, hshift, UInt8.toNat_toUInt16, ← Nat.shiftLeft_eq,
    ← Nat.shiftLeft_add_eq_or_of_lt hlow, Nat.shiftLeft_eq]

/-- What the loop makes of the name so far and of further labels. -/
def joinLabels (name : Name) (labels : List Name) : Name :=
  labels.foldl (fun name label => (if name ≠ [] then name ++ ['.'] else name) ++ label) name

theorem joinLabels_of_ne_nil {name : Name} (hne : name ≠ []) {labels : List Name}
    (hlabels : labels ≠ []) : joinLabels name labels = name ++ '.' :: dotted labels := by
  induction labels generalizing name with
  | nil => exact absurd rfl hlabels
  | cons label labels ih =>
    unfold joinLabels
    rw [List.foldl_cons, if_pos hne]
    by_cases hnil : labels = []
    · rw [hnil, dotted_singleton]
      simp
    · have hne' : name ++ ['.'] ++ label ≠ [] := by simp
      have hrest := ih hne' hnil
      unfold joinLabels at hrest
      rw [hrest, dotted_cons label hnil]
      simp

theorem joinLabels_nil {labels : List Name} (h : AreLabels labels) :
    joinLabels [] labels = dotted labels := by
  cases labels with
  | nil => exact absurd rfl h.nonempty
  | cons label labels =>
    show joinLabels label labels = _
    by_cases hnil : labels = []
    · rw [hnil, dotted_singleton]
      rfl
    · rw [joinLabels_of_ne_nil (h.label label List.mem_cons_self).nonempty hnil,
        dotted_cons label hnil]

/-- **A name is read**, as long as there are steps for its jumps. -/
theorem nameLoop_of_nameAt {buf : List UInt8} {pos jumps stop : Nat} {labels : List Name}
    (h : NameAt buf pos labels jumps stop) (hlabels : ∀ label ∈ labels, IsLabel label)
    (name : Name) (jumped : Bool) (jumpEnd steps : Nat) (hsteps : steps + jumps ≤ 20) :
    nameLoop buf name pos jumped jumpEnd steps =
      .ok (joinLabels name labels ++ ['.'], if jumped then jumpEnd else stop) := by
  induction h generalizing name jumped jumpEnd steps with
  | @root pos jumps h =>
    have hle := h.length_le (by simp)
    rw [nameLoop, if_neg (by simp at hle; omega), h.index, ok_bind, if_neg (by decide),
      if_pos rfl]
    rfl
  | @label pos jumps stop label labels h rest ih =>
    have hlabel := hlabels label List.mem_cons_self
    have hshort := hlabel.short
    have hne : toUtf8 label ≠ [] := toUtf8_ne_nil hlabel.nonempty
    have hpos := List.length_pos_iff.mpr hne
    have hle := h.length_le (by simp)
    have hlen : (UInt8.ofNat (toUtf8 label).length).toNat = (toUtf8 label).length := by
      rw [UInt8.toNat_ofNat']
      omega
    have hlow : ¬UInt8.ofNat (toUtf8 label).length &&& 0xC0 = 0xC0 := by
      rw [isPointer_iff, hlen]
      omega
    have hnonzero : UInt8.ofNat (toUtf8 label).length ≠ 0 := by
      intro hzero
      rw [hzero] at hlen
      exact absurd hlen (by simp; omega)
    rw [List.length_cons] at hle
    rw [nameLoop, if_neg (by omega), h.index, ok_bind, if_neg hlow, if_neg hnonzero, hlen,
      if_neg (by omega)]
    rw [h.tail.slice hne rfl, ok_bind, fromUtf8_toUtf8]
    exact ih (fun l hl => hlabels l (List.mem_cons_of_mem label hl)) _ jumped jumpEnd steps hsteps
  | @pointer pos target jumps stop labels hsmall h rest ih =>
    have hle := h.length_le (by simp [BigEndian.toBytes])
    rw [BigEndian.length_toBytes] at hle
    have hbytes : BigEndian.toBytes 2 (0xC000 + target) =
        [UInt8.ofNat ((0xC000 + target) / 256), UInt8.ofNat (0xC000 + target)] := rfl
    rw [hbytes] at h
    have hhigh : (UInt8.ofNat ((0xC000 + target) / 256)).toNat = 192 + target / 256 := by
      rw [UInt8.toNat_ofNat']
      omega
    have hlow : (UInt8.ofNat (0xC000 + target)).toNat = target % 256 := by
      rw [UInt8.toNat_ofNat']
      omega
    have hmark : UInt8.ofNat ((0xC000 + target) / 256) &&& 0xC0 = 0xC0 := by
      rw [isPointer_iff, hhigh]
      omega
    have htarget : (192 + target / 256) % 64 * 256 + target % 256 = target := by omega
    rw [nameLoop, if_neg (by omega), h.index, ok_bind, if_pos hmark, if_neg (by omega),
      h.tail.index, ok_bind, toNat_pointer, hhigh, hlow, htarget]
    dsimp only
    rw [if_neg (by omega), ih hlabels name true _ (steps + 1) (by omega)]
    cases jumped <;> rfl

theorem parseName_of_nameAt {buf : List UInt8} {pos jumps stop : Nat} {labels : List Name}
    (h : NameAt buf pos labels jumps stop) (hlabels : AreLabels labels) (hjumps : jumps ≤ 20) :
    parseName buf pos = .ok (fqdn labels, stop) := by
  unfold parseName fqdn
  rw [nameLoop_of_nameAt h hlabels.label [] false pos 0 (by omega), joinLabels_nil hlabels]
  rfl

/-! ## Writing a name -/

/-- What is written of the labels after suffixes that `comp` knows. -/
def nameBytes (comp : NameCompressor) : List Name → List UInt8
  | [] => [0]
  | label :: labels =>
    match comp.lookup (fqdn (label :: labels)) with
    | some off => BigEndian.toBytes 2 (0xC000 ||| (off &&& 0x3FFF)).toNat
    | none => UInt8.ofNat (toUtf8 label).length :: toUtf8 label ++ nameBytes comp labels

/-- What is remembered of the labels when they are written after `length` bytes. -/
def rememberAll (known : NameCompressor) : NameCompressor → Nat → List Name → NameCompressor
  | comp, _, [] => comp
  | comp, length, label :: labels =>
    match known.lookup (fqdn (label :: labels)) with
    | some _ => comp
    | none =>
      rememberAll known
        (comp.rememberSuffix (fqdn (label :: labels)) (.ofNat length + MdnsBuilder.headerSize))
        (length + 1 + (toUtf8 label).length) labels

theorem findBest_cons (comp : NameCompressor) (label : Name) (labels : List Name) :
    comp.findBest (label :: labels) =
      match comp.lookup (fqdn (label :: labels)) with
      | some off => some (0, off)
      | none => (comp.findBest labels).map fun best => (best.1 + 1, best.2) := by
  unfold NameCompressor.findBest
  rw [List.length_cons, List.range_succ_eq_map, List.findSome?_cons, List.findSome?_map]
  have hsuffix : suffixOf (label :: labels) 0 = fqdn (label :: labels) := rfl
  rw [hsuffix]
  cases comp.lookup (fqdn (label :: labels)) with
  | some off => rfl
  | none =>
    dsimp only [Option.map_none]
    rw [List.map_findSome?]
    congr 1
    funext i
    show (comp.lookup (suffixOf labels i)).map _ =
      ((comp.lookup (suffixOf labels i)).map _).map _
    rw [Option.map_map]
    rfl

theorem writeLabels_cons (b : MdnsBuilder) (label : Name) (labels : List Name)
    (best : Option (Nat × UInt16)) :
    b.writeLabels (label :: labels) (best.map fun best => (best.1 + 1, best.2)) =
      (MdnsBuilder.writeLabel (label :: labels) b 0).writeLabels labels best := by
  have hloop : ∀ n, (List.range (n + 1)).foldl (MdnsBuilder.writeLabel (label :: labels)) b =
      (List.range n).foldl (MdnsBuilder.writeLabel labels)
        (MdnsBuilder.writeLabel (label :: labels) b 0) := by
    intro n
    rw [List.range_succ_eq_map, List.foldl_cons, List.foldl_map]
    rfl
  unfold MdnsBuilder.writeLabels
  cases best with
  | none =>
    dsimp only [Option.map_none, Option.getD_none]
    rw [List.length_cons, hloop]
  | some best =>
    dsimp only [Option.map_some, Option.getD_some]
    rw [hloop]

theorem writeLabels_eq (known : NameCompressor) (b : MdnsBuilder) (labels : List Name) :
    b.writeLabels labels (known.findBest labels) =
      { b with
        msg := b.msg ++ nameBytes known labels
        comp := rememberAll known b.comp b.msg.length labels } := by
  induction labels generalizing b with
  | nil => rfl
  | cons label labels ih =>
    rw [findBest_cons]
    unfold nameBytes rememberAll
    cases known.lookup (fqdn (label :: labels)) with
    | some off => rfl
    | none =>
      dsimp only
      rw [writeLabels_cons, ih]
      unfold MdnsBuilder.writeLabel MdnsBuilder.extend
      dsimp only
      have hlabel : (label :: labels)[0]?.getD [] = label := rfl
      have hsuffix : suffixOf (label :: labels) 0 = fqdn (label :: labels) := rfl
      rw [hlabel, hsuffix, List.length_append, List.length_append, List.length_singleton,
        List.append_assoc, List.append_assoc]
      rfl

/-- **A name is written** after what the builder has. -/
theorem writeName_eq (b : MdnsBuilder) {labels : List Name} (h : AreLabels labels) :
    b.writeName (fqdn labels) =
      { b with
        msg := b.msg ++ nameBytes b.comp labels
        comp := rememberAll b.comp b.comp b.msg.length labels } := by
  unfold MdnsBuilder.writeName
  dsimp only
  rw [labels_fqdn h]
  exact writeLabels_eq b.comp b labels

/-- A name that is known is one pointer. -/
theorem rememberAll_of_known {comp : NameCompressor} {labels : List Name}
    (h : (comp.lookup (fqdn labels)).isSome) (hne : labels ≠ []) (length : Nat) :
    rememberAll comp comp length labels = comp := by
  cases labels with
  | nil => exact absurd rfl hne
  | cons label labels =>
    obtain ⟨off, hoff⟩ := Option.isSome_iff_exists.mp h
    unfold rememberAll
    rw [hoff]

/-! ## The table of suffixes -/

/-- **The table is right**: each suffix is read at its offset with that many jumps at most. -/
def Table (buf : List UInt8) (jumps : Nat) (comp : NameCompressor) : Prop :=
  ∀ suffix off, comp.lookup suffix = some off → ∃ labels, AreLabels labels ∧
    suffix = fqdn labels ∧ off.toNat < 2 ^ 14 ∧ ∃ stop, NameAt buf off.toNat labels jumps stop

namespace Table

variable {buf : List UInt8} {jumps : Nat} {comp : NameCompressor}

theorem empty : Table buf jumps ∅ := by
  intro suffix off h
  rw [Finmap.lookup_empty] at h
  cases h

theorem append (h : Table buf jumps comp) (more : List UInt8) : Table (buf ++ more) jumps comp := by
  intro suffix off hoff
  obtain ⟨labels, hlabels, heq, hsmall, stop, hname⟩ := h suffix off hoff
  exact ⟨labels, hlabels, heq, hsmall, stop, hname.append more⟩

theorem mono (h : Table buf jumps comp) {jumps' : Nat} (hle : jumps ≤ jumps') :
    Table buf jumps' comp := by
  intro suffix off hoff
  obtain ⟨labels, hlabels, heq, hsmall, stop, hname⟩ := h suffix off hoff
  exact ⟨labels, hlabels, heq, hsmall, stop, hname.mono hle⟩

theorem rememberSuffix (h : Table buf jumps comp) {labels : List Name} (hlabels : AreLabels labels)
    {off : UInt16} (hsmall : off.toNat < 2 ^ 14) {stop : Nat}
    (hname : NameAt buf off.toNat labels jumps stop) :
    Table buf jumps (comp.rememberSuffix (fqdn labels) off) := by
  intro suffix off' hoff
  unfold NameCompressor.rememberSuffix at hoff
  split at hoff
  · exact h suffix off' hoff
  · by_cases heq : suffix = fqdn labels
    · rw [heq, Finmap.lookup_insert] at hoff
      obtain rfl := Option.some.inj hoff
      exact ⟨labels, hlabels, heq, hsmall, stop, hname⟩
    · rw [Finmap.lookup_insert_of_ne _ heq] at hoff
      exact h suffix off' hoff

end Table

theorem toNat_pointerTo {off : UInt16} (h : off.toNat < 2 ^ 14) :
    (0xC000 ||| (off &&& 0x3FFF)).toNat = 0xC000 + off.toNat := by
  have hmask : (off &&& 0x3FFF).toNat = off.toNat := by
    rw [UInt16.toNat_and]
    show off.toNat &&& (2 ^ 14 - 1) = _
    rw [Nat.and_two_pow_sub_one_eq_mod, Nat.mod_eq_of_lt h]
  rw [UInt16.toNat_or, hmask]
  show (3 * 2 ^ 14) ||| off.toNat = _
  rw [← Nat.shiftLeft_eq, ← Nat.shiftLeft_add_eq_or_of_lt h]
  rfl

/-- **A name that was written is read**, with one jump more than the suffix it ends in. -/
theorem nameAt_of_nameBytes {buf : List UInt8} {jumps pos : Nat} {known : NameCompressor}
    (htable : Table buf jumps known) {labels : List Name}
    (hlabels : ∀ label ∈ labels, IsLabel label)
    (h : Holds buf pos (nameBytes known labels)) :
    NameAt buf pos labels (jumps + 1) (pos + (nameBytes known labels).length) := by
  induction labels generalizing pos with
  | nil => exact .root _ h
  | cons label labels ih =>
    have hall : AreLabels (label :: labels) := ⟨by simp, hlabels⟩
    unfold nameBytes at h ⊢
    cases hoff : known.lookup (fqdn (label :: labels)) with
    | some off =>
      rw [hoff] at h
      dsimp only at h ⊢
      obtain ⟨labels', hlabels', heq, hsmall, stop, hname⟩ := htable _ off hoff
      obtain rfl := fqdn_inj hall hlabels' heq
      rw [toNat_pointerTo hsmall] at h
      exact .pointer hsmall h hname
    | none =>
      rw [hoff] at h
      dsimp only at h ⊢
      have hrest := ih (fun l hl => hlabels l (List.mem_cons_of_mem label hl)) h.right
      have hstop : pos + (UInt8.ofNat (toUtf8 label).length :: toUtf8 label ++
          nameBytes known labels).length =
            pos + (UInt8.ofNat (toUtf8 label).length :: toUtf8 label).length +
              (nameBytes known labels).length := by
        rw [List.length_append, Nat.add_assoc]
      rw [hstop]
      refine .label h.left ?_
      have hpos : pos + (UInt8.ofNat (toUtf8 label).length :: toUtf8 label).length =
          pos + 1 + (toUtf8 label).length := by
        rw [List.length_cons]
        omega
      rw [hpos] at hrest ⊢
      exact hrest

/-- **The table stays right** when a name is written. -/
theorem Table.rememberAll {buf : List UInt8} {jumps length : Nat} {known comp : NameCompressor}
    (hknown : Table buf jumps known) (hcomp : Table buf (jumps + 1) comp) {labels : List Name}
    (hlabels : ∀ label ∈ labels, IsLabel label)
    (h : Holds buf (length + 12) (nameBytes known labels))
    (hsmall : length + 12 + (nameBytes known labels).length ≤ 2 ^ 14) :
    Table buf (jumps + 1) (Analysis.Bonjour.rememberAll known comp length labels) := by
  induction labels generalizing length comp with
  | nil => exact hcomp
  | cons label labels ih =>
    have hall : AreLabels (label :: labels) := ⟨by simp, hlabels⟩
    have hname := nameAt_of_nameBytes hknown hlabels h
    unfold nameBytes at h hsmall
    unfold Analysis.Bonjour.rememberAll
    cases hoff : known.lookup (fqdn (label :: labels)) with
    | some off => exact hcomp
    | none =>
      rw [hoff] at h hsmall
      dsimp only at h hsmall ⊢
      rw [List.length_append, List.length_cons] at hsmall
      have hoffset : (UInt16.ofNat length + MdnsBuilder.headerSize).toNat = length + 12 := by
        rw [UInt16.toNat_add, UInt16.toNat_ofNat']
        show (length % 2 ^ 16 + 12) % 2 ^ 16 = _
        omega
      apply ih
      · rw [← hoffset] at hname
        exact hcomp.rememberSuffix hall (by omega) hname
      · exact fun l hl => hlabels l (List.mem_cons_of_mem label hl)
      · have hpos : length + 1 + (toUtf8 label).length + 12 =
            length + 12 + (UInt8.ofNat (toUtf8 label).length :: toUtf8 label).length := by
          rw [List.length_cons]
          omega
        rw [hpos]
        exact h.right
      · omega

/-- What is known stays known. -/
theorem isSome_rememberAll {known comp : NameCompressor} {suffix : Name}
    (h : (comp.lookup suffix).isSome) (length : Nat) (labels : List Name) :
    ((rememberAll known comp length labels).lookup suffix).isSome := by
  induction labels generalizing comp length with
  | nil => exact h
  | cons label labels ih =>
    unfold rememberAll
    cases known.lookup (fqdn (label :: labels)) with
    | some off => exact h
    | none =>
      apply ih
      unfold NameCompressor.rememberSuffix
      split
      · exact h
      · by_cases heq : suffix = fqdn (label :: labels)
        · rw [heq, Finmap.lookup_insert]
          rfl
        · rw [Finmap.lookup_insert_of_ne _ heq]
          exact h

/-- A name that was written is known. -/
theorem known_rememberAll (comp : NameCompressor) {labels : List Name} (hne : labels ≠ [])
    (length : Nat) : ((rememberAll comp comp length labels).lookup (fqdn labels)).isSome := by
  cases labels with
  | nil => exact absurd rfl hne
  | cons label labels =>
    unfold rememberAll
    cases hoff : comp.lookup (fqdn (label :: labels)) with
    | some off =>
      dsimp only
      rw [hoff]
      rfl
    | none =>
      apply isSome_rememberAll
      unfold NameCompressor.rememberSuffix
      rw [if_neg (Finmap.lookup_eq_none.mp hoff), Finmap.lookup_insert]
      rfl

end Catplay.Analysis.Bonjour
