import Catplay.Model.Fb.FontRenderer

/-!
# Text and the edges of the surface

A text puts glyphs at positions, and their pixels with coverage are the cells it covers. Drawing goes
through the cells in order and blends those whose index is one of the pixels (`drawText_ok_iff`). A
cell behind the right edge has the index of a pixel of a later row: the text is clipped exactly where
no cell does so and no position overflows (`drawText_clipped_iff`).
-/

set_option autoImplicit false

namespace Catplay.Analysis.Fb.Text

open Catplay.Library.Checked Catplay.Model.Fb.Text

/-! ## The cells of a text -/

/-- A pixel of a glyph with coverage. -/
structure Cell where
  x : Int
  y : Int
  cov : UInt8
  covered : cov ≠ 0

/-- A glyph and the position of its bitmap. -/
structure Placed (F : Type) where
  x : Int
  y : Int
  glyph : CachedGlyph F

variable {F : Type}

def Placed.cell? (p : Placed F) (y x : Nat) : Option Cell :=
  let cov := p.glyph.bitmap.getD (y * p.glyph.width + x) 0
  if h : cov = 0 then none else some ⟨p.x + x, p.y + y, cov, h⟩

def Placed.cells (p : Placed F) : List Cell :=
  (List.range p.glyph.height).flatMap fun y => (List.range p.glyph.width).filterMap (p.cell? y)

/-- The glyph that the renderer has for an id. -/
def glyphOf (renderer : FontRenderer F) (gid : UInt16) : Option (CachedGlyph F) :=
  match renderer.glyphCache gid with
  | some glyph => some glyph
  | none => renderer.font.outline gid

section placements

variable [F32 F]

/-- **The glyphs of a text**, from the pen and the character before it. -/
def placements (font : Font F) (glyph : UInt16 → Option (CachedGlyph F)) (baseline : F) :
    F → Option UInt16 → List Char → List (Placed F)
  | _, _, [] => []
  | penX, prev, ch :: text =>
    let gid := font.glyphId ch
    let penX := kerned font penX prev gid
    match glyph gid with
    | none => placements font glyph baseline (F32.add penX (font.hAdvance gid)) (some gid) text
    | some g =>
      ⟨F32.toI32 penX + g.offsetX, F32.toI32 baseline + g.offsetY, g⟩ ::
        placements font glyph baseline (F32.add penX g.advanceX) (some gid) text

def textPlacements (renderer : FontRenderer F) (x y : F) (text : List Char) : List (Placed F) :=
  placements renderer.font (glyphOf renderer) (F32.round (F32.add y renderer.font.ascent))
    (F32.round x) none text

/-- **The cells that a text covers**, in the order of its glyphs. -/
def textCells (renderer : FontRenderer F) (x y : F) (text : List Char) : List Cell :=
  (textPlacements renderer x y text).flatMap Placed.cells

end placements

/-! ## Numbers that fit -/

def InI32 (n : Int) : Prop := -2 ^ 31 ≤ n ∧ n < 2 ^ 31

theorem i32_ok {n : Int} (h : InI32 n) : i32 n = .ok n := if_pos h

theorem inI32_of_i32 {n m : Int} (h : i32 n = .ok m) : InI32 n ∧ m = n := by
  unfold i32 at h
  split at h
  · rename_i hn
    cases h
    exact ⟨hn, rfl⟩
  · cases h

/-- The positions of a glyph and the indices of its bitmap are of type `i32`. -/
structure Fits (p : Placed F) : Prop where
  indices : p.glyph.width * p.glyph.height ≤ 2 ^ 31
  x : InI32 p.x
  y : InI32 p.y
  cells : ∀ c ∈ p.cells, InI32 c.x ∧ InI32 c.y

/-! ## One glyph -/

section folds

variable {α β σ : Type} {l : List α} {s t : σ}

theorem foldlM_filterMap {g : σ → α → Exec Empty σ} {k : σ → β → Exec Empty σ} {f : α → Option β}
    (h : ∀ a ∈ l, ∀ s, g s a = match f a with | none => .ok s | some b => k s b) :
    l.foldlM g s = (l.filterMap f).foldlM k s := by
  induction l generalizing s with
  | nil => rfl
  | cons a l ih =>
    have hrest : ∀ s, l.foldlM g s = (l.filterMap f).foldlM k s :=
      fun s => ih fun b hb => h b (List.mem_cons_of_mem a hb)
    rw [List.foldlM_cons, h a List.mem_cons_self]
    cases hf : f a with
    | none =>
      rw [List.filterMap_cons_none hf]
      exact hrest s
    | some b =>
      rw [List.filterMap_cons_some hf, List.foldlM_cons]
      exact bind_congr fun s => hrest s

theorem foldlM_flatMap {g : σ → α → Exec Empty σ} {k : σ → β → Exec Empty σ} {f : α → List β}
    (h : ∀ a ∈ l, ∀ s, g s a = (f a).foldlM k s) :
    l.foldlM g s = (l.flatMap f).foldlM k s := by
  induction l generalizing s with
  | nil => rfl
  | cons a l ih =>
    have hrest : ∀ s, l.foldlM g s = (l.flatMap f).foldlM k s :=
      fun s => ih fun b hb => h b (List.mem_cons_of_mem a hb)
    rw [List.foldlM_cons, h a List.mem_cons_self, List.flatMap_cons, List.foldlM_append]
    exact bind_congr fun s => hrest s

/-- A loop that ends has gone through every round. -/
theorem foldlM_ok_forall {g : σ → α → Exec Empty σ} (h : l.foldlM g s = .ok t) :
    ∀ a ∈ l, ∃ before after, g before a = .ok after := by
  induction l generalizing s with
  | nil => exact nofun
  | cons a l ih =>
    rw [List.foldlM_cons] at h
    obtain ⟨mid, hmid, hrest⟩ := bind_eq_ok.mp h
    intro b hb
    rcases List.mem_cons.mp hb with rfl | hb
    · exact ⟨s, mid, hmid⟩
    · exact ih hrest b hb

end folds

/-- The drawing with one more cell. -/
def paintCell (drawing : Drawing) (c : Cell) : Drawing := paint drawing c.x c.y c.cov

/-- The same where the position has to fit. -/
def paintChecked (drawing : Drawing) (c : Cell) : Exec Empty Drawing := do
  let px ← i32 c.x
  let py ← i32 c.y
  .ok (paint drawing px py c.cov)

theorem foldlM_paintChecked {cells : List Cell} {drawing : Drawing}
    (h : ∀ c ∈ cells, InI32 c.x ∧ InI32 c.y) :
    cells.foldlM paintChecked drawing = .ok (cells.foldl paintCell drawing) := by
  induction cells generalizing drawing with
  | nil => rfl
  | cons c cells ih =>
    obtain ⟨hx, hy⟩ := h c List.mem_cons_self
    have hone : paintChecked drawing c = .ok (paintCell drawing c) := by
      unfold paintChecked
      rw [i32_ok hx, ok_bind, i32_ok hy, ok_bind]
      rfl
    rw [List.foldlM_cons, hone, ok_bind]
    exact ih fun d hd => h d (List.mem_cons_of_mem c hd)

theorem inI32_of_paintChecked {c : Cell} {before after : Drawing}
    (h : paintChecked before c = .ok after) : InI32 c.x ∧ InI32 c.y := by
  obtain ⟨px, hpx, h⟩ := bind_eq_ok.mp h
  obtain ⟨py, hpy, -⟩ := bind_eq_ok.mp h
  exact ⟨(inI32_of_i32 hpx).1, (inI32_of_i32 hpy).1⟩

/-- **One round** paints the cell, if there is coverage. -/
theorem blitPixel_eq {p : Placed F} (hindices : p.glyph.width * p.glyph.height ≤ 2 ^ 31) {y x : Nat}
    (hy : y < p.glyph.height) (hx : x < p.glyph.width) (drawing : Drawing) :
    blitPixel p.x p.y p.glyph y drawing x =
      match p.cell? y x with
      | none => .ok drawing
      | some c => paintChecked drawing c := by
  have hrow : y * p.glyph.width + x < p.glyph.width * p.glyph.height := by
    calc y * p.glyph.width + x
        < y * p.glyph.width + p.glyph.width := Nat.add_lt_add_left hx _
      _ = (y + 1) * p.glyph.width := (Nat.succ_mul y _).symm
      _ ≤ p.glyph.height * p.glyph.width := Nat.mul_le_mul_right _ hy
      _ = p.glyph.width * p.glyph.height := Nat.mul_comm _ _
  have hcast : ((y * p.glyph.width : Nat) : Int) + x = ((y * p.glyph.width + x : Nat) : Int) := by
    push_cast
    rfl
  have hbound : y * p.glyph.width + x < p.glyph.bitmap.length := by
    rw [p.glyph.size]
    exact hrow
  have hindex : (index p.glyph.bitmap (y * p.glyph.width + x) : Exec Empty UInt8) =
      .ok (p.glyph.bitmap.getD (y * p.glyph.width + x) 0) := by
    unfold index
    rw [List.getD_eq_getElem?_getD, List.getElem?_eq_getElem hbound]
    rfl
  unfold blitPixel Placed.cell?
  rw [← Int.natCast_mul, i32_ok ⟨by omega, by omega⟩, ok_bind, hcast, i32_ok ⟨by omega, by omega⟩,
    ok_bind, Int.toNat_natCast, hindex, ok_bind]
  dsimp only
  split
  · rfl
  · rfl

/-- **A glyph** whose positions fit. -/
theorem blitGlyph_eq {p : Placed F} (hindices : p.glyph.width * p.glyph.height ≤ 2 ^ 31)
    (drawing : Drawing) :
    blitGlyph drawing p.x p.y p.glyph = p.cells.foldlM paintChecked drawing := by
  unfold blitGlyph Placed.cells
  refine foldlM_flatMap fun y hy s => foldlM_filterMap fun x hx s => ?_
  rw [blitPixel_eq hindices (List.mem_range.mp hy) (List.mem_range.mp hx) s]
  cases p.cell? y x <;> rfl

/-- A glyph that is gone through has indices that fit: the last one is the largest. -/
theorem indices_of_blitGlyph {p : Placed F} {before after : Drawing}
    (h : blitGlyph before p.x p.y p.glyph = .ok after) :
    p.glyph.width * p.glyph.height ≤ 2 ^ 31 := by
  by_contra hmany
  have hwidth : p.glyph.width ≠ 0 := fun hzero => hmany (by rw [hzero, Nat.zero_mul]; decide)
  have hheight : p.glyph.height ≠ 0 := fun hzero => hmany (by rw [hzero, Nat.mul_zero]; decide)
  obtain ⟨s, t, hrow⟩ := foldlM_ok_forall h (p.glyph.height - 1) (List.mem_range.mpr (by omega))
  obtain ⟨s', t', hpixel⟩ := foldlM_ok_forall hrow (p.glyph.width - 1)
    (List.mem_range.mpr (by omega))
  obtain ⟨row, hrow, hpixel⟩ := bind_eq_ok.mp hpixel
  obtain ⟨i, hi, -⟩ := bind_eq_ok.mp hpixel
  obtain ⟨-, rfl⟩ := inI32_of_i32 hrow
  obtain ⟨⟨-, hlast⟩, -⟩ := inI32_of_i32 hi
  have hproduct : p.glyph.width * p.glyph.height =
      (p.glyph.height - 1) * p.glyph.width + p.glyph.width := by
    rw [← Nat.succ_mul, Nat.succ_eq_add_one, Nat.sub_add_cancel (by omega), Nat.mul_comm]
  have hcast : ((p.glyph.height - 1 : Nat) : Int) * p.glyph.width =
      (((p.glyph.height - 1) * p.glyph.width : Nat) : Int) := by
    push_cast
    rfl
  rw [hcast] at hlast
  omega

/-- **Drawing a glyph** ends exactly where its positions fit, and paints its cells in order. -/
theorem blitGlyph_ok_iff {p : Placed F} (hx : InI32 p.x) (hy : InI32 p.y) {before after : Drawing} :
    blitGlyph before p.x p.y p.glyph = .ok after ↔
      Fits p ∧ after = p.cells.foldl paintCell before := by
  constructor
  · intro h
    have hindices := indices_of_blitGlyph h
    rw [blitGlyph_eq hindices] at h
    have hcells : ∀ c ∈ p.cells, InI32 c.x ∧ InI32 c.y := by
      intro c hc
      obtain ⟨s, t, hst⟩ := foldlM_ok_forall h c hc
      exact inI32_of_paintChecked hst
    rw [foldlM_paintChecked hcells] at h
    cases h
    exact ⟨⟨hindices, hx, hy, hcells⟩, rfl⟩
  · rintro ⟨hfits, rfl⟩
    rw [blitGlyph_eq hfits.indices, foldlM_paintChecked hfits.cells]

/-! ## The characters -/

theorem cacheGlyph_fst (renderer : FontRenderer F) (gid : UInt16) :
    (renderer.cacheGlyph gid).1 = glyphOf renderer gid := by
  unfold FontRenderer.cacheGlyph glyphOf
  cases renderer.glyphCache gid with
  | some glyph => rfl
  | none => cases renderer.font.outline gid <;> rfl

/-- A glyph that is cached is the one that there was. -/
theorem cacheGlyph_snd (renderer : FontRenderer F) (gid : UInt16) :
    (renderer.cacheGlyph gid).2.font = renderer.font ∧
      glyphOf (renderer.cacheGlyph gid).2 = glyphOf renderer := by
  unfold FontRenderer.cacheGlyph
  cases hcache : renderer.glyphCache gid with
  | some glyph => exact ⟨rfl, rfl⟩
  | none =>
    cases houtline : renderer.font.outline gid with
    | none => exact ⟨rfl, rfl⟩
    | some glyph =>
      refine ⟨rfl, funext fun id => ?_⟩
      unfold glyphOf
      dsimp only
      by_cases hid : id = gid
      · rw [if_pos hid, hid, hcache]
        exact houtline.symm
      · rw [if_neg hid]

variable [F32 F]

/-- **The loop over the characters** ends exactly where all positions fit, and paints the cells of
all glyphs in order. -/
theorem drawChars_ok_iff {baseline penX : F} {prev : Option UInt16} {text : List Char}
    {renderer : FontRenderer F} {before after : Drawing} :
    (∃ renderer', drawChars baseline renderer penX prev before text = .ok (renderer', after)) ↔
      (∀ p ∈ placements renderer.font (glyphOf renderer) baseline penX prev text, Fits p) ∧
        after = ((placements renderer.font (glyphOf renderer) baseline penX prev text).flatMap
          Placed.cells).foldl paintCell before := by
  induction text generalizing renderer penX prev before with
  | nil =>
    constructor
    · rintro ⟨_, ⟨⟩⟩
      exact ⟨fun p hp => absurd hp List.not_mem_nil, rfl⟩
    · rintro ⟨-, rfl⟩
      exact ⟨renderer, rfl⟩
  | cons ch text ih =>
    unfold drawChars placements
    dsimp only
    generalize kerned renderer.font penX prev (renderer.font.glyphId ch) = pen
    generalize renderer.font.glyphId ch = gid
    obtain ⟨hfont, hglyphs⟩ := cacheGlyph_snd renderer gid
    have hfirst := cacheGlyph_fst renderer gid
    generalize hcached : renderer.cacheGlyph gid = cached at hfont hglyphs hfirst
    obtain ⟨glyph?, renderer'⟩ := cached
    dsimp only at hfont hglyphs hfirst
    rw [← hfirst]
    cases glyph? with
    | none =>
      dsimp only
      rw [ih, hfont, hglyphs]
    | some glyph =>
      dsimp only
      rw [List.flatMap_cons, List.foldl_append, List.forall_mem_cons]
      constructor
      · rintro ⟨renderer'', h⟩
        obtain ⟨drawX, hdrawX, h⟩ := bind_eq_ok.mp h
        obtain ⟨drawY, hdrawY, h⟩ := bind_eq_ok.mp h
        obtain ⟨mid, hmid, h⟩ := bind_eq_ok.mp h
        obtain ⟨hx, rfl⟩ := inI32_of_i32 hdrawX
        obtain ⟨hy, rfl⟩ := inI32_of_i32 hdrawY
        obtain ⟨hfits, rfl⟩ := (blitGlyph_ok_iff (p := ⟨_, _, glyph⟩) hx hy).mp hmid
        obtain ⟨hrest, rfl⟩ := ih.mp ⟨renderer'', h⟩
        rw [hfont, hglyphs] at hrest ⊢
        exact ⟨⟨hfits, hrest⟩, rfl⟩
      · rintro ⟨⟨hfits, hrest⟩, hafter⟩
        rw [← hfont, ← hglyphs] at hrest hafter
        obtain ⟨renderer'', h⟩ := ih.mpr ⟨hrest, hafter⟩
        refine ⟨renderer'', ?_⟩
        rw [i32_ok hfits.x, ok_bind, i32_ok hfits.y, ok_bind,
          (blitGlyph_ok_iff (p := ⟨_, _, glyph⟩) hfits.x hfits.y).mpr ⟨hfits, rfl⟩, ok_bind]
        exact h

/-! ## The pixels -/

/-- The index of a cell is one of the pixels. -/
def Drawn (surface : Surface) (c : Cell) : Prop :=
  0 ≤ c.x ∧ 0 ≤ c.y ∧ c.y.toNat * surface.width + c.x.toNat < surface.width * surface.height

instance (surface : Surface) (c : Cell) : Decidable (Drawn surface c) := by
  unfold Drawn
  infer_instance

/-- The cell is drawn to the pixel of an index. -/
def Hits (surface : Surface) (i : Nat) (c : Cell) : Prop :=
  0 ≤ c.x ∧ 0 ≤ c.y ∧ c.y.toNat * surface.width + c.x.toNat = i

instance (surface : Surface) (i : Nat) (c : Cell) : Decidable (Hits surface i c) := by
  unfold Hits
  infer_instance

/-- A colour that cells are blended over, in order. -/
def blendAll (penColor : UInt32) (cells : List Cell) (dst : UInt32) : UInt32 :=
  cells.foldl (fun dst c => blendArgb dst (source penColor c.cov)) dst

/-- What is reported of the cells that are drawn. -/
def extendAll (cells : List Cell) (dirty : Option Extent) : Option Extent :=
  cells.foldl (fun dirty c => some (extend dirty c.x c.y)) dirty

/-- **The drawing behind some cells.** -/
structure Painted (before : Drawing) (cells : List Cell) (after : Drawing) : Prop where
  width : after.1.width = before.1.width
  height : after.1.height = before.1.height
  penColor : after.1.penColor = before.1.penColor
  pixels : ∀ i, after.1.pixels[i]? =
    before.1.pixels[i]?.map (blendAll before.1.penColor (cells.filter (Hits before.1 i)))
  dirty : after.2 = extendAll (cells.filter (Drawn before.1)) before.2

/-- **One cell** is blended where its index is one of the pixels. -/
theorem paintCell_spec (drawing : Drawing) (c : Cell) :
    Painted drawing [c] (paintCell drawing c) := by
  obtain ⟨surface, dirty⟩ := drawing
  unfold paintCell paint Surface.blendPixel
  dsimp only
  have hkept : ¬Drawn surface c → Painted (surface, dirty) [c] (surface, dirty) := by
    intro hdrawn
    refine ⟨rfl, rfl, rfl, fun i => ?_, ?_⟩
    · have hnone : i < surface.pixels.length → [c].filter (Hits surface i) = [] := by
        intro hi
        rw [surface.size] at hi
        refine List.filter_cons_of_neg fun hhits => hdrawn ?_
        obtain ⟨hx, hy, rfl⟩ := of_decide_eq_true hhits
        exact ⟨hx, hy, hi⟩
      cases hi : surface.pixels[i]? with
      | none => rfl
      | some dst =>
        rw [hnone (List.getElem?_eq_some_iff.mp hi).1]
        rfl
    · rw [List.filter_cons_of_neg (by simpa using hdrawn)]
      rfl
  by_cases hneg : c.x < 0 ∨ c.y < 0
  · rw [if_pos hneg]
    refine hkept fun hdrawn => ?_
    obtain ⟨hx, hy, -⟩ := hdrawn
    omega
  · rw [if_neg hneg, if_neg c.covered]
    cases hdst : surface.pixels[c.y.toNat * surface.width + c.x.toNat]? with
    | none =>
      refine hkept fun hdrawn => ?_
      have hout := List.getElem?_eq_none_iff.mp hdst
      rw [surface.size] at hout
      exact absurd hdrawn.2.2 (Nat.not_lt_of_le hout)
    | some dst =>
      obtain ⟨hin, -⟩ := List.getElem?_eq_some_iff.mp hdst
      have hdrawn : Drawn surface c := ⟨by omega, by omega, surface.size ▸ hin⟩
      refine ⟨rfl, rfl, rfl, fun i => ?_, ?_⟩
      · show (surface.pixels.set _ _)[i]? = _
        by_cases hi : c.y.toNat * surface.width + c.x.toNat = i
        · have hhits : [c].filter (fun d => decide (Hits surface i d)) = [c] :=
            List.filter_cons_of_pos (decide_eq_true ⟨hdrawn.1, hdrawn.2.1, hi⟩)
          rw [hhits, ← hi, List.getElem?_set_self hin, hdst]
          rfl
        · rw [List.getElem?_set_ne hi,
            List.filter_cons_of_neg fun hhits => hi (of_decide_eq_true hhits).2.2]
          show _ = surface.pixels[i]?.map id
          rw [Option.map_id_fun]
          rfl
      · have hhere : [c].filter (fun d => decide (Drawn surface d)) = [c] :=
          List.filter_cons_of_pos (decide_eq_true hdrawn)
        rw [hhere]
        rfl

/-- **The cells in order.** -/
theorem foldl_paintCell_spec (drawing : Drawing) (cells : List Cell) :
    Painted drawing cells (cells.foldl paintCell drawing) := by
  induction cells generalizing drawing with
  | nil =>
    refine ⟨rfl, rfl, rfl, fun i => ?_, rfl⟩
    show _ = drawing.1.pixels[i]?.map id
    rw [Option.map_id_fun]
    rfl
  | cons c cells ih =>
    have hone := paintCell_spec drawing c
    have hrest := ih (paintCell drawing c)
    have hdrawn : Drawn (paintCell drawing c).1 = Drawn drawing.1 := by
      funext d
      unfold Drawn
      rw [hone.width, hone.height]
    have hhits : ∀ i, Hits (paintCell drawing c).1 i = Hits drawing.1 i := by
      intro i
      funext d
      unfold Hits
      rw [hone.width]
    refine ⟨hrest.width.trans hone.width, hrest.height.trans hone.height,
      hrest.penColor.trans hone.penColor, fun i => ?_, ?_⟩
    · rw [List.foldl_cons, hrest.pixels, hone.pixels, hone.penColor, Option.map_map]
      congr 1
      funext dst
      show blendAll _ _ (blendAll _ _ dst) = blendAll _ _ dst
      unfold blendAll
      rw [← List.foldl_append, show c :: cells = [c] ++ cells from rfl, List.filter_append]
      simp only [hhits]
    · rw [List.foldl_cons, hrest.dirty, hone.dirty]
      unfold extendAll
      rw [← List.foldl_append, show c :: cells = [c] ++ cells from rfl, List.filter_append]
      simp only [hdrawn]

/-! ## The rectangle -/

/-- The smallest extent of some cells. -/
structure Box (e : Extent) (cells : List Cell) : Prop where
  inside : ∀ c ∈ cells, e.minX ≤ c.x ∧ c.x ≤ e.maxX ∧ e.minY ≤ c.y ∧ c.y ≤ e.maxY
  left : ∃ c ∈ cells, c.x = e.minX
  right : ∃ c ∈ cells, c.x = e.maxX
  top : ∃ c ∈ cells, c.y = e.minY
  bottom : ∃ c ∈ cells, c.y = e.maxY

theorem box_singleton (c : Cell) : Box (extend none c.x c.y) [c] := by
  have hmem : c ∈ [c] := List.mem_singleton_self c
  refine ⟨fun d hd => ?_, ⟨c, hmem, rfl⟩, ⟨c, hmem, rfl⟩, ⟨c, hmem, rfl⟩, ⟨c, hmem, rfl⟩⟩
  rw [List.mem_singleton.mp hd]
  exact ⟨le_rfl, le_rfl, le_rfl, le_rfl⟩

theorem Box.append {e : Extent} {cells : List Cell} (h : Box e cells) (c : Cell) :
    Box (extend (some e) c.x c.y) (cells ++ [c]) := by
  have hc : c ∈ cells ++ [c] := List.mem_append_right cells (List.mem_singleton_self c)
  have hold : ∀ d ∈ cells, d ∈ cells ++ [c] := fun d hd => List.mem_append_left [c] hd
  obtain ⟨l, hl, hleft⟩ := h.left
  obtain ⟨r, hr, hright⟩ := h.right
  obtain ⟨t, ht, htop⟩ := h.top
  obtain ⟨b, hb, hbottom⟩ := h.bottom
  refine ⟨fun d hd => ?_, ?_, ?_, ?_, ?_⟩
  · unfold extend
    dsimp only
    rcases List.mem_append.mp hd with hd | hd
    · have hin := h.inside d hd
      omega
    · rw [List.mem_singleton.mp hd]
      omega
  · rcases min_choice e.minX c.x with hmin | hmin
    · exact ⟨l, hold l hl, hleft.trans hmin.symm⟩
    · exact ⟨c, hc, hmin.symm⟩
  · rcases max_choice e.maxX c.x with hmax | hmax
    · exact ⟨r, hold r hr, hright.trans hmax.symm⟩
    · exact ⟨c, hc, hmax.symm⟩
  · rcases min_choice e.minY c.y with hmin | hmin
    · exact ⟨t, hold t ht, htop.trans hmin.symm⟩
    · exact ⟨c, hc, hmin.symm⟩
  · rcases max_choice e.maxY c.y with hmax | hmax
    · exact ⟨b, hold b hb, hbottom.trans hmax.symm⟩
    · exact ⟨c, hc, hmax.symm⟩

theorem extendAll_some {e : Extent} {done cells : List Cell} (h : Box e done) :
    ∃ e', extendAll cells (some e) = some e' ∧ Box e' (done ++ cells) := by
  induction cells generalizing e done with
  | nil => exact ⟨e, rfl, by rwa [List.append_nil]⟩
  | cons c cells ih =>
    obtain ⟨e', he', hbox⟩ := ih (h.append c)
    rw [List.append_assoc] at hbox
    exact ⟨e', he', hbox⟩

/-- **What is reported** is the smallest extent of the cells that are drawn. -/
theorem extendAll_spec (cells : List Cell) :
    (cells = [] ∧ extendAll cells none = none) ∨
      ∃ e, extendAll cells none = some e ∧ Box e cells := by
  cases cells with
  | nil => exact .inl ⟨rfl, rfl⟩
  | cons c cells => exact .inr (extendAll_some (box_singleton c))

/-! ## Clipping -/

/-- The cell is inside the surface. -/
def Inside (surface : Surface) (c : Cell) : Prop :=
  0 ≤ c.x ∧ c.x < surface.width ∧ 0 ≤ c.y ∧ c.y < surface.height

instance (surface : Surface) (c : Cell) : Decidable (Inside surface c) := by
  unfold Inside
  infer_instance

/-- The cell is behind the right edge, and has the index of a pixel. -/
def Stray (surface : Surface) (c : Cell) : Prop := surface.width ≤ c.x ∧ Drawn surface c

/-- The smallest rectangle of some cells. -/
structure Bounding (rect : DirtyRect) (cells : List Cell) : Prop where
  inside : ∀ c ∈ cells, rect.x ≤ c.x ∧ c.x < rect.x + rect.w ∧
    rect.y ≤ c.y ∧ c.y < rect.y + rect.h
  left : ∃ c ∈ cells, c.x = rect.x
  right : ∃ c ∈ cells, c.x + 1 = rect.x + rect.w
  top : ∃ c ∈ cells, c.y = rect.y
  bottom : ∃ c ∈ cells, c.y + 1 = rect.y + rect.h

/-- **Clipped drawing**: every pixel has the cells at its position blended over it, in order; the
rectangle is the smallest one of the cells inside the surface, and inside it. -/
structure Clipped (before : Surface) (cells : List Cell) (after : Surface)
    (rect : Option DirtyRect) : Prop where
  width : after.width = before.width
  height : after.height = before.height
  pixel : ∀ x < before.width, ∀ y < before.height,
    after.pixels[y * before.width + x]? = before.pixels[y * before.width + x]?.map
      (blendAll before.penColor (cells.filter fun c => c.x = x ∧ c.y = y))
  clean : rect = none → ∀ c ∈ cells, ¬Inside before c
  dirty : ∀ r, rect = some r → r.x + r.w ≤ before.width ∧ r.y + r.h ≤ before.height ∧
    Bounding r (cells.filter (Inside before))

variable {surface : Surface} {c : Cell}

theorem index_lt {x y width height : Nat} (hx : x < width) (hy : y < height) :
    y * width + x < width * height := by
  calc y * width + x
      < y * width + width := Nat.add_lt_add_left hx _
    _ = (y + 1) * width := (Nat.succ_mul y _).symm
    _ ≤ height * width := Nat.mul_le_mul_right _ hy
    _ = width * height := Nat.mul_comm _ _

/-- A cell inside the surface is drawn. -/
theorem Inside.drawn (h : Inside surface c) : Drawn surface c := by
  obtain ⟨hx, hwidth, hy, hheight⟩ := h
  exact ⟨hx, hy, index_lt (by omega) (by omega)⟩

/-- A cell that is drawn is inside the surface, or it is a stray one. -/
theorem Drawn.inside (h : Drawn surface c) (hstray : ¬Stray surface c) : Inside surface c := by
  obtain ⟨hx, hy, hindex⟩ := h
  have hwidth : c.x < surface.width := by
    by_contra hbehind
    exact hstray ⟨by omega, hx, hy, hindex⟩
  refine ⟨hx, hwidth, hy, ?_⟩
  by_contra hbelow
  have hrows : surface.height * surface.width ≤ c.y.toNat * surface.width :=
    Nat.mul_le_mul_right _ (by omega)
  rw [Nat.mul_comm surface.height] at hrows
  omega

/-- The pixel that a cell inside the surface is drawn to. -/
theorem hits_iff (hstray : ¬Stray surface c) {x y : Nat} (hx : x < surface.width)
    (hy : y < surface.height) : Hits surface (y * surface.width + x) c ↔ c.x = x ∧ c.y = y := by
  constructor
  · rintro ⟨hcx, hcy, hindex⟩
    have hdrawn : Drawn surface c := ⟨hcx, hcy, hindex ▸ index_lt hx hy⟩
    obtain ⟨-, hwidth, -, -⟩ := hdrawn.inside hstray
    have hmod := congrArg (· % surface.width) hindex
    have hdiv := congrArg (· / surface.width) hindex
    rw [Nat.mul_add_mod_self_right, Nat.mul_add_mod_self_right, Nat.mod_eq_of_lt (by omega),
      Nat.mod_eq_of_lt hx] at hmod
    rw [Nat.mul_comm, Nat.mul_add_div (by omega), Nat.div_eq_of_lt (by omega), Nat.mul_comm,
      Nat.mul_add_div (by omega), Nat.div_eq_of_lt hx] at hdiv
    omega
  · rintro ⟨hcx, hcy⟩
    refine ⟨by omega, by omega, ?_⟩
    rw [hcx, hcy, Int.toNat_natCast, Int.toNat_natCast]

/-! ## The text -/

/-- The rectangle of an extent. -/
def rectOf (e : Extent) : DirtyRect where
  x := e.minX.toNat
  y := e.minY.toNat
  w := (e.maxX - e.minX + 1).toNat
  h := (e.maxY - e.minY + 1).toNat

theorem eq_rectOf {e : Extent} {r : DirtyRect} (h : toRect e = .ok r) : r = rectOf e := by
  obtain ⟨w, hw, h⟩ := bind_eq_ok.mp h
  obtain ⟨w', hw', h⟩ := bind_eq_ok.mp h
  obtain ⟨height, hh, h⟩ := bind_eq_ok.mp h
  obtain ⟨height', hh', h⟩ := bind_eq_ok.mp h
  obtain ⟨-, rfl⟩ := inI32_of_i32 hw
  obtain ⟨-, rfl⟩ := inI32_of_i32 hw'
  obtain ⟨-, rfl⟩ := inI32_of_i32 hh
  obtain ⟨-, rfl⟩ := inI32_of_i32 hh'
  cases h
  rfl

/-- **The cells inside a surface** have an extent and a rectangle. -/
theorem Box.bounding {e : Extent} {cells : List Cell} (h : Box e cells)
    (hinside : ∀ c ∈ cells, Inside surface c) :
    toRect e = .ok (rectOf e) ∧ (rectOf e).x + (rectOf e).w ≤ surface.width ∧
      (rectOf e).y + (rectOf e).h ≤ surface.height ∧ Bounding (rectOf e) cells := by
  obtain ⟨l, hl, hleft⟩ := h.left
  obtain ⟨r, hr, hright⟩ := h.right
  obtain ⟨t, ht, htop⟩ := h.top
  obtain ⟨b, hb, hbottom⟩ := h.bottom
  have hminX := (hinside l hl).1
  have hmaxX := (hinside r hr).2.1
  have hminY := (hinside t ht).2.2.1
  have hmaxY := (hinside b hb).2.2.2
  have horderX := (h.inside l hl).2.1
  have horderY := (h.inside t ht).2.2.2
  have hwidth := surface.hwidth
  have hheight := surface.hheight
  have hx : ((rectOf e).x : Int) = e.minX := Int.toNat_of_nonneg (by omega)
  have hy : ((rectOf e).y : Int) = e.minY := Int.toNat_of_nonneg (by omega)
  have hw : ((rectOf e).w : Int) = e.maxX - e.minX + 1 := Int.toNat_of_nonneg (by omega)
  have hh : ((rectOf e).h : Int) = e.maxY - e.minY + 1 := Int.toNat_of_nonneg (by omega)
  refine ⟨?_, by omega, by omega, fun c hc => ?_, ⟨l, hl, by omega⟩, ⟨r, hr, by omega⟩,
    ⟨t, ht, by omega⟩, ⟨b, hb, by omega⟩⟩
  · unfold toRect
    rw [i32_ok ⟨by omega, by omega⟩, ok_bind, i32_ok ⟨by omega, by omega⟩, ok_bind,
      i32_ok ⟨by omega, by omega⟩, ok_bind, i32_ok ⟨by omega, by omega⟩, ok_bind]
    rfl
  · have hin := h.inside c hc
    omega

/-- What `draw_text` makes of the cells that were drawn. -/
def Reported (dirty : Option Extent) (rect : Option DirtyRect) : Prop :=
  match dirty with
  | none => rect = none
  | some e => ∃ r, toRect e = .ok r ∧ rect = some r

variable {renderer : FontRenderer F} {x y : F} {text : List Char}

/-- **Drawing a text** ends exactly where all positions fit, and paints its cells in order. -/
theorem drawText_ok_iff {after : Surface} {rect : Option DirtyRect} :
    (∃ renderer', drawText renderer surface x y text = .ok (renderer', after, rect)) ↔
      (∀ p ∈ textPlacements renderer x y text, Fits p) ∧
        after = ((textCells renderer x y text).foldl paintCell (surface, none)).1 ∧
        Reported ((textCells renderer x y text).foldl paintCell (surface, none)).2 rect := by
  unfold drawText
  cases text with
  | nil =>
    constructor
    · rintro ⟨_, ⟨⟩⟩
      exact ⟨fun p hp => absurd hp List.not_mem_nil, rfl, rfl⟩
    · rintro ⟨-, rfl, hrect⟩
      obtain rfl : rect = none := hrect
      exact ⟨renderer, rfl⟩
  | cons ch text =>
    rw [if_neg (by simp)]
    unfold textCells textPlacements
    constructor
    · rintro ⟨renderer', h⟩
      obtain ⟨⟨drawn, surface', dirty⟩, hdrawn, h⟩ := bind_eq_ok.mp h
      obtain ⟨hfits, hcells⟩ := drawChars_ok_iff.mp ⟨drawn, hdrawn⟩
      rw [← hcells]
      refine ⟨hfits, ?_⟩
      cases dirty with
      | none =>
        cases h
        exact ⟨rfl, rfl⟩
      | some e =>
        obtain ⟨r, hr, h⟩ := bind_eq_ok.mp h
        cases h
        exact ⟨rfl, r, hr, rfl⟩
    · rintro ⟨hfits, hafter, hrect⟩
      obtain ⟨drawn, hdrawn⟩ := drawChars_ok_iff.mpr ⟨hfits, rfl⟩
      refine ⟨drawn, ?_⟩
      dsimp only
      rw [hdrawn, ok_bind, hafter]
      generalize List.foldl paintCell _ _ = drawing at hrect
      obtain ⟨surface', dirty⟩ := drawing
      cases dirty with
      | none =>
        obtain rfl : rect = none := hrect
        rfl
      | some e =>
        obtain ⟨r, hr, rfl⟩ := hrect
        dsimp only
        rw [hr, ok_bind]

/-- **A text is clipped** exactly where its positions fit and no cell behind the right edge has the
index of a pixel. -/
theorem drawText_clipped_iff (renderer : FontRenderer F) (surface : Surface) (x y : F)
    (text : List Char) :
    (∃ renderer' after rect, drawText renderer surface x y text = .ok (renderer', after, rect) ∧
        Clipped surface (textCells renderer x y text) after rect) ↔
      (∀ p ∈ textPlacements renderer x y text, Fits p) ∧
        ∀ c ∈ textCells renderer x y text, ¬Stray surface c := by
  have hpainted := foldl_paintCell_spec (surface, none) (textCells renderer x y text)
  constructor
  · rintro ⟨renderer', after, rect, hdrawn, hclipped⟩
    obtain ⟨hfits, -, hreported⟩ := drawText_ok_iff.mp ⟨renderer', hdrawn⟩
    refine ⟨hfits, fun c hc hstray => ?_⟩
    have hmem : c ∈ (textCells renderer x y text).filter (Drawn surface) :=
      List.mem_filter.mpr ⟨hc, decide_eq_true hstray.2⟩
    rw [hpainted.dirty] at hreported
    rcases extendAll_spec ((textCells renderer x y text).filter (Drawn surface)) with
      ⟨hnone, -⟩ | ⟨e, hsome, hbox⟩
    · rw [hnone] at hmem
      cases hmem
    · rw [hsome] at hreported
      obtain ⟨r, hr, rfl⟩ := hreported
      obtain ⟨hright, -, -⟩ := hclipped.dirty r rfl
      obtain rfl := eq_rectOf hr
      obtain ⟨l, hl, hleft⟩ := hbox.left
      obtain ⟨hpositive, -, -⟩ := of_decide_eq_true (List.mem_filter.mp hl).2
      have hin := hbox.inside c hmem
      have hbehind := hstray.1
      unfold rectOf at hright
      dsimp only at hright
      omega
  · rintro ⟨hfits, hstray⟩
    have hfilter : (textCells renderer x y text).filter (Drawn surface) =
        (textCells renderer x y text).filter (Inside surface) := by
      refine List.filter_congr fun c hc => decide_eq_decide.mpr ⟨fun h => ?_, Inside.drawn⟩
      exact h.inside (hstray c hc)
    have hpixel : ∀ px < surface.width, ∀ py < surface.height,
        ((textCells renderer x y text).foldl paintCell (surface, none)).1.pixels[
          py * surface.width + px]? = surface.pixels[py * surface.width + px]?.map
          (blendAll surface.penColor
            ((textCells renderer x y text).filter fun c => c.x = px ∧ c.y = py)) := by
      intro px hpx py hpy
      have hcells : (textCells renderer x y text).filter
          (Hits surface (py * surface.width + px)) =
          (textCells renderer x y text).filter fun c => c.x = (px : Int) ∧ c.y = (py : Int) :=
        List.filter_congr fun c hc => decide_eq_decide.mpr (hits_iff (hstray c hc) hpx hpy)
      rw [hpainted.pixels, ← hcells]
    have hdirty := hpainted.dirty
    rw [hfilter] at hdirty
    rcases extendAll_spec ((textCells renderer x y text).filter (Inside surface)) with
      ⟨hempty, hnone⟩ | ⟨e, hsome, hbox⟩
    · obtain ⟨renderer', hdrawn⟩ := drawText_ok_iff.mpr ⟨hfits, rfl,
        show Reported _ none by rw [hdirty, hnone]; rfl⟩
      refine ⟨renderer', _, none, hdrawn, hpainted.width, hpainted.height, hpixel, ?_, nofun⟩
      intro _ c hc hinside
      have hmem : c ∈ (textCells renderer x y text).filter (Inside surface) :=
        List.mem_filter.mpr ⟨hc, decide_eq_true hinside⟩
      rw [hempty] at hmem
      cases hmem
    · obtain ⟨hrect, hright, hbottom, hbounding⟩ := hbox.bounding fun c hc =>
        of_decide_eq_true (List.mem_filter.mp hc).2
      obtain ⟨renderer', hdrawn⟩ := drawText_ok_iff.mpr ⟨hfits, rfl,
        show Reported _ (some (rectOf e)) by rw [hdirty, hsome]; exact ⟨_, hrect, rfl⟩⟩
      refine ⟨renderer', _, some (rectOf e), hdrawn, hpainted.width, hpainted.height, hpixel,
        nofun, ?_⟩
      rintro _ ⟨⟩
      exact ⟨hright, hbottom, hbounding⟩

/-! ## A name at the right edge -/

/-- Whole numbers, where all positions are. -/
instance : F32 Int where
  add := (· + ·)
  round := id
  toI32 := id

/-- Every glyph is two pixels wide. -/
def bar : CachedGlyph Int where
  bitmap := [255, 255]
  width := 2
  height := 1
  offsetX := 0
  offsetY := 0
  advanceX := 2
  hwidth := by decide
  hheight := by decide
  size := rfl

def barRenderer : FontRenderer Int where
  font := {
    ascent := 0
    glyphId := fun _ => 0
    kern := fun _ _ => 0
    hAdvance := fun _ => 2
    outline := fun _ => some bar }
  glyphCache := fun _ => none

/-- Four black pixels in two rows, and a white pen. -/
def black : Surface where
  width := 4
  height := 2
  penColor := 0xffffff
  pixels := List.replicate 8 0xff000000
  hwidth := by decide
  hheight := by decide
  size := rfl

/-- **The second row is drawn to**: of a glyph whose left half is the last column of the first row,
the right half is the first column of the second one, and the rectangle ends behind the surface. -/
theorem drawText_not_clipped :
    (∃ renderer after, drawText barRenderer black 3 0 ['a'] =
        .ok (renderer, after, some ⟨3, 0, 2, 1⟩) ∧ after.pixels[4]? = some 0xffffffff) ∧
      ¬∃ renderer after rect, drawText barRenderer black 3 0 ['a'] = .ok (renderer, after, rect) ∧
        Clipped black (textCells barRenderer 3 0 ['a']) after rect := by
  have hdrawn : ∃ renderer after, drawText barRenderer black 3 0 ['a'] =
      .ok (renderer, after, some ⟨3, 0, 2, 1⟩) ∧ after.pixels[4]? = some 0xffffffff :=
    ⟨_, _, rfl, by decide⟩
  refine ⟨hdrawn, ?_⟩
  rintro ⟨renderer, after, rect, h, hclipped⟩
  obtain ⟨renderer', after', h', -⟩ := hdrawn
  cases h'.symm.trans h
  have hright := (hclipped.dirty _ rfl).1
  exact absurd hright (by decide)

end Catplay.Analysis.Fb.Text
