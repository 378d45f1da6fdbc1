import Catplay.Library.Checked
import Mathlib.Data.UInt

/-!
# Drawing text

`draw_text` and `blit_glyph` of `c2a/catplay_fb/src/font_renderer.rs`, `Surface::blend_pixel` of
`surface.rs` and `blend_argb` of `canvas.rs`, with overflow checks. The font and the numbers of type
`f32` are parameters; a surface is its pixels row by row.
-/

set_option autoImplicit false

namespace Catplay.Model.Fb.Text

open Catplay.Library.Checked

/-! ## The surface -/

/-- A surface of `Surface::new`. -/
structure Surface where
  width : Nat
  height : Nat
  penColor : UInt32
  pixels : List UInt32
  hwidth : width ≤ 65535
  hheight : height ≤ 65535
  size : pixels.length = width * height

/-- `blend_argb`. -/
def blendArgb (dst src : UInt32) : UInt32 :=
  let sa := (src >>> 24) &&& 0xff
  if sa = 0 then dst
  else
    let inv := 255 - sa
    let sr := (src >>> 16) &&& 0xff
    let sg := (src >>> 8) &&& 0xff
    let sb := src &&& 0xff
    let dr := (dst >>> 16) &&& 0xff
    let dg := (dst >>> 8) &&& 0xff
    let db := dst &&& 0xff
    let da := (dst >>> 24) &&& 0xff
    let r := (sr * sa + dr * inv) / 255
    let g := (sg * sa + dg * inv) / 255
    let b := (sb * sa + db * inv) / 255
    let a := sa + (da * inv) / 255
    (a <<< 24) ||| (r <<< 16) ||| (g <<< 8) ||| b

/-- The colour that a pixel is blended with. -/
def source (penColor : UInt32) (coverage : UInt8) : UInt32 :=
  (coverage.toUInt32 <<< 24) ||| penColor

def Surface.setPixel (self : Surface) (i : Nat) (argb : UInt32) : Surface :=
  { self with pixels := self.pixels.set i argb, size := by rw [List.length_set, self.size] }

/-- `Surface::blend_pixel`, with the index of `Canvas::get_pixel`. -/
def Surface.blendPixel (self : Surface) (x y : Int) (coverage : UInt8) : Bool × Surface :=
  if x < 0 ∨ y < 0 then (false, self)
  else if coverage = 0 then (false, self)
  else
    let i := y.toNat * self.width + x.toNat
    match self.pixels[i]? with
    | some dst => (true, self.setPixel i (blendArgb dst (source self.penColor coverage)))
    | none => (false, self)

/-! ## Glyphs -/

/-- What is used of `f32`: `+`, `round` and `as i32`. -/
class F32 (F : Type) where
  add : F → F → F
  round : F → F
  toI32 : F → Int

/-- `bitmap` has the coverage of each pixel; the sides are positive as `i32`. -/
structure CachedGlyph (F : Type) where
  bitmap : List UInt8
  width : Nat
  height : Nat
  offsetX : Int
  offsetY : Int
  advanceX : F
  hwidth : width < 2 ^ 31
  hheight : height < 2 ^ 31
  size : bitmap.length = width * height

/-- The font at its scale; `outline` is what `cache_glyph` makes of the outline of a glyph. -/
structure Font (F : Type) where
  ascent : F
  glyphId : Char → UInt16
  kern : UInt16 → UInt16 → F
  hAdvance : UInt16 → F
  outline : UInt16 → Option (CachedGlyph F)

structure FontRenderer (F : Type) where
  font : Font F
  glyphCache : UInt16 → Option (CachedGlyph F)

variable {F : Type}

def FontRenderer.cacheGlyph (self : FontRenderer F) (gid : UInt16) :
    Option (CachedGlyph F) × FontRenderer F :=
  match self.glyphCache gid with
  | some glyph => (some glyph, self)
  | none =>
    match self.font.outline gid with
    | none => (none, self)
    | some glyph =>
      (some glyph, { self with
        glyphCache := fun id => if id = gid then some glyph else self.glyphCache id })

/-! ## Drawing -/

/-- An `i32`; anything else is an overflow. -/
def i32 (n : Int) : Exec Empty Int := if -2 ^ 31 ≤ n ∧ n < 2 ^ 31 then .ok n else .error .panic

/-- `(min_x, min_y, max_x, max_y)`. -/
structure Extent where
  minX : Int
  minY : Int
  maxX : Int
  maxY : Int
  deriving DecidableEq, Repr

def extend (dirty : Option Extent) (px py : Int) : Extent :=
  match dirty with
  | some e => ⟨min e.minX px, min e.minY py, max e.maxX px, max e.maxY py⟩
  | none => ⟨px, py, px, py⟩

/-- The surface and what was reported as drawn. -/
abbrev Drawing := Surface × Option Extent

/-- `sink.blend_pixel` and what is made of its answer. -/
def paint (drawing : Drawing) (px py : Int) (coverage : UInt8) : Drawing :=
  match drawing.1.blendPixel px py coverage with
  | (true, surface) => (surface, some (extend drawing.2 px py))
  | (false, surface) => (surface, drawing.2)

/-- One round of the loops over a glyph. -/
def blitPixel (gx gy : Int) (glyph : CachedGlyph F) (y : Nat) (drawing : Drawing) (x : Nat) :
    Exec Empty Drawing := do
  let row ← i32 (y * glyph.width)
  let i ← i32 (row + x)
  let cov ← index glyph.bitmap i.toNat
  if cov = 0 then .ok drawing
  else
    let px ← i32 (gx + x)
    let py ← i32 (gy + y)
    .ok (paint drawing px py cov)

/-- `blit_glyph`. -/
def blitGlyph (drawing : Drawing) (gx gy : Int) (glyph : CachedGlyph F) : Exec Empty Drawing :=
  (List.range glyph.height).foldlM
    (fun drawing y => (List.range glyph.width).foldlM (blitPixel gx gy glyph y) drawing) drawing

structure DirtyRect where
  x : Nat
  y : Nat
  w : Nat
  h : Nat
  deriving DecidableEq, Repr

/-- The rectangle of what was drawn, all of it at positions that are not negative. -/
def toRect (e : Extent) : Exec Empty DirtyRect := do
  let w ← i32 (e.maxX - e.minX)
  let w ← i32 (w + 1)
  let h ← i32 (e.maxY - e.minY)
  let h ← i32 (h + 1)
  .ok { x := e.minX.toNat, y := e.minY.toNat, w := w.toNat, h := h.toNat }

variable [F32 F]

/-- The pen before a character. -/
def kerned (font : Font F) (penX : F) (prev : Option UInt16) (gid : UInt16) : F :=
  match prev with
  | some p => F32.add penX (font.kern p gid)
  | none => penX

/-- The loop over the characters. -/
def drawChars (baselineY : F) : FontRenderer F → F → Option UInt16 → Drawing → List Char →
    Exec Empty (FontRenderer F × Drawing)
  | renderer, _, _, drawing, [] => .ok (renderer, drawing)
  | renderer, penX, prev, drawing, ch :: text => do
    let gid := renderer.font.glyphId ch
    let penX := kerned renderer.font penX prev gid
    match renderer.cacheGlyph gid with
    | (none, renderer) =>
      drawChars baselineY renderer (F32.add penX (renderer.font.hAdvance gid)) (some gid) drawing
        text
    | (some glyph, renderer) =>
      let drawX ← i32 (F32.toI32 penX + glyph.offsetX)
      let drawY ← i32 (F32.toI32 baselineY + glyph.offsetY)
      let drawing ← blitGlyph drawing drawX drawY glyph
      drawChars baselineY renderer (F32.add penX glyph.advanceX) (some gid) drawing text

/-- `draw_text`: the surface, the glyphs that are cached and what was drawn. -/
def drawText (renderer : FontRenderer F) (surface : Surface) (x y : F) (text : List Char) :
    Exec Empty (FontRenderer F × Surface × Option DirtyRect) :=
  if text.isEmpty then .ok (renderer, surface, none)
  else do
    let baselineY := F32.round (F32.add y renderer.font.ascent)
    let (renderer, surface, dirty) ←
      drawChars baselineY renderer (F32.round x) none (surface, none) text
    match dirty with
    | none => .ok (renderer, surface, none)
    | some e =>
      let rect ← toRect e
      .ok (renderer, surface, some rect)

end Catplay.Model.Fb.Text
