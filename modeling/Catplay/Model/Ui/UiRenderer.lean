import Catplay.Library.Run

/-!
# The overlay and its cached frame

`c2a/catplay_c2a/src/ui/ui_renderer.rs` with `UiState` of `ui_state.rs` and `Renderer::reset` and
`execute` of `c2a/catplay_fb/src/renderer.rs`. A framebuffer is what was drawn to it since it was
made. The encoder and the `Display` of a state are parameters; a cache file is what is stored in it,
or nothing where it is missing or broken.
-/

set_option autoImplicit false

namespace Catplay.Model.Ui

abbrev Bytes := List UInt8

/-! ## States and operations -/

inductive UiState
  | hidden
  | waitingForConnection
  | connecting (device : String) (ticks : Nat)
  | pairing (device pin : String)
  deriving DecidableEq, Repr

inductive AssetType
  | image
  | font
  deriving DecidableEq, Repr

inductive Size
  | px (v : Rat)
  | dp (v : Rat)
  | percent (p : Rat)
  deriving DecidableEq

/-- The anchors of the overlay. -/
inductive Anchor
  | center
  | baselineCenter
  deriving DecidableEq, Repr

inductive TextAlign
  | left
  | center
  | right
  deriving DecidableEq, Repr

structure UiRect where
  x : Size
  y : Size
  w : Size
  h : Size
  anchor : Anchor
  deriving DecidableEq

/-- The operations of the overlay. The bytes of an asset go by its id. -/
inductive RenderOp
  | setBackground (rgba : UInt32)
  | loadAssetConst (id : String) (assetType : AssetType)
  | blitAsset (id : String) (rect : UiRect)
  | drawText (text : String) (rect : UiRect) (align : TextAlign) (fontId : String)
      (fontSizePt : Rat) (color : UInt32)
  | releaseAsset (id : String)
  | releaseFont (id : String)
  deriving DecidableEq

def assetOps : List RenderOp := [.loadAssetConst "logo" .image, .loadAssetConst "font" .font]

/-- `BG_COLOR` of a release build. -/
def bgColor : UInt32 := 0x000055ff

/-- The operations behind the assets, which differ in their text. -/
def frameOps (text : String) : List RenderOp :=
  [.setBackground bgColor,
    .blitAsset "logo" ⟨.percent (1 / 2), .percent (1 / 2), .dp 300, .dp 300, .center⟩,
    .drawText text ⟨.percent (1 / 2), .percent (4 / 5), .dp 700, .dp 0, .baselineCenter⟩ .center
      "font" 30 0xffffffff,
    .releaseAsset "logo",
    .releaseFont "font"]

def UiState.cacheFileName : UiState → Option String
  | waitingForConnection => some "catplay_welcome.h264"
  | _ => none

def UiState.asOps : UiState → List RenderOp
  | hidden => assetOps ++ []
  | waitingForConnection => assetOps ++ frameOps "Waiting for connection..."
  | connecting device ticks =>
    assetOps ++ frameOps ("Connecting to device: " ++ device ++
      String.ofList (List.replicate (ticks % 3 + 1) '.'))
  | pairing device pin =>
    assetOps ++ frameOps ("Press any key to pair: " ++ device ++ " | " ++ pin)

/-! ## The renderer -/

structure Framebuffer where
  width : Int
  height : Int
  drawn : List RenderOp
  deriving DecidableEq

/-- The operations with an error. -/
def RenderOp.fallible : RenderOp → Bool
  | loadAssetConst .. | blitAsset .. | drawText .. => true
  | _ => false

/-- The operations that draw. -/
def RenderOp.draws : RenderOp → Bool
  | setBackground .. | blitAsset .. | drawText .. => true
  | _ => false

def Framebuffer.draw (self : Framebuffer) (op : RenderOp) : Framebuffer :=
  if op.draws then { self with drawn := self.drawn ++ [op] } else self

/-- `Renderer::execute`, with the operation that fails, if it can. -/
def Framebuffer.execute (self : Framebuffer) (failAt : Option Nat) :
    List RenderOp → Bool × Framebuffer
  | [] => (true, self)
  | op :: ops =>
    if failAt = some 0 ∧ op.fallible then (false, self)
    else (self.draw op).execute (failAt.bind fun n => if n = 0 then none else some (n - 1)) ops

structure KeyframeCacheKey where
  hash : String
  width : UInt32
  height : UInt32
  dpi : UInt32
  deriving DecidableEq, Repr

structure KeyframeCacheEntry where
  spsPps : Bytes
  keyframe : Bytes
  deriving DecidableEq, Repr

/-- What is not part of the repository: `H264FrameBuffer` and the `Display` of a state. -/
structure Env (E : Type) where
  newEncoder : Int → Int → UInt32 → Option E
  updateRgba : E → Framebuffer → E × Option Bytes
  getHeaders : E → Option Bytes
  display : UiState → String

inductive UiError
  | h264
  | render
  deriving DecidableEq, Repr

structure EncodedVideoFrame where
  width : Int
  height : Int
  data : Bytes
  spsPps : Bytes
  deriving DecidableEq, Repr

/-- `dpi` is the rounded one, `file` the cache file in `persist_dir`, if there is one. -/
structure UiRenderer (E : Type) where
  width : Int
  height : Int
  fps : UInt32
  dpi : UInt32
  fb : Framebuffer
  h264 : Option E
  headers : Bytes
  lastState : UiState
  persistDir : Bool
  file : Option (KeyframeCacheKey × KeyframeCacheEntry)

/-- How the operations of a call end: the one that fails, whether the cache file can be read, and
whether it can be written; what cannot be written is left as it was, or broken. -/
structure Outcome where
  failAt : Option Nat := none
  read : Bool := true
  written : Bool := true
  kept : Bool := false

variable {E : Type}

namespace UiRenderer

/-- `UiRenderer::new`, with the cache file that there is. -/
def new (width height : Int) (fps dpi : UInt32) (persistDir : Bool)
    (file : Option (KeyframeCacheKey × KeyframeCacheEntry)) : UiRenderer E where
  width
  height
  fps
  dpi
  fb := { width, height, drawn := [] }
  h264 := none
  headers := []
  lastState := .hidden
  persistDir
  file

def renderFramebuffer (self : UiRenderer E) (out : Outcome) (state : UiState) (reset : Bool) :
    Except UiError Unit × UiRenderer E :=
  if state = .hidden ∨ (reset = false ∧ self.lastState = state) then (.ok (), self)
  else
    let fb := if reset then { width := self.width, height := self.height, drawn := [] } else self.fb
    match fb.execute out.failAt state.asOps with
    | (false, fb) => (.error .render, { self with fb })
    | (true, fb) => (.ok (), { self with fb, lastState := state })

def encode (env : Env E) (self : UiRenderer E) : Except UiError Bytes × UiRenderer E :=
  match self.h264.or (env.newEncoder self.width self.height self.fps) with
  | none => (.error .h264, self)
  | some h264 =>
    match env.updateRgba h264 self.fb with
    | (h264, none) => (.error .h264, { self with h264 := some h264 })
    | (h264, some out) =>
      match env.getHeaders h264 with
      | none => (.error .h264, { self with h264 := some h264, headers := [] })
      | some headers => (.ok out, { self with h264 := none, headers })

def cacheVersion : String := "ui-v1"

def cacheHash (env : Env E) (state : UiState) : String := cacheVersion ++ ":" ++ env.display state

def keyframeCacheKey (env : Env E) (self : UiRenderer E) (state : UiState) : KeyframeCacheKey where
  hash := cacheHash env state
  width := UInt32.ofInt self.width
  height := UInt32.ofInt self.height
  dpi := self.dpi

/-- The file in `persist_dir` that a state has. -/
def cacheFile (self : UiRenderer E) (state : UiState) : Bool :=
  self.persistDir && state.cacheFileName.isSome

def tryLoadKeyframeCache (env : Env E) (self : UiRenderer E) (out : Outcome) (state : UiState) :
    Option EncodedVideoFrame :=
  if !self.cacheFile state || !out.read then none
  else
    match self.file with
    | none => none
    | some (key, entry) =>
      if key ≠ self.keyframeCacheKey env state then none
      else some { width := self.width, height := self.height, data := entry.keyframe,
                  spsPps := entry.spsPps }

def storeKeyframeCache (env : Env E) (self : UiRenderer E) (out : Outcome) (state : UiState)
    (frame : Bytes) : UiRenderer E :=
  if !self.cacheFile state then self
  else if !out.written then { self with file := if out.kept then self.file else none }
  else
    { self with file := some (self.keyframeCacheKey env state,
        { spsPps := self.headers, keyframe := frame }) }

def renderAndEncodeFrame (env : Env E) (self : UiRenderer E) (out : Outcome) (state : UiState)
    (reset : Bool) : Except UiError EncodedVideoFrame × UiRenderer E :=
  match (if reset then none else self.tryLoadKeyframeCache env out state) with
  | some frame => (.ok frame, { self with lastState := state })
  | none =>
    match self.renderFramebuffer out state reset with
    | (.error e, self) => (.error e, self)
    | (.ok (), self) =>
      match self.encode env with
      | (.error e, self) => (.error e, self)
      | (.ok frame, self) =>
        (.ok { width := self.width, height := self.height, data := frame, spsPps := self.headers },
          self.storeKeyframeCache env out state frame)

end UiRenderer

/-! ## The calls -/

/-- The calls of the renderer. The next one that is made has the file of this one, and a file can
be lost between two calls. -/
inductive Call
  | update (state : UiState)
  | renderAndEncodeFrame (state : UiState) (reset : Bool)
  | encodeFrame
  | new (width height : Int) (fps dpi : UInt32)
  | loseFile
  deriving DecidableEq

/-- One call, with the frame that it returns. -/
def UiRenderer.call (env : Env E) (self : UiRenderer E) (out : Outcome) :
    Call → Option EncodedVideoFrame × UiRenderer E
  | .update state => (none, (self.renderFramebuffer out state false).2)
  | .renderAndEncodeFrame state reset =>
    let (frame, next) := self.renderAndEncodeFrame env out state reset
    (frame.toOption, next)
  | .encodeFrame =>
    let (frame, next) := self.renderAndEncodeFrame env out self.lastState false
    (frame.toOption, next)
  | .new width height fps dpi => (none, .new width height fps dpi self.persistDir self.file)
  | .loseFile => (none, { self with file := none })

end Catplay.Model.Ui
