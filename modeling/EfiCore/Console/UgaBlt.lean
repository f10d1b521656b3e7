import EfiCore.Lib.Bytes
import EfiCore.Lib.Rows
import EfiCore.Lib.Run

/-! # The virtual UGA screen (`ConSplitterGraphics.c`)

A `UINTN` has `w` bits. Pointers are offsets from the start of the buffer that they point into,
counted as the addresses are.
-/

namespace EfiCore.Console

open EfiCore.Lib (Byte writeRow)

inductive BltOperation where
  | videoFill
  | videoToBltBuffer
  | bltBufferToVideo
  | videoToVideo
  /-- Any other value. -/
  | invalid
  deriving DecidableEq

/-- The arguments of `DevNullUgaBlt`, but for the buffer. -/
structure Request where
  operation : BltOperation
  sourceX : Nat
  sourceY : Nat
  destinationX : Nat
  destinationY : Nat
  width : Nat
  height : Nat
  delta : Nat

/-- The virtual screen of `TEXT_OUT_SPLITTER_PRIVATE_DATA`, with the size of the pool buffer
`UgaBlt`. -/
structure Uga where
  horizontalResolution : Nat
  verticalResolution : Nat
  size : Nat
  ugaBlt : Nat → Byte

/-- `ConSpliterUgaDrawSetMode`, as far as the virtual screen goes; `allocates` says whether
there is memory for a new buffer. Resolutions are `UINT32`, and so is their product. -/
def conSpliterUgaDrawSetMode (w : Nat) (allocates : Bool)
    (horizontalResolution verticalResolution : Nat) (s : Uga) : Uga :=
  if horizontalResolution ≠ s.horizontalResolution ∧
      verticalResolution ≠ s.verticalResolution then
    if allocates then
      { horizontalResolution := horizontalResolution
        verticalResolution := verticalResolution
        size := horizontalResolution * verticalResolution % 2 ^ 32 * 4 % 2 ^ w
        ugaBlt := fun _ => 0 }
    else { s with size := 0 }
  else
    { s with
      horizontalResolution := horizontalResolution
      verticalResolution := verticalResolution }

/-! ## Memory -/

inductive Area where
  | screen
  | buffer
  deriving DecidableEq

/-- Bytes read or written. -/
structure Touch where
  area : Area
  offset : Nat
  length : Nat
  deriving DecidableEq

structure Memory where
  screen : Nat → Byte
  buffer : Nat → Byte
  touched : List Touch

def Memory.bytes (m : Memory) : Area → Nat → Byte
  | .screen => m.screen
  | .buffer => m.buffer

/-- `EfiCopyMem`, which takes the source as it was. -/
def Memory.copy (destination : Area) (bltPtr : Nat) (source : Area) (srcPtr len : Nat)
    (m : Memory) : Memory :=
  let row := writeRow (m.bytes destination) bltPtr len fun j => m.bytes source (srcPtr + j)
  let touched := m.touched ++ [⟨source, srcPtr, len⟩, ⟨destination, bltPtr, len⟩]
  match destination with
  | .screen => { m with screen := row, touched := touched }
  | .buffer => { m with buffer := row, touched := touched }

/-! ## `DevNullUgaBlt` -/

section Blt

variable (w : Nat) (s : Uga) (q : Request)

/-- A sum is above a resolution, as `UINTN` counts it. -/
def exceeds (position extent resolution : Nat) : Bool :=
  resolution < (position + extent) % 2 ^ w

/-- What gives `EFI_INVALID_PARAMETER`. -/
def rejects : Bool :=
  q.operation = .invalid || (q.width = 0 || q.height = 0) ||
    ((q.destinationX ≠ 0 || q.destinationY ≠ 0) && q.delta = 0) ||
    if q.operation = .videoToBltBuffer then
      exceeds w q.sourceY q.height s.verticalResolution ||
        exceeds w q.sourceX q.width s.horizontalResolution
    else
      exceeds w q.destinationY q.height s.verticalResolution ||
        exceeds w q.destinationX q.width s.horizontalResolution

/-- `Width * sizeof (EFI_UGA_PIXEL)` -/
def rowSize : Nat := q.width * 4 % 2 ^ w

/-- `Delta`, once its default is set. -/
def deltaOf : Nat := if q.delta = 0 then rowSize w q else q.delta

/-- `(UINT8 *)BltBuffer + y * Delta + x * sizeof (EFI_UGA_PIXEL)` -/
def bufferPtr (x y : Nat) : Nat := (y * deltaOf w q + x * 4) % 2 ^ w

/-- `&Private->UgaBlt[y * HorizontalResolution + x]` -/
def screenPtr (x y : Nat) : Nat := (y * s.horizontalResolution + x) % 2 ^ w * 4 % 2 ^ w

/-- `ScreenPtr += HorizontalResolution` -/
def nextScreenPtr (ptr : Nat) : Nat := (ptr + s.horizontalResolution * 4) % 2 ^ w

/-- The loop for `EfiUgaVideoToBltBuffer`, over `Height`. -/
def toBufferLoop : Nat → Nat → Nat → Memory → Memory
  | 0, _, _, m => m
  | height + 1, bltPtr, ptr, m =>
    toBufferLoop height ((bltPtr + deltaOf w q) % 2 ^ w) (nextScreenPtr w s ptr)
      (m.copy .buffer bltPtr .screen ptr (rowSize w q))

/-- The loop for one row of a fill; the number of pixels left comes first. -/
def fillLoop (ptr : Nat) : Nat → Nat → Memory → Memory
  | 0, _, m => m
  | left + 1, index, m =>
    fillLoop ptr left (index + 1)
      (m.copy .screen ((ptr + index * 4) % 2 ^ w) .buffer (bufferPtr w q q.sourceX q.sourceY) 4)

/-- One row of the loop to the screen. -/
def toVideoRow (ptr srcY : Nat) (m : Memory) : Memory :=
  match q.operation with
  | .videoFill => fillLoop w q ptr q.width 0 m
  | .bltBufferToVideo =>
    m.copy .screen ptr .buffer (bufferPtr w q q.sourceX srcY) (rowSize w q)
  | _ => m.copy .screen ptr .screen (screenPtr w s q.sourceX srcY) (rowSize w q)

/-- The loop to the screen, over `Height`. -/
def toVideoLoop : Nat → Nat → Nat → Memory → Memory
  | 0, _, _, m => m
  | height + 1, ptr, srcY, m =>
    toVideoLoop height (nextScreenPtr w s ptr) ((srcY + 1) % 2 ^ w) (toVideoRow w s q ptr srcY m)

/-- `DevNullUgaBlt`; the request is accepted or not. -/
def devNullUgaBlt (buffer : Nat → Byte) : Bool × Memory :=
  let m : Memory := ⟨s.ugaBlt, buffer, []⟩
  if rejects w s q then (false, m)
  else if q.operation = .videoToBltBuffer then
    (true, toBufferLoop w s q q.height (bufferPtr w q q.destinationX q.destinationY)
      (screenPtr w s q.sourceX q.sourceY) m)
  else
    (true, toVideoLoop w s q q.height (screenPtr w s q.destinationX q.destinationY) q.sourceY m)

end Blt

end EfiCore.Console
