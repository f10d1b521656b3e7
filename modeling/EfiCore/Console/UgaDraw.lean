import EfiCore.Console.UgaBlt

/-! # What requests to the virtual screen do, row by row -/

namespace EfiCore.Console

open EfiCore.Lib

/-! ## What a request is for -/

section Spec

variable (w : Nat) (s : Uga) (q : Request)

/-- The arguments are of type `UINTN`. -/
structure Request.Words : Prop where
  source : q.sourceX < 2 ^ w ∧ q.sourceY < 2 ^ w
  destination : q.destinationX < 2 ^ w ∧ q.destinationY < 2 ^ w
  extent : q.width < 2 ^ w ∧ q.height < 2 ^ w
  delta : q.delta < 2 ^ w

/-- Where a pixel of the screen is. -/
def pixelAt (x y : Nat) : Nat := y * (s.horizontalResolution * 4) + x * 4

/-- Where a pixel of the caller's buffer is. -/
def bufferAt (x y : Nat) : Nat := y * deltaOf w q + x * 4

/-- The bytes of the buffer that the operation names. -/
def InBuffer (k : Nat) : Prop :=
  match q.operation with
  | .videoFill => ∃ j < 4, k = bufferAt w q q.sourceX q.sourceY + j
  | .videoToBltBuffer => ∃ r < q.height, ∃ j < q.width * 4,
      k = bufferAt w q q.destinationX q.destinationY + r * deltaOf w q + j
  | .bltBufferToVideo => ∃ r < q.height, ∃ j < q.width * 4,
      k = bufferAt w q q.sourceX (q.sourceY + r) + j
  | _ => False

/-- The buffer covers them; it ends inside the address space. -/
def Covered : Prop := ∀ k, InBuffer w q k → k < 2 ^ w

/-- What the destination shows, for a row and a byte of the row. -/
def sourceOf (buffer : Nat → Byte) (r j : Nat) : Byte :=
  match q.operation with
  | .videoFill => buffer (bufferAt w q q.sourceX q.sourceY + j % 4)
  | .bltBufferToVideo => buffer (bufferAt w q q.sourceX (q.sourceY + r) + j)
  | _ => s.ugaBlt (pixelAt s q.sourceX (q.sourceY + r) + j)

/-- The destination rectangle shows the source, and nothing else has changed. -/
def Draws (buffer : Nat → Byte) (m : Memory) : Prop :=
  if q.operation = .videoToBltBuffer then
    RowsWritten buffer m.buffer (bufferAt w q q.destinationX q.destinationY) (deltaOf w q)
      (q.width * 4) q.height (sourceOf w s q buffer) ∧ m.screen = s.ugaBlt
  else
    RowsWritten s.ugaBlt m.screen (pixelAt s q.destinationX q.destinationY)
      (s.horizontalResolution * 4) (q.width * 4) q.height (sourceOf w s q buffer) ∧
      m.buffer = buffer

/-- A byte that a request may touch. -/
def MayTouch : Area → Nat → Prop
  | .screen, k => k < s.size
  | .buffer, k => InBuffer w q k

def Memory.Touches (P : Area → Nat → Prop) (m : Memory) : Prop :=
  ∀ t ∈ m.touched, ∀ j < t.length, P t.area (t.offset + j)

/-- A request is treated as it should be. -/
structure RightBlt (buffer : Nat → Byte) : Prop where
  touches : (devNullUgaBlt w s q buffer).2.Touches (MayTouch w s q)
  rejected : (devNullUgaBlt w s q buffer).1 = false →
    (devNullUgaBlt w s q buffer).2.screen = s.ugaBlt ∧
      (devNullUgaBlt w s q buffer).2.buffer = buffer
  accepted : (devNullUgaBlt w s q buffer).1 = true →
    Draws w s q buffer (devNullUgaBlt w s q buffer).2

/-! ## When it is -/

/-- A rectangle of the size asked for is on the screen. -/
def OnScreen (x y : Nat) : Prop :=
  x + q.width ≤ s.horizontalResolution ∧ y + q.height ≤ s.verticalResolution

/-- The rectangles on the screen are on it, also where the code does not look or counts modulo
the word; rows in a buffer do not overlap; no row of the screen is copied over one that is still
to be copied. -/
def Placed : Prop :=
  match q.operation with
  | .videoToBltBuffer =>
    OnScreen s q q.sourceX q.sourceY ∧ (q.width * 4 ≤ deltaOf w q ∨ q.height ≤ 1)
  | .videoToVideo =>
    OnScreen s q q.destinationX q.destinationY ∧ OnScreen s q q.sourceX q.sourceY ∧
      (q.destinationY ≤ q.sourceY ∨ q.sourceY + q.height ≤ q.destinationY ∨
        q.sourceX + q.width ≤ q.destinationX ∨ q.destinationX + q.width ≤ q.sourceX)
  | _ => OnScreen s q q.destinationX q.destinationY

/-- The screen buffer has all pixels of the mode. -/
structure Uga.Sound : Prop where
  pixels : s.verticalResolution * (s.horizontalResolution * 4) ≤ s.size
  size_lt : s.size < 2 ^ w

/-- The buffer that a mode gets, or keeps, has all pixels of the mode. -/
def ModeFits (horizontalResolution verticalResolution : Nat) : Prop :=
  if horizontalResolution ≠ s.horizontalResolution ∧
      verticalResolution ≠ s.verticalResolution then
    horizontalResolution * verticalResolution < 2 ^ 32 ∧
      horizontalResolution * verticalResolution * 4 < 2 ^ w
  else verticalResolution * (horizontalResolution * 4) ≤ s.size

end Spec

/-! ## Touched bytes -/

section Touches

variable {P : Area → Nat → Prop} {m : Memory} {destination source : Area} {pos src len : Nat}

theorem Memory.Touches.copy (h : m.Touches P) (hpos : ∀ j < len, P destination (pos + j))
    (hsrc : ∀ j < len, P source (src + j)) :
    (m.copy destination pos source src len).Touches P := by
  have htouched : (m.copy destination pos source src len).touched =
      m.touched ++ [⟨source, src, len⟩, ⟨destination, pos, len⟩] := by
    cases destination <;> rfl
  intro t ht
  rw [htouched, List.mem_append] at ht
  cases ht with
  | inl hold => exact h t hold
  | inr hnew =>
    simp only [List.mem_cons, List.not_mem_nil, or_false] at hnew
    obtain rfl | rfl := hnew
    · exact hsrc
    · exact hpos

theorem copy_screen (source : Area) (pos src len : Nat) (m : Memory) :
    RowWritten m.screen (m.copy .screen pos source src len).screen pos len
      (fun j => m.bytes source (src + j)) ∧
      (m.copy .screen pos source src len).buffer = m.buffer :=
  ⟨writeRow_written m.screen pos len fun j => m.bytes source (src + j), rfl⟩

theorem copy_buffer (source : Area) (pos src len : Nat) (m : Memory) :
    RowWritten m.buffer (m.copy .buffer pos source src len).buffer pos len
      (fun j => m.bytes source (src + j)) ∧
      (m.copy .buffer pos source src len).screen = m.screen :=
  ⟨writeRow_written m.buffer pos len fun j => m.bytes source (src + j), rfl⟩

end Touches

/-! ## Pointers -/

section Pointers

variable {w : Nat} {s : Uga} {q : Request}

theorem screenPtr_eq (x y : Nat) : screenPtr w s x y = pixelAt s x y % 2 ^ w := by
  rw [screenPtr, Nat.mod_mul_mod, pixelAt, Nat.add_mul, Nat.mul_assoc]

theorem nextScreenPtr_eq (pos : Nat) :
    nextScreenPtr w s (pos % 2 ^ w) = (pos + s.horizontalResolution * 4) % 2 ^ w := by
  rw [nextScreenPtr, Nat.mod_add_mod]

/-- Rows on the screen lie in its buffer. -/
theorem OnScreen.row_le {x y : Nat} (hsound : s.Sound w) (h : OnScreen s q x y) {r : Nat}
    (hr : r < q.height) :
    pixelAt s x y + r * (s.horizontalResolution * 4) + q.width * 4 ≤ s.size := by
  have hrow : (y + r + 1) * (s.horizontalResolution * 4) ≤
      s.verticalResolution * (s.horizontalResolution * 4) :=
    Nat.mul_le_mul_right _ (by have := h.2; omega)
  have hcolumn : (x + q.width) * 4 ≤ s.horizontalResolution * 4 := Nat.mul_le_mul_right 4 h.1
  have hpixels := hsound.pixels
  have hexpand : (y + r + 1) * (s.horizontalResolution * 4) =
      y * (s.horizontalResolution * 4) + r * (s.horizontalResolution * 4) +
        s.horizontalResolution * 4 := by ring
  rw [pixelAt]
  omega

theorem rowSize_eq {x y : Nat} (hsound : s.Sound w) (h : OnScreen s q x y)
    (hheight : 0 < q.height) : rowSize w q = q.width * 4 := by
  have hrow := h.row_le hsound hheight
  have hlt := hsound.size_lt
  exact Nat.mod_eq_of_lt (by omega)

end Pointers

/-! ## From the screen to a buffer -/

section ToBuffer

variable {w : Nat} {s : Uga} {q : Request} {len height pos src : Nat} {m : Memory}
  {P : Area → Nat → Prop}

theorem toBufferLoop_written (hlen : rowSize w q = len)
    (hrows : len ≤ deltaOf w q ∨ height ≤ 1)
    (hpos : ∀ r < height, pos + r * deltaOf w q < 2 ^ w)
    (hsrc : ∀ r < height, src + r * (s.horizontalResolution * 4) < 2 ^ w) :
    RowsWritten m.buffer (toBufferLoop w s q height (pos % 2 ^ w) (src % 2 ^ w) m).buffer pos
        (deltaOf w q) len height
        (fun r j => m.screen (src + r * (s.horizontalResolution * 4) + j)) ∧
      (toBufferLoop w s q height (pos % 2 ^ w) (src % 2 ^ w) m).screen = m.screen := by
  induction height generalizing pos src m with
  | zero => exact ⟨.zero _ _ _ _ _, rfl⟩
  | succ height ih =>
    have hpos0 : pos % 2 ^ w = pos := Nat.mod_eq_of_lt (by simpa using hpos 0 (Nat.succ_pos _))
    have hsrc0 : src % 2 ^ w = src := Nat.mod_eq_of_lt (by simpa using hsrc 0 (Nat.succ_pos _))
    rw [toBufferLoop, Nat.mod_add_mod, nextScreenPtr_eq, hpos0, hsrc0, hlen]
    obtain ⟨hfirst, hscreen⟩ := copy_buffer .screen pos src len m
    obtain ⟨hrest, hsame⟩ := @ih (pos + deltaOf w q) (src + s.horizontalResolution * 4)
      (m.copy .buffer pos .screen src len) (by omega)
      (fun r hr => next_row pos _ r ▸ hpos (r + 1) (by omega))
      (fun r hr => next_row src _ r ▸ hsrc (r + 1) (by omega))
    have hrow : RowWritten m.buffer (m.copy .buffer pos .screen src len).buffer pos len
        (fun j => m.screen (src + 0 * (s.horizontalResolution * 4) + j)) := by
      simpa [Memory.bytes] using hfirst
    have hothers : RowsWritten (m.copy .buffer pos .screen src len).buffer _ (pos + deltaOf w q)
        (deltaOf w q) len height
        (fun r j => m.screen (src + (r + 1) * (s.horizontalResolution * 4) + j)) :=
      hrest.congr fun r _ j _ => by rw [hscreen, next_row]
    exact ⟨.cons hrow hothers (by omega), hsame.trans hscreen⟩

theorem toBufferLoop_touches (hlen : rowSize w q = len) (h : m.Touches P)
    (hpos : ∀ r < height, pos + r * deltaOf w q < 2 ^ w)
    (hsrc : ∀ r < height, src + r * (s.horizontalResolution * 4) < 2 ^ w)
    (hbuffer : ∀ r < height, ∀ j < len, P .buffer (pos + r * deltaOf w q + j))
    (hscreen : ∀ r < height, ∀ j < len,
      P .screen (src + r * (s.horizontalResolution * 4) + j)) :
    (toBufferLoop w s q height (pos % 2 ^ w) (src % 2 ^ w) m).Touches P := by
  induction height generalizing pos src m with
  | zero => exact h
  | succ height ih =>
    have hpos0 : pos % 2 ^ w = pos := Nat.mod_eq_of_lt (by simpa using hpos 0 (Nat.succ_pos _))
    have hsrc0 : src % 2 ^ w = src := Nat.mod_eq_of_lt (by simpa using hsrc 0 (Nat.succ_pos _))
    rw [toBufferLoop, Nat.mod_add_mod, nextScreenPtr_eq, hpos0, hsrc0, hlen]
    apply ih (h.copy (by simpa using hbuffer 0 (Nat.succ_pos _))
      (by simpa using hscreen 0 (Nat.succ_pos _)))
    · exact fun r hr => next_row pos _ r ▸ hpos (r + 1) (by omega)
    · exact fun r hr => next_row src _ r ▸ hsrc (r + 1) (by omega)
    · exact fun r hr => next_row pos _ r ▸ hbuffer (r + 1) (by omega)
    · exact fun r hr => next_row src _ r ▸ hscreen (r + 1) (by omega)

end ToBuffer

/-! ## To the screen -/

section ToVideo

variable (w : Nat) (s : Uga) (q : Request)

/-- Where a row of the source starts. -/
def sourceAt (y : Nat) : Nat :=
  match q.operation with
  | .videoFill => bufferAt w q q.sourceX q.sourceY
  | .bltBufferToVideo => bufferAt w q q.sourceX y
  | _ => pixelAt s q.sourceX y

/-- A row of the source, as the memory stands. -/
def rowSource (m : Memory) (y j : Nat) : Byte :=
  match q.operation with
  | .videoFill => m.buffer (bufferAt w q q.sourceX q.sourceY + j % 4)
  | .bltBufferToVideo => m.buffer (bufferAt w q q.sourceX y + j)
  | _ => m.screen (pixelAt s q.sourceX y + j)

/-- What is read for a row. -/
def RowRead (P : Area → Nat → Prop) (y : Nat) : Prop :=
  match q.operation with
  | .videoFill => ∀ j < 4, P .buffer (bufferAt w q q.sourceX q.sourceY + j)
  | .bltBufferToVideo => ∀ j < q.width * 4, P .buffer (bufferAt w q q.sourceX y + j)
  | _ => ∀ j < q.width * 4, P .screen (pixelAt s q.sourceX y + j)

variable {w s q}
variable {pos y : Nat} {m : Memory} {P : Area → Nat → Prop}

theorem bufferPtr_mod (x y : Nat) :
    bufferPtr w q x (y % 2 ^ w) = bufferAt w q x y % 2 ^ w := by
  rw [bufferPtr, bufferAt, Nat.add_mod, Nat.mod_mul_mod, ← Nat.add_mod]

theorem screenPtr_mod (x y : Nat) :
    screenPtr w s x (y % 2 ^ w) = pixelAt s x y % 2 ^ w := by
  rw [screenPtr_eq, pixelAt, pixelAt, Nat.add_mod, Nat.mod_mul_mod, ← Nat.add_mod]

/-- The pixels that are left of a row, each a copy of four bytes. -/
theorem fillLoop_written {src left index : Nat} (hsrc : bufferPtr w q q.sourceX q.sourceY = src)
    (hpos : ∀ i < left, pos + (index + i) * 4 < 2 ^ w) :
    RowWritten m.screen (fillLoop w q (pos % 2 ^ w) left index m).screen (pos + index * 4)
        (left * 4) (fun j => m.buffer (src + j % 4)) ∧
      (fillLoop w q (pos % 2 ^ w) left index m).buffer = m.buffer := by
  induction left generalizing index m with
  | zero =>
    refine ⟨⟨fun j hj => ?_, fun _ _ => rfl⟩, rfl⟩
    rw [Nat.zero_mul] at hj
    exact absurd hj (Nat.not_lt_zero j)
  | succ left ih =>
    have hptr : (pos % 2 ^ w + index * 4) % 2 ^ w = pos + index * 4 := by
      rw [Nat.mod_add_mod]
      exact Nat.mod_eq_of_lt (by simpa using hpos 0 (Nat.succ_pos _))
    rw [fillLoop, hptr, hsrc]
    obtain ⟨hfirst, hbuffer⟩ := copy_screen .buffer (pos + index * 4) src 4 m
    obtain ⟨hrest, hsame⟩ := @ih (m.copy .screen (pos + index * 4) .buffer src 4) (index + 1)
      (fun i hi => by
        have := hpos (i + 1) (by omega)
        omega)
    refine ⟨?_, hsame.trans hbuffer⟩
    have hpixel : RowWritten m.screen _ (pos + index * 4) 4 (fun j => m.buffer (src + j % 4)) :=
      ⟨fun j hj => by rw [hfirst.inside j hj, Nat.mod_eq_of_lt hj]; rfl, hfirst.outside⟩
    have hlen : (left + 1) * 4 = 4 + left * 4 := by omega
    rw [hlen]
    apply hpixel.append
    have hnext : pos + (index + 1) * 4 = pos + index * 4 + 4 := by omega
    have hsource : (fun j => m.buffer (src + (4 + j) % 4)) =
        fun j => (m.copy .screen (pos + index * 4) .buffer src 4).buffer (src + j % 4) := by
      funext j
      rw [hbuffer, Nat.add_mod_left]
    rwa [hsource, ← hnext]

theorem fillLoop_touches {src left index : Nat} (hsrc : bufferPtr w q q.sourceX q.sourceY = src)
    (h : m.Touches P) (hpos : ∀ i < left, pos + (index + i) * 4 < 2 ^ w)
    (hscreen : ∀ j < left * 4, P .screen (pos + index * 4 + j))
    (hread : ∀ j < 4, P .buffer (src + j)) :
    (fillLoop w q (pos % 2 ^ w) left index m).Touches P := by
  induction left generalizing index m with
  | zero => exact h
  | succ left ih =>
    have hptr : (pos % 2 ^ w + index * 4) % 2 ^ w = pos + index * 4 := by
      rw [Nat.mod_add_mod]
      exact Nat.mod_eq_of_lt (by simpa using hpos 0 (Nat.succ_pos _))
    rw [fillLoop, hptr, hsrc]
    apply ih (h.copy (fun j hj => hscreen j (by omega)) hread)
    · intro i hi
      have := hpos (i + 1) (by omega)
      omega
    · intro j hj
      have hat := hscreen (j + 4) (by omega)
      have hsum : pos + index * 4 + (j + 4) = pos + (index + 1) * 4 + j := by omega
      rwa [hsum] at hat

theorem toVideoRow_written (hsize : rowSize w q = q.width * 4) (hpos : pos + q.width * 4 ≤ 2 ^ w)
    (hsrc : sourceAt w s q y < 2 ^ w) (hwidth : 0 < q.width) :
    RowWritten m.screen (toVideoRow w s q (pos % 2 ^ w) (y % 2 ^ w) m).screen pos (q.width * 4)
        (rowSource w s q m y) ∧
      (toVideoRow w s q (pos % 2 ^ w) (y % 2 ^ w) m).buffer = m.buffer := by
  have hpos0 : pos % 2 ^ w = pos := Nat.mod_eq_of_lt (by omega)
  unfold toVideoRow rowSource
  unfold sourceAt at hsrc
  cases hop : q.operation with
  | videoFill =>
    simp only [hop] at hsrc
    have hptr : bufferPtr w q q.sourceX q.sourceY = bufferAt w q q.sourceX q.sourceY :=
      Nat.mod_eq_of_lt hsrc
    have hpixels : ∀ i < q.width, pos + (0 + i) * 4 < 2 ^ w := fun i hi => by omega
    simpa using fillLoop_written (m := m) hptr hpixels
  | bltBufferToVideo =>
    simp only [hop] at hsrc
    simp only
    rw [bufferPtr_mod, Nat.mod_eq_of_lt hsrc, hsize, hpos0]
    exact copy_screen .buffer pos _ _ m
  | _ =>
    simp only [hop] at hsrc
    simp only
    rw [screenPtr_mod, Nat.mod_eq_of_lt hsrc, hsize, hpos0]
    exact copy_screen .screen pos _ _ m

theorem toVideoRow_touches (hsize : rowSize w q = q.width * 4) (hpos : pos + q.width * 4 ≤ 2 ^ w)
    (hsrc : sourceAt w s q y < 2 ^ w) (hwidth : 0 < q.width) (h : m.Touches P)
    (hscreen : ∀ j < q.width * 4, P .screen (pos + j)) (hread : RowRead w s q P y) :
    (toVideoRow w s q (pos % 2 ^ w) (y % 2 ^ w) m).Touches P := by
  have hpos0 : pos % 2 ^ w = pos := Nat.mod_eq_of_lt (by omega)
  unfold toVideoRow
  unfold RowRead at hread
  unfold sourceAt at hsrc
  cases hop : q.operation with
  | videoFill =>
    simp only [hop] at hsrc hread
    have hptr : bufferPtr w q q.sourceX q.sourceY = bufferAt w q q.sourceX q.sourceY :=
      Nat.mod_eq_of_lt hsrc
    have hpixels : ∀ i < q.width, pos + (0 + i) * 4 < 2 ^ w := fun i hi => by omega
    exact fillLoop_touches hptr h hpixels (by simpa using hscreen) hread
  | bltBufferToVideo =>
    simp only [hop] at hsrc hread
    simp only
    rw [bufferPtr_mod, Nat.mod_eq_of_lt hsrc, hsize, hpos0]
    exact h.copy hscreen hread
  | _ =>
    simp only [hop] at hsrc hread
    simp only
    rw [screenPtr_mod, Nat.mod_eq_of_lt hsrc, hsize, hpos0]
    exact h.copy hscreen hread

theorem pixelAt_add (x y r : Nat) :
    pixelAt s x (y + r) = pixelAt s x y + r * (s.horizontalResolution * 4) := by
  rw [pixelAt, pixelAt]
  ring

/-- The first row changes no later row of the source. -/
theorem rowSource_next {m₁ : Memory} {height r j : Nat} {source : Nat → Byte}
    (hrow : RowWritten m.screen m₁.screen pos (q.width * 4) source) (hbuffer : m₁.buffer = m.buffer)
    (hclear : q.operation = .videoToVideo → RowsClear pos (pixelAt s q.sourceX y)
      (s.horizontalResolution * 4) (q.width * 4) (height + 1))
    (hop : q.operation ≠ .videoToBltBuffer ∧ q.operation ≠ .invalid) (hr : r < height)
    (hj : j < q.width * 4) :
    rowSource w s q m₁ (y + 1 + r) j = rowSource w s q m (y + (r + 1)) j := by
  have hy : y + 1 + r = y + (r + 1) := by omega
  rw [hy]
  unfold rowSource
  cases hoperation : q.operation with
  | videoFill => simp only [hbuffer]
  | bltBufferToVideo => simp only [hbuffer]
  | videoToVideo =>
    have hout := hclear hoperation (r + 1) (Nat.succ_pos r) (by omega)
    simp only
    rw [pixelAt_add]
    exact hrow.unchanged (by omega) hj
  | videoToBltBuffer => exact absurd hoperation hop.1
  | invalid => exact absurd hoperation hop.2

/-- What the loop to the screen needs of its rows. -/
structure RowsReady (w : Nat) (s : Uga) (q : Request) (height pos y : Nat) : Prop where
  screen : ∀ r < height, pos + r * (s.horizontalResolution * 4) + q.width * 4 ≤ 2 ^ w
  source : ∀ r < height, sourceAt w s q (y + r) < 2 ^ w

theorem RowsReady.tail {height : Nat} (h : RowsReady w s q (height + 1) pos y) :
    RowsReady w s q height (pos + s.horizontalResolution * 4) (y + 1) where
  screen r hr := next_row pos _ r ▸ h.screen (r + 1) (by omega)
  source r hr := by
    have hy : y + 1 + r = y + (r + 1) := by omega
    rw [hy]
    exact h.source (r + 1) (by omega)

theorem toVideoLoop_written {height : Nat} (hsize : rowSize w q = q.width * 4)
    (hwidth : 0 < q.width) (hfits : q.width ≤ s.horizontalResolution) (hready : RowsReady w s q height pos y)
    (hclear : q.operation = .videoToVideo → RowsClear pos (pixelAt s q.sourceX y)
      (s.horizontalResolution * 4) (q.width * 4) height)
    (hop : q.operation ≠ .videoToBltBuffer ∧ q.operation ≠ .invalid) :
    RowsWritten m.screen (toVideoLoop w s q height (pos % 2 ^ w) (y % 2 ^ w) m).screen pos
        (s.horizontalResolution * 4) (q.width * 4) height
        (fun r => rowSource w s q m (y + r)) ∧
      (toVideoLoop w s q height (pos % 2 ^ w) (y % 2 ^ w) m).buffer = m.buffer := by
  induction height generalizing pos y m with
  | zero => exact ⟨.zero _ _ _ _ _, rfl⟩
  | succ height ih =>
    have hscreen := hready.screen 0 (Nat.succ_pos _)
    have hsource := hready.source 0 (Nat.succ_pos _)
    rw [Nat.zero_mul, Nat.add_zero] at hscreen
    obtain ⟨hrow, hbuffer⟩ := toVideoRow_written (m := m) hsize hscreen hsource hwidth
    rw [toVideoLoop, nextScreenPtr_eq, Nat.mod_add_mod]
    generalize toVideoRow w s q (pos % 2 ^ w) (y % 2 ^ w) m = m₁ at hrow hbuffer ⊢
    obtain ⟨hrest, hsame⟩ := ih (m := m₁) hready.tail fun hvideo => by
      have htail := (hclear hvideo).tail
      rwa [← Nat.one_mul (s.horizontalResolution * 4), ← pixelAt_add, Nat.one_mul] at htail
    have hothers : RowsWritten m₁.screen _ (pos + s.horizontalResolution * 4)
        (s.horizontalResolution * 4) (q.width * 4) height
        (fun r => rowSource w s q m (y + (r + 1))) :=
      hrest.congr fun r hr j hj => rowSource_next hrow hbuffer hclear hop hr hj
    exact ⟨.cons hrow hothers (.inl (Nat.mul_le_mul_right 4 hfits)), hsame.trans hbuffer⟩

theorem toVideoLoop_touches {height : Nat} (hsize : rowSize w q = q.width * 4)
    (hwidth : 0 < q.width) (hready : RowsReady w s q height pos y) (h : m.Touches P)
    (hscreen : ∀ r < height, ∀ j < q.width * 4,
      P .screen (pos + r * (s.horizontalResolution * 4) + j))
    (hread : ∀ r < height, RowRead w s q P (y + r)) :
    (toVideoLoop w s q height (pos % 2 ^ w) (y % 2 ^ w) m).Touches P := by
  induction height generalizing pos y m with
  | zero => exact h
  | succ height ih =>
    have hfirst := hready.screen 0 (Nat.succ_pos _)
    have hsource := hready.source 0 (Nat.succ_pos _)
    rw [Nat.zero_mul, Nat.add_zero] at hfirst
    rw [toVideoLoop, nextScreenPtr_eq, Nat.mod_add_mod]
    apply ih hready.tail
    · exact toVideoRow_touches hsize hfirst hsource hwidth h
        (by simpa using hscreen 0 (Nat.succ_pos _)) (hread 0 (Nat.succ_pos _))
    · exact fun r hr => next_row pos _ r ▸ hscreen (r + 1) (by omega)
    · intro r hr
      have hy : y + 1 + r = y + (r + 1) := by omega
      rw [hy]
      exact hread (r + 1) (by omega)

end ToVideo

end EfiCore.Console
