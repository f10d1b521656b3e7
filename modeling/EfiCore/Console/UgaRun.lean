import EfiCore.Console.UgaDraw

/-! # The virtual screen on every run

Pixels are drawn inside the screen, as long as the screen is as large as its mode says and each
request lies on it.
-/

namespace EfiCore.Console

open EfiCore.Lib

/-! ## A whole request -/

section Request

variable {w : Nat} {s : Uga} {q : Request}

theorem accepted_parts (h : rejects w s q = false) :
    q.operation ≠ .invalid ∧ 0 < q.width ∧ 0 < q.height := by
  unfold rejects at h
  simp only [Bool.or_eq_false_iff, decide_eq_false_iff_not] at h
  obtain ⟨⟨⟨hop, hwidth, hheight⟩, -⟩, -⟩ := h
  exact ⟨hop, Nat.pos_of_ne_zero hwidth, Nat.pos_of_ne_zero hheight⟩

theorem Placed.destination (h : Placed w s q) (hop : q.operation ≠ .videoToBltBuffer) :
    OnScreen s q q.destinationX q.destinationY := by
  unfold Placed at h
  cases hoperation : q.operation with
  | videoToBltBuffer => exact absurd hoperation hop
  | videoToVideo =>
    simp only [hoperation] at h
    exact h.1
  | _ => simpa only [hoperation] using h

/-- A copy on the screen from the first row to the last reads no row that it has written. -/
theorem Placed.clear (h : Placed w s q) (hop : q.operation = .videoToVideo) :
    RowsClear (pixelAt s q.destinationX q.destinationY) (pixelAt s q.sourceX q.sourceY)
      (s.horizontalResolution * 4) (q.width * 4) q.height := by
  unfold Placed at h
  simp only [hop] at h
  obtain ⟨hdestination, hsource, horder⟩ := h
  intro r hr hlt
  rw [← pixelAt_add]
  have hcolumn := Nat.mul_le_mul_right 4 hdestination.1
  have hcolumn' := Nat.mul_le_mul_right 4 hsource.1
  rw [Nat.add_mul] at hcolumn hcolumn'
  exact rows_disjoint hcolumn hcolumn' (by omega)

theorem rowsReady (hsound : s.Sound w) (hcovered : Covered w q) (hplaced : Placed w s q)
    (hop : q.operation ≠ .videoToBltBuffer ∧ q.operation ≠ .invalid) (hwidth : 0 < q.width) :
    RowsReady w s q q.height (pixelAt s q.destinationX q.destinationY) q.sourceY where
  screen r hr := by
    have hrow := (hplaced.destination hop.1).row_le hsound hr
    have := hsound.size_lt
    omega
  source r hr := by
    unfold sourceAt
    have hcover := hcovered
    unfold Covered InBuffer at hcover
    cases hoperation : q.operation with
    | videoFill =>
      simp only [hoperation] at hcover
      exact hcover _ ⟨0, by decide, rfl⟩
    | bltBufferToVideo =>
      simp only [hoperation] at hcover
      exact hcover _ ⟨r, hr, 0, by omega, rfl⟩
    | videoToVideo =>
      unfold Placed at hplaced
      simp only [hoperation] at hplaced
      have hrow := hplaced.2.1.row_le hsound hr
      have := hsound.size_lt
      simp only
      rw [pixelAt_add]
      omega
    | videoToBltBuffer => exact absurd hoperation hop.1
    | invalid => exact absurd hoperation hop.2

theorem rowRead (hsound : s.Sound w) (hplaced : Placed w s q)
    (hop : q.operation ≠ .videoToBltBuffer ∧ q.operation ≠ .invalid) {r : Nat}
    (hr : r < q.height) : RowRead w s q (MayTouch w s q) (q.sourceY + r) := by
  unfold RowRead MayTouch InBuffer
  cases hoperation : q.operation with
  | videoFill => exact fun j hj => ⟨j, hj, rfl⟩
  | bltBufferToVideo => exact fun j hj => ⟨r, hr, j, hj, rfl⟩
  | videoToVideo =>
    unfold Placed at hplaced
    simp only [hoperation] at hplaced
    have hrow := hplaced.2.1.row_le hsound hr
    intro j hj
    simp only
    rw [pixelAt_add]
    omega
  | videoToBltBuffer => exact absurd hoperation hop.1
  | invalid => exact absurd hoperation hop.2

variable {buffer : Nat → Byte} {m : Memory}

theorem RightBlt.of_rejected (heq : devNullUgaBlt w s q buffer = (false, ⟨s.ugaBlt, buffer, []⟩)) :
    RightBlt w s q buffer := by
  refine ⟨?_, ?_, ?_⟩
  · rw [heq]
    intro t ht
    exact absurd ht List.not_mem_nil
  · rw [heq]
    exact fun _ => ⟨rfl, rfl⟩
  · rw [heq]
    exact fun h => absurd h Bool.false_ne_true

theorem RightBlt.of_accepted (heq : devNullUgaBlt w s q buffer = (true, m))
    (htouches : m.Touches (MayTouch w s q)) (hdraws : Draws w s q buffer m) :
    RightBlt w s q buffer := by
  refine ⟨?_, ?_, ?_⟩
  · rwa [heq]
  · rw [heq]
    exact fun h => absurd h.symm Bool.false_ne_true
  · rw [heq]
    exact fun _ => hdraws

theorem rightBlt_toBuffer (hsound : s.Sound w) (hcovered : Covered w q)
    (haccepted : rejects w s q = false) (hplaced : Placed w s q)
    (hop : q.operation = .videoToBltBuffer) (buffer : Nat → Byte) : RightBlt w s q buffer := by
  obtain ⟨-, hwidth, hheight⟩ := accepted_parts haccepted
  have hplace := hplaced
  unfold Placed at hplace
  simp only [hop] at hplace
  obtain ⟨hscreen, hrows⟩ := hplace
  have hin : ∀ r < q.height, ∀ j < q.width * 4, MayTouch w s q .buffer
      (bufferAt w q q.destinationX q.destinationY + r * deltaOf w q + j) := by
    intro r hr j hj
    simp only [MayTouch, InBuffer, hop]
    exact ⟨r, hr, j, hj, rfl⟩
  have hpos : ∀ r < q.height,
      bufferAt w q q.destinationX q.destinationY + r * deltaOf w q < 2 ^ w :=
    fun r hr => hcovered _ (hin r hr 0 (by omega))
  have hsize := rowSize_eq hsound hscreen hheight
  have hlt := hsound.size_lt
  have hsrc : ∀ r < q.height,
      pixelAt s q.sourceX q.sourceY + r * (s.horizontalResolution * 4) < 2 ^ w := by
    intro r hr
    have := hscreen.row_le hsound hr
    omega
  have heq : devNullUgaBlt w s q buffer = (true, toBufferLoop w s q q.height
      (bufferAt w q q.destinationX q.destinationY % 2 ^ w)
      (pixelAt s q.sourceX q.sourceY % 2 ^ w) ⟨s.ugaBlt, buffer, []⟩) := by
    rw [devNullUgaBlt, haccepted, if_neg Bool.false_ne_true, if_pos hop, screenPtr_eq, bufferPtr,
      bufferAt]
  refine .of_accepted heq ?_ ?_
  · refine toBufferLoop_touches hsize (fun t ht => absurd ht List.not_mem_nil) hpos hsrc hin ?_
    intro r hr j hj
    have := hscreen.row_le hsound hr
    simp only [MayTouch]
    omega
  · obtain ⟨hwritten, hsame⟩ := toBufferLoop_written (m := ⟨s.ugaBlt, buffer, []⟩) hsize hrows
      hpos hsrc
    rw [Draws, if_pos hop]
    refine ⟨hwritten.congr fun r _ j _ => ?_, hsame⟩
    simp only [sourceOf, hop]
    rw [pixelAt_add]

theorem rightBlt_toVideo (hsound : s.Sound w) (hwords : q.Words w) (hcovered : Covered w q)
    (haccepted : rejects w s q = false) (hplaced : Placed w s q)
    (hop : q.operation ≠ .videoToBltBuffer) (buffer : Nat → Byte) : RightBlt w s q buffer := by
  obtain ⟨hvalid, hwidth, hheight⟩ := accepted_parts haccepted
  have hscreen := hplaced.destination hop
  have hsize := rowSize_eq hsound hscreen hheight
  have hready := rowsReady hsound hcovered hplaced ⟨hop, hvalid⟩ hwidth
  have hfits : q.width ≤ s.horizontalResolution := Nat.le_trans (Nat.le_add_left _ _) hscreen.1
  have hsourceY : q.sourceY % 2 ^ w = q.sourceY := Nat.mod_eq_of_lt hwords.source.2
  have heq : devNullUgaBlt w s q buffer = (true, toVideoLoop w s q q.height
      (pixelAt s q.destinationX q.destinationY % 2 ^ w) (q.sourceY % 2 ^ w)
      ⟨s.ugaBlt, buffer, []⟩) := by
    rw [devNullUgaBlt, haccepted, if_neg Bool.false_ne_true, if_neg hop, screenPtr_eq, hsourceY]
  refine .of_accepted heq ?_ ?_
  · refine toVideoLoop_touches hsize hwidth hready (fun t ht => absurd ht List.not_mem_nil) ?_
      fun r hr => rowRead hsound hplaced ⟨hop, hvalid⟩ hr
    intro r hr j hj
    have := hscreen.row_le hsound hr
    simp only [MayTouch]
    omega
  · obtain ⟨hwritten, hsame⟩ := toVideoLoop_written (m := ⟨s.ugaBlt, buffer, []⟩) hsize hwidth
      hfits hready hplaced.clear ⟨hop, hvalid⟩
    rw [Draws, if_neg hop]
    refine ⟨hwritten.congr fun r _ j _ => ?_, hsame⟩
    unfold rowSource sourceOf
    cases q.operation <;> rfl

theorem rightBlt_of_placed (hsound : s.Sound w) (hwords : q.Words w) (hcovered : Covered w q)
    (hplaced : rejects w s q = false → Placed w s q) (buffer : Nat → Byte) :
    RightBlt w s q buffer := by
  cases hrejects : rejects w s q with
  | true => exact .of_rejected (by rw [devNullUgaBlt, if_pos hrejects])
  | false =>
    by_cases hop : q.operation = .videoToBltBuffer
    · exact rightBlt_toBuffer hsound hcovered hrejects (hplaced hrejects) hop buffer
    · exact rightBlt_toVideo hsound hwords hcovered hrejects (hplaced hrejects) hop buffer

end Request

/-! ## Every run -/

/-- A call, with the buffer that the caller gives. -/
inductive UgaCall where
  | setMode (horizontalResolution verticalResolution : Nat) (allocates : Bool)
  | blt (q : Request) (buffer : Nat → Byte)

def Uga.call (w : Nat) (s : Uga) : UgaCall → Uga
  | .setMode horizontalResolution verticalResolution allocates =>
    conSpliterUgaDrawSetMode w allocates horizontalResolution verticalResolution s
  | .blt q buffer => { s with ugaBlt := (devNullUgaBlt w s q buffer).2.screen }

/-- The screen as the driver makes it: `ConSplitterTextOutConstructor` sets 800 by 600 pixels. -/
def Uga.initial (w : Nat) : Uga :=
  conSpliterUgaDrawSetMode w true 800 600 ⟨0, 0, 0, fun _ => 0⟩

def ugaMachine (w : Nat) : Machine Uga UgaCall where
  init s := s = Uga.initial w
  step s call s' := s' = s.call w call

/-- What the callers keep to. -/
def UgaCall.Proper (w : Nat) : UgaCall → Prop
  | .setMode horizontalResolution verticalResolution allocates =>
    horizontalResolution < 2 ^ 32 ∧ verticalResolution < 2 ^ 32 ∧ allocates = true
  | .blt q _ => q.Words w ∧ Covered w q

/-- Where the code is right. -/
def UgaCall.Clean (w : Nat) (s : Uga) : UgaCall → Prop
  | .setMode horizontalResolution verticalResolution _ =>
    ModeFits w s horizontalResolution verticalResolution
  | .blt q _ => rejects w s q = false → Placed w s q

section Run

variable {w : Nat} {s : Uga}

theorem Uga.Sound.setMode {horizontalResolution verticalResolution : Nat} (h : s.Sound w)
    (hfits : ModeFits w s horizontalResolution verticalResolution) :
    (conSpliterUgaDrawSetMode w true horizontalResolution verticalResolution s).Sound w := by
  unfold ModeFits at hfits
  unfold conSpliterUgaDrawSetMode
  split at hfits
  case isTrue hboth =>
    obtain ⟨hpixels, hbytes⟩ := hfits
    rw [if_pos hboth, if_pos rfl]
    have hsize : horizontalResolution * verticalResolution % 2 ^ 32 * 4 % 2 ^ w =
        horizontalResolution * verticalResolution * 4 := by
      rw [Nat.mod_eq_of_lt hpixels, Nat.mod_eq_of_lt hbytes]
    refine ⟨?_, ?_⟩
    · simp only [hsize]
      rw [← Nat.mul_assoc, Nat.mul_comm verticalResolution]
    · simp only [hsize]
      exact hbytes
  case isFalse hone =>
    rw [if_neg hone]
    exact ⟨hfits, h.size_lt⟩

theorem Uga.Sound.initial (hw : 32 ≤ w) : (Uga.initial w).Sound w := by
  have hpow : 2 ^ 32 ≤ 2 ^ w := Nat.pow_le_pow_right (by decide) hw
  have hnull : (⟨0, 0, 0, fun _ => 0⟩ : Uga).Sound w := ⟨Nat.le_refl _, Nat.two_pow_pos w⟩
  refine hnull.setMode ?_
  rw [ModeFits, if_pos (by decide)]
  exact ⟨by decide, Nat.lt_of_lt_of_le (by decide) hpow⟩

theorem Uga.Sound.call (h : s.Sound w) {call : UgaCall} (hproper : call.Proper w)
    (hclean : call.Clean w s) : (s.call w call).Sound w := by
  cases call with
  | setMode horizontalResolution verticalResolution allocates =>
    obtain ⟨-, -, rfl⟩ := hproper
    exact h.setMode hclean
  | blt q buffer => exact ⟨h.pixels, h.size_lt⟩

/-- Every request to the screen is treated as it should be, after every run in which each mode
fits its buffer and each request accepted lies on the screen. -/
theorem ugaBlt_right (hw : 32 ≤ w)
    (h : (ugaMachine w).Reach (fun s call => call.Proper w ∧ call.Clean w s) s) {q : Request}
    {buffer : Nat → Byte} (hproper : (UgaCall.blt q buffer).Proper w)
    (hclean : (UgaCall.blt q buffer).Clean w s) : RightBlt w s q buffer := by
  have hsound : s.Sound w := by
    refine Machine.Reach.rule ?_ ?_ h
    · rintro _ rfl
      exact .initial hw
    · rintro s call _ hs ⟨hproper, hclean⟩ rfl
      exact hs.call hproper hclean
  exact rightBlt_of_placed hsound hproper.1 hproper.2 hclean buffer

/-- A block of 24 by 8 pixels of the caller's buffer. -/
def block (x y : Nat) : Request where
  operation := .bltBufferToVideo
  sourceX := 2
  sourceY := 3
  destinationX := x
  destinationY := y
  width := 24
  height := 8
  delta := 128

theorem block_proper {x y : Nat} (hx : x < 2 ^ 32) (hy : y < 2 ^ 32) (buffer : Nat → Byte) :
    (UgaCall.blt (block x y) buffer).Proper 32 := by
  refine ⟨⟨⟨?_, ?_⟩, ⟨hx, hy⟩, ⟨?_, ?_⟩, ?_⟩, ?_⟩
  iterate 5 exact Nat.le_of_ble_eq_true rfl
  rintro k ⟨r, hr, j, hj, rfl⟩
  change r < 8 at hr
  change j < 96 at hj
  change (3 + r) * 128 + 2 * 4 + j < 2 ^ 32
  omega

theorem largerMode_fits : ModeFits 32 (Uga.initial 32) 1024 768 := by
  rw [ModeFits, if_pos (by decide)]
  exact ⟨by decide, by decide⟩

/-- A block in the last corner of a larger mode, after one where the first mode had its own. -/
theorem block_right : RightBlt 32 (((Uga.initial 32).call 32 (.setMode 1024 768 true)).call 32
    (.blt (block 776 592) fun k => k)) (block 1000 760) fun k => 3 * k := by
  have hmode : (UgaCall.setMode 1024 768 true).Proper 32 := ⟨by decide, by decide, rfl⟩
  have hfirst : (ugaMachine 32).Reach (fun s call => call.Proper 32 ∧ call.Clean 32 s)
      ((Uga.initial 32).call 32 (.setMode 1024 768 true)) :=
    (Machine.Reach.start rfl).next ⟨hmode, largerMode_fits⟩ rfl
  have hplaced : (UgaCall.blt (block 776 592) fun k => k).Clean 32
      ((Uga.initial 32).call 32 (.setMode 1024 768 true)) := fun _ => ⟨by decide, by decide⟩
  have hsecond := hfirst.next ⟨block_proper (by decide) (by decide) _, hplaced⟩ rfl
  exact ugaBlt_right (by decide) hsecond (block_proper (by decide) (by decide) _)
    fun _ => ⟨by decide, by decide⟩

/-- One pixel in the last row. -/
def lastPixel : Request where
  operation := .videoFill
  sourceX := 0
  sourceY := 0
  destinationX := 0
  destinationY := 599
  width := 1
  height := 1
  delta := 4

/-- Twice as many columns and no new buffer: the pixel is written behind the old one. -/
theorem wideScreen_not_right : ∃ s, (ugaMachine 32).Reach (fun _ call => call.Proper 32) s ∧
    (UgaCall.blt lastPixel fun _ => 0xff).Proper 32 ∧
    ¬RightBlt 32 s lastPixel fun _ => 0xff := by
  have hmode : (UgaCall.setMode 1600 600 true).Proper 32 := ⟨by decide, by decide, rfl⟩
  have hpixel : (UgaCall.blt lastPixel fun _ => 0xff).Proper 32 := by
    refine ⟨⟨by decide, by decide, by decide, by decide⟩, ?_⟩
    rintro k ⟨j, hj, rfl⟩
    exact Nat.lt_of_lt_of_le (Nat.add_lt_add_left hj _) (by decide)
  refine ⟨(Uga.initial 32).call 32 (.setMode 1600 600 true),
    (Machine.Reach.start rfl).next hmode rfl, hpixel, fun h => ?_⟩
  have htouch : 3833600 < ((Uga.initial 32).call 32 (.setMode 1600 600 true)).size :=
    h.touches ⟨.screen, 3833600, 4⟩ (by decide) 0 (by decide)
  revert htouch
  decide

end Run

end EfiCore.Console
