import EfiCore.Ebc.Access

/-! # Byte-addressable memory

What a program means by an address is a byte: `Stack.denote` says which.  A routine translates an
access in pieces; memory is byte-addressable as long as no piece reaches over an edge of the gap.
-/

namespace EfiCore.Ebc

open EfiCore.Lib

/-- The byte that an address of the program denotes. -/
def Stack.denote (A : Arch) (s : Stack) (addr : Nat) : Nat :=
  if s.lowStackTop ≤ addr ∧ addr < s.highStackBottom then
    A.add (A.sub addr s.lowStackTop) s.highStackBottom
  else addr

/-- The bytes that the `n` addresses from `addr` on denote. -/
def Stack.denoted (A : Arch) (s : Stack) (addr n : Nat) : List Addr :=
  (hostRange A addr n).map (s.denote A)

/-- No address wraps, and the `VM_CONTEXT` is left alone. -/
structure Stack.Fits (A : Arch) (s : Stack) (addr n : Nat) : Prop where
  bound : addr + n ≤ 2 ^ A.bits
  translated : ∀ a, addr ≤ a → a < addr + n → s.lowStackTop ≤ a → a < s.highStackBottom →
    a - s.lowStackTop + s.highStackBottom < 2 ^ A.bits
  outside : ∀ a, addr ≤ a → a < addr + n → a < s.vmPtr ∨ s.vmPtr + sizeofVmContext A ≤ a
  denoted : ∀ a ∈ s.denoted A addr n, a < s.vmPtr ∨ s.vmPtr + sizeofVmContext A ≤ a

namespace Call

variable (A : Arch) (s : Stack)

def addr : Call → Nat
  | .write _ addr _ => addr
  | .read _ addr => addr

def bytes : Call → Nat
  | .write width _ _ => width.bytes A
  | .read width _ => width.bytes A

/-- What a call means. -/
def effect (m : Memory) (call : Call) : Option Nat × Memory :=
  call.effectAt A m (s.denoted A call.addr (call.bytes A))

end Call

def effectAll (A : Arch) (s : Stack) : List Call → Memory → List (Option Nat) × Memory
  | [], m => ([], m)
  | call :: calls, m =>
    let (value, m) := call.effect A s m
    let (values, m) := effectAll A s calls m
    (value :: values, m)

/-! ## Pieces -/

/-- The bytes lie on one side of both edges of the gap.  The byte right behind the `VM_CONTEXT` is
not translated: `ConvertStackAddr` compares with `>`. -/
def Stack.OneSide (A : Arch) (s : Stack) (addr n : Nat) : Prop :=
  addr + n ≤ s.lowStackTop ∨ s.highStackBottom ≤ addr ∨
    s.lowStackTop ≤ addr ∧ addr + n ≤ s.highStackBottom ∧ addr ≠ s.vmPtr + sizeofVmContext A

/-- An access of `2 ^ k` bytes that no edge of the gap cuts.  One that starts below the gap is
translated in halves when it is not aligned, down to pieces of `2 ^ least` bytes. -/
def Stack.Uncut (A : Arch) (s : Stack) (least : Nat) : Nat → Nat → Prop
  | 0, addr => s.OneSide A addr 1
  | k + 1, addr => s.OneSide A addr (2 ^ (k + 1)) ∨
    least ≤ k ∧ ¬isAligned addr (2 ^ (k + 1)) ∧ addr < s.lowStackTop ∧
      Uncut A s least k addr ∧ Uncut A s least k (addr + 2 ^ k)

/-- The binary logarithm of the number of bytes. -/
def Width.log (A : Arch) : Width → Nat
  | .w8 => 0
  | .w16 => 1
  | .w32 => 2
  | .w64 => 3
  | .natural => match A with
    | .efi32 => 2
    | .efi64 => 3

/-- The smallest pieces are bytes for a write and words for a read; `VmReadMemN` takes the whole. -/
def Call.Uncut (A : Arch) (s : Stack) : Call → Prop
  | .write width addr _ => s.Uncut A 0 (width.log A) addr
  | .read .natural addr => s.Uncut A (Width.natural.log A) (Width.natural.log A) addr
  | .read width addr => s.Uncut A 1 (width.log A) addr

variable {A : Arch} {s s' : Stack} {h h' : Host} {addr n : Nat}

/-! ## Ranges -/

theorem hostRange_eq (hbound : addr + n ≤ 2 ^ A.bits) : hostRange A addr n = List.range' addr n := by
  induction n generalizing addr with
  | zero => rfl
  | succ n ih =>
    rw [hostRange, List.range'_succ]
    cases n with
    | zero => rfl
    | succ n =>
      have hnext : A.add addr 1 = addr + 1 := Nat.mod_eq_of_lt (by omega)
      rw [hnext, ih (by omega)]

theorem Stack.denote_of_out {a : Nat} (h : a < s.lowStackTop ∨ s.highStackBottom ≤ a) :
    s.denote A a = a := by
  have hout : ¬(s.lowStackTop ≤ a ∧ a < s.highStackBottom) := by omega
  rw [Stack.denote, if_neg hout]

theorem Stack.translate_eq {a : Nat} (hlow : s.lowStackTop ≤ a)
    (hbound : a < 2 ^ A.bits) (hwrap : a - s.lowStackTop + s.highStackBottom < 2 ^ A.bits) :
    A.add (A.sub a s.lowStackTop) s.highStackBottom = a - s.lowStackTop + s.highStackBottom := by
  have hsub : A.sub a s.lowStackTop = a - s.lowStackTop := by
    have hover : a + 2 ^ A.bits - s.lowStackTop = a - s.lowStackTop + 2 ^ A.bits := by omega
    rw [Arch.sub, hover, Nat.add_mod_right, Nat.mod_eq_of_lt (by omega)]
  rw [hsub, Arch.add, Nat.mod_eq_of_lt hwrap]

theorem Stack.denote_of_in {a : Nat} (hlow : s.lowStackTop ≤ a) (hhigh : a < s.highStackBottom)
    (hbound : a < 2 ^ A.bits) (hwrap : a - s.lowStackTop + s.highStackBottom < 2 ^ A.bits) :
    s.denote A a = a - s.lowStackTop + s.highStackBottom := by
  rw [Stack.denote, if_pos ⟨hlow, hhigh⟩, translate_eq hlow hbound hwrap]

theorem Stack.denoted_of_out (hbound : addr + n ≤ 2 ^ A.bits)
    (h : addr + n ≤ s.lowStackTop ∨ s.highStackBottom ≤ addr) :
    s.denoted A addr n = hostRange A addr n := by
  rw [Stack.denoted, hostRange_eq hbound]
  conv_rhs => rw [← List.map_id (List.range' addr n)]
  apply List.map_congr_left
  intro a ha
  have := List.mem_range'_1.mp ha
  exact Stack.denote_of_out (by omega)

theorem Stack.denoted_add {m : Nat} (h : addr + (m + n) ≤ 2 ^ A.bits) :
    s.denoted A addr (m + n) = s.denoted A addr m ++ s.denoted A (addr + m) n := by
  rw [Stack.denoted, Stack.denoted, Stack.denoted, hostRange_eq h, hostRange_eq (by omega),
    hostRange_eq (by omega), ← List.map_append, List.range'_append_1]

namespace Stack.Fits

theorem mono {m i : Nat} (h : s.Fits A addr n) (hm : i + m ≤ n) : s.Fits A (addr + i) m where
  bound := by
    have := h.bound
    omega
  translated := fun a hlow hhigh => h.translated a (by omega) (by omega)
  outside := fun a hlow hhigh => h.outside a (by omega) (by omega)
  denoted := by
    intro a ha
    have hbound := h.bound
    apply h.denoted
    rw [Stack.denoted, hostRange_eq (by omega)] at ha ⊢
    obtain ⟨b, hb, rfl⟩ := List.mem_map.mp ha
    have := List.mem_range'_1.mp hb
    exact List.mem_map_of_mem (List.mem_range'_1.mpr (by omega))

/-- The gap is moved as a whole. -/
theorem denoted_of_in (h : s.Fits A addr n) (hlow : s.lowStackTop ≤ addr)
    (hhigh : addr + n ≤ s.highStackBottom) (hn : 0 < n) :
    addr - s.lowStackTop + s.highStackBottom + n ≤ 2 ^ A.bits ∧
      s.denoted A addr n = hostRange A (addr - s.lowStackTop + s.highStackBottom) n := by
  have hbound := h.bound
  have hlast := h.translated (addr + n - 1) (by omega) (by omega) (by omega) (by omega)
  have hbase : addr - s.lowStackTop + s.highStackBottom =
      s.highStackBottom - s.lowStackTop + addr := by omega
  refine ⟨by omega, ?_⟩
  rw [Stack.denoted, hostRange_eq hbound, hostRange_eq (by omega), hbase, ← List.map_add_range']
  apply List.map_congr_left
  intro a ha
  have hmem := List.mem_range'_1.mp ha
  have hwrap := h.translated a (by omega) (by omega) (by omega) (by omega)
  rw [Stack.denote_of_in (by omega) (by omega) (by omega) hwrap]
  show _ = s.highStackBottom - s.lowStackTop + a
  omega

end Stack.Fits

/-! ## Pieces are translated as a whole -/

theorem Stack.OneSide.uncut {k least : Nat} (h : s.OneSide A addr (2 ^ k)) :
    s.Uncut A least k addr := by
  cases k with
  | zero => exact h
  | succ k => exact .inl h

/-- `addr` with the first translation of an access done. -/
structure Stack.Settled (A : Arch) (s : Stack) (least k addr base : Nat) : Prop where
  convert : s.convert A addr = base
  fits : s.Fits A base (2 ^ k)
  out : base < s.lowStackTop ∨ s.highStackBottom ≤ base
  uncut : s.Uncut A least k base
  denoted : s.denoted A base (2 ^ k) = s.denoted A addr (2 ^ k)

namespace Stack.Uncut

variable {least k : Nat}

theorem start (h : s.Uncut A least k addr) : s.OneSide A addr (2 ^ k) ∨ addr < s.lowStackTop := by
  cases k with
  | zero => exact .inl h
  | succ k =>
    obtain h | ⟨-, -, hlow, -⟩ := h
    · exact .inl h
    · exact .inr hlow

theorem settled_of_out (h : s.Uncut A least k addr) (hfits : s.Fits A addr (2 ^ k))
    (hout : addr < s.lowStackTop ∨ s.highStackBottom ≤ addr) :
    s.Settled A least k addr addr where
  convert := by
    have hconverts : s.converts A addr = false := by
      rw [Stack.converts]
      grind
    rw [Stack.convert, hconverts]
    rfl
  fits := hfits
  out := hout
  uncut := h
  denoted := rfl

theorem settled_of_in (hfits : s.Fits A addr (2 ^ k)) (hlow : s.lowStackTop ≤ addr)
    (hhigh : addr + 2 ^ k ≤ s.highStackBottom) (hne : addr ≠ s.vmPtr + sizeofVmContext A) :
    s.Settled A least k addr (addr - s.lowStackTop + s.highStackBottom) := by
  have hpos := Nat.two_pow_pos k
  obtain ⟨hbound, hdenoted⟩ := hfits.denoted_of_in hlow hhigh hpos
  have hbase := Stack.denoted_of_out (s := s) hbound (.inr (Nat.le_add_left _ _))
  have hfirst := hfits.translated addr (le_refl _) (by omega) hlow (by omega)
  have hvm := hfits.outside addr (le_refl _) (by omega)
  have hlast := hfits.bound
  have hconverts : s.converts A addr = true := by
    simp only [Stack.converts, Bool.and_eq_true, Bool.or_eq_true, decide_eq_true_eq]
    omega
  refine ⟨?_, ⟨hbound, ?_, ?_, ?_⟩, .inr (Nat.le_add_left _ _), ?_, ?_⟩
  · rw [Stack.convert, hconverts, if_pos rfl, Stack.translate_eq hlow (by omega) hfirst]
  · intro a hbase _ _ hin
    omega
  · intro a hlow hhigh
    apply hfits.denoted
    rw [hdenoted, hostRange_eq hbound]
    exact List.mem_range'_1.mpr ⟨hlow, hhigh⟩
  · rw [hbase, ← hdenoted]
    exact hfits.denoted
  · exact Stack.OneSide.uncut (.inr (.inl (Nat.le_add_left _ _)))
  · rw [hbase, hdenoted]

theorem settled (h : s.Uncut A least k addr) (hfits : s.Fits A addr (2 ^ k)) :
    ∃ base, s.Settled A least k addr base := by
  have hpos := Nat.two_pow_pos k
  obtain (h' | h' | ⟨hlow, hhigh, hne⟩) | h' := h.start
  · exact ⟨addr, h.settled_of_out hfits (by omega)⟩
  · exact ⟨addr, h.settled_of_out hfits (.inr h')⟩
  · exact ⟨_, settled_of_in hfits hlow hhigh hne⟩
  · exact ⟨addr, h.settled_of_out hfits (.inl h')⟩

end Stack.Uncut

namespace Stack.Settled

variable {least k base : Nat}

/-- No halves: the access is translated as a whole. -/
theorem whole (h : s.Settled A least k addr base) (hwhole : isAligned base (2 ^ k) ∨ k ≤ least) :
    hostRange A base (2 ^ k) = s.denoted A addr (2 ^ k) := by
  have hside : s.OneSide A base (2 ^ k) := by
    cases k with
    | zero => exact h.uncut
    | succ k =>
      obtain hside | ⟨hleast, hunaligned, -⟩ := h.uncut
      · exact hside
      · exact absurd hwhole (by grind)
  have hpos := Nat.two_pow_pos k
  have hout := h.out
  rw [← h.denoted, Stack.denoted_of_out h.fits.bound]
  unfold Stack.OneSide at hside
  omega

/-- The halves of an access. -/
theorem halves (h : s.Settled A least (k + 1) addr base) :
    s.Uncut A least k base ∧ s.Uncut A least k (base + 2 ^ k) := by
  have htwo : 2 ^ (k + 1) = 2 ^ k + 2 ^ k := by omega
  obtain hside | ⟨-, -, -, hlow, hhigh⟩ := h.uncut
  · have hout := h.out
    have hpos := Nat.two_pow_pos k
    unfold Stack.OneSide at hside
    exact ⟨Stack.OneSide.uncut (by unfold Stack.OneSide; omega),
      Stack.OneSide.uncut (by unfold Stack.OneSide; omega)⟩
  · exact ⟨hlow, hhigh⟩

end Stack.Settled

/-- An access in two halves, if it is not aligned. -/
theorem halved {f : Nat → List Addr} {least k : Nat}
    (hf : ∀ a, s.Fits A a (2 ^ k) → s.Uncut A least k a → f a = s.denoted A a (2 ^ k))
    (hfits : s.Fits A addr (2 ^ (k + 1))) (h : s.Uncut A least (k + 1) addr) :
    (if isAligned (s.convert A addr) (2 ^ (k + 1)) then
        hostRange A (s.convert A addr) (2 ^ (k + 1))
      else f (s.convert A addr) ++ f (A.add (s.convert A addr) (2 ^ k))) =
      s.denoted A addr (2 ^ (k + 1)) := by
  obtain ⟨base, hbase⟩ := h.settled hfits
  rw [hbase.convert]
  split
  case isTrue haligned => exact hbase.whole (.inl haligned)
  case isFalse =>
    have htwo : 2 ^ (k + 1) = 2 ^ k + 2 ^ k := by omega
    have hpos := Nat.two_pow_pos k
    have hbound := hbase.fits.bound
    have hnext : A.add base (2 ^ k) = base + 2 ^ k := Nat.mod_eq_of_lt (by omega)
    obtain ⟨hlow, hhigh⟩ := hbase.halves
    have hfits : s.Fits A base (2 ^ k + 2 ^ k) := htwo ▸ hbase.fits
    rw [hnext, hf base (hfits.mono (i := 0) (by omega)) hlow, hf _ (hfits.mono (by omega)) hhigh,
      ← Stack.denoted_add (by omega), ← htwo, hbase.denoted]

theorem writeAddrs8_eq (hfits : s.Fits A addr 1) (h : s.Uncut A 0 0 addr) :
    writeAddrs8 A s addr = s.denoted A addr 1 := by
  obtain ⟨base, hbase⟩ := h.settled hfits
  rw [writeAddrs8, hbase.convert]
  exact hbase.whole (.inr (le_refl 0))

theorem writeAddrs16_eq (hfits : s.Fits A addr 2) (h : s.Uncut A 0 1 addr) :
    writeAddrs16 A s addr = s.denoted A addr 2 :=
  halved (fun _ => writeAddrs8_eq) hfits h

theorem writeAddrs32_eq (hfits : s.Fits A addr 4) (h : s.Uncut A 0 2 addr) :
    writeAddrs32 A s addr = s.denoted A addr 4 :=
  halved (fun _ => writeAddrs16_eq) hfits h

theorem readAddrs16_eq (hfits : s.Fits A addr 2) (h : s.Uncut A 1 1 addr) :
    readAddrs16 A s addr = s.denoted A addr 2 := by
  obtain ⟨base, hbase⟩ := h.settled hfits
  rw [readAddrs16, hbase.convert]
  exact hbase.whole (.inr (le_refl 1))

theorem readAddrs32_eq (hfits : s.Fits A addr 4) (h : s.Uncut A 1 2 addr) :
    readAddrs32 A s addr = s.denoted A addr 4 :=
  halved (fun _ => readAddrs16_eq) hfits h

/-- `VmWriteMemN` writes as `VmWriteMem32` or as `VmWriteMem64` does. -/
theorem writeAddrs_natural (hfits : s.Fits A addr A.pointerSize)
    (h : s.Uncut A 0 (Width.natural.log A) addr) :
    Width.natural.writeAddrs A s addr = s.denoted A addr A.pointerSize := by
  cases A with
  | efi32 =>
    obtain ⟨base, hbase⟩ := Stack.Uncut.settled (k := 2) h hfits
    have hbound : base + 4 ≤ 2 ^ Arch.bits .efi32 := hbase.fits.bound
    have hzero : Arch.efi32.add base 0 = base := Nat.mod_eq_of_lt (by omega)
    rw [Width.writeAddrs, hbase.convert]
    split
    case isTrue haligned => exact hbase.whole (.inl haligned)
    case isFalse =>
      have hone : List.range (Arch.pointerSize .efi32 / 4) = [0] := rfl
      rw [hone, List.flatMap_singleton, Nat.zero_mul, hzero,
        writeAddrs32_eq hbase.fits hbase.uncut]
      exact hbase.denoted
  | efi64 =>
    have hhalved := halved (k := 2) (fun _ => writeAddrs32_eq) hfits h
    obtain ⟨base, hbase⟩ := Stack.Uncut.settled (k := 3) h hfits
    have hbound : base + 8 ≤ 2 ^ Arch.bits .efi64 := hbase.fits.bound
    have hzero : Arch.efi64.add base 0 = base := Nat.mod_eq_of_lt (by omega)
    have htwo : List.range (Arch.pointerSize .efi64 / 4) = [0, 1] := rfl
    rw [hbase.convert] at hhalved
    rw [Width.writeAddrs, htwo, hbase.convert, List.flatMap_cons, List.flatMap_singleton,
      Nat.zero_mul, Nat.one_mul, hzero]
    exact hhalved

namespace Call

variable {call : Call}

theorem touches_eq (hfits : s.Fits A call.addr (call.bytes A)) (h : call.Uncut A s) :
    call.touches A s = s.denoted A call.addr (call.bytes A) := by
  cases call with
  | write width addr data =>
    cases width
    case w8 => exact writeAddrs8_eq hfits h
    case w16 => exact writeAddrs16_eq hfits h
    case w32 => exact writeAddrs32_eq hfits h
    case w64 => exact halved (fun _ => writeAddrs32_eq) hfits h
    case natural => exact writeAddrs_natural hfits h
  | read width addr =>
    cases width
    case w8 =>
      obtain ⟨base, hbase⟩ := Stack.Uncut.settled (k := 0) h hfits
      rw [touches, Width.readAddrs, hbase.convert]
      exact hbase.whole (.inr (Nat.zero_le 1))
    case w16 => exact readAddrs16_eq hfits h
    case w32 => exact readAddrs32_eq hfits h
    case w64 => exact halved (fun _ => readAddrs32_eq) hfits h
    case natural =>
      have hbytes : 2 ^ Width.natural.log A = A.pointerSize := by cases A <;> rfl
      rw [bytes, Width.bytes, ← hbytes] at hfits
      obtain ⟨base, hbase⟩ := Stack.Uncut.settled h hfits
      rw [touches, Width.readAddrs, hbase.convert, bytes, Width.bytes, ← hbytes]
      exact hbase.whole (.inr (le_refl _))

/-- A call that is not cut does what it means. -/
theorem perform_effect (hfits : h.stack.Fits A call.addr (call.bytes A))
    (huncut : call.Uncut A h.stack) :
    ((call.perform A h).1, (call.perform A h).2.memory) = call.effect A h.stack h.memory := by
  rw [call.perform_eq, effect, touches_eq hfits huncut]

end Call

/-! ## Sequences of calls -/

namespace Stack.Same

theorem denote (h : s.Same s') : s'.denote A = s.denote A := by
  funext addr
  rw [Stack.denote, Stack.denote, h.lowStackTop, h.highStackBottom]

theorem denoted (h : s.Same s') (addr n : Nat) : s'.denoted A addr n = s.denoted A addr n := by
  rw [Stack.denoted, Stack.denoted, h.denote]

theorem fits (h : s.Same s') (hfits : s.Fits A addr n) : s'.Fits A addr n where
  bound := hfits.bound
  translated := by
    rw [h.lowStackTop, h.highStackBottom]
    exact hfits.translated
  outside := by
    rw [h.vmPtr]
    exact hfits.outside
  denoted := by
    rw [h.vmPtr, h.denoted]
    exact hfits.denoted

theorem uncut (h : s.Same s') (least k addr : Nat) :
    s'.Uncut A least k addr ↔ s.Uncut A least k addr := by
  have hside : ∀ a n, s'.OneSide A a n ↔ s.OneSide A a n := fun a n => by
    rw [Stack.OneSide, Stack.OneSide, h.vmPtr, h.lowStackTop, h.highStackBottom]
  induction k generalizing addr with
  | zero => exact hside addr 1
  | succ k ih => simp only [Stack.Uncut, hside, ih, h.lowStackTop]

theorem call_uncut (h : s.Same s') {call : Call} (huncut : call.Uncut A s) : call.Uncut A s' := by
  cases call with
  | write width addr data => exact (h.uncut _ _ _).mpr huncut
  | read width addr => cases width <;> exact (h.uncut _ _ _).mpr huncut

theorem effect (h : s.Same s') (m : Memory) (call : Call) :
    call.effect A s' m = call.effect A s m := by
  rw [Call.effect, Call.effect, h.denoted]

theorem effectAll (h : s.Same s') (m : Memory) (calls : List Call) :
    effectAll A s' calls m = effectAll A s calls m := by
  induction calls generalizing m with
  | nil => rfl
  | cons call calls ih => simp only [Ebc.effectAll, h.effect, ih]

end Stack.Same

/-- A host with its gap at 0x1000 and memory that is zero. -/
def cleared : Host where
  stack := ⟨0x3000, 0x1000, 0x2000, 0, 0⟩
  memory := fun _ => 0

theorem cleared_fits (h : addr + n ≤ 0x1800) : cleared.stack.Fits .efi64 addr n := by
  have hbound : addr + n ≤ 2 ^ Arch.bits .efi64 := by
    show addr + n ≤ 2 ^ 64
    omega
  refine ⟨hbound, ?_, ?_, ?_⟩
  · intro a _ hhigh _ _
    show a - 0x1000 + 0x2000 < 2 ^ 64
    omega
  · intro a _ hhigh
    exact .inl (show a < 0x3000 by omega)
  · intro a ha
    rw [Stack.denoted, hostRange_eq hbound] at ha
    obtain ⟨b, hb, rfl⟩ := List.mem_map.mp ha
    have hmem := List.mem_range'_1.mp hb
    have hbits : 2 ^ Arch.bits .efi64 = 0x10000000000000000 := rfl
    have hbelow : cleared.stack.denote .efi64 b < 0x3000 := by
      by_cases hlow : b < 0x1000
      · rw [Stack.denote_of_out (s := cleared.stack) (.inl hlow)]
        omega
      · have hin : cleared.stack.denote .efi64 b = b - 0x1000 + 0x2000 :=
          Stack.denote_of_in (s := cleared.stack) (Nat.le_of_not_lt hlow)
            (show b < 0x2000 by omega) (by omega)
            (show b - 0x1000 + 0x2000 < 2 ^ Arch.bits .efi64 by omega)
        omega
    exact .inl hbelow

/-- In every sequence of calls none of which is cut, each reads what was last written. -/
theorem performAll_eq_effectAll (A : Arch) (h : Host) (calls : List Call)
    (hfits : ∀ call ∈ calls, h.stack.Fits A call.addr (call.bytes A))
    (huncut : ∀ call ∈ calls, call.Uncut A h.stack) :
    (performAll A calls h).1 = (effectAll A h.stack calls h.memory).1 ∧
      (performAll A calls h).2.memory = (effectAll A h.stack calls h.memory).2 := by
  induction calls generalizing h with
  | nil => exact ⟨rfl, rfl⟩
  | cons call calls ih =>
    have hsame := call.perform_same (A := A) h
    have hcall := Call.perform_effect (hfits call List.mem_cons_self) (huncut call List.mem_cons_self)
    obtain ⟨hvalues, hmemory⟩ := ih (call.perform A h).2
      (fun c hc => hsame.fits (hfits c (List.mem_cons_of_mem call hc)))
      (fun c hc => hsame.call_uncut (huncut c (List.mem_cons_of_mem call hc)))
    rw [hsame.effectAll] at hvalues hmemory
    simp only [performAll, effectAll, ← hcall, hvalues, hmemory, and_self]

/-- An unaligned write over the lower edge of the gap, and a read behind the edge. -/
theorem performAll_cleared :
    (performAll .efi64 [.write .w32 0xffd 0x11223344, .read .w8 0x1000] cleared).1 =
      [none, some 0x11] := by
  have hall := performAll_eq_effectAll .efi64 cleared
    [.write .w32 0xffd 0x11223344, .read .w8 0x1000]
    (List.forall_mem_cons.mpr ⟨cleared_fits (by decide), List.forall_mem_singleton.mpr
      (cleared_fits (by decide))⟩)
    (List.forall_mem_cons.mpr ⟨?_, List.forall_mem_singleton.mpr ?_⟩)
  · exact hall.1.trans (by decide)
  · simp [Call.Uncut, Stack.Uncut, Stack.OneSide, Width.log, cleared, isAligned, sizeofVmContext]
  · simp [Call.Uncut, Stack.Uncut, Stack.OneSide, Width.log, cleared, sizeofVmContext]

/-- Memory is byte-addressable, whatever the calls. -/
def ByteAddressable : Prop :=
  ∀ (A : Arch) (h : Host) (calls : List Call), h.stack.lowStackTop < h.stack.highStackBottom →
    (∀ call ∈ calls, h.stack.Fits A call.addr (call.bytes A)) →
      (performAll A calls h).1 = (effectAll A h.stack calls h.memory).1

/-- `VmReadMem16` takes the byte behind the edge of the gap from the address itself. -/
theorem not_byteAddressable : ¬ByteAddressable := by
  intro hall
  have heq := hall .efi64 cleared [.write .w8 0x1000 0xab, .read .w16 0xfff] (by decide)
    (List.forall_mem_cons.mpr ⟨cleared_fits (by decide), List.forall_mem_singleton.mpr
      (cleared_fits (by decide))⟩)
  revert heq
  decide

end EfiCore.Ebc
