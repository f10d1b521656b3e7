import EfiCore.Console.Decoding
import EfiCore.Console.Simulation

/-! # Input of a terminal (`TerminalConIn.c`)

From the serial device to the keys that a caller reads, through three FIFOs.
-/

namespace EfiCore.Console

open EfiCore.Uni (Char16)

inductive TerminalType where
  | pcAnsi
  | vt100
  | vt100Plus
  | vtUtf8
  deriving DecidableEq

/-- What the input side uses of `TERMINAL_DEV`. -/
structure Device where
  terminalType : TerminalType
  raw : Fifo Byte
  unicode : Fifo Char16
  efiKey : Fifo InputKey
  terminal : Terminal

namespace Device

/-- The loop around `GetOneKeyFromSerial`, over the bytes that `Read` gives before it fails. A
byte of 0 is an error and ends it too. -/
def fetch (d : Device) : List Byte → Device
  | [] => d
  | input :: serial =>
    if input = 0 then d
    else fetch { d with raw := rawFiFoInsertOneKey d.raw input } serial

/-- `AnsiRawDataToUnicode`, in at most `fuel` turns. -/
def ansiRawDataToUnicode : Nat → Device → Device
  | 0, d => d
  | fuel + 1, d =>
    match rawFiFoRemoveOneKey d.raw with
    | (none, _) => d
    | (some rawData, raw) =>
      ansiRawDataToUnicode fuel
        { d with raw := raw, unicode := unicodeFiFoInsertOneKey d.unicode (rawData.setWidth 16) }

/-- No FIFO gives more elements than it has cells. -/
def rawDataToUnicode (d : Device) (utf8Char : Utf8Char) : Device :=
  match d.terminalType with
  | .vtUtf8 =>
    let (raw, unicode) :=
      vtutf8RawDataToUnicode (rawFifoMaxNumber + 1) d.raw d.unicode utf8Char
    { d with raw := raw, unicode := unicode }
  | _ => ansiRawDataToUnicode (rawFifoMaxNumber + 1) d

/-- The translation goes on to `t`; the keys that it inserted since go into the FIFO. -/
def advance (d : Device) (t : Terminal) : Device :=
  { d with
    terminal := t
    efiKey := (t.keys.drop d.terminal.keys.length).foldl efiKeyFiFoInsertOneKey d.efiKey }

/-- The loop of `UnicodeToEfiKey`, in at most `fuel` turns. -/
def translateLoop (signalled : Nat → Bool) : Nat → Device → Device
  | 0, d => d
  | fuel + 1, d =>
    match unicodeFiFoRemoveOneKey d.unicode with
    | (none, _) => d
    | (some unicodeChar, unicode) =>
      let t := (d.terminal.await signalled).translate unicodeChar
      translateLoop signalled fuel
        ({ d with unicode := unicode }.advance { t with read := t.read + 1 })

def unicodeToEfiKey (signalled : Nat → Bool) (d : Device) : Device :=
  translateLoop signalled (fifoMaxNumber + 1) (d.advance (d.terminal.checkTimeOut signalled))

/-- `TerminalConInCheckForKey`; `EFI_SUCCESS` if a key waits. Nothing is fetched if the serial
buffer is empty. -/
def checkForKey (signalled : Nat → Bool) (garbage : Utf8Char) (d : Device)
    (serial : List Byte) : Bool × Device :=
  let d := ((d.fetch serial).rawDataToUnicode garbage).unicodeToEfiKey signalled
  (!d.efiKey.isEmpty, d)

/-- `TerminalConInReadKeyStroke`; no key if there is none. -/
def readKeyStroke (signalled : Nat → Bool) (garbage : Utf8Char) (d : Device)
    (serial : List Byte) : Option InputKey × Device :=
  match d.checkForKey signalled garbage serial with
  | (false, d) => (none, d)
  | (true, d) =>
    let (key, efiKey) := efiKeyFiFoRemoveOneKey d.efiKey
    (key, { d with efiKey := efiKey })

end Device

/-- A call with the bytes that the serial device gives to it: `ReadKeyStroke` or, from the
notification of the key event, `TerminalConInCheckForKey` alone. -/
structure Call where
  readKey : Bool
  serial : List Byte
  /-- What stands in `Utf8Char` before it is set. -/
  garbage : Utf8Char

namespace Device

def step (signalled : Nat → Bool) (d : Device) (call : Call) : Device :=
  if call.readKey then (d.readKeyStroke signalled call.garbage call.serial).2
  else (d.checkForKey signalled call.garbage call.serial).2

def run (signalled : Nat → Bool) (d : Device) (calls : List Call) : Device :=
  calls.foldl (step signalled) d

/-- Every call of a run satisfies `P` with the device that it finds. -/
def Along (signalled : Nat → Bool) (P : Device → Call → Prop) (d : Device) : List Call → Prop
  | [] => True
  | call :: calls => P d call ∧ Along signalled P (d.step signalled call) calls

/-- A device with three empty FIFOs, as it is started. -/
structure Started (d : Device) : Prop where
  raw : d.raw.Carries 256 [] ∧ d.raw.inserted = []
  unicode : d.unicode.Carries 129 [] ∧ d.unicode.inserted = []
  efiKey : d.efiKey.Carries 129 [] ∧ d.efiKey.inserted = []
  terminal : d.terminal = .initial

/-- The limits within which input has to be right. -/
structure Within (signalled : Nat → Bool) (d : Device) (call : Call) : Prop where
  nonzero : ∀ b ∈ call.serial, b ≠ 0
  raw : call.serial.length ≤ 256
  unicode : ((d.fetch call.serial).rawDataToUnicode call.garbage).unicode.pending ≤ 128
  efiKey : (d.checkForKey signalled call.garbage call.serial).2.efiKey.pending ≤ 128

/-- Where it is: the indexes of the raw FIFO do not count more bytes. -/
structure Clean (d : Device) (call : Call) : Prop where
  raw : call.serial.length ≤ 255
  regular : d.terminalType = .vtUtf8 → Regular call.serial

/-- Nothing is lost and nothing is invented. -/
structure Exact (arrived : List Byte) (d : Device) : Prop where
  fetched : d.raw.inserted = arrived
  raw : d.raw.Delivers 256
  unicode : d.unicode.Delivers 129
  efiKey : d.efiKey.Delivers 129
  translated : d.efiKey.inserted = d.terminal.keys
  decoded : d.terminalType = .vtUtf8 → Decodes arrived d.unicode.inserted

end Device

/-! ## One call -/

namespace Device

variable {signalled : Nat → Bool} {d d' d'' : Device} {serial l : List Byte}

theorem fetch_eq (h : ∀ b ∈ serial, b ≠ 0) :
    d.fetch serial = { d with raw := serial.foldl rawFiFoInsertOneKey d.raw } := by
  induction serial generalizing d with
  | nil => rfl
  | cons b serial ih =>
    obtain ⟨hb, hserial⟩ := List.forall_mem_cons.mp h
    rw [fetch, if_neg hb, ih hserial]
    rfl

theorem ansi_eq {fuel : Nat} (h : d.raw.Carries 256 l) (hfuel : l.length ≤ fuel) :
    ∃ raw', raw'.Carries 256 [] ∧ raw'.inserted = d.raw.inserted ∧
      ansiRawDataToUnicode fuel d = { d with
        raw := raw'
        unicode := (l.map (·.setWidth 16)).foldl unicodeFiFoInsertOneKey d.unicode } := by
  induction fuel generalizing d l with
  | zero =>
    have hnil : l = [] := List.eq_nil_of_length_eq_zero (Nat.le_zero.mp hfuel)
    subst hnil
    exact ⟨d.raw, h, rfl, rfl⟩
  | succ fuel ih =>
    cases l with
    | nil =>
      rw [ansiRawDataToUnicode, rawFiFoRemoveOneKey, h.remove_nil]
      exact ⟨d.raw, h, rfl, rfl⟩
    | cons b l =>
      obtain ⟨raw, hremove, hcarries, hinserted⟩ := h.remove_cons Fifo.cells_raw
      rw [ansiRawDataToUnicode, rawFiFoRemoveOneKey, hremove]
      obtain ⟨raw', hnil, hlog, heq⟩ := ih (d := { d with
        raw := raw, unicode := unicodeFiFoInsertOneKey d.unicode (b.setWidth 16) }) hcarries
        (Nat.le_of_succ_le_succ hfuel)
      exact ⟨raw', hnil, hlog.trans hinserted, heq⟩

/-- The characters that the bytes of one call give. -/
def charsOf (d : Device) (garbage : Utf8Char) (l : List Byte) : List Char16 :=
  if d.terminalType = .vtUtf8 then decode l (.start garbage) else l.map (·.setWidth 16)

theorem rawDataToUnicode_eq (h : d.raw.Carries 256 l) (garbage : Utf8Char) :
    ∃ raw', raw'.Carries 256 [] ∧ raw'.inserted = d.raw.inserted ∧
      d.rawDataToUnicode garbage = { d with
        raw := raw'
        unicode := (d.charsOf garbage l).foldl unicodeFiFoInsertOneKey d.unicode } := by
  have hfuel : l.length ≤ rawFifoMaxNumber + 1 :=
    Nat.le_trans (Nat.le_of_lt h.holds.length_lt) (by decide)
  have hansi := ansi_eq h hfuel
  obtain ⟨raw', hutf8, hnil, hlog⟩ := vtutf8_decode h hfuel d.unicode garbage
  unfold rawDataToUnicode charsOf
  cases htype : d.terminalType with
  | vtUtf8 => exact ⟨raw', hnil, hlog, by simp [hutf8]⟩
  | pcAnsi => simpa [htype] using hansi
  | vt100 => simpa [htype] using hansi
  | vt100Plus => simpa [htype] using hansi

/-- The translation sends keys and leaves the rest. -/
structure Sends (d d' : Device) : Prop where
  terminalType : d'.terminalType = d.terminalType
  raw : d'.raw = d.raw
  keys : ∃ new, d'.terminal.keys = d.terminal.keys ++ new ∧
    d'.efiKey = new.foldl efiKeyFiFoInsertOneKey d.efiKey
  agrees : ∃ r, Agrees d'.terminal r

theorem Sends.trans (h : Sends d d') (h' : Sends d' d'') : Sends d d'' := by
  obtain ⟨new, hkeys, hfifo⟩ := h.keys
  obtain ⟨new', hkeys', hfifo'⟩ := h'.keys
  refine ⟨h'.terminalType.trans h.terminalType, h'.raw.trans h.raw, ⟨new ++ new', ?_, ?_⟩,
    h'.agrees⟩
  · rw [hkeys', hkeys, List.append_assoc]
  · rw [hfifo', hfifo, List.foldl_append]

theorem advance_sends {t : Terminal} (h : d.terminal.keys <+: t.keys)
    (hagrees : ∃ r, Agrees t r) : Sends d (d.advance t) := by
  obtain ⟨new, hnew⟩ := h
  refine ⟨rfl, rfl, ⟨new, hnew.symm, ?_⟩, hagrees⟩
  simp only [advance, ← hnew, List.drop_left]

theorem keys_checkTimeOut (signalled : Nat → Bool) (r : Reference) :
    r.keys <+: (r.checkTimeOut signalled).keys := by
  unfold Reference.checkTimeOut
  split
  · exact List.prefix_append _ _
  · exact List.prefix_refl _

theorem keys_await (signalled : Nat → Bool) (r : Reference) :
    r.keys <+: (r.await signalled).keys := by
  unfold Reference.await
  split
  · exact keys_checkTimeOut signalled r
  · exact List.prefix_refl _

theorem translateLoop_sends {fuel : Nat} {l : List Char16} (h : d.unicode.Carries 129 l)
    (hfuel : l.length ≤ fuel) (hagrees : ∃ r, Agrees d.terminal r) :
    Sends d (translateLoop signalled fuel d) ∧
      (translateLoop signalled fuel d).unicode.Carries 129 [] ∧
      (translateLoop signalled fuel d).unicode.inserted = d.unicode.inserted := by
  have hstop : Sends d d := ⟨rfl, rfl, ⟨[], (List.append_nil _).symm, rfl⟩, hagrees⟩
  induction fuel generalizing d l with
  | zero =>
    have hnil : l = [] := List.eq_nil_of_length_eq_zero (Nat.le_zero.mp hfuel)
    subst hnil
    exact ⟨hstop, h, rfl⟩
  | succ fuel ih =>
    cases l with
    | nil =>
      rw [translateLoop, unicodeFiFoRemoveOneKey, h.remove_nil]
      exact ⟨hstop, h, rfl⟩
    | cons c l =>
      obtain ⟨unicode, hremove, hcarries, hinserted⟩ := h.remove_cons Fifo.cells_fifo
      rw [translateLoop, unicodeFiFoRemoveOneKey, hremove]
      obtain ⟨r, hr⟩ := hagrees
      have hawait : Agrees (d.terminal.await signalled) (r.await signalled) := hr.await
      have hstep := hawait.step c
      have hprefix : d.terminal.keys <+: ((d.terminal.await signalled).translate c).keys := by
        have hsteps : ((d.terminal.await signalled).translate c).keys =
            ((r.await signalled).step c).keys := hstep.keys
        rw [hsteps, hr.keys]
        exact (keys_await signalled r).trans (List.prefix_append _ _)
      have hsend := advance_sends (d := { d with unicode := unicode }) (t :=
        { (d.terminal.await signalled).translate c with
          read := ((d.terminal.await signalled).translate c).read + 1 }) hprefix ⟨_, hstep⟩
      obtain ⟨hsends, hnil, hlog⟩ := ih hcarries (Nat.le_of_succ_le_succ hfuel) hsend.agrees
        ⟨rfl, rfl, ⟨[], (List.append_nil _).symm, rfl⟩, hsend.agrees⟩
      have htrans := hsend.trans hsends
      exact ⟨⟨htrans.terminalType, htrans.raw, htrans.keys, htrans.agrees⟩, hnil,
        hlog.trans hinserted⟩

theorem unicodeToEfiKey_sends {l : List Char16} (h : d.unicode.Carries 129 l)
    (hagrees : ∃ r, Agrees d.terminal r) :
    Sends d (d.unicodeToEfiKey signalled) ∧
      (d.unicodeToEfiKey signalled).unicode.Carries 129 [] ∧
      (d.unicodeToEfiKey signalled).unicode.inserted = d.unicode.inserted := by
  obtain ⟨r, hr⟩ := hagrees
  have hcheck : Agrees (d.terminal.checkTimeOut signalled) (r.checkTimeOut signalled) :=
    hr.checkTimeOut
  have hprefix : d.terminal.keys <+: (d.terminal.checkTimeOut signalled).keys := by
    rw [hcheck.keys, hr.keys]
    exact keys_checkTimeOut signalled r
  have hsend := advance_sends hprefix ⟨_, hcheck⟩
  have hfuel : l.length ≤ fifoMaxNumber + 1 := Nat.le_of_lt h.holds.length_lt
  obtain ⟨hsends, hnil, hlog⟩ := @translateLoop_sends signalled
    (d.advance (d.terminal.checkTimeOut signalled)) _ l h hfuel hsend.agrees
  exact ⟨hsend.trans hsends, hnil, hlog⟩

/-- The device between two calls. `settled` is what the next bytes go on from. -/
structure Between (arrived : List Byte) (d : Device) : Prop where
  raw : d.raw.Carries 256 []
  fetched : d.raw.inserted = arrived
  unicode : d.unicode.Carries 129 []
  efiKey : d.efiKey.Delivers 129
  translated : d.efiKey.inserted = d.terminal.keys
  agrees : ∃ r, Agrees d.terminal r
  settled : d.terminalType = .vtUtf8 → ∀ later es, Decodes later es →
    Decodes (arrived ++ later) (d.unicode.inserted ++ es)

theorem Between.exact {arrived : List Byte} (h : Between arrived d) : Exact arrived d := by
  refine ⟨h.fetched, ⟨_, h.raw⟩, ⟨_, h.unicode⟩, h.efiKey, h.translated, fun htype => ?_⟩
  have hdecodes := h.settled htype [] [] .nil
  rwa [List.append_nil, List.append_nil] at hdecodes

theorem Started.between (h : d.Started) : Between [] d where
  raw := h.raw.1
  fetched := h.raw.2
  unicode := h.unicode.1
  efiKey := ⟨[], h.efiKey.1⟩
  translated := by
    rw [h.efiKey.2, h.terminal]
    rfl
  agrees := ⟨.initial, by
    rw [h.terminal]
    exact agrees_initial⟩
  settled _ later es hlater := by
    rw [h.unicode.2]
    exact hlater

/-- The device when all bytes are decoded; the characters wait. -/
structure Decoded (d d' : Device) (serial : List Byte) (chars : List Char16) : Prop where
  terminalType : d'.terminalType = d.terminalType
  raw : d'.raw.Carries 256 []
  fetched : d'.raw.inserted = d.raw.inserted ++ serial
  unicode : d'.unicode.Carries 129 chars
  inserted : d'.unicode.inserted = d.unicode.inserted ++ chars
  efiKey : d'.efiKey = d.efiKey
  terminal : d'.terminal = d.terminal

theorem Between.decode {arrived : List Byte} {call : Call} (h : Between arrived d)
    (hwithin : d.Within signalled call) (hclean : d.Clean call) :
    Decoded d ((d.fetch call.serial).rawDataToUnicode call.garbage) call.serial
      (d.charsOf call.garbage call.serial) := by
  have hshort : ([] : List Byte).length + call.serial.length < 256 := by
    have := hclean.raw
    simp only [List.length_nil]
    omega
  have hraw := h.raw.insertAll Fifo.cells_raw hshort
  have hpending := hwithin.unicode
  rw [fetch_eq hwithin.nonzero] at hpending ⊢
  obtain ⟨raw', hnil, hlog, heq⟩ := rawDataToUnicode_eq
    (d := { d with raw := call.serial.foldl rawFiFoInsertOneKey d.raw }) hraw call.garbage
  rw [heq] at hpending ⊢
  have hfits : (d.charsOf call.garbage call.serial).length ≤ 128 := by
    have hall := h.unicode.insertAll_pending fifoMaxNumber (d.charsOf call.garbage call.serial)
    rw [List.length_nil, Nat.zero_add] at hall
    rw [← hall]
    exact hpending
  exact {
    terminalType := rfl
    raw := hnil
    fetched := hlog.trans (Fifo.insertAll_inserted _ _ _)
    unicode := h.unicode.insertAll Fifo.cells_fifo (by
      rw [List.length_nil, Nat.zero_add]
      exact Nat.lt_succ_of_le hfits)
    inserted := Fifo.insertAll_inserted _ _ _
    efiKey := rfl
    terminal := rfl }

theorem Between.checkForKey {arrived : List Byte} {call : Call} (h : Between arrived d)
    (hwithin : d.Within signalled call) (hclean : d.Clean call) :
    Between (arrived ++ call.serial)
      (d.checkForKey signalled call.garbage call.serial).2 := by
  have hdecoded := h.decode hwithin hclean
  have hkeys := hwithin.efiKey
  simp only [Device.checkForKey] at hkeys ⊢
  generalize (d.fetch call.serial).rawDataToUnicode call.garbage = d₂ at hdecoded hkeys ⊢
  have hagrees : ∃ r, Agrees d₂.terminal r := by
    rw [hdecoded.terminal]
    exact h.agrees
  obtain ⟨hsends, hunicode, hlog⟩ :=
    @unicodeToEfiKey_sends signalled d₂ _ hdecoded.unicode hagrees
  obtain ⟨new, hnew, hfifo⟩ := hsends.keys
  obtain ⟨l, hl⟩ := h.efiKey
  rw [hdecoded.efiKey] at hfifo
  have hfits : l.length + new.length < 129 := by
    rw [← hl.insertAll_pending fifoMaxNumber new]
    rw [hfifo] at hkeys
    exact Nat.lt_succ_of_le hkeys
  exact {
    raw := by
      rw [hsends.raw]
      exact hdecoded.raw
    fetched := by rw [hsends.raw, hdecoded.fetched, h.fetched]
    unicode := hunicode
    efiKey := ⟨l ++ new, by
      rw [hfifo]
      exact hl.insertAll Fifo.cells_fifo hfits⟩
    translated := by
      rw [hfifo, hnew, hdecoded.terminal, ← h.translated]
      exact Fifo.insertAll_inserted _ _ _
    agrees := hsends.agrees
    settled := fun htype later es hlater => by
      rw [hsends.terminalType, hdecoded.terminalType] at htype
      have hregular := (hclean.regular htype).decodes hlater call.garbage
      rw [hlog, hdecoded.inserted, charsOf, if_pos htype, List.append_assoc, List.append_assoc]
      exact h.settled htype _ _ hregular }

theorem Between.step {arrived : List Byte} {call : Call} (h : Between arrived d)
    (hwithin : d.Within signalled call) (hclean : d.Clean call) :
    Between (arrived ++ call.serial) (d.step signalled call) := by
  have hcheck := h.checkForKey hwithin hclean
  unfold Device.step readKeyStroke
  cases call.readKey with
  | false => exact hcheck
  | true =>
    simp only [if_true]
    generalize d.checkForKey signalled call.garbage call.serial = result at hcheck ⊢
    obtain ⟨ready, d'⟩ := result
    cases ready with
    | false => exact hcheck
    | true =>
      obtain ⟨l, hl⟩ := hcheck.efiKey
      exact {
        raw := hcheck.raw
        fetched := hcheck.fetched
        unicode := hcheck.unicode
        efiKey := ⟨_, hl.remove Fifo.cells_fifo⟩
        translated := (Fifo.removeOneKey_inserted _ _).trans hcheck.translated
        agrees := hcheck.agrees
        settled := hcheck.settled }

theorem Between.run {arrived : List Byte} {calls : List Call} (h : Between arrived d)
    (hcalls : d.Along signalled (fun d call => d.Within signalled call ∧ d.Clean call) calls) :
    Between (arrived ++ calls.flatMap Call.serial) (d.run signalled calls) := by
  induction calls generalizing d arrived with
  | nil => simpa [Device.run] using h
  | cons call calls ih =>
    obtain ⟨⟨hwithin, hclean⟩, hrest⟩ := hcalls
    have hrun := ih (h.step hwithin hclean) hrest
    rwa [List.append_assoc] at hrun

/-- Input is exact on every run in which each call gets at most 255 bytes, and on a UTF-8
terminal bytes that are complete by themselves. -/
theorem run_exact {calls : List Call} (h : d.Started)
    (hcalls : d.Along signalled (fun d call => d.Within signalled call ∧ d.Clean call) calls) :
    Exact (calls.flatMap Call.serial) (d.run signalled calls) :=
  (h.between.run hcalls).exact

/-- A terminal just started. -/
def fresh (terminalType : TerminalType) : Device where
  terminalType := terminalType
  raw := ⟨0, 0, fun _ => 0, [], []⟩
  unicode := ⟨0, 0, fun _ => 0, [], []⟩
  efiKey := ⟨0, 0, fun _ => ⟨0, 0⟩, [], []⟩
  terminal := .initial

theorem fresh_started (terminalType : TerminalType) : (fresh terminalType).Started where
  raw := ⟨⟨.empty _ (by decide : 0 < 256), rfl⟩, rfl⟩
  unicode := ⟨⟨.empty _ (by decide : 0 < 129), rfl⟩, rfl⟩
  efiKey := ⟨⟨.empty _ (by decide : 0 < 129), rfl⟩, rfl⟩
  terminal := rfl

/-- An e with an acute accent, and then an A, which is read. -/
def twoChars : List Call := [⟨false, [0xc3, 0xa9], ⟨0, 0, 0⟩⟩, ⟨true, [0x41], ⟨0, 0, 0⟩⟩]

theorem twoChars_exact :
    Exact [0xc3, 0xa9, 0x41] ((fresh .vtUtf8).run (fun _ => false) twoChars) := by
  have hfirst : Regular [0xc3, 0xa9] := .char 0xe9 .nil
  have hsecond : Regular [0x41] := .char 0x41 .nil
  have hcalls : (fresh .vtUtf8).Along (fun _ => false)
      (fun d call => d.Within (fun _ => false) call ∧ d.Clean call) twoChars :=
    ⟨⟨⟨by decide, by decide, by decide, by decide⟩, ⟨by decide, fun _ => hfirst⟩⟩,
      ⟨⟨by decide, by decide, by decide, by decide⟩, ⟨by decide, fun _ => hsecond⟩⟩, trivial⟩
  exact run_exact (fresh_started .vtUtf8) hcalls

/-- The same two bytes in two calls: the first is taken for a character of its own. -/
def cutChar : List Call := [⟨false, [0xc3], ⟨0, 0, 0⟩⟩, ⟨false, [0xa9], ⟨0, 0, 0⟩⟩]

theorem cutChar_not_exact : (fresh .vtUtf8).Started ∧
      (fresh .vtUtf8).Along (fun _ => false) (Within fun _ => false) cutChar ∧
      ¬Exact (cutChar.flatMap Call.serial) ((fresh .vtUtf8).run (fun _ => false) cutChar) := by
  refine ⟨fresh_started _, ⟨⟨by decide, by decide, by decide, by decide⟩,
    ⟨by decide, by decide, by decide, by decide⟩, trivial⟩, fun h => ?_⟩
  have hdecodes := h.decoded rfl
  have hone : Decodes [0xc3, 0xa9] [0xe9] := .char 0xe9 .nil
  have heq := hone.unique hdecodes
  revert heq
  decide

end Device

end EfiCore.Console
