import EfiCore.Console.Lock

/-! # The lock guards the input

On every run the splitter does what the guard does, unless more is typed than the attempt can
hold, a key without a character ends the attempt early, or keys wait behind the carriage return
that unlocks.
-/

namespace EfiCore.Console

open EfiCore.Uni (Char16)
open EfiCore.Lib (Machine)

/-! ## The comparison -/

/-- The characters typed begin with the password, and what follows is not seen. -/
def Overrun (password typed : List Char16) : Prop :=
  ∃ c rest, typed = password ++ c :: rest ∧ (c = 0 ∨ password.length = maxStdInPassword - 1)

section Compare

variable {password typed attempt : List Char16} {a : Nat → Char16} {index : Nat}

/-- The array reads as the list, from an index on. -/
def Reads (a : Nat → Char16) (index : Nat) (l : List Char16) : Prop :=
  ∀ (k : Nat) (c : Char16), l[k]? = some c → a (index + k) = c

theorem Reads.head {c : Char16} {l : List Char16} (h : Reads a index (c :: l)) : a index = c :=
  h 0 c rfl

theorem Reads.tail {c : Char16} {l : List Char16} (h : Reads a index (c :: l)) :
    Reads a (index + 1) l := by
  intro k d hk
  have hnext := h (k + 1) d hk
  rwa [Nat.add_assoc, Nat.add_comm 1 k]

/-- The strings are equal exactly if the characters up to the first NUL are. -/
theorem efiStrCmp_iff (hpassword : ∀ c ∈ password, c ≠ 0)
    (hreads : Reads a index (attempt ++ [0])) :
    efiStrCmp password a index = true ↔
      attempt = password ∨ ∃ rest, attempt = password ++ 0 :: rest := by
  induction password generalizing attempt index with
  | nil =>
    rw [efiStrCmp, decide_eq_true_eq]
    cases attempt with
    | nil =>
      rw [List.nil_append] at hreads
      simp [hreads.head]
    | cons d attempt => simp [hreads.head]
  | cons c password ih =>
    obtain ⟨hc, hrest⟩ := List.forall_mem_cons.mp hpassword
    rw [efiStrCmp, Bool.and_eq_true, decide_eq_true_eq]
    cases attempt with
    | nil =>
      rw [List.nil_append] at hreads
      rw [hreads.head]
      simpa using fun hzero => absurd hzero hc
    | cons d attempt =>
      rw [List.cons_append] at hreads
      rw [hreads.head, ih hrest hreads.tail]
      constructor
      · rintro ⟨rfl, rfl | ⟨rest, rfl⟩⟩
        · exact .inl rfl
        · exact .inr ⟨rest, rfl⟩
      · rintro (heq | ⟨rest, heq⟩)
        · obtain ⟨rfl, rfl⟩ := List.cons.inj heq
          exact ⟨rfl, .inl rfl⟩
        · obtain ⟨rfl, rfl⟩ := List.cons.inj heq
          exact ⟨rfl, .inr ⟨rest, rfl⟩⟩

/-- What is recorded of the characters typed decides as they do. -/
theorem recorded_iff (hlength : password.length < maxStdInPassword)
    (hclean : ¬Overrun password typed) :
    (typed.take (maxStdInPassword - 1) = password ∨
      ∃ rest, typed.take (maxStdInPassword - 1) = password ++ 0 :: rest) ↔ typed = password := by
  have hsplit := List.take_append_drop (maxStdInPassword - 1) typed
  constructor
  · rintro (heq | ⟨rest, heq⟩)
    · cases hdrop : typed.drop (maxStdInPassword - 1) with
      | nil => rw [← hsplit, heq, hdrop, List.append_nil]
      | cons c rest =>
        have hlong : maxStdInPassword - 1 ≤ typed.length := by
          by_contra hshort
          rw [List.drop_eq_nil_of_le (by omega)] at hdrop
          exact absurd hdrop.symm (List.cons_ne_nil c rest)
        refine absurd ⟨c, rest, ?_, .inr ?_⟩ hclean
        · rw [← hsplit, heq, hdrop]
        · rw [← heq, List.length_take, Nat.min_eq_left hlong]
    · refine absurd ⟨0, rest ++ typed.drop (maxStdInPassword - 1), ?_, .inl rfl⟩ hclean
      rw [← List.cons_append, ← List.append_assoc, ← heq, hsplit]
  · rintro rfl
    exact .inl (List.take_of_length_le (by omega))

end Compare

/-! ## The keys that wait -/

theorem privateReadKeyStroke_flatten {key : InputKey} {devices devices' : List (List InputKey)}
    (h : privateReadKeyStroke devices = some (key, devices')) :
    devices.flatten = key :: devices'.flatten := by
  induction devices generalizing devices' with
  | nil => exact absurd h (by simp [privateReadKeyStroke])
  | cons keys devices ih =>
    cases keys with
    | nil =>
      simp only [privateReadKeyStroke, Option.map_eq_some_iff, Prod.mk.injEq] at h
      obtain ⟨⟨key', rest⟩, hrest, rfl, rfl⟩ := h
      simpa using ih hrest
    | cons key' keys =>
      simp only [privateReadKeyStroke, Option.some.injEq, Prod.mk.injEq] at h
      obtain ⟨rfl, rfl⟩ := h
      rfl

/-- No carriage return that is read finds characters of which the code does not see the end. -/
def CleanKeys (password : List Char16) : List Char16 → List InputKey → Prop
  | _, [] => True
  | typed, key :: keys =>
    if isEnter key then
      ¬Overrun password typed ∧ (typed ≠ password → CleanKeys password [] keys)
    else CleanKeys password (typed ++ [key.unicodeChar]) keys

/-! ## The simulation -/

/-- `PwdAttempt` has the characters typed, as many as it can hold. -/
structure Records (s : ConIn) (typed : List Char16) : Prop where
  index : s.pwdIndex = min typed.length (maxStdInPassword - 1)
  attempt : ∀ (i : Nat) (c : Char16), i < s.pwdIndex → typed[i]? = some c → s.pwdAttempt i = c

/-- The splitter while it is locked. -/
structure Locks (s : ConIn) (password typed : List Char16) : Prop where
  password_eq : s.password = password
  nonzero : ∀ c ∈ password, c ≠ 0
  length : password.length < maxStdInPassword
  timer : s.lockEvent = .periodic
  records : Records s typed

/-- The splitter and the guard are alike, and every write was inside `PwdAttempt`. -/
structure Guards (s : ConIn) (g : Guard) : Prop where
  enabled : s.passwordEnabled = g.locked.isSome
  textInList : s.textInList = g.textInList
  writes : ∀ i ∈ s.writes, i < maxStdInPassword
  pwdIndex : s.pwdIndex < maxStdInPassword
  locks : ∀ password, g.locked = some password → Locks s password g.typed

section Simulation

variable {s : ConIn} {g : Guard} {password typed : List Char16} {key : InputKey}

theorem Records.matches (h : Records s typed) (hpassword : ∀ c ∈ password, c ≠ 0)
    (hlength : password.length < maxStdInPassword) (hclean : ¬Overrun password typed) :
    efiStrCmp password (s.writeAttempt 0).pwdAttempt 0 = true ↔ typed = password := by
  rw [← recorded_iff hlength hclean]
  refine efiStrCmp_iff hpassword fun k c hk => ?_
  have hlen : (typed.take (maxStdInPassword - 1)).length = s.pwdIndex := by
    rw [List.length_take, h.index, Nat.min_comm]
  rw [Nat.zero_add]
  unfold ConIn.writeAttempt
  simp only
  by_cases hlt : k < s.pwdIndex
  · rw [List.getElem?_append_left (by omega), List.getElem?_take_of_lt (by
      rw [h.index] at hlt
      omega)] at hk
    rw [Function.update_of_ne (by omega)]
    exact h.attempt k c hlt hk
  · rw [List.getElem?_append_right (by omega), hlen] at hk
    have hindex : k = s.pwdIndex := by
      obtain ⟨hk', -⟩ := List.getElem?_eq_some_iff.mp hk
      rw [List.length_singleton] at hk'
      omega
    subst hindex
    rw [Nat.sub_self, List.getElem?_cons_zero, Option.some.injEq] at hk
    rw [Function.update_self, hk]

theorem Locks.lockKey_enter (h : Locks s password typed) (hkey : isEnter key = true)
    (hclean : ¬Overrun password typed) :
    s.lockKey key =
      if typed = password then
        (false, { s.writeAttempt 0 with lockEvent := .once, passwordEnabled := false })
      else (true, { s.writeAttempt 0 with pwdIndex := 0 }) := by
  have hmatches := h.records.matches h.nonzero h.length hclean
  unfold ConIn.lockKey
  have hpassword : (s.writeAttempt 0).password = password := h.password_eq
  simp only [hkey, if_true, hpassword]
  by_cases heq : typed = password
  · rw [if_pos heq, if_pos (hmatches.mpr heq)]
  · rw [if_neg heq, if_neg fun hmatch => heq (hmatches.mp hmatch)]

theorem Locks.reset (h : Locks s password typed) :
    Locks { s.writeAttempt 0 with pwdIndex := 0 } password [] where
  password_eq := h.password_eq
  nonzero := h.nonzero
  length := h.length
  timer := h.timer
  records := ⟨rfl, fun i _ hi _ => absurd hi (Nat.not_lt_zero i)⟩

/-- Any other key is recorded, or the attempt is full. -/
theorem Locks.lockKey_other (h : Locks s password typed) (hkey : isEnter key = false) :
    (s.lockKey key).1 = true ∧ Locks (s.lockKey key).2 password (typed ++ [key.unicodeChar]) := by
  have hindex := h.records.index
  unfold ConIn.lockKey
  simp only [hkey, Bool.false_eq_true, if_false]
  by_cases hroom : s.pwdIndex < maxStdInPassword - 1
  · rw [if_pos hroom]
    refine ⟨rfl, h.password_eq, h.nonzero, h.length, h.timer, ?_, ?_⟩
    · simp only [List.length_append, List.length_singleton]
      rw [ConIn.writeAttempt]
      simp only
      omega
    · intro i c hi hc
      simp only [ConIn.writeAttempt] at hi ⊢
      have hlength : s.pwdIndex = typed.length := by omega
      by_cases hlast : i = s.pwdIndex
      · subst hlast
        rw [hlength, List.getElem?_concat_length, Option.some.injEq] at hc
        rw [Function.update_self, hc]
      · rw [List.getElem?_append_left (by omega)] at hc
        rw [Function.update_of_ne hlast]
        exact h.records.attempt i c (by omega) hc
  · rw [if_neg hroom]
    refine ⟨rfl, h.password_eq, h.nonzero, h.length, h.timer, ?_, ?_⟩
    · simp only [List.length_append, List.length_singleton]
      omega
    · intro i c hi hc
      have hlt : i < s.pwdIndex := hi
      rw [List.getElem?_append_left (by omega)] at hc
      exact h.records.attempt i c hlt hc

/-- The parts of `Guards` that hold locked or not. -/
theorem lockKey_frame (key : InputKey) (hwrites : ∀ i ∈ s.writes, i < maxStdInPassword)
    (hindex : s.pwdIndex < maxStdInPassword) :
    (s.lockKey key).2.textInList = s.textInList ∧
      (∀ i ∈ (s.lockKey key).2.writes, i < maxStdInPassword) ∧
      (s.lockKey key).2.pwdIndex < maxStdInPassword ∧
      ((s.lockKey key).1 = true → (s.lockKey key).2.passwordEnabled = s.passwordEnabled) := by
  have hwrite : ∀ i ∈ s.writes ++ [s.pwdIndex], i < maxStdInPassword := by
    intro i hi
    rw [List.mem_append, List.mem_singleton] at hi
    obtain hold | rfl := hi
    · exact hwrites i hold
    · exact hindex
  unfold ConIn.lockKey ConIn.writeAttempt
  split
  · simp only
    split
    · exact ⟨rfl, hwrite, hindex, fun h => absurd h Bool.false_ne_true⟩
    · exact ⟨rfl, hwrite, (by decide : 0 < maxStdInPassword), fun _ => rfl⟩
  · split
    case isTrue hroom =>
      refine ⟨rfl, hwrite, ?_, fun _ => rfl⟩
      simp only
      omega
    case isFalse => exact ⟨rfl, hwrites, hindex, fun _ => rfl⟩

theorem Guards.take (h : Guards s g) (devices : List (List InputKey)) :
    Guards { s with textInList := devices } { g with textInList := devices } :=
  ⟨h.enabled, rfl, h.writes, h.pwdIndex, fun password hlocked =>
    ⟨(h.locks password hlocked).password_eq, (h.locks password hlocked).nonzero,
      (h.locks password hlocked).length, (h.locks password hlocked).timer,
      (h.locks password hlocked).records.index, (h.locks password hlocked).records.attempt⟩⟩

/-- The loop goes on, and the guard has these characters. -/
theorem Guards.next (h : Guards s g) (hlocked : g.locked = some password)
    (hgoes : (s.lockKey key).1 = true) (htyped : Locks (s.lockKey key).2 password typed) :
    Guards (s.lockKey key).2 { g with typed := typed } := by
  obtain ⟨hdevices, hwrites, hindex, henabled⟩ := lockKey_frame key h.writes h.pwdIndex
  refine ⟨(henabled hgoes).trans h.enabled, hdevices.trans h.textInList, hwrites, hindex,
    fun p hp => ?_⟩
  obtain rfl : password = p := Option.some.inj (hlocked.symm.trans hp)
  exact htyped

theorem Guards.unlock (h : Guards s g)
    (hunlocked : (s.lockKey key).2.passwordEnabled = false) :
    Guards (s.lockKey key).2 { g with locked := none, typed := [] } := by
  obtain ⟨hdevices, hwrites, hindex, -⟩ := lockKey_frame key h.writes h.pwdIndex
  exact ⟨hunlocked, hdevices.trans h.textInList, hwrites, hindex, fun p hp => by simp at hp⟩

theorem Guards.lockLoop {fuel : Nat} (h : Guards s g) (hlocked : g.locked = some password)
    (hclean : CleanKeys password g.typed g.textInList.flatten) :
    Guards (s.lockLoop fuel) (g.readLoop password fuel) := by
  induction fuel generalizing s g with
  | zero => exact h
  | succ fuel ih =>
    rw [ConIn.lockLoop, Guard.readLoop, h.textInList]
    cases hread : privateReadKeyStroke g.textInList with
    | none => exact h
    | some r =>
      obtain ⟨key, devices⟩ := r
      rw [privateReadKeyStroke_flatten hread, CleanKeys] at hclean
      have htake := h.take devices
      have hlocks := htake.locks password hlocked
      simp only
      generalize { s with textInList := devices } = s₁ at htake hlocks ⊢
      cases hkey : isEnter key with
      | true =>
        rw [hkey, if_pos rfl] at hclean
        obtain ⟨hoverrun, hrest⟩ := hclean
        have hstep := hlocks.lockKey_enter hkey hoverrun
        rw [if_pos rfl]
        by_cases heq : g.typed = password
        · rw [if_pos heq] at hstep ⊢
          have hstops : (s₁.lockKey key).1 = false := by rw [hstep]
          rw [hstops, if_neg Bool.false_ne_true]
          exact htake.unlock (by rw [hstep])
        · rw [if_neg heq] at hstep ⊢
          have hgoes : (s₁.lockKey key).1 = true := by rw [hstep]
          rw [hgoes, if_pos rfl]
          have hreset : Locks (s₁.lockKey key).2 password [] := by
            rw [hstep]
            exact hlocks.reset
          exact ih (htake.next hlocked hgoes hreset) hlocked (hrest heq)
      | false =>
        rw [hkey, if_neg Bool.false_ne_true] at hclean
        obtain ⟨hgoes, htyped⟩ := hlocks.lockKey_other hkey
        rw [hgoes, if_pos rfl, if_neg Bool.false_ne_true]
        exact ih (htake.next hlocked hgoes htyped) hlocked hclean

/-! ## Every call -/

variable {α : Type}

/-- A password is a string, which has no NUL in it. -/
def LockCall.Proper : LockCall α → Prop
  | .lockStdIn (some password) => ∀ c ∈ password, c ≠ 0
  | _ => True

/-- When the timer event does what it should: unlocked, it finds no key to take, and locked, the
end of what was typed is seen at each carriage return. -/
def LockCall.Clean (s : ConIn) (g : Guard) : LockCall α → Prop
  | .tick =>
    match g.locked with
    | none => s.lockEvent ≠ .off → g.textInList.flatten = []
    | some password => CleanKeys password g.typed g.textInList.flatten
  | _ => True

theorem Guards.tick (h : Guards s g) (hclean : (LockCall.tick : LockCall α).Clean s g) :
    Guards s.lockTick g.tick := by
  unfold Guard.tick ConIn.lockTick
  unfold LockCall.Clean at hclean
  cases hlocked : g.locked with
  | none =>
    simp only [hlocked] at hclean
    cases htimer : s.lockEvent with
    | off => exact h
    | once =>
      have hempty : s.textInList.flatten.length = 0 := by
        rw [h.textInList, hclean (by simp [htimer])]
        rfl
      simp only [hempty]
      exact ⟨h.enabled, h.textInList, h.writes, h.pwdIndex, fun p hp => by simp [hlocked] at hp⟩
    | periodic =>
      have hempty : s.textInList.flatten.length = 0 := by
        rw [h.textInList, hclean (by simp [htimer])]
        rfl
      simp only [hempty]
      exact h
  | some password =>
    simp only [hlocked] at hclean
    rw [(h.locks password hlocked).timer]
    simp only [h.textInList]
    exact h.lockLoop hlocked hclean

theorem Guards.lockStdIn (h : Guards s g) (hpassword : ∀ c ∈ password, c ≠ 0)
    (hlength : password.length < maxStdInPassword) :
    Guards { s with
      password := password, passwordEnabled := true, pwdIndex := 0, lockEvent := .periodic }
      { g with locked := some password, typed := [] } where
  enabled := rfl
  textInList := h.textInList
  writes := h.writes
  pwdIndex := (by decide : 0 < maxStdInPassword)
  locks p hp := by
    obtain rfl : password = p := Option.some.inj hp
    exact ⟨rfl, hpassword, hlength, rfl, rfl, fun i _ hi _ => absurd hi (Nat.not_lt_zero i)⟩

/-- A call gives what the guard gives. -/
theorem Guards.call (h : Guards s g) {call : LockCall α} (hproper : call.Proper)
    (hclean : call.Clean s g) :
    (s.call call).1 = (g.call call).1 ∧ Guards (s.call call).2 (g.call call).2 := by
  cases call with
  | press device key =>
    refine ⟨rfl, ?_⟩
    have htake := h.take (g.textInList.modify device (· ++ [key]))
    simp only [ConIn.call, Guard.call, h.textInList]
    exact htake
  | lockStdIn password =>
    cases password with
    | none => exact ⟨rfl, h⟩
    | some password =>
      simp only [ConIn.call, ConIn.lockStdIn, Guard.call]
      by_cases hlong : password.length ≥ maxStdInPassword
      · rw [if_pos hlong, if_pos hlong]
        exact ⟨rfl, h⟩
      · rw [if_neg hlong, if_neg hlong]
        exact ⟨rfl, h.lockStdIn hproper (Nat.lt_of_not_le hlong)⟩
  | tick => exact ⟨rfl, h.tick hclean⟩
  | readKeyStroke =>
    simp only [ConIn.call, ConIn.readKeyStroke, Guard.call, h.textInList]
    cases hlocked : g.locked with
    | some password =>
      have henabled : s.passwordEnabled = true := by
        rw [h.enabled, hlocked]
        rfl
      rw [if_pos henabled]
      exact ⟨rfl, h⟩
    | none =>
      have henabled : ¬s.passwordEnabled = true := by
        rw [h.enabled, hlocked]
        exact Bool.false_ne_true
      rw [if_neg henabled]
      cases hread : privateReadKeyStroke g.textInList with
      | none => exact ⟨rfl, h⟩
      | some r =>
        have htake := h.take r.2
        rw [hlocked] at htake
        exact ⟨rfl, htake⟩
  | waitForKey device =>
    refine ⟨?_, h⟩
    simp only [ConIn.call, ConIn.signalsEvent, Guard.call, h.enabled]
    cases g.locked <;> rfl
  | getState answer =>
    refine ⟨?_, h⟩
    simp only [ConIn.call, ConIn.getState, Guard.call, h.enabled]

/-! ## Every run -/

def lockStep (σ : ConIn × Guard) (call : LockCall α) : ConIn × Guard :=
  ((σ.1.call call).2, (σ.2.call call).2)

/-- The splitter and the guard side by side, with any number of devices. -/
def lockMachine (α : Type) : Machine (ConIn × Guard) (LockCall α) where
  init σ := ∃ devices pwdAttempt,
    σ = (ConIn.initial devices pwdAttempt, ⟨none, [], List.replicate devices []⟩)
  step σ call σ' := σ' = lockStep σ call

/-- The splitter replies as the guard does, after every run in which the timer event finds clean
keys, and is locked exactly when the guard is. -/
theorem lock_guards {σ : ConIn × Guard}
    (h : (lockMachine α).Reach (fun σ call => call.Proper ∧ call.Clean σ.1 σ.2) σ)
    {call : LockCall α} (hproper : call.Proper) (hclean : call.Clean σ.1 σ.2) :
    (σ.1.call call).1 = (σ.2.call call).1 ∧ Guards (σ.1.call call).2 (σ.2.call call).2 := by
  have hguards : Guards σ.1 σ.2 := by
    refine Machine.Reach.rule (I := fun σ => Guards σ.1 σ.2) ?_ ?_ h
    · rintro _ ⟨devices, pwdAttempt, rfl⟩
      exact ⟨rfl, rfl, fun i hi => absurd hi List.not_mem_nil, (by decide : 0 < maxStdInPassword),
        fun p hp => by simp at hp⟩
    · rintro σ call _ hσ ⟨hproper, hclean⟩ rfl
      exact (hσ.call hproper hclean).2
  exact hguards.call hproper hclean

theorem lockMachine_run {P : ConIn × Guard → LockCall α → Prop} {σ : ConIn × Guard}
    (h : (lockMachine α).Reach P σ) {calls : List (LockCall α)}
    (hcalls : ∀ call ∈ calls, ∀ σ, P σ call) : (lockMachine α).Reach P (calls.foldl lockStep σ) := by
  induction calls generalizing σ with
  | nil => exact h
  | cons call calls ih =>
    obtain ⟨hcall, hrest⟩ := List.forall_mem_cons.mp hcalls
    exact ih (h.next (hcall σ) rfl) hrest

/-- One device; it is locked with the password `a`, and these keys are typed. -/
def typing (keys : List InputKey) : List (LockCall Unit) :=
  .lockStdIn (some [0x61]) :: keys.map (.press 0)

def oneDevice : ConIn × Guard := (ConIn.initial 1 fun _ => 0, ⟨none, [], [[]]⟩)

def tick : LockCall Unit := .tick

/-- The password is typed and unlocks. -/
theorem lock_guards_password :
    Guards (lockStep ((typing [⟨0, 0x61⟩, ⟨0, 0x0d⟩]).foldl lockStep oneDevice) tick).1
      (lockStep ((typing [⟨0, 0x61⟩, ⟨0, 0x0d⟩]).foldl lockStep oneDevice) tick).2 := by
  have hoverrun : ¬Overrun [0x61] [0x61] := by
    rintro ⟨c, rest, heq, -⟩
    simp at heq
  have hclean : CleanKeys [0x61] [] [⟨0, 0x61⟩, ⟨0, 0x0d⟩] := ⟨hoverrun, fun h => absurd rfl h⟩
  have hreach : (lockMachine Unit).Reach (fun σ call => call.Proper ∧ call.Clean σ.1 σ.2)
      ((typing [⟨0, 0x61⟩, ⟨0, 0x0d⟩]).foldl lockStep oneDevice) := by
    refine lockMachine_run (.start ⟨1, fun _ => 0, rfl⟩) ?_
    simp [typing, LockCall.Proper, LockCall.Clean]
  have hproper : tick.Proper := trivial
  exact (lock_guards hreach hproper hclean).2

/-- An arrow key behind the password ends the attempt for the code; it unlocks too. -/
theorem arrow_key_unlocks : ∃ σ, (lockMachine Unit).Reach (fun _ call => call.Proper) σ ∧
    tick.Proper ∧ ¬Guards (lockStep σ tick).1 (lockStep σ tick).2 := by
  have hreach : (lockMachine Unit).Reach (fun _ call => call.Proper)
      ((typing [⟨0, 0x61⟩, ⟨1, 0⟩, ⟨0, 0x0d⟩]).foldl lockStep oneDevice) := by
    refine lockMachine_run (.start ⟨1, fun _ => 0, rfl⟩) ?_
    simp [typing, LockCall.Proper]
  refine ⟨_, hreach, trivial, fun h => ?_⟩
  have henabled := h.enabled
  revert henabled
  decide

end Simulation

end EfiCore.Console
