import EfiCore.Console.Utf8
import Mathlib.Data.List.Infix

/-! # What the UTF-8 decoder makes of a stream of bytes -/

namespace EfiCore.Console

open EfiCore.Uni (Char16)

/-! ## The decoder over a list -/

/-- What `VTUTF8RawDataToUnicode` inserts behind a fetch. -/
def Fetch.chars (s : Fetch) : List Char16 :=
  if s.validBytes < 1 ∨ s.validBytes > 3 then [] else [utf8ToUnicode s.utf8Char s.validBytes]

/-- The characters that `VTUTF8RawDataToUnicode` inserts, from within a fetch. -/
def decode : List Byte → Fetch → List Char16
  | [], s => s.chars
  | b :: l, s =>
    let s := s.byte b
    if s.fetchFlag then decode l s else s.chars ++ decode l (.start s.utf8Char)

section Ring

variable {fuel : Nat} {raw : Fifo Byte} {l : List Byte}

theorem getOneLoop_decode (h : raw.Carries 256 l) (hfuel : l.length ≤ fuel) (s : Fetch) :
    ∃ rest, (getOneLoop fuel raw s).1.Carries 256 rest ∧
      (getOneLoop fuel raw s).1.inserted = raw.inserted ∧ rest.length ≤ l.length - 1 ∧
      decode l s = (getOneLoop fuel raw s).2.chars ++
        decode rest (.start (getOneLoop fuel raw s).2.utf8Char) := by
  induction fuel generalizing raw s l with
  | zero =>
    have hnil : l = [] := List.eq_nil_of_length_eq_zero (Nat.le_zero.mp hfuel)
    subst hnil
    exact ⟨[], h, rfl, Nat.le_refl _, by simp [decode, getOneLoop, Fetch.chars, Fetch.start]⟩
  | succ fuel ih =>
    cases l with
    | nil =>
      rw [getOneLoop, rawFiFoRemoveOneKey, h.remove_nil]
      exact ⟨[], h, rfl, Nat.le_refl _, by simp [decode, Fetch.chars, Fetch.start]⟩
    | cons b l =>
      obtain ⟨raw', hremove, hcarries, hinserted⟩ := h.remove_cons Fifo.cells_raw
      rw [getOneLoop, rawFiFoRemoveOneKey, hremove]
      simp only [decode]
      cases hflag : (s.byte b).fetchFlag with
      | true =>
        obtain ⟨rest, hrest, hlog, hlength, hdecode⟩ :=
          ih hcarries (Nat.le_of_succ_le_succ hfuel) (s.byte b)
        refine ⟨rest, hrest, hlog.trans hinserted, ?_, hdecode⟩
        simp only [List.length_cons]
        omega
      | false => exact ⟨l, hcarries, hinserted, Nat.le_refl _, rfl⟩

/-- The raw FIFO is read to its end, and the characters of the list are inserted. -/
theorem vtutf8_decode (h : raw.Carries 256 l) (hfuel : l.length ≤ fuel) (unicode : Fifo Char16)
    (u : Utf8Char) :
    ∃ raw', vtutf8RawDataToUnicode fuel raw unicode u =
        (raw', (decode l (.start u)).foldl unicodeFiFoInsertOneKey unicode) ∧
      raw'.Carries 256 [] ∧ raw'.inserted = raw.inserted := by
  induction fuel generalizing raw unicode u l with
  | zero =>
    have hnil : l = [] := List.eq_nil_of_length_eq_zero (Nat.le_zero.mp hfuel)
    subst hnil
    exact ⟨raw, by simp [vtutf8RawDataToUnicode, decode, Fetch.chars, Fetch.start], h, rfl⟩
  | succ fuel ih =>
    cases l with
    | nil =>
      rw [vtutf8RawDataToUnicode, if_pos (h.isEmpty_iff.mpr rfl)]
      exact ⟨raw, by simp [decode, Fetch.chars, Fetch.start], h, rfl⟩
    | cons b l =>
      have hempty : ¬raw.isEmpty = true := by simp [h.isEmpty_iff]
      have hone := getOneLoop_decode h hfuel (Fetch.start u)
      rw [← getOneValidUtf8Char] at hone
      obtain ⟨rest, hcarries, hlog, hlength, hdecode⟩ := hone
      have hrest : rest.length ≤ fuel := by
        simp only [List.length_cons] at hlength hfuel
        omega
      rw [vtutf8RawDataToUnicode, if_neg hempty, hdecode, Fetch.chars]
      by_cases hnone : (getOneValidUtf8Char (fuel + 1) raw u).2.validBytes < 1 ∨
          (getOneValidUtf8Char (fuel + 1) raw u).2.validBytes > 3
      · obtain ⟨raw', heq, hnil, hlog'⟩ := ih hcarries hrest unicode _
        simp only [if_pos hnone, List.nil_append]
        exact ⟨raw', heq, hnil, hlog'.trans hlog⟩
      · obtain ⟨raw', heq, hnil, hlog'⟩ := ih hcarries hrest
          (unicodeFiFoInsertOneKey unicode (utf8ToUnicode _ _)) _
        simp only [if_neg hnone, List.singleton_append]
        exact ⟨raw', heq, hnil, hlog'.trans hlog⟩

end Ring

/-! ## The decoding of a stream -/

/-- No character is encoded at the start of `l`. -/
def NoChar (l : List Byte) : Prop := ∀ c, ¬unicodeToUtf8 c <+: l

/-- The decoding of a stream: the sequences that encode a character give it, and a byte at
which none starts gives nothing. -/
inductive Decodes : List Byte → List Char16 → Prop
  | nil : Decodes [] []
  | char {l cs} (c : Char16) (h : Decodes l cs) : Decodes (unicodeToUtf8 c ++ l) (c :: cs)
  | drop {b l cs} (hb : NoChar (b :: l)) (h : Decodes l cs) : Decodes (b :: l) cs

section Decode

variable {a b d : Byte} {l : List Byte} {u : Utf8Char}

theorem decode_stray (hb : Stray b) : decode (b :: l) (.start u) = decode l (.start u) := by
  obtain ⟨hone, htwo, hthree⟩ := hb
  simp [decode, Fetch.byte, Fetch.start, hone, htwo, hthree]

/-- A byte that does not go on with a sequence is lost with it. -/
theorem decode_two (ha : LeadTwo a) (hb : ¬Continuation b) :
    decode (a :: b :: l) (.start u) = decode l (.start (u.set 1 a)) := by
  simp [decode, Fetch.byte, Fetch.start, ha.not_single, ha, hb]

theorem decode_three (ha : LeadThree a) (hb : ¬Continuation b) :
    decode (a :: b :: l) (.start u) = decode l (.start (u.set 2 a)) := by
  simp [decode, Fetch.byte, Fetch.start, ha.not_single, ha.not_two, ha, hb]

theorem decode_third (ha : LeadThree a) (hb : Continuation b) (hd : ¬Continuation d) :
    decode (a :: b :: d :: l) (.start u) = decode l (.start ((u.set 2 a).set 1 b)) := by
  simp [decode, Fetch.byte, Fetch.start, ha.not_single, ha.not_two, ha, hb, hd]

/-- A character is given; some of its bytes stay in the variable. -/
theorem Encoding.decode_append {c : Char16} {bytes : List Byte} (h : Encoding c bytes)
    (l : List Byte) (u : Utf8Char) :
    ∃ u', decode (bytes ++ l) (.start u) = c :: decode l (.start u') := by
  cases h with
  | @one a ha hc =>
    refine ⟨u.set 0 a, ?_⟩
    simp [decode, Fetch.byte, Fetch.start, Fetch.chars, ha, hc]
  | @two a b ha hb hc =>
    refine ⟨(u.set 1 a).set 0 b, ?_⟩
    simp [decode, Fetch.byte, Fetch.start, Fetch.chars, ha.not_single, ha, hb, hc]
  | @three a b d ha hb hd hc =>
    refine ⟨((u.set 2 a).set 1 b).set 0 d, ?_⟩
    simp [decode, Fetch.byte, Fetch.start, Fetch.chars, ha.not_single, ha.not_two, ha, hb, hd, hc]

theorem decode_char (c : Char16) (l : List Byte) (u : Utf8Char) :
    ∃ u', decode (unicodeToUtf8 c ++ l) (.start u) = c :: decode l (.start u') :=
  (unicodeToUtf8_encoding c).decode_append l u

end Decode

/-! ## It is one decoding -/

theorem Encoding.ne_nil {c : Char16} {bytes : List Byte} (h : Encoding c bytes) :
    bytes ≠ [] := by
  cases h <;> exact List.cons_ne_nil _ _

theorem append_char_ne_nil (c : Char16) (l : List Byte) : unicodeToUtf8 c ++ l ≠ [] :=
  fun h => (unicodeToUtf8_encoding c).ne_nil (List.append_eq_nil_iff.mp h).1

theorem char_unique {c e : Char16} {l m : List Byte}
    (h : unicodeToUtf8 c ++ l = unicodeToUtf8 e ++ m) : c = e ∧ l = m := by
  obtain ⟨_, hc⟩ := decode_char c l ⟨0, 0, 0⟩
  obtain ⟨_, he⟩ := decode_char e m ⟨0, 0, 0⟩
  have hce : c = e := by
    rw [h, he, List.cons.injEq] at hc
    exact hc.1.symm
  subst hce
  exact ⟨rfl, List.append_cancel_left h⟩

theorem Decodes.unique {l : List Byte} {cs es : List Char16} (h : Decodes l cs)
    (h' : Decodes l es) : cs = es := by
  induction h generalizing es with
  | nil =>
    generalize hl : [] = m at h'
    cases h' with
    | nil => rfl
    | char e _ => exact absurd hl.symm (append_char_ne_nil e _)
    | drop _ _ => exact absurd hl.symm (List.cons_ne_nil _ _)
  | @char l cs c h ih =>
    generalize hl : unicodeToUtf8 c ++ l = m at h'
    cases h' with
    | nil => exact absurd hl (append_char_ne_nil c l)
    | char e h' =>
      obtain ⟨rfl, rfl⟩ := char_unique hl
      rw [ih h']
    | drop hb _ => exact absurd ⟨l, hl⟩ (hb c)
  | @drop b l cs hb h ih =>
    generalize hl : b :: l = m at h'
    cases h' with
    | nil => exact absurd hl (List.cons_ne_nil b l)
    | char e _ => exact absurd ⟨_, hl.symm⟩ (hb e)
    | drop _ h' =>
      obtain ⟨rfl, rfl⟩ := List.cons.inj hl
      exact ih h'

/-! ## Where the decoder is right -/

/-- Bytes fetched by one poll from which the decoder makes what they mean. A sequence that is
cut by the end of the poll is none of these; nor is a longer form than `UnicodeToUtf8` gives,
nor a byte that breaks off a sequence and begins one itself. -/
inductive Regular : List Byte → Prop
  | nil : Regular []
  | char {l} (c : Char16) (h : Regular l) : Regular (unicodeToUtf8 c ++ l)
  | stray {b l} (hb : Stray b) (h : Regular l) : Regular (b :: l)
  | two {a b l} (ha : LeadTwo a) (hb : ¬Continuation b)
    (hnone : ∀ later, NoChar (b :: (l ++ later))) (h : Regular l) : Regular (a :: b :: l)
  | three {a b l} (ha : LeadThree a) (hb : ¬Continuation b)
    (hnone : ∀ later, NoChar (b :: (l ++ later))) (h : Regular l) : Regular (a :: b :: l)
  | third {a b d l} (ha : LeadThree a) (hb : Continuation b) (hd : ¬Continuation d)
    (hnone : ∀ later, NoChar (d :: (l ++ later))) (h : Regular l) : Regular (a :: b :: d :: l)

section NoChar

variable {a b d : Byte} {l : List Byte}

theorem Continuation.stray : ∀ {b : Byte}, Continuation b → Stray b := by
  unfold Stray
  decide

/-- What an encoding looks like at the start of a list. -/
theorem NoChar.of_cases (hone : ¬Single a) (htwo : LeadTwo a → ∀ b m, l = b :: m → ¬Continuation b)
    (hthree : LeadThree a → ∀ b d m, l = b :: d :: m → Continuation b → ¬Continuation d) :
    NoChar (a :: l) := by
  rintro c ⟨m, hm⟩
  have h := unicodeToUtf8_encoding c
  generalize unicodeToUtf8 c = bytes at h hm
  cases h with
  | one ha _ =>
    obtain ⟨rfl, -⟩ := List.cons.inj hm
    exact hone ha
  | two ha hb _ =>
    obtain ⟨rfl, hl⟩ := List.cons.inj hm
    exact htwo ha _ m hl.symm hb
  | three ha hb hd _ =>
    obtain ⟨rfl, hl⟩ := List.cons.inj hm
    exact hthree ha _ _ m hl.symm hb hd

theorem noChar_stray (hb : Stray b) (l : List Byte) : NoChar (b :: l) :=
  .of_cases hb.1 (fun htwo => absurd htwo hb.2.1) (fun hthree => absurd hthree hb.2.2)

theorem noChar_two (ha : LeadTwo a) (hb : ¬Continuation b) (l : List Byte) :
    NoChar (a :: b :: l) := by
  refine .of_cases ha.not_single (fun _ b' m heq => ?_) (fun hthree => ?_)
  · obtain ⟨rfl, -⟩ := List.cons.inj heq
    exact hb
  · exact absurd ha hthree.not_two

theorem noChar_three (ha : LeadThree a) (hb : ¬Continuation b) (l : List Byte) :
    NoChar (a :: b :: l) := by
  refine .of_cases ha.not_single (fun htwo => absurd htwo ha.not_two) (fun _ b' d m heq hb' => ?_)
  obtain ⟨rfl, -⟩ := List.cons.inj heq
  exact absurd hb' hb

theorem noChar_third (ha : LeadThree a) (hd : ¬Continuation d) (l : List Byte) :
    NoChar (a :: b :: d :: l) := by
  refine .of_cases ha.not_single (fun htwo => absurd htwo ha.not_two) (fun _ b' d' m heq _ => ?_)
  obtain ⟨-, heq⟩ := List.cons.inj heq
  obtain ⟨rfl, -⟩ := List.cons.inj heq
  exact hd

end NoChar

/-- The decoder gives what the bytes mean, whatever comes later, and is at a start again. -/
theorem Regular.decodes {l later : List Byte} {es : List Char16} (h : Regular l)
    (hlater : Decodes later es) (u : Utf8Char) :
    Decodes (l ++ later) (decode l (.start u) ++ es) := by
  induction h generalizing u with
  | nil => simpa [decode, Fetch.chars, Fetch.start] using hlater
  | @char l c _ ih =>
    obtain ⟨u', hchar⟩ := decode_char c l u
    rw [hchar, List.append_assoc, List.cons_append]
    exact .char c (ih u')
  | stray hb _ ih =>
    rw [decode_stray hb]
    exact .drop (noChar_stray hb _) (ih u)
  | two ha hb hnone _ ih =>
    rw [decode_two ha hb]
    exact .drop (noChar_two ha hb _) (.drop (hnone later) (ih _))
  | three ha hb hnone _ ih =>
    rw [decode_three ha hb]
    exact .drop (noChar_three ha hb _) (.drop (hnone later) (ih _))
  | third ha hb hd hnone _ ih =>
    rw [decode_third ha hb hd]
    exact .drop (noChar_third ha hd _)
      (.drop (noChar_stray hb.stray _) (.drop (hnone later) (ih _)))

end EfiCore.Console
