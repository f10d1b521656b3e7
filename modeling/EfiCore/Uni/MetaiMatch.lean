import Mathlib.Data.List.Basic
import EfiCore.Uni.CaseMap

/-! # Wildcard patterns (`EngMetaiMatch`)

`String` and `Pattern` are lists of the characters before the terminator; what lies
behind a terminator is not known, so a read there ends the run without an answer.
-/

namespace EfiCore.Uni

/-! ## The code -/

/-- Where `[...]` leaves `Pattern`. -/
inductive SetEnd where
  /-- `return FALSE` -/
  | fails
  | passed (pattern : List Char16)
  /-- The loops read the terminator and stepped over it. -/
  | behind
  deriving DecidableEq

/-- `skip to end of match char set` -/
def skipSet : List Char16 → SetEnd
  | [] => .behind
  | p :: pattern => if p = ch ']' then .passed pattern else skipSet pattern

/-- The loop over a char set, for the character `c` of the string; `l` is the
character before. -/
def matchSet (c l : Char16) : List Char16 → SetEnd
  | [] => .behind
  | p :: pattern =>
    if p = ch ']' then .fails
    else if p = ch '-' then
      -- the high end is looked at here and read again as the next character
      match pattern with
      | [] => .fails
      | high :: _ =>
        if high = ch ']' then .fails
        else if toUpper l ≤ toUpper c ∧ toUpper c ≤ toUpper high then skipSet pattern
        else if toUpper c = toUpper high then skipSet pattern
        else matchSet c high pattern
    else if toUpper c = toUpper p then skipSet pattern
    else matchSet c p pattern

theorem skipSet_length {pattern rest : List Char16} (h : skipSet pattern = .passed rest) :
    rest.length < pattern.length := by
  induction pattern with
  | nil => simp [skipSet] at h
  | cons p pattern ih =>
    unfold skipSet at h
    split at h
    · simp_all
    · have := ih h
      simp only [List.length_cons]
      omega

theorem matchSet_length {c l : Char16} {pattern rest : List Char16}
    (h : matchSet c l pattern = .passed rest) : rest.length < pattern.length := by
  induction pattern generalizing l with
  | nil => simp [matchSet] at h
  | cons p pattern ih =>
    have hskip : skipSet pattern = .passed rest → rest.length < (p :: pattern).length := by
      intro hskip
      have := skipSet_length hskip
      simp only [List.length_cons]
      omega
    have hloop : ∀ l, matchSet c l pattern = .passed rest →
        rest.length < (p :: pattern).length := by
      intro l hloop
      have := ih hloop
      simp only [List.length_cons]
      omega
    unfold matchSet at h
    split at h
    · simp at h
    · split at h
      · cases pattern with
        | nil => simp at h
        | cons high pattern =>
          simp only at h
          split at h
          · simp at h
          · split at h
            · exact hskip h
            · split at h
              · exact hskip h
              · exact hloop _ h
      · split at h
        · exact hskip h
        · exact hloop _ h

/-- `Match zero or more chars` -/
def starLoop (metaiMatch : List Char16 → Option Bool) : List Char16 → Option Bool
  | [] => metaiMatch []
  | c :: string =>
    match metaiMatch (c :: string) with
    | some false => starLoop metaiMatch string
    | some true => some true
    | none => none

-- the equation of the `match` is used for the termination only
set_option linter.unusedVariables false in
/-- `EngMetaiMatch`; there is no answer if a character behind a terminator is read. -/
def engMetaiMatch (string : List Char16) : List Char16 → Option Bool
  | [] => some string.isEmpty
  | p :: pattern =>
    if p = ch '*' then starLoop (fun string => engMetaiMatch string pattern) string
    else if p = ch '?' then
      match string with
      | [] => some false
      | _ :: string => engMetaiMatch string pattern
    else if p = ch '[' then
      match string with
      | [] => some false
      | c :: string =>
        match hset : matchSet c 0#16 pattern with
        | .fails => some false
        | .passed rest => engMetaiMatch string rest
        | .behind => none
    else
      match string with
      | [] => if toUpper 0#16 ≠ toUpper p then some false else none
      | c :: string => if toUpper c ≠ toUpper p then some false else engMetaiMatch string pattern
termination_by pattern => pattern.length
decreasing_by
  · simp
  · simp
  · have := matchSet_length hset
    simp only [List.length_cons]
    omega
  · simp

section Equations

variable {p : Char16} {pattern : List Char16}

theorem engMetaiMatch_nil (string : List Char16) :
    engMetaiMatch string [] = some string.isEmpty := by
  rw [engMetaiMatch]

theorem engMetaiMatch_star (string : List Char16) :
    engMetaiMatch string (ch '*' :: pattern) =
      starLoop (fun string => engMetaiMatch string pattern) string := by
  conv_lhs => unfold engMetaiMatch
  rw [if_pos rfl]

theorem engMetaiMatch_any (string : List Char16) :
    engMetaiMatch string (ch '?' :: pattern) =
      match string with
      | [] => some false
      | _ :: string => engMetaiMatch string pattern := by
  have hstar : ch '?' ≠ ch '*' := by decide
  conv_lhs => unfold engMetaiMatch
  rw [if_neg hstar, if_pos rfl]

theorem engMetaiMatch_set (string : List Char16) :
    engMetaiMatch string (ch '[' :: pattern) =
      match string with
      | [] => some false
      | c :: string =>
        match matchSet c 0#16 pattern with
        | .fails => some false
        | .passed rest => engMetaiMatch string rest
        | .behind => none := by
  have hstar : ch '[' ≠ ch '*' := by decide
  have hany : ch '[' ≠ ch '?' := by decide
  conv_lhs => unfold engMetaiMatch
  rw [if_neg hstar, if_neg hany, if_pos rfl]
  cases string with
  | nil => rfl
  | cons c string =>
    simp only
    split <;> simp_all

theorem engMetaiMatch_char (hstar : p ≠ ch '*') (hany : p ≠ ch '?') (hset : p ≠ ch '[')
    (string : List Char16) :
    engMetaiMatch string (p :: pattern) =
      match string with
      | [] => if toUpper 0#16 ≠ toUpper p then some false else none
      | c :: string =>
        if toUpper c ≠ toUpper p then some false else engMetaiMatch string pattern := by
  conv_lhs => unfold engMetaiMatch
  rw [if_neg hstar, if_neg hany, if_neg hset]

end Equations

/-! ## The grammar -/

/-- `c` lies in the range, compared through the case map. -/
def InRange (low high c : Char16) : Prop := toUpper low ≤ toUpper c ∧ toUpper c ≤ toUpper high

instance (low high c : Char16) : Decidable (InRange low high c) :=
  inferInstanceAs (Decidable (_ ∧ _))

/-- The characters `body` of a set, behind the character `before`, list `c`. -/
inductive Lists (c : Char16) : Char16 → List Char16 → Prop
  | char : p ≠ ch '-' → toUpper c = toUpper p → Lists c before (p :: body)
  | range : InRange before high c → Lists c before (ch '-' :: high :: body)
  | high : toUpper c = toUpper high → Lists c before (ch '-' :: high :: body)
  | later : Lists c p body → Lists c before (p :: body)

/-- The pattern matches the string; a set begins behind the character 0. -/
inductive Matches : List Char16 → List Char16 → Prop
  | nil : Matches [] []
  | star (skipped) : Matches pattern string → Matches (ch '*' :: pattern) (skipped ++ string)
  | any : Matches pattern string → Matches (ch '?' :: pattern) (c :: string)
  | set : ch ']' ∉ body → Lists c 0#16 body → Matches pattern string →
      Matches (ch '[' :: (body ++ ch ']' :: pattern)) (c :: string)
  | char : p ≠ ch '*' → p ≠ ch '?' → p ≠ ch '[' → toUpper c = toUpper p →
      Matches pattern string → Matches (p :: pattern) (c :: string)

/-- Every set has its `]` and no range without a high end. -/
inductive WellFormed : List Char16 → Prop
  | nil : WellFormed []
  | char : p ≠ ch '[' → WellFormed pattern → WellFormed (p :: pattern)
  | set : ch ']' ∉ body → body.getLast? ≠ some (ch '-') → WellFormed pattern →
      WellFormed (ch '[' :: (body ++ ch ']' :: pattern))

/-- Every set has its `]`. -/
inductive Closed : List Char16 → Prop
  | nil : Closed []
  | char : p ≠ ch '[' → Closed pattern → Closed (p :: pattern)
  | set : ch ']' ∉ body → Closed pattern → Closed (ch '[' :: (body ++ ch ']' :: pattern))

/-- A set without its `]` ends the pattern, and it takes a character of the string: one that it
lists, or any one if no range without a high end comes last. -/
def RunsOut (pattern string : List Char16) : Prop :=
  ∃ front body before c after, pattern = front ++ ch '[' :: body ∧ ch ']' ∉ body ∧
    string = before ++ c :: after ∧ Matches front before ∧
    (Lists c 0#16 body ∨ body.getLast? ≠ some (ch '-'))

theorem WellFormed.closed {pattern : List Char16} (h : WellFormed pattern) : Closed pattern := by
  induction h with
  | nil => exact .nil
  | char hp _ ih => exact .char hp ih
  | set hbody _ _ ih => exact .set hbody ih

theorem Matches.closed {pattern string : List Char16} (h : Matches pattern string) :
    Closed pattern := by
  induction h with
  | nil => exact .nil
  | star _ _ ih => exact .char (by decide) ih
  | any _ ih => exact .char (by decide) ih
  | set hbody _ _ ih => exact .set hbody ih
  | char _ _ hp _ _ ih => exact .char hp ih

/-! ## The loop over a set -/

section Sets

variable {c l : Char16} {body : List Char16}

theorem not_lists_nil : ¬Lists c l [] := by
  intro h
  cases h

theorem lists_cons {p : Char16} (hp : p ≠ ch '-') :
    Lists c l (p :: body) ↔ toUpper c = toUpper p ∨ Lists c p body := by
  constructor
  · intro h
    cases h with
    | char _ hsame => exact .inl hsame
    | range => exact absurd rfl hp
    | high => exact absurd rfl hp
    | later h => exact .inr h
  · intro h
    cases h with
    | inl hsame => exact .char hp hsame
    | inr h => exact .later h

theorem not_lists_dash : ¬Lists c l [ch '-'] := by
  intro h
  cases h with
  | char hp _ => exact hp rfl
  | later h => exact not_lists_nil h

theorem lists_dash {high : Char16} :
    Lists c l (ch '-' :: high :: body) ↔
      InRange l high c ∨ toUpper c = toUpper high ∨ Lists c (ch '-') (high :: body) := by
  constructor
  · intro h
    cases h with
    | char hp _ => exact absurd rfl hp
    | range h => exact .inl h
    | high h => exact .inr (.inl h)
    | later h => exact .inr (.inr h)
  · rintro (h | h | h)
    · exact .range h
    · exact .high h
    · exact .later h

/-- Behind a range the code keeps the high end, which is the next character itself. -/
theorem lists_after_range {high : Char16} :
    Lists c (ch '-') (high :: body) ↔ Lists c high (high :: body) := by
  by_cases hdash : high = ch '-'
  · rw [hdash]
  · rw [lists_cons hdash, lists_cons hdash]

theorem skipSet_append (hbody : ch ']' ∉ body) (tail : List Char16) :
    skipSet (body ++ tail) = skipSet tail := by
  induction body with
  | nil => rfl
  | cons p body ih =>
    simp only [List.mem_cons, not_or] at hbody
    simp [skipSet, Ne.symm hbody.1, ih hbody.2]

theorem matchSet_dash {high : Char16} (hhigh : high ≠ ch ']') (pattern : List Char16) :
    matchSet c l (ch '-' :: high :: pattern) =
      if InRange l high c then skipSet (high :: pattern)
      else if toUpper c = toUpper high then skipSet (high :: pattern)
      else matchSet c high (high :: pattern) := by
  have hdash : ch '-' ≠ ch ']' := by decide
  rw [matchSet, if_neg hdash, if_pos rfl]
  simp only [hhigh, if_false]
  rfl

theorem matchSet_char {p : Char16} (hp : p ≠ ch ']') (hdash : p ≠ ch '-')
    (pattern : List Char16) :
    matchSet c l (p :: pattern) =
      if toUpper c = toUpper p then skipSet pattern else matchSet c p pattern := by
  conv_lhs => unfold matchSet
  rw [if_neg hp, if_neg hdash]

theorem matchSet_of_lists (hbody : ch ']' ∉ body) (hlists : Lists c l body)
    (tail : List Char16) : matchSet c l (body ++ tail) = skipSet tail := by
  induction body generalizing l with
  | nil => exact absurd hlists not_lists_nil
  | cons p body ih =>
    simp only [List.mem_cons, not_or] at hbody
    obtain ⟨hp, hrest⟩ := hbody
    have hskip := skipSet_append hrest tail
    by_cases hdash : p = ch '-'
    · subst hdash
      cases body with
      | nil => exact absurd hlists not_lists_dash
      | cons high body =>
        have hhigh : high ≠ ch ']' := by
          intro h
          simp [h] at hrest
        rw [List.cons_append, List.cons_append, matchSet_dash hhigh]
        rw [lists_dash, lists_after_range] at hlists
        split
        · exact hskip
        · split
          · exact hskip
          · exact ih hrest (hlists.resolve_left ‹_› |>.resolve_left ‹_›)
    · rw [List.cons_append, matchSet_char (Ne.symm hp) hdash]
      rw [lists_cons hdash] at hlists
      split
      · exact hskip
      · exact ih hrest (hlists.resolve_left ‹_›)

/-- Where the loop ends behind a set that does not list the character: at a range without a
high end, or where it ends on the tail. -/
theorem matchSet_of_not_lists (hbody : ch ']' ∉ body) (hlists : ¬Lists c l body)
    {tail : List Char16} {stop : SetEnd} (hstop : ∀ l, matchSet c l tail = stop)
    (htail : tail = [] ∨ ∃ pattern, tail = ch ']' :: pattern) :
    matchSet c l (body ++ tail) =
      if body.getLast? = some (ch '-') then .fails else stop := by
  induction body generalizing l with
  | nil => simpa using hstop l
  | cons p body ih =>
    simp only [List.mem_cons, not_or] at hbody
    obtain ⟨hp, hrest⟩ := hbody
    by_cases hdash : p = ch '-'
    · subst hdash
      cases body with
      | nil =>
        cases htail with
        | inl htail => simp [htail, matchSet, Ne.symm hp]
        | inr htail =>
          obtain ⟨pattern, htail⟩ := htail
          simp [htail, matchSet, Ne.symm hp]
      | cons high body =>
        have hhigh : high ≠ ch ']' := by
          intro h
          simp [h] at hrest
        rw [lists_dash, lists_after_range, not_or, not_or] at hlists
        obtain ⟨hrange, hsame, hlater⟩ := hlists
        rw [List.cons_append, List.cons_append, matchSet_dash hhigh, if_neg hrange,
          if_neg hsame, List.getLast?_cons_cons]
        exact ih hrest hlater
    · rw [lists_cons hdash, not_or] at hlists
      rw [List.cons_append, matchSet_char (Ne.symm hp) hdash, if_neg hlists.1, ih hrest hlists.2]
      cases body with
      | nil => simp [hdash]
      | cons q body => rw [List.getLast?_cons_cons]

end Sets

/-! ## The whole pattern -/

/-- The run ends as `hit` says if `P` holds, and with FALSE if it does not. -/
def Gives (hit : Option Bool) (result : Option Bool) (P : Prop) : Prop :=
  (P → result = hit) ∧ (¬P → result = some false)

theorem Gives.of_not {hit : Option Bool} {P : Prop} (h : ¬P) : Gives hit (some false) P :=
  ⟨fun hP => absurd hP h, fun _ => rfl⟩

theorem Gives.of_iff {hit result : Option Bool} {P Q : Prop} (h : Gives hit result P)
    (hPQ : P ↔ Q) : Gives hit result Q :=
  ⟨fun hQ => h.1 (hPQ.mpr hQ), fun hQ => h.2 fun hP => hQ (hPQ.mp hP)⟩

/-- The loop over the positions tries every end of the string, the longest first. -/
theorem gives_starLoop {hit : Option Bool} (hhit : hit ≠ some false)
    {metaiMatch : List Char16 → Option Bool} {P : List Char16 → Prop}
    (hmatch : ∀ string, Gives hit (metaiMatch string) (P string)) (string : List Char16) :
    Gives hit (starLoop metaiMatch string)
      (∃ skipped rest, string = skipped ++ rest ∧ P rest) := by
  induction string with
  | nil =>
    apply (hmatch []).of_iff
    constructor
    · intro h
      exact ⟨[], [], rfl, h⟩
    · rintro ⟨skipped, rest, heq, h⟩
      obtain ⟨rfl, rfl⟩ := List.nil_eq_append_iff.mp heq
      exact h
  | cons c string ih =>
    by_cases hhere : P (c :: string)
    · have hfirst := (hmatch (c :: string)).1 hhere
      have hloop : starLoop metaiMatch (c :: string) = hit := by
        rw [starLoop, hfirst]
        cases hit with
        | none => rfl
        | some b => cases b with
          | false => exact absurd rfl hhit
          | true => rfl
      exact ⟨fun _ => hloop, fun h => absurd ⟨[], _, rfl, hhere⟩ h⟩
    · have hfirst := (hmatch (c :: string)).2 hhere
      rw [starLoop, hfirst]
      apply ih.of_iff
      constructor
      · rintro ⟨skipped, rest, rfl, h⟩
        exact ⟨c :: skipped, rest, rfl, h⟩
      · rintro ⟨skipped, rest, heq, h⟩
        cases skipped with
        | nil =>
          cases heq
          exact absurd h hhere
        | cons d skipped =>
          cases heq
          exact ⟨skipped, rest, rfl, h⟩

section Inversion

variable {p c : Char16} {front body before string : List Char16}

theorem matches_nil : Matches [] string ↔ string = [] := by
  constructor
  · intro h
    cases h
    rfl
  · rintro rfl
    exact .nil

theorem matches_star : Matches (ch '*' :: front) string ↔
    ∃ skipped rest, string = skipped ++ rest ∧ Matches front rest := by
  constructor
  · intro h
    generalize hpattern : ch '*' :: front = pattern at h
    cases h with
    | nil => simp at hpattern
    | star skipped h =>
      cases hpattern
      exact ⟨skipped, _, rfl, h⟩
    | any => exact absurd (List.cons.inj hpattern).1 (by decide)
    | set => exact absurd (List.cons.inj hpattern).1 (by decide)
    | char hp => exact absurd (List.cons.inj hpattern).1.symm hp
  · rintro ⟨skipped, rest, rfl, h⟩
    exact .star skipped h

theorem matches_any : Matches (ch '?' :: front) string ↔
    ∃ c rest, string = c :: rest ∧ Matches front rest := by
  constructor
  · intro h
    generalize hpattern : ch '?' :: front = pattern at h
    cases h with
    | nil => simp at hpattern
    | star => exact absurd (List.cons.inj hpattern).1 (by decide)
    | any h =>
      cases hpattern
      exact ⟨_, _, rfl, h⟩
    | set => exact absurd (List.cons.inj hpattern).1 (by decide)
    | char _ hp => exact absurd (List.cons.inj hpattern).1.symm hp
  · rintro ⟨c, rest, rfl, h⟩
    exact .any h

/-- The `]` of a set is the first one. -/
theorem first_eq {mark : Char16} {left right rest rest' : List Char16} (hleft : mark ∉ left)
    (hright : mark ∉ right) (heq : left ++ mark :: rest = right ++ mark :: rest') :
    left = right ∧ rest = rest' := by
  induction left generalizing right with
  | nil =>
    cases right with
    | nil => simpa using heq
    | cons d right =>
      cases heq
      simp at hright
  | cons d left ih =>
    cases right with
    | nil =>
      cases heq
      simp at hleft
    | cons e right =>
      simp only [List.mem_cons, not_or] at hleft hright
      simp only [List.cons_append, List.cons.injEq] at heq
      obtain ⟨rfl, heq⟩ := heq
      obtain ⟨rfl, rfl⟩ := ih hleft.2 hright.2 heq
      exact ⟨rfl, rfl⟩

theorem matches_set (hbody : ch ']' ∉ body) :
    Matches (ch '[' :: (body ++ ch ']' :: front)) string ↔
      ∃ c rest, string = c :: rest ∧ Lists c 0#16 body ∧ Matches front rest := by
  constructor
  · intro h
    generalize hpattern : ch '[' :: (body ++ ch ']' :: front) = pattern at h
    cases h with
    | nil => simp at hpattern
    | star => exact absurd (List.cons.inj hpattern).1 (by decide)
    | any => exact absurd (List.cons.inj hpattern).1 (by decide)
    | set hbody' hlists h =>
      obtain ⟨rfl, rfl⟩ := first_eq hbody hbody' (List.cons.inj hpattern).2
      exact ⟨_, _, rfl, hlists, h⟩
    | char _ _ hp => exact absurd (List.cons.inj hpattern).1.symm hp
  · rintro ⟨c, rest, rfl, hlists, h⟩
    exact .set hbody hlists h

theorem matches_char (hstar : p ≠ ch '*') (hany : p ≠ ch '?') (hset : p ≠ ch '[') :
    Matches (p :: front) string ↔
      ∃ c rest, string = c :: rest ∧ toUpper c = toUpper p ∧ Matches front rest := by
  constructor
  · intro h
    cases h with
    | star => exact absurd rfl hstar
    | any => exact absurd rfl hany
    | set => exact absurd rfl hset
    | char _ _ _ hsame h => exact ⟨_, _, rfl, hsame, h⟩
  · rintro ⟨c, rest, rfl, hsame, h⟩
    exact .char hstar hany hset hsame h

end Inversion

/-- `front` matches the beginning of the string and `Q` holds of the rest. -/
def Splits (front : List Char16) (Q : List Char16 → Prop) (string : List Char16) : Prop :=
  ∃ before rest, string = before ++ rest ∧ Matches front before ∧ Q rest

section Splits

variable {front pattern : List Char16} {Q : List Char16 → Prop}

theorem splits_nil (string : List Char16) : Splits [] Q string ↔ Q string := by
  constructor
  · rintro ⟨before, rest, rfl, hmatches, h⟩
    cases matches_nil.mp hmatches
    exact h
  · intro h
    exact ⟨[], string, rfl, .nil, h⟩

theorem splits_star (string : List Char16) : Splits (ch '*' :: front) Q string ↔
    ∃ skipped rest, string = skipped ++ rest ∧ Splits front Q rest := by
  constructor
  · rintro ⟨before, rest, rfl, hmatches, h⟩
    obtain ⟨skipped, before, rfl, hfront⟩ := matches_star.mp hmatches
    exact ⟨skipped, before ++ rest, List.append_assoc .., before, rest, rfl, hfront, h⟩
  · rintro ⟨skipped, -, rfl, before, rest, rfl, hmatches, h⟩
    exact ⟨skipped ++ before, rest, (List.append_assoc ..).symm, .star skipped hmatches, h⟩

/-- An item that takes one character leaves the rest of the pattern to the rest of the string. -/
theorem gives_item {hit : Option Bool} {Takes : Char16 → Prop}
    {item : List Char16 → Option Bool} {metaiMatch : List Char16 → Option Bool}
    (hmatches : ∀ string, Matches pattern string ↔
      ∃ c rest, string = c :: rest ∧ Takes c ∧ Matches front rest)
    (hnil : item [] = some false)
    (htakes : ∀ c string, Takes c → item (c :: string) = metaiMatch string)
    (hrefuses : ∀ c string, ¬Takes c → item (c :: string) = some false)
    (hrest : ∀ string, Gives hit (metaiMatch string) (Splits front Q string))
    (string : List Char16) : Gives hit (item string) (Splits pattern Q string) := by
  have hsplits : Splits pattern Q string ↔
      ∃ c rest, string = c :: rest ∧ Takes c ∧ Splits front Q rest := by
    constructor
    · rintro ⟨before, rest, rfl, h, hQ⟩
      obtain ⟨c, before, rfl, hc, h⟩ := (hmatches before).mp h
      exact ⟨c, before ++ rest, rfl, hc, before, rest, rfl, h, hQ⟩
    · rintro ⟨c, -, rfl, hc, before, rest, rfl, h, hQ⟩
      exact ⟨c :: before, rest, rfl, (hmatches _).mpr ⟨c, before, rfl, hc, h⟩, hQ⟩
  cases string with
  | nil =>
    rw [hnil]
    apply Gives.of_not
    rw [hsplits]
    rintro ⟨c, rest, heq, -⟩
    cases heq
  | cons c string =>
    by_cases hc : Takes c
    · rw [htakes c string hc]
      apply (hrest string).of_iff
      rw [hsplits]
      simp [hc]
    · rw [hrefuses c string hc]
      apply Gives.of_not
      rw [hsplits]
      simp [hc]

end Splits

/-- The front of a pattern up to which every set has its `]`. The induction is on the items;
a star leaves the choice of the position to the loop. -/
theorem gives_engMetaiMatch {hit : Option Bool} (hhit : hit ≠ some false)
    {front tail : List Char16} {Q : List Char16 → Prop} (hclosed : Closed front)
    (hnul : 0#16 ∉ front) (htail : ∀ string, Gives hit (engMetaiMatch string tail) (Q string))
    (string : List Char16) :
    Gives hit (engMetaiMatch string (front ++ tail)) (Splits front Q string) := by
  induction hclosed generalizing string with
  | nil => exact (htail string).of_iff (splits_nil string).symm
  | @char p front hset _ ih =>
    simp only [List.mem_cons, not_or] at hnul
    have hrest := ih hnul.2
    by_cases hstar : p = ch '*'
    · subst hstar
      rw [List.cons_append, engMetaiMatch_star]
      exact (gives_starLoop hhit hrest string).of_iff (splits_star string).symm
    by_cases hany : p = ch '?'
    · subst hany
      have hmatches : ∀ string, Matches (ch '?' :: front) string ↔
          ∃ c rest, string = c :: rest ∧ True ∧ Matches front rest := by
        intro string
        simpa using matches_any
      apply gives_item hmatches _ _ _ hrest
      · rw [List.cons_append, engMetaiMatch_any]
      · intro c string _
        rw [List.cons_append, engMetaiMatch_any]
      · intro c string h
        exact absurd trivial h
    · apply gives_item (fun _ => matches_char hstar hany hset) _ _ _ hrest
      · have hzero : toUpper 0#16 ≠ toUpper p := by
          intro heq
          rw [toUpper_eq_zero.mpr rfl, eq_comm, toUpper_eq_zero] at heq
          exact hnul.1 heq.symm
        rw [List.cons_append, engMetaiMatch_char hstar hany hset]
        exact if_pos hzero
      · intro c string hsame
        rw [List.cons_append, engMetaiMatch_char hstar hany hset]
        exact if_neg (not_not.mpr hsame)
      · intro c string hsame
        rw [List.cons_append, engMetaiMatch_char hstar hany hset]
        exact if_pos hsame
  | @set body front hbody _ ih =>
    simp only [List.mem_cons, List.mem_append, not_or] at hnul
    have hrest := ih hnul.2.2.2
    have hmatches : ∀ string, Matches (ch '[' :: (body ++ ch ']' :: front)) string ↔
        ∃ c rest, string = c :: rest ∧ Lists c 0#16 body ∧ Matches front rest :=
      fun _ => matches_set hbody
    have htext : ch '[' :: (body ++ ch ']' :: front) ++ tail =
        ch '[' :: (body ++ ch ']' :: (front ++ tail)) := by
      simp
    rw [htext]
    apply gives_item hmatches _ _ _ hrest
    · exact engMetaiMatch_set []
    · intro c string hlists
      simp only [engMetaiMatch_set, matchSet_of_lists hbody hlists, skipSet, if_true]
    · intro c string hlists
      have hstop : ∀ l, matchSet c l (ch ']' :: (front ++ tail)) = .fails := by
        intro l
        simp [matchSet]
      have hset := matchSet_of_not_lists hbody hlists hstop (.inr ⟨_, rfl⟩)
      simp only [ite_self] at hset
      simp only [engMetaiMatch_set, hset]

/-- A set without its `]` at the end of a pattern. -/
theorem gives_open {body : List Char16} (hbody : ch ']' ∉ body) (string : List Char16) :
    Gives none (engMetaiMatch string (ch '[' :: body))
      (∃ c after, string = c :: after ∧ (Lists c 0#16 body ∨ body.getLast? ≠ some (ch '-'))) := by
  rw [engMetaiMatch_set]
  cases string with
  | nil =>
    apply Gives.of_not
    rintro ⟨c, after, heq, -⟩
    cases heq
  | cons c string =>
    have hends : (∃ d after, c :: string = d :: after ∧
        (Lists d 0#16 body ∨ body.getLast? ≠ some (ch '-'))) ↔
        Lists c 0#16 body ∨ body.getLast? ≠ some (ch '-') := by
      simp
    rw [hends]
    by_cases hlists : Lists c 0#16 body
    · have hset := matchSet_of_lists hbody hlists []
      rw [List.append_nil] at hset
      simp [Gives, hset, hlists, skipSet]
    · have hstop : ∀ l, matchSet c l [] = .behind := fun _ => rfl
      have hset := matchSet_of_not_lists hbody hlists hstop (.inl rfl)
      rw [List.append_nil] at hset
      by_cases hlast : body.getLast? = some (ch '-') <;> simp [Gives, hset, hlists, hlast]

/-! ## Where a pattern stops being closed -/

/-- What follows the last `]`: nothing, or a set without one. -/
def Tail (tail : List Char16) : Prop :=
  tail = [] ∨ ∃ body, tail = ch '[' :: body ∧ ch ']' ∉ body

theorem exists_closed (pattern : List Char16) :
    ∃ front tail, pattern = front ++ tail ∧ Closed front ∧ Tail tail := by
  induction hlength : pattern.length using Nat.strong_induction_on generalizing pattern with
  | _ length ih =>
    subst hlength
    cases pattern with
    | nil => exact ⟨[], [], rfl, .nil, .inl rfl⟩
    | cons p pattern =>
      by_cases hset : p = ch '['
      · subst hset
        by_cases hclose : ch ']' ∈ pattern
        · obtain ⟨body, rest, rfl, hbody⟩ := List.eq_append_cons_of_mem hclose
          have hshort : rest.length < (ch '[' :: (body ++ ch ']' :: rest)).length := by
            simp
            omega
          obtain ⟨front, tail, rfl, hfront, htail⟩ := ih _ hshort rest rfl
          exact ⟨ch '[' :: (body ++ ch ']' :: front), tail, by simp, .set hbody hfront, htail⟩
        · exact ⟨[], _, rfl, .nil, .inr ⟨pattern, rfl, hclose⟩⟩
      · obtain ⟨front, tail, rfl, hfront, htail⟩ := ih pattern.length (by simp) pattern rfl
        exact ⟨p :: front, tail, rfl, .char hset hfront, htail⟩

theorem Tail.not_char {p : Char16} {rest : List Char16} (hp : p ≠ ch '[') :
    ¬Tail (p :: rest) := by
  rintro (h | ⟨body, h, -⟩)
  · cases h
  · exact hp (List.cons.inj h).1

theorem Tail.not_set {body rest : List Char16} :
    ¬Tail (ch '[' :: (body ++ ch ']' :: rest)) := by
  rintro (h | ⟨body', h, hopen⟩)
  · cases h
  · rw [← (List.cons.inj h).2] at hopen
    simp at hopen

/-- The closed front of a pattern is the same however it is found. -/
theorem Closed.unique {front front' tail tail' : List Char16} (hfront : Closed front)
    (hfront' : Closed front') (htail : Tail tail) (htail' : Tail tail')
    (heq : front ++ tail = front' ++ tail') : front = front' ∧ tail = tail' := by
  induction hfront generalizing front' with
  | nil =>
    cases hfront' with
    | nil => exact ⟨rfl, heq⟩
    | char hp _ =>
      rw [List.nil_append] at heq
      subst heq
      exact absurd htail (Tail.not_char hp)
    | set _ _ =>
      rw [List.nil_append] at heq
      subst heq
      simp only [List.cons_append, List.append_assoc] at htail
      exact absurd htail Tail.not_set
  | @char p front hp _ ih =>
    cases hfront' with
    | nil =>
      rw [List.nil_append] at heq
      subst heq
      exact absurd htail' (Tail.not_char hp)
    | char _ hfront' =>
      simp only [List.cons_append, List.cons.injEq] at heq
      obtain ⟨rfl, heq⟩ := heq
      obtain ⟨rfl, rfl⟩ := ih hfront' heq
      exact ⟨rfl, rfl⟩
    | set _ _ => exact absurd (List.cons.inj heq).1 hp
  | @set body front hbody _ ih =>
    cases hfront' with
    | nil =>
      rw [List.nil_append] at heq
      subst heq
      simp only [List.cons_append, List.append_assoc] at htail'
      exact absurd htail' Tail.not_set
    | char hp _ => exact absurd (List.cons.inj heq).1.symm hp
    | set hbody' hfront' =>
      simp only [List.append_assoc, List.cons_append, List.cons.injEq, true_and] at heq
      obtain ⟨rfl, hrest⟩ := first_eq hbody hbody' heq
      obtain ⟨rfl, rfl⟩ := ih hfront' hrest
      exact ⟨rfl, rfl⟩

theorem Closed.not_open {pattern front body : List Char16} (hpattern : Closed pattern)
    (hfront : Closed front) (hbody : ch ']' ∉ body) : pattern ≠ front ++ ch '[' :: body := by
  intro heq
  have hempty := (hpattern.unique hfront (.inl rfl) (.inr ⟨body, rfl, hbody⟩)
    ((List.append_nil pattern).trans heq)).2
  cases hempty

theorem runsOut_iff {front body : List Char16} (hfront : Closed front) (hbody : ch ']' ∉ body)
    (string : List Char16) :
    RunsOut (front ++ ch '[' :: body) string ↔
      Splits front (fun rest => ∃ c after, rest = c :: after ∧
        (Lists c 0#16 body ∨ body.getLast? ≠ some (ch '-'))) string := by
  constructor
  · rintro ⟨front', body', before, c, after, heq, hbody', rfl, hmatches, h⟩
    obtain ⟨rfl, htail⟩ := hfront.unique hmatches.closed (.inr ⟨body, rfl, hbody⟩)
      (.inr ⟨body', rfl, hbody'⟩) heq
    cases htail
    exact ⟨before, c :: after, rfl, hmatches, c, after, rfl, h⟩
  · rintro ⟨before, -, rfl, hmatches, c, after, rfl, h⟩
    exact ⟨front, body, before, c, after, rfl, hbody, rfl, hmatches, h⟩

/-! ## The answer -/

/-- A closed pattern is read to its end. -/
theorem engMetaiMatch_of_closed {pattern : List Char16} (hclosed : Closed pattern)
    (hnul : 0#16 ∉ pattern) (string : List Char16) :
    Gives (some true) (engMetaiMatch string pattern) (Matches pattern string) := by
  have hend : ∀ string, Gives (some true) (engMetaiMatch string []) (string = []) := by
    intro string
    cases string <;> simp [Gives, engMetaiMatch_nil]
  have hgives := gives_engMetaiMatch (by decide) hclosed hnul hend string
  rw [List.append_nil] at hgives
  apply hgives.of_iff
  constructor
  · rintro ⟨before, rest, rfl, hmatches, rfl⟩
    rwa [List.append_nil]
  · intro hmatches
    exact ⟨string, [], (List.append_nil string).symm, hmatches, rfl⟩

/-- A pattern with an open set never gives TRUE. -/
theorem engMetaiMatch_of_open {front body : List Char16} (hfront : Closed front)
    (hnul : 0#16 ∉ front) (hbody : ch ']' ∉ body) (string : List Char16) :
    Gives none (engMetaiMatch string (front ++ ch '[' :: body))
      (RunsOut (front ++ ch '[' :: body) string) :=
  (gives_engMetaiMatch (by decide) hfront hnul (gives_open hbody) string).of_iff
    (runsOut_iff hfront hbody string).symm

/-- The run ends with TRUE or FALSE, and with TRUE exactly if the pattern is well formed and
matches the string. -/
def FollowsGrammar (string pattern : Text) : Prop :=
  ∃ answer, engMetaiMatch string.chars pattern.chars = some answer ∧
    (answer = true ↔ WellFormed pattern.chars ∧ Matches pattern.chars string.chars)

theorem engMetaiMatch_followsGrammar_iff (string pattern : Text) :
    FollowsGrammar string pattern ↔ WellFormed pattern.chars ∨
      ¬Matches pattern.chars string.chars ∧ ¬RunsOut pattern.chars string.chars := by
  obtain ⟨front, tail, htext, hfront, htail⟩ := exists_closed pattern.chars
  have hnul := pattern.noNul
  unfold FollowsGrammar
  rw [htext] at hnul ⊢
  cases htail with
  | inl htail =>
    subst htail
    rw [List.append_nil] at hnul ⊢
    have hruns : ¬RunsOut front string.chars := by
      rintro ⟨front', body, before, c, after, heq, hbody, -, hmatches, -⟩
      exact hfront.not_open hmatches.closed hbody heq
    have hanswer := engMetaiMatch_of_closed hfront hnul string.chars
    by_cases hmatches : Matches front string.chars
    · simp [hanswer.1 hmatches, hmatches]
    · simp [hanswer.2 hmatches, hmatches, hruns]
  | inr htail =>
    obtain ⟨body, rfl, hbody⟩ := htail
    have hwell : ¬WellFormed (front ++ ch '[' :: body) := by
      intro h
      exact h.closed.not_open hfront hbody rfl
    have hmatches : ¬Matches (front ++ ch '[' :: body) string.chars := by
      intro h
      exact h.closed.not_open hfront hbody rfl
    have hnul' : 0#16 ∉ front := by
      intro hmem
      exact hnul (List.mem_append_left _ hmem)
    have hanswer := engMetaiMatch_of_open hfront hnul' hbody string.chars
    by_cases hruns : RunsOut (front ++ ch '[' :: body) string.chars
    · simp [hanswer.1 hruns, hwell, hruns]
    · simp [hanswer.2 hruns, hwell, hmatches, hruns]

/-- A well-formed pattern is matched as the grammar says. -/
theorem engMetaiMatch_of_wellFormed {string pattern : Text} (h : WellFormed pattern.chars) :
    engMetaiMatch string.chars pattern.chars = some true ↔
      Matches pattern.chars string.chars := by
  have hanswer := engMetaiMatch_of_closed h.closed pattern.noNul string.chars
  by_cases hmatches : Matches pattern.chars string.chars
  · simp [hanswer.1 hmatches, hmatches]
  · simp [hanswer.2 hmatches, hmatches]

theorem not_wellFormed_of_dash {body pattern : List Char16} (hbody : ch ']' ∉ body)
    (hlast : body.getLast? = some (ch '-')) :
    ¬WellFormed (ch '[' :: (body ++ ch ']' :: pattern)) := by
  intro h
  generalize htext : ch '[' :: (body ++ ch ']' :: pattern) = text at h
  cases h with
  | nil => cases htext
  | char hp _ => exact hp (List.cons.inj htext).1.symm
  | set hbody' hlast' _ =>
    obtain ⟨rfl, -⟩ := first_eq hbody hbody' (List.cons.inj htext).2
    exact hlast' hlast

/-- `[a` against `a` runs out of the pattern, and `[ab-]` against `a` answers TRUE. -/
theorem not_followsGrammar :
    ¬FollowsGrammar ⟨[ch 'a'], by decide⟩ ⟨[ch '[', ch 'a'], by decide⟩ ∧
      ¬FollowsGrammar ⟨[ch 'a'], by decide⟩
        ⟨[ch '[', ch 'a', ch 'b', ch '-', ch ']'], by decide⟩ := by
  constructor
  · rintro ⟨answer, hanswer, -⟩
    have hcode : engMetaiMatch [ch 'a'] [ch '[', ch 'a'] = none := by decide +kernel
    rw [hcode] at hanswer
    cases hanswer
  · rintro ⟨answer, hanswer, htrue⟩
    have hcode : engMetaiMatch [ch 'a'] [ch '[', ch 'a', ch 'b', ch '-', ch ']'] = some true := by
      decide +kernel
    rw [hcode] at hanswer
    cases hanswer
    have hdash : ¬WellFormed (ch '[' :: ([ch 'a', ch 'b', ch '-'] ++ [ch ']'])) :=
      not_wellFormed_of_dash (by decide) rfl
    exact hdash (htrue.mp rfl).1

end EfiCore.Uni
