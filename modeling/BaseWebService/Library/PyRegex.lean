import Mathlib.Tactic.Common
import Mathlib.Data.List.Basic

/-!
# Regular expressions

`re.sub` for patterns made of characters, `^` (under `re.MULTILINE`), sequences, greedy repetitions
and one capturing group. `run` is a backtracking matcher: it lists the matches at a position, the
preferred one first. `Matches` says what a pattern matches without an order among the matches.

A pattern that matches no line break replaces in each line by itself, whatever stands in the other
lines. One that begins with `^` replaces at most once in a line.

## Main results

* `mem_run` : the matcher finds what the pattern matches, and nothing else.
* `sub_append_break` : a replacement line by line.
* `sub_line_of_some`, `sub_line_of_none` : a replacement at the beginning of a line.
-/

namespace BaseWebService.Library

inductive Regex where
  | empty
  | char (p : Char → Bool)
  | lineStart
  | seq (r s : Regex)
  | star (r : Regex)
  | group (r : Regex)

/-- What a pattern has matched, what stands behind it, and what the group has captured. -/
structure Match where
  word : List Char
  rest : List Char
  group : Option (List Char) := none

namespace Match

/-- The match of a sequence; the last capture counts. -/
def append (m m' : Match) : Match := ⟨m.word ++ m'.word, m'.rest, m'.group.or m.group⟩

/-- The same match in a text that goes on. -/
def before (m : Match) (after : List Char) : Match := { m with rest := m.rest ++ after }

end Match

/-- The character before a position that comes after `word`. -/
def lastChar (prev : Option Char) (word : List Char) : Option Char := word.getLast?.or prev

/-- Where `^` matches, given the character before. -/
def atLineStart (prev : Option Char) : Bool := prev = none || prev = some '\n'

namespace Regex

/-- The literal pattern. -/
def literal (text : List Char) : Regex :=
  text.foldr (fun c r => .seq (.char (· = c)) r) .empty

def plus (r : Regex) : Regex := .seq r (.star r)

/-- As many rounds as possible come first; a round that matches nothing is the last one. -/
def iterate (round : Option Char → List Char → List Match) :
    ℕ → Option Char → List Char → List Match
  | 0, _, text => [⟨[], text, none⟩]
  | fuel + 1, prev, text =>
    ((round prev text).filter (·.word ≠ [])).flatMap (fun m =>
      (iterate round fuel (lastChar prev m.word) m.rest).map m.append) ++ [⟨[], text, none⟩]

/-- The matches at a position, the preferred one first; `prev` is the character before it. -/
def run : Regex → Option Char → List Char → List Match
  | .empty, _, text => [⟨[], text, none⟩]
  | .char p, _, text =>
    match text with
    | c :: cs => if p c then [⟨[c], cs, none⟩] else []
    | [] => []
  | .lineStart, prev, text => if atLineStart prev then [⟨[], text, none⟩] else []
  | .seq r s, prev, text =>
    (r.run prev text).flatMap fun m => (s.run (lastChar prev m.word) m.rest).map m.append
  | .star r, prev, text => iterate r.run text.length prev text
  | .group r, prev, text => (r.run prev text).map fun m => { m with group := some m.word }

/-- What stands in place of the matches of a pattern that never matches the empty text. -/
def subFrom (r : Regex) (expand : List Char → Option (List Char) → List Char) :
    ℕ → Option Char → List Char → List Char
  | 0, _, text => text
  | fuel + 1, prev, text =>
    match (r.run prev text).head? with
    | some m => expand m.word m.group ++ subFrom r expand fuel (lastChar prev m.word) m.rest
    | none =>
      match text with
      | [] => []
      | c :: cs => c :: subFrom r expand fuel (some c) cs

def sub (r : Regex) (expand : List Char → Option (List Char) → List Char) (text : List Char) :
    List Char :=
  subFrom r expand (text.length + 1) none text

/-- The pattern matches the word and captures the group, after the character `prev`. -/
inductive Matches : Regex → Option Char → List Char → Option (List Char) → Prop where
  | empty {prev : Option Char} : Matches .empty prev [] none
  | char {p : Char → Bool} {prev : Option Char} {c : Char} : p c = true →
      Matches (.char p) prev [c] none
  | lineStart {prev : Option Char} : atLineStart prev = true → Matches .lineStart prev [] none
  | seq {r s : Regex} {prev : Option Char} {w w' : List Char} {g g' : Option (List Char)} :
      Matches r prev w g → Matches s (lastChar prev w) w' g' →
      Matches (.seq r s) prev (w ++ w') (g'.or g)
  | starNil {r : Regex} {prev : Option Char} : Matches (.star r) prev [] none
  | starCons {r : Regex} {prev : Option Char} {w w' : List Char} {g g' : Option (List Char)} :
      Matches r prev w g → w ≠ [] → Matches (.star r) (lastChar prev w) w' g' →
      Matches (.star r) prev (w ++ w') (g'.or g)
  | group {r : Regex} {prev : Option Char} {w : List Char} {g : Option (List Char)} :
      Matches r prev w g → Matches (.group r) prev w (some w)

/-- No character of the pattern can be a line break. -/
def NoBreak : Regex → Prop
  | .empty | .lineStart => True
  | .char p => p '\n' = false
  | .seq r s => r.NoBreak ∧ s.NoBreak
  | .star r | .group r => r.NoBreak

/-- The pattern never matches the empty text. -/
def NonEmpty (r : Regex) : Prop := ∀ prev group, ¬ r.Matches prev [] group

/-! ## The matcher -/

/-- The matcher finds what the pattern matches. -/
def Finds (r : Regex) : Prop := ∀ prev text m,
  m ∈ r.run prev text ↔ text = m.word ++ m.rest ∧ r.Matches prev m.word m.group

theorem finds_empty : Finds .empty := by
  rintro prev text ⟨word, rest, group⟩
  rw [run, List.mem_singleton]
  constructor
  · intro h
    cases h
    exact ⟨rfl, .empty⟩
  · rintro ⟨rfl, hmatches⟩
    cases hmatches
    rfl

theorem finds_char (p : Char → Bool) : Finds (.char p) := by
  rintro prev text ⟨word, rest, group⟩
  constructor
  · intro h
    cases text with
    | nil => cases h
    | cons c cs =>
      rw [run] at h
      split at h
      · cases List.mem_singleton.mp h
        exact ⟨rfl, .char ‹_›⟩
      · cases h
  · rintro ⟨rfl, hmatches⟩
    cases hmatches with
    | char hc => simp [run, hc]

theorem finds_lineStart : Finds .lineStart := by
  rintro prev text ⟨word, rest, group⟩
  rw [run]
  constructor
  · intro h
    split at h
    · cases List.mem_singleton.mp h
      exact ⟨rfl, .lineStart ‹_›⟩
    · cases h
  · rintro ⟨rfl, hmatches⟩
    cases hmatches with
    | lineStart hstart => simp [hstart]

theorem Finds.seq {r s : Regex} (hr : r.Finds) (hs : s.Finds) : Finds (.seq r s) := by
  rintro prev text ⟨word, rest, group⟩
  rw [run, List.mem_flatMap]
  constructor
  · rintro ⟨m₁, hm₁, hm⟩
    obtain ⟨htext, hfirst⟩ := (hr prev text m₁).mp hm₁
    obtain ⟨m₂, hm₂, happend⟩ := List.mem_map.mp hm
    obtain ⟨hrest, hmore⟩ := (hs _ _ m₂).mp hm₂
    cases happend
    exact ⟨by grind, .seq hfirst hmore⟩
  · rintro ⟨htext, hmatches⟩
    cases hmatches with
    | @seq _ _ _ w w' g g' hfirst hmore =>
      have hsplit : text = w ++ (w' ++ rest) := htext.trans (List.append_assoc w w' rest)
      refine ⟨⟨w, w' ++ rest, g⟩, (hr _ _ _).mpr ⟨hsplit, hfirst⟩, ?_⟩
      exact List.mem_map.mpr ⟨⟨w', rest, g'⟩, (hs _ _ _).mpr ⟨rfl, hmore⟩, rfl⟩

theorem Finds.group {r : Regex} (hr : r.Finds) : Finds (.group r) := by
  rintro prev text ⟨word, rest, group⟩
  rw [run, List.mem_map]
  constructor
  · rintro ⟨m₁, hm₁, hm⟩
    obtain ⟨htext, hmatches⟩ := (hr prev text m₁).mp hm₁
    cases hm
    exact ⟨htext, .group hmatches⟩
  · rintro ⟨htext, hmatches⟩
    dsimp only at hmatches
    cases hmatches with
    | @group _ _ _ g hmatches => exact ⟨⟨word, rest, g⟩, (hr _ _ _).mpr ⟨htext, hmatches⟩, rfl⟩

/-- A round that matches something comes before the other rounds. -/
theorem mem_iterate_succ {r : Regex} (hr : r.Finds) {fuel : ℕ} {prev : Option Char}
    {text : List Char} {m : Match} : m ∈ iterate r.run (fuel + 1) prev text ↔
      m = ⟨[], text, none⟩ ∨ ∃ first : Match, text = first.word ++ first.rest ∧
        r.Matches prev first.word first.group ∧ first.word ≠ [] ∧
          ∃ more ∈ iterate r.run fuel (lastChar prev first.word) first.rest,
            m = first.append more := by
  rw [iterate, List.mem_append, List.mem_flatMap, List.mem_singleton, or_comm]
  refine or_congr_right (exists_congr fun first => ?_)
  simp only [List.mem_filter, List.mem_map, hr prev text first, decide_eq_true_eq, and_assoc,
    eq_comm (a := m)]

theorem mem_iterate {r : Regex} (hr : r.Finds) (fuel : ℕ) (prev : Option Char) (text : List Char)
    (hfuel : text.length ≤ fuel) (m : Match) :
    m ∈ iterate r.run fuel prev text ↔
      text = m.word ++ m.rest ∧ (star r).Matches prev m.word m.group := by
  obtain ⟨word, rest, group⟩ := m
  induction fuel generalizing prev text word rest group with
  | zero =>
    obtain rfl : text = [] := List.eq_nil_of_length_eq_zero (by omega)
    constructor
    · intro h
      cases List.mem_singleton.mp h
      exact ⟨rfl, .starNil⟩
    · rintro ⟨htext, hmatches⟩
      obtain ⟨hword, hrest⟩ := List.append_eq_nil_iff.mp htext.symm
      cases hmatches with
      | starNil =>
        obtain rfl : rest = [] := hrest
        exact List.mem_singleton.mpr rfl
      | starCons _ hne _ => exact absurd (List.append_eq_nil_iff.mp hword).1 hne
  | succ fuel ih =>
    -- a round that matches something leaves a shorter text
    have hshorter : ∀ w rest : List Char, w ≠ [] → text = w ++ rest → rest.length ≤ fuel := by
      intro w rest hne htext
      have := List.length_pos_of_ne_nil hne
      grind
    rw [mem_iterate_succ hr]
    constructor
    · rintro (h | ⟨first, htext, hfirst, hne, ⟨word', rest', group'⟩, hmore, happend⟩)
      · cases h
        exact ⟨rfl, .starNil⟩
      · obtain ⟨hrest, hmatches⟩ := (ih _ _ (hshorter _ _ hne htext) _ _ _).mp hmore
        cases happend
        exact ⟨by grind, .starCons hfirst hne hmatches⟩
    · rintro ⟨htext, hmatches⟩
      cases hmatches with
      | starNil =>
        obtain rfl : text = rest := htext
        exact .inl rfl
      | @starCons _ _ w w' g g' hfirst hne hmore =>
        have hsplit : text = w ++ (w' ++ rest) := htext.trans (List.append_assoc w w' rest)
        exact .inr ⟨⟨w, w' ++ rest, g⟩, hsplit, hfirst, hne, ⟨w', rest, g'⟩,
          (ih _ _ (hshorter _ _ hne hsplit) _ _ _).mpr ⟨rfl, hmore⟩, rfl⟩

/-- The matcher finds what the pattern matches, and nothing else. -/
theorem mem_run (r : Regex) (prev : Option Char) (text : List Char) (m : Match) :
    m ∈ r.run prev text ↔ text = m.word ++ m.rest ∧ r.Matches prev m.word m.group := by
  have h : r.Finds := by
    induction r with
    | empty => exact finds_empty
    | char p => exact finds_char p
    | lineStart => exact finds_lineStart
    | seq r s ihr ihs => exact ihr.seq ihs
    | star r ih => exact fun prev text => mem_iterate ih _ prev text (Nat.le_refl _)
    | group r ih => exact ih.group
  exact h prev text m

/-! ## What a pattern matches -/

/-- The pattern captures nothing and matches the words of `P`, wherever they stand. -/
def Plain (r : Regex) (P : List Char → Prop) : Prop :=
  ∀ prev word group, r.Matches prev word group ↔ P word ∧ group = none

section patterns
variable {r s : Regex} {P Q : List Char → Prop} {prev : Option Char} {word : List Char}
  {group : Option (List Char)}

theorem matches_seq_iff :
    (seq r s).Matches prev word group ↔ ∃ w g w' g', r.Matches prev w g ∧
      s.Matches (lastChar prev w) w' g' ∧ word = w ++ w' ∧ group = g'.or g := by
  constructor
  · intro h
    cases h with
    | seq hr hs => exact ⟨_, _, _, _, hr, hs, rfl, rfl⟩
  · rintro ⟨w, g, w', g', hr, hs, rfl, rfl⟩
    exact .seq hr hs

theorem matches_group_iff :
    (r.group).Matches prev word group ↔ (∃ g, r.Matches prev word g) ∧ group = some word := by
  constructor
  · intro h
    cases h with
    | group hr => exact ⟨⟨_, hr⟩, rfl⟩
  · rintro ⟨⟨g, hr⟩, rfl⟩
    exact .group hr

theorem Plain.congr (hr : r.Plain P) (h : ∀ word, P word ↔ Q word) : r.Plain Q :=
  fun prev word group => (hr prev word group).trans (and_congr_left' (h word))

theorem plain_char (p : Char → Bool) : (char p).Plain fun word => ∃ c, p c ∧ word = [c] := by
  intro prev word group
  constructor
  · intro h
    cases h with
    | @char _ _ c hc => exact ⟨⟨c, hc, rfl⟩, rfl⟩
  · rintro ⟨⟨c, hc, rfl⟩, rfl⟩
    exact .char hc

theorem Plain.seq (hr : r.Plain P) (hs : s.Plain Q) :
    (Regex.seq r s).Plain fun word => ∃ w w', P w ∧ Q w' ∧ word = w ++ w' := by
  intro prev word group
  rw [matches_seq_iff]
  constructor
  · rintro ⟨w, g, w', g', hw, hw', rfl, rfl⟩
    obtain ⟨hP, rfl⟩ := (hr _ _ _).mp hw
    obtain ⟨hQ, rfl⟩ := (hs _ _ _).mp hw'
    exact ⟨⟨w, w', hP, hQ, rfl⟩, rfl⟩
  · rintro ⟨⟨w, w', hw, hw', rfl⟩, rfl⟩
    exact ⟨w, none, w', none, (hr _ _ _).mpr ⟨hw, rfl⟩, (hs _ _ _).mpr ⟨hw', rfl⟩, rfl, rfl⟩

theorem Plain.matches_group_iff (hr : r.Plain P) :
    (r.group).Matches prev word group ↔ P word ∧ group = some word := by
  rw [Regex.matches_group_iff]
  refine and_congr_left' ⟨?_, ?_⟩
  · rintro ⟨g, hg⟩
    exact ((hr _ _ _).mp hg).1
  · intro hword
    exact ⟨none, (hr _ _ _).mpr ⟨hword, rfl⟩⟩

theorem plain_literal (text : List Char) : (literal text).Plain (· = text) := by
  induction text with
  | nil =>
    intro prev word group
    constructor
    · intro h
      cases h
      exact ⟨rfl, rfl⟩
    · rintro ⟨rfl, rfl⟩
      exact .empty
  | cons c text ih =>
    rw [literal, List.foldr_cons, ← literal]
    refine ((plain_char _).seq ih).congr fun word => ?_
    simp

theorem Plain.star (hr : r.Plain P) :
    (Regex.star r).Plain fun word =>
      ∃ words : List (List Char), (∀ w ∈ words, P w ∧ w ≠ []) ∧ word = words.flatten := by
  intro prev word group
  constructor
  · intro h
    generalize hstar : Regex.star r = t at h
    induction h with
    | starNil => exact ⟨⟨[], by simp, rfl⟩, rfl⟩
    | @starCons r' prev w w' g g' hround hne hmore _ ih =>
      cases hstar
      obtain ⟨⟨words, hwords, rfl⟩, rfl⟩ := ih rfl
      obtain ⟨hw, rfl⟩ := (hr _ _ _).mp hround
      exact ⟨⟨w :: words, List.forall_mem_cons.mpr ⟨⟨hw, hne⟩, hwords⟩, rfl⟩, rfl⟩
    | _ => cases hstar
  · rintro ⟨⟨words, hwords, rfl⟩, rfl⟩
    induction words generalizing prev with
    | nil => exact .starNil
    | cons w words ih =>
      obtain ⟨⟨hw, hne⟩, hmore⟩ := List.forall_mem_cons.mp hwords
      exact .starCons ((hr _ _ _).mpr ⟨hw, rfl⟩) hne (ih _ hmore)

/-- One character of a class, or more. -/
theorem plain_plus_char (p : Char → Bool) :
    (plus (char p)).Plain fun word => word ≠ [] ∧ ∀ c ∈ word, p c := by
  refine ((plain_char p).seq (plain_char p).star).congr fun word => ⟨?_, ?_⟩
  · rintro ⟨w, w', ⟨c, hc, rfl⟩, ⟨words, hwords, rfl⟩, rfl⟩
    refine ⟨List.cons_ne_nil _ _, fun d hd => ?_⟩
    obtain rfl | hd := List.mem_cons.mp hd
    · exact hc
    · obtain ⟨w, hw, hd⟩ := List.mem_flatten.mp hd
      obtain ⟨⟨e, he, rfl⟩, -⟩ := hwords w hw
      rwa [List.mem_singleton.mp hd]
  · rintro ⟨hne, hword⟩
    obtain ⟨c, cs, rfl⟩ := List.exists_cons_of_ne_nil hne
    refine ⟨[c], cs, ⟨c, hword c List.mem_cons_self, rfl⟩, ⟨cs.map ([·]), ?_, ?_⟩, rfl⟩
    · intro w hw
      obtain ⟨d, hd, rfl⟩ := List.mem_map.mp hw
      exact ⟨⟨d, hword d (List.mem_cons_of_mem _ hd), rfl⟩, List.cons_ne_nil _ _⟩
    · exact (List.flatMap_singleton' cs).symm

end patterns

/-! ## Lines -/

theorem length_rest_lt {r : Regex} {prev : Option Char} {text : List Char} {m : Match}
    (hm : m ∈ r.run prev text) (hne : m.word ≠ []) : m.rest.length < text.length := by
  obtain ⟨htext, -⟩ := (mem_run r prev text m).mp hm
  have := List.length_pos_of_ne_nil hne
  grind

theorem iterate_eq {r : Regex} {fuel : ℕ} {prev : Option Char} {text : List Char}
    (hfuel : text.length ≤ fuel) :
    iterate r.run fuel prev text =
      ((r.run prev text).filter (·.word ≠ [])).flatMap (fun m =>
        (iterate r.run (fuel - 1) (lastChar prev m.word) m.rest).map m.append) ++
          [⟨[], text, none⟩] := by
  cases fuel with
  | zero =>
    have hnone : (r.run prev text).filter (·.word ≠ []) = [] := by
      rw [List.filter_eq_nil_iff]
      intro m hm hne
      have := length_rest_lt hm (of_decide_eq_true hne)
      omega
    rw [hnone]
    rfl
  | succ fuel => rfl

/-- A pattern that matches no line break sees nothing of the next line. -/
theorem iterate_append_break {r : Regex} {after : List Char}
    (hr : ∀ prev line, r.run prev (line ++ '\n' :: after) =
      (r.run prev line).map (·.before ('\n' :: after))) (fuel fuel' : ℕ) (prev : Option Char)
    (line : List Char) (hfuel : line.length ≤ fuel)
    (hfuel' : (line ++ '\n' :: after).length ≤ fuel') :
    iterate r.run fuel' prev (line ++ '\n' :: after) =
      (iterate r.run fuel prev line).map (·.before ('\n' :: after)) := by
  induction hn : line.length using Nat.strongRecOn generalizing fuel fuel' prev line with
  | ind n ih =>
    rw [iterate_eq hfuel, iterate_eq hfuel', hr, List.filter_map, List.flatMap_map, List.map_append,
      List.map_flatMap]
    congr 1
    refine List.flatMap_congr fun m hm => ?_
    obtain ⟨hround, hne⟩ := List.mem_filter.mp hm
    have hlt := length_rest_lt hround (of_decide_eq_true hne)
    have hmore := ih m.rest.length (by omega) (fuel - 1) (fuel' - 1) (lastChar prev m.word) m.rest
      (by omega) (by grind) rfl
    simp only [Match.before, hmore, List.map_map]
    rfl

theorem run_append_break {r : Regex} (hr : r.NoBreak) (prev : Option Char)
    (line after : List Char) :
    r.run prev (line ++ '\n' :: after) = (r.run prev line).map (·.before ('\n' :: after)) := by
  induction r generalizing prev line with
  | empty => rfl
  | char p =>
    cases line with
    | nil => simp [run, show p '\n' = false from hr]
    | cons c cs => simp only [run, List.cons_append]; split <;> rfl
  | lineStart => simp only [run]; split <;> rfl
  | seq r s ihr ihs =>
    rw [run, run, ihr hr.1, List.flatMap_map, List.map_flatMap]
    refine List.flatMap_congr fun m _ => ?_
    simp only [Match.before, ihs hr.2, List.map_map]
    rfl
  | star r ih =>
    exact iterate_append_break (ih hr) _ _ _ _ (Nat.le_refl _) (Nat.le_refl _)
  | group r ih =>
    rw [run, run, ih hr, List.map_map, List.map_map]
    rfl

theorem length_rest_lt_of_nonEmpty {r : Regex} (hr : r.NonEmpty) {prev : Option Char}
    {text : List Char} {m : Match} (hm : (r.run prev text).head? = some m) :
    m.rest.length < text.length := by
  have hmem := List.mem_of_mem_head? hm
  refine length_rest_lt hmem fun hword => ?_
  exact hr prev m.group (hword ▸ ((mem_run r prev text m).mp hmem).2)

section sub
variable {r : Regex} {expand : List Char → Option (List Char) → List Char}

theorem subFrom_of_some {fuel : ℕ} {prev : Option Char} {text : List Char} {m : Match}
    (hm : (r.run prev text).head? = some m) :
    subFrom r expand (fuel + 1) prev text =
      expand m.word m.group ++ subFrom r expand fuel (lastChar prev m.word) m.rest := by
  simp only [subFrom, hm]

theorem subFrom_nil_of_none {fuel : ℕ} {prev : Option Char} (hm : (r.run prev []).head? = none) :
    subFrom r expand fuel prev [] = [] := by
  cases fuel with
  | zero => rfl
  | succ fuel => simp only [subFrom, hm]

theorem subFrom_cons_of_none {fuel : ℕ} {prev : Option Char} {c : Char} {cs : List Char}
    (hm : (r.run prev (c :: cs)).head? = none) :
    subFrom r expand (fuel + 1) prev (c :: cs) = c :: subFrom r expand fuel (some c) cs := by
  simp only [subFrom, hm]

theorem subFrom_fuel (hr : r.NonEmpty) (fuel fuel' : ℕ) {prev : Option Char} {text : List Char}
    (hfuel : text.length < fuel) (hfuel' : text.length < fuel') :
    subFrom r expand fuel prev text = subFrom r expand fuel' prev text := by
  induction fuel generalizing fuel' prev text with
  | zero => omega
  | succ fuel ih =>
    obtain ⟨fuel', rfl⟩ : ∃ k, fuel' = k + 1 := ⟨fuel' - 1, by omega⟩
    cases hm : (r.run prev text).head? with
    | some m =>
      have := length_rest_lt_of_nonEmpty hr hm
      rw [subFrom_of_some hm, subFrom_of_some hm, ih fuel' (by omega) (by omega)]
    | none =>
      cases text with
      | nil => rw [subFrom_nil_of_none hm, subFrom_nil_of_none hm]
      | cons c cs =>
        simp only [List.length_cons] at hfuel hfuel'
        rw [subFrom_cons_of_none hm, subFrom_cons_of_none hm,
          ih fuel' (by omega) (by omega)]

theorem subFrom_append_break (hr : r.NonEmpty) (hbreak : r.NoBreak) {fuel : ℕ}
    {prev : Option Char} {line after : List Char}
    (hfuel : (line ++ '\n' :: after).length < fuel) :
    subFrom r expand fuel prev (line ++ '\n' :: after) =
      subFrom r expand fuel prev line ++ '\n' :: subFrom r expand fuel (some '\n') after := by
  induction fuel generalizing prev line with
  | zero => omega
  | succ fuel ih =>
    have hafter : after.length < fuel := by grind
    have hrun := run_append_break hbreak prev line after
    have hnext : subFrom r expand (fuel + 1) (some '\n') after =
        subFrom r expand fuel (some '\n') after := subFrom_fuel hr _ _ (by omega) hafter
    rw [hnext]
    cases hm : (r.run prev line).head? with
    | some m =>
      have := length_rest_lt_of_nonEmpty hr hm
      have hm' : (r.run prev (line ++ '\n' :: after)).head? = some (m.before ('\n' :: after)) := by
        rw [hrun, List.head?_map, hm]
        rfl
      rw [subFrom_of_some hm, subFrom_of_some hm', Match.before, ih (by grind), List.append_assoc]
    | none =>
      have hm' : (r.run prev (line ++ '\n' :: after)).head? = none := by
        rw [hrun, List.head?_map, hm]
        rfl
      cases line with
      | nil => rw [List.nil_append, subFrom_cons_of_none hm', subFrom_nil_of_none hm]; rfl
      | cons c cs =>
        rw [List.cons_append] at hm' ⊢
        rw [subFrom_cons_of_none hm', subFrom_cons_of_none hm, ih (by grind)]
        rfl

theorem lastChar_break {word : List Char} (hword : word ≠ []) :
    lastChar (some '\n') word = lastChar none word := by
  rw [lastChar, lastChar, List.getLast?_eq_some_getLast hword]
  rfl

/-- A line begins behind a line break as it does at the beginning of the text. -/
theorem run_break (r : Regex) (text : List Char) : r.run (some '\n') text = r.run none text := by
  induction r generalizing text with
  | empty | char p | lineStart => rfl
  | seq r s ihr ihs =>
    rw [run, run, ihr]
    refine List.flatMap_congr fun m _ => ?_
    by_cases hword : m.word = []
    · simp only [hword, lastChar, List.getLast?_nil, Option.none_or, ihs]
    · rw [lastChar_break hword]
  | star r ih =>
    rw [run, run]
    cases text.length with
    | zero => rfl
    | succ fuel =>
      rw [iterate, iterate, ih]
      congr 1
      refine List.flatMap_congr fun m hm => ?_
      rw [lastChar_break (of_decide_eq_true (List.mem_filter.mp hm).2)]
  | group r ih => rw [run, run, ih]

theorem subFrom_break (hr : r.NonEmpty) (fuel : ℕ) (text : List Char) :
    subFrom r expand fuel (some '\n') text = subFrom r expand fuel none text := by
  cases fuel with
  | zero => rfl
  | succ fuel =>
    have hrun := run_break r text
    cases hm : (r.run none text).head? with
    | some m =>
      have hword : m.word ≠ [] := by
        intro hword
        exact hr none m.group (hword ▸ ((mem_run r none text m).mp (List.mem_of_mem_head? hm)).2)
      rw [subFrom_of_some hm, subFrom_of_some (hrun ▸ hm), lastChar_break hword]
    | none =>
      cases text with
      | nil => rw [subFrom_nil_of_none hm, subFrom_nil_of_none (hrun ▸ hm)]
      | cons c cs => rw [subFrom_cons_of_none hm, subFrom_cons_of_none (hrun ▸ hm)]

/-- Line by line: a pattern that matches no line break replaces in each line by itself. -/
theorem sub_append_break (hr : r.NonEmpty) (hbreak : r.NoBreak) (line after : List Char) :
    r.sub expand (line ++ '\n' :: after) = r.sub expand line ++ '\n' :: r.sub expand after := by
  have hlength : (line ++ '\n' :: after).length = line.length + after.length + 1 := by grind
  rw [sub, subFrom_append_break hr hbreak (Nat.lt_succ_self _), subFrom_break hr,
    subFrom_fuel hr _ (line.length + 1) (by omega) (Nat.lt_succ_self _),
    subFrom_fuel hr _ (after.length + 1) (by omega) (Nat.lt_succ_self _)]
  rfl

end sub

/-! ## The beginning of a line -/

section lineStart
variable {s : Regex} {expand : List Char → Option (List Char) → List Char}

theorem matches_lineStart_iff {prev : Option Char} {word : List Char}
    {group : Option (List Char)} : (seq .lineStart s).Matches prev word group ↔
      atLineStart prev ∧ s.Matches prev word group := by
  constructor
  · intro h
    cases h with
    | seq hstart hs =>
      cases hstart with
      | lineStart hstart => simpa [lastChar] using ⟨hstart, hs⟩
  · rintro ⟨hstart, hs⟩
    have := Matches.seq (.lineStart hstart) (show s.Matches (lastChar prev []) word group from hs)
    simpa using this

theorem run_lineStart (prev : Option Char) (text : List Char) :
    (seq .lineStart s).run prev text = if atLineStart prev then s.run prev text else [] := by
  have hempty : (⟨[], text, none⟩ : Match).append = id := by
    funext m
    simp [Match.append]
  simp only [run]
  split <;> simp [lastChar, hempty]

/-- Behind the beginning of a line, nothing is replaced up to its end. -/
theorem subFrom_inside {fuel : ℕ} {prev : Option Char} {text : List Char}
    (hprev : atLineStart prev = false) (htext : '\n' ∉ text) :
    subFrom (.seq .lineStart s) expand fuel prev text = text := by
  induction fuel generalizing prev text with
  | zero => rfl
  | succ fuel ih =>
    have hnone : ((seq .lineStart s).run prev text).head? = none := by
      rw [run_lineStart, hprev]
      rfl
    cases text with
    | nil => exact subFrom_nil_of_none hnone
    | cons c cs =>
      rw [List.mem_cons, not_or] at htext
      rw [subFrom_cons_of_none hnone, ih (by simpa [atLineStart] using Ne.symm htext.1) htext.2]

theorem sub_line_of_some {line : List Char} {m : Match} (hr : s.NonEmpty) (hline : '\n' ∉ line)
    (hm : (s.run none line).head? = some m) :
    (seq .lineStart s).sub expand line = expand m.word m.group ++ m.rest := by
  obtain ⟨htext, hmatches⟩ := (mem_run s none line m).mp (List.mem_of_mem_head? hm)
  have hhead : ((seq .lineStart s).run none line).head? = some m := by
    rw [run_lineStart]
    exact hm
  have hlast : atLineStart (lastChar none m.word) = false := by
    have hword : m.word ≠ [] := fun hword => hr none m.group (hword ▸ hmatches)
    have hmem := List.getLast_mem hword
    rw [lastChar, List.getLast?_eq_some_getLast hword, atLineStart]
    grind
  rw [sub, subFrom_of_some hhead, subFrom_inside hlast (by grind)]

theorem sub_line_of_none {line : List Char} (hline : '\n' ∉ line)
    (hm : (s.run none line).head? = none) : (seq .lineStart s).sub expand line = line := by
  have hhead : ((seq .lineStart s).run none line).head? = none := by
    rw [run_lineStart]
    exact hm
  cases line with
  | nil => exact subFrom_nil_of_none hhead
  | cons c cs =>
    rw [List.mem_cons, not_or] at hline
    rw [sub, subFrom_cons_of_none hhead,
      subFrom_inside (by simpa [atLineStart] using Ne.symm hline.1) hline.2]

end lineStart

end Regex

end BaseWebService.Library
