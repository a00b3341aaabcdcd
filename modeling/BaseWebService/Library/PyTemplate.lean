import Mathlib.Tactic.Common
import Mathlib.Data.List.Infix
import Mathlib.Data.List.TakeWhile
import Mathlib.Data.Nat.Digits.Defs

/-!
# Replacement templates

The replacement text of `re.sub` for a pattern with one group. A backslash in it begins an escape:
a character by its number, a group reference, or an error. Every escape takes at least one backslash
away unless it is kept as it stands, so a template with the same number of backslashes before and
after holds no reference.

## Main results

* `parsed_of_parseTemplate` : a template is read token by token.
* `parseTemplate_append_dot` : no token goes on behind a dot.
* `expand_eq_of_isPrefix` : a replacement that begins the template's own text is that text.
-/

namespace BaseWebService.Library

/-- A piece of a replacement: a character, or what a group has captured. -/
inductive Piece where
  | char (c : Char)
  | group (index : ℕ)
deriving DecidableEq

namespace Template

def isOctDigit (c : Char) : Bool := '0' ≤ c && c ≤ '7'

/-- The escapes of one letter. -/
def escapes : Char → Option Char
  | 'a' => some '\x07'
  | 'b' => some '\x08'
  | 'f' => some '\x0c'
  | 'n' => some '\n'
  | 'r' => some '\r'
  | 't' => some '\t'
  | 'v' => some '\x0b'
  | '\\' => some '\\'
  | _ => none

/-- A reference to a group that the pattern does not have is an error. -/
def addGroup (index : ℕ) (rest : List Char) : Option (Piece × List Char) :=
  if index ≤ 1 then some (.group index, rest) else none

/-- `\g<number>`, behind the `g`; there are no groups with names. -/
def groupName : List Char → Option (Piece × List Char)
  | '<' :: text =>
    let name := text.takeWhile (· ≠ '>')
    match text.dropWhile (· ≠ '>') with
    | '>' :: rest =>
      if name ≠ [] ∧ name.all Char.isDigit ∧ name.length ≤ 4300 then
        addGroup (Nat.ofDigitChars 10 name 0) rest
      else none
    | _ => none
  | _ => none

/-- `\0` with up to two octal digits behind it. -/
def zero (text : List Char) : Piece × List Char :=
  let digits := (text.takeWhile isOctDigit).take 2
  (.char (Char.ofNat (Nat.ofDigitChars 8 digits 0 % 256)), text.drop digits.length)

/-- A digit other than zero: three octal digits are a character, one or two digits a reference. -/
def number (c : Char) : List Char → Option (Piece × List Char)
  | d :: text =>
    if d.isDigit then
      match text with
      | e :: text' =>
        if isOctDigit c && isOctDigit d && isOctDigit e then
          let value := Nat.ofDigitChars 8 [c, d, e] 0
          if 255 < value then none else some (.char (Char.ofNat value), text')
        else addGroup (Nat.ofDigitChars 10 [c, d] 0) text
      | [] => addGroup (Nat.ofDigitChars 10 [c, d] 0) text
    else addGroup (Nat.ofDigitChars 10 [c] 0) (d :: text)
  | [] => addGroup (Nat.ofDigitChars 10 [c] 0) []

/-- Behind a backslash; an unknown escape of a letter is an error, any other is kept. -/
def escaped : List Char → Option (List Piece × List Char)
  | [] => none
  | c :: text =>
    if c = 'g' then (groupName text).map fun (piece, rest) => ([piece], rest)
    else if c = '0' then some ([(zero text).1], (zero text).2)
    else if c.isDigit then (number c text).map fun (piece, rest) => ([piece], rest)
    else
      match escapes c with
      | some e => some ([.char e], text)
      | none => if c.isAlpha then none else some ([.char '\\', .char c], text)

def nextPiece (c : Char) (text : List Char) : Option (List Piece × List Char) :=
  if c = '\\' then escaped text else some ([.char c], text)

def parseFrom : ℕ → List Char → Option (List Piece)
  | fuel + 1, c :: text =>
    (nextPiece c text).bind fun (pieces, rest) => (parseFrom fuel rest).map (pieces ++ ·)
  | _, _ => some []

/-- `none` is a `re.error`. -/
def parseTemplate (text : List Char) : Option (List Piece) := parseFrom text.length text

/-- The replacement for a match; group 0 is the whole match. -/
def expand (pieces : List Piece) (word : List Char) (group : Option (List Char)) : List Char :=
  pieces.flatMap fun
    | .char c => [c]
    | .group 0 => word
    | .group _ => group.getD []

/-! ## Tokens -/

/-- What a token of the template becomes. -/
inductive Token : List Char → List Piece → Prop where
  | char {c : Char} : c ≠ '\\' → Token [c] [.char c]
  | kept {c : Char} : Token ['\\', c] [.char '\\', .char c]
  | escape {body : List Char} {piece : Piece} : body ≠ [] → (∀ c ∈ body, c ≠ '.' ∧ c ≠ '\n') →
      Token ('\\' :: body) [piece]

inductive Parsed : List Char → List Piece → Prop where
  | nil : Parsed [] []
  | cons {token text : List Char} {pieces rest : List Piece} :
      Token token pieces → Parsed text rest → Parsed (token ++ text) (pieces ++ rest)

theorem isDigit_of_isOctDigit {c : Char} (h : isOctDigit c) : c.isDigit := by
  have hle : c ≤ '9' := Char.le_trans (of_decide_eq_true (Bool.and_eq_true_iff.mp h).2)
    (show '7' ≤ '9' by decide)
  exact Bool.and_eq_true_iff.mpr ⟨(Bool.and_eq_true_iff.mp h).1, decide_eq_true hle⟩

theorem addGroup_eq_some {index : ℕ} {rest rest' : List Char} {piece : Piece}
    (h : addGroup index rest = some (piece, rest')) : rest = rest' := by
  unfold addGroup at h
  split at h <;> simp_all

/-- The digits of a token. -/
def DigitsOnly (body : List Char) : Prop := ∀ c ∈ body, c.isDigit

theorem groupName_eq_some {text rest : List Char} {piece : Piece}
    (h : groupName text = some (piece, rest)) :
    ∃ name, DigitsOnly name ∧ text = '<' :: (name ++ '>' :: rest) := by
  unfold groupName at h
  split at h
  · rename_i text
    dsimp only at h
    split at h
    · rename_i rest' hdrop
      split at h
      · rename_i hname
        obtain rfl := addGroup_eq_some h
        refine ⟨text.takeWhile (· ≠ '>'), List.all_eq_true.mp hname.2.1, ?_⟩
        rw [← hdrop, List.takeWhile_append_dropWhile]
      · cases h
    · cases h
  · cases h

theorem number_eq_some {c : Char} {text rest : List Char} {piece : Piece}
    (h : number c text = some (piece, rest)) : ∃ body, DigitsOnly body ∧ text = body ++ rest := by
  unfold number at h
  split at h
  · rename_i d text
    split at h
    · rename_i hd
      split at h
      · rename_i e text'
        split at h
        · rename_i hoct
          simp only [Bool.and_eq_true] at hoct
          dsimp only at h
          split at h
          · cases h
          · cases h
            exact ⟨[d, e], by simp [DigitsOnly, hd, isDigit_of_isOctDigit hoct.2], rfl⟩
        · obtain rfl := addGroup_eq_some h
          exact ⟨[d], by simp [DigitsOnly, hd], rfl⟩
      · obtain rfl := addGroup_eq_some h
        exact ⟨[d], by simp [DigitsOnly, hd], rfl⟩
    · obtain rfl := addGroup_eq_some h
      exact ⟨[], by simp [DigitsOnly], rfl⟩
  · obtain rfl := addGroup_eq_some h
    exact ⟨[], by simp [DigitsOnly], rfl⟩

theorem zero_eq (text : List Char) : ∃ body, DigitsOnly body ∧ text = body ++ (zero text).2 := by
  refine ⟨(text.takeWhile isOctDigit).take 2, ?_, ?_⟩
  · intro c hc
    exact isDigit_of_isOctDigit (List.mem_takeWhile_imp (List.mem_of_mem_take hc))
  · have hbegins := (List.take_prefix 2 (text.takeWhile isOctDigit)).trans
      (List.takeWhile_prefix isOctDigit)
    exact (List.prefix_iff_eq_append.mp hbegins).symm

theorem inner_of_isDigit {c : Char} (h : c.isDigit) : c ≠ '.' ∧ c ≠ '\n' :=
  ⟨fun hc => absurd (hc ▸ h) (by decide), fun hc => absurd (hc ▸ h) (by decide)⟩

theorem token_of_digits {c : Char} {body : List Char} (hc : c ≠ '.' ∧ c ≠ '\n')
    (hbody : DigitsOnly body) (piece : Piece) : Token ('\\' :: c :: body) [piece] :=
  .escape (List.cons_ne_nil _ _)
    (List.forall_mem_cons.mpr ⟨hc, fun d hd => inner_of_isDigit (hbody d hd)⟩)

theorem token_of_escaped {text rest : List Char} {pieces : List Piece}
    (h : escaped text = some (pieces, rest)) :
    ∃ body, text = body ++ rest ∧ Token ('\\' :: body) pieces := by
  unfold escaped at h
  split at h
  · cases h
  · rename_i c text
    split at h
    · obtain ⟨⟨piece, rest'⟩, hname, heq⟩ := Option.map_eq_some_iff.mp h
      cases heq
      obtain ⟨name, hdigits, rfl⟩ := groupName_eq_some hname
      refine ⟨c :: '<' :: (name ++ ['>']), by simp, .escape (List.cons_ne_nil _ _) ?_⟩
      intro d hd
      have hinner := fun hmem => inner_of_isDigit (hdigits d hmem)
      grind
    split at h
    · cases h
      obtain ⟨body, hbody, htext⟩ := zero_eq text
      exact ⟨c :: body, by rw [List.cons_append, ← htext],
        token_of_digits (by grind) hbody _⟩
    split at h
    · rename_i hnumber
      obtain ⟨⟨piece, rest'⟩, hnum, heq⟩ := Option.map_eq_some_iff.mp h
      cases heq
      obtain ⟨body, hbody, rfl⟩ := number_eq_some hnum
      exact ⟨c :: body, rfl, token_of_digits (inner_of_isDigit hnumber) hbody _⟩
    split at h
    · rename_i e hescape
      cases h
      refine ⟨[c], rfl, token_of_digits ⟨?_, ?_⟩ (List.forall_mem_nil _) _⟩
      · rintro rfl
        cases hescape
      · rintro rfl
        cases hescape
    · split at h
      · cases h
      · cases h
        exact ⟨[c], rfl, .kept⟩

theorem token_of_nextPiece {c : Char} {text rest : List Char} {pieces : List Piece}
    (h : nextPiece c text = some (pieces, rest)) :
    ∃ token, c :: text = token ++ rest ∧ Token token pieces := by
  unfold nextPiece at h
  split at h
  · rename_i hc
    obtain ⟨body, rfl, htoken⟩ := token_of_escaped h
    exact ⟨c :: body, rfl, hc ▸ htoken⟩
  · rename_i hc
    cases h
    exact ⟨[c], rfl, .char hc⟩

theorem Token.ne_nil {token : List Char} {pieces : List Piece} (h : Token token pieces) :
    token ≠ [] := by
  cases h <;> exact List.cons_ne_nil _ _

theorem length_next_le {c : Char} {text : List Char} {next : List Piece × List Char}
    (h : nextPiece c text = some next) : next.2.length ≤ text.length := by
  obtain ⟨token, htext, htoken⟩ := token_of_nextPiece h
  have := List.length_pos_of_ne_nil htoken.ne_nil
  have := congrArg List.length htext
  rw [List.length_append, List.length_cons] at this
  omega

theorem parsed_of_parseFrom {fuel : ℕ} {text : List Char} {pieces : List Piece}
    (hfuel : text.length ≤ fuel) (h : parseFrom fuel text = some pieces) : Parsed text pieces := by
  induction fuel generalizing text pieces with
  | zero =>
    obtain rfl := List.eq_nil_of_length_eq_zero (Nat.le_zero.mp hfuel)
    cases h
    exact .nil
  | succ fuel ih =>
    cases text with
    | nil =>
      cases h
      exact .nil
    | cons c text =>
      obtain ⟨⟨first, rest⟩, hnext, h⟩ := Option.bind_eq_some_iff.mp h
      obtain ⟨more, hmore, rfl⟩ := Option.map_eq_some_iff.mp h
      obtain ⟨token, htext, htoken⟩ := token_of_nextPiece hnext
      have hlength : rest.length ≤ fuel := by
        have := List.length_pos_of_ne_nil htoken.ne_nil
        grind
      rw [htext]
      exact .cons htoken (ih hlength hmore)

/-- A template is read token by token. -/
theorem parsed_of_parseTemplate {text : List Char} {pieces : List Piece}
    (h : parseTemplate text = some pieces) : Parsed text pieces :=
  parsed_of_parseFrom (Nat.le_refl _) h

/-! ## Dots -/

/-- The function stops reading before a dot. -/
def StopsAtDot {γ : Type*} (read : List Char → Option (γ × List Char)) (text : List Char) : Prop :=
  (∀ after, read (text ++ '.' :: after) = none) ∨
    ∃ c rest, rest.length ≤ text.length ∧
      ∀ after, read (text ++ '.' :: after) = some (c, rest ++ '.' :: after)

theorem stopsAtDot_of_addGroup {read : List Char → Option (Piece × List Char)}
    {text : List Char} (index : ℕ) (rest : List Char) (hrest : rest.length ≤ text.length)
    (h : ∀ after, read (text ++ '.' :: after) = addGroup index (rest ++ '.' :: after)) :
    StopsAtDot read text := by
  by_cases hindex : index ≤ 1
  · exact .inr ⟨.group index, rest, hrest, fun after => by rw [h, addGroup, if_pos hindex]⟩
  · exact .inl fun after => by rw [h, addGroup, if_neg hindex]

theorem groupName_append {name : List Char} (hname : '>' ∉ name) (rest : List Char) :
    groupName ('<' :: (name ++ '>' :: rest)) =
      if name ≠ [] ∧ name.all Char.isDigit ∧ name.length ≤ 4300 then
        addGroup (Nat.ofDigitChars 10 name 0) rest
      else none := by
  have htake : (name ++ '>' :: rest).takeWhile (· ≠ '>') = name := by
    rw [List.takeWhile_append_of_pos (by grind)]
    simp
  have hdrop : (name ++ '>' :: rest).dropWhile (· ≠ '>') = '>' :: rest := by
    rw [List.dropWhile_append_of_pos (by grind)]
    simp
  simp only [groupName, htake, hdrop]

theorem groupName_eq_none {text : List Char} (htext : '>' ∉ text) (after : List Char) :
    groupName ('<' :: (text ++ '.' :: after)) = none := by
  have hname : '.' ∈ (text ++ '.' :: after).takeWhile (· ≠ '>') := by
    rw [List.takeWhile_append_of_pos (by grind)]
    simp
  have hdigits : ¬ ((text ++ '.' :: after).takeWhile (· ≠ '>')).all Char.isDigit := by
    intro hall
    exact absurd (List.all_eq_true.mp hall '.' hname) (by decide)
  simp only [groupName, hdigits]
  split <;> simp

theorem stopsAtDot_groupName (text : List Char) : StopsAtDot groupName text := by
  cases text with
  | nil => exact .inl fun after => rfl
  | cons c text =>
    by_cases hc : c = '<'
    · subst hc
      by_cases hmem : '>' ∈ text
      · obtain ⟨name, rest, rfl, hname⟩ := List.eq_append_cons_of_mem hmem
        have hread := fun after => groupName_append hname (rest ++ '.' :: after)
        by_cases hvalid : name ≠ [] ∧ name.all Char.isDigit ∧ name.length ≤ 4300
        · refine stopsAtDot_of_addGroup (Nat.ofDigitChars 10 name 0) rest (by grind)
            fun after => ?_
          rw [List.cons_append, List.append_assoc, List.cons_append, hread, if_pos hvalid]
        · refine .inl fun after => ?_
          rw [List.cons_append, List.append_assoc, List.cons_append, hread, if_neg hvalid]
      · exact .inl (groupName_eq_none hmem)
    · refine .inl fun after => ?_
      unfold groupName
      split
      · rename_i heq
        cases heq
        exact absurd rfl hc
      · rfl

theorem stopsAtDot_number (c : Char) (text : List Char) : StopsAtDot (number c) text := by
  cases text with
  | nil =>
    exact stopsAtDot_of_addGroup (Nat.ofDigitChars 10 [c] 0) [] (Nat.le_refl _) fun _ => rfl
  | cons d text =>
    by_cases hd : d.isDigit
    · cases text with
      | nil =>
        refine stopsAtDot_of_addGroup (Nat.ofDigitChars 10 [c, d] 0) [] (Nat.zero_le _)
          fun after => ?_
        have hdot : isOctDigit '.' = false := rfl
        simp [number, hd, hdot]
      | cons e text =>
        by_cases hoct : (isOctDigit c && isOctDigit d && isOctDigit e)
        · by_cases hvalue : 255 < Nat.ofDigitChars 8 [c, d, e] 0
          · exact .inl fun after => by
              simp only [number, List.cons_append, if_pos hd, if_pos hoct, if_pos hvalue]
          · refine .inr ⟨.char (Char.ofNat (Nat.ofDigitChars 8 [c, d, e] 0)), text, by grind,
              fun after => ?_⟩
            simp only [number, List.cons_append, if_pos hd, if_pos hoct, if_neg hvalue]
        · refine stopsAtDot_of_addGroup (Nat.ofDigitChars 10 [c, d] 0) (e :: text) (by grind)
            fun after => ?_
          simp only [number, List.cons_append, if_pos hd, if_neg hoct]
    · refine stopsAtDot_of_addGroup (Nat.ofDigitChars 10 [c] 0) (d :: text) (Nat.le_refl _)
        fun after => ?_
      simp only [number, List.cons_append, if_neg hd]

theorem zero_append_dot (text after : List Char) :
    zero (text ++ '.' :: after) = ((zero text).1, (zero text).2 ++ '.' :: after) := by
  have htake : (text ++ '.' :: after).takeWhile isOctDigit = text.takeWhile isOctDigit := by
    rw [List.takeWhile_append]
    split
    · rename_i hall
      have hdot : isOctDigit '.' = false := rfl
      rw [List.takeWhile_cons, hdot, (List.takeWhile_prefix isOctDigit).eq_of_length hall]
      simp
    · rfl
  have hlength : ((text.takeWhile isOctDigit).take 2).length ≤ text.length :=
    ((List.take_prefix _ _).trans (List.takeWhile_prefix _)).length_le
  simp only [zero, htake, List.drop_append_of_le_length hlength]

theorem StopsAtDot.map {read : List Char → Option (Piece × List Char)} {text : List Char}
    (h : StopsAtDot read text) :
    StopsAtDot (fun text => (read text).map fun (piece, rest) => ([piece], rest)) text := by
  obtain h | ⟨piece, rest, hlength, h⟩ := h
  · exact .inl fun after => by simp only [h, Option.map_none]
  · exact .inr ⟨[piece], rest, hlength, fun after => by simp only [h, Option.map_some]⟩

theorem stopsAtDot_escaped (c : Char) (text : List Char) :
    StopsAtDot (fun text => escaped (c :: text)) text := by
  by_cases hg : c = 'g'
  · subst hg
    exact (stopsAtDot_groupName text).map
  by_cases hzero : c = '0'
  · subst hzero
    refine .inr ⟨[(zero text).1], (zero text).2, ?_, fun after => ?_⟩
    · obtain ⟨body, -, htext⟩ := zero_eq text
      grind
    · simp only [escaped, if_neg hg, zero_append_dot, if_true]
  by_cases hdigit : c.isDigit
  · have := (stopsAtDot_number c text).map
    simpa only [StopsAtDot, escaped, if_neg hg, if_neg hzero, if_pos hdigit] using this
  have hread : ∀ text, escaped (c :: text) = match escapes c with
      | some e => some ([.char e], text)
      | none => if c.isAlpha then none else some ([.char '\\', .char c], text) := fun text => by
    rw [escaped, if_neg hg, if_neg hzero, if_neg hdigit]
  cases hescape : escapes c with
  | some e =>
    exact .inr ⟨[.char e], text, Nat.le_refl _, fun after => by simp only [hread, hescape]⟩
  | none =>
    by_cases halpha : c.isAlpha
    · exact .inl fun after => by simp only [hread, hescape, if_pos halpha]
    · exact .inr ⟨[.char '\\', .char c], text, Nat.le_refl _, fun after => by
        simp only [hread, hescape, if_neg halpha]⟩

theorem parseFrom_fuel (fuel fuel' : ℕ) {text : List Char} (hfuel : text.length ≤ fuel)
    (hfuel' : text.length ≤ fuel') : parseFrom fuel text = parseFrom fuel' text := by
  induction fuel generalizing fuel' text with
  | zero =>
    obtain rfl := List.eq_nil_of_length_eq_zero (Nat.le_zero.mp hfuel)
    cases fuel' <;> rfl
  | succ fuel ih =>
    cases text with
    | nil => cases fuel' <;> rfl
    | cons c text =>
      obtain ⟨fuel', rfl⟩ : ∃ k, fuel' = k + 1 := ⟨fuel' - 1, by grind⟩
      rw [parseFrom, parseFrom]
      cases hnext : nextPiece c text with
      | none => rfl
      | some next =>
        have := length_next_le hnext
        rw [List.length_cons] at hfuel hfuel'
        simp only [Option.bind_some]
        rw [ih fuel' (by omega) (by omega)]

theorem parseTemplate_cons (c : Char) (text : List Char) :
    parseTemplate (c :: text) = (nextPiece c text).bind fun (pieces, rest) =>
      (parseTemplate rest).map (pieces ++ ·) := by
  rw [parseTemplate, List.length_cons, parseFrom]
  cases hnext : nextPiece c text with
  | none => rfl
  | some next =>
    have := length_next_le hnext
    simp only [Option.bind_some]
    rw [parseFrom_fuel _ next.2.length (by omega) (Nat.le_refl _), parseTemplate]

@[simp] theorem parseTemplate_nil : parseTemplate [] = some [] := rfl

/-- Without backslashes a template is what it says. -/
theorem parseTemplate_append_of_not_mem {before : List Char} (hbefore : '\\' ∉ before)
    (text : List Char) :
    parseTemplate (before ++ text) = (parseTemplate text).map (before.map .char ++ ·) := by
  induction before with
  | nil => simp
  | cons c before ih =>
    rw [List.mem_cons, not_or] at hbefore
    rw [List.cons_append, parseTemplate_cons, nextPiece, if_neg (Ne.symm hbefore.1)]
    simp only [Option.bind_some, ih hbefore.2, Option.map_map]
    rfl

/-- No token goes on behind a dot. -/
theorem parseTemplate_append_dot (text after : List Char) :
    parseTemplate (text ++ '.' :: after) = (parseTemplate (text ++ ['.'])).bind fun pieces =>
      (parseTemplate after).map (pieces ++ ·) := by
  have hmap : ∀ (pieces : List Piece) (parsed : Option (List Piece)),
      (parsed.bind fun more => (parseTemplate after).map (more ++ ·)).map (pieces ++ ·) =
        (parsed.map (pieces ++ ·)).bind fun more => (parseTemplate after).map (more ++ ·) := by
    intro pieces parsed
    cases parsed with
    | none => rfl
    | some more => simp [Function.comp_def]
  induction hn : text.length using Nat.strongRecOn generalizing text with
  | ind n ih =>
    cases text with
    | nil => simp [parseTemplate_cons, nextPiece]
    | cons c text =>
      rw [List.cons_append, List.cons_append, parseTemplate_cons, parseTemplate_cons]
      by_cases hc : c = '\\'
      · cases text with
        | nil =>
          have hkept : ∀ after, escaped ('.' :: after) = some ([.char '\\', .char '.'], after) :=
            fun after => rfl
          simp [nextPiece, hc, hkept]
        | cons d text =>
          simp only [nextPiece, if_pos hc, List.cons_append]
          obtain h | ⟨pieces, rest, hlength, h⟩ := stopsAtDot_escaped d text
          · dsimp only at h
            simp only [h, Option.bind_none]
          · dsimp only at h
            simp only [h, Option.bind_some]
            rw [ih rest.length (by grind) rest rfl, hmap]
      · simp only [nextPiece, if_neg hc, Option.bind_some]
        rw [ih text.length (by grind) text rfl, hmap]

/-! ## What a template keeps -/

def literals (pieces : List Piece) : List Char :=
  pieces.filterMap fun
    | .char c => some c
    | .group _ => none

/-- An escape takes characters away, and a backslash if it is not itself one. -/
structure Shrinks (text : List Char) (pieces : List Piece) : Prop where
  length : (literals pieces).length ≤ text.length
  same : (literals pieces).length = text.length → literals pieces = text
  slashes : (literals pieces).count '\\' ≤ text.count '\\'
  literal : (literals pieces).count '\\' = text.count '\\' →
    pieces = (literals pieces).map .char
  breaks : text.count '\n' ≤ (literals pieces).count '\n'

theorem literals_append (pieces pieces' : List Piece) :
    literals (pieces ++ pieces') = literals pieces ++ literals pieces' :=
  List.filterMap_append

@[simp] theorem literals_map_char (text : List Char) : literals (text.map .char) = text := by
  rw [literals, List.filterMap_map]
  exact List.filterMap_some

theorem Shrinks.append {text text' : List Char} {pieces pieces' : List Piece}
    (h : Shrinks text pieces) (h' : Shrinks text' pieces') :
    Shrinks (text ++ text') (pieces ++ pieces') where
  length := by
    have := h.length
    have := h'.length
    grind [literals_append]
  same := by
    intro hlength
    have := h.length
    have := h'.length
    rw [literals_append, List.length_append, List.length_append] at hlength
    rw [literals_append, h.same (by omega), h'.same (by omega)]
  slashes := by
    have := h.slashes
    have := h'.slashes
    rw [literals_append, List.count_append, List.count_append]
    omega
  literal := by
    intro hcount
    have := h.slashes
    have := h'.slashes
    rw [literals_append, List.count_append, List.count_append] at hcount
    rw [literals_append, List.map_append, ← h.literal (by omega), ← h'.literal (by omega)]
  breaks := by
    have := h.breaks
    have := h'.breaks
    rw [literals_append, List.count_append, List.count_append]
    omega

theorem Token.shrinks {token : List Char} {pieces : List Piece} (h : Token token pieces) :
    Shrinks token pieces := by
  cases h with
  | char _ => exact ⟨Nat.le_refl _, fun _ => rfl, Nat.le_refl _, fun _ => rfl, Nat.le_refl _⟩
  | kept => exact ⟨Nat.le_refl _, fun _ => rfl, Nat.le_refl _, fun _ => rfl, Nat.le_refl _⟩
  | @escape body piece hbody hinner =>
    have hlength := List.length_pos_of_ne_nil hbody
    have hbreaks : ('\\' :: body).count '\n' = 0 := List.count_eq_zero.mpr (by grind)
    cases piece with
    | char c =>
      refine ⟨by simp [literals], ?_, ?_, fun _ => rfl, by omega⟩
      · intro h
        simp [literals] at h
        exact absurd h hbody
      · have : (literals [.char c]).count '\\' ≤ 1 := List.count_le_length
        rw [List.count_cons_self]
        omega
    | group index =>
      refine ⟨by simp [literals], ?_, by simp [literals], ?_, by omega⟩
      · intro h
        simp [literals] at h
      · intro h
        simp [literals] at h

theorem Parsed.shrinks {text : List Char} {pieces : List Piece} (h : Parsed text pieces) :
    Shrinks text pieces := by
  induction h with
  | nil => exact ⟨Nat.le_refl _, fun _ => rfl, Nat.le_refl _, fun _ => rfl, Nat.le_refl _⟩
  | cons htoken _ ih => exact htoken.shrinks.append ih

theorem Token.dot {token : List Char} {pieces : List Piece} (h : Token token pieces)
    (htoken : token.getLast? = some '.') : pieces.getLast? = some (.char '.') := by
  cases h with
  | char _ => simpa using htoken
  | kept => simpa using htoken
  | @escape body piece hbody hinner =>
    rw [List.getLast?_cons, List.getLast?_eq_some_getLast hbody] at htoken
    exact absurd (by simpa using htoken) (hinner _ (List.getLast_mem hbody)).1

/-- A dot at the end stays there. -/
theorem Parsed.dot {text : List Char} {pieces : List Piece} (h : Parsed text pieces)
    (htext : text.getLast? = some '.') : pieces.getLast? = some (.char '.') := by
  induction h with
  | nil => simp at htext
  | @cons token text pieces rest htoken hparsed ih =>
    rw [List.getLast?_append] at htext ⊢
    cases hlast : text.getLast? with
    | none =>
      obtain rfl := List.getLast?_eq_none_iff.mp hlast
      have hshrinks := hparsed.shrinks
      have hnil : literals rest = [] :=
        List.eq_nil_of_length_eq_zero (by simpa using hshrinks.length)
      obtain rfl : rest = [] := by simpa [hnil] using hshrinks.literal (by rw [hnil])
      simpa using htoken.dot (by simpa using htext)
    | some c =>
      rw [ih (by simpa [hlast] using htext)]
      rfl

section expand
variable {word : List Char} {group : Option (List Char)}

theorem expand_append (pieces pieces' : List Piece) :
    expand (pieces ++ pieces') word group =
      expand pieces word group ++ expand pieces' word group :=
  List.flatMap_append

@[simp] theorem expand_map_char (text : List Char) :
    expand (text.map .char) word group = text := by
  induction text with
  | nil => rfl
  | cons c text ih => exact congrArg (c :: ·) ih

/-- Without references a replacement is always the same. -/
theorem expand_eq_literals {pieces : List Piece} (h : pieces = (literals pieces).map .char) :
    expand pieces word group = literals pieces := by
  conv_lhs => rw [h]
  exact expand_map_char _

/-- A character that is captured nowhere comes from the template alone. -/
theorem count_expand {a : Char} (hword : a ∉ word) (hgroup : a ∉ group.getD [])
    (pieces : List Piece) : (expand pieces word group).count a = (literals pieces).count a := by
  induction pieces with
  | nil => rfl
  | cons piece pieces ih =>
    rw [← List.singleton_append, expand_append, literals_append, List.count_append,
      List.count_append, ih]
    congr 1
    cases piece with
    | char c => rfl
    | group index =>
      cases index with
      | zero => simpa [expand, literals] using List.count_eq_zero.mpr hword
      | succ index => simpa [expand, literals] using List.count_eq_zero.mpr hgroup

/-- Up to the first dot, a replacement that begins the template's own text is that text: a longer
one would hold more backslashes, and a shorter one no dot. -/
theorem expand_eq_of_isPrefix_dot (hword : '\\' ∉ word) (hgroup : '\\' ∉ group.getD [])
    {before after : List Char} {pieces : List Piece} (hdot : '.' ∉ before)
    (h : parseTemplate (before ++ ['.']) = some pieces)
    (hbegins : expand pieces word group <+: before ++ '.' :: after) :
    expand pieces word group = before ++ ['.'] := by
  have hshrinks := (parsed_of_parseTemplate h).shrinks
  have hright : before ++ ['.'] <+: before ++ '.' :: after := by simp
  obtain hle | hle := Nat.le_total (expand pieces word group).length (before ++ ['.']).length
  · have hshort := List.prefix_of_prefix_length_le hbegins hright hle
    refine hshort.eq_of_length (Nat.le_antisymm hle ?_)
    by_contra hlt
    have hbefore : expand pieces word group <+: before :=
      List.prefix_of_prefix_length_le hshort (List.prefix_append _ _) (by grind)
    obtain ⟨init, rfl⟩ := List.getLast?_eq_some_iff.mp
      ((parsed_of_parseTemplate h).dot List.getLast?_concat)
    exact hdot (hbefore.subset (by simp [expand]))
  · have hlong := List.prefix_of_prefix_length_le hright hbegins hle
    have hcount := hlong.sublist.count_le '\\'
    rw [count_expand hword hgroup] at hcount
    have hliteral := hshrinks.literal (Nat.le_antisymm hshrinks.slashes hcount)
    rw [expand_eq_literals hliteral] at hle ⊢
    exact hshrinks.same (Nat.le_antisymm hshrinks.length hle)

/-- A replacement that begins the template's own text is that text. -/
theorem expand_eq_of_isPrefix (hword : '\\' ∉ word) (hgroup : '\\' ∉ group.getD [])
    {text : List Char} {pieces : List Piece} (h : parseTemplate text = some pieces)
    (htext : text = [] ∨ text.getLast? = some '.')
    (hbegins : expand pieces word group <+: text) : expand pieces word group = text := by
  induction hn : text.length using Nat.strongRecOn generalizing text pieces with
  | ind n ih =>
    obtain rfl | hlast := htext
    · exact List.prefix_nil.mp hbegins
    obtain ⟨before, after, rfl, hdot⟩ := List.eq_append_cons_of_mem (List.mem_of_getLast? hlast)
    rw [parseTemplate_append_dot] at h
    obtain ⟨first, hfirst, h⟩ := Option.bind_eq_some_iff.mp h
    obtain ⟨more, hmore, rfl⟩ := Option.map_eq_some_iff.mp h
    rw [expand_append] at hbegins ⊢
    have hsame := expand_eq_of_isPrefix_dot hword hgroup hdot hfirst
      ((List.prefix_append _ _).trans hbegins)
    rw [hsame, List.append_assoc, List.singleton_append] at hbegins ⊢
    rw [ih after.length (by grind) hmore (by grind) (by simpa using hbegins) rfl]

end expand

end Template

end BaseWebService.Library
