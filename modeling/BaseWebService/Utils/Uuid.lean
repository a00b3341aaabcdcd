import BaseWebService.Library.PyNumber
import BaseWebService.Library.PyReplace

/-!
# `UUID`

`UUID()` on text: prefixes and braces are taken off, hyphens are left out wherever they are, and
thirty-two characters are read by `int()` in base 16. Its own text is read back.
-/

namespace BaseWebService.Utils

open Library

/-- A `UUID`, by its attribute `int`. -/
@[ext] structure Uuid where
  int : ℕ
  bound : int < 2 ^ 128
  deriving DecidableEq

def isBrace (c : Char) : Bool := c = '{' ∨ c = '}'

/-- What `UUID(hex)` reads in base 16. -/
def hexText (cs : List Char) : List Char :=
  let bare := replaceFrom id "uuid:".toList [] 0 (replaceFrom id "urn:".toList [] 0 cs)
  let bare := ((bare.dropWhile isBrace).reverse.dropWhile isBrace).reverse
  replaceFrom id "-".toList [] 0 bare

theorem Uuid.toNat_lt {n : ℤ} (h : 0 ≤ n ∧ n < 2 ^ 128) : n.toNat < 2 ^ 128 := by omega

/-- `UUID(text)`; `none` is a `ValueError`. -/
def Uuid.ofText (text : String) : Option Uuid :=
  let hex := hexText text.toList
  if hex.length = 32 then
    match readInt 16 (hex.map pyAscii) with
    | some n => if h : 0 ≤ n ∧ n < 2 ^ 128 then some ⟨n.toNat, Uuid.toNat_lt h⟩ else none
    | none => none
  else none

def Uuid.hex (u : Uuid) : List Char := List.leftpad 32 '0' (Nat.toDigits 16 u.int)

/-- `str(u)`. -/
def Uuid.text (u : Uuid) : String :=
  String.ofList (u.hex.take 8 ++ '-' :: (u.hex.drop 8).take 4 ++ '-' :: (u.hex.drop 12).take 4 ++
    '-' :: (u.hex.drop 16).take 4 ++ '-' :: u.hex.drop 20)

/-! ## Reading hexadecimal digits -/

section hexText
variable {cs : List Char} {ds : List ℕ} {text : String}

/-- Text without prefixes and braces is read without its hyphens. -/
theorem hexText_of_plain (hcolon : ':' ∉ cs) (hbrace : ∀ c ∈ cs, isBrace c = false) :
    hexText cs = cs.filter (· ≠ '-') := by
  have hne : ∀ l ⊆ cs, ∀ x ∈ l, id x ≠ ':' := fun l hl x hx h => hcolon (h ▸ hl hx)
  have hkeep : ∀ l ⊆ cs, l.dropWhile isBrace = l := by
    intro l hl
    cases l with
    | nil => rfl
    | cons c l => simp [hbrace c (hl List.mem_cons_self)]
  have hrefl : cs ⊆ cs := fun _ h => h
  have hminus : "-".toList = ['-'] := by decide
  rw [hexText, replaceFrom_eq_self (show ':' ∈ _ by decide) (hne cs hrefl),
    replaceFrom_eq_self (show ':' ∈ _ by decide) (hne cs hrefl), hkeep cs hrefl,
    hkeep cs.reverse (by simp), List.reverse_reverse, hminus, replaceFrom_singleton]
  rfl

/-- Thirty-two digits. -/
theorem ofText_of_digits (hmap : (hexText text.toList).map pyAscii = ds.map Nat.digitChar)
    (hds : ∀ d ∈ ds, d < 16) (hlength : ds.length = 32) :
    ∃ u, Uuid.ofText text = some u ∧ u.int = ofDigitList 16 ds := by
  have hread := readInt_digitChar (Or.inr rfl) (by rintro rfl; cases hlength) hds
  have hlt := ofDigitList_lt hds
  rw [hlength] at hlt
  have hchars := congrArg List.length hmap
  rw [List.length_map, List.length_map, hlength] at hchars
  simp only [Uuid.ofText, hchars, if_true, hmap, hread, true_or]
  rw [dif_pos ⟨by omega, by exact_mod_cast hlt⟩]
  exact ⟨_, rfl, by simp⟩

end hexText

/-! ## Decimal digits in base 16 -/

/-- The number whose decimal digits are read in base 16. -/
def rebase (n : ℕ) : ℕ := Nat.ofDigits 16 (Nat.digits 10 n)

section decimal
variable {text : String}

theorem ofDigitList_decimals (h : pyIsDecimal text = true) :
    ofDigitList 16 (decimals text) = rebase (ofDigitList 10 (decimals text)) :=
  ofDigitList_of_decimal (decimals_lt h)

/-- A text of decimal digits and hyphens is read as its digits. -/
theorem ofText_of_decimal (text : String)
    (hplain : ∀ c ∈ text.toList, c = '-' ∨ (pyDecimal c).isSome)
    (hlength : (text.toList.filter (· ≠ '-')).length = 32) :
    ∃ u, Uuid.ofText text = some u ∧
      u.int = rebase (ofDigitList 10
        (decimals (String.ofList (text.toList.filter (· ≠ '-'))))) := by
  have hhex : hexText text.toList = text.toList.filter (· ≠ '-') := by
    refine hexText_of_plain (fun hmem => ?_) fun c hc => ?_
    · have := hplain _ hmem
      revert this
      decide
    · have hnone : pyDecimal '{' = none ∧ pyDecimal '}' = none := by decide
      have hc := hplain c hc
      rw [isBrace, decide_eq_false_iff_not]
      rintro (rfl | rfl) <;> simp [hnone] at hc
  have hdecimal : pyIsDecimal (String.ofList (text.toList.filter (· ≠ '-'))) = true := by
    refine decide_eq_true ⟨fun h => ?_, List.all_eq_true.mpr fun c hc => ?_⟩
    · rw [String.ofList_eq_empty_iff.mp h] at hlength
      cases hlength
    · rw [String.toList_ofList, List.mem_filter, decide_eq_true_eq] at hc
      exact (hplain c hc.1).resolve_left hc.2
  rw [← ofDigitList_decimals hdecimal]
  apply ofText_of_digits
  · rw [hhex, ← map_pyAscii_decimals hdecimal, String.toList_ofList]
  · intro d hd
    have hlt := decimals_lt hdecimal d hd
    omega
  · rw [length_decimals, String.length_ofList, hlength]

end decimal

/-! ## White space that is counted -/

section blank
variable {before after : List Char}

theorem replaceFrom_blank {old new cs : List Char} (hold : old ≠ [])
    (hword : ∀ c ∈ old, pyIsSpace c = false) (hbefore : Blank before) (hafter : Blank after) :
    replaceFrom id old new 0 (before ++ cs ++ after) =
      before ++ replaceFrom id old new 0 cs ++ after := by
  have hapart : ∀ c, pyIsSpace c = true → c ∉ old := by
    intro c hspace hc
    rw [hword c hc] at hspace
    cases hspace
  obtain ⟨a, old, rfl⟩ := List.exists_cons_of_ne_nil hold
  rw [List.append_assoc, replaceFrom_append_left, replaceFrom_append_right hold _ (Nat.zero_le _),
    List.append_assoc]
  · exact fun c hc => hapart c (hafter c hc)
  · rintro c hc rfl
    exact hapart _ (hbefore _ hc) List.mem_cons_self

theorem sublist_dropWhile {p : Char → Bool} {l l' : List Char} (h : List.Sublist l l') :
    List.Sublist (l.dropWhile p) (l'.dropWhile p) := by
  induction h with
  | slnil => exact .slnil
  | cons x h ih =>
    rw [List.dropWhile_cons]
    split
    · exact ih
    · exact ((List.dropWhile_sublist p).trans h).cons x
  | cons_cons x h ih =>
    rw [List.dropWhile_cons, List.dropWhile_cons]
    split
    · exact ih
    · exact h.cons_cons x

theorem dropWhile_isBrace_blank (cs : List Char) (hbefore : Blank before) (hafter : Blank after) :
    List.Sublist (before ++ cs.dropWhile isBrace ++ after)
      ((before ++ cs ++ after).dropWhile isBrace) := by
  have hbrace : ∀ c, pyIsSpace c = true → isBrace c = false := by
    intro c hc
    rw [isBrace, decide_eq_false_iff_not]
    rintro (rfl | rfl) <;> exact absurd hc (by decide)
  have hfront : ∀ {b l : List Char}, Blank b →
      List.Sublist (b ++ l.dropWhile isBrace) ((b ++ l).dropWhile isBrace) := by
    intro b l hb
    cases b with
    | nil => exact List.Sublist.refl _
    | cons c b =>
      rw [List.cons_append, List.cons_append, List.dropWhile_cons,
        hbrace c (hb c List.mem_cons_self)]
      exact ((List.dropWhile_sublist _).append_left b).cons_cons c
  have hback : List.Sublist (cs.dropWhile isBrace ++ after) ((cs ++ after).dropWhile isBrace) := by
    rw [List.dropWhile_append]
    split
    · rename_i hnil
      have hall := hfront (b := after) (l := []) hafter
      rw [List.isEmpty_iff.mp hnil]
      simpa using hall
    · exact List.Sublist.refl _
  rw [List.append_assoc, List.append_assoc]
  exact (hback.append_left before).trans (hfront hbefore)

/-- White space around a text is not removed, so it counts for the length. -/
theorem hexText_blank (cs : List Char) (hbefore : Blank before) (hafter : Blank after) :
    List.Sublist (before ++ hexText cs ++ after) (hexText (before ++ cs ++ after)) := by
  have hminus : "-".toList = ['-'] := by decide
  have hkeep : ∀ l : List Char, Blank l → l.filter (fun c => id c ≠ '-') = l := by
    intro l hl
    refine List.filter_eq_self.mpr fun c hc => decide_eq_true ?_
    rintro rfl
    exact absurd (hl _ hc) (by decide)
  simp only [hexText, hminus, replaceFrom_singleton]
  rw [replaceFrom_blank (show "urn:".toList ≠ [] by decide) (by decide) hbefore hafter,
    replaceFrom_blank (show "uuid:".toList ≠ [] by decide) (by decide) hbefore hafter]
  generalize replaceFrom id "uuid:".toList [] 0 (replaceFrom id "urn:".toList [] 0 cs) = bare
  have hreverse : ∀ {l : List Char}, Blank l → Blank l.reverse := fun hl c hc =>
    hl c (List.mem_reverse.mp hc)
  have hfront := (dropWhile_isBrace_blank bare hbefore hafter).reverse
  simp only [List.reverse_append, ← List.append_assoc] at hfront
  have hback := (dropWhile_isBrace_blank (bare.dropWhile isBrace).reverse
    (hreverse hafter) (hreverse hbefore)).trans (sublist_dropWhile hfront)
  have hboth := hback.reverse.filter (fun c => id c ≠ '-')
  simp only [List.reverse_append, List.reverse_reverse, List.filter_append, hkeep _ hbefore,
    hkeep _ hafter] at hboth
  simpa only [List.append_assoc] using hboth

end blank

/-! ## Forms of a `UUID` -/

section forms
variable {u : Uuid} {form : String}

/-- What is read has thirty-two characters. -/
theorem length_hexText_of_ofText (h : Uuid.ofText form = some u) :
    (hexText form.toList).length = 32 := by
  by_contra hlength
  simp only [Uuid.ofText, hlength, if_false] at h
  cases h

/-- White space that was counted in is missed when it is stripped. -/
theorem pyStrip_eq_of_ofText {v : Uuid} (h : Uuid.ofText form = some u)
    (hstrip : Uuid.ofText (pyStrip form) = some v) : pyStrip form = form := by
  obtain ⟨before, after, hbefore, hafter, htext⟩ := exists_toList_eq_pyStrip form
  have hlength := length_hexText_of_ofText h
  have hrest := length_hexText_of_ofText hstrip
  have hle := (hexText_blank (pyStrip form).toList hbefore hafter).length_le
  rw [← htext, List.length_append, List.length_append] at hle
  obtain rfl : before = [] := List.length_eq_zero_iff.mp (by omega)
  obtain rfl : after = [] := List.length_eq_zero_iff.mp (by omega)
  rw [← String.toList_inj, htext, List.nil_append, List.append_nil]

/-- A form of decimal digits, and perhaps white space that was counted in. -/
theorem int_of_decimal (h : Uuid.ofText form = some u)
    (hdecimal : pyIsDecimal (pyStrip form) = true) :
    u.int = rebase (ofDigitList 10 (decimals (pyStrip form))) ∧ (pyStrip form).length ≤ 32 := by
  obtain ⟨before, after, hbefore, hafter, htext⟩ := exists_toList_eq_pyStrip form
  have hchars : ∀ c ∈ form.toList, pyIsSpace c = true ∨ (pyDecimal c).isSome := by
    intro c hc
    rw [htext, List.mem_append, List.mem_append] at hc
    rcases hc with (hc | hc) | hc
    · exact Or.inl (hbefore c hc)
    · exact Or.inr (List.all_eq_true.mp (of_decide_eq_true hdecimal).2 c hc)
    · exact Or.inl (hafter c hc)
  have hother : ∀ c ∈ [':', '{', '}', '-'], c ∉ form.toList := by
    intro c hc hmem
    have hnone : ∀ c ∈ [':', '{', '}', '-'], ¬ (pyIsSpace c = true ∨ (pyDecimal c).isSome) := by
      decide
    exact hnone c hc (hchars c hmem)
  have hhex : hexText form.toList = form.toList := by
    rw [hexText_of_plain (hother ':' (by decide))]
    · refine List.filter_eq_self.mpr fun c hc => decide_eq_true ?_
      rintro rfl
      exact hother '-' (by decide) hc
    · intro c hc
      rw [isBrace, decide_eq_false_iff_not]
      rintro (rfl | rfl)
      · exact hother '{' (by decide) hc
      · exact hother '}' (by decide) hc
  refine ⟨?_, ?_⟩
  case refine_2 =>
    have hlength := length_hexText_of_ofText h
    rw [hhex, htext, List.length_append, List.length_append, String.length_toList] at hlength
    omega
  simp only [Uuid.ofText, hhex] at h
  split at h
  · split at h
    · rename_i n hread
      rw [htext, List.map_append, List.map_append, map_pyAscii_decimals hdecimal] at hread
      have hlt : ∀ d ∈ decimals (pyStrip form), d < 16 := fun d hd =>
        (decimals_lt hdecimal d hd).trans (by decide)
      have hn := readInt_padded (Or.inr rfl) (decimals_ne_nil hdecimal) hlt hbefore hafter hread
      split at h
      · obtain rfl := Option.some.inj h
        rw [ofDigitList_decimals hdecimal] at hn
        show n.toNat = _
        rw [hn, Int.toNat_natCast]
      · cases h
    · cases h
  · cases h

end forms

/-! ## The text of a `UUID` -/

/-- The digits of a number in base 16. -/
theorem exists_toDigits_sixteen (n : ℕ) : ∃ ds : List ℕ,
    Nat.toDigits 16 n = ds.map Nat.digitChar ∧ (∀ d ∈ ds, d < 16) ∧ ofDigitList 16 ds = n := by
  induction n using Nat.strongRecOn with
  | ind n ih =>
    rw [Nat.toDigits_eq_if (by decide)]
    split
    · rename_i hlt
      exact ⟨[n], rfl, by simpa using hlt, by simp [ofDigitList]⟩
    · rename_i hle
      obtain ⟨ds, htext, hds, hvalue⟩ := ih (n / 16) (by omega)
      refine ⟨ds ++ [n % 16], by simp [htext], ?_, ?_⟩
      · intro d hd
        rcases List.mem_append.mp hd with hd | hd
        · exact hds d hd
        · rw [List.mem_singleton.mp hd]
          exact Nat.mod_lt n (by decide)
      · rw [ofDigitList_append_singleton, hvalue]
        omega

namespace Uuid

variable {u : Uuid}

/-- Thirty-two digits that stand for the number. -/
theorem exists_hex (u : Uuid) : ∃ ds : List ℕ, u.hex = ds.map Nat.digitChar ∧
    ds.length = 32 ∧ (∀ d ∈ ds, d < 16) ∧ ofDigitList 16 ds = u.int := by
  obtain ⟨ds, htext, hds, hvalue⟩ := exists_toDigits_sixteen u.int
  have hlength := (Nat.length_toDigits_le_iff (by decide : 1 < 16) (by decide : 0 < 32)).mpr
    (show u.int < 16 ^ 32 from u.bound)
  rw [htext, List.length_map] at hlength
  refine ⟨List.replicate (32 - ds.length) 0 ++ ds, ?_, ?_, ?_, ?_⟩
  · rw [hex, List.leftpad, htext, List.map_append, List.map_replicate, List.length_map]
    rfl
  · rw [List.length_append, List.length_replicate]
    omega
  · intro d hd
    rcases List.mem_append.mp hd with hd | hd
    · rw [List.eq_of_mem_replicate hd]
      decide
    · exact hds d hd
  · rw [ofDigitList_replicate_append, hvalue]

theorem mem_hex {c : Char} (h : c ∈ u.hex) : ∃ d < 16, Nat.digitChar d = c := by
  obtain ⟨ds, htext, -, hds, -⟩ := u.exists_hex
  rw [htext] at h
  obtain ⟨d, hd, rfl⟩ := List.mem_map.mp h
  exact ⟨d, hds d hd, rfl⟩

/-- The digits in groups, with hyphens between them. -/
theorem filter_text (u : Uuid) : u.text.toList.filter (· ≠ '-') = u.hex := by
  have hkeep : ∀ l ⊆ u.hex, l.filter (· ≠ '-') = l := by
    have hall : ∀ d < 16, Nat.digitChar d ≠ '-' := by decide
    intro l hl
    refine List.filter_eq_self.mpr fun c hc => decide_eq_true ?_
    obtain ⟨d, hd, rfl⟩ := mem_hex (hl hc)
    exact hall d hd
  have hgroup : ∀ i n, ((u.hex.drop i).take n).filter (· ≠ '-') = (u.hex.drop i).take n :=
    fun i n => hkeep _ fun c hc => List.mem_of_mem_drop (List.mem_of_mem_take hc)
  have hnext : ∀ i n, (u.hex.drop i).take n ++ u.hex.drop (i + n) = u.hex.drop i := by
    intro i n
    rw [← List.drop_drop, List.take_append_drop]
  have hminus : ∀ l : List Char, ('-' :: l).filter (· ≠ '-') = l.filter (· ≠ '-') := fun _ => rfl
  have hfirst : (u.hex.take 8).filter (· ≠ '-') = u.hex.take 8 := hgroup 0 8
  have hlast := hkeep _ (List.drop_subset 20 u.hex)
  rw [text, String.toList_ofList, List.filter_append, List.filter_append, List.filter_append,
    List.filter_append, hminus, hminus, hminus, hminus, hfirst, hgroup, hgroup, hgroup, hlast,
    List.append_assoc, hnext 16 4, List.append_assoc, hnext 12 4, List.append_assoc, hnext 8 4,
    List.take_append_drop]

theorem mem_text {c : Char} (h : c ∈ u.text.toList) : c = '-' ∨ ∃ d < 16, Nat.digitChar d = c := by
  by_cases hminus : c = '-'
  · exact Or.inl hminus
  · refine Or.inr (mem_hex (u := u) ?_)
    rw [← filter_text]
    exact List.mem_filter.mpr ⟨h, decide_eq_true hminus⟩

theorem hexText_text (u : Uuid) : hexText u.text.toList = u.hex := by
  have hall : ∀ d < 16, Nat.digitChar d ≠ ':' ∧ isBrace (Nat.digitChar d) = false := by decide
  rw [hexText_of_plain, filter_text]
  · intro hc
    obtain h | ⟨d, hd, h⟩ := mem_text hc
    · exact absurd h (by decide)
    · exact (hall d hd).1 h
  · intro c hc
    obtain rfl | ⟨d, hd, rfl⟩ := mem_text hc
    · decide
    · exact (hall d hd).2

/-- `UUID(str(u)) == u`. -/
theorem ofText_text (u : Uuid) : ofText u.text = some u := by
  obtain ⟨ds, htext, hlength, hds, hvalue⟩ := u.exists_hex
  have hascii : ∀ d < 16, pyAscii (Nat.digitChar d) = Nat.digitChar d := by decide
  obtain ⟨v, hv, hint⟩ := ofText_of_digits
    (show (hexText u.text.toList).map pyAscii = ds.map Nat.digitChar by
      rw [hexText_text, htext, List.map_map]
      exact List.map_congr_left fun d hd => hascii d (hds d hd)) hds hlength
  rw [hv, Option.some.injEq]
  exact Uuid.ext (hint.trans hvalue)

end Uuid

end BaseWebService.Utils
