import Mathlib.Tactic.Common
import Mathlib.Tactic.IntervalCases
import BaseWebService.Library.PyBytes

/-!
# Percent-encoded text

`urllib.parse.quote`, and the decoding a server applies to the path of a URL: every `%XX` is one
byte, and the bytes are UTF-8.

## Main results

* `pyUnquote_pyQuote` : decoding a quoted text gives the text back.
* `pyQuote_injective` : two texts that are quoted alike are the same.
-/

namespace BaseWebService.Library

/-- `text.encode("utf-8")`. -/
def utf8 (text : String) : Bytes := text.toList.flatMap String.utf8EncodeChar

/-- `data.decode("utf-8")`; `none` is a `UnicodeDecodeError`. -/
def utf8Decode (data : Bytes) : Option String := String.fromUTF8? data.toByteArray

/-- A hexadecimal digit, as `{:02X}` writes it. -/
def hexChar (n : ℕ) : Char := Char.ofNat (if n < 10 then 48 + n else 55 + n)

def hexValue (c : Char) : Option ℕ :=
  if '0' ≤ c ∧ c ≤ '9' then some (c.toNat - 48)
  else if 'A' ≤ c ∧ c ≤ 'F' then some (c.toNat - 55)
  else if 'a' ≤ c ∧ c ≤ 'f' then some (c.toNat - 87)
  else none

/-- The letters, the digits and `_.-~`, which `quote` never encodes. -/
def isAlwaysSafe (b : UInt8) : Bool :=
  (65 ≤ b ∧ b ≤ 90) ∨ (97 ≤ b ∧ b ≤ 122) ∨ (48 ≤ b ∧ b ≤ 57) ∨ b ∈ bytesOf "_.-~"

/-- What stands in a quoted text for one byte. -/
def quoteByte (safe : Bytes) (b : UInt8) : List Char :=
  if isAlwaysSafe b ∨ b ∈ safe then [Char.ofNat b.toNat]
  else ['%', hexChar (b.toNat / 16), hexChar (b.toNat % 16)]

/-- `safe.encode("ascii", "ignore")`. -/
def safeBytes (safe : String) : Bytes :=
  (safe.toList.filter fun c => c.toNat < 128).map fun c => UInt8.ofNat c.toNat

/-- `quote(text, safe=safe)`. -/
def pyQuote (text safe : String) : String :=
  String.ofList ((utf8 text).flatMap (quoteByte (safeBytes safe)))

/-- `unquote_to_bytes`: a `%` without two digits after it stands for itself. -/
def unquoteToBytes : List Char → Bytes
  | '%' :: hi :: lo :: cs =>
    match hexValue hi, hexValue lo with
    | some h, some l => UInt8.ofNat (16 * h + l) :: unquoteToBytes cs
    | _, _ => 37 :: unquoteToBytes (hi :: lo :: cs)
  | c :: cs => String.utf8EncodeChar c ++ unquoteToBytes cs
  | [] => []

/-- The text that a percent-encoded text stands for; `none` if the bytes are no UTF-8. -/
def pyUnquote (text : String) : Option String := utf8Decode (unquoteToBytes text.toList)

/-- `text.lstrip(chars)`. -/
def pyLstrip (text chars : String) : String :=
  String.ofList (text.toList.dropWhile (· ∈ chars.toList))

/-- `text.rstrip(chars)`. -/
def pyRstrip (text chars : String) : String :=
  String.ofList (text.toList.reverse.dropWhile (· ∈ chars.toList)).reverse

/-! ## Reading back -/

theorem hexValue_hexChar {n : ℕ} (h : n < 16) : hexValue (hexChar n) = some n := by
  interval_cases n <;> decide

theorem utf8Decode_utf8 (text : String) : utf8Decode (utf8 text) = some text := by
  have hbytes : (utf8 text).toByteArray = text.toByteArray := by
    conv_rhs => rw [← String.ofList_toList (s := text)]
    rfl
  have hvalid := text.isValidUTF8
  simp only [utf8Decode, String.fromUTF8?, hbytes, hvalid, dite_true]
  rfl

/-- A byte below 128 is the character it encodes. -/
theorem utf8EncodeChar_ofNat {b : UInt8} (h : b.toNat < 128) :
    String.utf8EncodeChar (Char.ofNat b.toNat) = [b] := by
  have hnat : (Char.ofNat b.toNat).toNat = b.toNat := by
    have hvalid : b.toNat.isValidChar := Or.inl (by omega)
    exact congrArg Char.toNat (dif_pos hvalid)
  have hval : (Char.ofNat b.toNat).val.toNat = b.toNat := hnat
  simp [String.utf8EncodeChar, hval]
  omega

theorem unquoteToBytes_cons {c : Char} (hc : c ≠ '%') (cs : List Char) :
    unquoteToBytes (c :: cs) = String.utf8EncodeChar c ++ unquoteToBytes cs := by
  rw [unquoteToBytes]
  grind

section safe
variable {safe : Bytes} (hsafe : ∀ b ∈ safe, b.toNat < 128 ∧ b ≠ 37)
include hsafe

/-- What is not encoded is an ASCII byte, and no percent sign. -/
theorem lt_of_safe {b : UInt8} (h : isAlwaysSafe b ∨ b ∈ safe) : b.toNat < 128 ∧ b ≠ 37 := by
  rcases h with halways | hmem
  · have hword : bytesOf "_.-~" = [95, 46, 45, 126] := by decide
    simp only [isAlwaysSafe, hword, UInt8.le_iff_toNat_le, UInt8.reduceToNat, List.mem_cons,
      List.not_mem_nil, or_false, decide_eq_true_eq, ← UInt8.toNat_inj, ne_eq] at halways ⊢
    omega
  · exact hsafe b hmem

/-- What stands for a byte is read as that byte. -/
theorem unquoteToBytes_quoteByte (b : UInt8) (cs : List Char) :
    unquoteToBytes (quoteByte safe b ++ cs) = b :: unquoteToBytes cs := by
  unfold quoteByte
  split
  · rename_i h
    obtain ⟨hascii, hpercent⟩ := lt_of_safe hsafe h
    have hne : Char.ofNat b.toNat ≠ '%' := by
      intro heq
      have henc := utf8EncodeChar_ofNat hascii
      rw [heq] at henc
      exact hpercent (List.singleton_inj.mp henc).symm
    rw [List.singleton_append, unquoteToBytes_cons hne, utf8EncodeChar_ofNat hascii,
      List.singleton_append]
  · have hlt : b.toNat < 256 := b.toNat_lt
    have hhi : hexValue (hexChar (b.toNat / 16)) = some (b.toNat / 16) :=
      hexValue_hexChar (by omega)
    have hlo : hexValue (hexChar (b.toNat % 16)) = some (b.toNat % 16) :=
      hexValue_hexChar (by omega)
    have hsum : 16 * (b.toNat / 16) + b.toNat % 16 = b.toNat := by omega
    simp [unquoteToBytes, hhi, hlo, hsum]

theorem unquoteToBytes_flatMap (data : Bytes) :
    unquoteToBytes (data.flatMap (quoteByte safe)) = data := by
  induction data with
  | nil => rfl
  | cons b data ih => rw [List.flatMap_cons, unquoteToBytes_quoteByte hsafe, ih]

end safe

section quote
variable {safe : String} (hsafe : '%' ∉ safe.toList)
include hsafe

/-- A quoted text is decoded to the text. -/
theorem pyUnquote_pyQuote (text : String) : pyUnquote (pyQuote text safe) = some text := by
  have hbytes : ∀ b ∈ safeBytes safe, b.toNat < 128 ∧ b ≠ 37 := by
    intro b hb
    obtain ⟨c, hc, rfl⟩ := List.mem_map.mp hb
    obtain ⟨hmem, hascii⟩ := List.mem_filter.mp hc
    have hlt : c.toNat < 128 := by simpa using hascii
    have hto : (UInt8.ofNat c.toNat).toNat = c.toNat :=
      UInt8.toNat_ofNat_of_lt' (hlt.trans (by decide))
    refine ⟨by omega, fun heq => hsafe ?_⟩
    have hpercent : c = '%' := Char.toNat_inj.mp (by rw [← hto, heq]; rfl)
    exact hpercent ▸ hmem
  rw [pyUnquote, pyQuote, String.toList_ofList, unquoteToBytes_flatMap hbytes, utf8Decode_utf8]

theorem pyQuote_injective : Function.Injective (pyQuote · safe) := by
  intro s t heq
  have hs := pyUnquote_pyQuote hsafe s
  have ht := pyUnquote_pyQuote hsafe t
  grind

end quote

/-! ## Stripping -/

/-- Nothing is stripped from the left of a text exactly if it does not start with such a
character. -/
theorem pyLstrip_eq_self_iff (text chars : String) :
    pyLstrip text chars = text ↔ ∀ c ∈ text.toList.head?, c ∉ chars.toList := by
  constructor
  · intro h c hc hmem
    have hlist : text.toList.dropWhile (· ∈ chars.toList) = text.toList := by
      simpa [pyLstrip] using congrArg String.toList h
    have hlen := congrArg List.length hlist
    have hle := (text.toList.tail.dropWhile_sublist (· ∈ chars.toList)).length_le
    cases hcs : text.toList with
    | nil => simp [hcs] at hc
    | cons d ds =>
      obtain rfl : d = c := by simpa [hcs] using hc
      simp [hcs, hmem] at hlen hle
      omega
  · intro h
    rw [pyLstrip]
    cases hcs : text.toList with
    | nil => rw [List.dropWhile_nil, ← hcs, String.ofList_toList]
    | cons d ds =>
      have hd : d ∉ chars.toList := h d (by simp [hcs])
      rw [List.dropWhile_cons_of_neg (by simpa using hd), ← hcs, String.ofList_toList]

example : pyQuote "bản vẽ/a b+1.pdf" "/" = "b%E1%BA%A3n%20v%E1%BA%BD/a%20b%2B1.pdf" := by decide

end BaseWebService.Library
