import Mathlib.Tactic.Common

/-!
# Python bytes on lists

`int()`, `bytes.lower()` and the Latin-1 codec, on lists of bytes. Unlike text, bytes know only the
ASCII letters, digits and white space.
-/

namespace BaseWebService.Library

abbrev Bytes := List UInt8

/-- The bytes of an ASCII literal. -/
def bytesOf (text : String) : Bytes := text.toList.map fun c => UInt8.ofNat c.toNat

/-- `data.lower()`. -/
def bytesLower (data : Bytes) : Bytes := data.map fun b => if 65 ≤ b ∧ b ≤ 90 then b + 32 else b

def isSpaceByte (b : UInt8) : Bool := b = 32 ∨ 9 ≤ b ∧ b ≤ 13

def isDigitByte (b : UInt8) : Bool := 48 ≤ b ∧ b ≤ 57

/-- `data.strip()`. -/
def bytesStrip (data : Bytes) : Bytes :=
  ((data.dropWhile isSpaceByte).reverse.dropWhile isSpaceByte).reverse

/-- The number of digits from which on `int()` refuses. -/
def maxStrDigits : ℕ := 4300

/-- `int(data)`: an optional sign, and digits that single underscores may group; `none` is a
`ValueError`. -/
def bytesInt (data : Bytes) : Option Int :=
  match bytesStrip data with
  | 45 :: ds => (digits ds).map fun n => -(n : Int)
  | 43 :: ds => (digits ds).map (↑)
  | ds => (digits ds).map (↑)
where
  digits (ds : Bytes) : Option ℕ :=
    let groups := ds.splitOn 95
    if groups.all (fun g => g ≠ [] ∧ g.all isDigitByte) ∧ groups.flatten.length ≤ maxStrDigits then
      some (groups.flatten.foldl (fun n b => 10 * n + (b.toNat - 48)) 0)
    else none

/-- `text.encode("latin-1")`; `none` is a `UnicodeEncodeError`. -/
def latin1 (text : String) : Option Bytes :=
  text.toList.mapM fun c => if c.toNat < 256 then some (UInt8.ofNat c.toNat) else none

/-- `data.decode("latin-1")`. -/
def latin1Decode (data : Bytes) : String := String.ofList (data.map fun b => Char.ofNat b.toNat)

/-- `text.lower()` for text in Latin-1, on its bytes. The letters from À to Þ, with × among them,
stand 32 before the small ones. -/
def latin1Lower (data : Bytes) : Bytes :=
  data.map fun b => if (65 ≤ b ∧ b ≤ 90) ∨ (192 ≤ b ∧ b ≤ 222 ∧ b ≠ 215) then b + 32 else b

/-- What was decoded can be encoded again. -/
@[simp] theorem latin1_latin1Decode (data : Bytes) : latin1 (latin1Decode data) = some data := by
  have hbyte : ∀ b : UInt8, (Char.ofNat b.toNat).toNat = b.toNat := fun b => by
    have hlt : b.toNat < 256 := b.toNat_lt
    have hvalid : b.toNat.isValidChar := Or.inl (by omega)
    exact congrArg Char.toNat (dif_pos hvalid)
  unfold latin1 latin1Decode
  rw [String.toList_ofList]
  induction data with
  | nil => rfl
  | cons b data ih =>
    have hlt : b.toNat < 256 := b.toNat_lt
    simp [hbyte, hlt, ih]

@[simp] theorem latin1Lower_latin1Lower (data : Bytes) :
    latin1Lower (latin1Lower data) = latin1Lower data := by
  simp only [latin1Lower, List.map_map]
  apply List.map_congr_left
  intro b _
  simp only [Function.comp]
  split
  · rename_i hcapital
    -- a small letter is no capital, so it stays
    apply if_neg
    simp only [UInt8.le_iff_toNat_le, ne_eq, ← UInt8.toNat_inj, UInt8.toNat_add,
      UInt8.reduceToNat] at hcapital ⊢
    omega
  · rfl

example : bytesInt (bytesOf " +1_000\n") = some 1000 := by decide
example : bytesInt (bytesOf "1__0") = none := by decide

end BaseWebService.Library
