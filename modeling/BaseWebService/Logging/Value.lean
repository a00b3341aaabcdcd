import Mathlib.Data.List.Nodup
import Mathlib.Tactic.Common

/-!
# Python values that are logged

Values as the redactors tell them apart. A container or an opaque object carries its identity in
`ι`; with `ι = Unit` the same type is a value without identities: what `json.loads` returns up to
where its objects are stored, and what a redactor builds.
-/

namespace BaseWebService.Logging

/-- `None`, a boolean or a number. -/
inductive Scalar where
  | none
  | bool (b : Bool)
  | int (n : Int)
  | float (repr : String)
  deriving DecidableEq, Repr

/-- The key of a mapping; one that is not a string is known by its `str()`. -/
inductive Key where
  | str (text : String)
  | object (text : String)
  deriving DecidableEq, Repr

/-- `str(key)`. -/
def Key.text : Key → String
  | .str text => text
  | .object text => text

/-- An object the redactors do not look into. -/
inductive Opaque where
  | bytes (data : List UInt8)
  | object (typeName text : String)
  deriving DecidableEq, Repr

inductive SeqKind where
  | list
  | tuple
  | set
  deriving DecidableEq, Repr

/-- A finite value; two occurrences of one identity are one shared object. -/
inductive PyValue (ι : Type) where
  | scalar (x : Scalar)
  | str (text : String)
  | other (id : ι) (o : Opaque)
  | mapping (id : ι) (entries : List (Key × PyValue ι))
  | seq (kind : SeqKind) (id : ι) (items : List (PyValue ι))

/-- A value without identities. -/
abbrev Tree := PyValue Unit

/-- `type(value).__name__`. -/
def Opaque.typeName : Opaque → String
  | .bytes _ => "bytes"
  | .object typeName _ => typeName

def SeqKind.typeName : SeqKind → String
  | .list => "list"
  | .tuple => "tuple"
  | .set => "set"

variable {ι : Type}

mutual

/-- The value, whatever objects it is made of. -/
def PyValue.erase : PyValue ι → Tree
  | .scalar x => .scalar x
  | .str text => .str text
  | .other _ o => .other () o
  | .mapping _ entries => .mapping () (eraseEntries entries)
  | .seq kind _ items => .seq kind () (eraseItems items)

def eraseEntries : List (Key × PyValue ι) → List (Key × Tree)
  | [] => []
  | (key, value) :: entries => (key, value.erase) :: eraseEntries entries

def eraseItems : List (PyValue ι) → List Tree
  | [] => []
  | value :: items => value.erase :: eraseItems items

end

mutual

/-- The identities in a value, once for each occurrence. -/
def PyValue.ids : PyValue ι → List ι
  | .scalar _ => []
  | .str _ => []
  | .other id _ => [id]
  | .mapping id entries => id :: idsEntries entries
  | .seq _ id items => id :: idsItems items

def idsEntries : List (Key × PyValue ι) → List ι
  | [] => []
  | (_, value) :: entries => value.ids ++ idsEntries entries

def idsItems : List (PyValue ι) → List ι
  | [] => []
  | value :: items => value.ids ++ idsItems items

end

mutual

/-- The strings in a value, the keys of its mappings apart. -/
def PyValue.strings : PyValue ι → List String
  | .scalar _ => []
  | .str text => [text]
  | .other _ _ => []
  | .mapping _ entries => stringsEntries entries
  | .seq _ _ items => stringsItems items

def stringsEntries : List (Key × PyValue ι) → List String
  | [] => []
  | (_, value) :: entries => value.strings ++ stringsEntries entries

def stringsItems : List (PyValue ι) → List String
  | [] => []
  | value :: items => value.strings ++ stringsItems items

end

/-- No object occurs twice: nothing is shared. -/
def PyValue.Unshared (v : PyValue ι) : Prop := v.ids.Nodup

instance [DecidableEq ι] (v : PyValue ι) : Decidable v.Unshared :=
  inferInstanceAs (Decidable v.ids.Nodup)

/-- A mapping or a list, what the JSON texts for objects and arrays stand for. -/
def PyValue.IsContainer : PyValue ι → Prop
  | .mapping _ _ => True
  | .seq .list _ _ => True
  | _ => False

mutual

theorem PyValue.strings_erase : ∀ v : PyValue ι, v.erase.strings = v.strings
  | .scalar _ => rfl
  | .str _ => rfl
  | .other _ _ => rfl
  | .mapping _ entries => by rw [PyValue.erase, PyValue.strings, stringsEntries_erase entries,
      PyValue.strings]
  | .seq _ _ items => by rw [PyValue.erase, PyValue.strings, stringsItems_erase items,
      PyValue.strings]

theorem stringsEntries_erase : ∀ entries : List (Key × PyValue ι),
    stringsEntries (eraseEntries entries) = stringsEntries entries
  | [] => rfl
  | (_, value) :: entries => by
    rw [eraseEntries, stringsEntries, value.strings_erase, stringsEntries_erase entries,
      stringsEntries]

theorem stringsItems_erase : ∀ items : List (PyValue ι),
    stringsItems (eraseItems items) = stringsItems items
  | [] => rfl
  | value :: items => by
    rw [eraseItems, stringsItems, value.strings_erase, stringsItems_erase items, stringsItems]

end

end BaseWebService.Logging
