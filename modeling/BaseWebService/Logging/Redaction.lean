import BaseWebService.Library.PyDict
import BaseWebService.Library.PyText
import BaseWebService.Logging.Value

/-!
# Redaction of logged values

`core/logging/redaction.py`. `redact_sensitive_data` walks a value with the set `_visited` of the
identities it has met. A string that holds JSON is parsed and the parsed objects are walked in its
place; they are gone when that walk returns, but their identities stay in `_visited`. Where the
objects of `json.loads` are stored is up to the interpreter: an `Allocator` may give them any
identities that are not in use.
-/

namespace BaseWebService.Logging

open Library

/-- The part of Python's library that redaction calls: `str.lower` and `json.loads`, of which
`none` is a `ValueError`. -/
structure Runtime where
  lower : String → String
  loads : String → Option Tree
  /-- The strings in a parsed value are shorter than its text. -/
  loads_shorter : ∀ {text t}, loads text = some t → ∀ s ∈ t.strings, s.length < text.length
  /-- White space around a JSON text does not count. -/
  loads_strip : ∀ {text t}, loads text = some t → loads (pyStrip text) = some t
  /-- A text that opens with a brace or a bracket is an object or an array. -/
  loads_container : ∀ {text t}, loads text = some t →
    (∃ cs, text.toList = '{' :: cs ∨ text.toList = '[' :: cs) → t.IsContainer

/-- What `redact_sensitive_data` leaves behind while it runs: `_visited`, and how many texts have
been parsed. -/
structure Memory where
  visited : List ℕ
  parsed : ℕ

def Memory.start : Memory := ⟨[], 0⟩

def Memory.visit (m : Memory) (id : ℕ) : Memory := { m with visited := id :: m.visited }

def Memory.parse (m : Memory) : Memory := { m with parsed := m.parsed + 1 }

/-- Where the interpreter stores what `json.loads` returns, given the identities in use. Objects
that live at the same time have different identities, and nothing else is promised. -/
structure Allocator where
  build : Memory → List ℕ → Tree → PyValue ℕ
  erase_build : ∀ m live t, (build m live t).erase = t
  unshared_build : ∀ m live t, (build m live t).Unshared
  not_live : ∀ m live t, ∀ id ∈ (build m live t).ids, id ∉ live

def redacted : String := "[REDACTED]"

def sensitiveKeys : List String :=
  ["authorization", "cookie", "set-cookie", "password", "client_secret", "access_token",
    "refresh_token", "auth_token", "token", "api_key", "apikey", "secret"]

/-- `f"<recursive {type(value).__name__}>"`. -/
def recursive (typeName : String) : Tree := .str ("<recursive " ++ typeName ++ ">")

/-- `stripped.startswith(("{", "["))`. -/
def startsJson (text : String) : Bool :=
  match text.toList with
  | '{' :: _ => true
  | '[' :: _ => true
  | _ => false

theorem startsJson_iff {text : String} :
    startsJson text = true ↔ ∃ cs, text.toList = '{' :: cs ∨ text.toList = '[' :: cs := by
  unfold startsJson
  split <;> simp_all

namespace Runtime

variable (rt : Runtime)

def isSensitiveKey (key : Key) : Bool :=
  let normalized := pyReplace '-' '_' (rt.lower key.text)
  sensitiveKeys.contains normalized || pyEndsWith normalized "_token"

/-- What a string holds as JSON, if it does. -/
def parseText (text : String) : Option Tree :=
  let stripped := pyStrip text
  if startsJson stripped then rt.loads stripped else none

theorem parseText_eq_some_iff {rt : Runtime} {text : String} {t : Tree} :
    rt.parseText text = some t ↔
      startsJson (pyStrip text) = true ∧ rt.loads (pyStrip text) = some t := by
  simp [parseText]

section walk
variable (onText : String → Memory → Tree × Memory)

mutual

/-- The walk of `redact_sensitive_data`, with `onText` for its branch on strings. -/
def redactWith : PyValue ℕ → Memory → Tree × Memory
  | .scalar x, m => (.scalar x, m)
  | .str text, m => onText text m
  | .other id o, m =>
    if id ∈ m.visited then (recursive o.typeName, m) else (.other () o, m.visit id)
  | .mapping id entries, m =>
    if id ∈ m.visited then (recursive "dict", m)
    else
      let r := redactEntries entries (m.visit id)
      (.mapping () (pyDict r.1), r.2)
  | .seq kind id items, m =>
    if id ∈ m.visited then (recursive kind.typeName, m)
    else
      let r := redactItems 100 items (m.visit id)
      (.seq .list () r.1, r.2)

/-- The pairs of the dictionary comprehension, in order. -/
def redactEntries : List (Key × PyValue ℕ) → Memory → List (Key × Tree) × Memory
  | [], m => ([], m)
  | (key, value) :: entries, m =>
    let r := if rt.isSensitiveKey key then (.str redacted, m) else redactWith value m
    let rs := redactEntries entries r.2
    ((.str key.text, r.1) :: rs.1, rs.2)

/-- The first `limit` items. -/
def redactItems (limit : ℕ) : List (PyValue ℕ) → Memory → List Tree × Memory
  | [], m => ([], m)
  | value :: items, m =>
    match limit with
    | 0 => ([], m)
    | limit + 1 =>
      let r := redactWith value m
      let rs := redactItems limit items r.2
      (r.1 :: rs.1, rs.2)

end

variable {rt onText} {id : ℕ} {m : Memory}

theorem redactWith_other (o : Opaque) (h : id ∉ m.visited) :
    rt.redactWith onText (.other id o) m = (.other () o, m.visit id) := if_neg h

theorem redactWith_mapping (entries : List (Key × PyValue ℕ)) (h : id ∉ m.visited) :
    rt.redactWith onText (.mapping id entries) m =
      (.mapping () (pyDict (rt.redactEntries onText entries (m.visit id)).1),
        (rt.redactEntries onText entries (m.visit id)).2) := if_neg h

theorem redactWith_seq (kind : SeqKind) (items : List (PyValue ℕ)) (h : id ∉ m.visited) :
    rt.redactWith onText (.seq kind id items) m =
      (.seq .list () (rt.redactItems onText 100 items (m.visit id)).1,
        (rt.redactItems onText 100 items (m.visit id)).2) := if_neg h

end walk

variable (a : Allocator)

/-- The branch on strings. The strings of a parsed text are shorter than it, so its length bounds
how deep texts can be nested; see `redactText_of_parse`. -/
def redactText : ℕ → List ℕ → String → Memory → Tree × Memory
  | 0, _, text, m => (.str text, m)
  | depth + 1, live, text, m =>
    match rt.parseText text with
    | none => (.str text, m)
    | some t =>
      let value := a.build m live t
      rt.redactWith (redactText depth (value.ids ++ live)) value m.parse

/-- `redact_sensitive_data(value)`. -/
def redact (value : PyValue ℕ) : Tree :=
  (rt.redactWith (fun text => rt.redactText a text.length value.ids text) value .start).1

end Runtime

end BaseWebService.Logging
