import Mathlib.Data.List.Perm.Basic
import BaseWebService.Library.PyDict
import BaseWebService.Logging.Value
import BaseWebService.Middleware.Asgi

/-!
# Responses and their headers

Starlette shows the raw headers of a response as a mapping, in which a name is looked up in lower
case and answers with the first of its values, and builds a response from a dictionary of headers by
encoding it. The names are text in Latin-1 and are kept as their bytes.
-/

namespace BaseWebService.Middleware

open Library
open Logging (Tree)

/-- The stream that `call_next` hands on, or the content of a response that was built. -/
inductive Body where
  | stream (chunks : List Bytes)
  | bytes (content : Bytes)
  deriving DecidableEq

structure Response where
  status : ℕ
  rawHeaders : List Header
  body : Body
  deriving DecidableEq

/-- The bytes of the body, however it is cut. -/
def Response.content (r : Response) : Bytes :=
  match r.body with
  | .stream chunks => chunks.flatten
  | .bytes content => content

/-- What `call_next` returns: the response of the application, its body cut into chunks. -/
abbrev streaming (status : ℕ) (headers : List Header) (chunks : List Bytes) : Response :=
  ⟨status, headers, .stream chunks⟩

def contentLengthKey : Bytes := bytesOf "content-length"

def requestIdKey : Bytes := bytesOf "x-request-id"

/-- `headers[key]`; `none` is a `KeyError`. -/
def headerGet (headers : List Header) (key : Bytes) : Option String :=
  (pyGet headers (latin1Lower key)).map latin1Decode

/-- `dict(response.headers)`: every name with what the mapping answers to it. -/
def headersDict (headers : List Header) : Option (List (Bytes × Tree)) :=
  (headers.mapM fun e => (headerGet headers e.1).map fun value => (e.1, .str value)).map pyDict

/-- `value.encode("latin-1")`; `none` is an `AttributeError` or a `UnicodeEncodeError`. -/
def encodeHeader : Tree → Option Bytes
  | .str text => latin1 text
  | _ => none

/-- The Content-Length that a response gets unless it has one or its status allows none. -/
def populateContentLength (content : Bytes) (status : ℕ) (rawHeaders : List Header) :
    List Header :=
  if contentLengthKey ∈ rawHeaders.map Prod.fst ∨ status < 200 ∨ status = 204 ∨ status = 304 then
    rawHeaders
  else rawHeaders ++ [(contentLengthKey, bytesOf (pyStr content.length))]

/-- `Response(content, status_code, headers)`, without a media type. -/
def Response.init (content : Bytes) (status : ℕ) (headers : List (Bytes × Tree)) :
    Option Response := do
  let rawHeaders ← headers.mapM fun e =>
    (encodeHeader e.2).map fun value => (latin1Lower e.1, value)
  return ⟨status, populateContentLength content status rawHeaders, .bytes content⟩

/-! ## What becomes of the headers -/

/-- Every name is there in lower case as well, so that the mapping can answer to it. -/
def NamesReadable (headers : List Header) : Prop :=
  ∀ e ∈ headers, latin1Lower e.1 ∈ headers.map Prod.fst

def LowerCase (headers : List Header) : Prop := ∀ e ∈ headers, latin1Lower e.1 = e.1

instance (headers : List Header) : Decidable (LowerCase headers) :=
  inferInstanceAs (Decidable (∀ e ∈ headers, latin1Lower e.1 = e.1))

/-- The headers but for Content-Length and X-Request-ID. -/
def keptName (name : Bytes) : Bool := name ≠ contentLengthKey ∧ name ≠ requestIdKey

def kept (headers : List Header) : List Header := headers.filter fun e => keptName e.1

/-- The same response but for these two headers, in whatever order the others come. -/
structure Response.SameAs (r r' : Response) : Prop where
  status : r.status = r'.status
  content : r.content = r'.content
  headers : (kept r.rawHeaders).Perm (kept r'.rawHeaders)

/-- The text that the mapping answers to a name. -/
def firstValue (headers : List Header) (name : Bytes) : String := (headerGet headers name).getD ""

/-- The dictionary, where there is one. -/
def firstValues (headers : List Header) : List (Bytes × Tree) :=
  pyDict (headers.map fun e => (e.1, .str (firstValue headers e.1)))

/-- The raw headers, where all values can be encoded. -/
def encoded (headers : List (Bytes × Tree)) : List Header :=
  headers.map fun e => (latin1Lower e.1, (encodeHeader e.2).getD [])

section headers
variable {headers : List Header} {name : Bytes} {d : List (Bytes × Tree)} {content : Bytes}
  {status : ℕ} {requestId : Tree}

theorem LowerCase.namesReadable (h : LowerCase headers) : NamesReadable headers := by
  intro e he
  rw [h e he]
  exact List.mem_map_of_mem he

theorem headersDict_eq (headers : List Header) [Decidable (NamesReadable headers)] :
    headersDict headers = if NamesReadable headers then some (firstValues headers) else none := by
  have hnames : (∀ e ∈ headers, ((headerGet headers e.1).map fun value =>
      (e.1, (.str value : Tree))).isSome) ↔ NamesReadable headers := by
    apply forall₂_congr
    intro e _
    rw [Option.isSome_map, headerGet, Option.isSome_map]
    exact pyGet_isSome_iff
  unfold headersDict
  rw [mapM_eq_ite _ fun e => (e.1, (.str (firstValue headers e.1) : Tree))]
  · split
    · rename_i hall
      rw [if_pos (hnames.mp hall)]
      rfl
    · rename_i hall
      rw [if_neg (mt hnames.mpr hall)]
      rfl
  · intro e y hy
    obtain ⟨value, hvalue, rfl⟩ := Option.map_eq_some_iff.mp hy
    simp [firstValue, hvalue]

theorem Response.init_eq (content : Bytes) (status : ℕ) (headers : List (Bytes × Tree)) :
    Response.init content status headers =
      if ∀ e ∈ headers, (encodeHeader e.2).isSome then
        some ⟨status, populateContentLength content status (encoded headers), .bytes content⟩
      else none := by
  unfold Response.init
  rw [mapM_eq_ite _ fun e => (latin1Lower e.1, (encodeHeader e.2).getD [])]
  · simp only [Option.isSome_map]
    split <;> rfl
  · intro e y hy
    obtain ⟨value, hvalue, rfl⟩ := Option.map_eq_some_iff.mp hy
    simp [hvalue]

theorem encodeHeader_of_mem_firstValues {e : Bytes × Tree} (he : e ∈ firstValues headers) :
    (encodeHeader e.2).isSome := by
  obtain ⟨e', -, rfl⟩ := List.mem_map.mp (mem_of_mem_pyDict he)
  cases hvalue : headerGet headers e'.1 with
  | none => simp [firstValue, hvalue, encodeHeader, latin1]
  | some value =>
    obtain ⟨data, -, rfl⟩ := Option.map_eq_some_iff.mp hvalue
    simp [firstValue, hvalue, encodeHeader]

@[simp] theorem kept_populateContentLength (content : Bytes) (status : ℕ) (headers : List Header) :
    kept (populateContentLength content status headers) = kept headers := by
  unfold populateContentLength
  split
  · rfl
  · simp [kept, keptName]

theorem lowerCase_encoded (d : List (Bytes × Tree)) : LowerCase (encoded d) := by
  intro e he
  obtain ⟨e', -, rfl⟩ := List.mem_map.mp he
  exact latin1Lower_latin1Lower e'.1

theorem lowerCase_of_kept (h : LowerCase (kept headers)) : LowerCase headers := by
  intro e he
  by_cases hkept : keptName e.1
  · exact h e (List.mem_filter.mpr ⟨he, hkept⟩)
  · have hspecial : e.1 = contentLengthKey ∨ e.1 = requestIdKey := by
      simpa [keptName, or_iff_not_imp_left] using hkept
    rcases hspecial with h | h
    · rw [h]
      decide
    · rw [h]
      decide

end headers

end BaseWebService.Middleware
