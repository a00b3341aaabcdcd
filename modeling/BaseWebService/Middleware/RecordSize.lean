import BaseWebService.Logging.NormalForm
import BaseWebService.Logging.Truncation
import BaseWebService.Middleware.LogRequest

/-!
# The size of a log record

How many bytes `json.dumps` takes for what `serialize_for_log` makes of a request, a response and
plain values. A dictionary is measured before it is stored; lists, texts and the content of a
response are not, so of these no bound can be given.
-/

namespace BaseWebService.Middleware

open Library
open Logging (Tree Key Scalar Opaque PyValue LogField Allocator Environment Redacted Runtime)

/-! ## The JSON encoding -/

/-- What `json.dumps` writes for a character; all but printable ASCII is escaped. -/
def charSize (c : Char) : ℕ :=
  if c ∈ ['"', '\\', '\n', '\r', '\t', '\x08', '\x0c'] then 2
  else if ' ' ≤ c ∧ c ≤ '~' then 1
  else if c.toNat < 0x10000 then 6
  else 12

def textSize (text : String) : ℕ := 2 + (text.toList.map charSize).sum

def scalarSize : Scalar → ℕ
  | .none => 4
  | .bool b => if b then 4 else 5
  | .int n => (pyStr n).length
  | .float repr =>
    if repr = "nan" then 3 else if repr = "inf" then 8 else if repr = "-inf" then 9
    else repr.length

/-- A byte in the `repr` of bytes. -/
def byteRepr (quote : Char) (b : UInt8) : List Char :=
  let c := Char.ofNat b.toNat
  if c = quote ∨ c = '\\' then ['\\', c]
  else if c = '\t' then ['\\', 't']
  else if c = '\n' then ['\\', 'n']
  else if c = '\r' then ['\\', 'r']
  else if ' ' ≤ c ∧ c ≤ '~' then [c]
  else ['\\', 'x', Nat.digitChar (b.toNat / 16), Nat.digitChar (b.toNat % 16)]

/-- `str(data)` of bytes: double quotes only where there is a single one inside and no double. -/
def bytesRepr (data : Bytes) : String :=
  let single := UInt8.ofNat '\''.toNat
  let double := UInt8.ofNat '"'.toNat
  let quote := if single ∈ data ∧ double ∉ data then '"' else '\''
  String.ofList ('b' :: quote :: data.flatMap (byteRepr quote) ++ [quote])

/-- What `default=str` makes of an object. -/
def opaqueText : Opaque → String
  | .bytes data => bytesRepr data
  | .object _ text => text

mutual

/-- `len(json.dumps(value, default=str).encode("utf-8"))`, for a value whose sequences are lists. -/
def jsonSize : Tree → ℕ
  | .scalar x => scalarSize x
  | .str text => textSize text
  | .other _ o => textSize (opaqueText o)
  | .mapping _ entries => 2 + entriesSize entries + 2 * (entries.length - 1)
  | .seq _ _ items => 2 + itemsSize items + 2 * (items.length - 1)

def entriesSize : List (Key × Tree) → ℕ
  | [] => 0
  | (key, value) :: entries => textSize key.text + 2 + jsonSize value + entriesSize entries

def itemsSize : List Tree → ℕ
  | [] => 0
  | value :: items => jsonSize value + itemsSize items

end

/-- What is documented of `json`: the encoding that is measured is the one above, and a number that
was parsed has no more digits than the interpreter converts. -/
structure LogRuntime.Measured (rt : LogRuntime) : Prop where
  dumps : ∀ t, rt.dumpsLength t = some (jsonSize t)
  scalars : ∀ text x, rt.loads text = some (.scalar x) → scalarSize x ≤ maxStrDigits + 1

/-! ## What is logged -/

/-- What `serialize_for_log` is called with. -/
inductive LogInput where
  | request (request : HttpRequest)
  | response (response : Response)
  | text (text : String)
  | dict (id : ℕ) (entries : List (Key × PyValue ℕ))
  | list (id : ℕ) (items : List (PyValue ℕ))

/-- The interpreter's memory at the calls of the redactor. -/
structure Stores where
  request : LogField → Allocator
  response : Allocator
  calls : ℕ → Allocator

/-- `record[name]`. -/
def fieldOf (name : String) : Tree → Tree
  | .mapping _ entries => (pyGet entries (.str name)).getD (.scalar .none)
  | t => t

/-- The field `body` of the record of a request, `content` of that of a response, and what is
logged of a plain value; `none` where `serialize_for_log` raises. -/
def LogRuntime.recorded (rt : LogRuntime) (stores : Stores) : LogInput → Option Tree
  | .request request => (rt.serializeRequest stores.request request).map (fieldOf "body")
  | .response response => (rt.serializeResponse stores.response response).map (fieldOf "content")
  | .text text => some (rt.serializeWith stores.calls (.str text) .start).1
  | .dict id entries => some (rt.serializeWith stores.calls (.mapping id entries) .start).1
  | .list id items => some (rt.serializeWith stores.calls (.seq .list id items) .start).1

inductive Shape where
  | atom
  | text
  | list
  | object
  deriving DecidableEq

/-- What `json.dumps` makes of a value; bytes become text. -/
def shape : Tree → Shape
  | .scalar _ => .atom
  | .str _ => .text
  | .other _ _ => .text
  | .mapping _ _ => .object
  | .seq _ _ _ => .list

inductive LogKind where
  | body (shape : Shape)
  | content (shape : Shape)
  | text
  | dict
  | list
  deriving DecidableEq

/-- The kind of what is logged; a body counts as what goes into redaction. -/
def LogRuntime.kind (rt : LogRuntime) : LogInput → LogKind
  | .request request => .body (shape (rt.loggedBody request.toRequest))
  | .response response => .content (shape (rt.parseResponseBody response))
  | .text _ => .text
  | .dict _ _ => .dict
  | .list _ _ => .list

/-- No body or one that is not a text or a list, no content or a number, a dictionary. -/
def LogKind.measured : LogKind → Bool
  | .body .atom => true
  | .body .object => true
  | .content .atom => true
  | .dict => true
  | _ => false

/-- `c` bytes above the setting are enough for all records of a kind. -/
def LogKind.BoundedBy (kind : LogKind) (c : ℕ) : Prop :=
  ∀ rt : LogRuntime, rt.Measured → 0 < rt.maxLogBodyBytes → ∀ (stores : Stores) (x : LogInput),
    rt.kind x = kind → ∀ t ∈ rt.recorded stores x, jsonSize t ≤ rt.maxLogBodyBytes + c

/-! ## What is measured before it is stored -/

namespace LogRuntime

variable {rt : LogRuntime} {stores : Stores}

/-- A dictionary that is too long is replaced. -/
theorem Measured.truncate_mapping (h : rt.Measured) (entries : List (Key × Tree)) :
    jsonSize (rt.truncateLogValue (.mapping () entries)) ≤ rt.maxLogBodyBytes + 37 := by
  have hmarker : jsonSize (.mapping () [(.str "type", .str "object"),
      (.str "truncated", .scalar (.bool true))]) = 37 := by decide
  rw [Environment.truncateLogValue, h.dumps]
  dsimp only
  split
  · rw [hmarker]
    omega
  · rename_i hshort
    omega

theorem fieldOf_body {alloc : LogField → Allocator} (request : HttpRequest) :
    fieldOf "body" (rt.serializeRequestForLog alloc request.toRequest) =
      rt.truncateLogValue (rt.redactNew (alloc .body) (rt.loggedBody request.toRequest)) := by
  simp [fieldOf, Environment.serializeRequestForLog, pyGet]

theorem fieldOf_content {a : Allocator} (response : Response) : ∀ record ∈
    rt.serializeResponse a response, fieldOf "content" record =
      rt.redactNew a (rt.parseResponseBody response) := by
  intro record hrecord
  unfold serializeResponse at hrecord
  dsimp only at hrecord
  split at hrecord
  · obtain rfl := Option.some.inj hrecord
    simp [fieldOf, pyGet]
  · cases hrecord

theorem redactNew_scalar (a : Allocator) (x : Scalar) :
    rt.redactNew a (.scalar x) = .scalar x := by
  have herase := a.erase_build .start [] (.scalar x)
  cases hbuild : a.build .start [] (.scalar x) with
  | scalar y =>
    rw [hbuild] at herase
    rw [Environment.redactNew, hbuild]
    exact herase
  | _ => simp [hbuild, PyValue.erase] at herase

/-- What is logged as a number, `True`, `False` or `None` is none, or was parsed. -/
theorem Measured.loggedBody_scalar (h : rt.Measured) {request : HttpRequest} {x : Scalar}
    (hbody : rt.loggedBody request.toRequest = .scalar x) : scalarSize x ≤ maxStrDigits + 1 := by
  unfold Environment.loggedBody at hbody
  split at hbody
  · injection hbody with hnone
    rw [← hnone]
    decide
  · split_ifs at hbody
    · cases hbody
    · rename_i body _ _ _
      cases hparse : (rt.decodeUtf8 body).bind rt.loads with
      | none => simp [hparse] at hbody
      | some t =>
        rw [hparse] at hbody
        obtain ⟨text, -, hloads⟩ := Option.bind_eq_some_iff.mp hparse
        obtain rfl : t = .scalar x := hbody
        exact h.scalars text x hloads

theorem Measured.content_scalar (h : rt.Measured) {response : Response} {x : Scalar}
    (hcontent : rt.parseResponseBody response = .scalar x) : scalarSize x ≤ maxStrDigits + 1 := by
  unfold parseResponseBody at hcontent
  split at hcontent
  · injection hcontent with hnone
    rw [← hnone]
    decide
  · rename_i content _
    cases hparse : (rt.decodeUtf8 content).bind rt.loads with
    | none =>
      rw [hparse] at hcontent
      injection hcontent with hnone
      rw [← hnone]
      decide
    | some t =>
      rw [hparse] at hcontent
      obtain ⟨text, -, hloads⟩ := Option.bind_eq_some_iff.mp hparse
      obtain rfl : t = .scalar x := hcontent
      exact h.scalars text x hloads

theorem shape_eq_atom {t : Tree} (h : shape t = .atom) : ∃ x, t = .scalar x := by
  cases t with
  | scalar x => exact ⟨x, rfl⟩
  | _ => cases h

theorem shape_eq_object {t : Tree} (h : shape t = .object) :
    ∃ entries, t = .mapping () entries := by
  cases t with
  | mapping _ entries => exact ⟨entries, rfl⟩
  | _ => cases h

/-- The kinds that are measured are bounded. -/
theorem boundedBy_of_measured {kind : LogKind} (hkind : kind.measured = true) :
    kind.BoundedBy (maxStrDigits + 1) := by
  intro rt hrt _ stores x hx t ht
  have hmapping : ∀ (a : Allocator) (entries : List (Key × Tree)),
      jsonSize (rt.truncateLogValue (rt.redactNew a (.mapping () entries))) ≤
        rt.maxLogBodyBytes + (maxStrDigits + 1) := by
    intro a entries
    obtain ⟨shown, -, hshown⟩ := @Environment.redactNew_mapping rt.toEnvironment a entries
    have hsize := hrt.truncate_mapping (pyDict shown)
    rw [hshown]
    have hmarker : 37 ≤ maxStrDigits + 1 := by decide
    omega
  cases x with
  | request request =>
    obtain ⟨record, hrecord, rfl⟩ := Option.map_eq_some_iff.mp ht
    unfold serializeRequest at hrecord
    split at hrecord
    · obtain rfl := Option.some.inj hrecord
      rw [fieldOf_body]
      obtain hatom | hobject : shape (rt.loggedBody request.toRequest) = .atom ∨
          shape (rt.loggedBody request.toRequest) = .object := by
        rw [← hx, LogRuntime.kind] at hkind
        cases hshape : shape (rt.loggedBody request.toRequest) <;>
          simp [hshape, LogKind.measured] at hkind ⊢
      · obtain ⟨y, hy⟩ := shape_eq_atom hatom
        have hsize := hrt.loggedBody_scalar hy
        rw [hy, redactNew_scalar]
        exact hsize.trans (Nat.le_add_left _ _)
      · obtain ⟨entries, hentries⟩ := shape_eq_object hobject
        rw [hentries]
        exact hmapping _ entries
    · cases hrecord
  | response response =>
    obtain ⟨record, hrecord, rfl⟩ := Option.map_eq_some_iff.mp ht
    rw [fieldOf_content response record hrecord]
    have hatom : shape (rt.parseResponseBody response) = .atom := by
      rw [← hx, LogRuntime.kind] at hkind
      cases hshape : shape (rt.parseResponseBody response) <;>
        simp [hshape, LogKind.measured] at hkind ⊢
    obtain ⟨y, hy⟩ := shape_eq_atom hatom
    have hsize := hrt.content_scalar hy
    rw [hy, redactNew_scalar]
    exact hsize.trans (Nat.le_add_left _ _)
  | dict id entries =>
    obtain rfl := Option.some.inj ht
    rw [Environment.serializeWith_mapping entries List.not_mem_nil]
    exact hmapping _ _
  | text | list =>
    rw [← hx] at hkind
    cases hkind

end LogRuntime

/-! ## Kinds without a bound -/

/-- A text of characters that take one byte in a body and six in a record. -/
def deletes (n : ℕ) : String := String.ofList (List.replicate n '\x7f')

/-- JSON around it. -/
def sampleJson (n : ℕ) : Shape → String
  | .list => "[\"" ++ deletes n ++ "\"]"
  | .object => "\x7b\"k\":\"" ++ deletes n ++ "\"\x7d"
  | _ => "\"" ++ deletes n ++ "\""

def sampleValue (n : ℕ) : Shape → Tree
  | .list => .seq .list () [.str (deletes n)]
  | .object => .mapping () [(.str "k", .str (deletes n))]
  | _ => .str (deletes n)

section samples
variable (n : ℕ) (s : Shape)

theorem length_deletes : (deletes n).length = n := by simp [deletes]

theorem toList_sampleJson : ∃ l r : List Char, (sampleJson n s).toList =
    l ++ List.replicate n '\x7f' ++ r ∧ 1 ≤ l.length ∧ l.length + r.length ≤ 9 ∧
      ∀ c ∈ l ++ r, pyIsSpace c = false ∧ c.toNat < 128 := by
  cases s with
  | list => exact ⟨"[\"".toList, "\"]".toList, by simp [sampleJson, deletes], by decide, by decide,
      by decide⟩
  | object => exact ⟨"\x7b\"k\":\"".toList, "\"\x7d".toList, by simp [sampleJson, deletes],
      by decide, by decide, by decide⟩
  | atom | text => exact ⟨"\"".toList, "\"".toList, by simp [sampleJson, deletes], by decide,
      by decide, by decide⟩

theorem sampleJson_chars : ∀ c ∈ (sampleJson n s).toList, pyIsSpace c = false ∧ c.toNat < 128 := by
  obtain ⟨l, r, htext, -, -, hchars⟩ := toList_sampleJson n s
  intro c hc
  rw [htext, List.append_assoc, List.mem_append, List.mem_append] at hc
  rcases hc with hc | hc | hc
  · exact hchars c (List.mem_append_left _ hc)
  · obtain ⟨-, rfl⟩ := List.mem_replicate.mp hc
    decide
  · exact hchars c (List.mem_append_right _ hc)

theorem length_sampleJson : n < (sampleJson n s).length ∧ (sampleJson n s).length ≤ n + 9 := by
  obtain ⟨l, r, htext, hl, hr, -⟩ := toList_sampleJson n s
  rw [← String.length_toList, htext]
  simp only [List.length_append, List.length_replicate]
  omega

theorem strings_sampleValue : (sampleValue n s).strings = [deletes n] := by cases s <;> rfl

/-- A record six times as long as the text in it. -/
theorem jsonSize_sampleValue : 6 * n ≤ jsonSize (sampleValue n s) := by
  have htext : textSize (deletes n) = 2 + 6 * n := by
    have hchar : charSize '\x7f' = 6 := by decide
    simp [textSize, deletes, hchar, Nat.mul_comm]
  cases s <;> simp [sampleValue, jsonSize, itemsSize, entriesSize, htext] <;> omega

/-- The one text and what Python parses it to. -/
def sampleLoads : Runtime where
  lower text := String.ofList (text.toList.map Char.toLower)
  loads text := if text = sampleJson n s then some (sampleValue n s) else none
  loads_shorter := by
    intro text t h u hu
    split at h
    · rename_i heq
      obtain rfl := Option.some.inj h
      rw [strings_sampleValue] at hu
      obtain rfl := List.mem_singleton.mp hu
      rw [length_deletes, heq]
      exact (length_sampleJson n s).1
    · cases h
  loads_strip := by
    intro text t h
    split at h
    · rename_i heq
      rw [heq, pyStrip_eq_self fun c hc => (sampleJson_chars n s c hc).1, if_pos rfl, h]
    · cases h
  loads_container := by
    intro text t h hopen
    split at h
    · rename_i heq
      obtain rfl := Option.some.inj h
      rw [heq] at hopen
      obtain ⟨cs, hcs⟩ := hopen
      cases s with
      | list | object => trivial
      | atom | text => simp [sampleJson] at hcs
    · cases h

/-- The setting is as long as the text. -/
def growing : LogRuntime where
  toRuntime := sampleLoads n s
  maxLogBodyBytes := (sampleJson n s).length
  decodeUtf8 := Logging.sampleEnvironment.decodeUtf8
  dumpsLength t := some (jsonSize t)
  url := Logging.sampleEnvironment.url
  parseQuery := Logging.sampleEnvironment.parseQuery
  url_injective := Logging.sampleEnvironment.url_injective
  loadsBytes body :=
    (Logging.sampleEnvironment.decodeUtf8 body).bind (sampleLoads n s).loads
  dumps := sampleRuntime.dumps
  fits _ := true
  fits_none := rfl

theorem growing_measured : (growing n s).Measured where
  dumps _ := rfl
  scalars := by
    intro text x h
    change (if text = sampleJson n s then some (sampleValue n s) else none) = _ at h
    split at h
    · cases s <;> cases h
    · cases h

theorem decode_sampleJson :
    (growing n s).decodeUtf8 (bytesOf (sampleJson n s)) = some (sampleJson n s) := by
  have hbyte : ∀ c : Char, c.toNat < 128 → (UInt8.ofNat c.toNat).toNat = c.toNat := by
    intro c hc
    simp
    omega
  have hascii : (bytesOf (sampleJson n s)).all (· < 128) = true := by
    refine List.all_eq_true.mpr fun b hb => ?_
    obtain ⟨c, hc, rfl⟩ := List.mem_map.mp hb
    have hlt := (sampleJson_chars n s c hc).2
    simp only [decide_eq_true_eq, UInt8.lt_iff_toNat_lt, hbyte c hlt]
    exact hlt
  have hback : (bytesOf (sampleJson n s)).map (fun b => Char.ofNat b.toNat) =
      (sampleJson n s).toList := by
    rw [bytesOf, List.map_map]
    refine (List.map_congr_left fun c hc => ?_).trans (List.map_id _)
    simp [hbyte c (sampleJson_chars n s c hc).2, Char.ofNat_toNat]
  change (if (bytesOf (sampleJson n s)).all (· < 128) then _ else none) = _
  rw [if_pos hascii, hback, String.ofList_toList]

theorem loads_sampleJson : (growing n s).loads (sampleJson n s) = some (sampleValue n s) :=
  if_pos rfl

theorem redacted_sampleValue : Redacted (sampleLoads (n + 1) s) (sampleValue (n + 1) s) := by
  have htext : Redacted (sampleLoads (n + 1) s) (.str (deletes (n + 1))) := by
    have hopen : (deletes (n + 1)).toList = '\x7f' :: List.replicate n '\x7f' := by
      simp [deletes, List.replicate_succ]
    exact .str (Runtime.parseText_of_open hopen (by decide))
  cases s with
  | list => exact .list (by simp) (by simpa using htext)
  | object =>
    have hkey : (sampleLoads (n + 1) .object).isSensitiveKey (.str "k") = false := by
      have hlower : (sampleLoads (n + 1) .object).lower "k" = "k" := rfl
      rw [Runtime.isSensitiveKey, Key.text, hlower]
      decide
    exact .mapping (by simp) (by simp [Key.text]) (by simp [hkey]) (by simpa using fun _ => htext)
  | atom | text => exact htext

/-- The value comes through redaction as it is. -/
theorem redactNew_sampleValue (a : Allocator) :
    (growing (n + 1) s).redactNew a (sampleValue (n + 1) s) = sampleValue (n + 1) s := by
  have herase := a.erase_build .start [] (sampleValue (n + 1) s)
  rw [Environment.redactNew, Runtime.redact_of_redacted (a.unshared_build _ _ _)]
  · exact herase
  · rw [herase]
    exact redacted_sampleValue n s

/-- A text and a list come through truncation as well. -/
theorem truncate_sampleValue (hs : s ≠ .object) :
    (growing n s).truncateLogValue (sampleValue n s) = sampleValue n s := by
  have hlimit : (growing n s).maxLogBodyBytes = (sampleJson n s).length := rfl
  have hlength := (length_sampleJson n s).1
  cases s with
  | list => rfl
  | object => exact absurd rfl hs
  | atom | text =>
    refine if_neg ?_
    rw [length_deletes, hlimit]
    omega

/-- A request with the text for its body. -/
def sampleRequest : HttpRequest where
  method := "POST"
  baseUrl := "http://localhost/items"
  queryString := ""
  clientHost := none
  headers := [("content-type", "application/json")]
  body := some (bytesOf (sampleJson n s))
  pathParams := []
  decoded := by decide

theorem loggedBody_sampleRequest :
    (growing n s).loggedBody (sampleRequest n s).toRequest = sampleValue n s := by
  have hlimit : ¬ (growing n s).maxLogBodyBytes < (bytesOf (sampleJson n s)).length := by
    rw [bytesOf, List.length_map, String.length_toList]
    exact Nat.lt_irrefl _
  have hjson : (sampleRequest n s).toRequest.contentType = some "application/json" := rfl
  have hbody : (sampleRequest n s).toRequest.body = some (bytesOf (sampleJson n s)) := rfl
  rw [Environment.loggedBody, hbody]
  dsimp only
  rw [if_neg hlimit, if_pos hjson, decode_sampleJson, Option.bind_some, loads_sampleJson]
  rfl

theorem content_sampleJson :
    (growing n s).parseResponseBody ⟨200, [], .bytes (bytesOf (sampleJson n s))⟩ =
      sampleValue n s := by
  rw [LogRuntime.parseResponseBody]
  dsimp only
  rw [decode_sampleJson, Option.bind_some, loads_sampleJson]
  rfl

variable (stores : Stores)

theorem recorded_sampleRequest (hs : s ≠ .object) :
    (growing (n + 1) s).recorded stores (.request (sampleRequest (n + 1) s)) =
      some (sampleValue (n + 1) s) := by
  have hrecord : (growing (n + 1) s).serializeRequest stores.request (sampleRequest (n + 1) s) =
      some ((growing (n + 1) s).serializeRequestForLog stores.request
        (sampleRequest (n + 1) s).toRequest) := rfl
  rw [LogRuntime.recorded, hrecord, Option.map_some, LogRuntime.fieldOf_body,
    loggedBody_sampleRequest, redactNew_sampleValue, truncate_sampleValue _ s hs]

theorem recorded_sampleResponse :
    (growing (n + 1) s).recorded stores
        (.response ⟨200, [], .bytes (bytesOf (sampleJson (n + 1) s))⟩) =
      some (sampleValue (n + 1) s) := by
  have hcontent := content_sampleJson (n + 1) s
  rw [LogRuntime.recorded]
  cases hrecord : (growing (n + 1) s).serializeResponse stores.response
      ⟨200, [], .bytes (bytesOf (sampleJson (n + 1) s))⟩ with
  | none => cases hrecord
  | some record =>
    rw [Option.map_some, LogRuntime.fieldOf_content _ record hrecord, hcontent,
      redactNew_sampleValue]

/-- A list with the text in it. -/
theorem recorded_list :
    (growing (n + 1) .list).recorded stores (.list 0 [.str (deletes (n + 1))]) =
      some (sampleValue (n + 1) .list) := by
  rw [LogRuntime.recorded, Environment.serializeWith_seq _ _ List.not_mem_nil]
  exact congrArg some ((congrArg _ (redactNew_sampleValue n .list _)).trans
    (truncate_sampleValue (n + 1) .list (by decide)))

end samples

/-- For a kind that is not measured there is no bound. -/
theorem not_boundedBy {kind : LogKind} (hkind : kind.measured = false) (c : ℕ) :
    ¬ kind.BoundedBy c := by
  -- An input of the kind whose record is six times as long as the setting, but for a few bytes.
  have hlong : ∀ s : Shape, ∀ x : LogInput, (growing (c + 2) s).kind x = kind →
      (∀ stores, (growing (c + 2) s).recorded stores x = some (sampleValue (c + 2) s)) →
      ¬ kind.BoundedBy c := by
    intro s x hx hrecorded hbounded
    have hsize := hbounded (growing (c + 2) s) (growing_measured _ s)
      (Nat.zero_lt_of_lt (length_sampleJson (c + 2) s).1) ⟨fun _ => .stack, .stack, fun _ => .stack⟩
      x hx _ (Option.mem_def.mpr (hrecorded _))
    have hlower := jsonSize_sampleValue (c + 2) s
    have hlimit : (growing (c + 2) s).maxLogBodyBytes ≤ c + 2 + 9 :=
      (length_sampleJson (c + 2) s).2
    omega
  have hshape : ∀ s : Shape, s ≠ .atom → shape (sampleValue (c + 2) s) = s := by
    intro s hs
    cases s with
    | atom => exact absurd rfl hs
    | _ => rfl
  cases kind with
  | body s =>
    have hs : s ≠ .object ∧ s ≠ .atom := by
      cases s <;> simp [LogKind.measured] at hkind ⊢
    refine hlong s (.request (sampleRequest (c + 2) s)) ?_ fun stores =>
      recorded_sampleRequest (c + 1) s stores hs.1
    rw [LogRuntime.kind, loggedBody_sampleRequest, hshape s hs.2]
  | content s =>
    have hs : s ≠ .atom := by
      cases s <;> simp [LogKind.measured] at hkind ⊢
    refine hlong s (.response ⟨200, [], .bytes (bytesOf (sampleJson (c + 2) s))⟩) ?_ fun stores =>
      recorded_sampleResponse (c + 1) s stores
    rw [LogRuntime.kind, content_sampleJson, hshape s hs]
  | text => exact hlong .text (.text (deletes (c + 2))) rfl fun _ => rfl
  | list => exact hlong .list (.list 0 [.str (deletes (c + 2))]) rfl fun stores =>
      recorded_list (c + 1) stores
  | dict => cases hkind

/-- There is a number of bytes above the setting that is enough for all records of a kind exactly
if what is logged is measured, or is no more than a number. -/
theorem record_bounded_iff (kind : LogKind) : (∃ c, kind.BoundedBy c) ↔ kind.measured = true := by
  constructor
  · rintro ⟨c, hbounded⟩
    by_contra hkind
    exact not_boundedBy (Bool.eq_false_iff.mpr hkind) c hbounded
  · exact fun hkind => ⟨_, LogRuntime.boundedBy_of_measured hkind⟩

/-- No number of bytes above the setting is enough for the records of every kind. -/
theorem records_unbounded : ¬ ∃ c, ∀ kind : LogKind, kind.BoundedBy c := by
  rintro ⟨c, hbounded⟩
  exact not_boundedBy rfl c (hbounded (.content .object))

end BaseWebService.Middleware
