import BaseWebService.Logging.RequestLog
import BaseWebService.Middleware.Response
import BaseWebService.Middleware.Stack

/-!
# Logging requests

`LogRequestMiddleware.dispatch` of `core/middlewares/log_request.py`, from the request whose body it
has read to the response it returns. A JSON response is read to its end and built anew, with the
identifier of the request among its headers. Whatever raises outside the `try` blocks raises out of
`dispatch`, and `none` stands for it.
-/

namespace BaseWebService.Middleware

open Library
open Logging (Tree Key LogField Allocator Environment)

/-- What `dispatch` is built with besides what logs a request. -/
structure LogRuntime extends Environment where
  /-- `json.loads` of bytes, `none` where it raises. -/
  loadsBytes : Bytes → Option Tree
  /-- `json.dumps`, as bytes. -/
  dumps : Tree → Bytes
  /-- Whether redacting a value and writing it out stays within the recursion limit; beyond it
  there is a `RecursionError`. -/
  fits : Tree → Bool
  fits_none : fits (.scalar .none) = true

/-- A request that the middleware is called with: header values come decoded from Latin-1, and
`body` is what `request.body()` has cached. -/
structure HttpRequest extends Logging.Request where
  decoded : ∀ e ∈ headers, (latin1 e.2).isSome

/-- `bool(value)`. -/
def truthy : Tree → Bool
  | .scalar .none => false
  | .scalar (.bool b) => b
  | .scalar (.int n) => n ≠ 0
  | .scalar (.float repr) => repr ≠ "0.0" ∧ repr ≠ "-0.0"
  | .str text => text ≠ ""
  | .other _ (.bytes data) => data ≠ []
  | .other _ (.object _ _) => true
  | .mapping _ entries => !entries.isEmpty
  | .seq _ _ items => !items.isEmpty

/-- The request after `await request.body()`, which write methods alone do and which may fail. -/
def HttpRequest.afterBody (request : HttpRequest) (received : Option Bytes) : HttpRequest :=
  { request with body := if writeMethods.contains request.method then received else none }

/-- `"application/json" in content_type`. -/
def Response.isJson (response : Response) : Bool :=
  pyContains ((headerGet response.rawHeaders (bytesOf "content-type")).getD "") "application/json"

namespace LogRuntime

variable (rt : LogRuntime)

/-- `json.loads(body_bytes)`, where there are any and they are the text of an object. -/
def bodyJson (request : HttpRequest) : Option (List (Key × Tree)) :=
  match request.body.getD [] with
  | [] => none
  | body =>
    match rt.loadsBytes body with
    | some (.mapping _ bodyJson) => some bodyJson
    | _ => none

/-- `body_json.get("request_id", "")`, and the empty text without a JSON object. -/
def bodyRequestId (request : HttpRequest) : Tree :=
  ((rt.bodyJson request).bind fun bodyJson => pyGet bodyJson (.str "request_id")).getD (.str "")

def getRequestId (request : HttpRequest) : Tree :=
  let requestId := rt.bodyRequestId request
  if truthy requestId then requestId else .str ((pyGet request.headers "x-request-id").getD "")

/-- All that goes into the log record of a request stays within the recursion limit. -/
def fitsRequest (request : HttpRequest) : Bool :=
  rt.fits (rt.logged request.toRequest .headers) && rt.fits (rt.logged request.toRequest .body) &&
    rt.fits (rt.logged request.toRequest .queryParams) &&
    rt.fits (rt.logged request.toRequest .pathParams)

/-- `serialize_for_log(request)`. -/
def serializeRequest (alloc : LogField → Allocator) (request : HttpRequest) : Option Tree :=
  if rt.fitsRequest request then some (rt.serializeRequestForLog alloc request.toRequest) else none

/-- `_parse_response_body(response)`: `None` for a body that is not there or not JSON. -/
def parseResponseBody (response : Response) : Tree :=
  match response.body with
  | .stream _ => .scalar .none
  | .bytes content => ((rt.decodeUtf8 content).bind rt.loads).getD (.scalar .none)

/-- `serialize_for_log(response)`. -/
def serializeResponse (a : Allocator) (response : Response) : Option Tree :=
  let content := rt.parseResponseBody response
  if rt.fits content then
    some (.mapping () [(.str "status_code", .scalar (.int response.status)),
      (.str "content_type",
        ((headerGet response.rawHeaders (bytesOf "content-type")).map .str).getD (.scalar .none)),
      (.str "content", rt.redactNew a content)])
  else none

def errorContent : Tree :=
  .mapping () [(.str "success", .scalar (.bool false)), (.str "status_code", .scalar (.int 500)),
    (.str "message", .str "Internal server error"), (.str "data", .seq .list () []),
    (.str "extra", .mapping () [])]

def buildErrorResponse : Response :=
  let content := rt.dumps errorContent
  { status := 500
    rawHeaders := [(contentLengthKey, bytesOf (pyStr content.length)),
      (bytesOf "content-type", bytesOf "application/json")]
    body := .bytes content }

/-- The dictionary of headers that the new response is built with. -/
def editHeaders (request : HttpRequest) (headers : List (Bytes × Tree)) : List (Bytes × Tree) :=
  (pySet headers requestIdKey (rt.getRequestId request)).filter fun e => e.1 ≠ contentLengthKey

/-- The response that takes the place of one whose stream has been read. -/
def rebuild (request : HttpRequest) (response : Response) : Option Response := do
  let headers ← headersDict response.rawHeaders
  Response.init response.content response.status (rt.editHeaders request headers)

/-- The response that goes out for one that `call_next` has returned. -/
def outgoing (request : HttpRequest) (response : Response) : Option Response :=
  if response.isJson then rt.rebuild request response else some response

/-- `dispatch`, given what `request.body()` and `call_next` do; `none` stands for what they
raise. -/
def dispatch (alloc : LogField → Allocator) (a : Allocator) (request : HttpRequest)
    (received : Option Bytes) (callNext : Option Response) : Option Response := do
  let request := request.afterBody received
  let _ ← rt.serializeRequest alloc request
  match callNext with
  | none =>
    let response := rt.buildErrorResponse
    let _ ← rt.serializeResponse a response
    return response
  | some response =>
    let response ← rt.outgoing request response
    let _ ← rt.serializeResponse a response
    return response

/-- The member `request_id` of the body, if there is one, is false or text in Latin-1. -/
def IdSendable (request : HttpRequest) : Prop :=
  ∀ bodyJson ∈ rt.bodyJson request, ∀ requestId ∈ pyGet bodyJson (.str "request_id"),
    truthy requestId → ∃ text, requestId = .str text ∧ (latin1 text).isSome

/-- The JSON of a body stays within the recursion limit. -/
def fitsContent (content : Bytes) : Bool :=
  rt.fits (rt.parseResponseBody ⟨200, [], .bytes content⟩)

/-- The response that is built anew. -/
def rebuilt (request : HttpRequest) (status : ℕ) (headers : List Header) (content : Bytes) :
    Response where
  status := status
  rawHeaders := populateContentLength content status
    (encoded (rt.editHeaders request (firstValues headers)))
  body := .bytes content

section rebuild
variable {rt : LogRuntime} {request : HttpRequest} {received : Option Bytes} {status : ℕ}
  {headers : List Header} {chunks : List Bytes} {content : Bytes} {returned : Response}

theorem encodeHeader_isSome_iff {value : Tree} :
    (encodeHeader value).isSome ↔ ∃ text, value = .str text ∧ (latin1 text).isSome := by
  cases value <;> simp [encodeHeader]

theorem header_encodable (request : HttpRequest) (name : String) :
    (latin1 ((pyGet request.headers name).getD "")).isSome := by
  cases hvalue : pyGet request.headers name with
  | none => rfl
  | some value => exact request.decoded _ (mem_of_pyGet hvalue)

/-- What is sent back as the identifier of the request can be encoded if the body lets it. -/
theorem getRequestId_encodable_iff :
    (encodeHeader (rt.getRequestId request)).isSome ↔ rt.IdSendable request := by
  unfold getRequestId
  constructor
  · intro hsome bodyJson hbody requestId hget htruthy
    have hid : rt.bodyRequestId request = requestId := by
      simp [bodyRequestId, Option.mem_def.mp hbody, Option.mem_def.mp hget]
    rw [hid, if_pos htruthy] at hsome
    exact encodeHeader_isSome_iff.mp hsome
  · intro hsendable
    by_cases htruthy : truthy (rt.bodyRequestId request)
    · rw [if_pos htruthy]
      apply encodeHeader_isSome_iff.mpr
      cases hget : (rt.bodyJson request).bind fun bodyJson =>
          pyGet bodyJson (.str "request_id") with
      | none => simp [bodyRequestId, hget, truthy] at htruthy
      | some requestId =>
        obtain ⟨bodyJson, hbody, hmember⟩ := Option.bind_eq_some_iff.mp hget
        have hid : rt.bodyRequestId request = requestId := by
          simp [bodyRequestId, hget]
        rw [hid] at htruthy ⊢
        exact hsendable bodyJson hbody requestId hmember htruthy
    · rw [if_neg htruthy]
      exact header_encodable request _

/-- The only header that may keep a response from being built is the identifier. -/
theorem editHeaders_encodable_iff :
    (∀ e ∈ rt.editHeaders request (firstValues headers), (encodeHeader e.2).isSome) ↔
      (encodeHeader (rt.getRequestId request)).isSome := by
  unfold editHeaders
  constructor
  · intro hall
    apply hall (requestIdKey, rt.getRequestId request)
    have hne : requestIdKey ≠ contentLengthKey := by decide
    exact List.mem_filter.mpr ⟨mem_pySet_self, decide_eq_true hne⟩
  · intro hsome e he
    rcases mem_of_mem_pySet (List.mem_filter.mp he).1 with rfl | he
    · exact hsome
    · exact encodeHeader_of_mem_firstValues he

theorem rebuild_eq_some_iff :
    rt.rebuild request (streaming status headers chunks) = some returned ↔
      NamesReadable headers ∧ rt.IdSendable request ∧
        returned = rt.rebuilt request status headers chunks.flatten := by
  classical
  unfold rebuild
  rw [headersDict_eq]
  by_cases hnames : NamesReadable headers
  · rw [if_pos hnames, ← getRequestId_encodable_iff, ← editHeaders_encodable_iff]
    simp only [Option.bind_eq_bind, Option.bind_some, Response.init_eq]
    split
    · rename_i hall
      constructor
      · exact fun h => ⟨hnames, hall, (Option.some.inj h).symm⟩
      · exact fun h => congrArg some h.2.2.symm
    · rename_i hall
      constructor
      · exact fun h => nomatch h
      · exact fun h => absurd h.2.1 hall
  · simp [hnames]

/-- What `dispatch` returns was logged before. -/
theorem dispatch_eq_some_iff (alloc : LogField → Allocator) (a : Allocator) (inner : Response) :
    rt.dispatch alloc a request received (some inner) = some returned ↔
      rt.fitsRequest (request.afterBody received) ∧
        rt.outgoing (request.afterBody received) inner = some returned ∧
          rt.fits (rt.parseResponseBody returned) := by
  unfold dispatch serializeRequest serializeResponse
  by_cases hrequest : rt.fitsRequest (request.afterBody received)
  · cases hnew : rt.outgoing (request.afterBody received) inner with
    | none => simp [hrequest, hnew]
    | some response => by_cases hfits : rt.fits (rt.parseResponseBody response) <;> grind
  · simp [hrequest]

/-- A response that is not JSON is handed on as it is. -/
theorem dispatch_other (alloc : LogField → Allocator) (a : Allocator)
    (hother : ¬(streaming status headers chunks).isJson) :
    rt.dispatch alloc a request received (some (streaming status headers chunks)) = some returned ↔
      rt.fitsRequest (request.afterBody received) ∧
        returned = streaming status headers chunks := by
  rw [dispatch_eq_some_iff, outgoing, if_neg hother]
  apply and_congr_right
  intro _
  constructor
  · exact fun h => (Option.some.inj h.1).symm
  · rintro rfl
    exact ⟨rfl, rt.fits_none⟩

/-- A JSON response is returned as it was built anew, if everything that is logged stays within the
recursion limit and everything that is sent can be encoded. -/
theorem dispatch_json (alloc : LogField → Allocator) (a : Allocator)
    (hjson : (streaming status headers chunks).isJson) :
    rt.dispatch alloc a request received (some (streaming status headers chunks)) = some returned ↔
      rt.fitsRequest (request.afterBody received) ∧ rt.fitsContent chunks.flatten ∧
        NamesReadable headers ∧ rt.IdSendable (request.afterBody received) ∧
          returned = rt.rebuilt (request.afterBody received) status headers chunks.flatten := by
  rw [dispatch_eq_some_iff, outgoing, if_pos hjson, rebuild_eq_some_iff]
  apply and_congr_right
  intro _
  constructor
  · rintro ⟨⟨hnames, hid, rfl⟩, hfits⟩
    exact ⟨hfits, hnames, hid, rfl⟩
  · rintro ⟨hfits, hnames, hid, rfl⟩
    exact ⟨⟨hnames, hid, rfl⟩, hfits⟩

/-- The names of the new response are in lower case. -/
theorem lowerCase_rebuilt :
    LowerCase (kept (rt.rebuilt request status headers content).rawHeaders) := by
  intro e he
  rw [rebuilt, kept_populateContentLength] at he
  exact lowerCase_encoded _ e (List.mem_of_mem_filter he)

/-- Editing the dictionary changes no header but the two. -/
theorem filter_editHeaders (d : List (Bytes × Tree)) :
    (rt.editHeaders request d).filter (fun e => keptName e.1) =
      d.filter fun e => keptName e.1 := by
  have hkept : ∀ e : Bytes × Tree,
      (keptName e.1 && decide (e.1 ≠ contentLengthKey)) = keptName e.1 := by
    intro e
    cases hname : keptName e.1 with
    | false => rfl
    | true => simp_all [keptName]
  have hid : ¬keptName requestIdKey := by decide
  unfold editHeaders
  rw [List.filter_filter, List.filter_congr fun e _ => hkept e, filter_pySet, if_neg hid]

theorem lowerCase_editHeaders (hlower : LowerCase headers) {e : Bytes × Tree}
    (he : e ∈ rt.editHeaders request (firstValues headers)) : latin1Lower e.1 = e.1 := by
  rcases mem_of_mem_pySet (List.mem_filter.mp he).1 with rfl | he
  · show latin1Lower requestIdKey = requestIdKey
    decide
  · obtain ⟨e', he', rfl⟩ := List.mem_map.mp (mem_of_mem_pyDict he)
    exact hlower e' he'

theorem encodeHeader_firstValue {name : Bytes} (hlower : latin1Lower name = name) :
    (encodeHeader (.str (firstValue headers name))).getD [] = (pyGet headers name).getD [] := by
  unfold firstValue headerGet
  rw [hlower]
  cases pyGet headers name with
  | none => rfl
  | some data => simp [encodeHeader]

/-- Each name is left with its first value. -/
theorem kept_rebuilt (hlower : LowerCase headers) :
    kept (rt.rebuilt request status headers content).rawHeaders =
      pyDict ((kept headers).map fun e => (e.1, (pyGet headers e.1).getD [])) := by
  have hencoded : encoded (rt.editHeaders request (firstValues headers)) =
      (rt.editHeaders request (firstValues headers)).map fun e =>
        (e.1, (encodeHeader e.2).getD []) := by
    apply List.map_congr_left
    intro e he
    rw [lowerCase_editHeaders hlower he]
  calc kept (rt.rebuilt request status headers content).rawHeaders
    _ = ((rt.editHeaders request (firstValues headers)).filter fun e => keptName e.1).map
        fun e => (e.1, (encodeHeader e.2).getD []) := by
      rw [rebuilt, kept_populateContentLength, hencoded, kept, List.filter_map]
      rfl
    _ = (pyDict ((kept headers).map fun e => (e.1, .str (firstValue headers e.1)))).map
        fun e => (e.1, (encodeHeader e.2).getD []) := by
      rw [filter_editHeaders, firstValues, filter_pyDict, List.filter_map]
      rfl
    _ = pyDict ((kept headers).map fun e => (e.1, (pyGet headers e.1).getD [])) := by
      rw [map_pyDict fun value => (encodeHeader value).getD [], List.map_map]
      congr 1
      apply List.map_congr_left
      intro e he
      exact congrArg (Prod.mk e.1)
        (encodeHeader_firstValue (hlower e (List.mem_of_mem_filter he)))

/-- The new response has the headers of the old one if their names are in lower case and occur
once. -/
theorem kept_rebuilt_perm_iff :
    (kept (rt.rebuilt request status headers content).rawHeaders).Perm (kept headers) ↔
      LowerCase headers ∧ ((kept headers).map Prod.fst).Nodup := by
  constructor
  · intro hperm
    have hlower : LowerCase headers := by
      apply lowerCase_of_kept
      intro e he
      exact lowerCase_rebuilt e (hperm.mem_iff.mpr he)
    rw [kept_rebuilt hlower] at hperm
    exact ⟨hlower, (hperm.map Prod.fst).nodup_iff.mp (nodup_keys_pyDict _)⟩
  · rintro ⟨hlower, hnodup⟩
    have hfirst : ∀ e ∈ kept headers, (e.1, (pyGet headers e.1).getD []) = e := by
      intro e he
      have hkept : keptName e.1 := (List.mem_filter.mp he).2
      have hvalue : pyGet headers e.1 = some e.2 :=
        (pyGet_filter hkept headers).symm.trans (pyGet_of_mem hnodup he)
      rw [hvalue]
      rfl
    rw [kept_rebuilt hlower, List.map_congr_left hfirst, List.map_id', pyDict_eq_self hnodup]

end rebuild

end LogRuntime

/-! ## A response with two cookies, and an identifier that is a number -/

/-- The text `\x7b"request_id":` with a value for the member. -/
def requestIdText (value : String) : Bytes := bytesOf ("\x7b\"request_id\":" ++ value ++ "\x7d")

/-- What Python makes of the texts that occur below; nothing in them is nested deeply. -/
def sampleRuntime : LogRuntime where
  toEnvironment := Logging.sampleEnvironment
  loadsBytes body := pyGet
    [(requestIdText "5", .mapping () [(.str "request_id", .scalar (.int 5))]),
      (requestIdText "\"r2\"", .mapping () [(.str "request_id", .str "r2")])] body
  dumps _ := bytesOf ("\x7b\"success\": false, \"status_code\": 500, " ++
    "\"message\": \"Internal server error\", \"data\": [], \"extra\": \x7b\x7d\x7d")
  fits _ := true
  fits_none := rfl

def samplePost : HttpRequest where
  method := "POST"
  baseUrl := "http://localhost/items"
  queryString := ""
  clientHost := some "10.0.0.1"
  headers := [("x-request-id", "r1")]
  body := none
  pathParams := []
  decoded := by decide

def cookie (value : String) : Header := (bytesOf "set-cookie", bytesOf value)

/-- A JSON response with some more headers, its body in two chunks. -/
def jsonStream (more : List Header) : Response :=
  streaming 200 ((bytesOf "content-type", bytesOf "application/json") :: more)
    [bytesOf "\x7b\"password\"", bytesOf ":0\x7d"]

end BaseWebService.Middleware
