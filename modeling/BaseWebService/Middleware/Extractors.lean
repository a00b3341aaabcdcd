import BaseWebService.Library.PyNumber
import BaseWebService.Middleware.RecordSize

/-!
# What an audit document takes from a response

The extractors of `core/infra/system_log/tools.py`, which read a response, a dictionary or some
other object, and `_do_log_api_call` of `core/middlewares/log_request.py`, which calls them for the
document that it inserts. Two members deep, in `extra` and in its `resp_partner`, an extractor takes
whatever is true for a dictionary, and raises where it is none. Objects of other classes are taken
to be true and to have no `get`.
-/

namespace BaseWebService.Middleware

open Library
open Logging (Tree Key PyValue Scalar Opaque LogField Allocator strEntry eraseEntries)

/-! ## Attributes, members and numbers -/

/-- What the extractors are called with. Of an object there is its `str()` and what it has for
attributes. -/
inductive ResponseData where
  | response (response : Response)
  | dict (id : ℕ) (entries : List (Key × PyValue ℕ))
  | object (typeName text : String) (attributes : List (String × Tree))

def noneValue : Tree := .scalar .none

def attributeError : PyError := ⟨.attributeError, none⟩

/-- `response_data.name`. Of what the extractors ask for, a response has its status code alone, and
a dictionary has nothing. -/
def ResponseData.attribute (name : String) : ResponseData → Except PyError Tree
  | .response r =>
    if name = "status_code" then .ok (.scalar (.int r.status)) else .error attributeError
  | .dict _ _ => .error attributeError
  | .object _ _ attributes =>
    match pyGet attributes name with
    | some value => .ok value
    | none => .error attributeError

/-- `getattr(response_data, name, None)`. -/
def ResponseData.attributeOrNone (name : String) (data : ResponseData) : Tree :=
  (data.attribute name).toOption.getD noneValue

/-- `isinstance(value, dict)`. -/
def isDict : Tree → Bool
  | .mapping _ _ => true
  | _ => false

/-- `value.get(name, absent)`; nothing but a dictionary has a `get`. -/
def getMember (name : String) (absent value : Tree) : Except PyError Tree :=
  match value with
  | .mapping _ entries => .ok ((pyGet entries (.str name)).getD absent)
  | _ => .error attributeError

/-- `value.get(name) or value.get(other)`. -/
def getEither (name other : String) (value : Tree) : Except PyError Tree := do
  let member ← getMember name noneValue value
  if truthy member then return member else getMember other noneValue value

/-- What `int()` is told by a float and by an object. -/
structure Numbers where
  /-- The float that is shown so. -/
  ofRepr : String → PyFloat
  /-- `int()` of an object. -/
  ofObject : (typeName text : String) → Except PyError ℤ
  ofRepr_inf : ∀ {repr : String} {negative : Bool},
    ofRepr repr = .inf negative ↔ repr = if negative then "-inf" else "inf"

namespace Numbers

variable (numbers : Numbers)

def valueError : PyError := ⟨.valueError, none⟩

def typeError : PyError := ⟨.typeError, none⟩

/-- `int(value)`. -/
def toInt : Tree → Except PyError ℤ
  | .scalar .none => .error typeError
  | .scalar (.bool b) => .ok (if b then 1 else 0)
  | .scalar (.int n) => .ok n
  | .scalar (.float repr) => (numbers.ofRepr repr).toInt
  | .str text => (pyIntText 10 text).elim (.error valueError) .ok
  | .other _ (.bytes data) => (bytesInt data).elim (.error valueError) .ok
  | .other _ (.object typeName text) => numbers.ofObject typeName text
  | .mapping _ _ => .error typeError
  | .seq _ _ _ => .error typeError

/-- `except (ValueError, TypeError)`. -/
def caught (e : PyError) : Prop := e.type = .valueError ∨ e.type = .typeError

instance (e : PyError) : Decidable (caught e) :=
  inferInstanceAs (Decidable (e.type = .valueError ∨ e.type = .typeError))

/-- `status_code is not None and int(status_code) < 400`, and `False` if that is no number. -/
def isBelowError (statusCode : Tree) : Except PyError Tree :=
  match statusCode with
  | .scalar .none => .ok (.scalar (.bool false))
  | _ =>
    match numbers.toInt statusCode with
    | .ok n => .ok (.scalar (.bool (n < 400)))
    | .error e => if caught e then .ok (.scalar (.bool false)) else .error e

/-- A number that no integer stands for: an infinite float, and what an object says is none. -/
def Endless : Tree → Prop
  | .scalar (.float repr) => repr = "inf" ∨ repr = "-inf"
  | .other _ (.object typeName text) =>
    ∃ e, numbers.ofObject typeName text = .error e ∧ ¬caught e
  | _ => False

end Numbers

/-! ## The extractors -/

def emptyDict : Tree := .mapping () []

def zeroSeconds : Tree := .scalar (.float "0.0")

/-- `content` of the extractors. -/
def LogRuntime.contentOf (rt : LogRuntime) : ResponseData → Tree
  | .response response => rt.parseResponseBody response
  | .dict _ entries => .mapping () (eraseEntries entries)
  | .object _ _ _ => noneValue

def LogRuntime.getResponseMessage (rt : LogRuntime) : ResponseData → Except PyError Tree
  | .response response =>
    let content := rt.parseResponseBody response
    if isDict content then getEither "message" "messages" content else .ok noneValue
  | .dict _ entries => getEither "message" "messages" (.mapping () (eraseEntries entries))
  | data => .ok (data.attributeOrNone "message")

def getResponseStatusCode : ResponseData → Except PyError Tree
  | .response response => (ResponseData.response response).attribute "status_code"
  | .dict _ entries => getMember "status_code" noneValue (.mapping () (eraseEntries entries))
  | data => .ok (data.attributeOrNone "status_code")

/-- `absent` without `extra` or `resp_partner`, and otherwise what is read of the latter. -/
def readPartner (absent : Except PyError Tree) (read : Tree → Except PyError Tree)
    (content : Tree) : Except PyError Tree := do
  let extra ← getMember "extra" emptyDict content
  if !truthy extra then absent
  else
    let respPartner ← getMember "resp_partner" emptyDict extra
    if !truthy respPartner then absent else read respPartner

def LogRuntime.getResponseStatusCodePartner (rt : LogRuntime) (data : ResponseData) :
    Except PyError Tree :=
  if isDict (rt.contentOf data) then
    readPartner (data.attribute "status_code") (getEither "status_code" "status")
      (rt.contentOf data)
  else .ok (data.attributeOrNone "status_code_partner")

def LogRuntime.getExecutionTimePartner (rt : LogRuntime) (data : ResponseData) :
    Except PyError Tree :=
  if isDict (rt.contentOf data) then
    readPartner (.ok zeroSeconds) (getMember "execution_time" zeroSeconds) (rt.contentOf data)
  else .ok zeroSeconds

def getResponseSuccess (numbers : Numbers) (data : ResponseData) : Except PyError Tree :=
  match data with
  | .response response => .ok (.scalar (.bool (response.status < 400)))
  | .dict _ entries => do
    let content := eraseEntries entries
    match pyGet content (.str "success"), pyGet content (.str "error") with
    | some success, _ => return success
    | none, some error => return .scalar (.bool (!truthy error))
    | none, none => numbers.isBelowError (← getResponseStatusCode data)
  | .object _ _ _ => do
    match data.attributeOrNone "success" with
    | .scalar .none => numbers.isBelowError (← getResponseStatusCode data)
    | success => return success

/-! ## The document -/

/-- What the call was, the response apart. -/
structure ApiCall where
  requestPartner : Tree
  request : HttpRequest
  /-- `request.url.path`. -/
  path : String
  /-- `request.state.traceback`, if it is set. -/
  traceback : Option String
  executionTime : Scalar
  /-- `datetime.now(timezone.utc)`, as `str()` shows it, and its `timestamp()`. -/
  now : String
  timestamp : Scalar
  traceId : String

/-- The interpreter's memory at the calls of the redactor, those for the query included. -/
structure CallStores extends Stores where
  query : ℕ → Allocator

/-- `response_data_logged` with the traceback, if there is one. -/
def withTraceback (traceback : Option String) (record : Tree) : Tree :=
  match record, traceback with
  | .mapping id entries, some text => .mapping id (pySet entries (.str "traceback") (.str text))
  | _, _ => record

namespace LogRuntime

variable (rt : LogRuntime) (numbers : Numbers)

def buildRequestQueryParams (request : HttpRequest) : List (String × String) :=
  let preparedParams := pyDict (rt.parseQuery request.queryString)
  match pyGet preparedParams "system" with
  | some _ => preparedParams
  | none => pySet preparedParams "system" "unkown"

/-- `serialize_for_log(build_request_query_params(request))`, and nothing for a write method. -/
def queryRecord (stores : CallStores) (request : HttpRequest) : Option Tree :=
  if writeMethods.contains request.method then some emptyDict
  else
    let params := rt.buildRequestQueryParams request
    if rt.fits (.mapping () (params.map strEntry)) then
      some (rt.serializeWith stores.query
        (.mapping 0 (params.map fun e => (.str e.1, .str e.2))) .start).1
    else none

/-- `serialize_for_log(response)`. -/
def responseRecord (stores : CallStores) : ResponseData → Option Tree
  | .response response => rt.serializeResponse stores.response response
  | .dict id entries =>
    if rt.fits (rt.contentOf (.dict id entries)) then
      some (rt.serializeWith stores.calls (.mapping id entries) .start).1
    else none
  | .object _ text _ => some (.str text)

/-- The document that `_do_log_api_call` inserts. `none` stands for what it raises before, which
`_log_api_call` catches. -/
def doLogApiCall (stores : CallStores) (call : ApiCall) (data : ResponseData) : Option Tree := do
  let request := call.request
  let responseDataLogged ← rt.responseRecord stores data
  let requestData ← rt.serializeRequest stores.request request
  let queryParams ← rt.queryRecord stores request
  let statusCode ← (getResponseStatusCode data).toOption
  let statusCodePartner ← (rt.getResponseStatusCodePartner data).toOption
  let executionTimePartner ← (rt.getExecutionTimePartner data).toOption
  let message ← (rt.getResponseMessage data).toOption
  let success ← (getResponseSuccess numbers data).toOption
  return .mapping () [
    (.str "system_partner", call.requestPartner),
    (.str "method_call", .str request.method),
    (.str "return_type", .str "JSON"),
    (.str "base_uri", .str call.path),
    (.str "url", .str call.path),
    (.str "request_time", .other () (.object "datetime" call.now)),
    (.str "time_created", .scalar call.timestamp),
    (.str "request_data", requestData),
    (.str "query_params", queryParams),
    (.str "response_data", withTraceback call.traceback responseDataLogged),
    (.str "status_code", statusCode),
    (.str "execution_time", .scalar call.executionTime),
    (.str "status_code_partner", statusCodePartner),
    (.str "execution_time_partner", executionTimePartner),
    (.str "message", message),
    (.str "success", success),
    (.str "request_id", rt.getRequestId request),
    (.str "trace_id", .str call.traceId),
    (.str "ip_update", (request.clientHost.map .str).getD noneValue),
    (.str "browser_update", .str ((pyGet request.headers "user-agent").getD ""))]

end LogRuntime

/-! ## What can be read -/

/-- `extra`, if it is true, is a dictionary, and so is its `resp_partner`. -/
def Navigable (content : List (Key × Tree)) : Prop :=
  ∀ extra ∈ pyGet content (.str "extra"), truthy extra → ∃ members, extra = .mapping () members ∧
    ∀ respPartner ∈ pyGet members (.str "resp_partner"), truthy respPartner → isDict respPartner

/-- `resp_partner` is there, and not empty. -/
def HasPartner (content : List (Key × Tree)) : Prop :=
  ∃ members fields, pyGet content (.str "extra") = some (.mapping () members) ∧
    pyGet members (.str "resp_partner") = some (.mapping () fields) ∧ fields ≠ []

/-- A dictionary says itself whether there was success, or has a status that can be compared. -/
def TellsSuccess (numbers : Numbers) (content : List (Key × Tree)) : Prop :=
  (pyGet content (.str "success")).isSome ∨ (pyGet content (.str "error")).isSome ∨
    ¬numbers.Endless ((pyGet content (.str "status_code")).getD noneValue)

namespace LogRuntime

variable (rt : LogRuntime) (numbers : Numbers)

/-- No extractor raises. -/
structure Extracts (data : ResponseData) : Prop where
  statusCode : (getResponseStatusCode data).isOk
  statusCodePartner : (rt.getResponseStatusCodePartner data).isOk
  executionTimePartner : (rt.getExecutionTimePartner data).isOk
  message : (rt.getResponseMessage data).isOk
  success : (getResponseSuccess numbers data).isOk

/-- What the extractors can read. A dictionary has no status code to fall back to. -/
def Readable : ResponseData → Prop
  | .response response =>
    ∀ content, rt.parseResponseBody response = .mapping () content → Navigable content
  | .dict _ entries =>
    HasPartner (eraseEntries entries) ∧ TellsSuccess numbers (eraseEntries entries)
  | data => data.attributeOrNone "success" ≠ noneValue ∨
      ¬numbers.Endless (data.attributeOrNone "status_code")

/-- All that goes into the document stays within the recursion limit. -/
def fitsCall (request : HttpRequest) (data : ResponseData) : Bool :=
  rt.fits (rt.contentOf data) && rt.fitsRequest request &&
    (writeMethods.contains request.method ||
      rt.fits (.mapping () ((rt.buildRequestQueryParams request).map strEntry)))

end LogRuntime

section members
variable {name other : String} {absent value : Tree}

@[simp]
theorem isOk_getMember : (getMember name absent value).isOk = isDict value := by
  cases value <;> rfl

@[simp]
theorem isOk_getEither : (getEither name other value).isOk = isDict value := by
  cases value with
  | mapping _ entries =>
    unfold getEither
    dsimp only [getMember, bind, Except.bind]
    split <;> rfl
  | _ => rfl

theorem truthy_mapping {members : List (Key × Tree)} :
    truthy (.mapping () members) ↔ members ≠ [] := by
  cases members <;> simp [truthy]

theorem isDict_iff : isDict value ↔ ∃ entries, value = .mapping () entries := by
  cases value with
  | mapping _ entries => simp [isDict]
  | _ => simp [isDict]

/-- Where the content is no dictionary, an extractor returns. -/
theorem isOk_ifDict_iff {x y : Except PyError Tree} (hy : y.isOk) :
    (if isDict value then x else y).isOk ↔
      ∀ content, value = .mapping () content → x.isOk := by
  by_cases hdict : isDict value
  · obtain ⟨content, rfl⟩ := isDict_iff.mp hdict
    simp [hdict]
  · rw [if_neg hdict]
    exact iff_of_true hy fun content hcontent => absurd (isDict_iff.mpr ⟨content, hcontent⟩) hdict

end members

/-- `int()` raises what is not caught on a number without end, and on nothing else. -/
theorem Numbers.endless_iff (numbers : Numbers) {value : Tree} :
    numbers.Endless value ↔ ∃ e, numbers.toInt value = .error e ∧ ¬caught e := by
  have hnone : caught typeError ∧ caught valueError := by decide
  have hparsed : ∀ n : Option ℤ,
      ¬∃ e, n.elim (.error valueError) .ok = Except.error (α := ℤ) e ∧ ¬caught e := by
    rintro (_ | n) ⟨e, he, huncaught⟩
    · exact huncaught (Except.error.inj he ▸ hnone.2)
    · cases he
  cases value with
  | scalar x =>
    cases x with
    | float repr =>
      have hinf : numbers.Endless (.scalar (.float repr)) ↔
          ∃ negative, numbers.ofRepr repr = .inf negative := by
        simp [Endless, numbers.ofRepr_inf]
      rw [hinf, toInt]
      cases hfloat : numbers.ofRepr repr with
      | nan => simp [PyFloat.toInt, caught]
      | inf negative => simp [PyFloat.toInt, caught]
      | finite mantissa exponent =>
        unfold PyFloat.toInt
        dsimp only
        split <;> simp
    | none => simp [Endless, toInt, hnone]
    | bool b => simp [Endless, toInt]
    | int n => simp [Endless, toInt]
  | str text => simpa [Endless, toInt] using hparsed (pyIntText 10 text)
  | other _ o =>
    cases o with
    | bytes data => simpa [Endless, toInt] using hparsed (bytesInt data)
    | object typeName text => rfl
  | mapping _ entries => simp [Endless, toInt, hnone]
  | seq _ _ items => simp [Endless, toInt, hnone]

theorem Numbers.isOk_isBelowError_iff (numbers : Numbers) {statusCode : Tree} :
    (numbers.isBelowError statusCode).isOk ↔ ¬numbers.Endless statusCode := by
  rw [numbers.endless_iff]
  unfold isBelowError
  split
  · simp [toInt, caught, typeError, Except.isOk, Except.toBool]
  · cases hint : numbers.toInt statusCode with
    | ok n => simp [Except.isOk, Except.toBool]
    | error e =>
      by_cases hcaught : caught e <;> simp [hcaught, Except.isOk, Except.toBool]

theorem HasPartner.navigable {content : List (Key × Tree)} (h : HasPartner content) :
    Navigable content := by
  obtain ⟨members, fields, hextra, hpartner, -⟩ := h
  intro extra hmem _
  obtain rfl := Option.some.inj (hextra.symm.trans hmem)
  refine ⟨members, rfl, ?_⟩
  intro respPartner hmem _
  obtain rfl := Option.some.inj (hpartner.symm.trans hmem)
  rfl

/-- Where nothing is read, what is returned instead has to be there. -/
theorem isOk_readPartner_iff {absent : Except PyError Tree} {read : Tree → Except PyError Tree}
    (hread : ∀ value, (read value).isOk = isDict value) (content : List (Key × Tree)) :
    (readPartner absent read (.mapping () content)).isOk ↔
      Navigable content ∧ (absent.isOk ∨ HasPartner content) := by
  have hempty : ¬truthy emptyDict := by simp [truthy, emptyDict]
  unfold readPartner
  dsimp only [getMember, bind, Except.bind]
  cases hextra : pyGet content (.str "extra") with
  | none => simp [hempty, Navigable, HasPartner, hextra]
  | some extra =>
    by_cases htrue : truthy extra
    · cases extra with
      | mapping _ members =>
        cases hpartner : pyGet members (.str "resp_partner") with
        | none => simp [hempty, htrue, Navigable, HasPartner, hextra, hpartner]
        | some respPartner =>
          by_cases hfields : truthy respPartner
          · have hfull : isDict respPartner →
                ∃ fields, respPartner = .mapping () fields ∧ fields ≠ [] := by
              intro hdict
              obtain ⟨fields, rfl⟩ := isDict_iff.mp hdict
              exact ⟨fields, rfl, truthy_mapping.mp hfields⟩
            simpa [htrue, hfields, Navigable, HasPartner, hextra, hpartner, hread] using
              fun hdict => Or.inr (hfull hdict)
          · have hnot : ∀ fields, respPartner = .mapping () fields → fields = [] := by
              rintro fields rfl
              by_contra hne
              exact hfields (truthy_mapping.mpr hne)
            simpa [htrue, hfields, Navigable, HasPartner, hextra, hpartner] using
              fun fields hfields hne => absurd (hnot fields hfields) hne
      | _ => simp [htrue, Navigable, hextra, Except.isOk, Except.toBool]
    · have hnot : ∀ members fields, extra = .mapping () members →
          pyGet members (.str "resp_partner") ≠ some (.mapping () fields) := by
        rintro members fields rfl hpartner
        apply htrue
        exact truthy_mapping.mpr (List.ne_nil_of_mem (mem_of_pyGet hpartner))
      simpa [htrue, Navigable, HasPartner, hextra] using
        fun members hmembers fields hpartner => absurd hpartner (hnot members fields hmembers)

namespace LogRuntime

section extractors
variable {rt : LogRuntime} {numbers : Numbers} {data : ResponseData}

theorem isOk_getResponseStatusCode : (getResponseStatusCode data).isOk := by
  cases data <;> rfl

theorem isOk_getResponseMessage : (rt.getResponseMessage data).isOk := by
  cases data with
  | response response =>
    unfold getResponseMessage
    dsimp only
    split
    · rename_i hdict
      rwa [isOk_getEither]
    · rfl
  | dict _ entries =>
    unfold getResponseMessage
    rw [isOk_getEither]
    rfl
  | object _ _ attributes => rfl

theorem isOk_getExecutionTimePartner_iff : (rt.getExecutionTimePartner data).isOk ↔
    ∀ content, rt.contentOf data = .mapping () content → Navigable content := by
  unfold getExecutionTimePartner
  rw [isOk_ifDict_iff rfl]
  apply forall₂_congr
  intro content hcontent
  rw [hcontent, isOk_readPartner_iff fun _ => isOk_getMember]
  exact and_iff_left (Or.inl rfl)

theorem isOk_getResponseStatusCodePartner_iff : (rt.getResponseStatusCodePartner data).isOk ↔
    ∀ content, rt.contentOf data = .mapping () content →
      Navigable content ∧ ((data.attribute "status_code").isOk ∨ HasPartner content) := by
  unfold getResponseStatusCodePartner
  rw [isOk_ifDict_iff rfl]
  apply forall₂_congr
  intro content hcontent
  rw [hcontent, isOk_readPartner_iff fun _ => isOk_getEither]

theorem isOk_getResponseSuccess_dict {id : ℕ} {entries : List (Key × PyValue ℕ)} :
    (getResponseSuccess numbers (.dict id entries)).isOk ↔
      TellsSuccess numbers (eraseEntries entries) := by
  unfold getResponseSuccess TellsSuccess
  dsimp only [getResponseStatusCode, getMember, bind, Except.bind, pure, Except.pure]
  cases pyGet (eraseEntries entries) (.str "success") with
  | some success => simp [Except.isOk, Except.toBool]
  | none =>
    cases pyGet (eraseEntries entries) (.str "error") with
    | some error => simp [Except.isOk, Except.toBool]
    | none => simp [Numbers.isOk_isBelowError_iff]

theorem isOk_getResponseSuccess_object (rt : LogRuntime) {typeName text : String}
    {attributes : List (String × Tree)} :
    (getResponseSuccess numbers (.object typeName text attributes)).isOk ↔
      rt.Readable numbers (.object typeName text attributes) := by
  unfold getResponseSuccess Readable
  dsimp only [getResponseStatusCode, bind, Except.bind, pure, Except.pure]
  split
  · rename_i hnone
    rw [Numbers.isOk_isBelowError_iff, hnone]
    simp [noneValue]
  · rename_i hsome
    exact iff_of_true rfl (Or.inl hsome)

/-- The extractors return on what they can read, and on nothing else. -/
theorem extracts_iff : rt.Extracts numbers data ↔ rt.Readable numbers data := by
  have hall : rt.Extracts numbers data ↔ (rt.getResponseStatusCodePartner data).isOk ∧
      (rt.getExecutionTimePartner data).isOk ∧ (getResponseSuccess numbers data).isOk := by
    constructor
    · exact fun h => ⟨h.statusCodePartner, h.executionTimePartner, h.success⟩
    · rintro ⟨hstatus, htime, hsuccess⟩
      exact ⟨isOk_getResponseStatusCode, hstatus, htime, isOk_getResponseMessage, hsuccess⟩
  rw [hall, isOk_getResponseStatusCodePartner_iff, isOk_getExecutionTimePartner_iff]
  cases data with
  | response response =>
    constructor
    · exact fun h => h.2.1
    · exact fun h => ⟨fun content hcontent => ⟨h content hcontent, Or.inl rfl⟩, h, rfl⟩
  | dict id entries =>
    rw [isOk_getResponseSuccess_dict]
    constructor
    · rintro ⟨hstatus, -, hsuccess⟩
      obtain ⟨-, hstatus | hpartner⟩ := hstatus (eraseEntries entries) rfl
      · cases hstatus
      · exact ⟨hpartner, hsuccess⟩
    · rintro ⟨hpartner, hsuccess⟩
      have hcontent : ∀ content, rt.contentOf (.dict id entries) = .mapping () content →
          HasPartner content := by
        rintro content hcontent
        obtain rfl : eraseEntries entries = content := PyValue.mapping.inj hcontent |>.2
        exact hpartner
      refine ⟨fun content h => ?_, fun content h => (hcontent content h).navigable, hsuccess⟩
      exact ⟨(hcontent content h).navigable, Or.inr (hcontent content h)⟩
  | object typeName text attributes =>
    rw [isOk_getResponseSuccess_object rt]
    constructor
    · exact fun h => h.2.2
    · exact fun h => ⟨nofun, nofun, h⟩

theorem exists_bind_iff {α β : Type} {x : Option α} {f : α → Option β} {p : Prop}
    (h : ∀ a, (∃ b, f a = some b) ↔ p) : (∃ b, x >>= f = some b) ↔ (∃ a, x = some a) ∧ p := by
  cases x with
  | none => simp
  | some a => simpa using h a

theorem exists_toOption {x : Except PyError Tree} :
    (∃ value, x.toOption = some value) ↔ x.isOk := by
  cases x <;> simp [Except.toOption, Except.isOk, Except.toBool]

theorem exists_responseRecord_iff (stores : CallStores) :
    (∃ record, rt.responseRecord stores data = some record) ↔ rt.fits (rt.contentOf data) := by
  cases data with
  | response response =>
    unfold responseRecord serializeResponse contentOf
    dsimp only
    split <;> grind
  | dict id entries =>
    unfold responseRecord
    dsimp only
    split <;> grind
  | object _ text _ => simp [responseRecord, contentOf, noneValue, rt.fits_none]

theorem exists_serializeRequest_iff (alloc : LogField → Allocator) (request : HttpRequest) :
    (∃ record, rt.serializeRequest alloc request = some record) ↔ rt.fitsRequest request := by
  unfold serializeRequest
  split <;> grind

theorem exists_queryRecord_iff (stores : CallStores) (request : HttpRequest) :
    (∃ record, rt.queryRecord stores request = some record) ↔
      writeMethods.contains request.method ||
        rt.fits (.mapping () ((rt.buildRequestQueryParams request).map strEntry)) := by
  unfold queryRecord
  dsimp only
  split
  · grind
  · split <;> grind

/-- A document is made of whatever can be read and stays within the recursion limit. -/
theorem doLogApiCall_iff (stores : CallStores) (call : ApiCall) :
    (∃ document, rt.doLogApiCall numbers stores call data = some document) ↔
      rt.fitsCall call.request data ∧ rt.Extracts numbers data := by
  have hsteps : (∃ document, rt.doLogApiCall numbers stores call data = some document) ↔
      (∃ record, rt.responseRecord stores data = some record) ∧
        (∃ record, rt.serializeRequest stores.request call.request = some record) ∧
        (∃ record, rt.queryRecord stores call.request = some record) ∧
        (∃ value, (getResponseStatusCode data).toOption = some value) ∧
        (∃ value, (rt.getResponseStatusCodePartner data).toOption = some value) ∧
        (∃ value, (rt.getExecutionTimePartner data).toOption = some value) ∧
        (∃ value, (rt.getResponseMessage data).toOption = some value) ∧
        (∃ value, (getResponseSuccess numbers data).toOption = some value) ∧ True := by
    iterate 8
      apply exists_bind_iff
      intro _
    exact iff_of_true ⟨_, rfl⟩ trivial
  have hfits : rt.fitsCall call.request data ↔
      (∃ record, rt.responseRecord stores data = some record) ∧
        (∃ record, rt.serializeRequest stores.request call.request = some record) ∧
        ∃ record, rt.queryRecord stores call.request = some record := by
    rw [exists_responseRecord_iff, exists_serializeRequest_iff, exists_queryRecord_iff, fitsCall]
    simp [and_assoc]
  simp only [hsteps, hfits, exists_toOption]
  constructor
  · rintro ⟨hresponse, hrequest, hquery, hcode, hpartner, htime, hmessage, hsuccess, -⟩
    exact ⟨⟨hresponse, hrequest, hquery⟩, hcode, hpartner, htime, hmessage, hsuccess⟩
  · rintro ⟨⟨hresponse, hrequest, hquery⟩, hcode, hpartner, htime, hmessage, hsuccess⟩
    exact ⟨hresponse, hrequest, hquery, hcode, hpartner, htime, hmessage, hsuccess, trivial⟩

/-- A document reaches the collection if and only if everything that is logged stays within the
recursion limit, a true `extra` in the JSON of a response is a dictionary and so is a true
`resp_partner` in it, and a dictionary has such members and a status that `int()` takes. -/
theorem inserted_iff (rt : LogRuntime) (numbers : Numbers) (stores : CallStores) (call : ApiCall)
    (data : ResponseData) :
    (rt.Extracts numbers data ↔ rt.Readable numbers data) ∧
      ((∃ document, rt.doLogApiCall numbers stores call data = some document) ↔
        rt.fitsCall call.request data ∧ rt.Readable numbers data) :=
  ⟨extracts_iff, by rw [doLogApiCall_iff, extracts_iff]⟩

end extractors

end LogRuntime

/-! ## A list where a dictionary is expected, and an empty dictionary -/

def extraText : String := "\x7b\"extra\":[1]\x7d"

/-- A runtime that parses the text. -/
def extraRuntime : LogRuntime where
  toEnvironment := { Logging.sampleEnvironment with
    toRuntime := .ofTexts
      [(extraText, .mapping () [(.str "extra", .seq .list () [.scalar (.int 1)])])] (by
        have hstrip : pyStrip extraText = extraText := by decide
        simp [hstrip, PyValue.strings, Logging.stringsEntries, Logging.stringsItems,
          PyValue.IsContainer]) }
  loadsBytes := sampleRuntime.loadsBytes
  dumps := sampleRuntime.dumps
  fits _ := true
  fits_none := rfl

/-- Floats that are shown as what is no number. -/
def sampleNumbers : Numbers where
  ofRepr repr :=
    if repr = "inf" then .inf false else if repr = "-inf" then .inf true else .nan
  ofObject _ _ := .error Numbers.typeError
  ofRepr_inf := by
    intro repr negative
    by_cases hinf : repr = "inf"
    · cases negative <;> simp [hinf]
    · by_cases hminus : repr = "-inf" <;> cases negative <;> simp [hinf, hminus]

def sampleCall : ApiCall where
  requestPartner := .str "Unknown"
  request := samplePost
  path := "/items"
  traceback := none
  executionTime := .float "0.25"
  now := "2024-01-01 00:00:00+00:00"
  timestamp := .float "1704067200.0"
  traceId := "0"

def extraResponse : ResponseData := .response ⟨200, [], .bytes (bytesOf extraText)⟩

/-- The record of a response with a list for `extra` is lost, and so is that of an empty
dictionary. -/
theorem list_extra_lost :
    (¬extraRuntime.Extracts sampleNumbers extraResponse ∧ ∀ stores,
      ¬∃ document, extraRuntime.doLogApiCall sampleNumbers stores sampleCall extraResponse =
        some document) ∧
      ¬extraRuntime.Extracts sampleNumbers (.dict 0 []) ∧ ∀ stores,
        ¬∃ document, extraRuntime.doLogApiCall sampleNumbers stores sampleCall (.dict 0 []) =
          some document := by
  have hlist : ¬extraRuntime.Extracts sampleNumbers extraResponse :=
    fun h => absurd h.statusCodePartner (by decide)
  have hempty : ¬extraRuntime.Extracts sampleNumbers (.dict 0 []) :=
    fun h => absurd h.statusCodePartner (by decide)
  refine ⟨⟨hlist, ?_⟩, hempty, ?_⟩
  · intro stores hdocument
    exact hlist (LogRuntime.doLogApiCall_iff stores sampleCall |>.mp hdocument).2
  · intro stores hdocument
    exact hempty (LogRuntime.doLogApiCall_iff stores sampleCall |>.mp hdocument).2

end BaseWebService.Middleware
