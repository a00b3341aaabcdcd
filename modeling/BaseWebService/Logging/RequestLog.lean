import BaseWebService.Library.PyBytes
import BaseWebService.Logging.Noninterference

/-!
# The log record of a request

The `Request` branch of `serialize_for_log` in `core/infra/system_log/tools.py`. Headers, body,
query and path parameters are each redacted by a call of their own; the URL goes into the record
as it is.
-/

namespace BaseWebService.Logging

open Library

/-- What the record is built with besides redaction: the setting `max_log_body_bytes`, Python's
decoding and `json.dumps`, and what Starlette makes of the query string. -/
structure Environment extends Runtime where
  maxLogBodyBytes : ℕ
  /-- `body.decode("utf-8")`, `none` where it raises. -/
  decodeUtf8 : List UInt8 → Option String
  /-- `len(json.dumps(value, default=str).encode("utf-8"))`, `none` where it raises. -/
  dumpsLength : Tree → Option ℕ
  /-- `str(request.url)`, from what stands before the query string and from the query string. -/
  url : String → String → String
  /-- The items of `request.query_params`. -/
  parseQuery : String → List (String × String)
  /-- The URL shows the query string. -/
  url_injective : ∀ {base query query'}, url base query = url base query' → query = query'

/-- A Starlette request. The names of its headers are in lower case, as ASGI has them; the body is
there once it has been read. -/
structure Request where
  method : String
  baseUrl : String
  queryString : String
  clientHost : Option String
  headers : List (String × String)
  body : Option (List UInt8)
  pathParams : List (Key × Tree)

/-- `value.headers.get("Content-Type")`. -/
def Request.contentType (r : Request) : Option String := pyGet r.headers "content-type"

def Request.loggedPath (r : Request) : Tree := .mapping () r.pathParams

/-- The fields of the record that are redacted. -/
inductive LogField where
  | headers
  | body
  | queryParams
  | pathParams

def strEntry (e : String × String) : Key × Tree := (.str e.1, .str e.2)

namespace Environment

variable (env : Environment)

def sizeMarker (value : List UInt8) (truncated : Bool) : Tree :=
  .mapping () ([(.str "type", .str "bytes"), (.str "size", .scalar (.int value.length))] ++
    if truncated then [(.str "truncated", .scalar (.bool true))] else [])

def truncateLogValue (value : Tree) : Tree :=
  match value with
  | .str text =>
    if env.maxLogBodyBytes < text.length then
      .str (String.ofList (text.toList.take env.maxLogBodyBytes) ++ "... [truncated]")
    else value
  | .seq .list _ items =>
    if 100 < items.length then
      .seq .list () (items.take 100 ++ [.str "... [items truncated]"])
    else value
  | .mapping _ _ =>
    match env.dumpsLength value with
    | some n =>
      if env.maxLogBodyBytes < n then
        .mapping () [(.str "type", .str "object"), (.str "truncated", .scalar (.bool true))]
      else value
    | none =>
      .mapping () [(.str "type", .str "dict"), (.str "truncated", .scalar (.bool true))]
  | _ => value

/-- The body as it goes into redaction. -/
def loggedBody (r : Request) : Tree :=
  match r.body with
  | none => .scalar .none
  | some body =>
    if env.maxLogBodyBytes < body.length then sizeMarker body true
    else if r.contentType = some "application/json" then
      ((env.decodeUtf8 body).bind env.loads).getD (.other () (.bytes body))
    else .other () (.bytes body)

def omittedHeaders : List String := ["authorization", "cookie"]

def loggedHeaders (r : Request) : Tree :=
  .mapping () (pyDict ((r.headers.filter fun e =>
    !omittedHeaders.contains (env.lower e.1)).map strEntry))

def loggedQuery (r : Request) : Tree :=
  .mapping () (pyDict ((env.parseQuery r.queryString).map strEntry))

/-- `redact_sensitive_data(value)` for a value made of new objects. -/
def redactNew (a : Allocator) (t : Tree) : Tree := env.redact a (a.build .start [] t)

/-- `serialize_for_log(request)`; each call of the redactor meets the interpreter in a state of its
own. -/
def serializeRequestForLog (alloc : LogField → Allocator) (r : Request) : Tree :=
  .mapping () [
    (.str "method", .str r.method),
    (.str "url", .str (env.url r.baseUrl r.queryString)),
    (.str "client_ip", (r.clientHost.map .str).getD (.scalar .none)),
    (.str "headers", env.redactNew (alloc .headers) (env.loggedHeaders r)),
    (.str "body", env.truncateLogValue (env.redactNew (alloc .body) (env.loggedBody r))),
    (.str "query_params", env.redactNew (alloc .queryParams) (env.loggedQuery r)),
    (.str "path_params", env.redactNew (alloc .pathParams) (r.loggedPath))]

/-- What goes into redaction for a field. -/
def logged (r : Request) : LogField → Tree
  | .headers => env.loggedHeaders r
  | .body => env.loggedBody r
  | .queryParams => env.loggedQuery r
  | .pathParams => r.loggedPath

/-- `application/json` in any letter case, with or without parameters. -/
def isJsonMediaType (contentType : String) : Bool :=
  env.lower (pyStrip (String.ofList (contentType.toList.takeWhile (· ≠ ';')))) == "application/json"

/-- The body is JSON, said to be so, and small enough to be logged. -/
structure HasJson (r : Request) (data : List UInt8) (t : Tree) : Prop where
  mediaType : ∃ contentType, r.contentType = some contentType ∧
    env.isJsonMediaType contentType = true
  body : r.body = some data
  length : data.length ≤ env.maxLogBodyBytes
  loads : (env.decodeUtf8 data).bind env.loads = some t
  container : t.IsContainer

/-- Two requests that differ only in secrets: in what stands under sensitive keys of a JSON body, of
the same length, and in the values of sensitive query parameters. -/
structure Twins (r r' : Request) : Prop where
  method : r.method = r'.method
  baseUrl : r.baseUrl = r'.baseUrl
  clientHost : r.clientHost = r'.clientHost
  headers : r.headers = r'.headers
  pathParams : r.pathParams = r'.pathParams
  query : Related (fun name value value' => value = value' ∨ env.isSensitiveKey (.str name) = true)
    (env.parseQuery r.queryString) (env.parseQuery r'.queryString)
  body : r.body = r'.body ∨ ∃ data data' t t', env.HasJson r data t ∧ env.HasJson r' data' t' ∧
    data.length = data'.length ∧ SecretEq env.toRuntime t t'

/-- The query strings are the same, and the bodies are unless the content type is exactly the one
that is parsed. -/
def Unspoilt (r r' : Request) : Prop :=
  r.queryString = r'.queryString ∧
    (r.body = r'.body ∨ r.contentType = some "application/json")

/-- No JSON text in what goes into the field shows after another one is done with. -/
def CleanField (r : Request) (f : LogField) : Prop :=
  env.clean false (env.unfold (env.logged r f)) = true

variable {env} {r r' : Request}

theorem Twins.contentType (h : env.Twins r r') : r.contentType = r'.contentType := by
  rw [Request.contentType, h.headers, Request.contentType]

theorem HasJson.loggedBody {data : List UInt8} {t : Tree} (h : env.HasJson r data t)
    (hexact : r.contentType = some "application/json") : env.loggedBody r = t := by
  have hsmall := h.length
  simp [Environment.loggedBody, h.body, hexact, h.loads, hsmall]

theorem HasJson.loggedBody_bytes {data : List UInt8} {t : Tree} (h : env.HasJson r data t)
    (hother : r.contentType ≠ some "application/json") :
    env.loggedBody r = .other () (.bytes data) := by
  have hsmall := h.length
  simp [Environment.loggedBody, h.body, hother, hsmall]

theorem Twins.loggedQuery_alike (h : env.Twins r r') :
    Alike env.toRuntime (env.unfold (env.loggedQuery r)) (env.unfold (env.loggedQuery r')) := by
  refine (AlikeEntries.of_related (Related.pyDict ?_)).mapping
  refine List.forall₂_map_left_iff.mpr (List.forall₂_map_right_iff.mpr (h.query.imp ?_))
  rintro ⟨name, value⟩ ⟨name', value'⟩ ⟨hname, hvalue⟩
  refine ⟨congrArg Key.str hname, ?_⟩
  rcases hvalue with rfl | hkey
  · exact Or.inr (Alike.refl _)
  · exact Or.inl hkey

theorem Twins.loggedBody_alike (h : env.Twins r r')
    (hbody : r.body = r'.body ∨ r.contentType = some "application/json") :
    Alike env.toRuntime (env.unfold (env.loggedBody r)) (env.unfold (env.loggedBody r')) := by
  have hequal : r.body = r'.body → env.loggedBody r = env.loggedBody r' := fun hbody => by
    rw [Environment.loggedBody, Environment.loggedBody, hbody, h.contentType]
  rcases h.body with hsame | ⟨data, data', t, t', hdata, hdata', -, hsecret⟩
  · rw [hequal hsame]
    exact Alike.refl _
  · rcases hbody with hsame | hexact
    · rw [hequal hsame]
      exact Alike.refl _
    · rw [hdata.loggedBody hexact, hdata'.loggedBody (h.contentType ▸ hexact)]
      exact hsecret.alike

/-- Twins have all their fields unfolded alike, the body provided that it is parsed. -/
theorem Twins.alike (h : env.Twins r r')
    (hbody : r.body = r'.body ∨ r.contentType = some "application/json") (f : LogField) :
    Alike env.toRuntime (env.unfold (env.logged r f)) (env.unfold (env.logged r' f)) := by
  cases f with
  | headers =>
    rw [logged, logged, loggedHeaders, loggedHeaders, h.headers]
    exact Alike.refl _
  | body => exact h.loggedBody_alike hbody
  | queryParams => exact h.loggedQuery_alike
  | pathParams =>
    rw [logged, logged, Request.loggedPath, Request.loggedPath, h.pathParams]
    exact Alike.refl _

theorem unfold_new (a : Allocator) (t : Tree) :
    env.unfold (a.build .start [] t) = env.unfold t := by
  rw [← Runtime.unfold_erase, a.erase_build]

theorem redactNew_eq_plain {a : Allocator} {t : Tree}
    (h : a.NeverReuses ∨ env.clean false (env.unfold t) = true) :
    env.redactNew a t = env.plain (env.unfold t) := by
  rw [redactNew, Runtime.redact_eq_plain (a.unshared_build .start [] t) (by rwa [unfold_new]),
    unfold_new]

theorem clean_of_redactNew {t : Tree}
    (h : env.redactNew .stack t = env.plain (env.unfold t)) :
    env.clean false (env.unfold t) = true := by
  rw [← unfold_new .stack t] at h ⊢
  exact Runtime.clean_of_redact_eq_plain (Allocator.unshared_build .stack .start [] t) h

/-- What the record shows for a field. -/
def shown (env : Environment) (a : Allocator) (r : Request) : LogField → Tree
  | .body => env.truncateLogValue (env.redactNew a (env.logged r .body))
  | f => env.redactNew a (env.logged r f)

/-- The records of twins are equal if their URLs and the redacted fields are. -/
theorem Twins.serialize_eq_iff (h : env.Twins r r') (a b : LogField → Allocator) :
    env.serializeRequestForLog a r = env.serializeRequestForLog b r' ↔
      r.queryString = r'.queryString ∧ ∀ f, env.shown (a f) r f = env.shown (b f) r' f := by
  have hurl : env.url r.baseUrl r.queryString = env.url r'.baseUrl r'.queryString ↔
      r.queryString = r'.queryString := by
    rw [h.baseUrl]
    exact ⟨env.url_injective, fun h => by rw [h]⟩
  have hfields : (∀ f, env.shown (a f) r f = env.shown (b f) r' f) ↔
      env.shown (a .headers) r .headers = env.shown (b .headers) r' .headers ∧
        env.shown (a .body) r .body = env.shown (b .body) r' .body ∧
        env.shown (a .queryParams) r .queryParams = env.shown (b .queryParams) r' .queryParams ∧
        env.shown (a .pathParams) r .pathParams = env.shown (b .pathParams) r' .pathParams :=
    ⟨fun h => ⟨h _, h _, h _, h _⟩, fun h f => by cases f <;> simp [h]⟩
  simp only [serializeRequestForLog, h.method, h.clientHost, PyValue.mapping.injEq,
    List.cons.injEq, Prod.mk.injEq, PyValue.str.injEq, hurl, true_and, and_true, hfields]
  rfl

/-- Where identities cannot show, the records of twins are equal exactly if the query strings are
and the bodies are equal or parsed. -/
theorem Twins.serialize_eq_iff_unspoilt (h : env.Twins r r') {a b : LogField → Allocator}
    (hids : ∀ f, (a f).NeverReuses ∧ (b f).NeverReuses ∨ env.CleanField r f) :
    env.serializeRequestForLog a r = env.serializeRequestForLog b r' ↔ Unspoilt r r' := by
  rw [h.serialize_eq_iff]
  refine and_congr_right fun hquery => ⟨fun hshown => ?_, fun hbody f => ?_⟩
  · rcases h.body with hsame | ⟨data, data', t, t', hdata, hdata', -⟩
    · exact Or.inl hsame
    by_cases hexact : r.contentType = some "application/json"
    · exact Or.inr hexact
    · -- The bytes are logged as they are.
      have hbytes := hshown .body
      rw [shown, shown, logged, logged, hdata.loggedBody_bytes hexact,
        hdata'.loggedBody_bytes (h.contentType ▸ hexact), redactNew_eq_plain (Or.inr rfl),
        redactNew_eq_plain (Or.inr rfl)] at hbytes
      have hplain : ∀ data, env.truncateLogValue (env.plain (env.unfold (PyValue.other ()
          (.bytes data)))) = .other () (.bytes data) := fun _ => rfl
      have hsame : data = data' := by simpa [hplain] using hbytes
      exact Or.inl (by rw [hdata.body, hdata'.body, hsame])
  · have halike := h.alike hbody f
    have hequal : env.redactNew (a f) (env.logged r f) = env.redactNew (b f) (env.logged r' f) := by
      rw [redactNew_eq_plain ((hids f).imp_left And.left), halike.plain]
      refine (redactNew_eq_plain ((hids f).imp And.right fun hclean => ?_)).symm
      rw [← halike.clean]
      exact hclean
    cases f with
    | body => rw [shown, shown, hequal]
    | _ => exact hequal

/-- The record of a request shows no secret exactly if the secret is not in the query string, a
JSON body is sent with the content type `application/json` to the letter, and identities that are
reused cannot show. -/
theorem requestLog_eq_iff (h : env.Twins r r') :
    (∀ a b : LogField → Allocator,
      (∀ f, (a f).NeverReuses ∧ (b f).NeverReuses ∨ env.CleanField r f) →
      (env.serializeRequestForLog a r = env.serializeRequestForLog b r' ↔ Unspoilt r r')) ∧
    ((∀ a b : LogField → Allocator,
      env.serializeRequestForLog a r = env.serializeRequestForLog b r') →
      ∀ f, (∀ a, env.shown a r f = env.redactNew a (env.logged r f)) → env.CleanField r f) := by
  refine ⟨fun a b hids => h.serialize_eq_iff_unspoilt hids, fun hequal f huncut => ?_⟩
  have hnever := Allocator.neverReuse_neverReuses
  have hsame : Unspoilt r r' := (h.serialize_eq_iff_unspoilt fun _ => Or.inl ⟨hnever, hnever⟩).mp
    (hequal (fun _ => .neverReuse) fun _ => .neverReuse)
  refine clean_of_redactNew ?_
  rw [← huncut, ((h.serialize_eq_iff (fun _ => .stack) fun _ => .neverReuse).mp (hequal _ _)).2 f,
    ← ((h.serialize_eq_iff (fun _ => .neverReuse) fun _ => .neverReuse).mp (hequal _ _)).2 f,
    huncut]
  exact redactNew_eq_plain (Or.inl hnever)

end Environment

/-! ## A body and a query that show -/

/-- The body `password` with a digit for it. -/
def passwordText (digit : Char) : String :=
  "\x7b\"password\":" ++ String.singleton digit ++ "\x7d"

def passwordIs (n : Int) : Tree := .mapping () [(.str "password", .scalar (.int n))]

/-- Texts in ASCII and the two bodies, with the settings' default; a redacted body takes 26
bytes. -/
def sampleEnvironment : Environment where
  toRuntime := .ofTexts [(passwordText '0', passwordIs 0), (passwordText '1', passwordIs 1)] (by
    have hstrip : pyStrip (passwordText '0') = passwordText '0' ∧
        pyStrip (passwordText '1') = passwordText '1' := by decide
    simp [hstrip, passwordIs, PyValue.strings, stringsEntries, PyValue.IsContainer])
  maxLogBodyBytes := 16 * 1024
  decodeUtf8 data :=
    if data.all (· < 128) then some (String.ofList (data.map fun b => Char.ofNat b.toNat)) else none
  dumpsLength _ := some 26
  url base query := base ++ (if query = "" then "" else "?" ++ query)
  parseQuery query := (pyGet [("token=a", [("token", "a")]), ("token=b", [("token", "b")])]
    query).getD []
  url_injective := by
    intro base query query' h
    have hlist := congrArg String.toList h
    rw [String.toList_append, String.toList_append] at hlist
    have htail := List.append_cancel_left hlist
    by_cases hquery : query = "" <;> by_cases hquery' : query' = ""
    · rw [hquery, hquery']
    · simp [hquery, hquery'] at htail
    · simp [hquery, hquery'] at htail
    · exact String.toList_inj.mp (by simpa [hquery, hquery'] using htail)

/-- A request with a body of the content type, and a query string. -/
def post (contentType queryString body : String) : Request where
  method := "POST"
  baseUrl := "http://localhost/items"
  queryString := queryString
  clientHost := some "10.0.0.1"
  headers := [("content-type", contentType)]
  body := some (bytesOf body)
  pathParams := []

theorem passwords_twins {contentType : String}
    (hjson : sampleEnvironment.isJsonMediaType contentType = true) :
    sampleEnvironment.Twins (post contentType "" (passwordText '0'))
      (post contentType "" (passwordText '1')) where
  method := rfl
  baseUrl := rfl
  clientHost := rfl
  headers := rfl
  pathParams := rfl
  query := .nil
  body := by
    have hkey : sampleEnvironment.isSensitiveKey (.str "password") = true := by decide
    refine Or.inr ⟨bytesOf (passwordText '0'), bytesOf (passwordText '1'), passwordIs 0,
      passwordIs 1, ?_, ?_, by decide, .mapping (.secret hkey .nil)⟩
    · exact ⟨⟨contentType, rfl, hjson⟩, rfl, by decide, rfl, trivial⟩
    · exact ⟨⟨contentType, rfl, hjson⟩, rfl, by decide, rfl, trivial⟩

theorem tokens_twins : sampleEnvironment.Twins (post "text/plain" "token=a" "")
    (post "text/plain" "token=b" "") where
  method := rfl
  baseUrl := rfl
  clientHost := rfl
  headers := rfl
  pathParams := rfl
  query := .cons ⟨rfl, Or.inr (by decide)⟩ .nil
  body := Or.inl rfl

/-- Two bodies sent as `application/json`. -/
theorem requestLog_eq_iff_password :
    sampleEnvironment.serializeRequestForLog (fun _ => .stack)
        (post "application/json" "" (passwordText '0')) =
      sampleEnvironment.serializeRequestForLog (fun _ => .neverReuse)
        (post "application/json" "" (passwordText '1')) := by
  have hjson : sampleEnvironment.isJsonMediaType "application/json" = true := by decide
  have hlog := (Environment.requestLog_eq_iff (passwords_twins hjson)).1 (fun _ => .stack)
    (fun _ => .neverReuse) fun f => Or.inr (by cases f <;> rfl)
  exact hlog.mpr ⟨rfl, Or.inr rfl⟩

/-- With a charset after the media type the body is logged as it came, and a token in the query
string is logged with the URL. -/
theorem password_and_token_logged :
    (sampleEnvironment.Twins
        (post "application/json; charset=utf-8" "" (passwordText '0'))
        (post "application/json; charset=utf-8" "" (passwordText '1')) ∧
      sampleEnvironment.serializeRequestForLog (fun _ => .neverReuse)
          (post "application/json; charset=utf-8" "" (passwordText '0')) ≠
        sampleEnvironment.serializeRequestForLog (fun _ => .neverReuse)
          (post "application/json; charset=utf-8" "" (passwordText '1'))) ∧
    sampleEnvironment.Twins (post "text/plain" "token=a" "") (post "text/plain" "token=b" "") ∧
      sampleEnvironment.serializeRequestForLog (fun _ => .neverReuse)
          (post "text/plain" "token=a" "") ≠
        sampleEnvironment.serializeRequestForLog (fun _ => .neverReuse)
          (post "text/plain" "token=b" "") := by
  have hnever := Allocator.neverReuse_neverReuses
  have hjson : sampleEnvironment.isJsonMediaType "application/json; charset=utf-8" = true := by
    decide
  have hcharset := passwords_twins hjson
  refine ⟨⟨hcharset, fun h => ?_⟩, tokens_twins, fun h => ?_⟩
  · obtain ⟨-, hbody⟩ := (hcharset.serialize_eq_iff_unspoilt fun _ => Or.inl ⟨hnever, hnever⟩).mp h
    revert hbody
    decide
  · obtain ⟨hquery, -⟩ := (tokens_twins.serialize_eq_iff_unspoilt fun _ =>
      Or.inl ⟨hnever, hnever⟩).mp h
    revert hquery
    decide

end BaseWebService.Logging
