import Mathlib.Data.Rat.Defs
import BaseWebService.Library.PyBytes
import BaseWebService.Library.PyText

/-!
# Links to PDF files

`verify_pdf_link` of `app/tools/pdf_tool.py`. `httpx` and `urlparse` are outside: what they answer
is a parameter. The body of a streamed response comes as a list of chunks, each of which may be a
failure instead; leaving the response and the client is taken to succeed.

## Main results

* `Reads.isPrefix_iff` : the bytes that the loop has collected tell what the whole body starts with.
* `answer_independent_of_chunks` : the answer does not depend on where the body is cut.
-/

namespace BaseWebService.Tools

open Library

def pdfSignature : Bytes := bytesOf "%PDF-"
def pdfContentType : String := "application/pdf"
def pdfFileExtension : String := ".pdf"
def ashxFileExtension : String := ".ashx"

def pdfLinkHeaders : List (String × String) :=
  [("User-Agent", "Mozilla/5.0 (Macintosh; Intel Mac OS X 10_15_7) " ++
      "AppleWebKit/537.36 (KHTML, like Gecko) " ++ "Chrome/126.0 Safari/537.36"),
    ("Accept", "application/pdf,text/html,application/xhtml+xml,*/*;q=0.8"),
    ("Accept-Language", "vi-VN,vi;q=0.9,en-US;q=0.8,en;q=0.7")]

/-- An exception: an `httpx.HTTPError`, or any other. -/
inductive Failure where
  | httpError
  | otherException
  deriving DecidableEq

structure ParsedUrl where
  scheme : String
  netloc : String
  path : String

/-- Response headers, in the order in which they came. -/
abbrev Headers := List (String × String)

/-- `headers.get(key, default)` for a key in small letters: the values under the name, whatever its
case, joined by commas. -/
def Headers.get (headers : Headers) (key default : String) : String :=
  match headers.filter fun header => header.1.toLower = key with
  | [] => default
  | found => ", ".intercalate (found.map Prod.snd)

structure HeadResponse where
  isSuccess : Bool
  headers : Headers

/-- A response whose body is asked for chunk by chunk. -/
structure StreamResponse extends HeadResponse where
  body : List (Except Failure Bytes)

structure ClientOptions where
  followRedirects : Bool
  timeout : ℚ
  headers : List (String × String)

/-- What an `httpx.AsyncClient` answers; `stream` is given the headers of a `GET`. -/
structure AsyncClient where
  head : String → Except Failure HeadResponse
  stream : String → List (String × String) → Except Failure StreamResponse

/-- The library functions that are called. -/
structure Runtime where
  urlparse : String → Except Failure ParsedUrl
  lower : String → String
  asyncClient : ClientOptions → AsyncClient

namespace Runtime

variable (rt : Runtime)

def hasPdfHeaders (headers : Headers) : Bool :=
  let contentType := rt.lower (headers.get "content-type" "")
  if pyContains contentType pdfContentType then true
  else
    let contentDisposition := rt.lower (headers.get "content-disposition" "")
    pyContains contentDisposition pdfFileExtension

def isAshxLink (parsedUrl : ParsedUrl) : Bool :=
  pyEndsWith (rt.lower parsedUrl.path) ashxFileExtension

end Runtime

/-- The loop over the chunks, from the bytes `firstChunk` on. Besides what it has collected it
returns what it has read of the body. -/
def readFirstChunk (firstChunk : Bytes) :
    List (Except Failure Bytes) → Except Failure Bytes × List (Except Failure Bytes)
  | [] => (.ok firstChunk, [])
  | .error e :: _ => (.error e, [.error e])
  | .ok chunk :: body =>
    let firstChunk := firstChunk ++ chunk
    if pdfSignature.length ≤ firstChunk.length then (.ok firstChunk, [.ok chunk])
    else
      let (result, reads) := readFirstChunk firstChunk body
      (result, .ok chunk :: reads)

/-- The answer of a call, and what it has read of a body. -/
structure Verdict where
  answer : Except Failure Bool
  reads : List (Except Failure Bytes) := []

/-- The body of `async with client.stream(...)`. -/
def Runtime.verifyStream (rt : Runtime) (response : StreamResponse) : Verdict :=
  if !response.isSuccess then { answer := .ok false }
  else if rt.hasPdfHeaders response.headers then { answer := .ok true }
  else
    let (firstChunk, reads) := readFirstChunk [] response.body
    { answer := firstChunk.map pdfSignature.isPrefixOf, reads }

/-- The body of the outer `try`; its exceptions are answers here. -/
def Runtime.verifyLink (rt : Runtime) (client : AsyncClient) (url : String)
    (parsedUrl : ParsedUrl) : Verdict :=
  let get : Verdict :=
    let headers :=
      if rt.isAshxLink parsedUrl then []
      else [("Range", "bytes=0-" ++ pyStr (pdfSignature.length - 1))]
    match client.stream url headers with
    | .ok response => rt.verifyStream response
    | .error e => { answer := .error e }
  match client.head url with
  | .ok headResponse =>
    if headResponse.isSuccess && rt.hasPdfHeaders headResponse.headers then { answer := .ok true }
    else get
  | .error .httpError => get
  | .error .otherException => { answer := .error .otherException }

def Runtime.verifyPdfLink (rt : Runtime) (url : Option String) (timeoutS : ℚ) : Verdict :=
  match url.filter (· ≠ "") with
  | none => { answer := .ok false }
  | some url =>
    match rt.urlparse url with
    | .error e => { answer := .error e }
    | .ok parsedUrl =>
      if parsedUrl.scheme ∉ ["http", "https"] ∨ parsedUrl.netloc = "" then { answer := .ok false }
      else
        let client := rt.asyncClient
          { followRedirects := true, timeout := timeoutS, headers := pdfLinkHeaders }
        let verdict := rt.verifyLink client url parsedUrl
        match verdict.answer with
        | .error .httpError => { verdict with answer := .ok false }
        | _ => verdict

/-! ## The loop -/

/-- What a loop reads of the chunks of a body: the shortest run with enough bytes, or all. -/
structure Reads (chunks reads : List Bytes) : Prop where
  isPrefix : reads <+: chunks
  /-- no chunk is read once enough bytes are there -/
  few : ∀ k < reads.length, (reads.take k).flatten.length < pdfSignature.length
  /-- what is left unread was not needed -/
  enough : reads = chunks ∨ pdfSignature.length ≤ reads.flatten.length

namespace Reads

variable {chunks reads : List Bytes}

/-- The bytes that were read start like the whole body. -/
theorem isPrefix_iff (h : Reads chunks reads) :
    pdfSignature <+: reads.flatten ↔ pdfSignature <+: chunks.flatten := by
  obtain ⟨unread, hunread⟩ := h.isPrefix
  have hall : reads.flatten <+: chunks.flatten := ⟨unread.flatten, by simp [← hunread]⟩
  constructor
  · intro hsig
    exact hsig.trans hall
  · intro hsig
    rcases h.enough with heq | hlong
    · rwa [heq]
    · exact List.prefix_of_prefix_length_le hsig hall hlong

end Reads

/-- The loop collects the bytes of a shortest run of chunks with enough of them. -/
theorem readFirstChunk_ok (firstChunk : Bytes) (chunks : List Bytes)
    (hshort : firstChunk.length < pdfSignature.length) :
    ∃ reads, readFirstChunk firstChunk (chunks.map .ok) =
        (.ok (firstChunk ++ reads.flatten), reads.map .ok) ∧
      reads <+: chunks ∧
      (∀ k < reads.length,
        (firstChunk ++ (reads.take k).flatten).length < pdfSignature.length) ∧
      (reads = chunks ∨ pdfSignature.length ≤ (firstChunk ++ reads.flatten).length) := by
  induction chunks generalizing firstChunk with
  | nil => exact ⟨[], by simp [readFirstChunk]⟩
  | cons chunk chunks ih =>
    by_cases hlong : pdfSignature.length ≤ (firstChunk ++ chunk).length
    · have hloop : readFirstChunk firstChunk ((chunk :: chunks).map .ok) =
          (.ok (firstChunk ++ chunk), [.ok chunk]) := by
        simp only [List.map_cons, readFirstChunk, if_pos hlong]
      refine ⟨[chunk], by simpa using hloop, by simp, ?_, Or.inr (by simpa using hlong)⟩
      intro k hk
      obtain rfl : k = 0 := by simpa using hk
      simpa using hshort
    · obtain ⟨reads, hloop, hstart, hfew, henough⟩ := ih (firstChunk ++ chunk) (by omega)
      refine ⟨chunk :: reads, ?_, List.cons_prefix_cons.mpr ⟨rfl, hstart⟩, ?_, ?_⟩
      · simp only [List.map_cons, readFirstChunk, if_neg hlong, hloop, List.flatten_cons,
          List.append_assoc]
      · intro k hk
        cases k with
        | zero => simpa using hshort
        | succ k => simpa using hfew k (by simpa using hk)
      · simpa using henough

theorem reads_of_readFirstChunk (chunks : List Bytes) :
    ∃ reads, Reads chunks reads ∧
      readFirstChunk [] (chunks.map .ok) = (.ok reads.flatten, reads.map .ok) := by
  obtain ⟨reads, hloop, hstart, hfew, henough⟩ := readFirstChunk_ok [] chunks (by decide)
  exact ⟨reads, ⟨hstart, hfew, henough⟩, hloop⟩

/-! ## The answer -/

/-- The call comes to a successful response to its `GET` that has no PDF headers: the URL is one of
HTTP, and the `HEAD` request has not answered the question. -/
structure Streams (rt : Runtime) (url : String) (timeoutS : ℚ) (parsedUrl : ParsedUrl)
    (client : AsyncClient) (response : StreamResponse) : Prop where
  url_ne : url ≠ ""
  parsed : rt.urlparse url = .ok parsedUrl
  scheme : parsedUrl.scheme ∈ ["http", "https"]
  netloc : parsedUrl.netloc ≠ ""
  client_eq : rt.asyncClient ⟨true, timeoutS, pdfLinkHeaders⟩ = client
  head : client.head url = .error .httpError ∨ ∃ headResponse, client.head url = .ok headResponse ∧
    (headResponse.isSuccess && rt.hasPdfHeaders headResponse.headers) = false
  get : client.stream url
    (if rt.isAshxLink parsedUrl then [] else [("Range", "bytes=0-4")]) = .ok response
  success : response.isSuccess = true
  noHeaders : rt.hasPdfHeaders response.headers = false

section answer
variable {rt rt' : Runtime} {url url' : String} {timeoutS timeoutS' : ℚ}
  {parsedUrl parsedUrl' : ParsedUrl} {client client' : AsyncClient}
  {response response' : StreamResponse} {chunks chunks' : List Bytes}

theorem verifyLink_of_streams (h : Streams rt url timeoutS parsedUrl client response) :
    rt.verifyLink client url parsedUrl = rt.verifyStream response := by
  have hrange : "bytes=0-" ++ pyStr ((pdfSignature.length : Int) - 1) = "bytes=0-4" := by decide
  have hget := h.get
  unfold Runtime.verifyLink
  rw [hrange]
  rcases h.head with herror | ⟨headResponse, hok, hno⟩ <;> grind

/-- The answer is that of the whole body, and no chunk is read that is not needed. -/
theorem verdict_of_streams (h : Streams rt url timeoutS parsedUrl client response)
    (hbody : response.body = chunks.map .ok) :
    ∃ reads, Reads chunks reads ∧ rt.verifyPdfLink (some url) timeoutS =
      ⟨.ok (decide (pdfSignature <+: chunks.flatten)), reads.map .ok⟩ := by
  obtain ⟨reads, hreads, hloop⟩ := reads_of_readFirstChunk chunks
  refine ⟨reads, hreads, ?_⟩
  have hstream : rt.verifyStream response =
      ⟨.ok (decide (pdfSignature <+: chunks.flatten)), reads.map .ok⟩ := by
    have hsig := hreads.isPrefix_iff
    have hiff : pdfSignature.isPrefixOf reads.flatten =
        decide (pdfSignature <+: chunks.flatten) := by grind [List.isPrefixOf_iff_prefix]
    simp [Runtime.verifyStream, h.success, h.noHeaders, hbody, hloop, Except.map, hiff]
  have hscheme : ¬ (parsedUrl.scheme ∉ ["http", "https"] ∨ parsedUrl.netloc = "") := by
    have := h.scheme
    have := h.netloc
    grind
  have hurl : (some url).filter (· ≠ "") = some url := by simp [h.url_ne]
  unfold Runtime.verifyPdfLink
  rw [hurl]
  simp only [h.parsed, hscheme, if_false, h.client_eq, verifyLink_of_streams h, hstream]

/-- Two calls that stream one body give one answer, wherever the body is cut: whether the whole body
starts with the signature. Neither reads a chunk once five bytes are there. -/
theorem answer_independent_of_chunks (h : Streams rt url timeoutS parsedUrl client response)
    (h' : Streams rt' url' timeoutS' parsedUrl' client' response')
    (hbody : response.body = chunks.map .ok) (hbody' : response'.body = chunks'.map .ok)
    (hsame : chunks.flatten = chunks'.flatten) :
    ∃ reads reads' : List Bytes, Reads chunks reads ∧ Reads chunks' reads' ∧
      rt.verifyPdfLink (some url) timeoutS =
        ⟨.ok (decide (pdfSignature <+: chunks.flatten)), reads.map .ok⟩ ∧
      rt'.verifyPdfLink (some url') timeoutS' =
        ⟨.ok (decide (pdfSignature <+: chunks.flatten)), reads'.map .ok⟩ := by
  obtain ⟨reads, hreads, hverdict⟩ := verdict_of_streams h hbody
  obtain ⟨reads', hreads', hverdict'⟩ := verdict_of_streams h' hbody'
  exact ⟨reads, reads', hreads, hreads', hverdict, hsame ▸ hverdict'⟩

/-- A service that answers every `HEAD` with 404 and streams the chunks to every `GET`. -/
def served (chunks : List Bytes) : Runtime where
  urlparse _ := .ok ⟨"http", "example.com", "/file.pdf"⟩
  lower := String.toLower
  asyncClient _ :=
    { head := fun _ => .ok ⟨false, []⟩, stream := fun _ _ => .ok ⟨⟨true, []⟩, chunks.map .ok⟩ }

theorem streams_served (chunks : List Bytes) :
    Streams (served chunks) "http://example.com/file.pdf" 5 ⟨"http", "example.com", "/file.pdf"⟩
      ((served chunks).asyncClient ⟨true, 5, pdfLinkHeaders⟩)
      ⟨⟨true, []⟩, chunks.map .ok⟩ where
  url_ne := by decide
  parsed := rfl
  scheme := by decide
  netloc := by decide
  client_eq := rfl
  head := Or.inr ⟨_, rfl, rfl⟩
  get := rfl
  success := rfl
  noHeaders := by
    have hlower : String.toLower "" = "" := by decide +kernel
    have htype : pyContains "" pdfContentType = false := by decide
    have hextension : pyContains "" pdfFileExtension = false := by decide
    simp [Runtime.hasPdfHeaders, Headers.get, served, hlower, htype, hextension]

/-- The signature in one chunk, and cut in two with an empty chunk between. -/
theorem answer_independent_of_chunks_cut :
    ∃ reads reads' : List Bytes,
      Reads [bytesOf "%PDF-1.7"] reads ∧ Reads [bytesOf "%P", [], bytesOf "DF-1.7"] reads' ∧
      (served [bytesOf "%PDF-1.7"]).verifyPdfLink (some "http://example.com/file.pdf") 5 =
        ⟨.ok (decide (pdfSignature <+: [bytesOf "%PDF-1.7"].flatten)), reads.map .ok⟩ ∧
      (served [bytesOf "%P", [], bytesOf "DF-1.7"]).verifyPdfLink
          (some "http://example.com/file.pdf") 5 =
        ⟨.ok (decide (pdfSignature <+: [bytesOf "%PDF-1.7"].flatten)), reads'.map .ok⟩ :=
  answer_independent_of_chunks (streams_served _) (streams_served _) rfl rfl (by decide)

end answer

end BaseWebService.Tools
