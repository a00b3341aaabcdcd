import BaseWebService.Library.PyUrl

/-!
# Uploads and their public URLs

`S3FileUploader` of `core/infra/storage/s3_file_uploader.py`. The boto3 client is outside: how it
answers a call is a parameter, and a call that it answers without an exception has stored the
object it was given.

## Main results

* `pyUnquote_publicUrl` : what a public URL addresses is the file name without its leading slashes.
* `addresses_iff` : when that is the key of the stored object, and when two names get two URLs.
-/

namespace BaseWebService.Storage

open Library

structure ResultUploadFile where
  success : Bool := true
  url : Option String := none
  message : Option String := none

structure Settings where
  doSpaceName : String
  doEndpointUrl : String

/-- The arguments of `upload_fileobj`, and so the object that the call stores. -/
structure StoredObject where
  content : Bytes
  spaceName : String
  key : String
  acl : String

/-- How the client answers a call. -/
inductive Reply where
  | stored
  | clientError (text : String)
  | otherException

structure S3FileUploader where
  spaceName : String
  endpointUrl : String

namespace S3FileUploader

def init (settings : Settings) (spaceName endpointUrl : Option String) : S3FileUploader where
  spaceName := (spaceName.filter (· ≠ "")).getD settings.doSpaceName
  endpointUrl := pyRstrip ((endpointUrl.filter (· ≠ "")).getD settings.doEndpointUrl) "/"

variable (u : S3FileUploader)

/-- Where the URLs of an uploader begin. -/
def publicRoot : String := u.endpointUrl ++ "/" ++ u.spaceName ++ "/"

def buildPublicUrl (fileName : String) : String :=
  let safeFileName := pyQuote (pyLstrip fileName "/") "/"
  u.publicRoot ++ safeFileName

/-- The result, where `none` is an exception that is let through, and the objects in the store,
newest first. -/
def uploadFileContent (client : StoredObject → Reply) (fileContent : Bytes) (fileName : String)
    (objects : List StoredObject) : Option ResultUploadFile × List StoredObject :=
  let object : StoredObject :=
    { content := fileContent, spaceName := u.spaceName, key := fileName, acl := "public-read" }
  match client object with
  | .stored => (some { url := some (u.buildPublicUrl fileName) }, object :: objects)
  | .clientError error =>
    (some { success := false, message := some ("Không thể upload file: " ++ error) }, objects)
  | .otherException => (none, objects)

/-- An upload that succeeds stores one object, under the file name, and returns its URL. -/
theorem uploadFileContent_success {client : StoredObject → Reply} {fileContent : Bytes}
    {fileName : String} {objects objects' : List StoredObject} {result : ResultUploadFile}
    (hrun : u.uploadFileContent client fileContent fileName objects = (some result, objects'))
    (hsuccess : result.success = true) :
    result.url = some (u.buildPublicUrl fileName) ∧
      objects' = ⟨fileContent, u.spaceName, fileName, "public-read"⟩ :: objects := by
  unfold uploadFileContent at hrun
  grind

/-- Any other call stores nothing and returns no URL. -/
theorem uploadFileContent_failure {client : StoredObject → Reply} {fileContent : Bytes}
    {fileName : String} {objects objects' : List StoredObject} {result : Option ResultUploadFile}
    (hrun : u.uploadFileContent client fileContent fileName objects = (result, objects'))
    (hfailure : ∀ r, result = some r → r.success = false) :
    objects' = objects ∧ ∀ r, result = some r → r.url = none := by
  unfold uploadFileContent at hrun
  grind

/-! ## What a URL addresses -/

/-- The part of the URL after the endpoint and the space is decoded to `key`. -/
def Addresses (url key : String) : Prop :=
  ∃ path, url = u.publicRoot ++ path ∧ pyUnquote path = some key

theorem percent_not_safe : '%' ∉ "/".toList := by decide

/-- What a public URL addresses is the file name without its leading slashes. -/
theorem addresses_buildPublicUrl (fileName key : String) :
    u.Addresses (u.buildPublicUrl fileName) key ↔ pyLstrip fileName "/" = key := by
  have hdecoded := pyUnquote_pyQuote percent_not_safe (pyLstrip fileName "/")
  constructor
  · rintro ⟨path, hurl, hpath⟩
    obtain rfl : pyQuote (pyLstrip fileName "/") "/" = path := String.append_right_inj _ |>.mp hurl
    rw [hdecoded] at hpath
    exact Option.some_inj.mp hpath
  · rintro rfl
    exact ⟨_, rfl, hdecoded⟩

/-- Two names have one URL exactly if they differ in leading slashes only. -/
theorem buildPublicUrl_inj (fileName fileName' : String) :
    u.buildPublicUrl fileName = u.buildPublicUrl fileName' ↔
      pyLstrip fileName "/" = pyLstrip fileName' "/" := by
  rw [buildPublicUrl, buildPublicUrl, String.append_right_inj]
  exact (pyQuote_injective percent_not_safe).eq_iff

/-- Whatever the client answers and whatever is uploaded under the name, a call that succeeds
returns a URL that addresses the object it has stored. -/
def UrlAddressesObject (fileName : String) : Prop :=
  ∀ client fileContent objects result objects',
    u.uploadFileContent client fileContent fileName objects = (some result, objects') →
      result.success = true → ∃ url object, result.url = some url ∧
        objects' = object :: objects ∧ u.Addresses url object.key

/-- Two calls that succeed, under different names, return different URLs. -/
def UrlsDiffer (fileName fileName' : String) : Prop :=
  fileName ≠ fileName' → ∀ client fileContent objects result objects₁
    client' fileContent' objects' result' objects₁',
      u.uploadFileContent client fileContent fileName objects = (some result, objects₁) →
        u.uploadFileContent client' fileContent' fileName' objects' = (some result', objects₁') →
          result.success = true → result'.success = true → result.url ≠ result'.url

theorem urlAddressesObject_iff (fileName : String) :
    u.UrlAddressesObject fileName ↔ pyLstrip fileName "/" = fileName := by
  constructor
  · intro h
    obtain ⟨url, object, hurl, hobjects, haddresses⟩ :=
      h (fun _ => .stored) [] [] _ _ rfl rfl
    obtain rfl := Option.some_inj.mp hurl
    obtain rfl := (List.cons.inj hobjects).1
    exact (u.addresses_buildPublicUrl _ _).mp haddresses
  · intro hstrip client fileContent objects result objects' hrun hsuccess
    obtain ⟨hurl, hobjects⟩ := u.uploadFileContent_success hrun hsuccess
    exact ⟨_, _, hurl, hobjects, (u.addresses_buildPublicUrl _ _).mpr hstrip⟩

theorem urlsDiffer_iff (fileName fileName' : String) :
    u.UrlsDiffer fileName fileName' ↔
      (pyLstrip fileName "/" = pyLstrip fileName' "/" → fileName = fileName') := by
  constructor
  · intro h hstrip
    by_contra hne
    exact h hne (fun _ => .stored) [] [] _ _ (fun _ => .stored) [] [] _ _ rfl rfl rfl rfl
      (congrArg some ((u.buildPublicUrl_inj _ _).mpr hstrip))
  · intro h hne client fileContent objects result objects₁ client' fileContent' objects' result'
      objects₁' hrun hrun' hsuccess hsuccess' hurls
    obtain ⟨hurl, -⟩ := u.uploadFileContent_success hrun hsuccess
    obtain ⟨hurl', -⟩ := u.uploadFileContent_success hrun' hsuccess'
    rw [hurl, hurl', Option.some_inj, u.buildPublicUrl_inj] at hurls
    exact hne (h hurls)

/-- The URLs of an uploader address the objects it stores exactly for the names without a leading
slash, and they tell two names apart unless these differ in leading slashes only. -/
theorem publicUrl_addresses_iff :
    (∀ fileName, u.UrlAddressesObject fileName ↔ fileName.toList.head? ≠ some '/') ∧
      ∀ fileName fileName', u.UrlsDiffer fileName fileName' ↔
        (pyLstrip fileName "/" = pyLstrip fileName' "/" → fileName = fileName') := by
  constructor
  · intro fileName
    have hslash : "/".toList = ['/'] := by decide
    rw [urlAddressesObject_iff, pyLstrip_eq_self_iff, hslash]
    cases fileName.toList.head? <;> simp
  · exact u.urlsDiffer_iff

/-- The object `/a.pdf` gets the URL of `a.pdf`. -/
theorem leading_slash_lost :
    let u := init ⟨"space", "https://sgp1.digitaloceanspaces.com/"⟩ none none
    ¬ u.UrlAddressesObject "/a.pdf" ∧ ¬ u.UrlsDiffer "/a.pdf" "a.pdf" := by
  intro u
  have hname : pyLstrip "/a.pdf" "/" = "a.pdf" := by decide
  have hother : pyLstrip "a.pdf" "/" = "a.pdf" := by decide
  rw [urlAddressesObject_iff, urlsDiffer_iff, hname, hother]
  exact ⟨by decide, fun h => absurd (h rfl) (by decide)⟩

end S3FileUploader

end BaseWebService.Storage
