import BaseWebService.RateLimit.Identity

/-!
# Who a forwarded request claims to be

A trusted proxy appends the address of its peer to the list that the client has sent. The IP
check takes the first element of the list, which is the client's to choose: `same_key_iff` says
when two requests of one client are counted together.
-/

namespace BaseWebService.RateLimit

open Library

/-- `$proxy_add_x_forwarded_for`: the real address after what the client has sent. -/
def appended (sent : Option String) (real : String) : String :=
  match sent with
  | some text => text ++ ", " ++ real
  | none => real

/-- A request of the client at `real`, which has sent `sent`, through a trusted proxy. -/
structure ThroughProxy (config : RateLimitConfig) (real : String) (sent : Option String)
    (request : Request Metered) : Prop where
  address : real ≠ ""
  proxies : config.trustedProxyIps ≠ []
  peer : ∃ host ∈ config.trustedProxyIps, request.client = some host
  header : request.headers "x-forwarded-for" = some (appended sent real)
  store : request.store = some meter

/-- Same method and same route. -/
structure SameRoute (r r' : Request Metered) : Prop where
  method : r.method = r'.method
  route : r.routePath = r'.routePath
  path : truthy r.routePath = none → r.urlPath = r'.urlPath

/-- The keys that the IP check uses for a request. -/
def ipCheckKeys (digest : String → String) (config : RateLimitConfig) (limit windowSeconds : Int)
    (answer : List HitCall → HitCall → Except Error RateLimitResult) (request : Request Metered) :
    List String :=
  ((checkIpLimit digest request config limit windowSeconds true).run (record answer) []).2.map
    (·.key)

/-- Who the request is from, for the IP check: what stands before the first comma. -/
def claimed (sent : Option String) (real : String) : String := firstElement (sent.getD real)

section forwarded
variable {config : RateLimitConfig} {real : String} {sent : Option String}
  {request : Request Metered}

theorem takeWhile_append_comma (l r : List Char) :
    (l ++ ',' :: r).takeWhile (· != ',') = l.takeWhile (· != ',') := by
  induction l with
  | nil => rfl
  | cons c cs ih => simp [List.takeWhile_cons, ih]

/-- What the proxy appends does not change the first element. -/
theorem firstElement_appended (sent : Option String) (real : String) :
    firstElement (appended sent real) = claimed sent real := by
  cases sent with
  | none => rfl
  | some text =>
    have hlist : (text ++ ", " ++ real).toList = text.toList ++ ',' :: ' ' :: real.toList := by
      simp [String.toList_append]
    simp only [firstElement, claimed, appended, hlist, takeWhile_append_comma, Option.getD_some]

/-- A request through a trusted proxy is taken for what its header claims. -/
theorem getClientIp_throughProxy (h : ThroughProxy config real sent request) :
    getClientIp request config true = some (claimed sent real) := by
  obtain ⟨host, hhost, hclient⟩ := h.peer
  have htrust : trustsPeer request config true = true := by simp [trustsPeer, hclient, hhost]
  have hheader : truthy (request.headers "x-forwarded-for") = some (appended sent real) := by
    rw [h.header, truthy, Option.filter_some, if_pos]
    cases sent with
    | none => exact decide_eq_true h.address
    | some text => simp [appended]
  unfold getClientIp
  rw [if_pos htrust, hheader]
  exact congrArg some (firstElement_appended sent real)

/-- The IP check uses one key, or none for a blank claim. -/
theorem ipCheckKeys_eq {digest : String → String} {limit windowSeconds : Int}
    {answer : List HitCall → HitCall → Except Error RateLimitResult}
    (h : ThroughProxy config real sent request) :
    ipCheckKeys digest config limit windowSeconds answer request =
      ((truthy (some (claimed sent real))).map (buildRateLimitKey digest "ip" request)).toList := by
  unfold ipCheckKeys checkIpLimit
  rw [getClientIp_throughProxy h]
  cases truthy (some (claimed sent real)) with
  | none => rfl
  | some identifier =>
    rw [run_checkLimit h.store]
    rfl

theorem SameRoute.scope_eq {r r' : Request Metered} (h : SameRoute r r') :
    rateLimitRequestScope r = rateLimitRequestScope r' := by
  obtain ⟨hmethod, hroute, hpath⟩ := h
  unfold rateLimitRequestScope
  rw [hmethod, ← hroute]
  cases hr : r.routePath with
  | none => rw [hpath (by simp [hr, truthy])]
  | some path =>
    by_cases hempty : path = ""
    · rw [hpath (by simp [hr, truthy, hempty])]
    · simp [hempty]

/-- On one route, the digest of the identifier tells the keys apart. -/
theorem buildRateLimitKey_inj {digest : String → String} {r r' : Request Metered}
    (h : SameRoute r r') (identifier identifier' : String) :
    buildRateLimitKey digest "ip" r identifier = buildRateLimitKey digest "ip" r' identifier' ↔
      digest identifier = digest identifier' := by
  unfold buildRateLimitKey
  rw [h.scope_eq, ← String.toList_inj]
  simp [String.toList_append, String.toList_inj]

/-- Two requests of one client are counted under the same key if and only if what stands before
the first comma of their headers is the same, as far as the digest can tell, or blank in both. -/
theorem same_key_iff {digest : String → String} {limit windowSeconds : Int}
    {answer : List HitCall → HitCall → Except Error RateLimitResult} {r r' : Request Metered}
    {sent' : Option String} (h : ThroughProxy config real sent r)
    (h' : ThroughProxy config real sent' r') (hroute : SameRoute r r') :
    ipCheckKeys digest config limit windowSeconds answer r =
        ipCheckKeys digest config limit windowSeconds answer r' ↔
      (truthy (some (claimed sent real))).map digest =
        (truthy (some (claimed sent' real))).map digest := by
  rw [ipCheckKeys_eq h, ipCheckKeys_eq h']
  cases truthy (some (claimed sent real)) with
  | none => cases truthy (some (claimed sent' real)) <;> simp
  | some identifier =>
    cases truthy (some (claimed sent' real)) with
    | none => simp
    | some identifier' => simpa using buildRateLimitKey_inj hroute identifier identifier'

end forwarded

/-! ## A client behind a proxy -/

def trustingConfig : RateLimitConfig :=
  { sampleConfig with rateLimitTrustProxyHeaders := true, trustedProxyIps := ["10.0.0.1"] }

/-- What the proxy at `10.0.0.1` makes of a request of the client at `203.0.113.9`. -/
def viaProxy (sent : Option String) : Request Metered := forwarded (appended sent "203.0.113.9")

theorem viaProxy_throughProxy (sent : Option String) :
    ThroughProxy trustingConfig "203.0.113.9" sent (viaProxy sent) where
  address := by decide
  proxies := by decide
  peer := ⟨"10.0.0.1", by decide, rfl⟩
  header := rfl
  store := rfl

/-- The first digits of the SHA-256 of three addresses. -/
def sampleDigest (text : String) : String :=
  if text = "198.51.100.1" then "7f60d869b36f6e64"
  else if text = "198.51.100.2" then "8c9bbd8a13b8a1f9"
  else if text = "203.0.113.9" then "d861b7e91033ebc1"
  else ""

/-- Two lists that start with the same element. -/
theorem same_key_iff_first :
    ipCheckKeys sampleDigest trustingConfig 120 60 admitAll
        (viaProxy (some "198.51.100.1, 10.1.1.1")) =
      ipCheckKeys sampleDigest trustingConfig 120 60 admitAll
        (viaProxy (some " 198.51.100.1 ,x")) := by
  have hclaimed : claimed (some "198.51.100.1, 10.1.1.1") "203.0.113.9" =
      claimed (some " 198.51.100.1 ,x") "203.0.113.9" := by decide
  have hroute : SameRoute (viaProxy (some "198.51.100.1, 10.1.1.1"))
    (viaProxy (some " 198.51.100.1 ,x")) := ⟨rfl, rfl, fun _ => rfl⟩
  apply (same_key_iff (viaProxy_throughProxy _) (viaProxy_throughProxy _) hroute).mpr
  rw [hclaimed]

/-- The same client under two addresses of its choice, and under none at all. -/
theorem client_chooses_key :
    ipCheckKeys sampleDigest trustingConfig 120 60 admitAll (viaProxy (some "198.51.100.1")) =
      ["rate_limit:ip:GET:/items:7f60d869b36f6e64"] ∧
    ipCheckKeys sampleDigest trustingConfig 120 60 admitAll (viaProxy (some "198.51.100.2")) =
      ["rate_limit:ip:GET:/items:8c9bbd8a13b8a1f9"] ∧
    ipCheckKeys sampleDigest trustingConfig 120 60 admitAll (viaProxy (some "")) = [] := by
  decide

end BaseWebService.RateLimit
