import BaseWebService.RateLimit.Stacked

/-!
# What a rejected request costs

A dependency makes up to two checks, by IP and by identity, one after the other. Each check that
passes adds its entry at once, so a request that the second check turns away has already paid at
the first. `rejected_spends_nothing_iff` names the states in which that happens.
-/

namespace BaseWebService.RateLimit

open Library Redis RedisSlidingWindowRateLimiter

/-- One of the checks of a dependency. -/
structure Check where
  scope : String
  identifier : String
  limit : Int
  windowSeconds : Int

namespace Check

def key (digest : String → String) (request : Request M) (c : Check) : String :=
  buildRateLimitKey digest c.scope request c.identifier

/-- The check gets as far as the window. -/
def Applies (request : Request M) (c : Check) : Prop :=
  request.store ≠ none ∧ 0 < c.limit ∧ 0 < c.windowSeconds

/-- How many entries of the key are left after the trim. -/
def count (digest : String → String) (request : Request M) (c : Check) (s : ZServer) : Int :=
  ((trimmed (c.key digest request) s c.windowSeconds).keys (c.key digest request)).members.length

/-- There is room in the window. -/
def Admits (digest : String → String) (request : Request M) (c : Check) (s : ZServer) : Prop :=
  c.Applies request ∧ c.count digest request s < c.limit

/-- The window is full. -/
def Rejects (digest : String → String) (request : Request M) (c : Check) (s : ZServer) : Prop :=
  c.Applies request ∧ c.limit ≤ c.count digest request s

def run (digest : String → String) (request : Request M) : Option Check → M Unit
  | none => pure ()
  | some c => checkLimit digest c.scope request c.identifier c.limit c.windowSeconds

end Check

/-- A request, and the dependency in its way. -/
structure Guarded where
  limits : RateLimitArgs M
  config : RateLimitConfig
  request : Request M

namespace Guarded

def ipCheck (g : Guarded) : Option Check :=
  if g.config.rateLimitEnabled && resolveBool g.limits.byIp g.config.rateLimitByIpEnabled then
    (truthy (getClientIp g.request g.config
      (resolveBool g.limits.trustProxyHeaders g.config.rateLimitTrustProxyHeaders))).map fun ip =>
      { scope := "ip"
        identifier := ip
        limit := intOr g.limits.ipRequests g.config.rateLimitIpRequests
        windowSeconds := intOr g.limits.ipWindowSeconds g.config.rateLimitIpWindowSeconds }
  else none

def authCheck (g : Guarded) : Option Check :=
  if g.config.rateLimitEnabled && resolveBool g.limits.byAuth g.config.rateLimitByAuthEnabled then
    (truthy (g.limits.authIdentifierGetter.bind fun getter => getter g.request)).map
      fun identifier =>
      { scope := "auth"
        identifier := identifier
        limit := intOr g.limits.authRequests g.config.rateLimitAuthRequests
        windowSeconds := intOr g.limits.authWindowSeconds g.config.rateLimitAuthWindowSeconds }
  else none

theorem run_ipCheck (g : Guarded) (digest : String → String)
    (hon : g.config.rateLimitEnabled = true) : Check.run digest g.request g.ipCheck =
      if resolveBool g.limits.byIp g.config.rateLimitByIpEnabled then
        checkIpLimit digest g.request g.config
          (intOr g.limits.ipRequests g.config.rateLimitIpRequests)
          (intOr g.limits.ipWindowSeconds g.config.rateLimitIpWindowSeconds)
          (resolveBool g.limits.trustProxyHeaders g.config.rateLimitTrustProxyHeaders)
      else pure () := by
  simp only [ipCheck, hon, Bool.true_and, checkIpLimit]
  split_ifs
  · cases truthy (getClientIp g.request g.config
      (resolveBool g.limits.trustProxyHeaders g.config.rateLimitTrustProxyHeaders)) <;> rfl
  · rfl

theorem run_authCheck (g : Guarded) (digest : String → String)
    (hon : g.config.rateLimitEnabled = true) : Check.run digest g.request g.authCheck =
      if resolveBool g.limits.byAuth g.config.rateLimitByAuthEnabled then
        match truthy (g.limits.authIdentifierGetter.bind fun getter => getter g.request) with
        | none => pure ()
        | some identifier => checkAuthLimit digest g.request identifier
            (intOr g.limits.authRequests g.config.rateLimitAuthRequests)
            (intOr g.limits.authWindowSeconds g.config.rateLimitAuthWindowSeconds)
      else pure () := by
  simp only [authCheck, hon, Bool.true_and]
  split_ifs
  · cases truthy (g.limits.authIdentifierGetter.bind fun getter => getter g.request) <;> rfl
  · rfl

/-- A dependency is its two checks in a row. -/
theorem dependency_eq (g : Guarded) (digest : String → String) :
    g.limits.dependency digest g.config g.request =
      Check.run digest g.request g.ipCheck >>= fun _ =>
        Check.run digest g.request g.authCheck := by
  cases hon : g.config.rateLimitEnabled with
  | false => simp [RateLimitArgs.dependency, ipCheck, authCheck, hon, Check.run]
  | true =>
    rw [g.run_ipCheck digest hon, g.run_authCheck digest hon]
    unfold RateLimitArgs.dependency
    rw [if_pos hon]
    split_ifs <;> rfl

end Guarded

/-- The store a request finds is the one `init_rate_limiter` has left, if any. -/
def Backed (request : Request M) : Prop :=
  ∀ store, request.store = some store → ∃ config, store = redisStore config

/-- Some key holds some member more often than before. -/
def Gains (s t : ZServer) : Prop :=
  ∃ key m, (s.keys key).members.count m < (t.keys key).members.count m

def Error.isExceeded : Error → Bool
  | .rateLimitExceeded _ _ => true
  | _ => false

/-! ## One check -/

section check
variable {digest : String → String} {request : Request M} {c : Check} {s t : ZServer}

/-- What a check answers, and what it leaves. -/
inductive Check.Answers (digest : String → String) (request : Request M) (c : Check)
    (s : ZServer) : Except Error Unit → ZServer → Prop where
  | admitted : c.Admits digest request s → Answers digest request c s (.ok ())
      ((admission (c.key digest request) c.windowSeconds s.now).foldl ZServer.queued
        (trimmed (c.key digest request) s c.windowSeconds))
  | rejected {e : Error} : c.Rejects digest request s → e.isExceeded = true →
      Answers digest request c s (.error e) (trimmed (c.key digest request) s c.windowSeconds)
  | broken {e : Error} : ¬ c.Applies request → e.isExceeded = false →
      Answers digest request c s (.error e) s

/-- A limit that is not valid fails before the window is looked at. -/
theorem run_hit_invalid (config : RateLimitConfig) (key : String) {limit windowSeconds : Int}
    (s : ZServer) (hinvalid : ¬ (0 < limit ∧ 0 < windowSeconds)) : ∃ message,
      (hit config key limit windowSeconds).run ZServer.exec s =
        (.error (.valueError message), s) := by
  unfold hit validateWindowConfig
  split_ifs with hlimit hwindow
  · exact ⟨_, rfl⟩
  · exact ⟨_, rfl⟩
  · omega

theorem Check.answers (hbacked : Backed request) {outcome : Except Error Unit}
    (hrun : (Check.run digest request (some c)).run ZServer.exec s = (outcome, t)) :
    c.Answers digest request s outcome t := by
  cases hstore : request.store with
  | none =>
    simp only [Check.run, checkLimit, getRateLimiterStore, hstore] at hrun
    obtain ⟨rfl, rfl⟩ := Prod.mk.inj hrun
    exact .broken (fun happlies => happlies.1 hstore) rfl
  | some store =>
    obtain ⟨config, rfl⟩ := hbacked _ hstore
    have hcheck : Check.run digest request (some c) =
        hit config (c.key digest request) c.limit c.windowSeconds >>= fun result =>
          if result.exceeded then throw (.rateLimitExceeded c.scope result) else pure () := by
      simp only [Check.run, checkLimit, getRateLimiterStore, hstore]
      rfl
    rw [hcheck, Prog.run_bind] at hrun
    by_cases hvalid : 0 < c.limit ∧ 0 < c.windowSeconds
    · have happlies : c.Applies request := ⟨by simp [hstore], hvalid⟩
      rw [run_hit config _ s hvalid.1 hvalid.2] at hrun
      split_ifs at hrun with hfull
      · obtain ⟨rfl, rfl⟩ := Prod.mk.inj hrun
        exact .rejected ⟨happlies, hfull⟩ rfl
      · obtain ⟨rfl, rfl⟩ := Prod.mk.inj hrun
        exact .admitted ⟨happlies, not_le.mp hfull⟩
    · obtain ⟨message, hinvalid⟩ := run_hit_invalid config (c.key digest request) s hvalid
      rw [hinvalid] at hrun
      obtain ⟨rfl, rfl⟩ := Prod.mk.inj hrun
      exact .broken (fun happlies => hvalid happlies.2) rfl

/-- The check leaves the other keys as they are. -/
theorem Check.Answers.keys_eq {outcome : Except Error Unit}
    (h : c.Answers digest request s outcome t) {key : String}
    (hne : key ≠ c.key digest request) : t.keys key = s.keys key := by
  cases h with
  | admitted => simp [admission, trimmed, ZServer.queued, ZServer.set, Function.update_of_ne hne]
  | rejected => exact Function.update_of_ne hne _ _
  | broken => rfl

theorem Check.Answers.now_eq {outcome : Except Error Unit}
    (h : c.Answers digest request s outcome t) : t.now = s.now := by
  cases h with
  | admitted => rfl
  | rejected => rfl
  | broken => rfl

/-- A check that does not pass adds nothing. -/
theorem Check.Answers.not_gains {e : Error} (h : c.Answers digest request s (.error e) t) :
    ¬ Gains s t := by
  rintro ⟨key, m, hmore⟩
  by_cases hkey : key = c.key digest request
  · subst hkey
    cases h with
    | rejected =>
      rw [trimmed, ZServer.set_keys_self] at hmore
      have hless := ((s.keys (c.key digest request)).trim_shrinks 0
        (s.now - c.windowSeconds * 1000)).sublist.count_le m
      omega
    | broken => exact lt_irrefl _ hmore
  · rw [h.keys_eq hkey] at hmore
    exact lt_irrefl _ hmore

theorem Check.Answers.admits_of_ok (h : c.Answers digest request s (.ok ()) t) :
    c.Admits digest request s := by
  cases h with
  | admitted hadmits => exact hadmits

theorem Check.Answers.not_admits {e : Error} (h : c.Answers digest request s (.error e) t) :
    ¬ c.Admits digest request s := by
  rintro ⟨happlies, hroom⟩
  cases h with
  | rejected hrejects _ => exact not_lt.mpr hrejects.2 hroom
  | broken hbroken _ => exact hbroken happlies

theorem Check.Answers.exceeded_iff {e : Error} (h : c.Answers digest request s (.error e) t) :
    e.isExceeded = true ↔ c.Rejects digest request s := by
  cases h with
  | rejected hrejects hexceeded => exact iff_of_true hexceeded hrejects
  | broken hbroken hother =>
    refine iff_of_false (by simp [hother]) fun hrejects => hbroken hrejects.1

/-- What a check finds depends on its own key alone. -/
theorem Check.count_congr (hkey : t.keys (c.key digest request) = s.keys (c.key digest request))
    (hnow : t.now = s.now) : c.count digest request t = c.count digest request s := by
  simp only [Check.count, trimmed, ZServer.set_keys_self, hkey, hnow]

/-- The trim keeps a member of this very moment as often as it is there. -/
theorem count_trim_now (k : ZKey) {windowSeconds now : Int} (hwindow : 0 < windowSeconds) (id : ℕ) :
    (k.trim 0 (now - windowSeconds * 1000)).members.count (id, now) =
      k.members.count (id, now) := by
  rw [ZKey.trim, ZKey.keep_members k List.filter_sublist, List.count_filter]
  grind

/-- One that passes adds an entry under its key. -/
theorem Check.Answers.gains (h : c.Answers digest request s (.ok ()) t) :
    ∃ m, ((s.keys (c.key digest request)).members.count m) <
      ((t.keys (c.key digest request)).members.count m) := by
  cases h with
  | admitted hadmits =>
    obtain ⟨⟨-, -, hwindow⟩, -⟩ := hadmits
    obtain ⟨-, -, hadded⟩ := (trimmed (c.key digest request) s c.windowSeconds).admit_spec
      (c.key digest request) s.now (windowTtlSeconds c.windowSeconds)
    refine ⟨(s.nextUuid, s.now), ?_⟩
    calc (s.keys (c.key digest request)).members.count (s.nextUuid, s.now)
        = ((trimmed (c.key digest request) s c.windowSeconds).keys
            (c.key digest request)).members.count (s.nextUuid, s.now) := by
          rw [trimmed, ZServer.set_keys_self, count_trim_now _ hwindow]
      _ < _ := by
          rw [admission, hadded.perm.count_eq, trimmed]
          simp [ZServer.set]

end check

/-! ## Both checks -/

namespace Guarded

/-- The IP check passes and the check by identity finds its window full. -/
def Drains (digest : String → String) (g : Guarded) (s : ZServer) : Prop :=
  ∃ ip auth, g.ipCheck = some ip ∧ g.authCheck = some auth ∧
    ip.Admits digest g.request s ∧ auth.Rejects digest g.request s

/-- The IP check passes and the check by identity does not. -/
def Wastes (digest : String → String) (g : Guarded) (s : ZServer) : Prop :=
  ∃ ip auth, g.ipCheck = some ip ∧ g.authCheck = some auth ∧
    ip.Admits digest g.request s ∧ ¬ auth.Admits digest g.request s

/-- How a request ends, and whether it has paid. -/
inductive Ends (digest : String → String) (g : Guarded) (s : ZServer) :
    Except Error Unit → ZServer → Prop where
  | passed {t : ZServer} : ¬ g.Wastes digest s → Ends digest g s (.ok ()) t
  | free {e : Error} {t : ZServer} : ¬ g.Wastes digest s → ¬ Gains s t →
      Ends digest g s (.error e) t
  | paid {e : Error} {t : ZServer} : g.Wastes digest s →
      (e.isExceeded = true ↔ g.Drains digest s) → Gains s t → Ends digest g s (.error e) t

variable {digest : String → String} {g : Guarded} {s t : ZServer}

theorem scope_of_ipCheck {c : Check} (h : g.ipCheck = some c) : c.scope = "ip" := by
  unfold ipCheck at h
  split_ifs at h
  obtain ⟨ip, -, rfl⟩ := Option.map_eq_some_iff.mp h
  rfl

theorem scope_of_authCheck {c : Check} (h : g.authCheck = some c) : c.scope = "auth" := by
  unfold authCheck at h
  split_ifs at h
  obtain ⟨identifier, -, rfl⟩ := Option.map_eq_some_iff.mp h
  rfl

/-- The two checks never share a key. -/
theorem key_ne {ip auth : Check} (hip : g.ipCheck = some ip) (hauth : g.authCheck = some auth) :
    auth.key digest g.request ≠ ip.key digest g.request := by
  intro heq
  have hstart : ∀ c : Check, c.key digest g.request =
      "rate_limit:" ++ c.scope ++ ":" ++ rateLimitRequestScope g.request ++ ":" ++
        digest c.identifier := fun _ => rfl
  rw [hstart, hstart, scope_of_ipCheck hip, scope_of_authCheck hauth] at heq
  have hchars := congrArg (fun key => key.toList[11]?) heq
  simp [String.toList_append] at hchars

/-- The second check, once the first one has passed. -/
theorem ends_of_paid {ip auth : Check} (hip : g.ipCheck = some ip) (hauth : g.authCheck = some auth)
    {u : ZServer} (hpaid : ip.Answers digest g.request s (.ok ()) u) {outcome : Except Error Unit}
    (hanswers : auth.Answers digest g.request u outcome t) : g.Ends digest s outcome t := by
  have hkey := hpaid.keys_eq (key_ne hip hauth)
  have hcount : auth.count digest g.request u = auth.count digest g.request s :=
    Check.count_congr hkey hpaid.now_eq
  have hadmits : auth.Admits digest g.request u ↔ auth.Admits digest g.request s := by
    rw [Check.Admits, hcount, Check.Admits]
  have hrejects : auth.Rejects digest g.request u ↔ auth.Rejects digest g.request s := by
    rw [Check.Rejects, hcount, Check.Rejects]
  cases outcome with
  | ok =>
    refine .passed ?_
    rintro ⟨ip', auth', hip', hauth', -, hnot⟩
    obtain rfl := Option.some.inj (hauth.symm.trans hauth')
    exact hnot (hadmits.mp hanswers.admits_of_ok)
  | error e =>
    refine .paid ⟨ip, auth, hip, hauth, hpaid.admits_of_ok, ?_⟩ ?_ ?_
    · exact fun hadmitted => hanswers.not_admits (hadmits.mpr hadmitted)
    · rw [hanswers.exceeded_iff, hrejects]
      constructor
      · exact fun hrejected => ⟨ip, auth, hip, hauth, hpaid.admits_of_ok, hrejected⟩
      · rintro ⟨ip', auth', hip', hauth', -, hrejected⟩
        obtain rfl := Option.some.inj (hauth.symm.trans hauth')
        exact hrejected
    · obtain ⟨m, hmore⟩ := hpaid.gains
      refine ⟨ip.key digest g.request, m, ?_⟩
      have hsame := hanswers.keys_eq (key_ne hip hauth).symm
      rwa [hsame]

/-- A request ends as its two checks say. -/
theorem ends (hbacked : Backed g.request) {outcome : Except Error Unit}
    (hrun : (g.limits.dependency digest g.config g.request).run ZServer.exec s = (outcome, t)) :
    g.Ends digest s outcome t := by
  rw [g.dependency_eq digest, Prog.run_bind] at hrun
  cases hip : g.ipCheck with
  | none =>
    have hfree : ¬ g.Wastes digest s := by
      rintro ⟨ip, auth, hsome, -⟩
      simp [hip] at hsome
    rw [hip] at hrun
    cases hauth : g.authCheck with
    | none =>
      rw [hauth] at hrun
      obtain ⟨rfl, rfl⟩ := Prod.mk.inj hrun
      exact .passed hfree
    | some auth =>
      rw [hauth] at hrun
      have hanswers := Check.answers hbacked hrun
      cases outcome with
      | ok => exact .passed hfree
      | error e => exact .free hfree hanswers.not_gains
  | some ip =>
    rw [hip] at hrun
    cases hfirst : (Check.run digest g.request (some ip)).run ZServer.exec s with
    | mk first u =>
      rw [hfirst] at hrun
      have hpaid := Check.answers hbacked hfirst
      cases first with
      | error e =>
        obtain ⟨rfl, rfl⟩ := Prod.mk.inj hrun
        refine .free ?_ hpaid.not_gains
        rintro ⟨ip', auth, hsome, -, hadmits, -⟩
        obtain rfl := Option.some.inj (hip.symm.trans hsome)
        exact hpaid.not_admits hadmits
      | ok =>
        cases hauth : g.authCheck with
        | none =>
          rw [hauth] at hrun
          obtain ⟨rfl, rfl⟩ := Prod.mk.inj hrun
          refine .passed ?_
          rintro ⟨ip', auth, -, hsome, -⟩
          simp [hauth] at hsome
        | some auth =>
          rw [hauth] at hrun
          exact ends_of_paid hip hauth hpaid (Check.answers hbacked hrun)

end Guarded

/-! ## Sequences of requests -/

/-- A request at a time, and how its dependency ends. -/
structure Arrival where
  guarded : Guarded
  time : Int
  outcome : Except Error Unit

/-- The dependency has let the request through. -/
def Arrival.passed (a : Arrival) : Bool :=
  match a.outcome with
  | .ok _ => true
  | .error _ => false

/-- The dependency has raised `RateLimitExceeded`. -/
def Arrival.exceeded (a : Arrival) : Bool :=
  match a.outcome with
  | .ok _ => false
  | .error e => e.isExceeded

/-- One request after the other, of any routes and clients. -/
def Served (digest : String → String) (s : ZServer) (a : Arrival) (t : ZServer) : Prop :=
  s.now ≤ a.time ∧ Backed a.guarded.request ∧
    (a.guarded.limits.dependency digest a.guarded.config a.guarded.request).run ZServer.exec
      (s.advance a.time) = (a.outcome, t)

section served
variable {digest : String → String} {s t : ZServer} {tr : List (Transition ZServer Arrival)}

theorem Served.exceeded_spends_iff {a : Arrival} (h : Served digest s a t) :
    (a.exceeded = true → ¬ Gains (s.advance a.time) t) ↔
      ¬ a.guarded.Drains digest (s.advance a.time) := by
  have hwaste : a.guarded.Drains digest (s.advance a.time) →
      a.guarded.Wastes digest (s.advance a.time) := by
    rintro ⟨ip, auth, hip, hauth, hadmits, -, hfull⟩
    exact ⟨ip, auth, hip, hauth, hadmits, fun hroom => not_lt.mpr hfull hroom.2⟩
  have hends := Guarded.ends h.2.1 h.2.2
  unfold Arrival.exceeded
  generalize a.outcome = outcome at hends
  cases hends with
  | passed hfree => simpa using fun hdrains => hfree (hwaste hdrains)
  | free hfree hnone => exact iff_of_true (fun _ => hnone) fun hdrains => hfree (hwaste hdrains)
  | paid _ hexceeded hgains => simp [hexceeded, hgains]

theorem Served.failed_spends_iff {a : Arrival} (h : Served digest s a t) :
    (a.passed = false → ¬ Gains (s.advance a.time) t) ↔
      ¬ a.guarded.Wastes digest (s.advance a.time) := by
  have hends := Guarded.ends h.2.1 h.2.2
  unfold Arrival.passed
  generalize a.outcome = outcome at hends
  cases hends with
  | passed hfree => simpa using hfree
  | free hfree hnone => exact iff_of_true (fun _ => hnone) hfree
  | paid hwastes _ hgains => simp [hgains, hwastes]

/-- Where no request pays without passing, every entry is of a request that has passed. -/
theorem entries_of_passed (hrun : Run (Served digest) s tr t)
    (hfree : ∀ x ∈ tr, ¬ x.label.guarded.Wastes digest (x.before.advance x.label.time))
    {key : String} {m : Member} (hm : m ∈ (t.keys key).members) :
    m ∈ (s.keys key).members ∨ ∃ x ∈ tr, x.label.passed = true ∧
      m ∉ (x.before.keys key).members ∧ m ∈ (x.after.keys key).members := by
  induction hrun with
  | nil => exact Or.inl hm
  | @snoc tr u v a _ hstep ih =>
    by_cases hold : m ∈ (u.keys key).members
    · rcases ih (fun x hx => hfree x (List.mem_append_left _ hx)) hold with
        hstart | ⟨x, hx, hpassed⟩
      · exact Or.inl hstart
      · exact Or.inr ⟨x, List.mem_append_left _ hx, hpassed⟩
    · have hpassed : a.passed = true := by
        by_contra hfailed
        have hnone := hstep.failed_spends_iff.mpr (hfree ⟨u, a, v⟩ (by simp))
          (Bool.eq_false_iff.mpr hfailed)
        refine hnone ⟨key, m, ?_⟩
        have hgone : m ∉ ((u.advance a.time).keys key).members :=
          fun hmem => hold (((u.keys key).purge_shrinks a.time).sublist.subset hmem)
        rw [List.count_eq_zero_of_not_mem hgone]
        exact List.count_pos_iff.mpr hm
      exact Or.inr ⟨⟨u, a, v⟩, by simp, hpassed, hold, hm⟩

/-- In every sequence of requests, those that exceed a limit cost nothing if and only if none
finds room at the IP check and none at the check by identity. If none passes the first check and
fails at the second in any way, every entry is of a request that has passed. -/
theorem rejected_spends_nothing_iff (hrun : Run (Served digest) s tr t) :
    ((∀ x ∈ tr, x.label.exceeded = true → ¬ Gains (x.before.advance x.label.time) x.after) ↔
      ∀ x ∈ tr, ¬ x.label.guarded.Drains digest (x.before.advance x.label.time)) ∧
    ((∀ x ∈ tr, x.label.passed = false → ¬ Gains (x.before.advance x.label.time) x.after) ↔
      ∀ x ∈ tr, ¬ x.label.guarded.Wastes digest (x.before.advance x.label.time)) ∧
    ((∀ x ∈ tr, ¬ x.label.guarded.Wastes digest (x.before.advance x.label.time)) →
      ∀ key m, m ∈ (t.keys key).members → m ∈ (s.keys key).members ∨
        ∃ x ∈ tr, x.label.passed = true ∧ m ∉ (x.before.keys key).members ∧
          m ∈ (x.after.keys key).members) := by
  refine ⟨?_, ?_, fun hfree key m hm => entries_of_passed hrun hfree hm⟩
  · exact forall₂_congr fun x hx => (hrun.step_of_mem hx).exceeded_spends_iff
  · exact forall₂_congr fun x hx => (hrun.step_of_mem hx).failed_spends_iff

end served

/-! ## A client without quota -/

/-- Two requests a minute by IP, one by identity. -/
def ipAndIdentity (identity : String) : RateLimitArgs M where
  byIp := some true
  ipRequests := some 2
  ipWindowSeconds := some 60
  byAuth := some true
  authIdentifierGetter := some fun _ => some identity
  authRequests := some 1
  authWindowSeconds := some 60

def guardedRequest (identity : String) : Guarded where
  limits := ipAndIdentity identity
  config := sampleConfig
  request :=
    { method := "GET"
      routePath := some "/items"
      urlPath := "/items"
      client := some "203.0.113.7"
      headers := fun _ => none
      store := some (redisStore sampleConfig) }

theorem guardedRequest_backed (identity : String) : Backed (guardedRequest identity).request := by
  intro store hstore
  exact ⟨sampleConfig, (Option.some.inj hstore).symm⟩

/-- A request whose identity has room, or whose address has none, does not drain the address. -/
theorem Guarded.not_drains {g : Guarded} {s : ZServer} {c : Check}
    (h : g.authCheck = some c ∧ c.count id g.request s < c.limit ∨
      g.ipCheck = some c ∧ c.limit ≤ c.count id g.request s) : ¬ g.Drains id s := by
  rintro ⟨ip, auth, hip, hauth, ⟨-, hroom⟩, -, hfull⟩
  rcases h with ⟨hc, hlt⟩ | ⟨hc, hle⟩
  · obtain rfl := Option.some.inj (hc.symm.trans hauth)
    exact not_lt.mpr hfull hlt
  · obtain rfl := Option.some.inj (hc.symm.trans hip)
    exact not_lt.mpr hle hroom

/-- Of three identities behind one address the third is rejected for the address, and has paid for
nothing. -/
theorem rejected_spends_nothing_iff_three : ∃ t u v result,
    Served id (.empty 1000) ⟨guardedRequest "alice", 1000, .ok ()⟩ t ∧
    Served id t ⟨guardedRequest "bob", 1001, .ok ()⟩ u ∧
    Served id u ⟨guardedRequest "carol", 1002, .error (.rateLimitExceeded "ip" result)⟩ v ∧
    ¬ Gains (u.advance 1002) v := by
  obtain ⟨t, u, v, result, hfirst, hsecond, hthird, hnow, hnow', halice, hbob, hcarol⟩ :
      ∃ t u v result,
      ((guardedRequest "alice").limits.dependency id (guardedRequest "alice").config
        (guardedRequest "alice").request).run ZServer.exec ((ZServer.empty 1000).advance 1000) =
          (.ok (), t) ∧
      ((guardedRequest "bob").limits.dependency id (guardedRequest "bob").config
        (guardedRequest "bob").request).run ZServer.exec (t.advance 1001) = (.ok (), u) ∧
      ((guardedRequest "carol").limits.dependency id (guardedRequest "carol").config
        (guardedRequest "carol").request).run ZServer.exec (u.advance 1002) =
          (.error (.rateLimitExceeded "ip" result), v) ∧
      t.now = 1000 ∧ u.now = 1001 ∧
      ¬ (guardedRequest "alice").Drains id ((ZServer.empty 1000).advance 1000) ∧
      ¬ (guardedRequest "bob").Drains id (t.advance 1001) ∧
      ¬ (guardedRequest "carol").Drains id (u.advance 1002) :=
    ⟨_, _, _, _, rfl, rfl, rfl, rfl, rfl, Guarded.not_drains (.inl ⟨rfl, by decide⟩),
      Guarded.not_drains (.inl ⟨rfl, by decide⟩), Guarded.not_drains (.inr ⟨rfl, by decide⟩)⟩
  have hserved : Served id (.empty 1000) ⟨guardedRequest "alice", 1000, .ok ()⟩ t :=
    ⟨Int.le_refl _, guardedRequest_backed _, hfirst⟩
  have hserved' : Served id t ⟨guardedRequest "bob", 1001, .ok ()⟩ u :=
    ⟨by simp [hnow], guardedRequest_backed _, hsecond⟩
  have hserved'' : Served id u
      ⟨guardedRequest "carol", 1002, .error (.rateLimitExceeded "ip" result)⟩ v :=
    ⟨by simp [hnow'], guardedRequest_backed _, hthird⟩
  have hspent := (rejected_spends_nothing_iff
    (((Run.single hserved).snoc hserved').snoc hserved'')).1.mpr ?_
  · exact ⟨t, u, v, result, hserved, hserved', hserved'', hspent _ List.mem_concat_self rfl⟩
  · simp [halice, hbob, hcarol]

/-- The second request within the minute is rejected for its identity and counts against the
address. -/
theorem rejected_spends : ∃ t u result,
    Served id (.empty 1000) ⟨guardedRequest "alice", 1000, .ok ()⟩ t ∧
    Served id t ⟨guardedRequest "alice", 1001, .error (.rateLimitExceeded "auth" result)⟩ u ∧
    Gains (t.advance 1001) u := by
  obtain ⟨t, u, result, hfirst, hnow, hsecond, hgains⟩ : ∃ t u result,
      ((guardedRequest "alice").limits.dependency id (guardedRequest "alice").config
        (guardedRequest "alice").request).run ZServer.exec ((ZServer.empty 1000).advance 1000) =
          (.ok (), t) ∧ t.now = 1000 ∧
      ((guardedRequest "alice").limits.dependency id (guardedRequest "alice").config
        (guardedRequest "alice").request).run ZServer.exec (t.advance 1001) =
          (.error (.rateLimitExceeded "auth" result), u) ∧
      ((t.advance 1001).keys "rate_limit:ip:GET:/items:203.0.113.7").members.count (2, 1001) <
        (u.keys "rate_limit:ip:GET:/items:203.0.113.7").members.count (2, 1001) :=
    ⟨_, _, _, rfl, rfl, rfl, by decide⟩
  exact ⟨t, u, result, ⟨Int.le_refl _, guardedRequest_backed _, hfirst⟩,
    ⟨by simp [hnow], guardedRequest_backed _, hsecond⟩, _, _, hgains⟩

end BaseWebService.RateLimit
