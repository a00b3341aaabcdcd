import BaseWebService.Middleware.RequestSize

/-!
# The size limit as a filter

Whatever the application does and whatever the server sends, the application gets no more bytes than
the limit, and a dialogue that stays within the limit is the one it would have had by itself.
-/

namespace BaseWebService.Middleware

open Library AsgiEvent

variable {ε : Type} {limit : RequestSizeLimitMiddleware} {app : Application (Error ε)}
  {scope : Scope}

namespace RequestSizeLimitMiddleware

section counters
variable {c : Counters} {es : List (AsgiEvent (Error ε))}

/-- The event brings a part of the body that is over the limit. -/
def tooLarge (limit : RequestSizeLimitMiddleware) (c : Counters) (e : AsgiEvent (Error ε)) : Bool :=
  isRequest e && decide (limit.maxBodyBytes < c.receivedBytes + bodySize e)

/-- All that the filter does to an event and to its counters. -/
theorem step_eq (c : Counters) (e : AsgiEvent (Error ε)) : limit.filter.step c e =
    (if limit.tooLarge c e then ⟨.receive, .error .requestTooLarge⟩ else e,
      ⟨c.receivedBytes + bodySize e, c.responseStarted || isStart e⟩) := by
  rcases e with ⟨_ | m, r⟩
  · rcases r with _ | m
    · simp [Filter.step, filter, limitedReceive, tooLarge, isRequest, isStart, bodySize]
    · by_cases hm : m.IsRequest
      · have htype : m.type = "http.request" := hm
        by_cases hover : limit.maxBodyBytes < c.receivedBytes + m.bodyBytes.length
        · simp [Filter.step, filter, limitedReceive, tooLarge, isRequest, isStart, bodySize, hm,
            htype, hover]
        · simp [Filter.step, filter, limitedReceive, tooLarge, isRequest, isStart, bodySize, hm,
            htype, hover]
      · have htype : ¬ m.type = "http.request" := hm
        simp [Filter.step, filter, limitedReceive, tooLarge, isRequest, isStart, bodySize, hm,
          htype]
  · by_cases hm : m.IsStart
    · have htype : m.type = "http.response.start" := hm
      simp [Filter.step, filter, sendWrapper, tooLarge, isRequest, isStart, bodySize, hm, htype]
    · have htype : ¬ m.type = "http.response.start" := hm
      simp [Filter.step, filter, sendWrapper, tooLarge, isRequest, isStart, bodySize, hm, htype]

theorem bodySize_eq_zero {e : AsgiEvent (Error ε)} (h : isRequest e = false) : bodySize e = 0 := by
  rcases e with ⟨_ | m, _ | m'⟩
  · rfl
  · have hm : ¬ m'.IsRequest := by simpa [isRequest] using h
    exact if_neg hm
  · rfl
  · rfl

theorem state_receivedBytes (c : Counters) (es : List (AsgiEvent (Error ε))) :
    (limit.filter.state c es).receivedBytes = c.receivedBytes + bodyBytes es := by
  induction es generalizing c with
  | nil => rfl
  | cons e es ih =>
    rw [Filter.state_cons, ih, step_eq, bodyBytes_cons]
    exact Nat.add_assoc ..

theorem state_responseStarted (c : Counters) (es : List (AsgiEvent (Error ε))) :
    (limit.filter.state c es).responseStarted = (c.responseStarted || decide (0 < starts es)) := by
  induction es generalizing c with
  | nil => simp
  | cons e es ih =>
    rw [Filter.state_cons, ih, step_eq, starts_cons]
    cases hstart : isStart e with
    | true => simp
    | false => simp

/-- Once the limit is passed the application gets no part of the body. -/
theorem inner_of_passed (hpassed : limit.maxBodyBytes < c.receivedBytes) :
    ∀ e ∈ limit.filter.inner c es, isRequest e = false := by
  induction es generalizing c with
  | nil => simp
  | cons e es ih =>
    rw [Filter.inner_cons, step_eq]
    refine List.forall_mem_cons.mpr ⟨?_, ih (Nat.lt_add_right _ hpassed)⟩
    cases hrequest : isRequest e with
    | false => simp [tooLarge, hrequest]
    | true =>
      have hover : limit.maxBodyBytes < c.receivedBytes + bodySize e := Nat.lt_add_right _ hpassed
      have htooLarge : limit.tooLarge c e = true := by simp [tooLarge, hrequest, hover]
      rw [htooLarge]
      rfl

theorem bodyBytes_eq_zero (h : ∀ e ∈ es, isRequest e = false) : bodyBytes es = 0 := by
  induction es with
  | nil => rfl
  | cons e es ih =>
    obtain ⟨he, hes⟩ := List.forall_mem_cons.mp h
    rw [bodyBytes_cons, bodySize_eq_zero he, ih hes]

/-- The application gets no more bytes than the limit leaves. -/
theorem inner_bodyBytes_le (hle : c.receivedBytes ≤ limit.maxBodyBytes) :
    c.receivedBytes + bodyBytes (limit.filter.inner c es) ≤ limit.maxBodyBytes := by
  induction es generalizing c with
  | nil => simpa using hle
  | cons e es ih =>
    rw [Filter.inner_cons, step_eq, bodyBytes_cons]
    by_cases hover : limit.maxBodyBytes < c.receivedBytes + bodySize e
    · have hrest : bodyBytes (limit.filter.inner
          ⟨c.receivedBytes + bodySize e, c.responseStarted || isStart e⟩ es) = 0 :=
        bodyBytes_eq_zero (inner_of_passed hover)
      have hevent : bodySize (if limit.tooLarge c e then ⟨.receive, .error .requestTooLarge⟩
          else e) = 0 := by
        cases hrequest : isRequest e with
        | false => simpa [tooLarge, hrequest] using bodySize_eq_zero hrequest
        | true =>
          have htooLarge : limit.tooLarge c e = true := by simp [tooLarge, hrequest, hover]
          rw [htooLarge]
          rfl
      rw [hrest, hevent]
      exact hle
    · have hnot : limit.tooLarge c e = false := by simp [tooLarge, hover]
      have hrest : c.receivedBytes + bodySize e + bodyBytes (limit.filter.inner
          ⟨c.receivedBytes + bodySize e, c.responseStarted || isStart e⟩ es) ≤
          limit.maxBodyBytes := ih (c := ⟨_, _⟩) (Nat.le_of_not_lt hover)
      rw [hnot, ← Nat.add_assoc]
      exact hrest

/-- A dialogue within the limit is the same inside. -/
theorem inner_eq_self (hle : c.receivedBytes + bodyBytes es ≤ limit.maxBodyBytes) :
    limit.filter.inner c es = es := by
  induction es generalizing c with
  | nil => rfl
  | cons e es ih =>
    rw [bodyBytes_cons, ← Nat.add_assoc] at hle
    have hnot : limit.tooLarge c e = false := by
      have : ¬ limit.maxBodyBytes < c.receivedBytes + bodySize e := by omega
      simp [tooLarge, this]
    rw [Filter.inner_cons, step_eq, ih hle, hnot]
    rfl

end counters

/-- Every response that the application starts is started outside, and no other. -/
theorem starts_inner : starts (limit.filter.inner c es) = starts es := by
  induction es generalizing c with
  | nil => rfl
  | cons e es ih =>
    rw [Filter.inner_cons, step_eq, starts_cons, starts_cons, ih]
    cases htooLarge : limit.tooLarge c e with
    | false => rfl
    | true =>
      rcases e with ⟨_ | m, r⟩
      · rfl
      · simp [tooLarge, isRequest] at htooLarge

/-- What the application gets of a dialogue with the server. -/
def seen (limit : RequestSizeLimitMiddleware) (es : List (AsgiEvent (Error ε))) :
    List (AsgiEvent (Error ε)) :=
  limit.filter.inner ⟨0, false⟩ es

/-- The middleware talks to the server, and what runs inside it has come to the point. -/
def Inside (limit : RequestSizeLimitMiddleware) (app : Application (Error ε)) (scope : Scope)
    (es : List (AsgiEvent (Error ε))) (c : Counters) (p : app.Point) : Prop :=
  (limit.call app).Says scope es (Filter.Point.inside c p)

/-- The first Content-Length is absent, unparsable or within the limit. -/
def Acceptable (limit : RequestSizeLimitMiddleware) (scope : Scope) : Prop :=
  ∀ n, contentLength scope.headers = some n → n ≤ limit.maxBodyBytes

/-- The middleware is a transparent and exact filter around the application. -/
structure ExactFilter (limit : RequestSizeLimitMiddleware) (app : Application (Error ε))
    (scope : Scope) : Prop where
  seen : ∀ es c p, limit.Inside app scope es c p → app.Says scope (limit.seen es) p
  bounded : ∀ es c p, limit.Inside app scope es c p →
    bodyBytes (limit.seen es) ≤ limit.maxBodyBytes
  closed : ∀ es es' c p, limit.Inside app scope (es ++ es') c p →
    limit.maxBodyBytes < bodyBytes es →
    ∀ e ∈ (limit.seen (es ++ es')).drop es.length, isRequest e = false
  startsOnce : ∀ es x, (limit.call app).Says scope es x →
    (∀ es₁ c p, es₁ <+: es → limit.Inside app scope es₁ c p → starts (limit.seen es₁) ≤ 1) →
    starts es ≤ 1
  answers : ∀ es c p, limit.Inside app scope es c p → app.flow p = .raise .requestTooLarge →
    starts (limit.seen es) = 0 → starts es = 0 ∧
      Responds (limit.call app).flow (Filter.Point.inside c p) limit.tooLargeResponse
  transparent : limit.Acceptable scope → ∀ es, bodyBytes es ≤ limit.maxBodyBytes → ∀ p,
    (∃ c, limit.Inside app scope es c p) ↔ app.Says scope es p
  returns : ∀ es c p, limit.Inside app scope es c p → app.flow p = .ret () →
    (limit.call app).flow (Filter.Point.inside c p) = .ret ()
  raises : ∀ es c p e, limit.Inside app scope es c p → app.flow p = .raise (.raised e) →
    (limit.call app).flow (Filter.Point.inside c p) = .raise (.raised e)

theorem start_of_acceptable (hhttp : scope.type = "http") (h : limit.Acceptable scope) :
    (limit.call app).start scope = Filter.Point.inside ⟨0, false⟩ (app.start scope) := by
  unfold call Acceptable at *
  simp only [ne_eq, hhttp, not_true_eq_false, if_false]
  split
  · rename_i n hn
    exact if_neg (Int.not_lt.mpr (h n hn))
  · rfl

theorem start_of_declared (hhttp : scope.type = "http") (h : ¬ limit.Acceptable scope) :
    (limit.call app).start scope = Filter.Point.after (sendAll limit.tooLargeResponse) := by
  obtain ⟨n, hn⟩ := Classical.not_forall.mp h
  obtain ⟨hlength, hover⟩ := Classical.not_imp.mp hn
  unfold call
  simp only [ne_eq, hhttp, not_true_eq_false, if_false, hlength]
  exact if_pos (Int.not_le.mp hover)

/-- The application runs inside where the declared length is acceptable, and is given what the
filter lets through. -/
theorem inside_iff (hhttp : scope.type = "http") {c : Counters} {p : app.Point}
    {es : List (AsgiEvent (Error ε))} : limit.Inside app scope es c p ↔
      limit.Acceptable scope ∧ c = limit.filter.state ⟨0, false⟩ es ∧
        app.Says scope (limit.seen es) p := by
  constructor
  · intro h
    unfold Inside Application.Says at h
    by_cases hacceptable : limit.Acceptable scope
    · rw [start_of_acceptable hhttp hacceptable] at h
      rcases Filter.dialogue_cases h with ⟨q, hx, hq⟩ | ⟨es₁, es₂, q, r, rest, -, -, -, -, hx⟩
      · obtain ⟨rfl, rfl⟩ := Filter.Point.inside.inj hx
        exact ⟨hacceptable, rfl, hq⟩
      · cases hx
    · rw [start_of_declared hhttp hacceptable] at h
      obtain ⟨rest, hx, -⟩ := Filter.dialogue_after.mp h
      cases hx
  · rintro ⟨hacceptable, rfl, h⟩
    unfold Inside Application.Says
    rw [start_of_acceptable hhttp hacceptable]
    exact Filter.dialogue_of_inner h

theorem finish_tooLarge {c : Counters} (hstarted : c.responseStarted = false) :
    limit.finish c (.error .requestTooLarge) =
      (sendAll limit.tooLargeResponse : AsgiProg (Error ε) Unit) := by
  rw [finish, hstarted]
  rfl

theorem responds_tooLarge : Responds (limit.call app).flow
    (Filter.Point.after (sendAll limit.tooLargeResponse)) limit.tooLargeResponse := by
  have hafter : ∀ prog, (limit.call app).flow (Filter.Point.after prog) =
      (Prog.flow prog).map Filter.Point.after := fun _ => rfl
  exact (sendAll_responds limit.tooLargeResponse).map hafter

/-- What follows the application starts no response but the 413 of one that started none. -/
theorem starts_finish {es : List (AsgiEvent (Error ε))} {rest : AsgiProg (Error ε) Unit}
    {c : Counters} {r : Except (Error ε) Unit} (h : Dialogue Prog.flow (limit.finish c r) es rest) :
    starts es ≤ if c.responseStarted then 0 else 1 := by
  have hresponse : limit.tooLargeResponse.countP (fun m => m.IsStart) = 1 := rfl
  have hquiet : ∀ {prog : AsgiProg (Error ε) Unit}, (Prog.flow prog).result.isSome = true →
      Dialogue Prog.flow prog es rest → starts es = 0 := by
    intro prog hprog h
    rw [(h.eq_nil hprog).1, starts_nil]
  match r with
  | .ok () => exact (hquiet rfl h).le.trans (Nat.zero_le _)
  | .error (.raised e) => exact (hquiet rfl h).le.trans (Nat.zero_le _)
  | .error .requestTooLarge =>
    cases hstarted : c.responseStarted with
    | true =>
      rw [finish, hstarted] at h
      exact (hquiet rfl h).le
    | false =>
      rw [finish_tooLarge hstarted] at h
      exact (starts_sendAll h).trans hresponse.le

/-- The size limit filters every application exactly. -/
theorem exactFilter (hhttp : scope.type = "http") : limit.ExactFilter app scope where
  seen es c p h := ((inside_iff hhttp).mp h).2.2
  bounded es c p _ := by
    have hle : 0 + bodyBytes (limit.seen es) ≤ limit.maxBodyBytes :=
      inner_bodyBytes_le (c := ⟨0, false⟩) (Nat.zero_le _)
    rwa [Nat.zero_add] at hle
  closed es es' c p _ hpassed := by
    rw [RequestSizeLimitMiddleware.seen, Filter.inner_append,
      List.drop_left' (Filter.length_inner ..)]
    refine inner_of_passed ?_
    rwa [state_receivedBytes, Nat.zero_add]
  startsOnce es x h hstarts := by
    unfold Application.Says at h
    by_cases hacceptable : limit.Acceptable scope
    · have hinside : ∀ es₁ p, es₁ <+: es → app.Says scope (limit.seen es₁) p → starts es₁ ≤ 1 := by
        intro es₁ p hprefix hsays
        have hone := hstarts es₁ _ p hprefix ((inside_iff hhttp).mpr ⟨hacceptable, rfl, hsays⟩)
        exact (Nat.le_of_eq starts_inner.symm).trans hone
      rw [start_of_acceptable hhttp hacceptable] at h
      rcases Filter.dialogue_cases h with ⟨q, -, hq⟩ | ⟨es₁, es₂, q, r, rest, rfl, hq, -, hrest, -⟩
      · exact hinside es q List.prefix_rfl hq
      · have hone := hinside es₁ q (List.prefix_append ..) hq
        have htwo := starts_finish hrest
        rw [state_responseStarted] at htwo
        rw [starts_append]
        by_cases hstarted : 0 < starts es₁
        · simp [hstarted] at htwo
          grind
        · simp [hstarted] at htwo
          grind
    · rw [start_of_declared hhttp hacceptable] at h
      obtain ⟨rest, -, hrest⟩ := Filter.dialogue_after.mp h
      exact starts_sendAll hrest
  answers es c p h hp hnone := by
    obtain ⟨-, rfl, -⟩ := (inside_iff hhttp).mp h
    have houter : starts es = 0 := starts_inner.symm.trans hnone
    refine ⟨houter, ?_⟩
    have hstarted : (limit.filter.state ⟨0, false⟩ es).responseStarted = false := by
      simp [state_responseStarted, houter]
    have hflow : (limit.call app).flow (Filter.Point.inside (limit.filter.state ⟨0, false⟩ es) p) =
        (limit.call app).flow (Filter.Point.after (sendAll limit.tooLargeResponse)) :=
      (Filter.flow_result (by rw [hp]; rfl)).trans (by rw [finish_tooLarge hstarted]; rfl)
    refine Responds.of_flow_eq hflow ?_
    exact responds_tooLarge
  transparent hacceptable es hle p := by
    have hsame : limit.seen es = es := inner_eq_self (by simpa using hle)
    constructor
    · rintro ⟨c, h⟩
      exact hsame ▸ ((inside_iff hhttp).mp h).2.2
    · intro h
      exact ⟨_, (inside_iff hhttp).mpr ⟨hacceptable, rfl, hsame.symm ▸ h⟩⟩
  returns es c p _ hp := by
    have hresult : (app.flow p).result = some (.ok ()) := by rw [hp]; rfl
    exact Filter.flow_result hresult
  raises es c p e _ hp := by
    have hresult : (app.flow p).result = some (.error (.raised e)) := by rw [hp]; rfl
    exact Filter.flow_result hresult

/-- A request that declares too much is answered 413, and the application is never started. -/
theorem responds_of_declared (hhttp : scope.type = "http") (h : ¬ limit.Acceptable scope) :
    Responds (limit.call app).flow ((limit.call app).start scope) limit.tooLargeResponse := by
  rw [start_of_declared hhttp h]
  exact responds_tooLarge

/-- What is no HTTP request is handed on as it is. -/
theorem says_of_other (hother : scope.type ≠ "http") {es : List (AsgiEvent (Error ε))}
    {x : (limit.call app).Point} :
    (limit.call app).Says scope es x ↔ ∃ p, x = Filter.Point.bare p ∧ app.Says scope es p := by
  have hstart : (limit.call app).start scope = Filter.Point.bare (app.start scope) := if_pos hother
  unfold Application.Says
  rw [hstart]
  exact Filter.dialogue_bare

/-- An application that receives the whole body, and lets an exception pass. -/
def readAll : Application (Error Unit) where
  Point := Option (Except (Error Unit) Message)
  flow
    | none => .call .receive some
    | some (.ok m) => if m.moreBody = some true then .call .receive some else .ret ()
    | some (.error e) => .raise e
  start _ := none

/-- Of a body in two parts a limit of one byte lets the first byte through, and the answer is a
413. -/
theorem exactFilter_two_parts :
    let limit : RequestSizeLimitMiddleware := ⟨1, fun _ => []⟩
    let first : AsgiEvent (Error Unit) := ⟨.receive, .ok (.request [0] true)⟩
    let es := [first, ⟨.receive, .ok (.request [0, 0] false)⟩]
    limit.ExactFilter readAll ⟨"http", "POST", []⟩ ∧
      limit.seen es = [first, ⟨.receive, .error .requestTooLarge⟩] ∧
      ∃ c p, limit.Inside readAll ⟨"http", "POST", []⟩ es c p ∧
        Responds (limit.call readAll).flow (Filter.Point.inside c p) limit.tooLargeResponse := by
  intro limit first es
  have hexact : limit.ExactFilter readAll ⟨"http", "POST", []⟩ := exactFilter rfl
  have hsaid : readAll.Says ⟨"http", "POST", []⟩ (limit.seen es) _ := .cons rfl (.cons rfl .nil)
  have hinside : limit.Inside readAll ⟨"http", "POST", []⟩ es _ _ :=
    (inside_iff rfl).mpr ⟨fun n hn => absurd hn (by simp [contentLength]), rfl, hsaid⟩
  exact ⟨hexact, rfl, _, _, hinside, (hexact.answers es _ _ hinside rfl rfl).2⟩

end RequestSizeLimitMiddleware

end BaseWebService.Middleware
