import BaseWebService.CircuitBreaker.Cooldown

/-!
# Recovery

The properties here are about whole traces: what has happened since the breaker was last
opened, which HALF_OPEN episode is going on, and which successes it has seen from requests
that were admitted in it. An episode starts when `allow_request` finds the cooldown over.
-/

namespace BaseWebService.CircuitBreaker

open Library Redis RedisCircuitBreaker

abbrev Trace := List (Transition HashServer Event)

/-- A failure was recorded. -/
def Event.isFailure : Event → Bool
  | .call _ op _ _ => op.isFailure
  | .expire _ => false

def Event.isExpiry : Event → Bool
  | .expire _ => true
  | _ => false

/-- A failure that leaves the breaker open. -/
def isOpening (x : Transition HashServer Event) : Bool :=
  x.label.isFailure && decide (storedMode x.after = modeOpen)

/-- The step that starts a HALF_OPEN episode. -/
def startsEpisode (x : Transition HashServer Event) : Bool :=
  decide (storedMode x.before = modeOpen ∧ storedMode x.after = modeHalfOpen)

/-- A step of an episode that is going on, with no failure recorded. -/
def continuesEpisode (x : Transition HashServer Event) : Bool :=
  decide (storedMode x.before = modeHalfOpen) && !x.label.isFailure

/-- The requests that `allow_request` admitted in mode HALF_OPEN. -/
def admittedIn : Trace → List ℕ
  | [] => []
  | x :: xs => match x.label with
    | .call request .allowRequest _ (some ⟨true, mode⟩) =>
      if mode = modeHalfOpen then request :: admittedIn xs else admittedIn xs
    | _ => admittedIn xs

/-- `record_success` calls of requests admitted earlier in the same list, or in `admitted`. -/
def probeSuccesses (admitted : List ℕ) : Trace → ℕ
  | [] => 0
  | x :: xs =>
    (match x.label with
      | .call request .recordSuccess _ _ => if request ∈ admitted then 1 else 0
      | _ => 0) + probeSuccesses (admitted ++ admittedIn [x]) xs

/-- An episode with at least `n` successes of its own probes and no failure. -/
def Evidence (n : Int) (tr : Trace) : Prop :=
  ∃ before start episode after, tr = before ++ start :: episode ++ after ∧
    startsEpisode start = true ∧ (∀ x ∈ episode, continuesEpisode x = true) ∧
    n ≤ probeSuccesses [] (start :: episode)

/-- The HALF_OPEN episode going on at the end of a trace; empty in the other modes. -/
def currentEpisode (tr : Trace) : Trace :=
  tr.foldl (fun acc x =>
    if storedMode x.after = modeHalfOpen then
      (if storedMode x.before = modeHalfOpen then acc ++ [x] else [x])
    else []) []

/-- The results this step records are not late: a success comes from a request admitted in
the current episode, and a failure does not disturb a cooldown. -/
def TimelyStep (b : RedisCircuitBreaker) (past : Trace) (x : Transition HashServer Event) : Prop :=
  ¬ Disturbs b x.before x.label ∧
    ∀ request time decision, x.label = .call request .recordSuccess time decision →
      storedMode x.before = modeHalfOpen → request ∈ admittedIn (currentEpisode past)

/-- No step of `tr`, which comes after `past`, records a late result. -/
def Timely (b : RedisCircuitBreaker) (past tr : Trace) : Prop :=
  Throughout (fun done x => TimelyStep b (past ++ done) x) tr

/-! ## Appending a step -/

theorem currentEpisode_snoc (tr : Trace) (x : Transition HashServer Event) :
    currentEpisode (tr ++ [x]) =
      if storedMode x.after = modeHalfOpen then
        (if storedMode x.before = modeHalfOpen then currentEpisode tr ++ [x] else [x])
      else [] := by
  simp [currentEpisode]

theorem admittedIn_append (tr tr' : Trace) :
    admittedIn (tr ++ tr') = admittedIn tr ++ admittedIn tr' := by
  induction tr with
  | nil => rfl
  | cons x xs ih =>
    simp only [List.cons_append, admittedIn]
    split
    · split_ifs <;> simp [ih]
    · exact ih

/-- One more step adds one success if it is the success of an admitted request. -/
theorem probeSuccesses_snoc (admitted : List ℕ) (tr : Trace) (x : Transition HashServer Event) :
    probeSuccesses admitted (tr ++ [x]) = probeSuccesses admitted tr +
      probeSuccesses (admitted ++ admittedIn tr) [x] := by
  induction tr generalizing admitted with
  | nil => simp [probeSuccesses, admittedIn]
  | cons y ys ih =>
    have hsplit : admittedIn (y :: ys) = admittedIn [y] ++ admittedIn ys :=
      admittedIn_append [y] ys
    simp only [List.cons_append, probeSuccesses, ih, hsplit, List.append_assoc]
    omega

theorem Evidence.append {n : Int} {tr : Trace} (h : Evidence n tr) (tr' : Trace) :
    Evidence n (tr ++ tr') := by
  obtain ⟨before, start, episode, after, rfl, hstart, hepisode, hn⟩ := h
  exact ⟨before, start, episode, after ++ tr', by simp, hstart, hepisode, hn⟩

/-! ## The history of each phase -/

variable {b : RedisCircuitBreaker}

/-- What the trace `es` since the last opening must contain, given what is stored after it
and the episode going on. -/
def History (b : RedisCircuitBreaker) (es episode : Trace) : Memory → Prop
  | none => False
  | some (.closed _ _, _) => Evidence b.config.halfOpenSuccessThreshold es
  | some (.opened _ _ _, _) => True
  | some (.halfOpen n _, _) => ∃ before start rest, es = before ++ start :: rest ∧
      episode = start :: rest ∧ startsEpisode start = true ∧
      (∀ x ∈ rest, continuesEpisode x = true) ∧ n = probeSuccesses [] episode

/-- A success in HALF_OPEN, made by a request of the current episode. -/
theorem History.success {es episode : Trace} {n r d now : Int} {x : Transition HashServer Event}
    (h : History b es episode (some (.halfOpen n r, d)))
    (hbefore : storedMode x.before = modeHalfOpen)
    {request : ℕ} {decision : Option CircuitBreakerDecision}
    (hlabel : x.label = .call request .recordSuccess now decision)
    (hprobe : request ∈ admittedIn episode) :
    History b (es ++ [x]) (episode ++ [x]) (b.successMemory now (some (.halfOpen n r, d))) := by
  obtain ⟨before, start, rest, rfl, rfl, hstart, hrest, rfl⟩ := h
  have hcount : probeSuccesses [] (start :: rest ++ [x]) =
      probeSuccesses [] (start :: rest) + 1 := by
    rw [probeSuccesses_snoc]
    simp [probeSuccesses, hlabel, hprobe]
  have hcontinues : ∀ y ∈ rest ++ [x], continuesEpisode y = true := by
    rw [List.forall_mem_append]
    exact ⟨hrest, by simp [continuesEpisode, hbefore, hlabel, Event.isFailure, Op.isFailure]⟩
  simp only [successMemory]
  split_ifs with hmore
  · exact ⟨before, start, rest ++ [x], by simp, by simp, hstart, hcontinues, by
      rw [hcount]; push_cast; rfl⟩
  · refine ⟨before, start, rest ++ [x], [], by simp, hstart, hcontinues, ?_⟩
    rw [← List.cons_append, hcount]
    push_cast
    omega

/-- `allow_request` in HALF_OPEN joins the current episode. -/
theorem History.allow {es episode : Trace} {n r r' d d' now : Int}
    {x : Transition HashServer Event} (h : History b es episode (some (.halfOpen n r, d)))
    (hbefore : storedMode x.before = modeHalfOpen) {request : ℕ}
    {decision : Option CircuitBreakerDecision}
    (hlabel : x.label = .call request .allowRequest now decision) :
    History b (es ++ [x]) (episode ++ [x]) (some (.halfOpen n r', d')) := by
  obtain ⟨before, start, rest, rfl, rfl, hstart, hrest, rfl⟩ := h
  refine ⟨before, start, rest ++ [x], by simp, by simp, hstart, ?_, ?_⟩
  · rw [List.forall_mem_append]
    exact ⟨hrest, by simp [continuesEpisode, hbefore, hlabel, Event.isFailure, Op.isFailure]⟩
  · rw [probeSuccesses_snoc]
    simp [probeSuccesses, hlabel]

/-- One call keeps the history, if it neither opens the breaker nor records a late result. -/
theorem History.step (hon : b.isEnabled = true) {tr es : Trace} {s t : HashServer} {m : Memory}
    (hrep : Represents s m) (hm : b.Counted m) (h : History b es (currentEpisode tr) m)
    {request : ℕ} {op : Op} {time : Int} {decision : Option CircuitBreakerDecision}
    (hstep : Step b s (.call request op time decision) t)
    (hopening : isOpening ⟨s, .call request op time decision, t⟩ = false)
    (htimely : TimelyStep b tr ⟨s, .call request op time decision, t⟩) :
    History b (es ++ [⟨s, .call request op time decision, t⟩])
      (currentEpisode (tr ++ [⟨s, .call request op time decision, t⟩]))
      (b.opMemory time m op).2 := by
  obtain ⟨-, -, -, ht⟩ := step_call hon hrep hstep
  have hbefore := storedMode_eq hrep
  have hafter := storedMode_eq ht
  have hnotopen : op.isFailure = true → storedMode t ≠ modeOpen := by
    intro hfail hmode
    simp [isOpening, Event.isFailure, hfail, hmode] at hopening
  cases op with
  | allowRequest =>
    rcases m with _ | ⟨⟨f, l⟩ | ⟨f, l, u⟩ | ⟨n, r⟩, d⟩
    · exact h.elim
    · exact Evidence.append h _
    · have hopen : storedMode s = modeOpen := hbefore
      by_cases hcool : time < u
      · simp only [opMemory, allowMemory, if_pos hcool]
        trivial
      · -- The cooldown is over: this request starts a new episode.
        simp only [opMemory, allowMemory, if_neg hcool] at hafter ⊢
        have hhalf : storedMode t = modeHalfOpen := hafter
        rw [currentEpisode_snoc, if_pos hhalf, if_neg (by simp [hopen])]
        refine ⟨es, _, [], rfl, rfl, ?_, by simp, by simp [probeSuccesses]⟩
        exact decide_eq_true ⟨hopen, hhalf⟩
    · have hhalf : storedMode t = modeHalfOpen := hafter
      have hhalf' : storedMode s = modeHalfOpen := hbefore
      rw [currentEpisode_snoc, if_pos hhalf, if_pos hhalf']
      exact h.allow hhalf' rfl
  | recordFailure | recordTimeout =>
    have hne : storedMode t ≠ modeOpen := hnotopen rfl
    rcases m with _ | ⟨⟨f, l⟩ | ⟨f, l, u⟩ | ⟨n, r⟩, d⟩
    · exact h.elim
    · by_cases hcount : b.countFailure f l time ≥ b.config.timeoutThreshold
      · simp only [opMemory, failureMemory, failurePhase, if_pos hcount] at hafter
        exact absurd hafter hne
      · simp only [opMemory, failureMemory, failurePhase, if_neg hcount]
        exact Evidence.append h _
    · have hlast := hget_last_of_opened hrep
      obtain ⟨f', hphase, -⟩ := failurePhase_reopens time hm
        fun hlate => htimely.1 ⟨hbefore, hlate.1, l, hlast, hlate.2⟩
      simp only [opMemory, failureMemory, hphase] at hafter
      exact absurd hafter hne
    · exact absurd hafter hne
  | recordSuccess =>
    rcases m with _ | ⟨⟨f, l⟩ | ⟨f, l, u⟩ | ⟨n, r⟩, d⟩
    · exact h.elim
    · exact Evidence.append h _
    · exact absurd ⟨hbefore, trivial⟩ htimely.1
    · have hhalf' : storedMode s = modeHalfOpen := hbefore
      have hprobe := htimely.2 request time decision rfl hhalf'
      have hsuccess := h.success (x := ⟨s, .call request .recordSuccess time decision, t⟩) hhalf'
        rfl hprobe
      by_cases hmore : n + 1 < b.config.halfOpenSuccessThreshold
      · simp only [opMemory, successMemory, if_pos hmore] at hafter hsuccess ⊢
        have hhalf : storedMode t = modeHalfOpen := hafter
        rw [currentEpisode_snoc, if_pos hhalf, if_pos hhalf']
        exact hsuccess
      · simp only [opMemory, successMemory, if_neg hmore] at hsuccess ⊢
        exact hsuccess

/-- What holds after the steps `es` since the last opening, the last step of `past`: the key has
expired, or the history of the stored phase is there. -/
def Accounted (b : RedisCircuitBreaker) (past es : Trace) (s : HashServer) : Prop :=
  ∃ m, Represents s m ∧ b.Counted m ∧
    ((∃ x ∈ es, x.label.isExpiry = true) ∨ History b es (currentEpisode (past ++ es)) m)

/-- Nothing is asked of the history of a breaker that has just been opened. -/
theorem Accounted.opening (hon : b.isEnabled = true) {past : Trace} {s : HashServer}
    (hreach : Reachable b s) (hopen : storedMode s = modeOpen) : Accounted b past [] s := by
  obtain ⟨m, hrep, hm⟩ := reachable_phase hon hreach
  refine ⟨m, hrep, hm, Or.inr ?_⟩
  have hmode : m.mode = modeOpen := (storedMode_eq hrep).symm.trans hopen
  rcases m with _ | ⟨⟨f, l⟩ | ⟨f, l, u⟩ | ⟨n, r⟩, d⟩
  · simp [Memory.mode] at hmode
  · simp [Memory.mode] at hmode
  · trivial
  · simp [Memory.mode] at hmode

theorem Accounted.step (hon : b.isEnabled = true) {past es : Trace} {s t : HashServer} {e : Event}
    (h : Accounted b past es s) (hstep : Step b s e t) (hopening : isOpening ⟨s, e, t⟩ = false)
    (htimely : TimelyStep b (past ++ es) ⟨s, e, t⟩) : Accounted b past (es ++ [⟨s, e, t⟩]) t := by
  obtain ⟨m, hrep, hm, hsince⟩ := h
  rcases e with ⟨request, op, time, decision⟩ | ⟨time⟩
  · obtain ⟨-, -, -, ht⟩ := step_call hon hrep hstep
    refine ⟨_, ht, opMemory_counted op hm, ?_⟩
    rcases hsince with ⟨x, hx, hexpiry⟩ | hhistory
    · exact Or.inl ⟨x, List.mem_append_left _ hx, hexpiry⟩
    · rw [← List.append_assoc]
      exact Or.inr (hhistory.step hon hrep hm hstep hopening htimely)
  · obtain ⟨-, -, ht, -⟩ := step_expire hrep hstep
    exact ⟨none, ht, trivial, Or.inl ⟨⟨s, .expire time, t⟩, by simp, rfl⟩⟩

theorem Accounted.run (hon : b.isEnabled = true) {past es : Trace} {s t : HashServer}
    (h : Accounted b past [] s) (hrun : Run (Step b) s es t)
    (hlatest : ∀ z ∈ es, isOpening z = false) (htimely : Timely b past es) :
    Accounted b past es t := by
  induction hrun with
  | nil => exact h
  | snoc _ hstep ih =>
    obtain ⟨htimely, hlast⟩ := throughout_snoc.mp htimely
    obtain ⟨hlatest, hz⟩ := List.forall_mem_append.mp hlatest
    exact (ih hlatest htimely).step hon hstep (hz _ List.mem_cons_self) hlast

/-- Recovery needs evidence: when `allow_request` reports CLOSED after an opening, the key
has expired since that opening or an episode has had its successes. -/
theorem closed_needs_evidence {s t : HashServer} {before es after : Trace}
    {x y : Transition HashServer Event} (hstart : s.key = none)
    (hrun : Run (Step b) s (before ++ x :: es ++ y :: after) t)
    (htimely : Timely b (before ++ [x]) es) (hopening : isOpening x = true)
    (hlatest : ∀ z ∈ es, isOpening z = false) {request : ℕ} {time : Int} {allowed : Bool}
    (hclosed : y.label = .call request .allowRequest time (some ⟨allowed, modeClosed⟩)) :
    (∃ z ∈ es, z.label.isExpiry = true) ∨ Evidence b.config.halfOpenSuccessThreshold es := by
  obtain ⟨u, hpast, hrest⟩ := hrun.append_inv
  obtain ⟨hy, hstep, -⟩ := hrest.cons_inv
  obtain ⟨v, hv, hx⟩ := hpast.append_inv
  obtain ⟨rfl, hstep', hes⟩ := hx.cons_inv
  have hreach : Reachable b x.after := ⟨s, hstart, _, hv.snoc hstep'⟩
  have hopen : storedMode x.after = modeOpen := by
    simp only [isOpening, Bool.and_eq_true, decide_eq_true_eq] at hopening
    exact hopening.2
  cases hon : b.isEnabled with
  | false =>
    -- A breaker that is switched off is never found open.
    have hmode : storedMode x.after = modeClosed :=
      storedMode_eq (m := none) (reachable_disabled hon hreach)
    simp [hopen] at hmode
  | true =>
    obtain ⟨m, hrep, hm, hsince⟩ :=
      (Accounted.opening hon hreach hopen).run hon hes hlatest htimely
    refine hsince.imp id fun hhistory => ?_
    rw [hclosed] at hstep
    obtain ⟨-, -, hdecision, -⟩ := step_call hon hrep hstep
    rcases m with _ | ⟨⟨f, l⟩ | ⟨f, l, v⟩ | ⟨n, r⟩, d⟩
    · exact hhistory.elim
    · exact hhistory
    · have hmode := congrArg CircuitBreakerDecision.mode (Option.some.inj hdecision)
      simp only [allowMemory] at hmode
      split_ifs at hmode <;> simp at hmode
    · have hmode := congrArg CircuitBreakerDecision.mode (Option.some.inj hdecision)
      simp [allowMemory] at hmode

/-! ## Two outages -/

/-- A run that ends in a represented state can go on with any call. -/
theorem exists_run_call (hon : b.isEnabled = true) {s t : HashServer} {tr : Trace} {m : Memory}
    (hrun : Run (Step b) s tr t) (hrep : Represents t m) (request : ℕ) (op : Op) (time : Int)
    (hle : t.now ≤ time) :
    ∃ u, Run (Step b) s (tr ++ [⟨t, .call request op time (b.opMemory time m op).1, u⟩]) u ∧
      u.now = time ∧ Represents u (b.opMemory time m op).2 := by
  obtain ⟨u, hstep, hnow, hu⟩ := exists_step hon hrep request op time hle
  exact ⟨u, hrun.snoc hstep, hnow, hu⟩

/-- The default settings, except for the number of successes that recovery takes. -/
def breakerNeeding (n : Int) : RedisCircuitBreaker :=
  ⟨{ CircuitBreakerConfig.default with halfOpenSuccessThreshold := n }, true⟩

/-- Four requests are admitted; one succeeds, then three fail and open the breaker. -/
theorem exists_outage (n : Int) : ∃ before s t,
    Run (Step (breakerNeeding n)) ⟨0, none⟩
      (before ++ [⟨s, .call 3 .recordFailure 3000 none, t⟩]) t ∧
    before.map (·.label) =
      [.call 0 .allowRequest 100 (some ⟨true, modeClosed⟩),
       .call 1 .allowRequest 100 (some ⟨true, modeClosed⟩),
       .call 2 .allowRequest 100 (some ⟨true, modeClosed⟩),
       .call 3 .allowRequest 100 (some ⟨true, modeClosed⟩),
       .call 0 .recordSuccess 500 none, .call 1 .recordFailure 1000 none,
       .call 2 .recordTimeout 2000 none] ∧
    t.now = 3000 ∧ Represents t (some (.opened 3 3000 63000, 123000)) := by
  have hon : (breakerNeeding n).isEnabled = true := rfl
  have hfresh : Represents ⟨0, none⟩ none := rfl
  obtain ⟨s₁, hrun, hnow, hrep⟩ := exists_run_call hon .nil hfresh 0 .allowRequest 100 (by decide)
  obtain ⟨s₂, hrun, hnow, hrep⟩ := exists_run_call hon hrun hrep 1 .allowRequest 100 (by omega)
  obtain ⟨s₃, hrun, hnow, hrep⟩ := exists_run_call hon hrun hrep 2 .allowRequest 100 (by omega)
  obtain ⟨s₄, hrun, hnow, hrep⟩ := exists_run_call hon hrun hrep 3 .allowRequest 100 (by omega)
  obtain ⟨s₅, hrun, hnow, hrep⟩ := exists_run_call hon hrun hrep 0 .recordSuccess 500 (by omega)
  obtain ⟨s₆, hrun, hnow, hrep⟩ := exists_run_call hon hrun hrep 1 .recordFailure 1000 (by omega)
  obtain ⟨s₇, hrun, hnow, hrep⟩ := exists_run_call hon hrun hrep 2 .recordTimeout 2000 (by omega)
  obtain ⟨s₈, hrun, hnow, hrep⟩ := exists_run_call hon hrun hrep 3 .recordFailure 3000 (by omega)
  exact ⟨_, s₇, s₈, hrun, rfl, hnow, hrep⟩

/-- Each request asks once, and reports at most once and only if it was admitted. -/
def lifecycles (asked admitted : List ℕ) : List Event → Bool
  | [] => true
  | .expire _ :: es => lifecycles asked admitted es
  | .call request .allowRequest _ (some ⟨true, _⟩) :: es =>
    decide (request ∉ asked) && lifecycles (request :: asked) (request :: admitted) es
  | .call request .allowRequest _ _ :: es =>
    decide (request ∉ asked) && lifecycles (request :: asked) admitted es
  | .call request _ _ _ :: es =>
    decide (request ∈ admitted) && lifecycles asked (admitted.erase request) es

/-- The key of an open breaker expires, and the next request finds it CLOSED. -/
theorem expiry_closes_without_evidence : ∃ before es x y t,
    Run (Step defaultBreaker) ⟨0, none⟩ (before ++ x :: es ++ [y]) t ∧
    lifecycles [] [] ((before ++ x :: es ++ [y]).map (·.label)) = true ∧
    isOpening x = true ∧ (∀ z ∈ es, isOpening z = false) ∧
    y.label = .call 4 .allowRequest 124000 (some ⟨true, modeClosed⟩) ∧
    ¬ Evidence defaultBreaker.config.halfOpenSuccessThreshold es := by
  have hon : defaultBreaker.isEnabled = true := rfl
  obtain ⟨before, s, t, hrun, hlabels, hnow, hrep⟩ := exists_outage 3
  have hmode : storedMode t = modeOpen := storedMode_eq hrep
  obtain ⟨hash, hkey, hdeadline, -⟩ := hrep
  have hexpire : Step defaultBreaker t (.expire 123000) ⟨123000, none⟩ :=
    .expire (by omega) hkey hdeadline (by decide)
  have hmissing : Represents ⟨123000, none⟩ none := rfl
  have hmode' : storedMode (⟨123000, none⟩ : HashServer) = modeClosed := storedMode_eq hmissing
  obtain ⟨v, hallow, -, -⟩ := exists_step hon hmissing 4 .allowRequest 124000 (by decide)
  refine ⟨before, [⟨t, .expire 123000, ⟨123000, none⟩⟩], ⟨s, .call 3 .recordFailure 3000 none, t⟩,
    ⟨⟨123000, none⟩, _, v⟩, v, ?_, ?_, ?_, ?_, rfl, ?_⟩
  · have hclosed : Step defaultBreaker ⟨123000, none⟩
        (.call 4 .allowRequest 124000 (some ⟨true, modeClosed⟩)) v := hallow
    have hrun : Run (Step defaultBreaker) _ _ t := hrun
    simpa using (hrun.snoc hexpire).snoc hclosed
  · simp only [List.map_append, List.map_cons, List.map_nil, hlabels]
    decide
  · simp [isOpening, Event.isFailure, Op.isFailure, hmode]
  · simp [isOpening, Event.isFailure]
  · rintro ⟨past, start, episode, future, hsplit, hstart, -, -⟩
    have hmem : start ∈ [(⟨t, .expire 123000, ⟨123000, none⟩⟩ : Transition HashServer Event)] := by
      rw [hsplit]
      simp
    obtain rfl := List.mem_singleton.mp hmem
    simp only [startsEpisode, decide_eq_true_eq] at hstart
    simp [hmode'] at hstart

/-- Where one success is enough, the first admitted probe recovers the breaker. -/
theorem closed_needs_evidence_one : ∃ before es x y t,
    Run (Step (breakerNeeding 1)) ⟨0, none⟩ (before ++ x :: es ++ [y]) t ∧
    y.label = .call 5 .allowRequest 65000 (some ⟨true, modeClosed⟩) ∧ Evidence 1 es := by
  have hon : (breakerNeeding 1).isEnabled = true := rfl
  obtain ⟨before, s, t, hrun, -, hnow, hrep⟩ := exists_outage 1
  have hopen : storedMode t = modeOpen := storedMode_eq hrep
  obtain ⟨u, hstep, hnow', hrep'⟩ := exists_step hon hrep 4 .allowRequest 63000 (by omega)
  have hallow : Step (breakerNeeding 1) t
      (.call 4 .allowRequest 63000 (some ⟨true, modeHalfOpen⟩)) u := hstep
  have hhalf : storedMode u = modeHalfOpen := storedMode_eq hrep'
  obtain ⟨v, hstep, hnow'', hrep''⟩ := exists_step hon hrep' 4 .recordSuccess 64000 (by omega)
  have hsuccess : Step (breakerNeeding 1) u (.call 4 .recordSuccess 64000 none) v := hstep
  obtain ⟨w, hstep, -, -⟩ := exists_step hon hrep'' 5 .allowRequest 65000 (by omega)
  have hlast : Step (breakerNeeding 1) v
      (.call 5 .allowRequest 65000 (some ⟨true, modeClosed⟩)) w := hstep
  have hrun' := ((hrun.snoc hallow).snoc hsuccess).snoc hlast
  let failure : Transition HashServer Event := ⟨s, .call 3 .recordFailure 3000 none, t⟩
  let first : Transition HashServer Event :=
    ⟨t, .call 4 .allowRequest 63000 (some ⟨true, modeHalfOpen⟩), u⟩
  let second : Transition HashServer Event := ⟨u, .call 4 .recordSuccess 64000 none, v⟩
  let last : Transition HashServer Event :=
    ⟨v, .call 5 .allowRequest 65000 (some ⟨true, modeClosed⟩), w⟩
  have hwhole : Run (Step (breakerNeeding 1)) ⟨0, none⟩
      (before ++ failure :: [first, second] ++ [last]) w := by
    simpa [failure, first, second, last] using hrun'
  have htimely : Timely (breakerNeeding 1) (before ++ [failure])
      ([] ++ [first] ++ [second]) := by
    refine throughout_snoc.mpr ⟨throughout_snoc.mpr ⟨throughout_nil, ?_⟩, ?_⟩
    · exact ⟨fun hdisturbs => hdisturbs.2, fun _ _ _ hlabel => by simp [first] at hlabel⟩
    · refine ⟨fun hdisturbs => by simpa [second, hhalf] using hdisturbs.1, ?_⟩
      intro request _ _ hlabel _
      obtain ⟨rfl, -⟩ := Event.call.inj hlabel
      rw [← List.append_assoc, currentEpisode_snoc, if_pos hhalf, if_neg (by simp [first, hopen])]
      simp [first, admittedIn]
  have hopening : isOpening failure = true := by
    simp [failure, isOpening, Event.isFailure, Op.isFailure, hopen]
  have hlatest : ∀ z ∈ [first, second], isOpening z = false := by
    simp [first, second, isOpening, Event.isFailure, Op.isFailure]
  have hevidence := closed_needs_evidence rfl hwhole htimely hopening hlatest rfl
  exact ⟨before, [first, second], failure, last, w, hwhole, rfl,
    hevidence.resolve_left (by simp [first, second, Event.isExpiry])⟩

end BaseWebService.CircuitBreaker
