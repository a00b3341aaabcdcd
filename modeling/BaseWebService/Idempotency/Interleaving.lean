import BaseWebService.Idempotency.Basic

/-!
# Interleaved requests

Any number of requests run `serve` on one Redis, and what each of them calls is a step of its own.
`holder` reads off the history who has set the key that is there, `acquired` which lock a request
has taken; `Shared` is what holds of Redis at all times and `Local` what holds of a request at each
of its points.
-/

namespace BaseWebService.Idempotency

open Library Redis IdempotencyRequestMiddleware

section pool
variable (ρ ε : Type)

abbrev RequestPool := Pool Call (Call.Reply ρ ε) (Error ε) (Answer ρ) (World ρ ε)
abbrev RequestLabel := Pool.Label Call (Call.Reply ρ ε)
abbrev RequestHistory := Pool.History Call (Call.Reply ρ ε) (World ρ ε)

end pool

variable {ρ ε : Type}

/-- One step of the requests that are served. -/
def ServeStep (app : IdempotencyRequestMiddleware) :
    RequestPool ρ ε → RequestLabel ρ ε → RequestPool ρ ε → Prop :=
  Pool.Step World.exec app.serve World.Passes

/-! ## The points of a request -/

inductive Point (ρ ε : Type) where
  | accept
  | passing
  | set (key : String)
  | handler (key : String)
  | delete (key : String) (response : ρ)
  | done (answer : Answer ρ)
  | failed (e : Error ε)

section flow
variable (app : IdempotencyRequestMiddleware)

/-- Where `dispatch` starts. -/
def Point.enter (request : Request ε) : Point ρ ε :=
  if !writeMethods.contains request.method then .passing
  else if app.redisPool then
    match request.body with
    | .ok requestBody => if requestBody.isEmpty then .passing else .set (app.buildKey requestBody)
    | .error e => .failed (.raised e)
  else .failed (.runtimeError "Redis not initialized")

def serveFlow : Flow Call (Call.Reply ρ ε) (Error ε) (Answer ρ) (Point ρ ε)
  | .accept => .call .accept fun request => .enter app request
  | .passing => .call .callNext fun
    | .ok response => .done (.response response)
    | .error e => .failed (.raised e)
  | .set key => .call (.set key "1" idempotencyTtlSeconds) fun (locked : Bool) =>
    if locked then .handler key else .done conflict
  | .handler key => .call .callNext fun
    | .ok response => .delete key response
    | .error e => .failed (.raised e)
  | .delete key response => .call (.delete key) fun _ => .done (.response response)
  | .done answer => .ret answer
  | .failed e => .raise e

theorem passing_follows :
    Follows (serveFlow app) (Answer.response <$> callNext : M ρ ε (Answer ρ)) .passing := by
  refine ⟨_, rfl, fun outcome => ?_⟩
  cases outcome with
  | ok | error => rfl

/-- What `dispatch` does once it knows the key. -/
theorem set_follows (key : String) : Follows (serveFlow app) (do
    let locked ← (.perform (Call.set key "1" idempotencyTtlSeconds) : M ρ ε Bool)
    if !locked then
      return conflict
    let response ← callNext
    (.perform (Call.delete key) : M ρ ε Unit)
    return .response response) (.set key) := by
  refine ⟨_, rfl, fun (locked : Bool) => ?_⟩
  cases locked with
  | false => rfl
  | true =>
    refine ⟨_, rfl, fun outcome => ?_⟩
    cases outcome with
    | ok response => exact ⟨_, rfl, fun _ => rfl⟩
    | error => rfl

theorem serve_follows : Follows (serveFlow app) (app.serve : M ρ ε (Answer ρ)) .accept := by
  refine ⟨_, rfl, fun (request : Request ε) => ?_⟩
  change Follows _ (app.dispatch request) (Point.enter app request)
  unfold dispatch Point.enter getRedisClient readBody
  split_ifs with hmethod hpool
  · exact passing_follows app
  · cases request.body with
    | error => rfl
    | ok requestBody =>
      change Follows _ (ite _ _ _) (ite _ _ _)
      split_ifs
      · exact passing_follows app
      · exact set_follows app _
  · rfl

end flow

/-! ## Who has which lock -/

/-- How long a lock lasts, in milliseconds. -/
def ttlMs : Int := idempotencyTtlSeconds * 1000

section history

/-- The lock a step takes, and for whom. -/
def takes : RequestLabel ρ ε → Option (ℕ × String)
  | .issue i (.set key _ _) locked => bif locked then some (i, key) else none
  | _ => none

/-- The lock a step gives back. -/
def frees : RequestLabel ρ ε → Option String
  | .issue _ (.delete key) _ => some key
  | _ => none

def holderStep (key : String) (past : Option (ℕ × Int))
    (x : Transition (World ρ ε) (RequestLabel ρ ε)) : Option (ℕ × Int) :=
  match takes x.label with
  | some (i, k) => if k = key then some (i, x.before.redis.now) else past
  | none => if frees x.label = some key then none else past

/-- The last SET of the key that no DEL has followed: who made it, and when. -/
def holder (key : String) (h : RequestHistory ρ ε) : Option (ℕ × Int) :=
  h.foldl (holderStep key) none

def acquiredStep (i : ℕ) (past : Option (String × Int))
    (x : Transition (World ρ ε) (RequestLabel ρ ε)) : Option (String × Int) :=
  match takes x.label with
  | some (j, key) => if j = i then some (key, x.before.redis.now) else past
  | none => past

/-- The lock a request has taken, and when. -/
def acquired (i : ℕ) (h : RequestHistory ρ ε) : Option (String × Int) :=
  h.foldl (acquiredStep i) none

variable {i j : ℕ} {key : String} {h : RequestHistory ρ ε}
  {x : Transition (World ρ ε) (RequestLabel ρ ε)}

theorem holder_snoc : holder key (h ++ [x]) = holderStep key (holder key h) x := by
  simp [holder]

theorem acquired_snoc : acquired i (h ++ [x]) = acquiredStep i (acquired i h) x := by
  simp [acquired]

theorem proc_of_takes (hx : takes x.label = some (j, key)) : x.label.proc = some j := by
  unfold takes at hx
  split at hx
  · rename_i locked hl
    cases locked with
    | false => cases hx
    | true =>
      rw [hl]
      exact congrArg some (Prod.mk.inj (Option.some.inj hx)).1
  · cases hx

theorem holder_of_quiet (htakes : takes x.label = none) (hfrees : frees x.label = none) :
    holder key (h ++ [x]) = holder key h := by
  simp [holder_snoc, holderStep, htakes, hfrees]

theorem acquired_of_quiet (htakes : takes x.label = none) :
    acquired i (h ++ [x]) = acquired i h := by
  simp [acquired_snoc, acquiredStep, htakes]

/-- The steps of others take no lock for a request. -/
theorem acquired_of_proc_ne (hx : x.label.proc ≠ some i) :
    acquired i (h ++ [x]) = acquired i h := by
  rw [acquired_snoc, acquiredStep]
  split
  · rename_i j key htakes
    refine if_neg fun hj => hx ?_
    rw [proc_of_takes htakes, hj]
  · rfl

theorem acquired_of_not_started (hnone : ∀ x ∈ h, x.label.proc ≠ some i) : acquired i h = none := by
  induction h using List.reverseRecOn with
  | nil => rfl
  | append_singleton h x ih =>
    rw [acquired_of_proc_ne (hnone x (by simp))]
    exact ih fun y hy => hnone y (List.mem_append_left _ hy)

/-- The steps of others make no request the holder of a lock. -/
theorem holder_of_proc_ne {t : Int} (hx : x.label.proc ≠ some i)
    (h' : holder key (h ++ [x]) = some (i, t)) : holder key h = some (i, t) := by
  rw [holder_snoc, holderStep] at h'
  split at h'
  · rename_i j k htakes
    split_ifs at h'
    · obtain ⟨rfl, -⟩ := Prod.mk.inj (Option.some.inj h')
      exact absurd (proc_of_takes htakes) hx
    · exact h'
  · split_ifs at h'
    exact h'

end history

/-- What Redis has under a key, by the record of who has set it. -/
def lockEntry (now : Int) : Option (ℕ × Int) → Option Entry
  | some (_, t) => if now < t + ttlMs then some ⟨"1", t + ttlMs⟩ else none
  | none => none

theorem lockEntry_isSome {now : Int} {o : Option (ℕ × Int)} :
    (lockEntry now o).isSome = true ↔ ∃ i t, o = some (i, t) ∧ now < t + ttlMs := by
  rcases o with _ | ⟨i, t⟩
  · simp [lockEntry]
  · by_cases ht : now < t + ttlMs <;> simp [lockEntry, ht]

/-- The step deletes no lock that another request has set. -/
def Harmless (past : RequestHistory ρ ε) (x : Transition (World ρ ε) (RequestLabel ρ ε)) : Prop :=
  ∀ i key, x.label = .issue i (.delete key) () → (x.before.redis.entries key).isSome = true →
    ∀ j t, holder key past = some (j, t) → j = i

/-- A lock that is there is deleted by a request whose own lock on it still lasts. -/
def Prompt (past : RequestHistory ρ ε) (x : Transition (World ρ ε) (RequestLabel ρ ε)) : Prop :=
  ∀ i key, x.label = .issue i (.delete key) () → (x.before.redis.entries key).isSome = true →
    ∃ t, acquired i past = some (key, t) ∧ x.before.redis.now < t + ttlMs

/-- Where the inner application raises, the lock of the request has lasted long enough, or is not
its own any more. -/
def Kept (past : RequestHistory ρ ε) (x : Transition (World ρ ε) (RequestLabel ρ ε)) : Prop :=
  ∀ i e, x.label = .issue i .callNext (.error e) → ∀ key t, acquired i past = some (key, t) →
    t + ttlMs ≤ x.before.redis.now ∨ holder key past ≠ some (i, t)

/-- What holds of Redis at all times. -/
structure Shared (h : RequestHistory ρ ε) (w : World ρ ε) : Prop where
  entries : ∀ key, w.redis.entries key = lockEntry w.redis.now (holder key h)
  own : ∀ key i t, holder key h = some (i, t) → acquired i h = some (key, t)
  prompt_iff : Throughout Prompt h ↔ Throughout Harmless h

/-- What holds of a request at each of its points. -/
def Local (i : ℕ) (h : RequestHistory ρ ε) (w : World ρ ε) : Point ρ ε → Prop
  | .accept | .passing | .set _ => acquired i h = none
  | .handler key | .delete key _ => ∃ t, acquired i h = some (key, t) ∧
    (Throughout Prompt h → w.redis.now < t + ttlMs → holder key h = some (i, t))
  | .done _ => ∀ key t, acquired i h = some (key, t) → holder key h ≠ some (i, t)
  | .failed _ => Throughout Kept h → ∀ key t, acquired i h = some (key, t) →
    t + ttlMs ≤ w.redis.now ∨ holder key h ≠ some (i, t)

/-! ## Every step keeps the invariant -/

section keeps

variable {app : IdempotencyRequestMiddleware} {i : ℕ} {h : RequestHistory ρ ε}
  {x : Transition (World ρ ε) (RequestLabel ρ ε)}

/-- Redis shows the same record later on, whatever has expired. -/
theorem filter_lockEntry {now now' : Int} (hle : now ≤ now') (o : Option (ℕ × Int)) :
    (lockEntry now o).filter (fun e => now' < e.deadline) = lockEntry now' o := by
  rcases o with _ | ⟨i, t⟩
  · rfl
  · by_cases ht : now < t + ttlMs
    · by_cases ht' : now' < t + ttlMs
      · simp [lockEntry, ht, ht']
      · simp [lockEntry, ht, ht']
        omega
    · have ht' : ¬ now' < t + ttlMs := by omega
      simp [lockEntry, ht, ht']

/-- A step that gives no lock back is prompt and harmless. -/
theorem prompt_of_frees (hfrees : frees x.label = none) : Prompt h x := by
  intro i key hx
  rw [hx] at hfrees
  cases hfrees

theorem harmless_of_frees (hfrees : frees x.label = none) : Harmless h x := by
  intro i key hx
  rw [hx] at hfrees
  cases hfrees

theorem prompt_iff_of_frees (hfrees : frees x.label = none)
    (hpast : Throughout Prompt h ↔ Throughout Harmless h) :
    Throughout Prompt (h ++ [x]) ↔ Throughout Harmless (h ++ [x]) := by
  rw [throughout_snoc, throughout_snoc, hpast]
  exact and_congr_right fun _ => iff_of_true (prompt_of_frees hfrees) (harmless_of_frees hfrees)

/-- Nothing happens to the locks in a step that neither takes nor gives back one. -/
theorem Shared.quiet (hshared : Shared h x.before) (htakes : takes x.label = none)
    (hfrees : frees x.label = none)
    (hredis : ∀ key, x.after.redis.entries key =
      lockEntry x.after.redis.now (holder key h)) :
    Shared (h ++ [x]) x.after where
  entries key := by
    rw [holder_of_quiet htakes hfrees]
    exact hredis key
  own key i t := by
    rw [holder_of_quiet htakes hfrees, acquired_of_quiet htakes]
    exact hshared.own key i t
  prompt_iff := prompt_iff_of_frees hfrees hshared.prompt_iff

theorem ttlMs_pos : 0 < ttlMs := by decide

/-- A request takes a lock that nobody has. -/
theorem Shared.take {key : String} (hshared : Shared h x.before)
    (htakes : takes x.label = some (i, key)) (hfrees : frees x.label = none)
    (hnone : acquired i h = none) (hnow : x.after.redis.now = x.before.redis.now)
    (hafter : x.after.redis.entries = Function.update x.before.redis.entries key
      (some ⟨"1", x.before.redis.now + ttlMs⟩)) : Shared (h ++ [x]) x.after where
  entries key' := by
    rw [holder_snoc, holderStep, htakes, hafter, hnow]
    by_cases hkey : key = key'
    · subst hkey
      have := ttlMs_pos
      simp [lockEntry]
      omega
    · simp only [if_neg hkey, Function.update_of_ne (Ne.symm hkey)]
      exact hshared.entries key'
  own key' j t := by
    rw [holder_snoc, holderStep, acquired_snoc, acquiredStep, htakes]
    dsimp only
    split_ifs with hkey hj hj
    · grind
    · grind
    · intro hholder
      have := hshared.own key' j t hholder
      simp [← hj, hnone] at this
    · exact hshared.own key' j t
  prompt_iff := prompt_iff_of_frees hfrees hshared.prompt_iff

/-- A request gives a lock back: it deletes no other's if and only if its own lock still lasts. -/
theorem Shared.free {key : String} (hshared : Shared h x.before)
    (hx : x.label = .issue i (.delete key) ()) (hafter : x.after.redis = x.before.redis.delete key)
    (hlocal : ∃ t, acquired i h = some (key, t) ∧ (Throughout Prompt h →
      x.before.redis.now < t + ttlMs → holder key h = some (i, t))) :
    Shared (h ++ [x]) x.after where
  entries key' := by
    rw [holder_snoc, holderStep, hx, hafter]
    by_cases hkey : key = key'
    · subst hkey
      simp [takes, frees, StringServer.delete, lockEntry]
    · simp only [takes, frees, Option.some.injEq, if_neg hkey, StringServer.delete,
        Function.update_of_ne (Ne.symm hkey)]
      exact hshared.entries key'
  own key' j t := by
    rw [acquired_of_quiet (by rw [hx]; rfl), holder_snoc, holderStep, hx]
    intro hholder
    by_cases hkey : key = key'
    · simp [takes, frees, hkey] at hholder
    · exact hshared.own key' j t (by simpa [takes, frees, hkey] using hholder)
  prompt_iff := by
    rw [throughout_snoc, throughout_snoc, ← hshared.prompt_iff]
    refine and_congr_right fun hprompt => ⟨fun h' i' key' hx' hsome j t' hholder => ?_,
      fun h' i' key' hx' hsome => ?_⟩
    · obtain ⟨t, hacquired, hlasts⟩ := h' i' key' hx' hsome
      obtain ⟨rfl, hcall, -⟩ := Pool.Label.issue.inj (hx.symm.trans hx')
      obtain rfl := Call.delete.inj hcall
      obtain ⟨t₀, hacquired', hholds⟩ := hlocal
      obtain rfl : t₀ = t := by simpa using hacquired'.symm.trans hacquired
      have hboth := hholder.symm.trans (hholds hprompt hlasts)
      exact (Prod.mk.inj (Option.some.inj hboth)).1
    · have hthere := hsome
      rw [hshared.entries, lockEntry_isSome] at hthere
      obtain ⟨j, t, hholder, hlasts⟩ := hthere
      obtain rfl := h' i' key' hx' hsome j t hholder
      exact ⟨t, hshared.own key' j t hholder, hlasts⟩

/-- What others do leaves a request its record, and its lock if that step keeps it. -/
theorem Local.frame {q : Point ρ ε} (hlocal : Local i h x.before q) (hx : x.label.proc ≠ some i)
    (hnow : x.before.redis.now ≤ x.after.redis.now)
    (hkeeps : ∀ key t, Throughout Prompt (h ++ [x]) → x.before.redis.now < t + ttlMs →
      holder key h = some (i, t) → holder key (h ++ [x]) = some (i, t)) :
    Local i (h ++ [x]) x.after q := by
  have hsame := acquired_of_proc_ne (h := h) hx
  cases q with
  | accept | passing | set => exact hsame.trans hlocal
  | handler key | delete key response =>
    obtain ⟨t, hacquired, hholds⟩ := hlocal
    refine ⟨t, hsame.trans hacquired, fun hprompt hlasts => ?_⟩
    have hlasts' : x.before.redis.now < t + ttlMs := by omega
    exact hkeeps key t hprompt hlasts' (hholds hprompt.of_append hlasts')
  | done answer =>
    intro key t hacquired hholder
    exact hlocal key t (hsame.symm.trans hacquired) (holder_of_proc_ne hx hholder)
  | failed e =>
    intro hkept key t hacquired
    rcases hlocal hkept.of_append key t (hsame.symm.trans hacquired) with hover | hholder
    · exact Or.inl (by omega)
    · exact Or.inr fun hholder' => hholder (holder_of_proc_ne hx hholder')

theorem Local.enter {w : World ρ ε} (hnone : acquired i h = none) (request : Request ε) :
    Local i h w (.enter app request) := by
  unfold Point.enter
  split_ifs
  · exact hnone
  · split
    · split_ifs
      · exact hnone
      · exact hnone
    · simp [Local, hnone]
  · simp [Local, hnone]

/-- A call that touches no key. -/
theorem Shared.issue_quiet {w : World ρ ε} {c : Call} {reply : c.Reply ρ ε}
    (hshared : Shared h w) (htakes : takes (.issue i c reply : RequestLabel ρ ε) = none)
    (hfrees : frees (.issue i c reply : RequestLabel ρ ε) = none) :
    Shared (h ++ [⟨w, .issue i c reply, w⟩]) w :=
  Shared.quiet (x := ⟨w, .issue i c reply, w⟩) hshared htakes hfrees hshared.entries

/-- A request's own calls, at each of its points. -/
theorem Local.issue {w : World ρ ε} {q : Point ρ ε} {c : Call} {next : c.Reply ρ ε → Point ρ ε}
    (hflow : serveFlow app q = .call c next) (hshared : Shared h w) (hlocal : Local i h w q) :
    Shared (h ++ [⟨w, .issue i c (World.exec c w).1, (World.exec c w).2⟩]) (World.exec c w).2 ∧
      Local i (h ++ [⟨w, .issue i c (World.exec c w).1, (World.exec c w).2⟩]) (World.exec c w).2
        (next (World.exec c w).1) := by
  cases q with
  | accept =>
    obtain ⟨rfl, hnext⟩ := Node.call.inj hflow
    obtain rfl := eq_of_heq hnext
    exact ⟨hshared.issue_quiet rfl rfl, Local.enter ((acquired_of_quiet rfl).trans hlocal) _⟩
  | passing =>
    obtain ⟨rfl, hnext⟩ := Node.call.inj hflow
    obtain rfl := eq_of_heq hnext
    refine ⟨hshared.issue_quiet rfl rfl, ?_⟩
    have hnone : acquired i (h ++ [⟨w, .issue i .callNext w.outcome, w⟩]) = none :=
      (acquired_of_quiet rfl).trans hlocal
    simp only [World.exec]
    split
    · simp [Local, hnone]
    · simp [Local, hnone]
  | set key =>
    obtain ⟨rfl, hnext⟩ := Node.call.inj hflow
    obtain rfl := eq_of_heq hnext
    cases hentry : w.redis.entries key with
    | some e =>
      simp only [World.exec, StringServer.setNx_of_some hentry]
      refine ⟨hshared.issue_quiet rfl rfl, ?_⟩
      have hnone : acquired i (h ++ [⟨w, .issue i (.set key "1" idempotencyTtlSeconds) false, w⟩]) =
          none := (acquired_of_quiet rfl).trans hlocal
      simp [Local, hnone]
    | none =>
      simp only [World.exec, StringServer.setNx_of_none hentry]
      refine ⟨hshared.take rfl rfl hlocal rfl rfl, w.redis.now, ?_, fun _ _ => ?_⟩
      · simp [acquired_snoc, acquiredStep, takes]
      · simp [holder_snoc, holderStep, takes]
  | handler key =>
    obtain ⟨rfl, hnext⟩ := Node.call.inj hflow
    obtain rfl := eq_of_heq hnext
    obtain ⟨t, hacquired, hholds⟩ := hlocal
    refine ⟨hshared.issue_quiet rfl rfl, ?_⟩
    have hsame : acquired i (h ++ [⟨w, .issue i .callNext w.outcome, w⟩]) = some (key, t) :=
      (acquired_of_quiet rfl).trans hacquired
    simp only [World.exec] at hsame ⊢
    split
    · exact ⟨t, hsame, fun hprompt hlasts =>
        (holder_of_quiet rfl rfl).trans (hholds hprompt.of_append hlasts)⟩
    · rename_i e houtcome
      intro hkept key' t' hacquired'
      rw [holder_of_quiet rfl rfl]
      rw [acquired_of_quiet rfl] at hacquired'
      exact (throughout_snoc.mp hkept).2 i e (by rw [houtcome]) key' t' hacquired'
  | delete key response =>
    obtain ⟨rfl, hnext⟩ := Node.call.inj hflow
    obtain rfl := eq_of_heq hnext
    refine ⟨Shared.free hshared rfl rfl hlocal, fun key' t' hacquired' => ?_⟩
    obtain ⟨t, hacquired, -⟩ := hlocal
    rw [acquired_of_quiet rfl, hacquired] at hacquired'
    obtain ⟨rfl, -⟩ := Prod.mk.inj (Option.some.inj hacquired')
    simp [holder_snoc, holderStep, takes, frees]
  | done | failed => cases hflow

/-- Another request's call leaves a lock that lasts to its holder. -/
theorem holder_of_issue {w : World ρ ε} {j : ℕ} {q : Point ρ ε} {c : Call}
    {next : c.Reply ρ ε → Point ρ ε} (hflow : serveFlow app q = .call c next)
    (hshared : Shared h w) (hlocal : Local j h w q) (hij : j ≠ i) {key : String} {t : Int}
    (hprompt : Throughout Prompt
      (h ++ [⟨w, .issue j c (World.exec c w).1, (World.exec c w).2⟩]))
    (hlasts : w.redis.now < t + ttlMs) (hholder : holder key h = some (i, t)) :
    holder key (h ++ [⟨w, .issue j c (World.exec c w).1, (World.exec c w).2⟩]) = some (i, t) := by
  have hthere : (w.redis.entries key).isSome = true := by
    rw [hshared.entries, lockEntry_isSome]
    exact ⟨i, t, hholder, hlasts⟩
  cases q with
  | accept | passing | handler =>
    obtain ⟨rfl, -⟩ := Node.call.inj hflow
    exact (holder_of_quiet rfl rfl).trans hholder
  | set key' =>
    obtain ⟨rfl, -⟩ := Node.call.inj hflow
    cases hentry : w.redis.entries key' with
    | some e =>
      simp only [World.exec, StringServer.setNx_of_some hentry]
      exact (holder_of_quiet rfl rfl).trans hholder
    | none =>
      have hne : key' ≠ key := by
        rintro rfl
        simp [hentry] at hthere
      simp [World.exec, StringServer.setNx_of_none hentry, holder_snoc, holderStep, takes, hne,
        hholder]
  | delete key' response =>
    obtain ⟨rfl, -⟩ := Node.call.inj hflow
    have hne : key' ≠ key := by
      -- Its own lock lasts too, so it would be the holder.
      rintro rfl
      obtain ⟨hpast, hx⟩ := throughout_snoc.mp hprompt
      obtain ⟨t', hacquired, hlasts'⟩ := hx j key' rfl hthere
      obtain ⟨t₀, hacquired', hholds⟩ := hlocal
      obtain rfl : t₀ = t' := by simpa using hacquired'.symm.trans hacquired
      have hboth := hholder.symm.trans (hholds hpast hlasts')
      exact hij (Prod.mk.inj (Option.some.inj hboth)).1.symm
    simp [holder_snoc, holderStep, takes, frees, hne, hholder]
  | done | failed => cases hflow

theorem serve_keeps (app : IdempotencyRequestMiddleware) :
    Pool.Keeps World.exec World.Passes (serveFlow app : Flow Call (Call.Reply ρ ε) _ _ _) .accept
      Shared Local where
  start h w i hshared hnone := by
    refine ⟨Shared.quiet (x := ⟨w, .start i, w⟩) hshared rfl rfl hshared.entries, ?_⟩
    exact (acquired_of_quiet rfl).trans (acquired_of_not_started hnone)
  issue h w i q c next hflow hshared hlocal := Local.issue hflow hshared hlocal
  passes h w w' hpasses hshared := by
    obtain ⟨now, hnow, hredis⟩ := hpasses
    refine Shared.quiet (x := ⟨w, .env, w'⟩) hshared rfl rfl fun key => ?_
    simp only [hredis, StringServer.advance, hshared.entries, filter_lockEntry hnow]
  frame h w i q hshared hlocal := by
    refine ⟨fun j hij => ?_, fun j q' c next hij hflow hlocal' => ?_, fun w' hpasses => ?_⟩
    · refine Local.frame (x := ⟨w, .start j, w⟩) hlocal (by simpa [Pool.Label.proc] using hij)
        (Int.le_refl _) fun key t _ _ hholder => ?_
      exact (holder_of_quiet rfl rfl).trans hholder
    · refine Local.frame (x := ⟨w, .issue j c _, _⟩) hlocal (by simpa [Pool.Label.proc] using hij)
        (Int.le_of_eq (World.exec_now c w).symm) fun key t hprompt hlasts hholder => ?_
      exact holder_of_issue hflow hshared hlocal' hij hprompt hlasts hholder
    · obtain ⟨now, hnow, hredis⟩ := hpasses
      refine Local.frame (x := ⟨w, .env, w'⟩) hlocal (by simp [Pool.Label.proc])
        (by rw [hredis]; exact hnow) fun key t _ _ hholder => ?_
      exact (holder_of_quiet rfl rfl).trans hholder

/-- The invariant holds at the end of every run that starts with an empty Redis. -/
theorem serve_invariant {w : World ρ ε} (hempty : w.redis = .empty w.redis.now)
    {p : RequestPool ρ ε} {tr : List (Transition (RequestPool ρ ε) (RequestLabel ρ ε))}
    (hrun : Run (ServeStep app) (Pool.fresh w) tr p) :
    Pool.Holds (serveFlow app) Shared Local (Pool.history tr) p := by
  refine Pool.invariant (serve_follows app) (serve_keeps app) hrun ⟨fun key => ?_, ?_, by simp⟩
  · rw [hempty]
    rfl
  · intro key i t hholder
    cases hholder

end keeps

end BaseWebService.Idempotency
