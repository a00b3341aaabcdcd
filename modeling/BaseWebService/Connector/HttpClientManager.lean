import Mathlib.Algebra.BigOperators.Group.Multiset.Basic
import Mathlib.Data.Finset.Card
import BaseWebService.Library.Discipline

/-!
# The shared HTTP client

`HttpClientManager` of `core/infra/connectors/http_client_manager.py`. The class variable is read
and written by whoever calls, and `close_client` writes it only after it has waited for the client
to close, when another task may have put a client of its own there.

## Main results

* `client_usable` : what `get_client` returns.
* `card_lost_le` : how many clients are forgotten without being closed.
-/

namespace BaseWebService.Connector.HttpClientManager

open Library

/-- An exception, of `httpx` or a cancellation of the task, or that of `None.aclose`. -/
inductive Failure where
  | attributeError
  | raised (text : String)

/-- Clients are numbered in the order in which they are made. -/
inductive Command where
  | readClient
  | newClient
  | writeClient (value : Option ℕ)
  | aclose (client : ℕ)

abbrev Command.Reply : Command → Type
  | .readClient => Option ℕ
  | .newClient => Except String ℕ
  | .writeClient _ => Unit
  | .aclose _ => Except String Unit

abbrev M := Prog Command Command.Reply Failure

/-- The class variable `_client`, how many clients have been made, and which of them have been told
to close: from then on they take no request. -/
structure ClientStore where
  current : Option ℕ := none
  count : ℕ := 0
  closed : Finset ℕ := ∅

def ClientStore.close (s : ClientStore) (client : ℕ) : ClientStore :=
  { s with closed := insert client s.closed }

namespace ClientStore

inductive Answer (s : ClientStore) : (c : Command) → c.Reply → ClientStore → Prop where
  | readClient : Answer s .readClient s.current s
  | newClient : Answer s .newClient (.ok s.count) { s with count := s.count + 1 }
  | newClientError {text : String} : Answer s .newClient (.error text) s
  | writeClient {value : Option ℕ} : Answer s (.writeClient value) () { s with current := value }
  | aclose {client : ℕ} : Answer s (.aclose client) (.ok ()) (s.close client)
  | acloseError {client : ℕ} {text : String} :
      Answer s (.aclose client) (.error text) (s.close client)

/-- Closing may wait for the connections. -/
inductive Suspend (s : ClientStore) : Command → ClientStore → Prop where
  | aclose {client : ℕ} : Suspend s (.aclose client) (s.close client)

inductive Resume (s : ClientStore) : (c : Command) → c.Reply → ClientStore → Prop where
  | aclose {client : ℕ} : Resume s (.aclose client) (.ok ()) s
  | acloseError {client : ℕ} {text : String} : Resume s (.aclose client) (.error text) s

end ClientStore

def clientKernel : Kernel Command Command.Reply ClientStore where
  answer _ c s r t := s.Answer c r t
  suspend _ c s t := s.Suspend c t
  resume _ c s r t := s.Resume c r t

/-! ## The functions -/

def ask (c : Command) : M c.Reply := Prog.perform c

def orRaise {α : Type} : Except String α → M α
  | .ok a => .ret a
  | .error text => .raise (.raised text)

/-- `initialize`, and the first two lines of `get_client`. -/
def initializeClient : M Unit := do
  match ← ask .readClient with
  | none =>
    let client ← orRaise (← ask .newClient)
    ask (.writeClient (some client))
  | some _ => return ()

def getClient : M (Option ℕ) := do
  initializeClient
  ask .readClient

def closeClient : M Unit := do
  match ← ask .readClient with
  | none => return ()
  | some _ =>
    match ← ask .readClient with
    | none => throw .attributeError
    | some client =>
      orRaise (← ask (.aclose client))
      ask (.writeClient none)

inductive Call where
  | initializeClient
  | getClient
  | closeClient

abbrev Call.Value : Call → Type
  | .getClient => Option ℕ
  | _ => Unit

def Call.body : (call : Call) → M call.Value
  | .initializeClient => HttpClientManager.initializeClient
  | .getClient => HttpClientManager.getClient
  | .closeClient => HttpClientManager.closeClient

abbrev ClientLoop := Loop Command Command.Reply Failure ClientStore Call.Value
abbrev ClientLabel := Loop.Label Command Command.Reply Failure Call.Value
abbrev ClientEvent := Event Command Command.Reply

abbrev ClientStep : ClientLoop → ClientLabel → ClientLoop → Prop :=
  Loop.Step clientKernel Call.body

/-! ## The discipline -/

/-- What a task knows: that there is no client, the one it has made or read, or the one it has seen
closed. `gone` is a client that has been there and is not. -/
inductive Place where
  | outside
  | absent
  | fresh (client : ℕ)
  | found (client : ℕ)
  | done (client : ℕ)
  | gone
  deriving DecidableEq

def discipline : Discipline Command Command.Reply Place where
  allows
    | .outside, .readClient | .found _, .readClient => True
    | .absent, .newClient => True
    | .fresh client, .writeClient value => value = some client
    | .found client, .aclose client' => client' = client
    | .done _, .writeClient value => value = none
    | _, _ => False
  next
    | .outside, .readClient, none => .absent
    | _, .readClient, none => .gone
    | _, .readClient, some client => .found client
    | _, .newClient, .ok client => .fresh client
    | .fresh client, .writeClient _, _ => .found client
    | _, .aclose client, .ok _ => .done client
    | _, _, _ => .outside

/-- A task that is not about to write the class variable. -/
def Place.Settled : Place → Prop
  | .outside | .absent | .found _ => True
  | _ => False

/-- A call of `get_client` ends with the client it has read. -/
def EndsWith : (call : Call) → Except Failure call.Value → Place → Prop
  | .getClient, .ok (some client), p => p = .found client
  | .getClient, .ok none, p => p = .gone
  | _, .error .attributeError, p => p = .gone
  | _, _, p => p.Settled

theorem initializeClient_obeys : Obeys discipline
    (fun r p => match r with
      | .ok _ => ∃ client, p = .found client
      | .error e => p = .outside ∧ e ≠ .attributeError) .outside initializeClient := by
  refine ⟨trivial, fun current => ?_⟩
  cases current with
  | some client => exact ⟨client, rfl⟩
  | none =>
    refine ⟨trivial, fun made => ?_⟩
    cases made with
    | error text => exact ⟨rfl, by simp⟩
    | ok client => exact ⟨rfl, fun _ => ⟨client, rfl⟩⟩

theorem closeClient_obeys : Obeys discipline (EndsWith .closeClient) .outside closeClient := by
  refine ⟨trivial, fun current => ?_⟩
  cases current with
  | none => exact trivial
  | some client =>
    refine ⟨trivial, fun current => ?_⟩
    cases current with
    | none => exact rfl
    | some client =>
      refine ⟨rfl, fun reply => ?_⟩
      cases reply with
      | error text => exact trivial
      | ok _ => exact ⟨rfl, fun _ => trivial⟩

theorem body_obeys (call : Call) : Obeys discipline (EndsWith call) .outside call.body := by
  cases call with
  | initializeClient =>
    refine initializeClient_obeys.mono fun r p h => ?_
    cases r with
    | ok _ =>
      obtain ⟨client, rfl⟩ := h
      exact trivial
    | error e =>
      obtain ⟨rfl, he⟩ := h
      cases e with
      | attributeError => exact absurd rfl he
      | raised text => exact trivial
  | getClient =>
    refine initializeClient_obeys.bind (fun _ p h => ?_) fun e p h => ?_
    · obtain ⟨client, rfl⟩ := h
      refine ⟨trivial, fun current => ?_⟩
      cases current with
      | none => exact rfl
      | some client => exact rfl
    · obtain ⟨rfl, he⟩ := h
      cases e with
      | attributeError => exact absurd rfl he
      | raised text => exact trivial
  | closeClient => exact closeClient_obeys

/-! ## What is kept -/

/-- A newer client than this one is current. -/
def Outdated (client : ℕ) (current : Option ℕ) : Bool := current.any (client < ·)

/-- The current client, and how many closes have come to their end when a newer client was
current. -/
structure Tally where
  current : Option ℕ := none
  stale : ℕ := 0

def Tally.after (t : Tally) : ClientEvent → Tally
  | ⟨.writeClient value, _⟩ => { t with current := value }
  | ⟨.aclose client, .ok _⟩ => { t with stale := t.stale + (Outdated client t.current).toNat }
  | _ => t

def tally (h : List ClientEvent) : Tally := h.foldl Tally.after {}

@[simp] theorem tally_snoc (h : List ClientEvent) (e : ClientEvent) :
    tally (h ++ [e]) = (tally h).after e := by
  simp [tally]

/-- The client has raised when it was closed. -/
def CloseFailed (client : ℕ) (h : List ClientEvent) : Prop :=
  ∃ text, ⟨.aclose client, .error text⟩ ∈ h

/-- The clients that nobody can reach any more and that have not been told to close. -/
def lost (s : ClientStore) : Finset ℕ :=
  (Finset.range s.count).filter fun client => client ∉ s.closed ∧ s.current ≠ some client

abbrev ClientStance := Stance Command Place

/-- What a task knows is so. -/
structure Valid (s : ClientStore) (x : ClientStance) : Prop where
  absent : x.waits = none → x.state = .absent → s.current = none
  fresh : ∀ client, x.waits = none → x.state = .fresh client →
    s.current = none ∧ client + 1 = s.count ∧ client ∉ s.closed
  found : ∀ client, x.waits = none → x.state = .found client → s.current = some client
  done : ∀ client, x.state = .done client → client ∈ s.closed
  gone : x.state ≠ .gone
  waits : ∀ c, x.waits = some c → ∃ client, c = .aclose client ∧ x.state = .found client ∧
    client ∈ s.closed

/-- One, if the task has made a client and not given it out. -/
def credit (x : ClientStance) : ℕ :=
  match x.state with
  | .fresh _ => 1
  | _ => 0

/-- One, if the task is about to clear the variable of a newer client than its own. -/
def debt (current : Option ℕ) (x : ClientStance) : ℕ :=
  match x.state with
  | .done client => (Outdated client current).toNat
  | _ => 0

/-- A task waits for the client to close, or has just seen it. -/
def Closing (client : ℕ) (x : ClientStance) : Prop :=
  x.waits = some (.aclose client) ∨ x.state = .done client

structure Kept (h : List ClientEvent) (m : Multiset ClientStance) (s : ClientStore) : Prop where
  current : ∀ client, s.current = some client → client + 1 = s.count
  closed : ∀ client ∈ s.closed, client < s.count
  noted : (tally h).current = s.current
  valid : ∀ x ∈ m, Valid s x
  served : ∀ client, s.current = some client → client ∈ s.closed →
    (∃ x ∈ m, Closing client x) ∨ CloseFailed client h
  balance : (lost s).card + (m.map (debt s.current)).sum ≤ (tally h).stale + (m.map credit).sum

section steps
variable {h h' : List ClientEvent} {m : Multiset ClientStance} {s s' : ClientStore}
  {x x' : ClientStance}

/-- A task that waits knows what it has seen, whatever the others do. -/
theorem Valid.of_waits (hx : Valid s x) (hwaits : x.waits ≠ none) (hclosed : s.closed ⊆ s'.closed) :
    Valid s' x where
  absent hnone := absurd hnone hwaits
  fresh _ hnone := absurd hnone hwaits
  found _ hnone := absurd hnone hwaits
  done client hdone := hclosed (hx.done client hdone)
  gone := hx.gone
  waits c hc := by
    obtain ⟨client, heq, hstate, hmem⟩ := hx.waits c hc
    exact ⟨client, heq, hstate, hclosed hmem⟩

/-- Tasks that wait neither have a client in hand nor are about to clear the variable. -/
theorem sums_eq_zero (hidle : Idle m) (hvalid : ∀ x ∈ m, Valid s x) (current : Option ℕ) :
    (m.map (debt current)).sum = 0 ∧ (m.map credit).sum = 0 := by
  have hstate : ∀ x ∈ m, ∃ client, x.state = .found client := by
    intro x hx
    obtain ⟨c, hc⟩ := Option.ne_none_iff_exists'.mp (hidle x hx)
    obtain ⟨client, -, hstate, -⟩ := (hvalid x hx).waits c hc
    exact ⟨client, hstate⟩
  constructor
  all_goals
    refine Multiset.sum_eq_zero fun k hk => ?_
    obtain ⟨x, hx, rfl⟩ := Multiset.mem_map.mp hk
    obtain ⟨client, hclient⟩ := hstate x hx
    simp [debt, credit, hclient]

theorem closeFailed_snoc {client : ℕ} (hfailed : CloseFailed client h) (e : ClientEvent) :
    CloseFailed client (h ++ [e]) := by
  obtain ⟨text, htext⟩ := hfailed
  exact ⟨text, List.mem_append_left _ htext⟩

/-- One task takes a step, and the others wait. -/
theorem Kept.step (hkept : Kept h (x ::ₘ m) s) (hidle : Idle m) (hclosed : s.closed ⊆ s'.closed)
    (hcurrent : ∀ client, s'.current = some client → client + 1 = s'.count)
    (hknown : ∀ client ∈ s'.closed, client < s'.count) (hnoted : (tally h').current = s'.current)
    (hx' : Valid s' x')
    (hserved : ∀ client, s'.current = some client → client ∈ s'.closed →
      Closing client x' ∨ (∃ x ∈ m, Closing client x) ∨ CloseFailed client h')
    (hbalance : (lost s).card + debt s.current x ≤ (tally h).stale + credit x →
      (lost s').card + debt s'.current x' ≤ (tally h').stale + credit x') :
    Kept h' (x' ::ₘ m) s' where
  current := hcurrent
  closed := hknown
  noted := hnoted
  valid y hy := by
    rcases Multiset.mem_cons.mp hy with rfl | hy
    · exact hx'
    · exact (hkept.valid y (Multiset.mem_cons_of_mem hy)).of_waits (hidle y hy) hclosed
  served client hclient hmem := by
    rcases hserved client hclient hmem with hclosing | ⟨y, hy, hclosing⟩ | hfailed
    · exact .inl ⟨x', Multiset.mem_cons_self _ _, hclosing⟩
    · exact .inl ⟨y, Multiset.mem_cons_of_mem hy, hclosing⟩
    · exact .inr hfailed
  balance := by
    have hothers : ∀ y ∈ m, Valid s y := fun y hy => hkept.valid y (Multiset.mem_cons_of_mem hy)
    have hold := hkept.balance
    obtain ⟨hdebt, hcredit⟩ := sums_eq_zero hidle hothers s.current
    obtain ⟨hdebt', -⟩ := sums_eq_zero hidle hothers s'.current
    simp only [Multiset.map_cons, Multiset.sum_cons, hdebt, hdebt', hcredit] at hold ⊢
    exact hbalance hold

/-- Who serves a client that is being closed, besides a task that does not. -/
theorem Kept.served_of (hkept : Kept h (x ::ₘ m) s) {client : ℕ}
    (hclient : s.current = some client) (hmem : client ∈ s.closed) (hx : ¬ Closing client x) :
    (∃ y ∈ m, Closing client y) ∨ CloseFailed client h := by
  rcases hkept.served client hclient hmem with ⟨y, hy, hclosing⟩ | hfailed
  · rcases Multiset.mem_cons.mp hy with rfl | hy
    · exact absurd hclosing hx
    · exact .inl ⟨y, hy, hclosing⟩
  · exact .inr hfailed

theorem closing_running {i client : ℕ} {p : Place} :
    Closing client ⟨i, p, none⟩ ↔ p = .done client := by
  simp [Closing]

theorem Kept.start (hkept : Kept h m s) (i : ℕ) : Kept h (⟨i, .outside, none⟩ ::ₘ m) s where
  current := hkept.current
  closed := hkept.closed
  noted := hkept.noted
  valid x hx := by
    rcases Multiset.mem_cons.mp hx with rfl | hx
    · constructor <;> simp
    · exact hkept.valid x hx
  served client hclient hmem := (hkept.served client hclient hmem).imp_left
    fun ⟨x, hx, hclosing⟩ => ⟨x, Multiset.mem_cons_of_mem hx, hclosing⟩
  balance := by simpa [debt, credit] using hkept.balance

theorem Kept.finish {i : ℕ} {p : Place} (hkept : Kept h (⟨i, p, none⟩ ::ₘ m) s)
    (hp : ∀ client, p ≠ .fresh client ∧ p ≠ .done client) : Kept h m s where
  current := hkept.current
  closed := hkept.closed
  noted := hkept.noted
  valid x hx := hkept.valid x (Multiset.mem_cons_of_mem hx)
  served client hclient hmem := hkept.served_of hclient hmem fun hclosing =>
    (hp client).2 (closing_running.mp hclosing)
  balance := by
    have hold := hkept.balance
    have hnone : debt s.current ⟨i, p, none⟩ = 0 ∧ credit ⟨i, p, none⟩ = 0 := by
      cases p with
      | fresh client => exact absurd rfl (hp client).1
      | done client => exact absurd rfl (hp client).2
      | _ => exact ⟨rfl, rfl⟩
    simpa only [Multiset.map_cons, Multiset.sum_cons, hnone, Nat.zero_add] using hold

/-- Reading finds what is there. -/
theorem next_readClient {i : ℕ} {p : Place} (hself : Valid s ⟨i, p, none⟩)
    (hallows : discipline.allows p .readClient) :
    (discipline.next p .readClient s.current = .absent ∧ s.current = none) ∨
      ∃ client, discipline.next p .readClient s.current = .found client ∧
        s.current = some client := by
  cases p with
  | outside =>
    cases hcurrent : s.current with
    | none => exact .inl ⟨rfl, rfl⟩
    | some client => exact .inr ⟨client, rfl, rfl⟩
  | found client =>
    have hcurrent := hself.found client rfl rfl
    exact .inr ⟨client, by rw [hcurrent]; rfl, hcurrent⟩
  | _ => exact hallows.elim

/-- A step that neither makes, closes nor writes a client. -/
theorem Kept.quiet (hkept : Kept h (x ::ₘ m) s) (hidle : Idle m) (htally : tally h' = tally h)
    (hfailed : ∀ client, CloseFailed client h → CloseFailed client h')
    (hx : ∀ client, ¬ Closing client x) (hx' : Valid s x')
    (hbalance : debt s.current x' + credit x ≤ credit x') : Kept h' (x' ::ₘ m) s := by
  refine hkept.step hidle (Finset.Subset.refl _) hkept.current hkept.closed
    (htally ▸ hkept.noted) hx' (fun client hclient hmem => ?_) fun hold => ?_
  · exact .inr ((hkept.served_of hclient hmem (hx client)).imp_right (hfailed client))
  · rw [htally]
    omega

/-- A client that is cleared away was closed, or is lost. -/
theorem lost_writeNone (client : ℕ) (hclient : s.current = some client) :
    lost { s with current := none } ⊆
      if client ∈ s.closed then lost s else insert client (lost s) := by
  intro k hk
  simp only [lost, Finset.mem_filter, Finset.mem_range] at hk
  split
  · next hmem =>
    refine Finset.mem_filter.mpr ⟨Finset.mem_range.mpr hk.1, hk.2.1, ?_⟩
    rintro heq
    rw [hclient] at heq
    cases heq
    exact hk.2.1 hmem
  · by_cases heq : k = client
    · exact Finset.mem_insert.mpr (.inl heq)
    · refine Finset.mem_insert_of_mem (Finset.mem_filter.mpr
        ⟨Finset.mem_range.mpr hk.1, hk.2.1, fun hcurrent => heq ?_⟩)
      exact Option.some.inj (hcurrent.symm.trans hclient)

theorem lost_close (s : ClientStore) (client : ℕ) : lost (s.close client) ⊆ lost s := by
  intro k hk
  simp only [lost, ClientStore.close, Finset.mem_filter, Finset.mem_insert] at hk ⊢
  grind

/-- A task that has the client in hand tells it to close. -/
theorem Kept.close {i client : ℕ} (hkept : Kept h (⟨i, .found client, none⟩ ::ₘ m) s)
    (hidle : Idle m) (hnoted : (tally h').current = (tally h).current)
    (hstale : (tally h').stale = (tally h).stale) (hx' : Valid (s.close client) x')
    (hserved : Closing client x' ∨ CloseFailed client h')
    (hbalance : debt s.current x' ≤ credit x') : Kept h' (x' ::ₘ m) (s.close client) := by
  have hcurrent : s.current = some client :=
    (hkept.valid _ (Multiset.mem_cons_self _ _)).found client rfl rfl
  refine hkept.step hidle (Finset.subset_insert _ _) hkept.current ?_ (hnoted.trans hkept.noted) hx'
    (fun k hk _ => ?_) fun hold => ?_
  · intro k hk
    rcases Finset.mem_insert.mp hk with rfl | hk
    · have hnewest := hkept.current k hcurrent
      exact hnewest ▸ Nat.lt_succ_self k
    · exact hkept.closed k hk
  · obtain rfl : client = k := Option.some.inj (hcurrent.symm.trans hk)
    exact hserved.imp_right Or.inr
  · have hcard := Finset.card_le_card (lost_close s client)
    simp only [debt, credit] at hold
    simp only [ClientStore.close, hstale] at hcard hbalance ⊢
    omega

theorem Kept.answer {i : ℕ} {p : Place} {c : Command} {r : c.Reply}
    (hkept : Kept h (⟨i, p, none⟩ ::ₘ m) s) (hidle : Idle m) (hallows : discipline.allows p c)
    (hanswer : s.Answer c r s') :
    Kept (h ++ [⟨c, r⟩]) (⟨i, discipline.next p c r, none⟩ ::ₘ m) s' := by
  have hself : Valid s ⟨i, p, none⟩ := hkept.valid _ (Multiset.mem_cons_self _ _)
  cases hanswer with
  | readClient =>
    have hx : ∀ client, ¬ Closing client ⟨i, p, none⟩ := by
      rintro client hclosing
      obtain rfl := closing_running.mp hclosing
      exact hallows
    have hcredit : credit ⟨i, p, none⟩ = 0 := by
      cases p <;> first | rfl | exact hallows.elim
    rcases next_readClient hself hallows with ⟨hnext, hcurrent⟩ | ⟨client, hnext, hcurrent⟩
    all_goals
      rw [hnext]
      refine hkept.quiet hidle (by simp [Tally.after]) (fun _ h => closeFailed_snoc h _) hx ?_ ?_
    · constructor <;> simp [hcurrent]
    · rw [hcredit]
      exact Nat.le_refl 0
    · constructor <;> simp [hcurrent]
    · rw [hcredit]
      exact Nat.le_refl 0
  | newClient =>
    cases p <;> try exact hallows.elim
    have hnone := hself.absent rfl rfl
    have hnew : s.count ∉ s.closed := fun hmem => Nat.lt_irrefl _ (hkept.closed _ hmem)
    refine hkept.step hidle (Finset.Subset.refl _) (by simp [hnone])
      (fun client hmem => (hkept.closed client hmem).trans (Nat.lt_succ_self _)) ?_ ?_
      (by simp [hnone]) ?_
    · simp [Tally.after, hkept.noted]
    · constructor <;> simp [discipline, hnone, hnew]
    · intro hold
      have hlost : lost { s with count := s.count + 1 } ⊆ insert s.count (lost s) := by
        intro k hk
        simp only [lost, Finset.mem_filter, Finset.mem_range, Finset.mem_insert] at hk ⊢
        grind
      have hcard := (Finset.card_le_card hlost).trans (Finset.card_insert_le _ _)
      simp only [debt, credit, discipline, tally_snoc, Tally.after] at hold ⊢
      omega
  | newClientError =>
    cases p <;> try exact hallows.elim
    refine hkept.quiet hidle (by simp [Tally.after]) (fun _ h => closeFailed_snoc h _)
      (by simp [closing_running]) ?_ (by simp [debt, credit, discipline])
    constructor <;> simp [discipline]
  | @writeClient value =>
    cases p <;> try exact hallows.elim
    case fresh client =>
      obtain rfl : value = some client := hallows
      obtain ⟨hnone, hcount, hmem⟩ := hself.fresh client rfl rfl
      refine hkept.step hidle (Finset.Subset.refl _) ?_ hkept.closed ?_ ?_ ?_ ?_
      · rintro k heq
        cases heq
        exact hcount
      · simp [Tally.after]
      · constructor <;> simp [discipline]
      · rintro k heq hk
        cases heq
        exact absurd hk hmem
      · intro hold
        -- the client that is given out is not lost any more
        have hlost : lost { s with current := some client } ⊆ (lost s).erase client := by
          intro k hk
          simp only [lost, Finset.mem_filter, Finset.mem_range, Finset.mem_erase] at hk ⊢
          grind
        have hin : client ∈ lost s := by
          simp only [lost, Finset.mem_filter, Finset.mem_range]
          exact ⟨by omega, hmem, by simp [hnone]⟩
        have hcard := Finset.card_le_card hlost
        have herase := Finset.card_erase_add_one hin
        simp only [debt, credit, discipline, tally_snoc, Tally.after] at hold ⊢
        omega
    case done client =>
      obtain rfl : value = none := hallows
      have hmem := hself.done client rfl
      refine hkept.step hidle (Finset.Subset.refl _) (by simp) hkept.closed ?_ ?_ (by simp) ?_
      · simp [Tally.after]
      · constructor <;> simp [discipline]
      · intro hold
        simp only [debt, credit, discipline, tally_snoc, Tally.after] at hold ⊢
        cases hcurrent : s.current with
        | none =>
          have hsame : ({ s with current := none } : ClientStore) = s := by
            cases s
            cases hcurrent
            rfl
          rw [hsame]
          omega
        | some newest =>
          have hsub := lost_writeNone newest hcurrent
          have hnewest := hkept.current newest hcurrent
          split at hsub
          · have hcard := Finset.card_le_card hsub
            omega
          · next hopen =>
            have hcard := (Finset.card_le_card hsub).trans (Finset.card_insert_le _ _)
            have hne : client ≠ newest := fun heq => hopen (heq ▸ hmem)
            have holder := hkept.closed client hmem
            have houtdated : Outdated client s.current = true := by
              rw [hcurrent]
              exact decide_eq_true (by omega : client < newest)
            rw [houtdated, Bool.toNat_true] at hold
            omega
  | @aclose client =>
    cases p <;> try exact hallows.elim
    obtain rfl := hallows
    have hcurrent := hself.found client rfl rfl
    have hnewest : Outdated client s.current = false := by
      rw [hcurrent]
      exact decide_eq_false (Nat.lt_irrefl _)
    refine hkept.close hidle ?_ ?_ ?_ (.inl (.inr rfl)) ?_
    · simp [Tally.after]
    · simp [Tally.after, hkept.noted, hnewest]
    · constructor <;> simp [discipline, ClientStore.close]
    · simp [debt, discipline, hnewest]
  | acloseError =>
    cases p <;> try exact hallows.elim
    obtain rfl := hallows
    refine hkept.close hidle (by simp [Tally.after]) (by simp [Tally.after]) ?_
      (.inr ⟨_, List.mem_append_right _ (List.mem_singleton.mpr rfl)⟩) (by simp [debt, discipline])
    constructor <;> simp [discipline]

theorem Kept.suspend {i : ℕ} {p : Place} {c : Command} (hkept : Kept h (⟨i, p, none⟩ ::ₘ m) s)
    (hidle : Idle m) (hallows : discipline.allows p c) (hsuspend : s.Suspend c s') :
    Kept h (⟨i, p, some c⟩ ::ₘ m) s' := by
  cases hsuspend
  cases p <;> try exact hallows.elim
  obtain rfl := hallows
  refine hkept.close hidle rfl rfl ?_ (.inl (.inl rfl)) (by simp [debt])
  constructor <;> simp [ClientStore.close]

theorem Kept.resume {i : ℕ} {p : Place} {c : Command} {r : c.Reply}
    (hkept : Kept h (⟨i, p, some c⟩ ::ₘ m) s) (hidle : Idle m) (hallows : discipline.allows p c)
    (hresume : s.Resume c r s') :
    Kept (h ++ [⟨c, r⟩]) (⟨i, discipline.next p c r, none⟩ ::ₘ m) s' := by
  have hself : Valid s ⟨i, p, some c⟩ := hkept.valid _ (Multiset.mem_cons_self _ _)
  cases hresume with
  | @aclose client =>
    obtain ⟨_, heq, rfl, hmem⟩ := hself.waits _ rfl
    cases heq
    refine hkept.step hidle (Finset.Subset.refl _) hkept.current hkept.closed ?_ ?_
      (fun k hk hclosed => ?_) fun hold => ?_
    · rw [← hkept.noted]
      simp only [tally_snoc, Tally.after]
    · constructor <;> simp [discipline, hmem]
    · by_cases heq : k = client
      · exact .inl (.inr (congrArg Place.done heq.symm))
      · have hne : ¬ Closing k ⟨i, .found client, some (.aclose client)⟩ := by
          simp [Closing, Ne.symm heq]
        exact .inr ((hkept.served_of hk hclosed hne).imp_right fun hf => closeFailed_snoc hf _)
    · -- it is owed exactly where the close came too late
      simp only [debt, credit, discipline, tally_snoc, Tally.after, hkept.noted] at hold ⊢
      omega
  | @acloseError client text =>
    obtain ⟨_, heq, rfl, hmem⟩ := hself.waits _ rfl
    cases heq
    refine hkept.step hidle (Finset.Subset.refl _) hkept.current hkept.closed ?_ ?_
      (fun k hk hclosed => ?_) fun hold => ?_
    · simpa [Tally.after] using hkept.noted
    · constructor <;> simp [discipline]
    · by_cases heq : k = client
      · subst heq
        exact .inr (.inr ⟨text, List.mem_append_right _ (List.mem_singleton.mpr rfl)⟩)
      · have hne : ¬ Closing k ⟨i, .found client, some (.aclose client)⟩ := by
          simp [Closing, Ne.symm heq]
        exact .inr ((hkept.served_of hk hclosed hne).imp_right fun hf => closeFailed_snoc hf _)
    · simpa [debt, credit, discipline, Tally.after] using hold

end steps

theorem EndsWith.settled {call : Call} {r : Except Failure call.Value} {p : Place}
    (hends : EndsWith call r p) (client : ℕ) : p ≠ .fresh client ∧ p ≠ .done client := by
  unfold EndsWith at hends
  split at hends
  · simp [hends]
  · simp [hends]
  · simp [hends]
  · cases p <;> first | exact hends.elim | simp

theorem maintains : Maintains clientKernel discipline (fun _ => .outside) EndsWith Kept where
  start i _ _ hkept := hkept.start i
  answer hidle hkept hallows hanswer := hkept.answer hidle hallows hanswer
  suspend hidle hkept hallows hsuspend := hkept.suspend hidle hallows hsuspend
  resume hidle hkept hallows hresume := hkept.resume hidle hallows hresume
  finish _ hkept hends := hkept.finish hends.settled

/-! ## Every run -/

theorem kept_fresh : Kept [] 0 {} where
  current := by simp
  closed := by simp
  noted := rfl
  valid := by simp
  served := by simp
  balance := by simp [lost]

section runs
variable {tr : List (Transition ClientLoop ClientLabel)} {l l' : ClientLoop}

theorem kept (hrun : Run ClientStep (Loop.fresh {}) tr l) : Loop.Keeps discipline EndsWith Kept l :=
  Loop.maintained body_obeys maintains kept_fresh hrun

/-- In every run, with any number of calls in any order: a call of `get_client` that ends returns
the current client, unless making one raised. The client takes requests, unless a call of
`close_client` is still waiting for it, or was left with an exception when it closed it. -/
theorem client_usable (hrun : Run ClientStep (Loop.fresh {}) tr l) {i : ℕ}
    {r : Except Failure (Option ℕ)} (hstep : ClientStep l (.finish i .getClient r) l') :
    (∃ client, r = .ok (some client) ∧ l.store.current = some client ∧
      (client ∈ l.store.closed →
        (∃ task ∈ l.waiting, task.rest.command = some (.aclose client)) ∨
          CloseFailed client l.history)) ∨
    ∃ text, r = .error (.raised text) := by
  obtain ⟨running, waiting, hmatch, hkept⟩ := kept hrun
  cases hstep with
  | finish hrunning hresult =>
    obtain ⟨p, rfl, hobeys⟩ := hmatch.running_eq hrunning
    have hself : Valid l.store ⟨i, p, none⟩ := hkept.valid _ (by simp)
    have hends : EndsWith .getClient r p := hobeys.result hresult
    match r, hends with
    | .ok (some client), hends =>
      obtain rfl : p = .found client := hends
      have hcurrent := hself.found client rfl rfl
      refine .inl ⟨client, rfl, hcurrent, fun hclosed => ?_⟩
      refine (hkept.served client hcurrent hclosed).imp_left fun ⟨x, hx, hclosing⟩ => ?_
      rcases Multiset.mem_add.mp hx with hx | hx
      · obtain rfl := List.mem_singleton.mp (Multiset.mem_coe.mp hx)
        cases closing_running.mp hclosing
      · obtain ⟨task, htask, -, hwaits, hne⟩ := hmatch.exists_task (Multiset.mem_coe.mp hx)
        obtain ⟨c, hc⟩ := Option.ne_none_iff_exists'.mp hne
        obtain ⟨k, rfl, hstate, -⟩ := (hkept.valid x (Multiset.mem_add.mpr (.inr hx))).waits c hc
        refine ⟨task, htask, ?_⟩
        rcases hclosing with hclosing | hdone
        · rw [← hwaits, hclosing]
        · cases hstate.symm.trans hdone
    | .ok none, hends => exact absurd hends hself.gone
    | .error .attributeError, hends => exact absurd hends hself.gone
    | .error (.raised text), _ => exact .inr ⟨text, rfl⟩

/-- However the calls overlap, the clients that are forgotten without having been told to close
are no more than the closes that came to their end when a newer client was current. -/
theorem card_lost_le (hrun : Run ClientStep (Loop.fresh {}) tr l) (hidle : l.running = none) :
    (lost l.store).card ≤ (tally l.history).stale := by
  obtain ⟨running, waiting, hmatch, hkept⟩ := kept hrun
  obtain rfl := hmatch.running_nil hidle
  have hkept' : Kept l.history (waiting : Multiset ClientStance) l.store := by simpa using hkept
  obtain ⟨hdebt, hcredit⟩ := sums_eq_zero hmatch.idle hkept'.valid l.store.current
  have hbalance := hkept'.balance
  omega

end runs

/-! ## Two overlapping closes -/

/-- The first `get_client` of a process, up to its end. -/
theorem exists_run_getClient : ∃ tr l, Run ClientStep (Loop.fresh {}) tr l ∧
    l.running = some ⟨0, .getClient, .ret (some 0)⟩ := by
  have hstart : Run ClientStep (Loop.fresh {}) _ _ := .single (.start (b := .getClient) rfl)
  have hmade := ((hstart.snoc (.answer rfl .readClient)).snoc (.answer rfl .newClient)).snoc
    (.answer rfl .writeClient)
  exact ⟨_, _, hmade.snoc (.answer rfl .readClient), rfl⟩

theorem client_usable_first : ∃ tr l l', Run ClientStep (Loop.fresh {}) tr l ∧
    ClientStep l (.finish 0 .getClient (.ok (some 0))) l' ∧ l.store.current = some 0 := by
  obtain ⟨tr, l, hrun, hrunning⟩ := exists_run_getClient
  have hstep : ClientStep l (.finish 0 .getClient (.ok (some 0))) _ := .finish hrunning rfl
  refine ⟨tr, l, _, hrun, hstep, ?_⟩
  rcases client_usable hrun hstep with ⟨client, heq, hcurrent, -⟩ | ⟨text, heq⟩
  · cases heq
    exact hcurrent
  · cases heq

/-- Two tasks close the first client; a new one is made before the second of them has come to its
end, and is lost. -/
theorem exists_run_lost : ∃ tr l, Run ClientStep (Loop.fresh {}) tr l ∧ l.running = none ∧
    (lost l.store).card = 1 ∧ (tally l.history).stale = 1 := by
  have hstart : Run ClientStep (Loop.fresh {}) _ _ := .single (.start (b := .getClient) rfl)
  have hfirst := ((((hstart.snoc (.answer rfl .readClient)).snoc (.answer rfl .newClient)).snoc
    (.answer rfl .writeClient)).snoc (.answer rfl .readClient)).snoc (.finish rfl rfl)
  have hread := (hfirst.snoc (.start (b := .closeClient) rfl)).snoc (.answer rfl .readClient)
  have hclose := (hread.snoc (.answer rfl .readClient)).snoc (.suspend rfl .aclose)
  have hclose' := (((hclose.snoc (.start (b := .closeClient) rfl)).snoc
    (.answer rfl .readClient)).snoc (.answer rfl .readClient)).snoc (.suspend rfl .aclose)
  have hclosed := ((hclose'.snoc (.resume rfl (rfl : _ = [] ++ _ :: _) .aclose)).snoc
    (.answer rfl .writeClient)).snoc (.finish rfl rfl)
  have hsecond := (((((hclosed.snoc (.start (b := .getClient) rfl)).snoc
    (.answer rfl .readClient)).snoc (.answer rfl .newClient)).snoc
    (.answer rfl .writeClient)).snoc (.answer rfl .readClient)).snoc (.finish rfl rfl)
  exact ⟨_, _, ((hsecond.snoc (.resume rfl (rfl : _ = [] ++ _ :: _) .aclose)).snoc
    (.answer rfl .writeClient)).snoc (.finish rfl rfl), rfl, rfl, rfl⟩

theorem card_lost_le_overlap : ∃ tr l, Run ClientStep (Loop.fresh {}) tr l ∧
    (lost l.store).card = 1 ∧ (lost l.store).card ≤ (tally l.history).stale := by
  obtain ⟨tr, l, hrun, hidle, hlost, -⟩ := exists_run_lost
  exact ⟨tr, l, hrun, hlost, card_lost_le hrun hidle⟩

end BaseWebService.Connector.HttpClientManager
