import Mathlib.Data.Fintype.Card
import Mathlib.Logic.Relation
import BaseWebService.Logging.Serialize

/-!
# Object graphs

`redact_sensitive_data` and `serialize_for_log` on a graph of objects, in which an object may be
shared and may be inside itself. A graph is unfolded from its root to a value; where an object is
inside itself, the unfolding has its marker. The walks of the graph do what the walks of the
unfolding do.
-/

namespace BaseWebService.Logging

open Library

/-- What a container holds. -/
inductive Ref (n : ℕ) where
  | scalar (x : Scalar)
  | str (text : String)
  | object (id : Fin n)

inductive Node (n : ℕ) where
  | other (o : Opaque)
  | mapping (entries : List (Key × Ref n))
  | seq (kind : SeqKind) (items : List (Ref n))

/-- `n` objects, known by their identities, and what each of them is. -/
structure Graph (n : ℕ) where
  object : Fin n → Node n

variable {n : ℕ}

/-- `type(value).__name__`. -/
def Node.typeName : Node n → String
  | .other o => o.typeName
  | .mapping _ => "dict"
  | .seq kind _ => kind.typeName

def Node.refs : Node n → List (Ref n)
  | .other _ => []
  | .mapping entries => entries.map Prod.snd
  | .seq _ items => items

/-! ## Comprehensions over a state -/

section comprehension
variable {α β σ : Type}

/-- The values of `[f(x) for x in xs]`, where each call leaves a state to the next. -/
def comprehend (f : α → σ → β × σ) : List α → σ → List β × σ
  | [], s => ([], s)
  | x :: xs, s =>
    let r := f x s
    let rs := comprehend f xs r.2
    (r.1 :: rs.1, rs.2)

/-- The markers that the calls put. -/
def collect (f : α → σ → β × σ) (marks : α → σ → List Mark) : List α → σ → List Mark
  | [], _ => []
  | x :: xs, s => marks x s ++ collect f marks xs (f x s).2

variable {α' : Type} {f : α → σ → β × σ} {f' : α' → σ → β × σ} {g : α → α'} {I : σ → Prop}

/-- Two comprehensions are the same if their parts are, from every state they can be in. -/
theorem comprehend_map (hf : ∀ x s, I s → f x s = f' (g x) s) (hI : ∀ x s, I s → I (f' x s).2)
    (xs : List α) {s : σ} (hs : I s) : comprehend f xs s = comprehend f' (xs.map g) s := by
  induction xs generalizing s with
  | nil => rfl
  | cons x xs ih => rw [comprehend, List.map_cons, comprehend, hf x s hs, ih (hI _ s hs)]

theorem collect_map {marks : α → σ → List Mark} {marks' : α' → σ → List Mark} {p : Mark → Bool}
    (hf : ∀ x s, I s → f x s = f' (g x) s) (hI : ∀ x s, I s → I (f' x s).2)
    (hmarks : ∀ x s, I s → (marks x s).filter p = marks' (g x) s) (xs : List α) {s : σ}
    (hs : I s) : (collect f marks xs s).filter p = collect f' marks' (xs.map g) s := by
  induction xs generalizing s with
  | nil => rfl
  | cons x xs ih =>
    rw [collect, List.map_cons, collect, List.filter_append, hmarks x s hs, hf x s hs,
      ih (hI _ s hs)]

end comprehension

/-! ## The code -/

namespace Runtime

variable (rt : Runtime) {ν : Type}

/-- One entry of the dictionary comprehension. -/
def redactEntry (walk : ν → Memory → Tree × Memory) (e : Key × ν) (m : Memory) :
    (Key × Tree) × Memory :=
  let r := if rt.isSensitiveKey e.1 then (.str redacted, m) else walk e.2 m
  ((.str e.1.text, r.1), r.2)

def marksEntry (marks : ν → Memory → List Mark) (e : Key × ν) (m : Memory) : List Mark :=
  if rt.isSensitiveKey e.1 then [] else marks e.2 m

end Runtime

/-- One entry of the dictionary comprehension of `serialize_for_log`. -/
def serializeEntry {ν : Type} (walk : ν → Serializing → Tree × Serializing) (e : Key × ν)
    (s : Serializing) : (Key × Tree) × Serializing :=
  let r := walk e.2 s
  ((.str e.1.text, r.1), r.2)

namespace Graph

variable (g : Graph n)

section redact
variable (rt : Runtime) (onText : String → Memory → Tree × Memory)
  (onMarks : List ℕ → String → Memory → List Mark)

/-- `redact_sensitive_data(value, _visited)`. No object is walked inside itself, so the number of
objects bounds how deep the calls are nested; see `redactRef_of_le`. -/
def redactRef : ℕ → Ref n → Memory → Tree × Memory
  | 0, _, m => (.scalar .none, m)
  | _ + 1, .scalar x, m => (.scalar x, m)
  | _ + 1, .str text, m => onText text m
  | depth + 1, .object id, m =>
    if id.val ∈ m.visited then (recursive (g.object id).typeName, m)
    else
      match g.object id with
      | .other o => (.other () o, m.visit id)
      | .mapping entries =>
        let r := comprehend (rt.redactEntry (redactRef depth)) entries (m.visit id)
        (.mapping () (pyDict r.1), r.2)
      | .seq _ items =>
        let r := comprehend (redactRef depth) (items.take 100) (m.visit id)
        (.seq .list () r.1, r.2)

/-- The markers of `redactRef`. -/
def marksRef : ℕ → List ℕ → Ref n → Memory → List Mark
  | 0, _, _, _ => []
  | _ + 1, _, .scalar _, _ => []
  | _ + 1, path, .str text, m => onMarks path text m
  | depth + 1, path, .object id, m =>
    if id.val ∈ m.visited then [⟨id, path⟩]
    else
      match g.object id with
      | .other _ => []
      | .mapping entries =>
        collect (rt.redactEntry (g.redactRef rt onText depth))
          (rt.marksEntry (marksRef depth (id :: path))) entries (m.visit id)
      | .seq _ items =>
        collect (g.redactRef rt onText depth) (marksRef depth (id :: path)) (items.take 100)
          (m.visit id)

end redact

section serialize
variable (env : Environment) (alloc : ℕ → Allocator)

/-- `serialize_for_log(value, _visited)`. -/
def serializeRef : ℕ → Ref n → Serializing → Tree × Serializing
  | 0, _, s => (.scalar .none, s)
  | _ + 1, .scalar x, s => (.scalar x, s)
  | _ + 1, .str text, s => (.str text, s)
  | depth + 1, .object id, s =>
    match g.object id with
    | .other o => Environment.serializeOpaque id o s
    | .mapping entries =>
      if id.val ∈ s.visited then (recursive "dict", s)
      else
        let r := comprehend (serializeEntry (serializeRef depth)) entries (s.visit id)
        env.logContainer alloc (.mapping () (pyDict r.1)) r.2
    | .seq kind items =>
      if id.val ∈ s.visited then (recursive kind.typeName, s)
      else
        let r := comprehend (serializeRef depth) items (s.visit id)
        env.logContainer alloc (.seq .list () r.1) r.2

/-- The markers of `serializeRef`, those of its calls of the redactor included. -/
def serializeMarksRef : ℕ → List ℕ → Ref n → Serializing → List Mark
  | 0, _, _, _ => []
  | _ + 1, _, .scalar _, _ => []
  | _ + 1, _, .str _, _ => []
  | depth + 1, path, .object id, s =>
    match g.object id with
    | .other o => Environment.marksOpaque path id o s
    | .mapping entries =>
      if id.val ∈ s.visited then [⟨id, path⟩]
      else
        let r := comprehend (serializeEntry (g.serializeRef env alloc depth)) entries (s.visit id)
        collect (serializeEntry (g.serializeRef env alloc depth))
            (fun e => serializeMarksRef depth (id :: path) e.2) entries (s.visit id) ++
          env.marksNew (alloc r.2.calls) (.mapping () (pyDict r.1))
    | .seq _ items =>
      if id.val ∈ s.visited then [⟨id, path⟩]
      else
        let r := comprehend (g.serializeRef env alloc depth) items (s.visit id)
        collect (g.serializeRef env alloc depth) (serializeMarksRef depth (id :: path)) items
            (s.visit id) ++
          env.marksNew (alloc r.2.calls) (.seq .list () r.1)

end serialize

section calls
variable (root : Ref n)

/-- `redact_sensitive_data(root)`. All objects of the graph are in use. -/
def redact (rt : Runtime) (a : Allocator) : Tree :=
  (g.redactRef rt (fun text => rt.redactText a text.length (List.range n) text) (n + 1) root
    .start).1

def redactMarks (rt : Runtime) (a : Allocator) : List Mark :=
  g.marksRef rt (fun text => rt.redactText a text.length (List.range n) text)
    (fun path text => rt.marksText a text.length (List.range n) path text) (n + 1) [] root .start

/-- `serialize_for_log(root)`. -/
def serialize (env : Environment) (alloc : ℕ → Allocator) : Tree :=
  (g.serializeRef env alloc (n + 1) root .start).1

def serializeMarks (env : Environment) (alloc : ℕ → Allocator) : List Mark :=
  g.serializeMarksRef env alloc (n + 1) [] root .start

end calls

/-! ## Unfolding -/

/-- The value that a reference inside the objects of `path` stands for, where an object inside
itself is its marker. -/
def unfolding : ℕ → List ℕ → Ref n → PyValue ℕ
  | 0, _, _ => .scalar .none
  | _ + 1, _, .scalar x => .scalar x
  | _ + 1, _, .str text => .str text
  | depth + 1, path, .object id =>
    if id.val ∈ path then .str ("<recursive " ++ (g.object id).typeName ++ ">")
    else
      match g.object id with
      | .other o => .other id o
      | .mapping entries =>
        .mapping id (entries.map fun e => (e.1, unfolding depth (id :: path) e.2))
      | .seq kind items => .seq kind id (items.map (unfolding depth (id :: path)))

/-- The tree that a reference stands for in a graph in which no object is inside itself. -/
def tree : ℕ → Ref n → PyValue ℕ
  | 0, _ => .scalar .none
  | _ + 1, .scalar x => .scalar x
  | _ + 1, .str text => .str text
  | depth + 1, .object id =>
    match g.object id with
    | .other o => .other id o
    | .mapping entries => .mapping id (entries.map fun e => (e.1, tree depth e.2))
    | .seq kind items => .seq kind id (items.map (tree depth))

/-- The object `x` holds the object `y`. -/
def Holds (x y : Fin n) : Prop := .object y ∈ (g.object x).refs

/-- No object that is reached from the root is inside itself. -/
def Acyclic (root : Ref n) : Prop :=
  ∀ r x, root = .object r → Relation.ReflTransGen g.Holds r x → ¬ Relation.TransGen g.Holds x x

end Graph

/-! ## Walks of values as comprehensions -/

section equations
variable {rt : Runtime} {onText : String → Memory → Tree × Memory}
  {onMarks : List ℕ → String → Memory → List Mark} {env : Environment} {alloc : ℕ → Allocator}

theorem redactEntries_eq (entries : List (Key × PyValue ℕ)) (m : Memory) :
    rt.redactEntries onText entries m =
      comprehend (rt.redactEntry (rt.redactWith onText)) entries m := by
  induction entries generalizing m with
  | nil => rfl
  | cons e entries ih => rw [Runtime.redactEntries, ih, comprehend, Runtime.redactEntry]

theorem redactItems_eq (limit : ℕ) (items : List (PyValue ℕ)) (m : Memory) :
    rt.redactItems onText limit items m =
      comprehend (rt.redactWith onText) (items.take limit) m := by
  induction items generalizing limit m with
  | nil => rw [List.take_nil, Runtime.redactItems, comprehend]
  | cons value items ih =>
    cases limit with
    | zero => rfl
    | succ limit => rw [Runtime.redactItems, ih, List.take_succ_cons, comprehend]

theorem marksEntries_eq (path : List ℕ) (entries : List (Key × PyValue ℕ)) (m : Memory) :
    rt.marksEntries onText onMarks path entries m =
      collect (rt.redactEntry (rt.redactWith onText))
        (rt.marksEntry (rt.marksWith onText onMarks path)) entries m := by
  induction entries generalizing m with
  | nil => rfl
  | cons e entries ih =>
    rw [Runtime.marksEntries, collect, Runtime.marksEntry, Runtime.redactEntry, ← ih]
    split <;> rfl

theorem marksItems_eq (path : List ℕ) (limit : ℕ) (items : List (PyValue ℕ)) (m : Memory) :
    rt.marksItems onText onMarks path limit items m =
      collect (rt.redactWith onText) (rt.marksWith onText onMarks path) (items.take limit) m := by
  induction items generalizing limit m with
  | nil => rw [List.take_nil, Runtime.marksItems, collect]
  | cons value items ih =>
    cases limit with
    | zero => rfl
    | succ limit => rw [Runtime.marksItems, ih, List.take_succ_cons, collect]

theorem serializeEntries_eq (entries : List (Key × PyValue ℕ)) (s : Serializing) :
    env.serializeEntries alloc entries s =
      comprehend (serializeEntry (env.serializeWith alloc)) entries s := by
  induction entries generalizing s with
  | nil => rfl
  | cons e entries ih => rw [Environment.serializeEntries, ih, comprehend, serializeEntry]

theorem serializeItems_eq (items : List (PyValue ℕ)) (s : Serializing) :
    env.serializeItems alloc items s = comprehend (env.serializeWith alloc) items s := by
  induction items generalizing s with
  | nil => rfl
  | cons value items ih => rw [Environment.serializeItems, ih, comprehend]

theorem serializeMarksEntries_eq (path : List ℕ) (entries : List (Key × PyValue ℕ))
    (s : Serializing) : env.serializeMarksEntries alloc path entries s =
      collect (serializeEntry (env.serializeWith alloc))
        (fun e => env.serializeMarks alloc path e.2) entries s := by
  induction entries generalizing s with
  | nil => rfl
  | cons e entries ih => rw [Environment.serializeMarksEntries, ih, collect, serializeEntry]

theorem serializeMarksItems_eq (path : List ℕ) (items : List (PyValue ℕ)) (s : Serializing) :
    env.serializeMarksItems alloc path items s =
      collect (env.serializeWith alloc) (env.serializeMarks alloc path) items s := by
  induction items generalizing s with
  | nil => rfl
  | cons value items ih => rw [Environment.serializeMarksItems, ih, collect]

theorem redactText_marker (a : Allocator) (depth : ℕ) (live : List ℕ) (typeName : String)
    (m : Memory) : rt.redactText a depth live ("<recursive " ++ typeName ++ ">") m =
      (recursive typeName, m) := by
  cases depth with
  | zero => rfl
  | succ depth =>
    rw [Runtime.redactText, Runtime.parseText_marker]
    rfl

theorem marksText_marker (a : Allocator) (depth : ℕ) (live path : List ℕ) (typeName : String)
    (m : Memory) : rt.marksText a depth live path ("<recursive " ++ typeName ++ ">") m = [] := by
  cases depth with
  | zero => rfl
  | succ depth => rw [Runtime.marksText, Runtime.parseText_marker]

end equations

namespace Graph

variable {g : Graph n} {rt : Runtime} {onText : String → Memory → Tree × Memory}
  {onMarks : List ℕ → String → Memory → List Mark} {path : List ℕ}

/-! ## The walks of the unfolding -/

theorem redactEntry_mono (hmono : ∀ s m, m.visited ⊆ (onText s m).2.visited)
    (e : Key × PyValue ℕ) (m : Memory) :
    m.visited ⊆ (rt.redactEntry (rt.redactWith onText) e m).2.visited := by
  unfold Runtime.redactEntry
  split
  · exact List.Subset.refl _
  · exact redactWith_mono hmono e.2 m

section redact
variable (hmono : ∀ s m, m.visited ⊆ (onText s m).2.visited)
  (hmarker : ∀ typeName m,
    onText ("<recursive " ++ typeName ++ ">") m = (recursive typeName, m))
include hmono hmarker

/-- The walk of a graph is the walk of its unfolding, as all objects around are visited. -/
theorem redactRef_eq (depth : ℕ) (r : Ref n) {m : Memory} (hpath : path ⊆ m.visited) :
    g.redactRef rt onText depth r m = rt.redactWith onText (g.unfolding depth path r) m := by
  induction depth generalizing path r m with
  | zero => rfl
  | succ depth ih =>
    cases r with
    | scalar | str => rfl
    | object id =>
      by_cases hid : id.val ∈ path
      · rw [redactRef, if_pos (hpath hid), unfolding, if_pos hid, Runtime.redactWith, hmarker]
      rw [redactRef, unfolding, if_neg hid]
      by_cases hmet : id.val ∈ m.visited
      · rw [if_pos hmet]
        cases hnode : g.object id <;> simp [Runtime.redactWith, hmet, Node.typeName]
      rw [if_neg hmet]
      have hinside : ↑id :: path ⊆ (m.visit id).visited :=
        List.cons_subset_cons _ hpath
      cases hnode : g.object id with
      | other o => rw [Runtime.redactWith_other o hmet]
      | mapping entries =>
        have hentry : ∀ (e : Key × Ref n) (m : Memory), ↑id :: path ⊆ m.visited →
            rt.redactEntry (g.redactRef rt onText depth) e m = rt.redactEntry
              (rt.redactWith onText) (e.1, g.unfolding depth (id :: path) e.2) m := by
          intro e m hm
          simp only [Runtime.redactEntry, ih e.2 hm]
        have hkept : ∀ (e : Key × PyValue ℕ) (m : Memory), ↑id :: path ⊆ m.visited →
            ↑id :: path ⊆ (rt.redactEntry (rt.redactWith onText) e m).2.visited :=
          fun e m hm => List.Subset.trans hm (redactEntry_mono hmono e m)
        rw [Runtime.redactWith_mapping _ hmet, redactEntries_eq]
        simp only [comprehend_map hentry hkept entries hinside]
      | seq kind items =>
        have hkept : ∀ (value : PyValue ℕ) (m : Memory), ↑id :: path ⊆ m.visited →
            ↑id :: path ⊆ (rt.redactWith onText value m).2.visited :=
          fun value m hm => List.Subset.trans hm (redactWith_mono hmono value m)
        rw [Runtime.redactWith_seq _ _ hmet, redactItems_eq]
        simp only [comprehend_map (fun r m hm => ih r hm) hkept (items.take 100) hinside,
          List.map_take]

/-- Of the markers in a graph those that are not for an object inside itself are the markers in its
unfolding. -/
theorem filter_marksRef
    (honMarks : ∀ path s m, (∀ id ∈ path, id < n) → ∀ k ∈ onMarks path s m, ¬ k.Recursive)
    (hnone : ∀ path typeName m, onMarks path ("<recursive " ++ typeName ++ ">") m = [])
    (depth : ℕ) (r : Ref n) {m : Memory} (hpath : path ⊆ m.visited) (hlt : ∀ id ∈ path, id < n) :
    (g.marksRef rt onText onMarks depth path r m).filter (fun k => ¬ k.Recursive) =
      rt.marksWith onText onMarks path (g.unfolding depth path r) m := by
  induction depth generalizing path r m with
  | zero => rfl
  | succ depth ih =>
    cases r with
    | scalar => rfl
    | str text =>
      have hstray := honMarks path text m hlt
      exact List.filter_eq_self.mpr fun k hk => by simpa using hstray k hk
    | object id =>
      by_cases hid : id.val ∈ path
      · rw [marksRef, if_pos (hpath hid), unfolding, if_pos hid, Runtime.marksWith, hnone]
        simp [Mark.Recursive, hid]
      rw [marksRef, unfolding, if_neg hid]
      by_cases hmet : id.val ∈ m.visited
      · have hkept : [(⟨id, path⟩ : Mark)].filter (fun k => ¬ k.Recursive) = [⟨id, path⟩] := by
          simp [Mark.Recursive, hid]
        rw [if_pos hmet, hkept]
        cases hnode : g.object id <;> simp [Runtime.marksWith, hmet]
      rw [if_neg hmet]
      have hinside : ↑id :: path ⊆ (m.visit id).visited := List.cons_subset_cons _ hpath
      have hlt' : ∀ i ∈ ↑id :: path, i < n := List.forall_mem_cons.mpr ⟨id.isLt, hlt⟩
      cases hnode : g.object id with
      | other o => simp [Runtime.marksWith, hmet]
      | mapping entries =>
        have hentry : ∀ (e : Key × Ref n) (m : Memory), ↑id :: path ⊆ m.visited →
            rt.redactEntry (g.redactRef rt onText depth) e m = rt.redactEntry
              (rt.redactWith onText) (e.1, g.unfolding depth (id :: path) e.2) m := by
          intro e m hm
          simp only [Runtime.redactEntry, redactRef_eq hmono hmarker depth e.2 hm]
        have hkept : ∀ (e : Key × PyValue ℕ) (m : Memory), ↑id :: path ⊆ m.visited →
            ↑id :: path ⊆ (rt.redactEntry (rt.redactWith onText) e m).2.visited :=
          fun e m hm => List.Subset.trans hm (redactEntry_mono hmono e m)
        have hparts : ∀ (e : Key × Ref n) (m : Memory), ↑id :: path ⊆ m.visited →
            (rt.marksEntry (g.marksRef rt onText onMarks depth (id :: path)) e m).filter
                (fun k => ¬ k.Recursive) =
              rt.marksEntry (rt.marksWith onText onMarks (id :: path))
                (e.1, g.unfolding depth (id :: path) e.2) m := by
          intro e m hm
          unfold Runtime.marksEntry
          split
          · rfl
          · exact ih e.2 hm hlt'
        simp only [Runtime.marksWith, if_neg hmet, marksEntries_eq]
        exact collect_map hentry hkept hparts entries hinside
      | seq kind items =>
        have hkept : ∀ (value : PyValue ℕ) (m : Memory), ↑id :: path ⊆ m.visited →
            ↑id :: path ⊆ (rt.redactWith onText value m).2.visited :=
          fun value m hm => List.Subset.trans hm (redactWith_mono hmono value m)
        simp only [Runtime.marksWith, if_neg hmet, marksItems_eq, ← List.map_take]
        exact collect_map (fun r m hm => redactRef_eq hmono hmarker depth r hm) hkept
          (fun r m hm => ih r hm hlt') (items.take 100) hinside

end redact

section serialize
variable {env : Environment} {alloc : ℕ → Allocator}
  (hcontainers : ∀ x : Fin n, ↑x ∈ path → ∀ o, g.object x ≠ .other o)

theorem containers_inside {id : Fin n} (hid : ∀ o, g.object id ≠ .other o)
    (hcontainers : ∀ x : Fin n, ↑x ∈ path → ∀ o, g.object x ≠ .other o) :
    ∀ x : Fin n, ↑x ∈ ↑id :: path → ∀ o, g.object x ≠ .other o := by
  intro x hx
  rcases List.mem_cons.mp hx with hx | hx
  · rw [Fin.ext hx]
    exact hid
  · exact hcontainers x hx

include hcontainers

theorem serializeRef_eq (depth : ℕ) (r : Ref n) {s : Serializing} (hpath : path ⊆ s.visited) :
    g.serializeRef env alloc depth r s = env.serializeWith alloc (g.unfolding depth path r) s := by
  induction depth generalizing path r s with
  | zero => rfl
  | succ depth ih =>
    cases r with
    | scalar | str => rfl
    | object id =>
      by_cases hid : id.val ∈ path
      · have hmet := hpath hid
        rw [serializeRef, unfolding, if_pos hid]
        cases hnode : g.object id with
        | other o => exact absurd hnode (hcontainers id hid o)
        | mapping | seq => exact if_pos hmet
      have hinside : ↑id :: path ⊆ (s.visit id).visited := List.cons_subset_cons _ hpath
      have hkept : ∀ (v : PyValue ℕ) (s : Serializing), ↑id :: path ⊆ s.visited →
          ↑id :: path ⊆ (env.serializeWith alloc v s).2.visited :=
        fun v s hs => List.Subset.trans hs (Environment.serializeWith_mono v s)
      rw [serializeRef, unfolding, if_neg hid]
      cases hnode : g.object id with
      | other o => rfl
      | mapping entries =>
        have hcontainer : ∀ o, g.object id ≠ .other o := by simp [hnode]
        have hcontainers' := containers_inside hcontainer hcontainers
        have hentry : ∀ (e : Key × Ref n) (s : Serializing), ↑id :: path ⊆ s.visited →
            serializeEntry (g.serializeRef env alloc depth) e s =
              serializeEntry (env.serializeWith alloc)
                (e.1, g.unfolding depth (id :: path) e.2) s := by
          intro e s hs
          simp only [serializeEntry, ih hcontainers' e.2 hs]
        simp only [Environment.serializeWith, serializeEntries_eq,
          comprehend_map hentry (fun e s hs => hkept e.2 s hs) entries hinside]
      | seq kind items =>
        have hcontainer : ∀ o, g.object id ≠ .other o := by simp [hnode]
        have hcontainers' := containers_inside hcontainer hcontainers
        simp only [Environment.serializeWith, serializeItems_eq,
          comprehend_map (fun r s hs => ih hcontainers' r hs) hkept items hinside]

theorem filter_serializeMarksRef (depth : ℕ) (r : Ref n) {s : Serializing}
    (hpath : path ⊆ s.visited) :
    (g.serializeMarksRef env alloc depth path r s).filter (fun k => ¬ k.Recursive) =
      env.serializeMarks alloc path (g.unfolding depth path r) s := by
  induction depth generalizing path r s with
  | zero => rfl
  | succ depth ih =>
    cases r with
    | scalar | str => rfl
    | object id =>
      by_cases hid : id.val ∈ path
      · have hmet := hpath hid
        have hdropped : [(⟨id, path⟩ : Mark)].filter (fun k => ¬ k.Recursive) = [] := by
          simp [Mark.Recursive, hid]
        rw [serializeMarksRef, unfolding, if_pos hid, Environment.serializeMarks]
        cases hnode : g.object id with
        | other o => exact absurd hnode (hcontainers id hid o)
        | mapping | seq => simp only [if_pos hmet, hdropped]
      have hkeep : [(⟨id, path⟩ : Mark)].filter (fun k => ¬ k.Recursive) = [⟨id, path⟩] := by
        simp [Mark.Recursive, hid]
      have hinside : ↑id :: path ⊆ (s.visit id).visited := List.cons_subset_cons _ hpath
      have hkept : ∀ (v : PyValue ℕ) (s : Serializing), ↑id :: path ⊆ s.visited →
          ↑id :: path ⊆ (env.serializeWith alloc v s).2.visited :=
        fun v s hs => List.Subset.trans hs (Environment.serializeWith_mono v s)
      have hcall : ∀ (a : Allocator) (t : Tree),
          (env.marksNew a t).filter (fun k => ¬ k.Recursive) = env.marksNew a t := by
        intro a t
        apply List.filter_eq_self.mpr
        intro k hk
        simpa using Environment.not_recursive_of_marksNew k hk
      rw [serializeMarksRef, unfolding, if_neg hid]
      cases hnode : g.object id with
      | other o =>
        cases o with
        | bytes => rfl
        | object =>
          simp only [Environment.marksOpaque, Environment.serializeMarks]
          split
          · exact hkeep
          · rfl
      | mapping entries =>
        have hcontainer : ∀ o, g.object id ≠ .other o := by simp [hnode]
        have hcontainers' := containers_inside hcontainer hcontainers
        have hentry : ∀ (e : Key × Ref n) (s : Serializing), ↑id :: path ⊆ s.visited →
            serializeEntry (g.serializeRef env alloc depth) e s =
              serializeEntry (env.serializeWith alloc)
                (e.1, g.unfolding depth (id :: path) e.2) s := by
          intro e s hs
          simp only [serializeEntry, serializeRef_eq hcontainers' depth e.2 hs]
        simp only [Environment.serializeMarks, serializeEntries_eq, serializeMarksEntries_eq,
          comprehend_map hentry (fun e s hs => hkept e.2 s hs) entries hinside]
        split
        · exact hkeep
        · rw [List.filter_append, hcall]
          congr 1
          exact collect_map hentry (fun e s hs => hkept e.2 s hs)
            (fun e s hs => ih hcontainers' e.2 hs) entries hinside
      | seq kind items =>
        have hcontainer : ∀ o, g.object id ≠ .other o := by simp [hnode]
        have hcontainers' := containers_inside hcontainer hcontainers
        have hvalue : ∀ (r : Ref n) (s : Serializing), ↑id :: path ⊆ s.visited →
            g.serializeRef env alloc depth r s =
              env.serializeWith alloc (g.unfolding depth (id :: path) r) s :=
          fun r s hs => serializeRef_eq hcontainers' depth r hs
        simp only [Environment.serializeMarks, serializeItems_eq, serializeMarksItems_eq,
          comprehend_map hvalue hkept items hinside]
        split
        · exact hkeep
        · rw [List.filter_append, hcall]
          congr 1
          exact collect_map hvalue hkept (fun r s hs => ih hcontainers' r hs) items hinside

end serialize

end Graph

end BaseWebService.Logging
