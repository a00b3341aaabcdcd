import BaseWebService.Logging.Graph

/-!
# Walks that note their markers

The walks of `redact_sensitive_data` and `serialize_for_log` once more, where each marker is noted
as it is put, with the objects around it. Without the notes they are the walks of the code
(`redactMarked_eq`, `serializeMarked_eq`), so the notes are about the result that the code returns.
-/

namespace BaseWebService.Logging

open Library

variable {n : ℕ}

/-- A marker is put, and noted. -/
def putMarker (typeName : String) (id : ℕ) (path : List ℕ) : Tree × List Mark :=
  (recursive typeName, [⟨id, path⟩])

/-- What the calls of a comprehension return, and what they have noted. -/
def gather {β : Type} (rs : List (β × List Mark)) : List β × List Mark :=
  (rs.map Prod.fst, rs.flatMap Prod.snd)

theorem gather_cons {β : Type} (r : β × List Mark) (rs : List (β × List Mark)) :
    gather (r :: rs) = (r.1 :: (gather rs).1, r.2 ++ (gather rs).2) := rfl

/-- A marked walk does what the walk does, and notes its markers. -/
def Notes {α β σ : Type} (marked : α → σ → (β × List Mark) × σ) (walk : α → σ → β × σ)
    (marks : α → σ → List Mark) : Prop :=
  ∀ x s, marked x s = (((walk x s).1, marks x s), (walk x s).2)

theorem Notes.gather {α β σ : Type} {marked : α → σ → (β × List Mark) × σ}
    {walk : α → σ → β × σ} {marks : α → σ → List Mark} (h : Notes marked walk marks)
    (xs : List α) (s : σ) :
    Logging.gather (comprehend marked xs s).1 =
        ((comprehend walk xs s).1, collect walk marks xs s) ∧
      (comprehend marked xs s).2 = (comprehend walk xs s).2 := by
  induction xs generalizing s with
  | nil => exact ⟨rfl, rfl⟩
  | cons x xs ih =>
    obtain ⟨hgather, hstate⟩ := ih (walk x s).2
    rw [comprehend, comprehend, collect, h x s, gather_cons, hgather, hstate]
    exact ⟨rfl, rfl⟩

namespace Runtime

variable (rt : Runtime)

section walk
variable (onText : List ℕ → String → Memory → (Tree × List Mark) × Memory)

mutual

/-- `redactWith`, inside of the objects of `path`. -/
def markedWith (path : List ℕ) : PyValue ℕ → Memory → (Tree × List Mark) × Memory
  | .scalar x, m => ((.scalar x, []), m)
  | .str text, m => onText path text m
  | .other id o, m =>
    if id ∈ m.visited then (putMarker o.typeName id path, m) else ((.other () o, []), m.visit id)
  | .mapping id entries, m =>
    if id ∈ m.visited then (putMarker "dict" id path, m)
    else
      let r := markedEntries (id :: path) entries (m.visit id)
      ((.mapping () (pyDict r.1.1), r.1.2), r.2)
  | .seq kind id items, m =>
    if id ∈ m.visited then (putMarker kind.typeName id path, m)
    else
      let r := markedItems (id :: path) 100 items (m.visit id)
      ((.seq .list () r.1.1, r.1.2), r.2)

def markedEntries (path : List ℕ) :
    List (Key × PyValue ℕ) → Memory → (List (Key × Tree) × List Mark) × Memory
  | [], m => (([], []), m)
  | (key, value) :: entries, m =>
    let r := if rt.isSensitiveKey key then ((.str redacted, []), m) else markedWith path value m
    let rs := markedEntries path entries r.2
    (((.str key.text, r.1.1) :: rs.1.1, r.1.2 ++ rs.1.2), rs.2)

def markedItems (path : List ℕ) (limit : ℕ) :
    List (PyValue ℕ) → Memory → (List Tree × List Mark) × Memory
  | [], m => (([], []), m)
  | value :: items, m =>
    match limit with
    | 0 => (([], []), m)
    | limit + 1 =>
      let r := markedWith path value m
      let rs := markedItems path limit items r.2
      ((r.1.1 :: rs.1.1, r.1.2 ++ rs.1.2), rs.2)

end

end walk

/-- `redactText`. -/
def markedText (a : Allocator) :
    ℕ → List ℕ → List ℕ → String → Memory → (Tree × List Mark) × Memory
  | 0, _, _, text, m => ((.str text, []), m)
  | depth + 1, live, path, text, m =>
    match rt.parseText text with
    | none => ((.str text, []), m)
    | some t =>
      let value := a.build m live t
      rt.markedWith (markedText a depth (value.ids ++ live)) path value m.parse

/-- One entry of the dictionary comprehension. -/
def markedEntry {ν : Type} (walk : ν → Memory → (Tree × List Mark) × Memory) (e : Key × ν)
    (m : Memory) : ((Key × Tree) × List Mark) × Memory :=
  let r := if rt.isSensitiveKey e.1 then ((.str redacted, []), m) else walk e.2 m
  (((.str e.1.text, r.1.1), r.1.2), r.2)

theorem notes_markedEntry {ν : Type} {marked : ν → Memory → (Tree × List Mark) × Memory}
    {walk : ν → Memory → Tree × Memory} {marks : ν → Memory → List Mark}
    (h : Notes marked walk marks) :
    Notes (rt.markedEntry marked) (rt.redactEntry walk) (rt.marksEntry marks) := by
  intro e m
  rw [markedEntry, redactEntry, marksEntry, h e.2 m]
  split <;> rfl

variable {rt} {onText : String → Memory → Tree × Memory}
  {onMarks : List ℕ → String → Memory → List Mark}
  {onMarked : List ℕ → String → Memory → (Tree × List Mark) × Memory}

mutual

theorem notes_markedWith (htext : ∀ path, Notes (onMarked path) onText (onMarks path)) :
    ∀ (v : PyValue ℕ) (path : List ℕ) (m : Memory), rt.markedWith onMarked path v m =
      (((rt.redactWith onText v m).1, rt.marksWith onText onMarks path v m),
        (rt.redactWith onText v m).2)
  | .scalar _, _, _ => rfl
  | .str text, path, m => htext path text m
  | .other id o, path, m => by
    rw [markedWith, redactWith, marksWith]
    split <;> rfl
  | .mapping id entries, path, m => by
    rw [markedWith, redactWith, marksWith, notes_markedEntries htext entries (id :: path)]
    split <;> rfl
  | .seq kind id items, path, m => by
    rw [markedWith, redactWith, marksWith, notes_markedItems htext 100 items (id :: path)]
    split <;> rfl

theorem notes_markedEntries (htext : ∀ path, Notes (onMarked path) onText (onMarks path)) :
    ∀ (entries : List (Key × PyValue ℕ)) (path : List ℕ) (m : Memory),
      rt.markedEntries onMarked path entries m =
        (((rt.redactEntries onText entries m).1, rt.marksEntries onText onMarks path entries m),
          (rt.redactEntries onText entries m).2)
  | [], _, _ => rfl
  | (key, value) :: entries, path, m => by
    rw [markedEntries, redactEntries, marksEntries]
    cases rt.isSensitiveKey key with
    | true => simp [notes_markedEntries htext entries path m]
    | false =>
      have hvalue := notes_markedWith htext value path m
      have hrest := notes_markedEntries htext entries path (rt.redactWith onText value m).2
      simp [hvalue, hrest]

theorem notes_markedItems (htext : ∀ path, Notes (onMarked path) onText (onMarks path)) :
    ∀ (limit : ℕ) (items : List (PyValue ℕ)) (path : List ℕ) (m : Memory),
      rt.markedItems onMarked path limit items m =
        (((rt.redactItems onText limit items m).1,
          rt.marksItems onText onMarks path limit items m),
          (rt.redactItems onText limit items m).2)
  | _, [], _, _ => by simp [markedItems, redactItems, marksItems]
  | 0, _ :: _, _, _ => rfl
  | limit + 1, value :: items, path, m => by
    have hvalue := notes_markedWith htext value path m
    have hrest := notes_markedItems htext limit items path (rt.redactWith onText value m).2
    simp [markedItems, redactItems, marksItems, hvalue, hrest]

end

theorem notes_markedText (a : Allocator) (depth : ℕ) (live path : List ℕ) :
    Notes (rt.markedText a depth live path) (rt.redactText a depth live)
      (rt.marksText a depth live path) := by
  induction depth generalizing live path with
  | zero => exact fun _ _ => rfl
  | succ depth ih =>
    intro text m
    rw [markedText, redactText, marksText]
    cases rt.parseText text with
    | none => rfl
    | some t => exact notes_markedWith (fun path => ih _ path) _ path m.parse

/-- The walk of the texts in a value, each with the bound that its length gives. -/
theorem notes_texts (a : Allocator) (live path : List ℕ) :
    Notes (fun text => rt.markedText a text.length live path text)
      (fun text => rt.redactText a text.length live text)
      (fun text => rt.marksText a text.length live path text) :=
  fun text => notes_markedText a text.length live path text

end Runtime

namespace Environment

variable (env : Environment)

/-- `redactNew`, in a call of the redactor that has a `_visited` of its own. -/
def markedNew (a : Allocator) (t : Tree) : Tree × List Mark :=
  let value := a.build .start [] t
  (env.markedWith (fun path text => env.markedText a text.length value.ids path text) [] value
    .start).1

/-- `logContainer`, where `marks` have been put inside of the container. -/
def logMarked (alloc : ℕ → Allocator) (t : Tree) (marks : List Mark) (s : Serializing) :
    (Tree × List Mark) × Serializing :=
  let r := env.markedNew (alloc s.calls) t
  ((env.truncateLogValue r.1, marks ++ r.2), s.call)

/-- `serializeOpaque`. -/
def markedOpaque (path : List ℕ) (id : ℕ) (o : Opaque) (s : Serializing) :
    (Tree × List Mark) × Serializing :=
  match o with
  | .bytes data => ((sizeMarker data false, []), s)
  | .object typeName text =>
    if id ∈ s.visited then (putMarker typeName id path, s) else ((.str text, []), s.visit id)

variable {env} {alloc : ℕ → Allocator}

theorem markedNew_eq (a : Allocator) (t : Tree) :
    env.markedNew a t = (env.redactNew a t, env.marksNew a t) :=
  congrArg Prod.fst (Runtime.notes_markedWith (Runtime.notes_texts a _) _ [] .start)

theorem logMarked_eq (t : Tree) (marks : List Mark) (s : Serializing) :
    env.logMarked alloc t marks s = (((env.logContainer alloc t s).1,
      marks ++ env.marksNew (alloc s.calls) t), (env.logContainer alloc t s).2) := by
  rw [logMarked, markedNew_eq, logContainer]

theorem markedOpaque_eq (path : List ℕ) (id : ℕ) (o : Opaque) (s : Serializing) :
    markedOpaque path id o s = (((serializeOpaque id o s).1, marksOpaque path id o s),
      (serializeOpaque id o s).2) := by
  cases o with
  | bytes => rfl
  | object =>
    simp only [markedOpaque, serializeOpaque, marksOpaque]
    split <;> rfl

end Environment

/-- One entry of the dictionary comprehension of `serialize_for_log`. -/
def serializeMarkedEntry {ν : Type} (walk : ν → Serializing → (Tree × List Mark) × Serializing)
    (e : Key × ν) (s : Serializing) : ((Key × Tree) × List Mark) × Serializing :=
  let r := walk e.2 s
  (((.str e.1.text, r.1.1), r.1.2), r.2)

namespace Graph

variable (g : Graph n)

/-- `redactRef`, inside of the objects of `path`. -/
def markedRef (rt : Runtime) (onText : List ℕ → String → Memory → (Tree × List Mark) × Memory) :
    ℕ → List ℕ → Ref n → Memory → (Tree × List Mark) × Memory
  | 0, _, _, m => ((.scalar .none, []), m)
  | _ + 1, _, .scalar x, m => ((.scalar x, []), m)
  | _ + 1, path, .str text, m => onText path text m
  | depth + 1, path, .object id, m =>
    if id.val ∈ m.visited then (putMarker (g.object id).typeName id path, m)
    else
      match g.object id with
      | .other o => ((.other () o, []), m.visit id)
      | .mapping entries =>
        let r := comprehend (rt.markedEntry (markedRef rt onText depth (id :: path))) entries
          (m.visit id)
        let rs := gather r.1
        ((.mapping () (pyDict rs.1), rs.2), r.2)
      | .seq _ items =>
        let r := comprehend (markedRef rt onText depth (id :: path)) (items.take 100) (m.visit id)
        let rs := gather r.1
        ((.seq .list () rs.1, rs.2), r.2)

/-- `serializeRef`, inside of the objects of `path`. -/
def serializeMarkedRef (env : Environment) (alloc : ℕ → Allocator) :
    ℕ → List ℕ → Ref n → Serializing → (Tree × List Mark) × Serializing
  | 0, _, _, s => ((.scalar .none, []), s)
  | _ + 1, _, .scalar x, s => ((.scalar x, []), s)
  | _ + 1, _, .str text, s => ((.str text, []), s)
  | depth + 1, path, .object id, s =>
    match g.object id with
    | .other o => Environment.markedOpaque path id o s
    | .mapping entries =>
      if id.val ∈ s.visited then (putMarker "dict" id path, s)
      else
        let r := comprehend
          (serializeMarkedEntry (serializeMarkedRef env alloc depth (id :: path))) entries
          (s.visit id)
        let rs := gather r.1
        env.logMarked alloc (.mapping () (pyDict rs.1)) rs.2 r.2
    | .seq kind items =>
      if id.val ∈ s.visited then (putMarker kind.typeName id path, s)
      else
        let r := comprehend (serializeMarkedRef env alloc depth (id :: path)) items (s.visit id)
        let rs := gather r.1
        env.logMarked alloc (.seq .list () rs.1) rs.2 r.2

/-- `redact_sensitive_data(root)` and the markers it has put. -/
def redactMarked (root : Ref n) (rt : Runtime) (a : Allocator) : Tree × List Mark :=
  (g.markedRef rt (fun path text => rt.markedText a text.length (List.range n) path text) (n + 1)
    [] root .start).1

/-- `serialize_for_log(root)` and the markers it has put. -/
def serializeMarked (root : Ref n) (env : Environment) (alloc : ℕ → Allocator) :
    Tree × List Mark :=
  (g.serializeMarkedRef env alloc (n + 1) [] root .start).1

variable {g} {root : Ref n}

theorem notes_markedRef {rt : Runtime} {onText : String → Memory → Tree × Memory}
    {onMarks : List ℕ → String → Memory → List Mark}
    {onMarked : List ℕ → String → Memory → (Tree × List Mark) × Memory}
    (htext : ∀ path, Notes (onMarked path) onText (onMarks path)) (depth : ℕ) (path : List ℕ) :
    Notes (g.markedRef rt onMarked depth path) (g.redactRef rt onText depth)
      (g.marksRef rt onText onMarks depth path) := by
  induction depth generalizing path with
  | zero => exact fun _ _ => rfl
  | succ depth ih =>
    intro r m
    cases r with
    | scalar => rfl
    | str text => exact htext path text m
    | object id =>
      rw [markedRef, redactRef, marksRef]
      by_cases hmet : id.val ∈ m.visited
      · rw [if_pos hmet, if_pos hmet, if_pos hmet, putMarker]
      rw [if_neg hmet, if_neg hmet, if_neg hmet]
      cases g.object id with
      | other => rfl
      | mapping entries =>
        obtain ⟨hgather, hstate⟩ :=
          (rt.notes_markedEntry (ih (id :: path))).gather entries (m.visit id)
        simp only [hgather, hstate]
      | seq kind items =>
        obtain ⟨hgather, hstate⟩ := (ih (id :: path)).gather (items.take 100) (m.visit id)
        simp only [hgather, hstate]

theorem notes_serializeMarkedRef {env : Environment} {alloc : ℕ → Allocator} (depth : ℕ)
    (path : List ℕ) : Notes (g.serializeMarkedRef env alloc depth path)
      (g.serializeRef env alloc depth) (g.serializeMarksRef env alloc depth path) := by
  induction depth generalizing path with
  | zero => exact fun _ _ => rfl
  | succ depth ih =>
    intro r s
    cases r with
    | scalar | str => rfl
    | object id =>
      rw [serializeMarkedRef, serializeRef, serializeMarksRef]
      cases g.object id with
      | other o => exact Environment.markedOpaque_eq path id o s
      | mapping entries =>
        by_cases hmet : id.val ∈ s.visited
        · simp only [if_pos hmet, putMarker]
        have hentry : Notes
            (serializeMarkedEntry (g.serializeMarkedRef env alloc depth (id :: path)))
            (serializeEntry (g.serializeRef env alloc depth))
            (fun e => g.serializeMarksRef env alloc depth (id :: path) e.2) := by
          intro e s
          rw [serializeMarkedEntry, ih (id :: path) e.2 s, serializeEntry]
        obtain ⟨hgather, hstate⟩ := hentry.gather entries (s.visit id)
        simp only [if_neg hmet, hgather, hstate, Environment.logMarked_eq]
      | seq kind items =>
        by_cases hmet : id.val ∈ s.visited
        · simp only [if_pos hmet, putMarker]
        obtain ⟨hgather, hstate⟩ := (ih (id :: path)).gather items (s.visit id)
        simp only [if_neg hmet, hgather, hstate, Environment.logMarked_eq]

/-- What the code returns, with the markers that it has put. -/
theorem redactMarked_eq {rt : Runtime} {a : Allocator} :
    g.redactMarked root rt a = (g.redact root rt a, g.redactMarks root rt a) :=
  congrArg Prod.fst (notes_markedRef (Runtime.notes_texts a _) (n + 1) [] root .start)

theorem serializeMarked_eq {env : Environment} {alloc : ℕ → Allocator} :
    g.serializeMarked root env alloc =
      (g.serialize root env alloc, g.serializeMarks root env alloc) :=
  congrArg Prod.fst (notes_serializeMarkedRef (n + 1) [] root .start)

end Graph

end BaseWebService.Logging
