import BaseWebService.Logging.Recursion

/-!
# Redaction on a heap

`redact_sensitive_data` on a heap of objects, where nothing bounds the recursion but the heap
itself: a container may be inside itself, and a string that holds JSON becomes new objects, which
are walked in its place. `redactHeap` is given a number of calls that may be inside each other and
has no result when they are not enough; a call returns if from some number on they are.
-/

namespace BaseWebService.Logging

open Library

/-! ## Heaps -/

/-- What a container holds: a scalar, a string or an object by its identity. -/
inductive Item where
  | scalar (x : Scalar)
  | str (text : String)
  | object (id : ℕ)

inductive Object where
  | other (o : Opaque)
  | mapping (entries : List (Key × Item))
  | seq (kind : SeqKind) (items : List Item)

def Object.typeName : Object → String
  | .other o => o.typeName
  | .mapping _ => "dict"
  | .seq kind _ => kind.typeName

def Object.items : Object → List Item
  | .other _ => []
  | .mapping entries => entries.map Prod.snd
  | .seq _ items => items

/-- The object that an item refers to is one of the objects. -/
def Item.In (objects : List (ℕ × Object)) : Item → Prop
  | .object id => id ∈ objects.map Prod.fst
  | _ => True

/-- Finitely many objects, with their identities; what they hold is among them. -/
structure Heap where
  objects : List (ℕ × Object)
  closed : ∀ e ∈ objects, ∀ item ∈ e.2.items, item.In objects

def Heap.ids (heap : Heap) : List ℕ := heap.objects.map Prod.fst

def Heap.object? (heap : Heap) (id : ℕ) : Option Object := heap.objects.lookup id

/-- A heap and the value that is logged. -/
structure ObjectGraph where
  heap : Heap
  root : Item
  root_in : root.In heap.objects

theorem mem_of_lookup {α : Type} {l : List (ℕ × α)} {id : ℕ} {x : α}
    (h : l.lookup id = some x) : (id, x) ∈ l := by
  induction l with
  | nil => simp at h
  | cons e l ih =>
    obtain ⟨id', y⟩ := e
    rw [List.lookup_cons] at h
    split at h <;> grind

theorem exists_lookup {α : Type} {l : List (ℕ × α)} {id : ℕ} (h : id ∈ l.map Prod.fst) :
    ∃ x, l.lookup id = some x := by
  induction l with
  | nil => simp at h
  | cons e l ih =>
    obtain ⟨id', y⟩ := e
    rw [List.lookup_cons]
    split <;> grind

theorem Heap.mem_of_object? {heap : Heap} {id : ℕ} {o : Object} (h : heap.object? id = some o) :
    (id, o) ∈ heap.objects := mem_of_lookup h

/-! ### Storing a tree -/

/-- The value as an item. -/
def PyValue.item : PyValue ℕ → Item
  | .scalar x => .scalar x
  | .str text => .str text
  | .other id _ => .object id
  | .mapping id _ => .object id
  | .seq _ id _ => .object id

mutual

/-- The objects that a value is made of. -/
def PyValue.objects : PyValue ℕ → List (ℕ × Object)
  | .scalar _ => []
  | .str _ => []
  | .other id o => [(id, .other o)]
  | .mapping id entries =>
    (id, .mapping (entries.map fun e => (e.1, e.2.item))) :: objectsEntries entries
  | .seq kind id items => (id, .seq kind (items.map PyValue.item)) :: objectsItems items

def objectsEntries : List (Key × PyValue ℕ) → List (ℕ × Object)
  | [] => []
  | (_, value) :: entries => value.objects ++ objectsEntries entries

def objectsItems : List (PyValue ℕ) → List (ℕ × Object)
  | [] => []
  | value :: items => value.objects ++ objectsItems items

end

mutual

theorem PyValue.keys_objects : ∀ v : PyValue ℕ, v.objects.map Prod.fst = v.ids
  | .scalar _ => rfl
  | .str _ => rfl
  | .other _ _ => rfl
  | .mapping id entries => congrArg (id :: ·) (keys_objectsEntries entries)
  | .seq _ id items => congrArg (id :: ·) (keys_objectsItems items)

theorem keys_objectsEntries : ∀ entries : List (Key × PyValue ℕ),
    (objectsEntries entries).map Prod.fst = idsEntries entries
  | [] => rfl
  | (_, value) :: entries => by
    rw [objectsEntries, List.map_append, value.keys_objects, keys_objectsEntries entries,
      idsEntries]

theorem keys_objectsItems : ∀ items : List (PyValue ℕ),
    (objectsItems items).map Prod.fst = idsItems items
  | [] => rfl
  | value :: items => by
    rw [objectsItems, List.map_append, value.keys_objects, keys_objectsItems items, idsItems]

end

/-- The item is one of these strings or objects, or a scalar. -/
def Item.Part (strings : List String) (ids : List ℕ) : Item → Prop
  | .scalar _ => True
  | .str text => text ∈ strings
  | .object id => id ∈ ids

theorem Item.Part.mono {strings strings' : List String} {ids ids' : List ℕ} {item : Item}
    (h : item.Part strings ids) (hstrings : strings ⊆ strings') (hids : ids ⊆ ids') :
    item.Part strings' ids' := by
  cases item with
  | scalar x => trivial
  | str text => exact hstrings h
  | object id => exact hids h

theorem PyValue.part_item (v : PyValue ℕ) : v.item.Part v.strings v.ids := by
  cases v <;> simp [PyValue.item, Item.Part, PyValue.strings, PyValue.ids]

theorem part_item_entries {entries : List (Key × PyValue ℕ)} {e : Key × PyValue ℕ}
    (he : e ∈ entries) : e.2.item.Part (stringsEntries entries) (idsEntries entries) := by
  induction entries with
  | nil => simp at he
  | cons e' entries ih =>
    rw [stringsEntries, idsEntries]
    rcases List.mem_cons.mp he with rfl | he
    · exact e.2.part_item.mono (List.subset_append_left _ _) (List.subset_append_left _ _)
    · exact (ih he).mono (List.subset_append_right _ _) (List.subset_append_right _ _)

theorem part_item_items {items : List (PyValue ℕ)} {value : PyValue ℕ} (hvalue : value ∈ items) :
    value.item.Part (stringsItems items) (idsItems items) := by
  induction items with
  | nil => simp at hvalue
  | cons value' items ih =>
    rw [stringsItems, idsItems]
    rcases List.mem_cons.mp hvalue with rfl | hvalue
    · exact value.part_item.mono (List.subset_append_left _ _) (List.subset_append_left _ _)
    · exact (ih hvalue).mono (List.subset_append_right _ _) (List.subset_append_right _ _)

mutual

/-- The objects of a value hold nothing but its strings and its objects. -/
theorem PyValue.part_objects : ∀ v : PyValue ℕ, ∀ e ∈ v.objects, ∀ item ∈ e.2.items,
    item.Part v.strings v.ids
  | .scalar _, e, he => by simp [PyValue.objects] at he
  | .str _, e, he => by simp [PyValue.objects] at he
  | .other id o, e, he => by
    obtain rfl : e = (id, .other o) := by simpa [PyValue.objects] using he
    simp [Object.items]
  | .mapping id entries, e, he => by
    intro item hitem
    rcases List.mem_cons.mp he with rfl | he
    · obtain ⟨_, hpair, rfl⟩ := List.mem_map.mp hitem
      obtain ⟨e, he, rfl⟩ := List.mem_map.mp hpair
      exact (part_item_entries he).mono (List.Subset.refl _) (List.subset_cons_self _ _)
    · exact (part_objectsEntries entries e he item hitem).mono (List.Subset.refl _)
        (List.subset_cons_self _ _)
  | .seq kind id items, e, he => by
    intro item hitem
    rcases List.mem_cons.mp he with rfl | he
    · obtain ⟨value, hvalue, rfl⟩ := List.mem_map.mp hitem
      exact (part_item_items hvalue).mono (List.Subset.refl _) (List.subset_cons_self _ _)
    · exact (part_objectsItems items e he item hitem).mono (List.Subset.refl _)
        (List.subset_cons_self _ _)

theorem part_objectsEntries : ∀ entries : List (Key × PyValue ℕ), ∀ e ∈ objectsEntries entries,
    ∀ item ∈ e.2.items, item.Part (stringsEntries entries) (idsEntries entries)
  | [], e, he => by simp [objectsEntries] at he
  | (_, value) :: entries, e, he => by
    intro item hitem
    rw [stringsEntries, idsEntries]
    rcases List.mem_append.mp he with he | he
    · exact (value.part_objects e he item hitem).mono (List.subset_append_left _ _)
        (List.subset_append_left _ _)
    · exact (part_objectsEntries entries e he item hitem).mono (List.subset_append_right _ _)
        (List.subset_append_right _ _)

theorem part_objectsItems : ∀ items : List (PyValue ℕ), ∀ e ∈ objectsItems items,
    ∀ item ∈ e.2.items, item.Part (stringsItems items) (idsItems items)
  | [], e, he => by simp [objectsItems] at he
  | value :: items, e, he => by
    intro item hitem
    rw [stringsItems, idsItems]
    rcases List.mem_append.mp he with he | he
    · exact (value.part_objects e he item hitem).mono (List.subset_append_left _ _)
        (List.subset_append_left _ _)
    · exact (part_objectsItems items e he item hitem).mono (List.subset_append_right _ _)
        (List.subset_append_right _ _)

end

theorem Item.Part.in_objects {v : PyValue ℕ} {item : Item} (h : item.Part v.strings v.ids)
    (objects : List (ℕ × Object)) : item.In (v.objects ++ objects) := by
  cases item with
  | scalar | str => trivial
  | object id =>
    rw [Item.In, List.map_append, v.keys_objects]
    exact List.mem_append_left _ h

theorem Item.In.append {objects : List (ℕ × Object)} {item : Item} (h : item.In objects)
    (objects' : List (ℕ × Object)) : item.In (objects' ++ objects) := by
  cases item with
  | scalar | str => trivial
  | object id =>
    rw [Item.In, List.map_append]
    exact List.mem_append_right _ h

/-- The heap with the objects of a new value. -/
def Heap.store (heap : Heap) (value : PyValue ℕ) : Heap where
  objects := value.objects ++ heap.objects
  closed e he item hitem := (List.mem_append.mp he).elim
    (fun hnew => (value.part_objects e hnew item hitem).in_objects _)
    fun hold => (heap.closed e hold item hitem).append _

theorem Heap.ids_store (heap : Heap) (value : PyValue ℕ) :
    (heap.store value).ids = value.ids ++ heap.ids := by
  rw [Heap.ids, Heap.store, List.map_append, value.keys_objects, Heap.ids]

/-- An object of the new value is found as it is in the value. -/
theorem Heap.mem_of_object?_store {heap : Heap} {value : PyValue ℕ} {id : ℕ} {o : Object}
    (hid : id ∈ value.ids) (h : (heap.store value).object? id = some o) :
    (id, o) ∈ value.objects := by
  obtain ⟨o', ho'⟩ := exists_lookup (l := value.objects) (value.keys_objects ▸ hid)
  have hfirst : (value.objects ++ heap.objects).lookup id = some o' := by
    rw [List.lookup_append, ho', Option.some_or]
  obtain rfl := Option.some_inj.mp (hfirst.symm.trans h)
  exact mem_of_lookup ho'

/-! ## The code -/

/-- A comprehension whose parts may not come to an end. -/
def comprehend? {α β σ : Type} (f : α → σ → Option (β × σ)) : List α → σ → Option (List β × σ)
  | [], s => some ([], s)
  | x :: xs, s =>
    (f x s).bind fun r => (comprehend? f xs r.2).map fun rs => (r.1 :: rs.1, rs.2)

namespace Runtime

variable (rt : Runtime) (a : Allocator)

/-- One entry of the dictionary comprehension. -/
def redactEntryHeap (walk : Item → Memory → Option (Tree × Memory)) (e : Key × Item) (m : Memory) :
    Option ((Key × Tree) × Memory) :=
  (if rt.isSensitiveKey e.1 then some (.str redacted, m) else walk e.2 m).map fun r =>
    ((.str e.1.text, r.1), r.2)

/-- `redact_sensitive_data(value, _visited)`, as far as `fuel` calls inside each other go. -/
def redactHeap : ℕ → Heap → Item → Memory → Option (Tree × Memory)
  | 0, _, _, _ => none
  | _ + 1, _, .scalar x, m => some (.scalar x, m)
  | fuel + 1, heap, .str text, m =>
    match rt.parseText text with
    | none => some (.str text, m)
    | some t =>
      let value := a.build m heap.ids t
      redactHeap fuel (heap.store value) value.item m.parse
  | fuel + 1, heap, .object id, m =>
    match heap.object? id with
    | none => none
    | some o =>
      if id ∈ m.visited then some (recursive o.typeName, m)
      else
        match o with
        | .other o => some (.other () o, m.visit id)
        | .mapping entries =>
          (comprehend? (rt.redactEntryHeap (redactHeap fuel heap)) entries (m.visit id)).map
            fun r => (.mapping () (pyDict r.1), r.2)
        | .seq _ items =>
          (comprehend? (redactHeap fuel heap) (items.take 100) (m.visit id)).map
            fun r => (.seq .list () r.1, r.2)

end Runtime

/-! ## Calls that return -/

section settles
variable {α β γ σ : Type} {f : ℕ → Option β} {g : ℕ → Option γ} {r r' : β}

/-- With enough fuel the result is `r`. -/
def Settles (f : ℕ → Option β) (r : β) : Prop := ∃ depth, ∀ fuel ≥ depth, f fuel = some r

theorem Settles.unique (h : Settles f r) (h' : Settles f r') : r = r' := by
  obtain ⟨depth, h⟩ := h
  obtain ⟨depth', h'⟩ := h'
  exact Option.some_inj.mp
    ((h _ (le_max_left depth depth')).symm.trans (h' _ (le_max_right depth depth')))

/-- One more call needs one more unit of fuel. -/
theorem Settles.succ {φ : β → γ} (h : Settles f r) (hg : ∀ k, g (k + 1) = (f k).map φ) :
    Settles g (φ r) := by
  obtain ⟨depth, h⟩ := h
  refine ⟨depth + 1, fun fuel hfuel => ?_⟩
  obtain ⟨k, rfl⟩ : ∃ k, fuel = k + 1 := ⟨fuel - 1, by omega⟩
  rw [hg, h k (by omega), Option.map_some]

theorem settles_of_succ (hf : ∀ k, f (k + 1) = some r) : Settles f r :=
  Settles.succ (f := fun _ => some ()) (φ := fun _ => r) ⟨0, fun _ _ => rfl⟩ hf

variable {walk : ℕ → α → σ → Option (β × σ)} {I : σ → Prop}

theorem settles_cons {x : α} {xs : List α} {s : σ} {part : β × σ} {rest : List β × σ}
    (hx : Settles (walk · x s) part)
    (hxs : Settles (fun fuel => comprehend? (walk fuel) xs part.2) rest) :
    Settles (fun fuel => comprehend? (walk fuel) (x :: xs) s) (part.1 :: rest.1, rest.2) := by
  obtain ⟨depth, hx⟩ := hx
  obtain ⟨depth', hxs⟩ := hxs
  refine ⟨max depth depth', fun fuel hfuel => ?_⟩
  have hx := hx fuel (le_of_max_le_left hfuel)
  have hxs := hxs fuel (le_of_max_le_right hfuel)
  simp [comprehend?, hx, hxs]

/-- A comprehension whose parts return has their results. -/
theorem settles_comprehend? {δ : Type} {value : δ → σ → β × σ} (part : δ → α) {xs : List δ}
    (hvalue : ∀ x ∈ xs, ∀ s, I s →
      Settles (walk · (part x) s) (value x s) ∧ I (value x s).2) {s : σ} (hs : I s) :
    Settles (fun fuel => comprehend? (walk fuel) (xs.map part) s) (comprehend value xs s) := by
  induction xs generalizing s with
  | nil => exact ⟨0, fun _ _ => rfl⟩
  | cons x xs ih =>
    obtain ⟨hx, hkeeps⟩ := hvalue x (by simp) s hs
    exact settles_cons hx (ih (fun y hy => hvalue y (by simp [hy])) hkeeps)

theorem exists_settles_comprehend? {xs : List α}
    (hwalk : ∀ x ∈ xs, ∀ s, I s → ∃ r, Settles (walk · x s) r ∧ I r.2) {s : σ} (hs : I s) :
    ∃ r, Settles (fun fuel => comprehend? (walk fuel) xs s) r := by
  classical
  cases hxs : xs with
  | nil => exact ⟨([], s), 0, fun _ _ => rfl⟩
  | cons x₀ _ =>
    obtain ⟨r₀, -⟩ := hwalk x₀ (by simp [hxs]) s hs
    have hvalue : ∀ x s, ∃ r : β × σ, x ∈ xs → I s → Settles (walk · x s) r ∧ I r.2 := by
      intro x s
      by_cases h : x ∈ xs ∧ I s
      · obtain ⟨r, hr⟩ := hwalk x h.1 s h.2
        exact ⟨r, fun _ _ => hr⟩
      · exact ⟨r₀, fun hx hs => absurd ⟨hx, hs⟩ h⟩
    choose value hvalue using hvalue
    have hsettles := settles_comprehend? (fun x => x)
      (fun x hx s hs => hvalue x s hx hs) hs
    rw [List.map_id'] at hsettles
    exact hxs ▸ ⟨_, hsettles⟩

end settles

section returns
variable {rt : Runtime} {a : Allocator} {heap : Heap} {id : ℕ} {m : Memory}

/-- The call `redact_sensitive_data(item, _visited)` returns. -/
def Returns (rt : Runtime) (a : Allocator) (heap : Heap) (item : Item) (m : Memory)
    (r : Tree × Memory) : Prop :=
  Settles (fun fuel => rt.redactHeap a fuel heap item m) r

theorem returns_scalar (x : Scalar) : Returns rt a heap (.scalar x) m (.scalar x, m) :=
  settles_of_succ fun _ => rfl

theorem returns_text {text : String} (h : rt.parseText text = none) :
    Returns rt a heap (.str text) m (.str text, m) :=
  settles_of_succ fun k => by simp [Runtime.redactHeap, h]

theorem returns_parsed {text : String} {t : Tree} {r : Tree × Memory}
    (h : rt.parseText text = some t)
    (hr : Returns rt a (heap.store (a.build m heap.ids t)) (a.build m heap.ids t).item m.parse r) :
    Returns rt a heap (.str text) m r :=
  Settles.succ (φ := fun r => r) hr fun k => by simp [Runtime.redactHeap, h]

/-- An entry whose key is sensitive is not walked. -/
theorem settles_redactEntryHeap {e : Key × Item} {r : Tree × Memory}
    (hr : if rt.isSensitiveKey e.1 then r = (.str redacted, m) else Returns rt a heap e.2 m r) :
    Settles (fun fuel => rt.redactEntryHeap (rt.redactHeap a fuel heap) e m)
      ((.str e.1.text, r.1), r.2) := by
  split at hr
  · rename_i hkey
    subst hr
    exact ⟨0, fun _ _ => by simp [Runtime.redactEntryHeap, hkey]⟩
  · rename_i hkey
    obtain ⟨depth, hr⟩ := hr
    exact ⟨depth, fun fuel hfuel => by simp [Runtime.redactEntryHeap, hkey, hr fuel hfuel]⟩

section object
variable {o : Object} (ho : heap.object? id = some o)
include ho

theorem returns_marker (hid : id ∈ m.visited) :
    Returns rt a heap (.object id) m (recursive o.typeName, m) :=
  settles_of_succ fun k => by simp [Runtime.redactHeap, ho, hid]

end object

variable (hid : id ∉ m.visited)
include hid

theorem returns_other {o : Opaque} (ho : heap.object? id = some (.other o)) :
    Returns rt a heap (.object id) m (.other () o, m.visit id) :=
  settles_of_succ fun k => by simp [Runtime.redactHeap, ho, hid]

theorem returns_mapping {entries : List (Key × Item)} {r : List (Key × Tree) × Memory}
    (ho : heap.object? id = some (.mapping entries))
    (hr : Settles (fun fuel => comprehend? (rt.redactEntryHeap (rt.redactHeap a fuel heap)) entries
      (m.visit id)) r) :
    Returns rt a heap (.object id) m (.mapping () (pyDict r.1), r.2) :=
  Settles.succ (g := fun fuel => rt.redactHeap a fuel heap (.object id) m)
    (φ := fun r : List (Key × Tree) × Memory => (PyValue.mapping () (pyDict r.1), r.2)) hr
    fun k => by simp [Runtime.redactHeap, ho, hid]

theorem returns_seq {kind : SeqKind} {items : List Item} {r : List Tree × Memory}
    (ho : heap.object? id = some (.seq kind items))
    (hr : Settles (fun fuel => comprehend? (rt.redactHeap a fuel heap) (items.take 100)
      (m.visit id)) r) :
    Returns rt a heap (.object id) m (.seq .list () r.1, r.2) :=
  Settles.succ (g := fun fuel => rt.redactHeap a fuel heap (.object id) m)
    (φ := fun r : List Tree × Memory => (PyValue.seq .list () r.1, r.2)) hr
    fun k => by simp [Runtime.redactHeap, ho, hid]

end returns

/-! ## What was visited stays visited -/

section keeps
variable {rt : Runtime} {a : Allocator} {visited : List ℕ}

/-- What every part keeps, the comprehension keeps. -/
theorem comprehend?_keeps {α β σ : Type} {I : σ → Prop} {f : α → σ → Option (β × σ)}
    (hf : ∀ x s r, I s → f x s = some r → I r.2) (xs : List α) {s : σ} {r : List β × σ} (hs : I s)
    (h : comprehend? f xs s = some r) : I r.2 := by
  induction xs generalizing s r with
  | nil =>
    obtain rfl := Option.some_inj.mp h
    exact hs
  | cons x xs ih =>
    obtain ⟨part, hx, hrest⟩ := Option.bind_eq_some_iff.mp h
    obtain ⟨rest, hxs, rfl⟩ := Option.map_eq_some_iff.mp hrest
    exact ih (r := rest) (hf x s _ hs hx) hxs

theorem redactEntryHeap_keeps {walk : Item → Memory → Option (Tree × Memory)}
    (hwalk : ∀ item m r, visited ⊆ m.visited → walk item m = some r → visited ⊆ r.2.visited)
    (e : Key × Item) (m : Memory) (r : (Key × Tree) × Memory) (hm : visited ⊆ m.visited)
    (h : rt.redactEntryHeap walk e m = some r) : visited ⊆ r.2.visited := by
  obtain ⟨part, hpart, rfl⟩ := Option.map_eq_some_iff.mp h
  split at hpart
  · obtain rfl := Option.some_inj.mp hpart
    exact hm
  · exact hwalk _ _ _ hm hpart

theorem redactHeap_keeps (fuel : ℕ) {heap : Heap} {item : Item} {m : Memory} {r : Tree × Memory}
    (hm : visited ⊆ m.visited) (h : rt.redactHeap a fuel heap item m = some r) :
    visited ⊆ r.2.visited := by
  induction fuel generalizing heap item m r with
  | zero => simp [Runtime.redactHeap] at h
  | succ fuel ih =>
    cases item with
    | scalar x =>
      obtain rfl := Option.some_inj.mp h
      exact hm
    | str text =>
      rw [Runtime.redactHeap] at h
      split at h
      · obtain rfl := Option.some_inj.mp h
        exact hm
      · exact ih (m := m.parse) hm h
    | object id =>
      have hvisit : visited ⊆ (m.visit id).visited := List.subset_cons_of_subset _ hm
      rw [Runtime.redactHeap] at h
      split at h
      · simp at h
      split at h
      · obtain rfl := Option.some_inj.mp h
        exact hm
      split at h
      · obtain rfl := Option.some_inj.mp h
        exact hvisit
      · obtain ⟨es, hes, rfl⟩ := Option.map_eq_some_iff.mp h
        exact comprehend?_keeps (I := fun m => visited ⊆ m.visited)
          (redactEntryHeap_keeps fun _ _ _ => ih) _ hvisit hes
      · obtain ⟨ts, hts, rfl⟩ := Option.map_eq_some_iff.mp h
        exact comprehend?_keeps (I := fun m => visited ⊆ m.visited) (fun _ _ _ => ih) _ hvisit hts

theorem Returns.keeps {heap : Heap} {item : Item} {m : Memory} {r : Tree × Memory}
    (h : Returns rt a heap item m r) (hm : visited ⊆ m.visited) : visited ⊆ r.2.visited := by
  obtain ⟨depth, h⟩ := h
  exact redactHeap_keeps depth hm (h depth le_rfl)

end keeps

end BaseWebService.Logging
