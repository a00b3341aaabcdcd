import BaseWebService.Logging.Termination

/-!
# Graphs as heaps

A graph is a heap whose identities are the first numbers. What `redact_sensitive_data` returns on
that heap is what `Graph.redact` computes: its bounds, the number of objects and the lengths of the
texts, are never reached.
-/

namespace BaseWebService.Logging

open Library

/-! ## Trees -/

theorem lookup_of_mem {α : Type} {l : List (ℕ × α)} (hnodup : (l.map Prod.fst).Nodup) {id : ℕ}
    {x : α} (h : (id, x) ∈ l) : l.lookup id = some x := by
  obtain ⟨y, hy⟩ := exists_lookup (List.mem_map_of_mem (f := Prod.fst) h)
  have hmem := mem_of_lookup hy
  have heq := List.inj_on_of_nodup_map hnodup h hmem rfl
  rw [hy, (Prod.mk.inj heq).2]

/-- The heap has the objects of the value as they are in the value. -/
def Heap.Stores (heap : Heap) (objects : List (ℕ × Object)) : Prop :=
  ∀ id o, (id, o) ∈ objects → heap.object? id = some o

theorem Heap.stores_store {heap : Heap} {value : PyValue ℕ} (h : value.Unshared) :
    (heap.store value).Stores value.objects := by
  intro id o hmem
  have hnodup : (value.objects.map Prod.fst).Nodup := value.keys_objects ▸ h
  rw [Heap.object?, Heap.store, List.lookup_append, lookup_of_mem hnodup hmem, Option.some_or]

section trees
variable {rt : Runtime} {a : Allocator} {heap : Heap} {onText : String → Memory → Tree × Memory}

theorem returns_marker_of {id : ℕ} {o : Object} {m : Memory} {typeName : String}
    (ho : heap.object? id = some o) (hid : id ∈ m.visited) (htype : o.typeName = typeName) :
    Returns rt a heap (.object id) m (recursive typeName, m) :=
  htype ▸ returns_marker ho hid

mutual

/-- On a value in the heap the code returns what the walk of the value does, if it does on its
strings. -/
theorem returns_redactWith : ∀ (value : PyValue ℕ) (m : Memory), heap.Stores value.objects →
    (∀ text ∈ value.strings, ∀ m, Returns rt a heap (.str text) m (onText text m)) →
    Returns rt a heap value.item m (rt.redactWith onText value m)
  | .scalar x, m, _, _ => returns_scalar x
  | .str text, m, _, htext => htext text (by simp [PyValue.strings]) m
  | .other id o, m, hstores, _ => by
    have ho : heap.object? id = some (.other o) := hstores _ _ (by simp [PyValue.objects])
    by_cases hid : id ∈ m.visited
    · rw [Runtime.redactWith, if_pos hid]
      exact returns_marker_of ho hid rfl
    · rw [Runtime.redactWith, if_neg hid]
      exact returns_other hid ho
  | .mapping id entries, m, hstores, htext => by
    have ho := hstores _ _ List.mem_cons_self
    by_cases hid : id ∈ m.visited
    · rw [Runtime.redactWith, if_pos hid]
      exact returns_marker_of ho hid rfl
    · rw [Runtime.redactWith_mapping _ hid]
      refine returns_mapping hid ho (settles_redactEntries entries _ (fun id o h => ?_) htext)
      exact hstores id o (List.mem_cons_of_mem _ h)
  | .seq kind id items, m, hstores, htext => by
    have ho := hstores _ _ List.mem_cons_self
    by_cases hid : id ∈ m.visited
    · rw [Runtime.redactWith, if_pos hid]
      exact returns_marker_of ho hid rfl
    · rw [Runtime.redactWith_seq _ _ hid]
      refine returns_seq hid ho (settles_redactItems 100 items _ (fun id o h => ?_) htext)
      exact hstores id o (List.mem_cons_of_mem _ h)

theorem settles_redactEntries : ∀ (entries : List (Key × PyValue ℕ)) (m : Memory),
    heap.Stores (objectsEntries entries) →
    (∀ text ∈ stringsEntries entries, ∀ m, Returns rt a heap (.str text) m (onText text m)) →
    Settles (fun fuel => comprehend? (rt.redactEntryHeap (rt.redactHeap a fuel heap))
      (entries.map fun e => (e.1, e.2.item)) m) (rt.redactEntries onText entries m)
  | [], _, _, _ => ⟨0, fun _ _ => rfl⟩
  | (key, value) :: entries, m, hstores, htext => by
    have hvalue : ∀ m, Returns rt a heap value.item m (rt.redactWith onText value m) := fun m =>
      returns_redactWith value m (fun id o h => hstores id o (List.mem_append_left _ h))
        fun text h => htext text (List.mem_append_left _ h)
    have hentries : ∀ m, Settles _ (rt.redactEntries onText entries m) := fun m =>
      settles_redactEntries entries m (fun id o h => hstores id o (List.mem_append_right _ h))
        fun text h => htext text (List.mem_append_right _ h)
    rw [Runtime.redactEntries]
    exact settles_cons (settles_redactEntryHeap (by split <;> simp [*])) (hentries _)

theorem settles_redactItems : ∀ (limit : ℕ) (items : List (PyValue ℕ)) (m : Memory),
    heap.Stores (objectsItems items) →
    (∀ text ∈ stringsItems items, ∀ m, Returns rt a heap (.str text) m (onText text m)) →
    Settles (fun fuel => comprehend? (rt.redactHeap a fuel heap)
      ((items.map PyValue.item).take limit) m) (rt.redactItems onText limit items m)
  | limit, [], m, _, _ => by
    rw [List.map_nil, List.take_nil]
    exact ⟨0, fun _ _ => by rw [Runtime.redactItems]; rfl⟩
  | 0, value :: items, m, _, _ => ⟨0, fun _ _ => rfl⟩
  | limit + 1, value :: items, m, hstores, htext => by
    have hvalue : Returns rt a heap value.item m (rt.redactWith onText value m) :=
      returns_redactWith value m (fun id o h => hstores id o (List.mem_append_left _ h))
        fun text h => htext text (List.mem_append_left _ h)
    have hitems : ∀ m, Settles _ (rt.redactItems onText limit items m) := fun m =>
      settles_redactItems limit items m (fun id o h => hstores id o (List.mem_append_right _ h))
        fun text h => htext text (List.mem_append_right _ h)
    rw [Runtime.redactItems]
    exact settles_cons hvalue (hitems _)

end

/-- A text is parsed as deep as its length allows. -/
theorem returns_redactText (depth : ℕ) (heap : Heap) (text : String) (m : Memory)
    (hdepth : text.length ≤ depth) :
    Returns rt a heap (.str text) m (rt.redactText a depth heap.ids text m) := by
  induction depth generalizing heap text m with
  | zero =>
    obtain rfl : text = "" := String.length_eq_zero_iff.mp (Nat.le_zero.mp hdepth)
    have hstart : startsJson (pyStrip "") = false := by decide
    exact returns_text (by simp [Runtime.parseText, hstart])
  | succ depth ih =>
    rw [Runtime.redactText]
    cases hparse : rt.parseText text with
    | none => exact returns_text hparse
    | some t =>
      refine returns_parsed hparse (returns_redactWith _ _ ?_ fun s hs m => ?_)
      · exact Heap.stores_store (a.unshared_build m heap.ids t)
      · rw [← PyValue.strings_erase, a.erase_build] at hs
        rw [← Heap.ids_store]
        have hshorter := Runtime.parseText_shorter hparse s hs
        exact ih _ s m (by omega)

end trees

/-! ## Graphs -/

section graphs
variable {n : ℕ}

def Ref.item : Ref n → Item
  | .scalar x => .scalar x
  | .str text => .str text
  | .object id => .object id

def Node.toObject : Node n → Object
  | .other o => .other o
  | .mapping entries => .mapping (entries.map fun e => (e.1, e.2.item))
  | .seq kind items => .seq kind (items.map Ref.item)

theorem Node.typeName_toObject (node : Node n) : node.toObject.typeName = node.typeName := by
  cases node <;> rfl

theorem Node.items_toObject (node : Node n) : node.toObject.items = node.refs.map Ref.item := by
  cases node <;> simp [Node.toObject, Object.items, Node.refs]

theorem Ref.item_in (r : Ref n) (g : Graph n) :
    r.item.In ((List.finRange n).map fun id : Fin n => (id.val, (g.object id).toObject)) := by
  cases r with
  | scalar | str => trivial
  | object id => simp [Ref.item, Item.In, Function.comp_def]

namespace Graph

variable (g : Graph n)

/-- The objects of the graph, with the numbers of their identities. -/
def heap : Heap where
  objects := (List.finRange n).map fun id : Fin n => (id.val, (g.object id).toObject)
  closed e he item hitem := by
    obtain ⟨id, -, rfl⟩ := List.mem_map.mp he
    rw [Node.items_toObject] at hitem
    obtain ⟨r, -, rfl⟩ := List.mem_map.mp hitem
    exact r.item_in g

/-- The graph and a reference into it. -/
def rooted (root : Ref n) : ObjectGraph := ⟨g.heap, root.item, root.item_in g⟩

theorem ids_heap : g.heap.ids = List.range n := by
  rw [Heap.ids, heap, List.map_map, ← List.map_coe_finRange_eq_range]
  rfl

theorem object?_heap (id : Fin n) : g.heap.object? id = some (g.object id).toObject := by
  have hnodup : (g.heap.objects.map Prod.fst).Nodup := by
    rw [← Heap.ids, ids_heap]
    exact List.nodup_range
  exact lookup_of_mem hnodup (List.mem_map.mpr ⟨id, List.mem_finRange id, rfl⟩)

variable {g} {rt : Runtime} {a : Allocator}

/-- The number of objects that have not been visited bounds how deep the calls are nested. -/
theorem returns_redactRef {onText : String → Memory → Tree × Memory}
    (htext : ∀ text m, Returns rt a g.heap (.str text) m (onText text m)) (depth : ℕ) (r : Ref n)
    (m : Memory) (hdepth : g.heap.unvisited m.visited < depth) :
    Returns rt a g.heap r.item m (g.redactRef rt onText depth r m) := by
  induction depth generalizing r m with
  | zero => omega
  | succ depth ih =>
    cases r with
    | scalar x => exact returns_scalar x
    | str text => exact htext text m
    | object id =>
      have ho := g.object?_heap id
      rw [redactRef]
      by_cases hid : id.val ∈ m.visited
      · rw [if_pos hid]
        exact returns_marker_of ho hid (g.object id).typeName_toObject
      rw [if_neg hid]
      have hpart : ∀ (r : Ref n) m', (m.visit id).visited ⊆ m'.visited →
          Returns rt a g.heap r.item m' (g.redactRef rt onText depth r m') := by
        intro r m' hsub
        apply ih
        have hin : id.val ∈ g.heap.ids := by simp [ids_heap]
        have hlt := Heap.unvisited_lt hin hid (hsub List.mem_cons_self) fun x hx =>
          hsub (List.mem_cons_of_mem _ hx)
        omega
      have hstart : (m.visit id).visited ⊆ (m.visit id).visited := List.Subset.refl _
      cases hnode : g.object id with
      | other o =>
        rw [hnode] at ho
        exact returns_other hid ho
      | mapping entries =>
        rw [hnode] at ho
        have hentries : ∀ e ∈ entries, ∀ m', (m.visit id).visited ⊆ m'.visited →
            Settles (fun fuel => rt.redactEntryHeap (rt.redactHeap a fuel g.heap)
                (e.1, e.2.item) m') (rt.redactEntry (g.redactRef rt onText depth) e m') ∧
              (m.visit id).visited ⊆
                (rt.redactEntry (g.redactRef rt onText depth) e m').2.visited := by
          intro e _ m' hsub
          have hvalue := hpart e.2 m' hsub
          rw [Runtime.redactEntry]
          split
          · rename_i hkey
            exact ⟨settles_redactEntryHeap (e := (e.1, e.2.item)) (by rw [if_pos hkey]), hsub⟩
          · rename_i hkey
            exact ⟨settles_redactEntryHeap (e := (e.1, e.2.item)) (by rwa [if_neg hkey]),
              hvalue.keeps hsub⟩
        exact returns_mapping hid ho
          (settles_comprehend? (fun e : Key × Ref n => (e.1, e.2.item)) hentries hstart)
      | seq kind items =>
        rw [hnode] at ho
        refine returns_seq hid ho ?_
        rw [← List.map_take]
        exact settles_comprehend? _
          (fun r _ m' hsub => ⟨hpart r m' hsub, (hpart r m' hsub).keeps hsub⟩) hstart

/-- What the code returns on a graph is what the model of the graph computes, and nothing else. -/
theorem returns_redact (root : Ref n) :
    ∃ m, Returns rt a (g.rooted root).heap (g.rooted root).root .start
      (g.redact root rt a, m) := by
  have hstart : g.heap.unvisited Memory.start.visited < n + 1 := by
    simp [Heap.unvisited, Memory.start, ids_heap]
  have htext : ∀ text m, Returns rt a g.heap (.str text) m
      (rt.redactText a text.length (List.range n) text m) := fun text m =>
    g.ids_heap ▸ returns_redactText text.length g.heap text m le_rfl
  exact ⟨_, returns_redactRef htext (n + 1) root .start hstart⟩

end Graph

end graphs

end BaseWebService.Logging
