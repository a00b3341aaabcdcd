import Mathlib.Order.Lattice.Nat
import Mathlib.Data.Prod.Lex
import Mathlib.Order.ConditionallyCompleteLattice.Basic
import BaseWebService.Logging.Heap

/-!
# Redaction comes to an end

No call of `redact_sensitive_data` starts a call that is not smaller: inside a container one object
less is unvisited, and inside a parsed text every string is shorter than the text, so the longest
string that can still be reached is. Neither of the two numbers alone would do: the way around a
cycle meets the same strings again, and a parsed text brings objects that were not there.

## Main results

* `wellFounded_calls` : the calls of `redact_sensitive_data` are well-founded.
* `redact_terminates` : it returns on every object graph, however deep the calls may be.
-/

namespace BaseWebService.Logging

open Library

/-! ## Strings that can be reached -/

/-- An item holds another one. -/
def Heap.Holds (heap : Heap) : Item → Item → Prop
  | .object id, item => ∃ o, heap.object? id = some o ∧ item ∈ o.items
  | _, _ => False

abbrev Heap.Reaches (heap : Heap) : Item → Item → Prop := Relation.ReflTransGen heap.Holds

/-- From a value only its own strings can be reached. -/
theorem mem_strings_of_reaches {heap : Heap} {value : PyValue ℕ} {text : String}
    (h : (heap.store value).Reaches value.item (.str text)) : text ∈ value.strings := by
  have hpart : ∀ item, (heap.store value).Reaches value.item item →
      item.Part value.strings value.ids := by
    intro item hreach
    induction hreach with
    | refl => exact value.part_item
    | @tail parent item _ hholds ih =>
      cases parent with
      | scalar | str => exact absurd hholds id
      | object id =>
        obtain ⟨o, ho, hitem⟩ := hholds
        exact value.part_objects _ (Heap.mem_of_object?_store ih ho) item hitem
  exact hpart _ h

/-- The lengths of the strings that can be reached, each one more than it is. -/
def Heap.lengths (heap : Heap) (item : Item) : Set ℕ :=
  {k | ∃ text, heap.Reaches item (.str text) ∧ k = text.length + 1}

/-- The length of the longest string that can be reached, and one more; 0 if there is none. -/
noncomputable def Heap.longest (heap : Heap) (item : Item) : ℕ := sSup (heap.lengths item)

/-- What is reached is the item itself or stands in an object of the heap. -/
theorem Heap.mem_of_reaches {heap : Heap} {item item' : Item} (h : heap.Reaches item item') :
    item' ∈ item :: heap.objects.flatMap fun e => e.2.items := by
  cases h.cases_tail with
  | inl heq => simp [heq]
  | inr hlast =>
    obtain ⟨parent, -, hholds⟩ := hlast
    cases parent with
    | scalar | str => exact absurd hholds id
    | object id =>
      obtain ⟨o, ho, hitem⟩ := hholds
      exact List.mem_cons_of_mem _ (List.mem_flatMap.mpr ⟨_, Heap.mem_of_object? ho, hitem⟩)

theorem Heap.bddAbove_lengths (heap : Heap) (item : Item) : BddAbove (heap.lengths item) := by
  let length : Item → ℕ
    | .str text => text.length + 1
    | _ => 0
  have hsub : heap.lengths item ⊆
      {k | k ∈ (item :: heap.objects.flatMap fun e => e.2.items).map length} := by
    rintro k ⟨text, hreach, rfl⟩
    exact List.mem_map.mpr ⟨_, Heap.mem_of_reaches hreach, rfl⟩
  exact ((List.finite_toSet _).subset hsub).bddAbove

theorem Heap.length_lt_longest {heap : Heap} {item : Item} {text : String}
    (h : heap.Reaches item (.str text)) : text.length < heap.longest item :=
  le_csSup (heap.bddAbove_lengths item) ⟨text, h, rfl⟩

theorem Heap.longest_le {heap : Heap} {item : Item} {bound : ℕ}
    (h : ∀ text, heap.Reaches item (.str text) → text.length < bound) :
    heap.longest item ≤ bound := by
  rcases Set.eq_empty_or_nonempty (heap.lengths item) with hempty | hnonempty
  · simp [Heap.longest, hempty]
  · refine csSup_le hnonempty ?_
    rintro k ⟨text, hreach, rfl⟩
    exact h text hreach

theorem Heap.longest_mono {heap : Heap} {item item' : Item} (h : heap.Holds item item') :
    heap.longest item' ≤ heap.longest item :=
  Heap.longest_le fun _ hreach => Heap.length_lt_longest (hreach.head h)

/-- How many objects have not been visited. -/
def Heap.unvisited (heap : Heap) (visited : List ℕ) : ℕ :=
  (heap.ids.filter (· ∉ visited)).length

theorem Heap.unvisited_lt {heap : Heap} {visited visited' : List ℕ} {id : ℕ} (hid : id ∈ heap.ids)
    (hnew : id ∉ visited) (hvisit : id ∈ visited') (hsub : visited ⊆ visited') :
    heap.unvisited visited' < heap.unvisited visited := by
  have hsublist : (heap.ids.filter (· ∉ visited')).Sublist (heap.ids.filter (· ∉ visited)) :=
    List.monotone_filter_right _ (by grind)
  refine lt_of_le_of_ne hsublist.length_le fun heq => ?_
  have hall := hsublist.eq_of_length heq
  have hmem : id ∈ heap.ids.filter (· ∉ visited) := by simp [hid, hnew]
  rw [← hall] at hmem
  simp [hvisit] at hmem

/-! ## The calls -/

/-- A call of `redact_sensitive_data`: the heap, the value, and what is left in memory. -/
structure RedactCall where
  heap : Heap
  item : Item
  memory : Memory

section calls
variable (rt : Runtime) (a : Allocator)

/-- The second call starts the first. What the calls before it have left is not followed here: they
only add to the objects that are visited. -/
inductive Calls : RedactCall → RedactCall → Prop where
  | parsed {heap : Heap} {text : String} {t : Tree} {m : Memory} : rt.parseText text = some t →
      Calls ⟨heap.store (a.build m heap.ids t), (a.build m heap.ids t).item, m.parse⟩
        ⟨heap, .str text, m⟩
  | part {heap : Heap} {id : ℕ} {o : Object} {item : Item} {m m' : Memory} :
      heap.object? id = some o → id ∉ m.visited → item ∈ o.items →
      (m.visit id).visited ⊆ m'.visited → Calls ⟨heap, item, m'⟩ ⟨heap, .object id, m⟩

variable {rt a}

/-- What gets smaller: the longest string that can be reached, and where that stays, the number of
objects that have not been visited. -/
noncomputable def RedactCall.size (c : RedactCall) : ℕ ×ₗ ℕ :=
  toLex (c.heap.longest c.item, c.heap.unvisited c.memory.visited)

theorem Calls.size_lt {c c' : RedactCall} (h : Calls rt a c c') : c.size < c'.size := by
  cases h with
  | @parsed heap text t m hparse =>
    have hlongest : (heap.store (a.build m heap.ids t)).longest (a.build m heap.ids t).item ≤
        text.length := by
      refine Heap.longest_le fun s hreach => Runtime.parseText_shorter hparse s ?_
      have hmem := mem_strings_of_reaches hreach
      rwa [← PyValue.strings_erase, a.erase_build] at hmem
    have htext : text.length < heap.longest (.str text) := Heap.length_lt_longest .refl
    exact Prod.Lex.toLex_lt_toLex.mpr (Or.inl (hlongest.trans_lt htext))
  | @part heap id o item m m' ho hnew hitem hsub =>
    have hlongest : heap.longest item ≤ heap.longest (.object id) :=
      Heap.longest_mono ⟨o, ho, hitem⟩
    have hid : id ∈ heap.ids := List.mem_map.mpr ⟨_, Heap.mem_of_object? ho, rfl⟩
    have hunvisited : heap.unvisited m'.visited < heap.unvisited m.visited :=
      Heap.unvisited_lt hid hnew (hsub List.mem_cons_self) fun x hx =>
        hsub (List.mem_cons_of_mem _ hx)
    refine Prod.Lex.toLex_lt_toLex.mpr ?_
    rcases hlongest.lt_or_eq with hlt | heq
    · exact Or.inl hlt
    · exact Or.inr ⟨heq, hunvisited⟩

/-- No chain of calls goes on for ever. -/
theorem wellFounded_calls (rt : Runtime) (a : Allocator) : WellFounded (Calls rt a) :=
  Subrelation.wf Calls.size_lt (InvImage.wf RedactCall.size wellFounded_lt)

end calls

/-! ## Termination -/

section terminates
variable {rt : Runtime} {a : Allocator}

theorem Item.In.of_object? {heap : Heap} {id : ℕ} {o : Object} {item : Item}
    (ho : heap.object? id = some o) (hitem : item ∈ o.items) : item.In heap.objects :=
  heap.closed _ (Heap.mem_of_object? ho) item hitem

/-- A call on an object returns if the calls on what it holds do, with all that has been visited,
the object among it. -/
theorem exists_returns_object {heap : Heap} {id : ℕ} {m : Memory}
    (hin : id ∈ heap.objects.map Prod.fst)
    (hpart : ∀ o, heap.object? id = some o → id ∉ m.visited → ∀ item ∈ o.items, ∀ m',
      (m.visit id).visited ⊆ m'.visited → ∃ r, Returns rt a heap item m' r) :
    ∃ r, Returns rt a heap (.object id) m r := by
  obtain ⟨o, ho⟩ : ∃ o, heap.object? id = some o := exists_lookup hin
  by_cases hid : id ∈ m.visited
  · exact ⟨_, returns_marker ho hid⟩
  have hstart : (m.visit id).visited ⊆ (m.visit id).visited := List.Subset.refl _
  have hkept : ∀ item ∈ o.items, ∀ m', (m.visit id).visited ⊆ m'.visited →
      ∃ r, Returns rt a heap item m' r ∧ (m.visit id).visited ⊆ r.2.visited := by
    intro item hitem m' hsub
    obtain ⟨r, hr⟩ := hpart o ho hid item hitem m' hsub
    exact ⟨r, hr, hr.keeps hsub⟩
  cases o with
  | other o => exact ⟨_, returns_other hid ho⟩
  | mapping entries =>
    have hentries : ∀ e ∈ entries, ∀ m', (m.visit id).visited ⊆ m'.visited → ∃ r,
        Settles (fun fuel => rt.redactEntryHeap (rt.redactHeap a fuel heap) e m') r ∧
          (m.visit id).visited ⊆ r.2.visited := by
      intro e he m' hsub
      by_cases hkey : rt.isSensitiveKey e.1
      · exact ⟨_, settles_redactEntryHeap (by rw [if_pos hkey]), hsub⟩
      · obtain ⟨r, hr, hkeeps⟩ := hkept e.2 (List.mem_map_of_mem he) m' hsub
        exact ⟨_, settles_redactEntryHeap (by rwa [if_neg hkey]), hkeeps⟩
    obtain ⟨r, hr⟩ := exists_settles_comprehend? hentries hstart
    exact ⟨_, returns_mapping hid ho hr⟩
  | seq kind items =>
    have hitems : ∀ item ∈ items.take 100, ∀ m', (m.visit id).visited ⊆ m'.visited → ∃ r,
        Settles (fun fuel => rt.redactHeap a fuel heap item m') r ∧
          (m.visit id).visited ⊆ r.2.visited :=
      fun item hitem => hkept item (List.mem_of_mem_take hitem)
    obtain ⟨r, hr⟩ := exists_settles_comprehend? hitems hstart
    exact ⟨_, returns_seq hid ho hr⟩

/-- Every call returns, by induction on the calls that it starts. -/
theorem exists_returns (c : RedactCall) (hin : c.item.In c.heap.objects) :
    ∃ r, Returns rt a c.heap c.item c.memory r := by
  induction c using (wellFounded_calls rt a).induction with
  | _ c ih =>
    obtain ⟨heap, item, m⟩ := c
    cases item with
    | scalar x => exact ⟨_, returns_scalar x⟩
    | str text =>
      cases hparse : rt.parseText text with
      | none => exact ⟨_, returns_text hparse⟩
      | some t =>
        obtain ⟨r, hr⟩ := ih _ (.parsed hparse) ((PyValue.part_item _).in_objects heap.objects)
        exact ⟨r, returns_parsed hparse hr⟩
    | object id =>
      exact exists_returns_object hin fun o ho hid item hitem m' hsub =>
        ih _ (.part ho hid hitem hsub) (.of_object? ho hitem)

/-- The calls of `redact_sensitive_data` are well-founded, and on every object graph, with cycles
and shared objects and with JSON texts nested in strings, it returns. -/
theorem redact_terminates (rt : Runtime) (a : Allocator) :
    WellFounded (Calls rt a) ∧
      ∀ graph : ObjectGraph, ∃ r, Returns rt a graph.heap graph.root .start r :=
  ⟨wellFounded_calls rt a, fun graph =>
    exists_returns ⟨graph.heap, graph.root, .start⟩ graph.root_in⟩

end terminates

end BaseWebService.Logging
