import BaseWebService.Logging.MarkedWalks
import BaseWebService.Logging.Noninterference

/-!
# Recursion markers

A marker should say that an object is inside itself. `recursion_markers_iff` says of which graphs
this is true: no object is walked twice in the unfolding, and no two JSON texts that one call of
the redactor walks are nested equally deep.
-/

namespace BaseWebService.Logging

open Library

variable {n : ℕ}

theorem mem_idsEntries {ι : Type} {entries : List (Key × PyValue ι)} {id : ι} :
    id ∈ idsEntries entries ↔ ∃ e ∈ entries, id ∈ e.2.ids := by
  induction entries with
  | nil => simp [idsEntries]
  | cons e entries ih => simp [idsEntries, ih]

theorem mem_idsItems {ι : Type} {items : List (PyValue ι)} {id : ι} :
    id ∈ idsItems items ↔ ∃ value ∈ items, id ∈ value.ids := by
  induction items with
  | nil => simp [idsItems]
  | cons value items ih => simp [idsItems, ih]

namespace Graph

variable {g : Graph n} {root r : Ref n} {path : List ℕ}

/-- The value that the root stands for. -/
def unfolded (g : Graph n) (root : Ref n) : PyValue ℕ := g.unfolding (n + 1) [] root

theorem ids_unfolding (depth : ℕ) (path : List ℕ) (r : Ref n) :
    ∀ id ∈ (g.unfolding depth path r).ids, id < n := by
  induction depth generalizing path r with
  | zero => exact fun _ h => absurd h List.not_mem_nil
  | succ depth ih =>
    cases r with
    | scalar | str => exact fun _ h => absurd h List.not_mem_nil
    | object id =>
      rw [unfolding]
      split
      · exact fun _ h => absurd h List.not_mem_nil
      · cases hnode : g.object id with
        | other o => simp [PyValue.ids]
        | mapping entries =>
          refine List.forall_mem_cons.mpr ⟨id.isLt, fun i hi => ?_⟩
          obtain ⟨e, he, hi⟩ := mem_idsEntries.mp hi
          obtain ⟨e', -, rfl⟩ := List.mem_map.mp he
          exact ih _ _ i hi
        | seq kind items =>
          refine List.forall_mem_cons.mpr ⟨id.isLt, fun i hi => ?_⟩
          obtain ⟨value, hvalue, hi⟩ := mem_idsItems.mp hi
          obtain ⟨r', -, rfl⟩ := List.mem_map.mp hvalue
          exact ih _ _ i hi

/-! ## The depth bound is never reached -/

theorem length_le_of_nodup (hnodup : path.Nodup) (hlt : ∀ id ∈ path, id < n) :
    path.length ≤ n := by
  have hsub : path ⊆ List.range n := fun id hid => List.mem_range.mpr (hlt id hid)
  simpa using (hnodup.subperm hsub).length_le

/-- No path of the unfolding holds an object twice. -/
theorem unfolding_of_le {depth depth' : ℕ} (hdepth : depth ≤ depth') (r : Ref n)
    (hnodup : path.Nodup) (hlt : ∀ id ∈ path, id < n) (hn : n < depth + path.length) :
    g.unfolding depth' path r = g.unfolding depth path r := by
  induction depth generalizing depth' path r with
  | zero =>
    have hlength := length_le_of_nodup hnodup hlt
    omega
  | succ depth ih =>
    obtain ⟨depth', rfl⟩ : ∃ k, depth' = k + 1 := ⟨depth' - 1, by omega⟩
    cases r with
    | scalar | str => rfl
    | object id =>
      rw [unfolding, unfolding]
      by_cases hid : id.val ∈ path
      · rw [if_pos hid, if_pos hid]
      rw [if_neg hid, if_neg hid]
      have hpart : ∀ r, g.unfolding depth' (id :: path) r = g.unfolding depth (id :: path) r := by
        intro r
        apply ih (Nat.le_of_succ_le_succ hdepth) r (List.nodup_cons.mpr ⟨hid, hnodup⟩)
        · exact List.forall_mem_cons.mpr ⟨id.isLt, hlt⟩
        · rw [List.length_cons]
          omega
      cases g.object id <;> simp [hpart]

section redact
variable {rt : Runtime} {a : Allocator} {live : List ℕ}

theorem redactText_keeps (s : String) (m : Memory) :
    m.visited ⊆ (rt.redactText a s.length live s m).2.visited :=
  Runtime.redactText_mono a s.length live s m

theorem redact_eq : g.redact root rt a =
    (rt.redactWith (fun text => rt.redactText a text.length (List.range n) text) (g.unfolded root)
      .start).1 :=
  congrArg Prod.fst (redactRef_eq redactText_keeps
    (fun typeName m => redactText_marker a _ _ typeName m) (n + 1) root (List.nil_subset _))

theorem redactRef_of_le {depth : ℕ} (hdepth : n < depth) :
    (g.redactRef rt (fun text => rt.redactText a text.length (List.range n) text) depth root
      .start).1 = g.redact root rt a := by
  have hunfolding : g.unfolding depth [] root = g.unfolded root :=
    unfolding_of_le hdepth root List.nodup_nil (by simp) (by simp)
  rw [redact_eq, ← hunfolding]
  exact congrArg Prod.fst (redactRef_eq redactText_keeps
    (fun typeName m => redactText_marker a _ _ typeName m) depth root (List.nil_subset _))

end redact

section serialize
variable {env : Environment} {alloc : ℕ → Allocator}

theorem serialize_eq : g.serialize root env alloc =
    (env.serializeWith alloc (g.unfolded root) .start).1 :=
  congrArg Prod.fst (serializeRef_eq (fun _ h => absurd h List.not_mem_nil) (n + 1) root
    (List.nil_subset _))

theorem serializeRef_of_le {depth : ℕ} (hdepth : n < depth) :
    (g.serializeRef env alloc depth root .start).1 = g.serialize root env alloc := by
  have hunfolding : g.unfolding depth [] root = g.unfolded root :=
    unfolding_of_le hdepth root List.nodup_nil (by simp) (by simp)
  rw [serialize_eq, ← hunfolding]
  exact congrArg Prod.fst (serializeRef_eq (fun _ h => absurd h List.not_mem_nil) depth root
    (List.nil_subset _))

end serialize

/-! ## Graphs without recursion -/

/-- The reference is reached from the root through the objects of `path`. -/
def Below (g : Graph n) (root : Ref n) (path : List ℕ) (r : Ref n) : Prop :=
  ∀ x, r = .object x → (∃ y, root = .object y ∧ Relation.ReflTransGen g.Holds y x) ∧
    ∀ p : Fin n, ↑p ∈ path → Relation.TransGen g.Holds p x

theorem below_root : g.Below root [] root :=
  fun x hx => ⟨⟨x, hx, .refl⟩, fun _ h => absurd h List.not_mem_nil⟩

theorem Below.inside {id : Fin n} (h : g.Below root path (.object id))
    (hr : r ∈ (g.object id).refs) : g.Below root (id :: path) r := by
  rintro x rfl
  obtain ⟨⟨y, hroot, hreach⟩, hpath⟩ := h id rfl
  refine ⟨⟨y, hroot, hreach.tail hr⟩, fun p hp => ?_⟩
  rcases List.mem_cons.mp hp with hp | hp
  · rw [Fin.ext hp]
    exact .single hr
  · exact (hpath p hp).tail hr

theorem Below.not_mem {id : Fin n} (h : g.Below root path (.object id)) (hg : g.Acyclic root) :
    id.val ∉ path := by
  intro hid
  obtain ⟨⟨y, hroot, hreach⟩, hpath⟩ := h id rfl
  exact hg y id hroot hreach (hpath id hid)

theorem unfolding_eq_tree (hg : g.Acyclic root) (depth : ℕ) (h : g.Below root path r) :
    g.unfolding depth path r = g.tree depth r := by
  induction depth generalizing path r with
  | zero => rfl
  | succ depth ih =>
    cases r with
    | scalar | str => rfl
    | object id =>
      have hpart : ∀ r ∈ (g.object id).refs, g.unfolding depth (id :: path) r = g.tree depth r :=
        fun r hr => ih (h.inside hr)
      rw [unfolding, tree, if_neg (h.not_mem hg)]
      cases hnode : g.object id with
      | other o => rfl
      | mapping entries =>
        simp only [PyValue.mapping.injEq, true_and]
        apply List.map_congr_left
        intro e he
        rw [hpart e.2 (by simpa [hnode, Node.refs] using ⟨e.1, he⟩)]
      | seq kind items =>
        simp only [PyValue.seq.injEq, true_and]
        apply List.map_congr_left
        intro r hr
        exact hpart r (by simpa [hnode, Node.refs] using hr)

end Graph

theorem forall_mem_collect {α β σ : Type} {f : α → σ → β × σ} {marks : α → σ → List Mark}
    {P : Mark → Prop} {xs : List α} (h : ∀ x ∈ xs, ∀ s, ∀ k ∈ marks x s, P k) (s : σ) :
    ∀ k ∈ collect f marks xs s, P k := by
  induction xs generalizing s with
  | nil => exact fun _ h => absurd h List.not_mem_nil
  | cons x xs ih =>
    obtain ⟨hx, hxs⟩ := List.forall_mem_cons.mp h
    exact List.forall_mem_append.mpr ⟨hx s, ih hxs _⟩

namespace Graph

variable {g : Graph n} {root r : Ref n} {path : List ℕ}

theorem not_recursive_mark {id : Fin n} (hg : g.Acyclic root)
    (h : g.Below root path (.object id)) : ∀ k ∈ [(⟨id, path⟩ : Mark)], ¬ k.Recursive := by
  simpa [Mark.Recursive] using h.not_mem hg

/-- Where no object is inside itself, no marker is for one that is. -/
theorem not_recursive_of_marksRef {rt : Runtime} {onText : String → Memory → Tree × Memory}
    {onMarks : List ℕ → String → Memory → List Mark} (hg : g.Acyclic root)
    (honMarks : ∀ path s m, (∀ id ∈ path, id < n) → ∀ k ∈ onMarks path s m, ¬ k.Recursive)
    (depth : ℕ) (m : Memory) (hlt : ∀ id ∈ path, id < n) (h : g.Below root path r) :
    ∀ k ∈ g.marksRef rt onText onMarks depth path r m, ¬ k.Recursive := by
  induction depth generalizing path r m with
  | zero => exact fun _ h => absurd h List.not_mem_nil
  | succ depth ih =>
    cases r with
    | scalar => exact fun _ h => absurd h List.not_mem_nil
    | str text => exact honMarks path text m hlt
    | object id =>
      have hpart : ∀ r ∈ (g.object id).refs, ∀ m,
          ∀ k ∈ g.marksRef rt onText onMarks depth (id :: path) r m, ¬ k.Recursive :=
        fun r hr m => ih m (List.forall_mem_cons.mpr ⟨id.isLt, hlt⟩) (h.inside hr)
      rw [marksRef]
      split
      · exact not_recursive_mark hg h
      · cases hnode : g.object id with
        | other o => exact fun _ h => absurd h List.not_mem_nil
        | mapping entries =>
          apply forall_mem_collect
          intro e he m
          unfold Runtime.marksEntry
          split
          · exact fun _ h => absurd h List.not_mem_nil
          · exact hpart e.2 (by simpa [hnode, Node.refs] using ⟨e.1, he⟩) m
        | seq kind items =>
          apply forall_mem_collect
          intro r hr m
          exact hpart r (by simpa [hnode, Node.refs] using List.mem_of_mem_take hr) m

theorem not_recursive_of_serializeMarksRef {env : Environment} {alloc : ℕ → Allocator}
    (hg : g.Acyclic root) (depth : ℕ) (s : Serializing) (h : g.Below root path r) :
    ∀ k ∈ g.serializeMarksRef env alloc depth path r s, ¬ k.Recursive := by
  induction depth generalizing path r s with
  | zero => exact fun _ h => absurd h List.not_mem_nil
  | succ depth ih =>
    cases r with
    | scalar | str => exact fun _ h => absurd h List.not_mem_nil
    | object id =>
      have hpart : ∀ r ∈ (g.object id).refs, ∀ s,
          ∀ k ∈ g.serializeMarksRef env alloc depth (id :: path) r s, ¬ k.Recursive :=
        fun r hr s => ih s (h.inside hr)
      rw [serializeMarksRef]
      cases hnode : g.object id with
      | other o =>
        cases o with
        | bytes => exact fun _ h => absurd h List.not_mem_nil
        | object =>
          simp only [Environment.marksOpaque]
          split
          · exact not_recursive_mark hg h
          · exact fun _ h => absurd h List.not_mem_nil
      | mapping entries =>
        simp only
        split
        · exact not_recursive_mark hg h
        · rw [List.forall_mem_append]
          refine ⟨forall_mem_collect ?_ _, Environment.not_recursive_of_marksNew⟩
          intro e he s
          exact hpart e.2 (by simpa [hnode, Node.refs] using ⟨e.1, he⟩) s
      | seq kind items =>
        simp only
        split
        · exact not_recursive_mark hg h
        · rw [List.forall_mem_append]
          refine ⟨forall_mem_collect ?_ _, Environment.not_recursive_of_marksNew⟩
          intro r hr s
          exact hpart r (by simpa [hnode, Node.refs] using hr) s

/-! ## When a marker means recursion -/

/-- A marker stands for an object inside itself, and what the code returns is the plain redaction
of the unfolding, in which exactly these objects are markers. -/
structure Faithful (g : Graph n) (root : Ref n) (marked : Tree × List Mark) (result : Tree)
    (plain : PyValue ℕ → Tree) : Prop where
  /-- The markers are those of the walk that returns the result. -/
  same : marked.1 = result
  recursive : ∀ k ∈ marked.2, k.Recursive
  shown : result = plain (g.unfolded root)
  acyclic : g.Acyclic root → marked.2 = [] ∧ result = plain (g.tree (n + 1) root)

/-- Markers of which none is stray. -/
theorem filter_eq_nil_iff_recursive {marks : List Mark} :
    marks.filter (fun k => ¬ k.Recursive) = [] ↔ ∀ k ∈ marks, k.Recursive := by
  simp [List.filter_eq_nil_iff]

section redact
variable {rt : Runtime} {a : Allocator}

theorem onMarks_stray (path : List ℕ) (s : String) (m : Memory) (hlt : ∀ id ∈ path, id < n) :
    ∀ k ∈ rt.marksText a s.length (List.range n) path s m, ¬ k.Recursive :=
  Runtime.not_recursive_of_marksText s.length (List.range n) path s m
    fun id hid => List.mem_range.mpr (hlt id hid)

theorem filter_redactMarks : (g.redactMarks root rt a).filter (fun k => ¬ k.Recursive) =
    rt.marks a (List.range n) (g.unfolded root) :=
  filter_marksRef redactText_keeps (fun typeName m => redactText_marker a _ _ typeName m)
    onMarks_stray (fun path typeName m => marksText_marker a _ _ path typeName m) (n + 1) root
    (List.nil_subset _) fun _ h => absurd h List.not_mem_nil

/-- The bound on the depth of calls hides no stray marker. -/
theorem stray_marksRef_of_le {depth : ℕ} (hdepth : n < depth) :
    (g.marksRef rt (fun text => rt.redactText a text.length (List.range n) text)
        (fun path text => rt.marksText a text.length (List.range n) path text) depth [] root
        .start).filter (fun k => ¬ k.Recursive) =
      (g.redactMarks root rt a).filter (fun k => ¬ k.Recursive) := by
  have hunfolding : g.unfolding depth [] root = g.unfolded root :=
    unfolding_of_le hdepth root List.nodup_nil (by simp) (by simp)
  rw [filter_redactMarks, ← hunfolding]
  exact filter_marksRef redactText_keeps (fun typeName m => redactText_marker a _ _ typeName m)
    onMarks_stray (fun path typeName m => marksText_marker a _ _ path typeName m) depth root
    (List.nil_subset _) fun _ h => absurd h List.not_mem_nil

theorem redact_faithful (hmarks : rt.marks a (List.range n) (g.unfolded root) = []) :
    g.Faithful root (g.redactMarked root rt a) (g.redact root rt a)
      (fun v => rt.plain (rt.unfold v)) := by
  have hrecursive : ∀ k ∈ g.redactMarks root rt a, k.Recursive :=
    filter_eq_nil_iff_recursive.mp (filter_redactMarks.trans hmarks)
  have hshown : g.redact root rt a = rt.plain (rt.unfold (g.unfolded root)) :=
    redact_eq.trans (Runtime.plain_of_marks hmarks)
  rw [redactMarked_eq]
  refine ⟨rfl, hrecursive, hshown, fun hg => ⟨?_, ?_⟩⟩
  · have hstray : ∀ k ∈ g.redactMarks root rt a, ¬ k.Recursive :=
      not_recursive_of_marksRef hg onMarks_stray (n + 1) .start
        (fun _ h => absurd h List.not_mem_nil) below_root
    exact List.eq_nil_iff_forall_not_mem.mpr fun k hk => hstray k hk (hrecursive k hk)
  · rw [hshown, ← unfolding_eq_tree hg (n + 1) below_root]
    rfl

theorem redact_faithful_iff :
    (∀ a, g.Faithful root (g.redactMarked root rt a) (g.redact root rt a)
      (fun v => rt.plain (rt.unfold v))) ↔
    (rt.walked (g.unfolded root)).Nodup ∧ (rt.depths (rt.unfold (g.unfolded root))).Nodup := by
  constructor
  · intro h
    have hrecursive := (h .stack).recursive
    rw [redactMarked_eq] at hrecursive
    have hmarks : rt.marks .stack (List.range n) (g.unfolded root) = [] :=
      filter_redactMarks.symm.trans (filter_eq_nil_iff_recursive.mpr hrecursive)
    exact Runtime.of_marks_eq_nil hmarks
  · rintro ⟨hwalked, hdepths⟩ a
    apply redact_faithful
    apply Runtime.marks_eq_nil _ hwalked hdepths
    intro id hid
    exact List.mem_range.mpr (ids_unfolding _ _ _ id ((walked_sublist _).subset hid))

end redact

section serialize
variable {env : Environment} {alloc : ℕ → Allocator}

theorem filter_serializeMarks : (g.serializeMarks root env alloc).filter (fun k => ¬ k.Recursive) =
    env.serializeMarks alloc [] (g.unfolded root) .start :=
  filter_serializeMarksRef (fun _ h => absurd h List.not_mem_nil) (n + 1) root (List.nil_subset _)

theorem stray_serializeMarksRef_of_le {depth : ℕ} (hdepth : n < depth) :
    (g.serializeMarksRef env alloc depth [] root .start).filter (fun k => ¬ k.Recursive) =
      (g.serializeMarks root env alloc).filter (fun k => ¬ k.Recursive) := by
  have hunfolding : g.unfolding depth [] root = g.unfolded root :=
    unfolding_of_le hdepth root List.nodup_nil (by simp) (by simp)
  rw [filter_serializeMarks, ← hunfolding]
  exact filter_serializeMarksRef (fun _ h => absurd h List.not_mem_nil) depth root
    (List.nil_subset _)

theorem serialize_faithful (hmarks : env.serializeMarks alloc [] (g.unfolded root) .start = []) :
    g.Faithful root (g.serializeMarked root env alloc) (g.serialize root env alloc)
      env.plainSerialize := by
  have hrecursive : ∀ k ∈ g.serializeMarks root env alloc, k.Recursive :=
    filter_eq_nil_iff_recursive.mp (filter_serializeMarks.trans hmarks)
  have hshown : g.serialize root env alloc = env.plainSerialize (g.unfolded root) :=
    serialize_eq.trans (Environment.plain_of_serializeMarks _ [] .start hmarks)
  rw [serializeMarked_eq]
  refine ⟨rfl, hrecursive, hshown, fun hg => ⟨?_, ?_⟩⟩
  · have hstray : ∀ k ∈ g.serializeMarks root env alloc, ¬ k.Recursive :=
      not_recursive_of_serializeMarksRef hg (n + 1) .start below_root
    exact List.eq_nil_iff_forall_not_mem.mpr fun k hk => hstray k hk (hrecursive k hk)
  · rw [hshown, ← unfolding_eq_tree hg (n + 1) below_root]
    rfl

theorem serialize_faithful_iff (hredacted : env.parseText redacted = none) :
    (∀ alloc, g.Faithful root (g.serializeMarked root env alloc) (g.serialize root env alloc)
      env.plainSerialize) ↔
    (g.unfolded root).tracked.Nodup ∧ ∀ ds ∈ env.callDepths (g.unfolded root), ds.Nodup := by
  constructor
  · intro h
    have hrecursive := (h fun _ => .stack).recursive
    rw [serializeMarked_eq] at hrecursive
    have hmarks : env.serializeMarks (fun _ => .stack) [] (g.unfolded root) .start = [] :=
      filter_serializeMarks.symm.trans (filter_eq_nil_iff_recursive.mpr hrecursive)
    obtain ⟨hall, hcalls⟩ := Environment.allNew_of_serializeMarks hredacted _ [] .start hmarks
    exact ⟨hall.nodup, hcalls⟩
  · rintro ⟨htracked, hcalls⟩ alloc
    apply serialize_faithful
    apply Environment.serializeMarks_eq_nil hredacted _ [] .start _ hcalls
    exact ⟨htracked, fun _ _ h => absurd h List.not_mem_nil⟩

end serialize

/-- The markers of both functions mean recursion, whatever identities the interpreter reuses,
exactly if the call comes to no object twice, apart from objects inside themselves, and no two of
the JSON texts that one call of the redactor walks are nested equally deep. -/
theorem recursion_markers_iff {env : Environment} (hredacted : env.loads redacted = none)
    (g : Graph n) (root : Ref n) :
    ((∀ a, g.Faithful root (g.redactMarked root env.toRuntime a) (g.redact root env.toRuntime a)
        (fun v => env.plain (env.unfold v))) ↔
      (env.walked (g.unfolded root)).Nodup ∧ (env.depths (env.unfold (g.unfolded root))).Nodup) ∧
    ((∀ alloc, g.Faithful root (g.serializeMarked root env alloc) (g.serialize root env alloc)
        env.plainSerialize) ↔
      (g.unfolded root).tracked.Nodup ∧ ∀ ds ∈ env.callDepths (g.unfolded root), ds.Nodup) := by
  refine ⟨redact_faithful_iff, serialize_faithful_iff ?_⟩
  have hstrip : pyStrip redacted = redacted := by decide
  simp [Runtime.parseText, hstrip, hredacted]

end Graph

/-! ## Graphs with and without recursion -/

/-- A dictionary inside itself. -/
def selfContaining : Graph 1 where
  object _ := .mapping [(.str "recursive", .object 0)]

/-- Its markers mean recursion. -/
theorem recursion_markers_iff_selfContaining :
    (∀ a, selfContaining.Faithful (.object 0)
      (selfContaining.redactMarked (.object 0) sampleEnvironment.toRuntime a)
      (selfContaining.redact (.object 0) sampleEnvironment.toRuntime a)
      (fun v => sampleEnvironment.plain (sampleEnvironment.unfold v))) ∧
    ∀ alloc, selfContaining.Faithful (.object 0)
      (selfContaining.serializeMarked (.object 0) sampleEnvironment alloc)
      (selfContaining.serialize (.object 0) sampleEnvironment alloc)
      sampleEnvironment.plainSerialize := by
  have hredacted : sampleEnvironment.loads redacted = none := by decide
  obtain ⟨hredact, hserialize⟩ :=
    Graph.recursion_markers_iff hredacted selfContaining (.object 0)
  exact ⟨hredact.mpr (by decide), hserialize.mpr (by decide)⟩

/-- A list that holds one dictionary twice. -/
def sharedPair : Graph 2 where
  object
    | 0 => .seq .list [.object 1, .object 1]
    | 1 => .mapping []

theorem sharedPair_acyclic : sharedPair.Acyclic (.object 0) := by
  have hholds : ∀ x y, sharedPair.Holds x y → x = 0 ∧ y = 1 := by
    intro x y h
    match x, h with
    | 0, h => exact ⟨rfl, by simpa [Graph.Holds, sharedPair, Node.refs] using h⟩
    | 1, h => simp [Graph.Holds, sharedPair, Node.refs] at h
  intro r x _ _ hcycle
  obtain ⟨y, hxy, -⟩ := Relation.TransGen.head'_iff.mp hcycle
  obtain ⟨z, -, hzx⟩ := Relation.TransGen.tail'_iff.mp hcycle
  exact absurd ((hholds x y hxy).1.symm.trans (hholds z x hzx).2) (by decide)

/-- A list of two JSON texts. -/
def twoTexts : Graph 1 where
  object _ := .seq .list [.str textOfDicts, .str textOfZero]

theorem twoTexts_acyclic : twoTexts.Acyclic (.object 0) := by
  intro r x _ _ hcycle
  obtain ⟨y, hxy, -⟩ := Relation.TransGen.head'_iff.mp hcycle
  simp [Graph.Holds, twoTexts, Node.refs] at hxy

/-- The dictionary is marked where it stands for the second time, by both functions, and the
dictionaries of the second text are marked where they get the identities that those of the first
have left. -/
theorem shared_object_marked :
    (sharedPair.redact (.object 0) sampleEnvironment.toRuntime .neverReuse =
        .seq .list () [.mapping () [], recursive "dict"] ∧
      ¬ sharedPair.Faithful (.object 0)
        (sharedPair.redactMarked (.object 0) sampleEnvironment.toRuntime .neverReuse)
        (sharedPair.redact (.object 0) sampleEnvironment.toRuntime .neverReuse)
        (fun v => sampleEnvironment.plain (sampleEnvironment.unfold v))) ∧
    (sharedPair.serialize (.object 0) sampleEnvironment (fun _ => .neverReuse) =
        .seq .list () [.mapping () [], recursive "dict"] ∧
      ¬ sharedPair.Faithful (.object 0)
        (sharedPair.serializeMarked (.object 0) sampleEnvironment fun _ => .neverReuse)
        (sharedPair.serialize (.object 0) sampleEnvironment fun _ => .neverReuse)
        sampleEnvironment.plainSerialize) ∧
    twoTexts.redact (.object 0) tokenRuntime freeLists =
        .seq .list () [.mapping () [(.str "a", .mapping () [(.str "q", .mapping () [])])],
          .seq .list () [recursive "dict", recursive "dict"]] ∧
      ¬ twoTexts.Faithful (.object 0) (twoTexts.redactMarked (.object 0) tokenRuntime freeLists)
        (twoTexts.redact (.object 0) tokenRuntime freeLists)
        (fun v => tokenRuntime.plain (tokenRuntime.unfold v)) := by
  refine ⟨⟨rfl, fun h => ?_⟩, ⟨rfl, fun h => ?_⟩, rfl, fun h => ?_⟩
  · exact absurd (h.acyclic sharedPair_acyclic).1 (by decide)
  · exact absurd (h.acyclic sharedPair_acyclic).1 (by decide)
  · exact absurd (h.acyclic twoTexts_acyclic).1 (by decide)

end BaseWebService.Logging
