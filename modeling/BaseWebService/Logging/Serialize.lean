import BaseWebService.Logging.Markers
import BaseWebService.Logging.RequestLog

/-!
# The log record of a container

The branches of `serialize_for_log` in `core/infra/system_log/tools.py` for plain values and
containers. It has a `_visited` of its own; what it builds for a container is handed to a call of
`redact_sensitive_data`, and then truncated.
-/

namespace BaseWebService.Logging

open Library

/-- What `serialize_for_log` leaves behind while it runs: `_visited`, and how many times it has
called the redactor. -/
structure Serializing where
  visited : List ℕ
  calls : ℕ

namespace Serializing

def start : Serializing := ⟨[], 0⟩

def visit (s : Serializing) (id : ℕ) : Serializing := { s with visited := id :: s.visited }

def call (s : Serializing) : Serializing := { s with calls := s.calls + 1 }

end Serializing

namespace Environment

variable (env : Environment)

/-- The markers of `redactNew`. -/
def marksNew (a : Allocator) (t : Tree) : List Mark :=
  env.marks a (a.build .start [] t).ids (a.build .start [] t)

section walk
variable (alloc : ℕ → Allocator)

/-- What is done with the container that was built; each call of the redactor meets the interpreter
in a state of its own. -/
def logContainer (t : Tree) (s : Serializing) : Tree × Serializing :=
  (env.truncateLogValue (env.redactNew (alloc s.calls) t), s.call)

/-- An object that is no container. -/
def serializeOpaque (id : ℕ) (o : Opaque) (s : Serializing) : Tree × Serializing :=
  match o with
  | .bytes data => (sizeMarker data false, s)
  | .object typeName text =>
    if id ∈ s.visited then (recursive typeName, s) else (.str text, s.visit id)

mutual

/-- `serialize_for_log(value, _visited)`. -/
def serializeWith : PyValue ℕ → Serializing → Tree × Serializing
  | .scalar x, s => (.scalar x, s)
  | .str text, s => (.str text, s)
  | .other id o, s => serializeOpaque id o s
  | .mapping id entries, s =>
    if id ∈ s.visited then (recursive "dict", s)
    else
      let r := serializeEntries entries (s.visit id)
      env.logContainer alloc (.mapping () (pyDict r.1)) r.2
  | .seq kind id items, s =>
    if id ∈ s.visited then (recursive kind.typeName, s)
    else
      let r := serializeItems items (s.visit id)
      env.logContainer alloc (.seq .list () r.1) r.2

def serializeEntries : List (Key × PyValue ℕ) → Serializing → List (Key × Tree) × Serializing
  | [], s => ([], s)
  | (key, value) :: entries, s =>
    let r := serializeWith value s
    let rs := serializeEntries entries r.2
    ((.str key.text, r.1) :: rs.1, rs.2)

def serializeItems : List (PyValue ℕ) → Serializing → List Tree × Serializing
  | [], s => ([], s)
  | value :: items, s =>
    let r := serializeWith value s
    let rs := serializeItems items r.2
    (r.1 :: rs.1, rs.2)

end

def marksOpaque (path : List ℕ) (id : ℕ) (o : Opaque) (s : Serializing) : List Mark :=
  match o with
  | .bytes _ => []
  | .object _ _ => if id ∈ s.visited then [⟨id, path⟩] else []

mutual

/-- The markers of `serializeWith`, those of its calls of the redactor included. -/
def serializeMarks (path : List ℕ) : PyValue ℕ → Serializing → List Mark
  | .scalar _, _ => []
  | .str _, _ => []
  | .other id o, s => marksOpaque path id o s
  | .mapping id entries, s =>
    if id ∈ s.visited then [⟨id, path⟩]
    else
      let r := serializeEntries env alloc entries (s.visit id)
      serializeMarksEntries (id :: path) entries (s.visit id) ++
        env.marksNew (alloc r.2.calls) (.mapping () (pyDict r.1))
  | .seq _ id items, s =>
    if id ∈ s.visited then [⟨id, path⟩]
    else
      let r := serializeItems env alloc items (s.visit id)
      serializeMarksItems (id :: path) items (s.visit id) ++
        env.marksNew (alloc r.2.calls) (.seq .list () r.1)

def serializeMarksEntries (path : List ℕ) : List (Key × PyValue ℕ) → Serializing → List Mark
  | [], _ => []
  | (_, value) :: entries, s =>
    serializeMarks path value s ++
      serializeMarksEntries path entries (serializeWith env alloc value s).2

def serializeMarksItems (path : List ℕ) : List (PyValue ℕ) → Serializing → List Mark
  | [], _ => []
  | value :: items, s =>
    serializeMarks path value s ++
      serializeMarksItems path items (serializeWith env alloc value s).2

end

end walk

variable {ι : Type}

mutual

/-- The record of a value when no object is met twice. -/
def plainSerialize : PyValue ι → Tree
  | .scalar x => .scalar x
  | .str text => .str text
  | .other _ (.bytes data) => sizeMarker data false
  | .other _ (.object _ text) => .str text
  | .mapping _ entries => env.truncateLogValue
      (env.plain (env.unfold (.mapping () (pyDict (plainSerializeEntries entries)) : Tree)))
  | .seq _ _ items => env.truncateLogValue
      (env.plain (env.unfold (.seq .list () (plainSerializeItems items) : Tree)))

def plainSerializeEntries : List (Key × PyValue ι) → List (Key × Tree)
  | [] => []
  | (key, value) :: entries =>
    (.str key.text, plainSerialize value) :: plainSerializeEntries entries

def plainSerializeItems : List (PyValue ι) → List Tree
  | [] => []
  | value :: items => plainSerialize value :: plainSerializeItems items

end

/-- What the redactor sees of a part of a container: a text as it was, and nothing it would parse
in any other part. -/
def shallow : PyValue ι → Doc
  | .str text => env.unfoldText text.length text
  | .other _ (.object _ text) => env.unfoldText text.length text
  | _ => .scalar .none

def shallowEntry (e : Key × PyValue ι) : Key × Doc := (.str e.1.text, env.shallow e.2)

mutual

/-- For each call of the redactor, how deep the JSON texts it walks are nested. -/
def callDepths : PyValue ι → List (List ℕ)
  | .scalar _ => []
  | .str _ => []
  | .other _ _ => []
  | .mapping _ entries => callDepthsEntries entries ++
      [env.depths (.mapping (pyDict (entries.map env.shallowEntry)))]
  | .seq _ _ items => callDepthsItems items ++ [env.depths (.seq .list (items.map env.shallow))]

def callDepthsEntries : List (Key × PyValue ι) → List (List ℕ)
  | [] => []
  | (_, value) :: entries => callDepths value ++ callDepthsEntries entries

def callDepthsItems : List (PyValue ι) → List (List ℕ)
  | [] => []
  | value :: items => callDepths value ++ callDepthsItems items

end

end Environment

mutual

/-- The identities that `serialize_for_log` looks up, once for each occurrence. -/
def PyValue.tracked : PyValue ℕ → List ℕ
  | .scalar _ => []
  | .str _ => []
  | .other _ (.bytes _) => []
  | .other id (.object _ _) => [id]
  | .mapping id entries => id :: trackedEntries entries
  | .seq _ id items => id :: trackedItems items

def trackedEntries : List (Key × PyValue ℕ) → List ℕ
  | [] => []
  | (_, value) :: entries => value.tracked ++ trackedEntries entries

def trackedItems : List (PyValue ℕ) → List ℕ
  | [] => []
  | value :: items => value.tracked ++ trackedItems items

end

namespace Environment

variable {env : Environment} {ι : Type}

/-! ## Nothing is left to parse -/

/-- No string in the value holds JSON. -/
def Quiet (env : Environment) (t : Tree) : Prop := ∀ s ∈ t.strings, env.parseText s = none

theorem mem_stringsEntries {entries : List (Key × PyValue ι)} {s : String} :
    s ∈ stringsEntries entries ↔ ∃ e ∈ entries, s ∈ e.2.strings := by
  induction entries with
  | nil => simp [stringsEntries]
  | cons e entries ih => simp [stringsEntries, ih]

theorem mem_stringsItems {items : List (PyValue ι)} {s : String} :
    s ∈ stringsItems items ↔ ∃ value ∈ items, s ∈ value.strings := by
  induction items with
  | nil => simp [stringsItems]
  | cons value items ih => simp [stringsItems, ih]

mutual

theorem depths_of_quiet : ∀ t : Tree, env.Quiet t → env.depths (env.unfold t) = []
  | .scalar _, _ => rfl
  | .str text, h => by
    have hnone : env.parseText text = none := h text (by simp [PyValue.strings])
    simp [Runtime.unfold, unfoldWith, Runtime.unfoldText_of_none hnone, Runtime.depths]
  | .other _ _, _ => rfl
  | .mapping _ entries, h => depthsEntries_of_quiet entries h
  | .seq _ _ items, h => depthsItems_of_quiet 100 items h

theorem depthsEntries_of_quiet : ∀ entries : List (Key × Tree),
    (∀ s ∈ stringsEntries entries, env.parseText s = none) →
    env.depthsEntries (unfoldEntries (fun text => env.unfoldText text.length text) entries) = []
  | [], _ => rfl
  | (key, value) :: entries, h => by
    simp only [stringsEntries, List.forall_mem_append] at h
    have hvalue := depths_of_quiet value h.1
    have hentries := depthsEntries_of_quiet entries h.2
    rw [Runtime.unfold] at hvalue
    simp [unfoldEntries, Runtime.depthsEntries, hvalue, hentries]

theorem depthsItems_of_quiet : ∀ (limit : ℕ) (items : List Tree),
    (∀ s ∈ stringsItems items, env.parseText s = none) →
    env.depthsItems limit (unfoldItems (fun text => env.unfoldText text.length text) items) = []
  | _, [], _ => rfl
  | 0, _ :: _, _ => rfl
  | limit + 1, value :: items, h => by
    simp only [stringsItems, List.forall_mem_append] at h
    have hvalue := depths_of_quiet value h.1
    have hitems := depthsItems_of_quiet limit items h.2
    rw [Runtime.unfold] at hvalue
    simp [unfoldItems, Runtime.depthsItems, hvalue, hitems]

end

section plain
variable (hredacted : env.parseText redacted = none) {onText : String → Doc}
include hredacted

mutual

theorem quiet_plain_unfoldWith : ∀ v : PyValue ι,
    (∀ s ∈ v.strings, env.Quiet (env.plain (onText s))) →
    env.Quiet (env.plain (unfoldWith onText v))
  | .scalar _, _ => by simp [Quiet, unfoldWith, Runtime.plain, PyValue.strings]
  | .str text, h => h text (by simp [PyValue.strings])
  | .other _ _, _ => by simp [Quiet, unfoldWith, Runtime.plain, PyValue.strings]
  | .mapping _ entries, h => by
    intro s hs
    obtain ⟨e, he, hs⟩ := mem_stringsEntries.mp hs
    exact quiet_plainEntries entries h e (mem_of_mem_pyDict he) s hs
  | .seq _ _ items, h => by
    intro s hs
    obtain ⟨value, hvalue, hs⟩ := mem_stringsItems.mp hs
    exact quiet_plainItems 100 items h value hvalue s hs

theorem quiet_plainEntries : ∀ entries : List (Key × PyValue ι),
    (∀ s ∈ stringsEntries entries, env.Quiet (env.plain (onText s))) →
    ∀ e ∈ env.plainEntries (unfoldEntries onText entries), env.Quiet e.2
  | [], _ => fun _ h => absurd h List.not_mem_nil
  | (key, value) :: entries, h => by
    simp only [stringsEntries, List.forall_mem_append] at h
    intro e he
    rcases List.mem_cons.mp he with rfl | he
    · cases env.isSensitiveKey key with
      | true => simpa [Quiet, PyValue.strings] using hredacted
      | false => exact quiet_plain_unfoldWith value h.1
    · exact quiet_plainEntries entries h.2 e he

theorem quiet_plainItems : ∀ (limit : ℕ) (items : List (PyValue ι)),
    (∀ s ∈ stringsItems items, env.Quiet (env.plain (onText s))) →
    ∀ t ∈ env.plainItems limit (unfoldItems onText items), env.Quiet t
  | _, [], _ => fun _ h => absurd h List.not_mem_nil
  | 0, _ :: _, _ => fun _ h => absurd h List.not_mem_nil
  | limit + 1, value :: items, h => by
    simp only [stringsItems, List.forall_mem_append] at h
    intro t ht
    rcases List.mem_cons.mp ht with rfl | ht
    · exact quiet_plain_unfoldWith value h.1
    · exact quiet_plainItems limit items h.2 t ht

end

/-- A text is redacted to what holds no JSON text, by induction on its length. -/
theorem quiet_plain_unfoldText (text : String) :
    env.Quiet (env.plain (env.unfoldText text.length text)) := by
  induction hn : text.length using Nat.strong_induction_on generalizing text with
  | _ n ih =>
    subst hn
    cases hparse : env.parseText text with
    | none =>
      rw [Runtime.unfoldText_of_none hparse]
      simpa [Quiet, Runtime.plain, PyValue.strings] using hparse
    | some t =>
      rw [Runtime.unfoldText_of_parse hparse]
      apply quiet_plain_unfoldWith hredacted t
      intro s hs
      exact ih s.length (Runtime.parseText_shorter hparse s hs) s rfl

theorem quiet_plain (v : PyValue ι) : env.Quiet (env.plain (env.unfold v)) :=
  quiet_plain_unfoldWith hredacted v fun s _ => quiet_plain_unfoldText hredacted s

end plain

/-- A text that does not begin like a JSON object or array. -/
theorem parseText_of_start {text : String} (h : startsJson (pyStrip text) = false) :
    env.parseText text = none := by
  simp [Runtime.parseText, h]

theorem quiet_sizeMarker (data : List UInt8) : env.Quiet (sizeMarker data false) := by
  have hbytes : env.parseText "bytes" = none := parseText_of_start (by decide)
  simpa [Quiet, sizeMarker, PyValue.strings, stringsEntries] using hbytes

/-- Truncation of a container puts no JSON text in. -/
theorem quiet_truncateLogValue {t : Tree} (ht : t.IsContainer) (h : env.Quiet t) :
    env.Quiet (env.truncateLogValue t) := by
  match t with
  | .mapping _ entries =>
    have hcut : ∀ text, startsJson (pyStrip text) = false → env.Quiet (.mapping ()
        [(.str "type", .str text), (.str "truncated", .scalar (.bool true))]) := by
      intro text htext
      simpa [Quiet, PyValue.strings, stringsEntries] using parseText_of_start htext
    simp only [truncateLogValue]
    split
    · split
      · exact hcut "object" (by decide)
      · exact h
    · exact hcut "dict" (by decide)
  | .seq .list _ items =>
    simp only [truncateLogValue]
    split
    · intro s hs
      obtain ⟨value, hvalue, hs⟩ := mem_stringsItems.mp hs
      rcases List.mem_append.mp hvalue with hvalue | hvalue
      · exact h s (mem_stringsItems.mpr ⟨value, List.mem_of_mem_take hvalue, hs⟩)
      · obtain rfl := List.mem_singleton.mp hvalue
        obtain rfl := List.mem_singleton.mp hs
        exact parseText_of_start (by decide)
    · exact h

/-! ## What each call of the redactor walks -/

theorem unfoldEntries_eq_map (onText : String → Doc) (entries : List (Key × PyValue ι)) :
    unfoldEntries onText entries = entries.map fun e => (e.1, unfoldWith onText e.2) := by
  induction entries with
  | nil => rfl
  | cons e entries ih => rw [unfoldEntries, ih, List.map_cons]

theorem unfoldItems_eq_map (onText : String → Doc) (items : List (PyValue ι)) :
    unfoldItems onText items = items.map (unfoldWith onText) := by
  induction items with
  | nil => rfl
  | cons value items ih => rw [unfoldItems, ih, List.map_cons]

theorem plainSerializeEntries_eq_map (entries : List (Key × PyValue ι)) :
    env.plainSerializeEntries entries =
      entries.map fun e => (Key.str e.1.text, env.plainSerialize e.2) := by
  induction entries with
  | nil => rfl
  | cons e entries ih => rw [plainSerializeEntries, ih, List.map_cons]

theorem plainSerializeItems_eq_map (items : List (PyValue ι)) :
    env.plainSerializeItems items = items.map env.plainSerialize := by
  induction items with
  | nil => rfl
  | cons value items ih => rw [plainSerializeItems, ih, List.map_cons]

/-- The depths in a mapping, of the depths in its values. -/
theorem depthsEntries_eq (entries : List (Key × Doc)) :
    env.depthsEntries entries = (entries.map fun e => (e.1, env.depths e.2)).flatMap
      fun e => if env.isSensitiveKey e.1 then [] else e.2 := by
  induction entries with
  | nil => rfl
  | cons e entries ih => rw [Runtime.depthsEntries, ih, List.map_cons, List.flatMap_cons]

theorem depthsItems_congr {docs docs' : List Doc} (limit : ℕ)
    (h : docs.map env.depths = docs'.map env.depths) :
    env.depthsItems limit docs = env.depthsItems limit docs' := by
  induction docs generalizing docs' limit with
  | nil =>
    obtain rfl : docs' = [] := by simpa using h.symm
    rfl
  | cons d docs ih =>
    cases docs' with
    | nil => cases h
    | cons d' docs' =>
      obtain ⟨hd, hdocs⟩ := List.cons.inj h
      cases limit with
      | zero => rfl
      | succ limit => rw [Runtime.depthsItems, Runtime.depthsItems, hd, ih limit hdocs]

section redacted
variable (hredacted : env.parseText redacted = none)
include hredacted

/-- What is left of a part of a container has the JSON texts of its own text. -/
theorem depths_plainSerialize (v : PyValue ι) :
    env.depths (env.unfold (env.plainSerialize v)) = env.depths (env.shallow v) := by
  cases v with
  | scalar | str => rfl
  | other id o =>
    cases o with
    | bytes data => exact depths_of_quiet _ (quiet_sizeMarker data)
    | object => rfl
  | mapping | seq =>
    apply depths_of_quiet
    rw [plainSerialize]
    apply quiet_truncateLogValue
    · trivial
    · exact quiet_plain hredacted _

theorem depths_mapping_eq (entries : List (Key × PyValue ι)) :
    env.depths (env.unfold (.mapping () (pyDict (env.plainSerializeEntries entries)) : Tree)) =
      env.depths (.mapping (pyDict (entries.map env.shallowEntry))) := by
  have hparts : (env.plainSerializeEntries entries).map (fun e =>
        (e.1, env.depths (env.unfold e.2))) =
      (entries.map env.shallowEntry).map fun e => (e.1, env.depths e.2) := by
    rw [plainSerializeEntries_eq_map, List.map_map, List.map_map]
    apply List.map_congr_left
    intro e _
    exact congrArg (Prod.mk (Key.str e.1.text)) (depths_plainSerialize hredacted e.2)
  calc env.depths (env.unfold (.mapping () (pyDict (env.plainSerializeEntries entries)) : Tree))
      = (pyDict ((env.plainSerializeEntries entries).map fun e =>
          (e.1, env.depths (env.unfold e.2)))).flatMap
            fun e => if env.isSensitiveKey e.1 then [] else e.2 := by
        rw [Runtime.unfold, unfoldWith, Runtime.depths, depthsEntries_eq, unfoldEntries_eq_map,
          List.map_map, ← map_pyDict fun t => env.depths (env.unfold t)]
        rfl
    _ = env.depths (.mapping (pyDict (entries.map env.shallowEntry))) := by
        rw [hparts, ← map_pyDict, Runtime.depths, depthsEntries_eq]

theorem depths_seq_eq (items : List (PyValue ι)) :
    env.depths (env.unfold (.seq .list () (env.plainSerializeItems items) : Tree)) =
      env.depths (.seq .list (items.map env.shallow)) := by
  rw [Runtime.unfold, unfoldWith, Runtime.depths, Runtime.depths, unfoldItems_eq_map,
    plainSerializeItems_eq_map]
  apply depthsItems_congr
  rw [List.map_map, List.map_map, List.map_map]
  apply List.map_congr_left
  intro value _
  exact depths_plainSerialize hredacted value

end redacted

/-! ## Without markers -/

theorem marksNew_eq_nil {a : Allocator} {t : Tree} (h : (env.depths (env.unfold t)).Nodup) :
    env.marksNew a t = [] := by
  have hids : (a.build .start [] t).ids.Nodup := a.unshared_build .start [] t
  apply Runtime.marks_eq_nil
  · exact fun id hid => (walked_sublist _).subset hid
  · exact hids.sublist (walked_sublist _)
  · rwa [unfold_new]

theorem of_marksNew {t : Tree} (h : env.marksNew .stack t = []) :
    (env.depths (env.unfold t)).Nodup := by
  have hdepths := (Runtime.of_marks_eq_nil h).2
  rwa [unfold_new] at hdepths

theorem redactNew_of_marksNew {a : Allocator} {t : Tree} (h : env.marksNew a t = []) :
    env.redactNew a t = env.plain (env.unfold t) := by
  have hplain := Runtime.plain_of_marks h
  rwa [unfold_new] at hplain

/-- A walk adds objects to `_visited`, and only some of these. -/
def Adds (ids seen seen' : List ℕ) : Prop := ∃ new, new ⊆ ids ∧ seen' = new ++ seen

theorem Adds.refl (ids seen : List ℕ) : Adds ids seen seen := ⟨[], List.nil_subset _, rfl⟩

theorem Adds.cons {id : ℕ} {ids seen seen' : List ℕ} (h : Adds ids (id :: seen) seen') :
    Adds (id :: ids) seen seen' := by
  obtain ⟨new, hnew, rfl⟩ := h
  refine ⟨new ++ [id], ?_, by simp⟩
  apply List.append_subset.mpr
  exact ⟨List.subset_cons_of_subset _ hnew, by simp⟩

theorem Adds.append {ids ids' seen seen' seen'' : List ℕ} (h : Adds ids seen seen')
    (h' : Adds ids' seen' seen'') : Adds (ids ++ ids') seen seen'' := by
  obtain ⟨new, hnew, rfl⟩ := h
  obtain ⟨new', hnew', rfl⟩ := h'
  refine ⟨new' ++ new, ?_, by simp⟩
  apply List.append_subset.mpr
  exact ⟨List.subset_append_of_subset_right _ hnew', List.subset_append_of_subset_left _ hnew⟩

/-- Objects that are all different, and none of them met. -/
structure Unmet (ids seen : List ℕ) : Prop where
  nodup : ids.Nodup
  unseen : ∀ id ∈ ids, id ∉ seen

namespace Unmet

variable {id : ℕ} {ids ids' seen seen' : List ℕ}

theorem not_seen (h : Unmet (id :: ids) seen) : id ∉ seen := h.unseen id List.mem_cons_self

theorem inside (h : Unmet (id :: ids) seen) : Unmet ids (id :: seen) where
  nodup := h.nodup.of_cons
  unseen := by
    intro i hi hseen
    rcases List.mem_cons.mp hseen with rfl | hseen
    · exact (List.nodup_cons.mp h.nodup).1 hi
    · exact h.unseen i (List.mem_cons_of_mem _ hi) hseen

theorem left (h : Unmet (ids ++ ids') seen) : Unmet ids seen :=
  ⟨h.nodup.of_append_left, fun id hid => h.unseen id (List.mem_append_left _ hid)⟩

theorem right (h : Unmet (ids ++ ids') seen) (hadds : Adds ids seen seen') :
    Unmet ids' seen' where
  nodup := h.nodup.of_append_right
  unseen := by
    intro id hid hseen
    obtain ⟨new, hnew, rfl⟩ := hadds
    rcases List.mem_append.mp hseen with hmem | hseen
    · exact List.disjoint_of_nodup_append h.nodup (hnew hmem) hid
    · exact h.unseen id (List.mem_append_right _ hid) hseen

end Unmet

section walk
variable {alloc : ℕ → Allocator} {s : Serializing} {id : ℕ} {path : List ℕ}

theorem serializeWith_mapping (entries : List (Key × PyValue ℕ)) (h : id ∉ s.visited) :
    env.serializeWith alloc (.mapping id entries) s =
      env.logContainer alloc (.mapping () (pyDict (env.serializeEntries alloc entries
        (s.visit id)).1)) (env.serializeEntries alloc entries (s.visit id)).2 := if_neg h

theorem serializeWith_seq (kind : SeqKind) (items : List (PyValue ℕ)) (h : id ∉ s.visited) :
    env.serializeWith alloc (.seq kind id items) s =
      env.logContainer alloc (.seq .list () (env.serializeItems alloc items (s.visit id)).1)
        (env.serializeItems alloc items (s.visit id)).2 := if_neg h

theorem serializeMarks_mapping (entries : List (Key × PyValue ℕ)) (h : id ∉ s.visited) :
    env.serializeMarks alloc path (.mapping id entries) s =
      env.serializeMarksEntries alloc (id :: path) entries (s.visit id) ++
        env.marksNew (alloc (env.serializeEntries alloc entries (s.visit id)).2.calls)
          (.mapping () (pyDict (env.serializeEntries alloc entries (s.visit id)).1)) := if_neg h

theorem serializeMarks_seq (kind : SeqKind) (items : List (PyValue ℕ)) (h : id ∉ s.visited) :
    env.serializeMarks alloc path (.seq kind id items) s =
      env.serializeMarksItems alloc (id :: path) items (s.visit id) ++
        env.marksNew (alloc (env.serializeItems alloc items (s.visit id)).2.calls)
          (.seq .list () (env.serializeItems alloc items (s.visit id)).1) := if_neg h

/-- An object for which no marker is put has not been met. -/
theorem not_visited_of_serializeMarks {v : PyValue ℕ}
    (hv : (∃ entries, v = .mapping id entries) ∨ ∃ kind items, v = .seq kind id items)
    (hmarks : env.serializeMarks alloc path v s = []) : id ∉ s.visited := by
  intro hid
  rcases hv with ⟨entries, rfl⟩ | ⟨kind, items, rfl⟩ <;> simp [serializeMarks, hid] at hmarks

mutual

/-- Without a marker, the record is the plain one. -/
theorem plain_of_serializeMarks : ∀ (v : PyValue ℕ) (path : List ℕ) (s : Serializing),
    env.serializeMarks alloc path v s = [] →
    (env.serializeWith alloc v s).1 = env.plainSerialize v
  | .scalar _, _, _, _ => rfl
  | .str _, _, _, _ => rfl
  | .other _ (.bytes _), _, _, _ => rfl
  | .other id (.object _ text), _, s, hmarks => by
    have hnew : id ∉ s.visited := fun hid => by simp [serializeMarks, marksOpaque, hid] at hmarks
    simp [serializeWith, serializeOpaque, hnew, plainSerialize]
  | .mapping id entries, path, s, hmarks => by
    have hnew := not_visited_of_serializeMarks (.inl ⟨entries, rfl⟩) hmarks
    rw [serializeMarks_mapping entries hnew] at hmarks
    obtain ⟨hentries, hcall⟩ := List.append_eq_nil_iff.mp hmarks
    rw [serializeWith_mapping entries hnew, logContainer, redactNew_of_marksNew hcall,
      plain_of_serializeMarksEntries entries _ _ hentries, plainSerialize]
  | .seq kind id items, path, s, hmarks => by
    have hnew := not_visited_of_serializeMarks (.inr ⟨kind, items, rfl⟩) hmarks
    rw [serializeMarks_seq kind items hnew] at hmarks
    obtain ⟨hitems, hcall⟩ := List.append_eq_nil_iff.mp hmarks
    rw [serializeWith_seq kind items hnew, logContainer, redactNew_of_marksNew hcall,
      plain_of_serializeMarksItems items _ _ hitems, plainSerialize]

theorem plain_of_serializeMarksEntries : ∀ (entries : List (Key × PyValue ℕ)) (path : List ℕ)
    (s : Serializing), env.serializeMarksEntries alloc path entries s = [] →
    (env.serializeEntries alloc entries s).1 = env.plainSerializeEntries entries
  | [], _, _, _ => rfl
  | (_, value) :: entries, path, s, hmarks => by
    obtain ⟨hvalue, hrest⟩ := List.append_eq_nil_iff.mp hmarks
    rw [serializeEntries, plainSerializeEntries, plain_of_serializeMarks value path s hvalue,
      plain_of_serializeMarksEntries entries path _ hrest]

theorem plain_of_serializeMarksItems : ∀ (items : List (PyValue ℕ)) (path : List ℕ)
    (s : Serializing), env.serializeMarksItems alloc path items s = [] →
    (env.serializeItems alloc items s).1 = env.plainSerializeItems items
  | [], _, _, _ => rfl
  | value :: items, path, s, hmarks => by
    obtain ⟨hvalue, hrest⟩ := List.append_eq_nil_iff.mp hmarks
    rw [serializeItems, plainSerializeItems, plain_of_serializeMarks value path s hvalue,
      plain_of_serializeMarksItems items path _ hrest]

end

mutual

theorem serializeWith_adds : ∀ (v : PyValue ℕ) (s : Serializing),
    Adds v.tracked s.visited (env.serializeWith alloc v s).2.visited
  | .scalar _, _ => .refl _ _
  | .str _, _ => .refl _ _
  | .other _ (.bytes _), _ => .refl _ _
  | .other id (.object _ _), s => by
    rw [serializeWith, serializeOpaque]
    split
    · exact .refl _ _
    · exact (Adds.refl [] _).cons
  | .mapping id entries, s => by
    rw [serializeWith]
    split
    · exact .refl _ _
    · exact (serializeEntries_adds entries (s.visit id)).cons
  | .seq _ id items, s => by
    rw [serializeWith]
    split
    · exact .refl _ _
    · exact (serializeItems_adds items (s.visit id)).cons

theorem serializeEntries_adds : ∀ (entries : List (Key × PyValue ℕ)) (s : Serializing),
    Adds (trackedEntries entries) s.visited (env.serializeEntries alloc entries s).2.visited
  | [], _ => .refl _ _
  | (_, value) :: entries, s =>
    (serializeWith_adds value s).append (serializeEntries_adds entries _)

theorem serializeItems_adds : ∀ (items : List (PyValue ℕ)) (s : Serializing),
    Adds (trackedItems items) s.visited (env.serializeItems alloc items s).2.visited
  | [], _ => .refl _ _
  | value :: items, s => (serializeWith_adds value s).append (serializeItems_adds items _)

end

theorem serializeWith_mono (v : PyValue ℕ) (s : Serializing) :
    s.visited ⊆ (env.serializeWith alloc v s).2.visited := by
  have hadds : Adds v.tracked s.visited (env.serializeWith alloc v s).2.visited :=
    serializeWith_adds v s
  obtain ⟨new, -, hvisited⟩ := hadds
  rw [hvisited]
  exact List.subset_append_right _ _

section nil
variable (hredacted : env.parseText redacted = none)
include hredacted

mutual

theorem serializeMarks_eq_nil : ∀ (v : PyValue ℕ) (path : List ℕ) (s : Serializing),
    Unmet v.tracked s.visited → (∀ ds ∈ env.callDepths v, ds.Nodup) →
    env.serializeMarks alloc path v s = []
  | .scalar _, _, _, _, _ => rfl
  | .str _, _, _, _, _ => rfl
  | .other _ (.bytes _), _, _, _, _ => rfl
  | .other _ (.object _ _), _, _, hunmet, _ => if_neg hunmet.not_seen
  | .mapping id entries, path, s, hunmet, hcalls => by
    have hentries := serializeMarksEntries_eq_nil entries (id :: path) (s.visit id) hunmet.inside
      fun ds hds => hcalls ds (List.mem_append_left _ hds)
    rw [serializeMarks_mapping entries hunmet.not_seen, hentries, List.nil_append]
    apply marksNew_eq_nil
    rw [plain_of_serializeMarksEntries entries _ _ hentries, depths_mapping_eq hredacted]
    exact hcalls _ (List.mem_append_right _ List.mem_cons_self)
  | .seq kind id items, path, s, hunmet, hcalls => by
    have hitems := serializeMarksItems_eq_nil items (id :: path) (s.visit id) hunmet.inside
      fun ds hds => hcalls ds (List.mem_append_left _ hds)
    rw [serializeMarks_seq kind items hunmet.not_seen, hitems, List.nil_append]
    apply marksNew_eq_nil
    rw [plain_of_serializeMarksItems items _ _ hitems, depths_seq_eq hredacted]
    exact hcalls _ (List.mem_append_right _ List.mem_cons_self)

theorem serializeMarksEntries_eq_nil : ∀ (entries : List (Key × PyValue ℕ)) (path : List ℕ)
    (s : Serializing), Unmet (trackedEntries entries) s.visited →
    (∀ ds ∈ env.callDepthsEntries entries, ds.Nodup) →
    env.serializeMarksEntries alloc path entries s = []
  | [], _, _, _, _ => rfl
  | (_, value) :: entries, path, s, hunmet, hcalls => by
    have hcalls' := List.forall_mem_append.mp hcalls
    have hvalue := serializeMarks_eq_nil value path s hunmet.left hcalls'.1
    have hunmet' : Unmet (trackedEntries entries) (env.serializeWith alloc value s).2.visited :=
      hunmet.right (serializeWith_adds value s)
    have hrest := serializeMarksEntries_eq_nil entries path _ hunmet' hcalls'.2
    rw [serializeMarksEntries, hvalue, hrest, List.append_nil]

theorem serializeMarksItems_eq_nil : ∀ (items : List (PyValue ℕ)) (path : List ℕ)
    (s : Serializing), Unmet (trackedItems items) s.visited →
    (∀ ds ∈ env.callDepthsItems items, ds.Nodup) →
    env.serializeMarksItems alloc path items s = []
  | [], _, _, _, _ => rfl
  | value :: items, path, s, hunmet, hcalls => by
    have hcalls' := List.forall_mem_append.mp hcalls
    have hvalue := serializeMarks_eq_nil value path s hunmet.left hcalls'.1
    have hunmet' : Unmet (trackedItems items) (env.serializeWith alloc value s).2.visited :=
      hunmet.right (serializeWith_adds value s)
    have hrest := serializeMarksItems_eq_nil items path _ hunmet' hcalls'.2
    rw [serializeMarksItems, hvalue, hrest, List.append_nil]

end

end nil

end walk

section stack
variable (hredacted : env.parseText redacted = none)
include hredacted

mutual

/-- On a stack the absence of markers tells it all. -/
theorem allNew_of_serializeMarks : ∀ (v : PyValue ℕ) (path : List ℕ) (s : Serializing),
    env.serializeMarks (fun _ => .stack) path v s = [] →
    AllNew v.tracked s.visited (env.serializeWith (fun _ => .stack) v s).2.visited ∧
      ∀ ds ∈ env.callDepths v, ds.Nodup
  | .scalar _, _, _, _ => ⟨.refl _, fun _ h => absurd h List.not_mem_nil⟩
  | .str _, _, _, _ => ⟨.refl _, fun _ h => absurd h List.not_mem_nil⟩
  | .other _ (.bytes _), _, _, _ => ⟨.refl _, fun _ h => absurd h List.not_mem_nil⟩
  | .other id (.object _ text), _, s, hmarks => by
    have hnew : id ∉ s.visited := fun hid => by simp [serializeMarks, marksOpaque, hid] at hmarks
    refine ⟨?_, fun _ h => absurd h List.not_mem_nil⟩
    rw [serializeWith, serializeOpaque, if_neg hnew]
    exact (AllNew.refl _).cons hnew
  | .mapping id entries, path, s, hmarks => by
    have hnew := not_visited_of_serializeMarks (.inl ⟨entries, rfl⟩) hmarks
    rw [serializeMarks_mapping entries hnew] at hmarks
    obtain ⟨hentries, hcall⟩ := List.append_eq_nil_iff.mp hmarks
    obtain ⟨hall, hcalls⟩ := allNew_of_serializeMarksEntries entries _ _ hentries
    rw [serializeWith_mapping entries hnew]
    refine ⟨hall.cons hnew, List.forall_mem_append.mpr ⟨hcalls, ?_⟩⟩
    have hdepths := of_marksNew hcall
    rw [plain_of_serializeMarksEntries entries _ _ hentries, depths_mapping_eq hredacted] at hdepths
    simpa using hdepths
  | .seq kind id items, path, s, hmarks => by
    have hnew := not_visited_of_serializeMarks (.inr ⟨kind, items, rfl⟩) hmarks
    rw [serializeMarks_seq kind items hnew] at hmarks
    obtain ⟨hitems, hcall⟩ := List.append_eq_nil_iff.mp hmarks
    obtain ⟨hall, hcalls⟩ := allNew_of_serializeMarksItems items _ _ hitems
    rw [serializeWith_seq kind items hnew]
    refine ⟨hall.cons hnew, List.forall_mem_append.mpr ⟨hcalls, ?_⟩⟩
    have hdepths := of_marksNew hcall
    rw [plain_of_serializeMarksItems items _ _ hitems, depths_seq_eq hredacted] at hdepths
    simpa using hdepths

theorem allNew_of_serializeMarksEntries : ∀ (entries : List (Key × PyValue ℕ)) (path : List ℕ)
    (s : Serializing), env.serializeMarksEntries (fun _ => .stack) path entries s = [] →
    AllNew (trackedEntries entries) s.visited
        (env.serializeEntries (fun _ => .stack) entries s).2.visited ∧
      ∀ ds ∈ env.callDepthsEntries entries, ds.Nodup
  | [], _, _, _ => ⟨.refl _, fun _ h => absurd h List.not_mem_nil⟩
  | (_, value) :: entries, path, s, hmarks => by
    obtain ⟨hvalue, hrest⟩ := List.append_eq_nil_iff.mp hmarks
    obtain ⟨hall, hcalls⟩ := allNew_of_serializeMarks value path s hvalue
    obtain ⟨hall', hcalls'⟩ := allNew_of_serializeMarksEntries entries path _ hrest
    exact ⟨hall.append hall', List.forall_mem_append.mpr ⟨hcalls, hcalls'⟩⟩

theorem allNew_of_serializeMarksItems : ∀ (items : List (PyValue ℕ)) (path : List ℕ)
    (s : Serializing), env.serializeMarksItems (fun _ => .stack) path items s = [] →
    AllNew (trackedItems items) s.visited
        (env.serializeItems (fun _ => .stack) items s).2.visited ∧
      ∀ ds ∈ env.callDepthsItems items, ds.Nodup
  | [], _, _, _ => ⟨.refl _, fun _ h => absurd h List.not_mem_nil⟩
  | value :: items, path, s, hmarks => by
    obtain ⟨hvalue, hrest⟩ := List.append_eq_nil_iff.mp hmarks
    obtain ⟨hall, hcalls⟩ := allNew_of_serializeMarks value path s hvalue
    obtain ⟨hall', hcalls'⟩ := allNew_of_serializeMarksItems items path _ hrest
    exact ⟨hall.append hall', List.forall_mem_append.mpr ⟨hcalls, hcalls'⟩⟩

end

end stack

theorem not_recursive_of_marksNew {a : Allocator} {t : Tree} :
    ∀ k ∈ env.marksNew a t, ¬ k.Recursive :=
  Runtime.not_recursive_of_marks (a.unshared_build .start [] t)

end Environment

end BaseWebService.Logging
