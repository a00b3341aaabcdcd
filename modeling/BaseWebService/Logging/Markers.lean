import BaseWebService.Logging.Reuse

/-!
# Markers

A walk puts `<recursive ...>` where it meets an object again. `marksWith` lists the markers that
`redactWith` puts, with the objects around each. On a value in which no object is inside itself
there is none of them, for any interpreter, exactly if no object is walked twice and no two JSON
texts are nested equally deep; and then redaction is the plain one.
-/

namespace BaseWebService.Logging

open Library

/-- A marker that was put for an object, inside of the objects of `path`, the innermost first. -/
structure Mark where
  id : ℕ
  path : List ℕ
  deriving DecidableEq

/-- The object is inside itself. -/
def Mark.Recursive (k : Mark) : Prop := k.id ∈ k.path

instance (k : Mark) : Decidable k.Recursive := inferInstanceAs (Decidable (k.id ∈ k.path))

namespace Runtime

variable (rt : Runtime)

section marks
variable (onText : String → Memory → Tree × Memory)
  (marksText : List ℕ → String → Memory → List Mark)

mutual

/-- The markers of `redactWith`. -/
def marksWith (path : List ℕ) : PyValue ℕ → Memory → List Mark
  | .scalar _, _ => []
  | .str text, m => marksText path text m
  | .other id _, m => if id ∈ m.visited then [⟨id, path⟩] else []
  | .mapping id entries, m =>
    if id ∈ m.visited then [⟨id, path⟩] else marksEntries (id :: path) entries (m.visit id)
  | .seq _ id items, m =>
    if id ∈ m.visited then [⟨id, path⟩] else marksItems (id :: path) 100 items (m.visit id)

def marksEntries (path : List ℕ) : List (Key × PyValue ℕ) → Memory → List Mark
  | [], _ => []
  | (key, value) :: entries, m =>
    if rt.isSensitiveKey key then marksEntries path entries m
    else marksWith path value m ++ marksEntries path entries (rt.redactWith onText value m).2

def marksItems (path : List ℕ) (limit : ℕ) : List (PyValue ℕ) → Memory → List Mark
  | [], _ => []
  | value :: items, m =>
    match limit with
    | 0 => []
    | limit + 1 =>
      marksWith path value m ++ marksItems path limit items (rt.redactWith onText value m).2

end

end marks

/-- The markers of `redactText`. -/
def marksText (a : Allocator) : ℕ → List ℕ → List ℕ → String → Memory → List Mark
  | 0, _, _, _, _ => []
  | depth + 1, live, path, text, m =>
    match rt.parseText text with
    | none => []
    | some t =>
      let value := a.build m live t
      rt.marksWith (rt.redactText a depth (value.ids ++ live))
        (marksText a depth (value.ids ++ live)) path value m.parse

/-- The markers that are put when a value is walked from the start. -/
def marks (a : Allocator) (live : List ℕ) (v : PyValue ℕ) : List Mark :=
  rt.marksWith (fun text => rt.redactText a text.length live text)
    (fun path text => rt.marksText a text.length live path text) [] v .start

mutual

/-- How many JSON texts there are around each JSON text that is walked. -/
def depths : Doc → List ℕ
  | .scalar _ => []
  | .str _ => []
  | .other _ => []
  | .json d => 0 :: (depths d).map (· + 1)
  | .mapping entries => depthsEntries entries
  | .seq _ items => depthsItems 100 items

def depthsEntries : List (Key × Doc) → List ℕ
  | [] => []
  | (key, d) :: entries => (if rt.isSensitiveKey key then [] else depths d) ++ depthsEntries entries

def depthsItems (limit : ℕ) : List Doc → List ℕ
  | [] => []
  | d :: items =>
    match limit with
    | 0 => []
    | limit + 1 => depths d ++ depthsItems limit items

end

end Runtime

/-! ## Texts inside each other -/

/-- What `parses` says about the depths of texts. -/
def Outermost (parses : Bool) (ds : List ℕ) : Prop :=
  (parses = true → 0 ∈ ds) ∧ (parses = false → ds = [])

/-- No two texts are nested equally deep, and there is none if a text is done with already. -/
def Alone (dirty : Bool) (ds : List ℕ) : Prop := ds.Nodup ∧ (dirty = true → ds = [])

section depths
variable {p p' dirty : Bool} {ds ds' : List ℕ}

theorem outermost_nil : Outermost false [] := by simp [Outermost]

theorem Outermost.append (h : Outermost p ds) (h' : Outermost p' ds') :
    Outermost (p || p') (ds ++ ds') := by
  refine ⟨fun hp => ?_, fun hp => ?_⟩
  · rcases Bool.or_eq_true_iff.mp hp with hp | hp
    · exact List.mem_append_left _ (h.1 hp)
    · exact List.mem_append_right _ (h'.1 hp)
  · obtain ⟨hp, hp'⟩ := Bool.or_eq_false_iff.mp hp
    rw [h.2 hp, h'.2 hp', List.append_nil]

theorem alone_nil : Alone dirty [] := ⟨List.nodup_nil, fun _ => rfl⟩

/-- Of two parts that are walked one after the other, only one may have a text. -/
theorem alone_append_iff (h : Outermost p ds) (h' : Outermost p' ds') :
    Alone dirty (ds ++ ds') ↔ Alone dirty ds ∧ Alone (dirty || p) ds' := by
  unfold Alone
  constructor
  · rintro ⟨hnodup, hdirty⟩
    refine ⟨⟨hnodup.of_append_left, fun hd => (List.append_eq_nil_iff.mp (hdirty hd)).1⟩,
      hnodup.of_append_right, fun hd => ?_⟩
    rcases Bool.or_eq_true_iff.mp hd with hd | hp
    · exact (List.append_eq_nil_iff.mp (hdirty hd)).2
    · apply h'.2
      by_contra hp'
      have hparses : p' = true := by simpa using hp'
      exact List.disjoint_of_nodup_append hnodup (h.1 hp) (h'.1 hparses)
  · rintro ⟨⟨hnodup, hdirty⟩, hnodup', hdirty'⟩
    cases hp : p with
    | true =>
      have hnil : ds' = [] := hdirty' (by simp [hp])
      simpa [hnil] using ⟨hnodup, hdirty⟩
    | false =>
      have hnil : ds = [] := h.2 hp
      refine ⟨by simpa [hnil] using hnodup', fun hd => ?_⟩
      rw [hnil, hdirty' (by simp [hd]), List.append_nil]

theorem alone_json_iff : Alone dirty (0 :: ds.map (· + 1)) ↔ dirty = false ∧ Alone false ds := by
  have hinjective : Function.Injective fun n : ℕ => n + 1 := fun _ _ h => Nat.succ.inj h
  simp [Alone, List.nodup_map_iff hinjective, and_comm]

end depths

/-- What a walk tells that has put no marker: the objects it came to are all new. -/
structure AllNew (ids seen seen' : List ℕ) : Prop where
  grows : seen ⊆ seen'
  nodup : ids.Nodup
  unseen : ∀ id ∈ ids, id ∉ seen
  met : ids ⊆ seen'

namespace AllNew

variable {id : ℕ} {ids ids' seen seen' seen'' : List ℕ}

theorem refl (seen : List ℕ) : AllNew [] seen seen where
  grows := List.Subset.refl _
  nodup := List.nodup_nil
  unseen := fun _ h => absurd h List.not_mem_nil
  met := List.nil_subset _

theorem cons (h : AllNew ids (id :: seen) seen') (hnew : id ∉ seen) :
    AllNew (id :: ids) seen seen' where
  grows := List.Subset.trans (List.subset_cons_self _ _) h.grows
  nodup := List.nodup_cons.mpr ⟨fun hid => h.unseen id hid List.mem_cons_self, h.nodup⟩
  unseen := by
    intro i hi
    rcases List.mem_cons.mp hi with rfl | hi
    · exact hnew
    · exact fun hseen => h.unseen i hi (List.mem_cons_of_mem _ hseen)
  met := List.cons_subset.mpr ⟨h.grows List.mem_cons_self, h.met⟩

theorem append (h : AllNew ids seen seen') (h' : AllNew ids' seen' seen'') :
    AllNew (ids ++ ids') seen seen'' where
  grows := List.Subset.trans h.grows h'.grows
  nodup := by
    apply List.nodup_append.mpr
    refine ⟨h.nodup, h'.nodup, ?_⟩
    rintro id hid _ hid' rfl
    exact h'.unseen id hid' (h.met hid)
  unseen := by
    intro id hid hseen
    rcases List.mem_append.mp hid with hid | hid
    · exact h.unseen id hid hseen
    · exact h'.unseen id hid (h.grows hseen)
  met := List.append_subset.mpr ⟨List.Subset.trans h.met h'.grows, h'.met⟩

end AllNew

/-- Besides, each text it came to is inside of the one before it; `first` is met with any text. -/
structure Met (first : ℕ) (dirty parses : Bool) (ids ds : List ℕ) (m m' : Memory) : Prop extends
    AllNew ids m.visited m'.visited where
  alone : Alone dirty ds
  first : parses = true → first ∈ m'.visited

namespace Met

variable {first id : ℕ} {dirty p p' : Bool} {ids ids' ds ds' : List ℕ} {m m' m'' : Memory}

theorem refl (m : Memory) : Met first dirty false [] [] m m :=
  ⟨.refl m.visited, alone_nil, fun h => Bool.noConfusion h⟩

theorem first_of_dirty (h : Met first dirty p ids ds m m')
    (hdirty : dirty = true → first ∈ m.visited) : (dirty || p) = true → first ∈ m'.visited := by
  intro hd
  rcases Bool.or_eq_true_iff.mp hd with hd | hp
  · exact h.grows (hdirty hd)
  · exact h.first hp

theorem cons (h : Met first dirty p ids ds (m.visit id) m') (hnew : id ∉ m.visited) :
    Met first dirty p (id :: ids) ds m m' :=
  ⟨h.toAllNew.cons hnew, h.alone, h.first⟩

theorem append (h : Met first dirty p ids ds m m') (h' : Met first (dirty || p) p' ids' ds' m' m'')
    (ho : Outermost p ds) (ho' : Outermost p' ds') :
    Met first dirty (p || p') (ids ++ ids') (ds ++ ds') m m'' := by
  refine ⟨h.toAllNew.append h'.toAllNew, (alone_append_iff ho ho').mpr ⟨h.alone, h'.alone⟩, ?_⟩
  intro hp
  rcases Bool.or_eq_true_iff.mp hp with hp | hp
  · exact h'.grows (h.first hp)
  · exact h'.first hp

end Met

/-- Objects in use, each of them once and outside of the objects of `path`. -/
structure Apart (live path ids : List ℕ) : Prop where
  nodup : ids.Nodup
  outside : ∀ id ∈ ids, id ∉ path
  held : ∀ id ∈ ids, id ∈ live
  around : ∀ id ∈ path, id ∈ live

namespace Apart

variable {live path ids ids' : List ℕ} {id : ℕ}

theorem inside (h : Apart live path (id :: ids)) : Apart live (id :: path) ids where
  nodup := h.nodup.of_cons
  outside := by
    intro i hi hmem
    rcases List.mem_cons.mp hmem with rfl | hmem
    · exact (List.nodup_cons.mp h.nodup).1 hi
    · exact h.outside i (List.mem_cons_of_mem _ hi) hmem
  held := fun i hi => h.held i (List.mem_cons_of_mem _ hi)
  around := by
    intro i hi
    rcases List.mem_cons.mp hi with rfl | hi
    · exact h.held _ List.mem_cons_self
    · exact h.around i hi

theorem left (h : Apart live path (ids ++ ids')) : Apart live path ids where
  nodup := h.nodup.of_append_left
  outside := fun i hi => h.outside i (List.mem_append_left _ hi)
  held := fun i hi => h.held i (List.mem_append_left _ hi)
  around := h.around

theorem right (h : Apart live path (ids ++ ids')) : Apart live path ids' where
  nodup := h.nodup.of_append_right
  outside := fun i hi => h.outside i (List.mem_append_right _ hi)
  held := fun i hi => h.held i (List.mem_append_right _ hi)
  around := h.around

end Apart

section outermost
variable {rt : Runtime}

mutual

theorem outermost_depths : ∀ d : Doc, Outermost (rt.parses d) (rt.depths d)
  | .scalar _ => outermost_nil
  | .str _ => outermost_nil
  | .other _ => outermost_nil
  | .json _ => ⟨fun _ => List.mem_cons_self, fun h => Bool.noConfusion h⟩
  | .mapping entries => outermost_depthsEntries entries
  | .seq _ items => outermost_depthsItems 100 items

theorem outermost_depthsEntries : ∀ entries : List (Key × Doc),
    Outermost (rt.parsesEntries entries) (rt.depthsEntries entries)
  | [] => outermost_nil
  | (key, d) :: entries => by
    rw [Runtime.parsesEntries, Runtime.depthsEntries]
    refine Outermost.append ?_ (outermost_depthsEntries entries)
    cases rt.isSensitiveKey key with
    | true => exact outermost_nil
    | false => exact outermost_depths d

theorem outermost_depthsItems : ∀ (limit : ℕ) (items : List Doc),
    Outermost (rt.parsesItems limit items) (rt.depthsItems limit items)
  | _, [] => outermost_nil
  | 0, _ :: _ => outermost_nil
  | limit + 1, d :: items => (outermost_depths d).append (outermost_depthsItems limit items)

end

theorem outermost_entry (key : Key) (d : Doc) :
    Outermost (!rt.isSensitiveKey key && rt.parses d)
      (if rt.isSensitiveKey key then [] else rt.depths d) := by
  cases rt.isSensitiveKey key with
  | true => exact outermost_nil
  | false => exact outermost_depths d

end outermost

-- Of a mutual group some members need a hypothesis only for the others.
set_option linter.unusedSectionVars false

section walk
variable {rt : Runtime} {onText : String → Memory → Tree × Memory} {unfoldText : String → Doc}
  {onMarks : List ℕ → String → Memory → List Mark} {live : List ℕ}

/-! ## Where no marker is put -/

section nil
variable (hgrows : ∀ s m, Grows live [] (rt.parses (unfoldText s)) m (onText s m).2)
  (htext : ∀ path s m dirty, (dirty = false → ∀ id ∈ m.visited, id ∈ live) →
    Alone dirty (rt.depths (unfoldText s)) → onMarks path s m = [])
include hgrows htext

mutual

theorem marksWith_eq_nil : ∀ (v : PyValue ℕ) (path : List ℕ) (m : Memory) (dirty : Bool),
    Ready live (rt.walked v) dirty m → Alone dirty (rt.depths (unfoldWith unfoldText v)) →
    rt.marksWith onText onMarks path v m = []
  | .scalar _, _, _, _, _, _ => rfl
  | .str text, path, m, dirty, hready, halone => htext path text m dirty hready.inUse halone
  | .other _ _, _, _, _, hready, _ => if_neg hready.not_visited
  | .mapping id entries, path, m, dirty, hready, halone => by
    rw [Runtime.marksWith, if_neg hready.not_visited]
    exact marksEntries_eq_nil entries (id :: path) (m.visit id) dirty hready.visit halone
  | .seq _ id items, path, m, dirty, hready, halone => by
    rw [Runtime.marksWith, if_neg hready.not_visited]
    exact marksItems_eq_nil 100 items (id :: path) (m.visit id) dirty hready.visit halone

theorem marksEntries_eq_nil : ∀ (entries : List (Key × PyValue ℕ)) (path : List ℕ) (m : Memory)
    (dirty : Bool), Ready live (rt.walkedEntries entries) dirty m →
    Alone dirty (rt.depthsEntries (unfoldEntries unfoldText entries)) →
    rt.marksEntries onText onMarks path entries m = []
  | [], _, _, _, _, _ => rfl
  | (key, value) :: entries, path, m, dirty, hready, halone => by
    obtain ⟨hvalue, hrest⟩ := (alone_append_iff (outermost_entry key _)
      (outermost_depthsEntries _)).mp halone
    have hready' := hready.right (redactEntry_grows_walked hgrows key value m)
    have hmarks := marksEntries_eq_nil entries path _ _ hready' hrest
    rw [Runtime.marksEntries]
    cases hkey : rt.isSensitiveKey key with
    | true => simpa [hkey] using hmarks
    | false =>
      have hleft := hready.left
      simp only [hkey, Bool.false_eq_true, if_false] at hmarks hvalue hleft ⊢
      rw [marksWith_eq_nil value path m dirty hleft hvalue, hmarks, List.append_nil]

theorem marksItems_eq_nil : ∀ (limit : ℕ) (items : List (PyValue ℕ)) (path : List ℕ) (m : Memory)
    (dirty : Bool), Ready live (rt.walkedItems limit items) dirty m →
    Alone dirty (rt.depthsItems limit (unfoldItems unfoldText items)) →
    rt.marksItems onText onMarks path limit items m = []
  | _, [], _, _, _, _, _ => rfl
  | 0, _ :: _, _, _, _, _, _ => rfl
  | limit + 1, value :: items, path, m, dirty, hready, halone => by
    obtain ⟨hvalue, hrest⟩ := (alone_append_iff (outermost_depths _)
      (outermost_depthsItems limit _)).mp halone
    have hready' := hready.right (redactWith_grows_walked hgrows value m)
    rw [Runtime.marksItems, marksWith_eq_nil value path m dirty hready.left hvalue,
      marksItems_eq_nil limit items path _ _ hready' hrest, List.append_nil]

end

end nil

/-! ## Where no marker was put -/

section plain
variable (htext : ∀ path s m, onMarks path s m = [] → (onText s m).1 = rt.plain (unfoldText s))
include htext

mutual

/-- Without a marker, redaction is the plain one. -/
theorem plain_of_marksWith : ∀ (v : PyValue ℕ) (path : List ℕ) (m : Memory),
    rt.marksWith onText onMarks path v m = [] →
    (rt.redactWith onText v m).1 = rt.plain (unfoldWith unfoldText v)
  | .scalar _, _, _, _ => rfl
  | .str text, path, m, hmarks => htext path text m hmarks
  | .other id o, path, m, hmarks => by
    have hnew : id ∉ m.visited := fun hid => by simp [Runtime.marksWith, hid] at hmarks
    rw [Runtime.redactWith_other o hnew]
    rfl
  | .mapping id entries, path, m, hmarks => by
    have hnew : id ∉ m.visited := fun hid => by simp [Runtime.marksWith, hid] at hmarks
    rw [Runtime.marksWith, if_neg hnew] at hmarks
    rw [Runtime.redactWith_mapping entries hnew, plain_of_marksEntries entries _ _ hmarks]
    rfl
  | .seq kind id items, path, m, hmarks => by
    have hnew : id ∉ m.visited := fun hid => by simp [Runtime.marksWith, hid] at hmarks
    rw [Runtime.marksWith, if_neg hnew] at hmarks
    rw [Runtime.redactWith_seq kind items hnew, plain_of_marksItems 100 items _ _ hmarks]
    rfl

theorem plain_of_marksEntries : ∀ (entries : List (Key × PyValue ℕ)) (path : List ℕ) (m : Memory),
    rt.marksEntries onText onMarks path entries m = [] →
    (rt.redactEntries onText entries m).1 = rt.plainEntries (unfoldEntries unfoldText entries)
  | [], _, _, _ => rfl
  | (key, value) :: entries, path, m, hmarks => by
    rw [Runtime.marksEntries] at hmarks
    rw [Runtime.redactEntries, unfoldEntries, Runtime.plainEntries]
    cases hkey : rt.isSensitiveKey key with
    | true =>
      rw [if_pos hkey] at hmarks
      simp [plain_of_marksEntries entries path m hmarks]
    | false =>
      rw [hkey, if_neg Bool.false_ne_true] at hmarks
      obtain ⟨hvalue, hrest⟩ := List.append_eq_nil_iff.mp hmarks
      simp [plain_of_marksWith value path m hvalue, plain_of_marksEntries entries path _ hrest]

theorem plain_of_marksItems : ∀ (limit : ℕ) (items : List (PyValue ℕ)) (path : List ℕ) (m : Memory),
    rt.marksItems onText onMarks path limit items m = [] →
    (rt.redactItems onText limit items m).1 = rt.plainItems limit (unfoldItems unfoldText items)
  | _, [], _, _, _ => rfl
  | 0, _ :: _, _, _, _ => rfl
  | limit + 1, value :: items, path, m, hmarks => by
    obtain ⟨hvalue, hrest⟩ := List.append_eq_nil_iff.mp hmarks
    rw [Runtime.redactItems, unfoldItems, Runtime.plainItems,
      plain_of_marksWith value path m hvalue, plain_of_marksItems limit items path _ hrest]

end

end plain

/-! ## What the absence of markers tells -/

section met
variable {first : ℕ}
  (htext : ∀ path s m dirty, (dirty = true → first ∈ m.visited) → onMarks path s m = [] →
    Met first dirty (rt.parses (unfoldText s)) [] (rt.depths (unfoldText s)) m (onText s m).2)
include htext

mutual

theorem met_of_marksWith : ∀ (v : PyValue ℕ) (path : List ℕ) (m : Memory) (dirty : Bool),
    (dirty = true → first ∈ m.visited) → rt.marksWith onText onMarks path v m = [] →
    Met first dirty (rt.parses (unfoldWith unfoldText v)) (rt.walked v)
      (rt.depths (unfoldWith unfoldText v)) m (rt.redactWith onText v m).2
  | .scalar _, _, m, _, _, _ => .refl m
  | .str text, path, m, dirty, hdirty, hmarks => htext path text m dirty hdirty hmarks
  | .other id o, _, m, _, _, hmarks => by
    have hnew : id ∉ m.visited := fun hid => by simp [Runtime.marksWith, hid] at hmarks
    rw [Runtime.redactWith_other o hnew]
    exact (Met.refl _).cons hnew
  | .mapping id entries, path, m, dirty, hdirty, hmarks => by
    have hnew : id ∉ m.visited := fun hid => by simp [Runtime.marksWith, hid] at hmarks
    rw [Runtime.marksWith, if_neg hnew] at hmarks
    rw [Runtime.redactWith_mapping entries hnew]
    refine (met_of_marksEntries entries _ _ dirty (fun h => ?_) hmarks).cons hnew
    exact List.mem_cons_of_mem _ (hdirty h)
  | .seq kind id items, path, m, dirty, hdirty, hmarks => by
    have hnew : id ∉ m.visited := fun hid => by simp [Runtime.marksWith, hid] at hmarks
    rw [Runtime.marksWith, if_neg hnew] at hmarks
    rw [Runtime.redactWith_seq kind items hnew]
    refine (met_of_marksItems 100 items _ _ dirty (fun h => ?_) hmarks).cons hnew
    exact List.mem_cons_of_mem _ (hdirty h)

theorem met_of_marksEntries : ∀ (entries : List (Key × PyValue ℕ)) (path : List ℕ) (m : Memory)
    (dirty : Bool), (dirty = true → first ∈ m.visited) →
    rt.marksEntries onText onMarks path entries m = [] →
    Met first dirty (rt.parsesEntries (unfoldEntries unfoldText entries)) (rt.walkedEntries entries)
      (rt.depthsEntries (unfoldEntries unfoldText entries)) m
      (rt.redactEntries onText entries m).2
  | [], _, m, _, _, _ => .refl m
  | (key, value) :: entries, path, m, dirty, hdirty, hmarks => by
    rw [Runtime.marksEntries] at hmarks
    have hvalue : Met first dirty
        (!rt.isSensitiveKey key && rt.parses (unfoldWith unfoldText value))
        (if rt.isSensitiveKey key then [] else rt.walked value)
        (if rt.isSensitiveKey key then [] else rt.depths (unfoldWith unfoldText value)) m
        (if rt.isSensitiveKey key then (.str redacted, m) else rt.redactWith onText value m).2 := by
      cases hkey : rt.isSensitiveKey key with
      | true => exact .refl m
      | false =>
        rw [hkey, if_neg Bool.false_ne_true] at hmarks
        exact met_of_marksWith value path m dirty hdirty (List.append_eq_nil_iff.mp hmarks).1
    have hrest : rt.marksEntries onText onMarks path entries
        (if rt.isSensitiveKey key then (.str redacted, m)
          else rt.redactWith onText value m).2 = [] := by
      cases hkey : rt.isSensitiveKey key with
      | true => rwa [if_pos hkey] at hmarks
      | false =>
        rw [hkey, if_neg Bool.false_ne_true] at hmarks
        exact (List.append_eq_nil_iff.mp hmarks).2
    exact hvalue.append (met_of_marksEntries entries path _ _ (hvalue.first_of_dirty hdirty) hrest)
      (outermost_entry key _) (outermost_depthsEntries _)

theorem met_of_marksItems : ∀ (limit : ℕ) (items : List (PyValue ℕ)) (path : List ℕ) (m : Memory)
    (dirty : Bool), (dirty = true → first ∈ m.visited) →
    rt.marksItems onText onMarks path limit items m = [] →
    Met first dirty (rt.parsesItems limit (unfoldItems unfoldText items))
      (rt.walkedItems limit items) (rt.depthsItems limit (unfoldItems unfoldText items)) m
      (rt.redactItems onText limit items m).2
  | _, [], _, m, _, _, _ => .refl m
  | 0, _ :: _, _, m, _, _, _ => .refl m
  | limit + 1, value :: items, path, m, dirty, hdirty, hmarks => by
    obtain ⟨hvalue, hrest⟩ := List.append_eq_nil_iff.mp hmarks
    have hmet := met_of_marksWith value path m dirty hdirty hvalue
    exact hmet.append (met_of_marksItems limit items path _ _ (hmet.first_of_dirty hdirty) hrest)
      (outermost_depths _) (outermost_depthsItems limit _)

end

end met

/-! ## Values in which no object is inside itself -/

section stray
variable (htext : ∀ path s m, (∀ id ∈ path, id ∈ live) → ∀ k ∈ onMarks path s m, ¬ k.Recursive)
include htext

mutual

/-- No marker in such a value is for an object inside itself. -/
theorem not_recursive_of_marksWith : ∀ (v : PyValue ℕ) (path : List ℕ) (m : Memory),
    Apart live path v.ids → ∀ k ∈ rt.marksWith onText onMarks path v m, ¬ k.Recursive
  | .scalar _, _, _, _ => fun _ h => absurd h List.not_mem_nil
  | .str text, path, m, hapart => htext path text m hapart.around
  | .other id _, path, m, hapart => by
    rw [Runtime.marksWith]
    split
    · simpa [Mark.Recursive] using hapart.outside id List.mem_cons_self
    · simp
  | .mapping id entries, path, m, hapart => by
    rw [Runtime.marksWith]
    split
    · simpa [Mark.Recursive] using hapart.outside id List.mem_cons_self
    · exact not_recursive_of_marksEntries entries _ _ hapart.inside
  | .seq _ id items, path, m, hapart => by
    rw [Runtime.marksWith]
    split
    · simpa [Mark.Recursive] using hapart.outside id List.mem_cons_self
    · exact not_recursive_of_marksItems 100 items _ _ hapart.inside

theorem not_recursive_of_marksEntries : ∀ (entries : List (Key × PyValue ℕ)) (path : List ℕ)
    (m : Memory), Apart live path (idsEntries entries) →
    ∀ k ∈ rt.marksEntries onText onMarks path entries m, ¬ k.Recursive
  | [], _, _, _ => fun _ h => absurd h List.not_mem_nil
  | (key, value) :: entries, path, m, hapart => by
    rw [Runtime.marksEntries]
    split
    · exact not_recursive_of_marksEntries entries path m hapart.right
    · intro k hk
      rcases List.mem_append.mp hk with hk | hk
      · exact not_recursive_of_marksWith value path m hapart.left k hk
      · exact not_recursive_of_marksEntries entries path _ hapart.right k hk

theorem not_recursive_of_marksItems : ∀ (limit : ℕ) (items : List (PyValue ℕ)) (path : List ℕ)
    (m : Memory), Apart live path (idsItems items) →
    ∀ k ∈ rt.marksItems onText onMarks path limit items m, ¬ k.Recursive
  | _, [], _, _, _ => fun _ h => absurd h List.not_mem_nil
  | 0, _ :: _, _, _, _ => fun _ h => absurd h List.not_mem_nil
  | limit + 1, value :: items, path, m, hapart => by
    intro k hk
    rcases List.mem_append.mp hk with hk | hk
    · exact not_recursive_of_marksWith value path m hapart.left k hk
    · exact not_recursive_of_marksItems limit items path _ hapart.right k hk

end

end stray

end walk

namespace Runtime

variable {rt : Runtime} {a : Allocator} {live : List ℕ}

/-! ## Parsed texts -/

theorem marksText_eq_nil (depth : ℕ) (live path : List ℕ) (text : String) (m : Memory)
    (dirty : Bool) (hinUse : dirty = false → ∀ id ∈ m.visited, id ∈ live)
    (halone : Alone dirty (rt.depths (rt.unfoldText depth text))) :
    rt.marksText a depth live path text m = [] := by
  induction depth generalizing live path text m dirty with
  | zero => rfl
  | succ depth ih =>
    unfold unfoldText at halone
    unfold marksText
    cases hparse : rt.parseText text with
    | none => rfl
    | some t =>
      rw [hparse] at halone
      obtain ⟨rfl, hinner⟩ := alone_json_iff.mp halone
      have hready := ready_build (a := a) (t := t) hinUse (Or.inr rfl)
      rw [← unfoldWith_build (a := a) _ m live t] at hinner
      exact marksWith_eq_nil (redactText_grows depth _)
        (fun path s m dirty hinUse halone => ih _ path s m dirty hinUse halone) _ path _ false
        (hready.of_sublist (walked_sublist _)) hinner

theorem plain_of_marksText (depth : ℕ) (live path : List ℕ) (text : String) (m : Memory)
    (hmarks : rt.marksText a depth live path text m = []) :
    (rt.redactText a depth live text m).1 = rt.plain (rt.unfoldText depth text) := by
  induction depth generalizing live path text m with
  | zero => rfl
  | succ depth ih =>
    unfold marksText at hmarks
    unfold redactText unfoldText
    cases hparse : rt.parseText text with
    | none => rfl
    | some t =>
      rw [hparse] at hmarks
      have hplain := plain_of_marksWith (fun path s m => ih _ path s m) _ path m.parse hmarks
      rwa [unfoldWith_build] at hplain

/-- On a stack every text begins with the same identity. -/
theorem met_of_marksText (depth : ℕ) (live path : List ℕ) (text : String) (m : Memory)
    (dirty : Bool) (hdirty : dirty = true → above live ∈ m.visited)
    (hmarks : rt.marksText .stack depth live path text m = []) :
    Met (above live) dirty (rt.parses (rt.unfoldText depth text)) []
      (rt.depths (rt.unfoldText depth text)) m (rt.redactText .stack depth live text m).2 := by
  induction depth generalizing live path text m dirty with
  | zero => exact .refl m
  | succ depth ih =>
    have hmeets : rt.parses (rt.unfoldText (depth + 1) text) = true → _ :=
      redactText_meets (depth + 1) live text m
    unfold marksText at hmarks
    unfold redactText unfoldText at hmeets ⊢
    cases hparse : rt.parseText text with
    | none => exact .refl m
    | some t =>
      rw [hparse] at hmarks hmeets
      have hnew : above live ∉ m.parse.visited := by
        intro hmet
        rcases stack_build hparse m live with ⟨entries, hbuild⟩ | ⟨items, hbuild⟩
        · simp [hbuild, marksWith, hmet] at hmarks
        · simp [hbuild, marksWith, hmet] at hmarks
      obtain rfl : dirty = false := by
        cases dirty with
        | true => exact absurd (hdirty rfl) hnew
        | false => rfl
      have hmet := met_of_marksWith (fun path s m dirty hdirty h => ih _ path s m dirty hdirty h)
        (Allocator.stack.build m live t) path m.parse false (fun h => Bool.noConfusion h) hmarks
      rw [unfoldWith_build] at hmet
      have hnone : AllNew [] m.visited _ :=
        ⟨hmet.grows, List.nodup_nil, fun _ h => absurd h List.not_mem_nil, List.nil_subset _⟩
      exact ⟨hnone, alone_json_iff.mpr ⟨rfl, hmet.alone⟩, hmeets⟩

theorem not_recursive_of_marksText (depth : ℕ) (live path : List ℕ) (text : String) (m : Memory)
    (hpath : ∀ id ∈ path, id ∈ live) :
    ∀ k ∈ rt.marksText a depth live path text m, ¬ k.Recursive := by
  induction depth generalizing live path text m with
  | zero => exact fun _ h => absurd h List.not_mem_nil
  | succ depth ih =>
    unfold marksText
    cases rt.parseText text with
    | none => exact fun _ h => absurd h List.not_mem_nil
    | some t =>
      have hapart : Apart ((a.build m live t).ids ++ live) path (a.build m live t).ids := by
        refine ⟨a.unshared_build m live t, ?_, ?_, ?_⟩
        · exact fun id hid hmem => a.not_live m live t id hid (hpath id hmem)
        · exact fun id hid => List.mem_append_left _ hid
        · exact fun id hid => List.mem_append_right _ (hpath id hid)
      exact not_recursive_of_marksWith (fun path s m h => ih _ path s m h) _ path m.parse hapart

/-! ## The walk of a value -/

variable {v : PyValue ℕ}

theorem marks_eq_nil (hheld : ∀ id ∈ rt.walked v, id ∈ live) (hwalked : (rt.walked v).Nodup)
    (hdepths : (rt.depths (rt.unfold v)).Nodup) : rt.marks a live v = [] := by
  have hready : Ready live (rt.walked v) false .start :=
    ⟨hwalked, hheld, fun _ _ h => absurd h List.not_mem_nil,
      fun _ _ h => absurd h List.not_mem_nil⟩
  exact marksWith_eq_nil (fun s m => redactText_grows s.length live s m)
    (fun path s m dirty => marksText_eq_nil s.length live path s m dirty) v [] .start false hready
    ⟨hdepths, fun h => Bool.noConfusion h⟩

/-- On a stack the absence of markers tells it all. -/
theorem of_marks_eq_nil (hmarks : rt.marks .stack live v = []) :
    (rt.walked v).Nodup ∧ (rt.depths (rt.unfold v)).Nodup := by
  have hmet := met_of_marksWith
    (fun path s m dirty => met_of_marksText s.length live path s m dirty) v [] .start false
    (fun h => Bool.noConfusion h) hmarks
  exact ⟨hmet.nodup, hmet.alone.1⟩

theorem plain_of_marks (hmarks : rt.marks a live v = []) :
    (rt.redactWith (fun text => rt.redactText a text.length live text) v .start).1 =
      rt.plain (rt.unfold v) :=
  plain_of_marksWith (fun path s m => plain_of_marksText s.length live path s m) v [] .start hmarks

theorem not_recursive_of_marks (hv : v.Unshared) : ∀ k ∈ rt.marks a v.ids v, ¬ k.Recursive :=
  not_recursive_of_marksWith (fun path s m => not_recursive_of_marksText s.length v.ids path s m) v
    [] .start ⟨hv, fun _ _ h => absurd h List.not_mem_nil, fun _ h => h,
      fun _ h => absurd h List.not_mem_nil⟩

end Runtime

end BaseWebService.Logging
