import BaseWebService.Logging.Unfold

/-!
# When redaction is the plain one

`_visited` is never emptied, so once the walk of a parsed text is over it holds identities that
are free again. The next parsed text can get one of them and be taken for an object met before.
`Doc.clean` says that this cannot show in the result; then, and for an interpreter that does not
reuse identities always, an unshared value is redacted plainly.
-/

namespace BaseWebService.Logging

open Library

/-- A later entry has the same text for its key, and its value ends up in the dictionary. -/
def overwritten (key : Key) (entries : List (Key × Doc)) : Bool :=
  entries.any fun e => e.1.text == key.text

namespace Runtime

variable (rt : Runtime)

mutual

/-- Some JSON text is parsed on the walk. -/
def parses : Doc → Bool
  | .scalar _ => false
  | .str _ => false
  | .other _ => false
  | .json _ => true
  | .mapping entries => parsesEntries entries
  | .seq _ items => parsesItems 100 items

def parsesEntries : List (Key × Doc) → Bool
  | [] => false
  | (key, d) :: entries => (!rt.isSensitiveKey key && parses d) || parsesEntries entries

def parsesItems (limit : ℕ) : List Doc → Bool
  | [] => false
  | d :: items =>
    match limit with
    | 0 => false
    | limit + 1 => parses d || parsesItems limit items

end

mutual

/-- The identities of the objects that are walked, once for each occurrence. -/
def walked : PyValue ℕ → List ℕ
  | .scalar _ => []
  | .str _ => []
  | .other id _ => [id]
  | .mapping id entries => id :: walkedEntries entries
  | .seq _ id items => id :: walkedItems 100 items

def walkedEntries : List (Key × PyValue ℕ) → List ℕ
  | [] => []
  | (key, value) :: entries =>
    (if rt.isSensitiveKey key then [] else walked value) ++ walkedEntries entries

def walkedItems (limit : ℕ) : List (PyValue ℕ) → List ℕ
  | [] => []
  | value :: items =>
    match limit with
    | 0 => []
    | limit + 1 => walked value ++ walkedItems limit items

end

mutual

/-- No JSON text that shows in the result is parsed after another one is done with; `dirty` says
that one is already. -/
def clean (dirty : Bool) : Doc → Bool
  | .scalar _ => true
  | .str _ => true
  | .other _ => true
  | .json d => !dirty && clean false d
  | .mapping entries => cleanEntries dirty entries
  | .seq _ items => cleanItems dirty 100 items

def cleanEntries (dirty : Bool) : List (Key × Doc) → Bool
  | [] => true
  | (key, d) :: entries =>
    (rt.isSensitiveKey key || overwritten key entries || clean dirty d) &&
      cleanEntries (dirty || (!rt.isSensitiveKey key && rt.parses d)) entries

def cleanItems (dirty : Bool) (limit : ℕ) : List Doc → Bool
  | [] => true
  | d :: items =>
    match limit with
    | 0 => true
    | limit + 1 => clean dirty d && cleanItems (dirty || rt.parses d) limit items

end

end Runtime

/-! ## What the walk of a value adds to `_visited` -/

/-- The new members of `_visited` are the value's own, or belong to texts that were parsed. -/
def Grows (live ids : List ℕ) (parses : Bool) (m m' : Memory) : Prop :=
  ∀ id ∈ m'.visited, id ∈ m.visited ∨ id ∈ ids ∨ (parses = true ∧ id ∉ live)

theorem Grows.refl {live ids : List ℕ} {parses : Bool} (m : Memory) : Grows live ids parses m m :=
  fun _ h => Or.inl h

theorem Grows.append {live ids ids' : List ℕ} {p p' : Bool} {m m' m'' : Memory}
    (h : Grows live ids p m m') (h' : Grows live ids' p' m' m'') :
    Grows live (ids ++ ids') (p || p') m m'' := by
  intro id hid
  rcases h' id hid with hid | hid | ⟨hp, hid⟩
  · rcases h id hid with hid | hid | ⟨hp, hid⟩
    · exact Or.inl hid
    · exact Or.inr (Or.inl (List.mem_append_left _ hid))
    · exact Or.inr (Or.inr ⟨by simp [hp], hid⟩)
  · exact Or.inr (Or.inl (List.mem_append_right _ hid))
  · exact Or.inr (Or.inr ⟨by simp [hp], hid⟩)

theorem Grows.cons {live ids : List ℕ} {p : Bool} {id : ℕ} {m m' : Memory}
    (h : Grows live ids p (m.visit id) m') : Grows live (id :: ids) p m m' := by
  intro i hi
  rcases h i hi with hi | hi | hi
  · rcases List.mem_cons.mp hi with rfl | hi
    · exact Or.inr (Or.inl List.mem_cons_self)
    · exact Or.inl hi
  · exact Or.inr (Or.inl (List.mem_cons_of_mem _ hi))
  · exact Or.inr (Or.inr hi)

theorem Grows.mono {live ids ids' : List ℕ} {p : Bool} {m m' : Memory} (h : Grows live ids p m m')
    (hids : ids ⊆ ids') : Grows live ids' p m m' :=
  fun id hid => (h id hid).imp_right (Or.imp_left fun hmem => hids hmem)

/-- The walk may start on a value with these identities: none has been met, and unless some text
is done with already, whatever has been met is still in use. -/
structure Ready (live ids : List ℕ) (dirty : Bool) (m : Memory) : Prop where
  nodup : ids.Nodup
  held : ∀ id ∈ ids, id ∈ live
  unseen : ∀ id ∈ ids, id ∉ m.visited
  inUse : dirty = false → ∀ id ∈ m.visited, id ∈ live

namespace Ready

variable {live ids ids' : List ℕ} {dirty parses : Bool} {id : ℕ} {m m' : Memory}

theorem not_visited (h : Ready live (id :: ids) dirty m) : id ∉ m.visited :=
  h.unseen id List.mem_cons_self

theorem visit (h : Ready live (id :: ids) dirty m) : Ready live ids dirty (m.visit id) where
  nodup := h.nodup.of_cons
  held := fun i hi => h.held i (List.mem_cons_of_mem _ hi)
  unseen := by
    intro i hi hvisited
    rcases List.mem_cons.mp hvisited with rfl | hvisited
    · exact (List.nodup_cons.mp h.nodup).1 hi
    · exact h.unseen i (List.mem_cons_of_mem _ hi) hvisited
  inUse := by
    intro hdirty i hvisited
    rcases List.mem_cons.mp hvisited with rfl | hvisited
    · exact h.held _ List.mem_cons_self
    · exact h.inUse hdirty i hvisited

theorem left (h : Ready live (ids ++ ids') dirty m) : Ready live ids dirty m where
  nodup := h.nodup.of_append_left
  held := fun i hi => h.held i (List.mem_append_left _ hi)
  unseen := fun i hi => h.unseen i (List.mem_append_left _ hi)
  inUse := h.inUse

theorem of_sublist (h : Ready live ids dirty m) (hids : ids'.Sublist ids) :
    Ready live ids' dirty m where
  nodup := h.nodup.sublist hids
  held := fun i hi => h.held i (hids.subset hi)
  unseen := fun i hi => h.unseen i (hids.subset hi)
  inUse := h.inUse

/-- After the walk of the first part the second may be walked. -/
theorem right (h : Ready live (ids ++ ids') dirty m) (hgrows : Grows live ids parses m m') :
    Ready live ids' (dirty || parses) m' where
  nodup := h.nodup.of_append_right
  held := fun i hi => h.held i (List.mem_append_right _ hi)
  unseen := by
    intro i hi hvisited
    rcases hgrows i hvisited with hvisited | hids | ⟨-, hdead⟩
    · exact h.unseen i (List.mem_append_right _ hi) hvisited
    · exact List.disjoint_of_nodup_append h.nodup hids hi
    · exact hdead (h.held i (List.mem_append_right _ hi))
  inUse := by
    intro hdirty i hvisited
    obtain ⟨hclean, hparses⟩ := Bool.or_eq_false_iff.mp hdirty
    rcases hgrows i hvisited with hvisited | hids | ⟨hp, -⟩
    · exact h.inUse hclean i hvisited
    · exact h.held i (List.mem_append_left _ hids)
    · rw [hparses] at hp
      cases hp

/-- A value with no shared objects may be walked from the start. -/
theorem start (h : ids.Nodup) : Ready ids ids false .start where
  nodup := h
  held := fun _ hi => hi
  unseen := fun _ _ hvisited => by cases hvisited
  inUse := fun _ _ hvisited => by cases hvisited

end Ready

-- Of a mutual group some members need a hypothesis only for the others.
set_option linter.unusedSectionVars false

section walk
variable {rt : Runtime} {onText : String → Memory → Tree × Memory} {unfoldText : String → Doc}

theorem keys_redactEntries : ∀ (entries : List (Key × PyValue ℕ)) (m : Memory),
    (rt.redactEntries onText entries m).1.map Prod.fst =
      (rt.plainEntries (unfoldEntries unfoldText entries)).map Prod.fst
  | [], _ => rfl
  | _ :: entries, m => by
    rw [Runtime.redactEntries, unfoldEntries, Runtime.plainEntries, List.map_cons, List.map_cons,
      keys_redactEntries entries]

/-- Being overwritten, read off the keys of the result. -/
theorem overwritten_iff (key : Key) : ∀ (entries : List (Key × PyValue ℕ)) (m : Memory),
    overwritten key (unfoldEntries unfoldText entries) = true ↔
      Key.str key.text ∈ (rt.redactEntries onText entries m).1.map Prod.fst
  | [], _ => by simp [Runtime.redactEntries, unfoldEntries, overwritten]
  | _ :: entries, m => by
    have ih := overwritten_iff key entries
    simp only [overwritten, Runtime.redactEntries, unfoldEntries, List.any_cons, List.map_cons,
      List.mem_cons, Bool.or_eq_true, beq_iff_eq, Key.str.injEq] at ih ⊢
    rw [ih, eq_comm]

variable {live : List ℕ}

mutual

/-- What is walked is part of the value. -/
theorem walked_sublist : ∀ v : PyValue ℕ, (rt.walked v).Sublist v.ids
  | .scalar _ => List.Sublist.refl _
  | .str _ => List.Sublist.refl _
  | .other _ _ => List.Sublist.refl _
  | .mapping id entries => (walkedEntries_sublist entries).cons_cons id
  | .seq _ id items => (walkedItems_sublist 100 items).cons_cons id

theorem walkedEntries_sublist : ∀ entries : List (Key × PyValue ℕ),
    (rt.walkedEntries entries).Sublist (idsEntries entries)
  | [] => List.Sublist.refl _
  | (_, value) :: entries => by
    rw [Runtime.walkedEntries, idsEntries]
    refine List.Sublist.append ?_ (walkedEntries_sublist entries)
    split
    · exact List.nil_sublist _
    · exact walked_sublist value

theorem walkedItems_sublist : ∀ (limit : ℕ) (items : List (PyValue ℕ)),
    (rt.walkedItems limit items).Sublist (idsItems items)
  | _, [] => List.Sublist.refl _
  | 0, _ :: _ => List.nil_sublist _
  | limit + 1, value :: items =>
    (walked_sublist value).append (walkedItems_sublist limit items)

end

section grows
variable (htext : ∀ s m, Grows live [] (rt.parses (unfoldText s)) m (onText s m).2)
include htext

mutual

theorem redactWith_grows_walked : ∀ (v : PyValue ℕ) (m : Memory),
    Grows live (rt.walked v) (rt.parses (unfoldWith unfoldText v)) m (rt.redactWith onText v m).2
  | .scalar _, m => Grows.refl m
  | .str text, m => htext text m
  | .other id _, m => by
    unfold Runtime.redactWith
    split
    · exact Grows.refl m
    · exact (Grows.refl _).cons
  | .mapping id entries, m => by
    unfold Runtime.redactWith
    split
    · exact Grows.refl m
    · exact (redactEntries_grows_walked entries (m.visit id)).cons
  | .seq _ id items, m => by
    unfold Runtime.redactWith
    split
    · exact Grows.refl m
    · exact (redactItems_grows_walked 100 items (m.visit id)).cons

theorem redactEntries_grows_walked : ∀ (entries : List (Key × PyValue ℕ)) (m : Memory),
    Grows live (rt.walkedEntries entries) (rt.parsesEntries (unfoldEntries unfoldText entries)) m
      (rt.redactEntries onText entries m).2
  | [], m => Grows.refl m
  | (key, value) :: entries, m => by
    rw [Runtime.redactEntries, Runtime.walkedEntries, unfoldEntries, Runtime.parsesEntries]
    refine Grows.append ?_ (redactEntries_grows_walked entries _)
    split
    · exact Grows.refl m
    · rename_i hkey
      simpa [hkey] using redactWith_grows_walked value m

theorem redactItems_grows_walked : ∀ (limit : ℕ) (items : List (PyValue ℕ)) (m : Memory),
    Grows live (rt.walkedItems limit items) (rt.parsesItems limit (unfoldItems unfoldText items)) m
      (rt.redactItems onText limit items m).2
  | _, [], m => Grows.refl m
  | 0, _ :: _, m => Grows.refl m
  | limit + 1, value :: items, m => by
    rw [Runtime.redactItems, Runtime.walkedItems, unfoldItems, Runtime.parsesItems]
    exact (redactWith_grows_walked value m).append (redactItems_grows_walked limit items _)

end

/-- The value of one entry, walked unless its key is sensitive. -/
theorem redactEntry_grows_walked (key : Key) (value : PyValue ℕ) (m : Memory) :
    Grows live (if rt.isSensitiveKey key then [] else rt.walked value)
      (!rt.isSensitiveKey key && rt.parses (unfoldWith unfoldText value)) m
      (if rt.isSensitiveKey key then (.str redacted, m) else rt.redactWith onText value m).2 := by
  split
  · exact Grows.refl m
  · rename_i hkey
    simpa [hkey] using redactWith_grows_walked htext value m

theorem redactWith_grows (v : PyValue ℕ) (m : Memory) :
    Grows live v.ids (rt.parses (unfoldWith unfoldText v)) m (rt.redactWith onText v m).2 :=
  (redactWith_grows_walked htext v m).mono (walked_sublist v).subset

theorem redactEntry_grows (key : Key) (value : PyValue ℕ) (m : Memory) :
    Grows live value.ids (!rt.isSensitiveKey key && rt.parses (unfoldWith unfoldText value)) m
      (if rt.isSensitiveKey key then (.str redacted, m) else rt.redactWith onText value m).2 := by
  refine (redactEntry_grows_walked htext key value m).mono ?_
  split
  · exact List.nil_subset _
  · exact (walked_sublist value).subset

end grows

section plain
variable {a : Allocator}

/-- Identities of parsed objects are never among those met before. -/
def Allocator.NeverReuses (a : Allocator) : Prop :=
  ∀ m live t, ∀ id ∈ (a.build m live t).ids, id ∉ m.visited

variable (hgrows : ∀ s m, Grows live [] (rt.parses (unfoldText s)) m (onText s m).2)
  (htext : ∀ s m dirty, (dirty = false → ∀ id ∈ m.visited, id ∈ live) →
    a.NeverReuses ∨ rt.clean dirty (unfoldText s) = true →
    (onText s m).1 = rt.plain (unfoldText s))
include hgrows htext

mutual

theorem redactWith_eq_plain : ∀ (v : PyValue ℕ) (m : Memory) (dirty : Bool),
    Ready live v.ids dirty m →
    a.NeverReuses ∨ rt.clean dirty (unfoldWith unfoldText v) = true →
    (rt.redactWith onText v m).1 = rt.plain (unfoldWith unfoldText v)
  | .scalar _, _, _, _, _ => rfl
  | .str text, m, dirty, hready, hclean => htext text m dirty hready.inUse hclean
  | .other id o, m, _, hready, _ => by
    rw [Runtime.redactWith_other o hready.not_visited]
    rfl
  | .mapping id entries, m, dirty, hready, hclean => by
    have hentries := redactEntries_eq_plain entries (m.visit id) dirty hready.visit hclean
    rw [Runtime.redactWith_mapping entries hready.not_visited, unfoldWith, Runtime.plain,
      (pyDict_eq_iff (keys_redactEntries entries _)).mpr hentries]
  | .seq kind id items, m, dirty, hready, hclean => by
    have hitems := redactItems_eq_plain 100 items (m.visit id) dirty hready.visit hclean
    rw [Runtime.redactWith_seq kind items hready.not_visited, unfoldWith, Runtime.plain, hitems]

theorem redactEntries_eq_plain : ∀ (entries : List (Key × PyValue ℕ)) (m : Memory) (dirty : Bool),
    Ready live (idsEntries entries) dirty m →
    a.NeverReuses ∨ rt.cleanEntries dirty (unfoldEntries unfoldText entries) = true →
    ∀ key, lastValue (rt.redactEntries onText entries m).1 key =
      lastValue (rt.plainEntries (unfoldEntries unfoldText entries)) key
  | [], _, _, _, _ => fun _ => rfl
  | (key, value) :: entries, m, dirty, hready, hclean => by
    have hclean' : a.NeverReuses ∨
        (rt.isSensitiveKey key = true ∨ overwritten key (unfoldEntries unfoldText entries) = true ∨
          rt.clean dirty (unfoldWith unfoldText value) = true) ∧
        rt.cleanEntries
          (dirty || (!rt.isSensitiveKey key && rt.parses (unfoldWith unfoldText value)))
          (unfoldEntries unfoldText entries) = true := by
      simpa [unfoldEntries, Runtime.cleanEntries, or_assoc] using hclean
    rw [Runtime.redactEntries, unfoldEntries, Runtime.plainEntries]
    refine (lastValue_cons_iff (keys_redactEntries entries _)).mpr ⟨?_, fun hshown => ?_⟩
    · exact redactEntries_eq_plain entries _ _ (hready.right (redactEntry_grows hgrows key value m))
        (hclean'.imp_right And.right)
    · split
      · rfl
      · rename_i hkey
        refine redactWith_eq_plain value m dirty hready.left (hclean'.imp_right fun h => ?_)
        rcases h.1 with h | h | h
        · exact absurd h hkey
        · exact absurd ((overwritten_iff key entries _).mp h) hshown
        · exact h

theorem redactItems_eq_plain : ∀ (limit : ℕ) (items : List (PyValue ℕ)) (m : Memory)
    (dirty : Bool), Ready live (idsItems items) dirty m →
    a.NeverReuses ∨ rt.cleanItems dirty limit (unfoldItems unfoldText items) = true →
    (rt.redactItems onText limit items m).1 =
      rt.plainItems limit (unfoldItems unfoldText items)
  | _, [], _, _, _, _ => rfl
  | 0, _ :: _, _, _, _, _ => rfl
  | limit + 1, value :: items, m, dirty, hready, hclean => by
    have hclean' : a.NeverReuses ∨ rt.clean dirty (unfoldWith unfoldText value) = true ∧
        rt.cleanItems (dirty || rt.parses (unfoldWith unfoldText value)) limit
          (unfoldItems unfoldText items) = true := by
      simpa [unfoldItems, Runtime.cleanItems] using hclean
    have hvalue := redactWith_eq_plain value m dirty hready.left (hclean'.imp_right And.left)
    have hrest := redactItems_eq_plain limit items _ _
      (hready.right (redactWith_grows hgrows value m)) (hclean'.imp_right And.right)
    rw [Runtime.redactItems, unfoldItems, Runtime.plainItems, hvalue, hrest]

end

end plain

end walk

namespace Runtime

variable {rt : Runtime} {a : Allocator}

/-- The objects of a parsed text are new, so none of them is in use around it. -/
theorem redactText_grows (depth : ℕ) (live : List ℕ) (text : String) (m : Memory) :
    Grows live [] (rt.parses (rt.unfoldText depth text)) m
      (rt.redactText a depth live text m).2 := by
  induction depth generalizing live text m with
  | zero => exact Grows.refl m
  | succ depth ih =>
    unfold redactText unfoldText
    cases rt.parseText text with
    | none => exact Grows.refl m
    | some t =>
      have hwalk :=
        redactWith_grows (ih ((a.build m live t).ids ++ live)) (a.build m live t) m.parse
      intro id hid
      rcases hwalk id hid with hid | hid | ⟨-, hid⟩
      · exact Or.inl hid
      · exact Or.inr (Or.inr ⟨rfl, a.not_live m live t id hid⟩)
      · exact Or.inr (Or.inr ⟨rfl, fun hlive => hid (List.mem_append_right _ hlive)⟩)

/-- The objects of a parsed text, where none of them gets an identity met before. -/
theorem ready_build {dirty : Bool} {m : Memory} {live : List ℕ} {t : Tree}
    (hinUse : dirty = false → ∀ id ∈ m.visited, id ∈ live)
    (hnew : a.NeverReuses ∨ dirty = false) :
    Ready ((a.build m live t).ids ++ live) (a.build m live t).ids dirty m.parse where
  nodup := a.unshared_build m live t
  held := fun _ hid => List.mem_append_left _ hid
  unseen := by
    intro id hid hvisited
    rcases hnew with hnever | hclean
    · exact hnever m live t id hid hvisited
    · exact a.not_live m live t id hid (hinUse hclean id hvisited)
  inUse := fun hclean id hvisited => List.mem_append_right _ (hinUse hclean id hvisited)

theorem unfoldWith_build (onText : String → Doc) (m : Memory) (live : List ℕ) (t : Tree) :
    unfoldWith onText (a.build m live t) = unfoldWith onText t := by
  rw [← unfoldWith_erase, a.erase_build]

theorem redactText_eq_plain (depth : ℕ) (live : List ℕ) (text : String) (m : Memory)
    (dirty : Bool) (hinUse : dirty = false → ∀ id ∈ m.visited, id ∈ live)
    (hclean : a.NeverReuses ∨ rt.clean dirty (rt.unfoldText depth text) = true) :
    (rt.redactText a depth live text m).1 = rt.plain (rt.unfoldText depth text) := by
  induction depth generalizing live text m dirty with
  | zero => rfl
  | succ depth ih =>
    unfold unfoldText at hclean
    unfold redactText unfoldText
    cases hparse : rt.parseText text with
    | none => rfl
    | some t =>
      rw [hparse] at hclean
      have hcases : a.NeverReuses ∨
          dirty = false ∧ rt.clean false (unfoldWith (rt.unfoldText depth) t) = true := by
        simpa [clean] using hclean
      have hready := ready_build (t := t) hinUse (hcases.imp_right And.left)
      have hinner : a.NeverReuses ∨ rt.clean dirty (unfoldWith (rt.unfoldText depth)
          (a.build m live t)) = true := by
        rw [unfoldWith_build]
        refine hcases.imp_right ?_
        rintro ⟨rfl, h⟩
        exact h
      have hwalk := redactWith_eq_plain (redactText_grows depth _) (ih _) _ _ dirty hready hinner
      rw [unfoldWith_build] at hwalk
      exact hwalk

/-- Redaction is the plain one of the unfolded value, where identities are never reused or the
reuse of one cannot show. -/
theorem redact_eq_plain {v : PyValue ℕ} (hv : v.Unshared)
    (hclean : a.NeverReuses ∨ rt.clean false (rt.unfold v) = true) :
    rt.redact a v = rt.plain (rt.unfold v) :=
  redactWith_eq_plain (fun s m => redactText_grows s.length v.ids s m)
    (fun s m dirty => redactText_eq_plain s.length v.ids s m dirty) v .start false
    (Ready.start hv) hclean

end Runtime

end BaseWebService.Logging
