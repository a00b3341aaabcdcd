import Mathlib.Data.List.Range
import Mathlib.Logic.Function.Basic
import BaseWebService.Logging.Plain

/-!
# Interpreters that do and do not reuse identities

Objects are numbered in the order in which a text holds them. `neverReuse` numbers on from
everything met before; `stack` numbers on from what is in use, so that the first object of a text
gets the identity of the first object of the text before it. For the latter the result of
redaction is the plain one only if the value is clean.
-/

namespace BaseWebService.Logging

open Library

/-! ## Numbering the objects of a value -/

section number
variable (f : ℕ → ℕ)

mutual

/-- The value with its objects numbered `f n`, `f (n + 1)` and so on. -/
def number (n : ℕ) : Tree → PyValue ℕ
  | .scalar x => .scalar x
  | .str text => .str text
  | .other _ o => .other (f n) o
  | .mapping _ entries => .mapping (f n) (numberEntries (n + 1) entries)
  | .seq kind _ items => .seq kind (f n) (numberItems (n + 1) items)

def numberEntries (n : ℕ) : List (Key × Tree) → List (Key × PyValue ℕ)
  | [] => []
  | (key, value) :: entries =>
    (key, number n value) :: numberEntries (n + value.ids.length) entries

def numberItems (n : ℕ) : List Tree → List (PyValue ℕ)
  | [] => []
  | value :: items => number n value :: numberItems (n + value.ids.length) items

end

mutual

theorem erase_number : ∀ (n : ℕ) (t : Tree), (number f n t).erase = t
  | _, .scalar _ => rfl
  | _, .str _ => rfl
  | _, .other _ _ => rfl
  | n, .mapping _ entries => by rw [number, PyValue.erase, erase_numberEntries (n + 1) entries]
  | n, .seq _ _ items => by rw [number, PyValue.erase, erase_numberItems (n + 1) items]

theorem erase_numberEntries : ∀ (n : ℕ) (entries : List (Key × Tree)),
    eraseEntries (numberEntries f n entries) = entries
  | _, [] => rfl
  | n, (_, value) :: entries => by
    rw [numberEntries, eraseEntries, erase_number n value, erase_numberEntries _ entries]

theorem erase_numberItems : ∀ (n : ℕ) (items : List Tree),
    eraseItems (numberItems f n items) = items
  | _, [] => rfl
  | n, value :: items => by
    rw [numberItems, eraseItems, erase_number n value, erase_numberItems _ items]

end

mutual

theorem ids_number : ∀ (n : ℕ) (t : Tree),
    (number f n t).ids = (List.range' n t.ids.length).map f
  | _, .scalar _ => rfl
  | _, .str _ => rfl
  | _, .other _ _ => rfl
  | n, .mapping _ entries => by
    rw [number, PyValue.ids, ids_numberEntries (n + 1) entries, PyValue.ids, List.length_cons,
      List.range'_succ, List.map_cons]
  | n, .seq _ _ items => by
    rw [number, PyValue.ids, ids_numberItems (n + 1) items, PyValue.ids, List.length_cons,
      List.range'_succ, List.map_cons]

theorem ids_numberEntries : ∀ (n : ℕ) (entries : List (Key × Tree)),
    idsEntries (numberEntries f n entries) =
      (List.range' n (idsEntries entries).length).map f
  | _, [] => rfl
  | n, (_, value) :: entries => by
    rw [numberEntries, idsEntries, ids_number n value, ids_numberEntries _ entries, idsEntries,
      List.length_append, ← List.range'_append_1, List.map_append]

theorem ids_numberItems : ∀ (n : ℕ) (items : List Tree),
    idsItems (numberItems f n items) = (List.range' n (idsItems items).length).map f
  | _, [] => rfl
  | n, value :: items => by
    rw [numberItems, idsItems, ids_number n value, ids_numberItems _ items, idsItems,
      List.length_append, ← List.range'_append_1, List.map_append]

end

end number

/-- The interpreter that numbers the objects of a text with `f`. -/
def Allocator.ofNumbering (f : Memory → List ℕ → Tree → ℕ → ℕ)
    (injective : ∀ m live t, Function.Injective (f m live t))
    (fresh : ∀ m live t n, f m live t n ∉ live) : Allocator where
  build m live t := number (f m live t) 0 t
  erase_build m live t := erase_number _ 0 t
  unshared_build m live t := by
    rw [PyValue.Unshared, ids_number]
    exact List.Nodup.map (injective m live t) (List.nodup_range' ..)
  not_live m live t id hid := by
    rw [ids_number] at hid
    obtain ⟨n, -, rfl⟩ := List.mem_map.mp hid
    exact fresh m live t n

/-- A number above all of a list. -/
def above (ids : List ℕ) : ℕ := ids.foldr (fun id n => max (id + 1) n) 0

theorem lt_above {ids : List ℕ} {id : ℕ} (h : id ∈ ids) : id < above ids := by
  induction ids with
  | nil => cases h
  | cons i ids ih =>
    rw [above, List.foldr_cons]
    rcases List.mem_cons.mp h with rfl | h
    · omega
    · exact (ih h).trans_le (le_max_right _ _)

theorem above_add_not_mem (ids : List ℕ) (n : ℕ) : above ids + n ∉ ids := fun h => by
  have hlt := lt_above h
  omega

namespace Allocator

/-- The lowest numbers above what is in use. -/
def stack : Allocator :=
  ofNumbering (fun _ live _ n => above live + n) (fun _ _ _ _ _ h => Nat.add_left_cancel h)
    fun _ live _ n => above_add_not_mem live n

/-- The lowest numbers above what is in use and what has been met. -/
def neverReuse : Allocator :=
  ofNumbering (fun m live _ n => above (m.visited ++ live) + n)
    (fun _ _ _ _ _ h => Nat.add_left_cancel h) fun m live _ n h =>
    above_add_not_mem (m.visited ++ live) n (List.mem_append_right _ h)

theorem neverReuse_neverReuses : neverReuse.NeverReuses := by
  intro m live t id hid hvisited
  have hid' : id ∈ (number (fun n => above (m.visited ++ live) + n) 0 t).ids := hid
  rw [ids_number] at hid'
  obtain ⟨n, -, rfl⟩ := List.mem_map.mp hid'
  exact above_add_not_mem (m.visited ++ live) n (List.mem_append_left _ hvisited)

end Allocator

/-! ## On a stack, only clean values are redacted plainly -/

-- Of a mutual group some members need a hypothesis only for the others.
set_option linter.unusedSectionVars false

section walk
variable {rt : Runtime} {onText : String → Memory → Tree × Memory} {unfoldText : String → Doc}

section mono
variable (htext : ∀ s m, m.visited ⊆ (onText s m).2.visited)
include htext

mutual

/-- `_visited` only grows. -/
theorem redactWith_mono : ∀ (v : PyValue ℕ) (m : Memory),
    m.visited ⊆ (rt.redactWith onText v m).2.visited
  | .scalar _, _ => List.Subset.refl _
  | .str text, m => htext text m
  | .other id _, m => by
    unfold Runtime.redactWith
    split
    · exact List.Subset.refl _
    · exact List.subset_cons_self _ _
  | .mapping id entries, m => by
    unfold Runtime.redactWith
    split
    · exact List.Subset.refl _
    · exact List.Subset.trans (List.subset_cons_self _ _) (redactEntries_mono entries (m.visit id))
  | .seq _ id items, m => by
    unfold Runtime.redactWith
    split
    · exact List.Subset.refl _
    · exact List.Subset.trans (List.subset_cons_self _ _) (redactItems_mono 100 items (m.visit id))

theorem redactEntries_mono : ∀ (entries : List (Key × PyValue ℕ)) (m : Memory),
    m.visited ⊆ (rt.redactEntries onText entries m).2.visited
  | [], _ => List.Subset.refl _
  | (key, value) :: entries, m => by
    rw [Runtime.redactEntries]
    refine List.Subset.trans ?_ (redactEntries_mono entries _)
    split
    · exact List.Subset.refl _
    · exact redactWith_mono value m

theorem redactItems_mono : ∀ (limit : ℕ) (items : List (PyValue ℕ)) (m : Memory),
    m.visited ⊆ (rt.redactItems onText limit items m).2.visited
  | _, [], _ => List.Subset.refl _
  | 0, _ :: _, _ => List.Subset.refl _
  | limit + 1, value :: items, m => by
    rw [Runtime.redactItems]
    exact List.Subset.trans (redactWith_mono value m) (redactItems_mono limit items _)

end

end mono

variable {live : List ℕ} {first : ℕ}
  (hgrows : ∀ s m, Grows live [] (rt.parses (unfoldText s)) m (onText s m).2)
  (hmono : ∀ s m, m.visited ⊆ (onText s m).2.visited)
  (hmeets : ∀ s m, rt.parses (unfoldText s) = true → first ∈ (onText s m).2.visited)

section meets
include hgrows hmono hmeets

mutual

/-- Once a text has been parsed, the identity of its first object has been met. -/
theorem redactWith_meets : ∀ (v : PyValue ℕ) (m : Memory) (dirty : Bool),
    Ready live v.ids dirty m → rt.parses (unfoldWith unfoldText v) = true →
    first ∈ (rt.redactWith onText v m).2.visited
  | .str text, m, _, _, hparses => hmeets text m hparses
  | .mapping id entries, m, dirty, hready, hparses => by
    rw [Runtime.redactWith_mapping entries hready.not_visited]
    exact redactEntries_meets entries (m.visit id) dirty hready.visit hparses
  | .seq kind id items, m, dirty, hready, hparses => by
    rw [Runtime.redactWith_seq kind items hready.not_visited]
    exact redactItems_meets 100 items (m.visit id) dirty hready.visit hparses

theorem redactEntries_meets : ∀ (entries : List (Key × PyValue ℕ)) (m : Memory) (dirty : Bool),
    Ready live (idsEntries entries) dirty m →
    rt.parsesEntries (unfoldEntries unfoldText entries) = true →
    first ∈ (rt.redactEntries onText entries m).2.visited
  | (key, value) :: entries, m, dirty, hready, hparses => by
    rw [unfoldEntries, Runtime.parsesEntries, Bool.or_eq_true, Bool.and_eq_true,
      Bool.not_eq_true'] at hparses
    rw [Runtime.redactEntries]
    by_cases hrest : rt.parsesEntries (unfoldEntries unfoldText entries) = true
    · exact redactEntries_meets entries _ _
        (hready.right (redactEntry_grows hgrows key value m)) hrest
    · obtain ⟨hkey, hvalue⟩ := hparses.resolve_right hrest
      rw [if_neg (by simp [hkey])]
      exact redactEntries_mono hmono entries _
        (redactWith_meets value m dirty hready.left hvalue)

theorem redactItems_meets : ∀ (limit : ℕ) (items : List (PyValue ℕ)) (m : Memory) (dirty : Bool),
    Ready live (idsItems items) dirty m →
    rt.parsesItems limit (unfoldItems unfoldText items) = true →
    first ∈ (rt.redactItems onText limit items m).2.visited
  | 0, _ :: _, _, _, _, hparses => Bool.noConfusion hparses
  | limit + 1, value :: items, m, dirty, hready, hparses => by
    rw [unfoldItems, Runtime.parsesItems, Bool.or_eq_true] at hparses
    rw [Runtime.redactItems]
    rcases hparses with hvalue | hrest
    · exact redactItems_mono hmono limit items _
        (redactWith_meets value m dirty hready.left hvalue)
    · exact redactItems_meets limit items _ _
        (hready.right (redactWith_grows hgrows value m)) hrest

end

end meets

section clean
variable (htext : ∀ s m dirty, (dirty = false → ∀ id ∈ m.visited, id ∈ live) →
  (dirty = true → first ∈ m.visited) → (onText s m).1 = rt.plain (unfoldText s) →
  rt.clean dirty (unfoldText s) = true)
include hgrows hmono hmeets htext

mutual

/-- If the identity of a text's first object has been met when some text is done with, a plain
result means that no other text shows in it. -/
theorem clean_of_redactWith : ∀ (v : PyValue ℕ) (m : Memory) (dirty : Bool),
    Ready live v.ids dirty m → (dirty = true → first ∈ m.visited) →
    (rt.redactWith onText v m).1 = rt.plain (unfoldWith unfoldText v) →
    rt.clean dirty (unfoldWith unfoldText v) = true
  | .scalar _, _, _, _, _, _ => rfl
  | .str text, m, dirty, hready, hdirty, hplain => htext text m dirty hready.inUse hdirty hplain
  | .other _ _, _, _, _, _, _ => rfl
  | .mapping id entries, m, dirty, hready, hdirty, hplain => by
    rw [Runtime.redactWith_mapping entries hready.not_visited, unfoldWith, Runtime.plain] at hplain
    have hdict := (pyDict_eq_iff (keys_redactEntries entries _)).mp (PyValue.mapping.inj hplain).2
    exact clean_of_redactEntries entries (m.visit id) dirty hready.visit
      (fun h => List.mem_cons_of_mem _ (hdirty h)) hdict
  | .seq kind id items, m, dirty, hready, hdirty, hplain => by
    rw [Runtime.redactWith_seq kind items hready.not_visited, unfoldWith, Runtime.plain] at hplain
    exact clean_of_redactItems 100 items (m.visit id) dirty hready.visit
      (fun h => List.mem_cons_of_mem _ (hdirty h)) (PyValue.seq.inj hplain).2.2

theorem clean_of_redactEntries : ∀ (entries : List (Key × PyValue ℕ)) (m : Memory) (dirty : Bool),
    Ready live (idsEntries entries) dirty m → (dirty = true → first ∈ m.visited) →
    (∀ key, lastValue (rt.redactEntries onText entries m).1 key =
      lastValue (rt.plainEntries (unfoldEntries unfoldText entries)) key) →
    rt.cleanEntries dirty (unfoldEntries unfoldText entries) = true
  | [], _, _, _, _, _ => rfl
  | (key, value) :: entries, m, dirty, hready, hdirty, hplain => by
    rw [Runtime.redactEntries, unfoldEntries, Runtime.plainEntries] at hplain
    obtain ⟨hrest, hvalue⟩ := (lastValue_cons_iff (keys_redactEntries entries _)).mp hplain
    rw [unfoldEntries, Runtime.cleanEntries, Bool.and_eq_true]
    constructor
    · by_cases hkey : rt.isSensitiveKey key = true
      · simp [hkey]
      by_cases hshown : overwritten key (unfoldEntries unfoldText entries) = true
      · simp [hshown]
      have hplain := hvalue (mt (overwritten_iff key entries _).mpr hshown)
      rw [if_neg hkey, if_neg hkey] at hplain
      simp [clean_of_redactWith value m dirty hready.left hdirty hplain]
    · refine clean_of_redactEntries entries _ _
        (hready.right (redactEntry_grows hgrows key value m)) (fun hdirty' => ?_) hrest
      rw [Bool.or_eq_true, Bool.and_eq_true, Bool.not_eq_true'] at hdirty'
      rcases hdirty' with h | ⟨hkey, h⟩
      · split
        · exact hdirty h
        · exact redactWith_mono hmono value m (hdirty h)
      · rw [if_neg (by simp [hkey])]
        exact redactWith_meets hgrows hmono hmeets value m dirty hready.left h

theorem clean_of_redactItems : ∀ (limit : ℕ) (items : List (PyValue ℕ)) (m : Memory)
    (dirty : Bool), Ready live (idsItems items) dirty m → (dirty = true → first ∈ m.visited) →
    (rt.redactItems onText limit items m).1 =
      rt.plainItems limit (unfoldItems unfoldText items) →
    rt.cleanItems dirty limit (unfoldItems unfoldText items) = true
  | _, [], _, _, _, _, _ => rfl
  | 0, _ :: _, _, _, _, _, _ => rfl
  | limit + 1, value :: items, m, dirty, hready, hdirty, hplain => by
    rw [Runtime.redactItems, unfoldItems, Runtime.plainItems] at hplain
    obtain ⟨hvalue, hrest⟩ := List.cons.inj hplain
    rw [unfoldItems, Runtime.cleanItems, Bool.and_eq_true]
    refine ⟨clean_of_redactWith value m dirty hready.left hdirty hvalue,
      clean_of_redactItems limit items _ _ (hready.right (redactWith_grows hgrows value m))
        (fun hdirty' => ?_) hrest⟩
    rcases Bool.or_eq_true_iff.mp hdirty' with h | h
    · exact redactWith_mono hmono value m (hdirty h)
    · exact redactWith_meets hgrows hmono hmeets value m dirty hready.left h

end

end clean

end walk

namespace Runtime

variable {rt : Runtime}

theorem redactText_mono (a : Allocator) (depth : ℕ) (live : List ℕ) (text : String) (m : Memory) :
    m.visited ⊆ (rt.redactText a depth live text m).2.visited := by
  induction depth generalizing live text m with
  | zero => exact List.Subset.refl _
  | succ depth ih =>
    unfold redactText
    cases rt.parseText text with
    | none => exact List.Subset.refl _
    | some t => exact redactWith_mono (ih _) (a.build m live t) m.parse

/-- What a text parses to is a container with the first identity above those in use. -/
theorem stack_build {text : String} {t : Tree} (h : rt.parseText text = some t) (m : Memory)
    (live : List ℕ) :
    (∃ entries, Allocator.stack.build m live t = .mapping (above live) entries) ∨
      ∃ items, Allocator.stack.build m live t = .seq .list (above live) items := by
  have hcontainer := parseText_container h
  match t, hcontainer with
  | .mapping _ entries, _ => exact Or.inl ⟨_, rfl⟩
  | .seq .list _ items, _ => exact Or.inr ⟨_, rfl⟩

theorem redactText_meets (depth : ℕ) (live : List ℕ) (text : String) (m : Memory)
    (h : rt.parses (rt.unfoldText depth text) = true) :
    above live ∈ (rt.redactText .stack depth live text m).2.visited := by
  cases depth with
  | zero => cases h
  | succ depth =>
    unfold unfoldText at h
    unfold redactText
    cases hparse : rt.parseText text with
    | none => simp [hparse, parses] at h
    | some t =>
      rcases stack_build hparse m live with ⟨entries, hbuild⟩ | ⟨items, hbuild⟩
      · simp only [hbuild]
        by_cases hmet : above live ∈ m.parse.visited
        · exact redactWith_mono (redactText_mono _ _ _) _ _ hmet
        · rw [redactWith_mapping entries hmet]
          exact redactEntries_mono (redactText_mono _ _ _) _ _ List.mem_cons_self
      · simp only [hbuild]
        by_cases hmet : above live ∈ m.parse.visited
        · exact redactWith_mono (redactText_mono _ _ _) _ _ hmet
        · rw [redactWith_seq _ items hmet]
          exact redactItems_mono (redactText_mono _ _ _) _ _ _ List.mem_cons_self

/-- A container met before is redacted to a string, which the plain redaction never makes of it. -/
theorem redactWith_ne_plain {onText : String → Memory → Tree × Memory} {unfoldText : String → Doc}
    {v : PyValue ℕ} {id : ℕ} {m : Memory}
    (hv : (∃ entries, v = .mapping id entries) ∨ ∃ items, v = .seq .list id items)
    (hmet : id ∈ m.visited) :
    (rt.redactWith onText v m).1 ≠ rt.plain (unfoldWith unfoldText v) := by
  rcases hv with ⟨entries, rfl⟩ | ⟨items, rfl⟩
  · rw [redactWith, if_pos hmet, unfoldWith, plain]
    exact fun h => by cases h
  · rw [redactWith, if_pos hmet, unfoldWith, plain]
    exact fun h => by cases h

theorem clean_of_redactText (depth : ℕ) (live : List ℕ) (text : String) (m : Memory)
    (dirty : Bool) (hinUse : dirty = false → ∀ id ∈ m.visited, id ∈ live)
    (hdirty : dirty = true → above live ∈ m.visited)
    (hplain : (rt.redactText .stack depth live text m).1 = rt.plain (rt.unfoldText depth text)) :
    rt.clean dirty (rt.unfoldText depth text) = true := by
  induction depth generalizing live text m dirty with
  | zero => rfl
  | succ depth ih =>
    unfold redactText unfoldText at hplain
    unfold unfoldText
    cases hparse : rt.parseText text with
    | none => rfl
    | some t =>
      simp only [hparse, plain] at hplain
      rw [← unfoldWith_build (a := .stack) _ m live t] at hplain
      cases dirty with
      | true => exact absurd hplain (redactWith_ne_plain (stack_build hparse m live) (hdirty rfl))
      | false =>
        have hready := ready_build (a := .stack) (t := t) hinUse (Or.inr rfl)
        have hclean := clean_of_redactWith (redactText_grows depth _) (redactText_mono _ depth _)
          (redactText_meets depth _) (ih _) _ m.parse false hready (fun h => by cases h) hplain
        rw [unfoldWith_build] at hclean
        exact hclean

/-- Of the redactions an interpreter can come to, all are the plain one only if the value is
clean. -/
theorem clean_of_redact_eq_plain {v : PyValue ℕ} (hv : v.Unshared)
    (hplain : rt.redact .stack v = rt.plain (rt.unfold v)) : rt.clean false (rt.unfold v) = true :=
  clean_of_redactWith (fun s m => redactText_grows s.length v.ids s m)
    (fun s m => redactText_mono _ s.length v.ids s m)
    (fun s m => redactText_meets s.length v.ids s m)
    (fun s m dirty => clean_of_redactText s.length v.ids s m dirty) v .start false
    (Ready.start hv) (fun h => by cases h) hplain

end Runtime

end BaseWebService.Logging
