import Mathlib.Data.List.Induction
import Mathlib.Data.List.Nodup

/-!
# Python dictionaries

A dictionary is the list of its entries in insertion order. Setting a key that is there keeps its
place, so a dictionary built from a list of pairs has the last value of each key.
-/

namespace BaseWebService.Library

variable {κ β : Type} [DecidableEq κ]

/-- `d[key] = value`. -/
def pySet (d : List (κ × β)) (key : κ) (value : β) : List (κ × β) :=
  match d with
  | [] => [(key, value)]
  | e :: d => if e.1 = key then (key, value) :: d else e :: pySet d key value

/-- `{key: value for key, value in entries}`. -/
def pyDict (entries : List (κ × β)) : List (κ × β) :=
  entries.foldl (fun d e => pySet d e.1 e.2) []

/-- `d.get(key)`. -/
def pyGet (d : List (κ × β)) (key : κ) : Option β :=
  match d with
  | [] => none
  | e :: d => if e.1 = key then some e.2 else pyGet d key

/-- The value of the last entry with a key. -/
def lastValue (entries : List (κ × β)) (key : κ) : Option β :=
  match entries with
  | [] => none
  | e :: es => (lastValue es key).or (if e.1 = key then some e.2 else none)

theorem mem_of_pyGet {d : List (κ × β)} {key : κ} {value : β} (h : pyGet d key = some value) :
    (key, value) ∈ d := by
  induction d with
  | nil => cases h
  | cons e d ih =>
    unfold pyGet at h
    split at h
    · rename_i hkey
      rw [← hkey, ← Option.some.inj h]
      exact List.mem_cons_self
    · exact List.mem_cons_of_mem _ (ih h)

theorem pyGet_isSome_iff {d : List (κ × β)} {key : κ} :
    (pyGet d key).isSome ↔ key ∈ d.map Prod.fst := by
  induction d with
  | nil => simp [pyGet]
  | cons e d ih =>
    unfold pyGet
    split
    · simp_all
    · grind

theorem pyGet_of_mem {d : List (κ × β)} (hnodup : (d.map Prod.fst).Nodup) {e : κ × β} (he : e ∈ d) :
    pyGet d e.1 = some e.2 := by
  induction d with
  | nil => exact absurd he List.not_mem_nil
  | cons e' d ih =>
    obtain ⟨hnew, hnodup⟩ := List.nodup_cons.mp hnodup
    unfold pyGet
    rcases List.mem_cons.mp he with rfl | he
    · exact if_pos rfl
    · have hne : e'.1 ≠ e.1 := fun h => hnew (h ▸ List.mem_map_of_mem he)
      rw [if_neg hne, ih hnodup he]

/-- A key that is kept keeps its value. -/
theorem pyGet_filter {p : κ → Bool} {key : κ} (hkey : p key) (d : List (κ × β)) :
    pyGet (d.filter fun e => p e.1) key = pyGet d key := by
  induction d with
  | nil => rfl
  | cons e d ih =>
    rw [List.filter_cons]
    split
    · grind [pyGet]
    · have hne : e.1 ≠ key := by grind
      rw [ih, pyGet, if_neg hne]

theorem pyGet_pySet (d : List (κ × β)) (key key' : κ) (value : β) :
    pyGet (pySet d key value) key' = if key = key' then some value else pyGet d key' := by
  induction d with
  | nil => simp [pySet, pyGet]
  | cons e d ih =>
    unfold pySet
    split
    · grind [pyGet]
    · grind [pyGet]

/-- A dictionary built from entries answers with the last one of a key. -/
theorem pyGet_pyDict (entries : List (κ × β)) (key : κ) :
    pyGet (pyDict entries) key = lastValue entries key := by
  have hfold : ∀ d : List (κ × β), pyGet (entries.foldl (fun d e => pySet d e.1 e.2) d) key =
      (lastValue entries key).or (pyGet d key) := by
    induction entries with
    | nil => simp [lastValue]
    | cons e es ih =>
      intro d
      rw [List.foldl_cons, ih, pyGet_pySet, lastValue, Option.or_assoc]
      split <;> simp
  simpa [pyGet, pyDict] using hfold []

theorem lastValue_eq_none_iff {entries : List (κ × β)} {key : κ} :
    lastValue entries key = none ↔ key ∉ entries.map Prod.fst := by
  induction entries with
  | nil => simp [lastValue]
  | cons e es ih =>
    rw [lastValue, Option.or_eq_none_iff, ih]
    grind

/-- Two lists of entries with the same keys agree on all last values when their tails do, and their
heads do unless a later entry hides them. -/
theorem lastValue_cons_iff {key : κ} {x y : β} {es es' : List (κ × β)}
    (hkeys : es.map Prod.fst = es'.map Prod.fst) :
    (∀ k, lastValue ((key, x) :: es) k = lastValue ((key, y) :: es') k) ↔
      (∀ k, lastValue es k = lastValue es' k) ∧ (key ∉ es.map Prod.fst → x = y) := by
  have hnone : ∀ k, lastValue es k = none ↔ lastValue es' k = none := fun k => by
    rw [lastValue_eq_none_iff, lastValue_eq_none_iff, hkeys]
  constructor
  · intro h
    refine ⟨fun k => ?_, fun hkey => ?_⟩
    · have hk := h k
      have hiff := hnone k
      simp only [lastValue] at hk
      cases hes : lastValue es k <;> cases hes' : lastValue es' k <;> simp_all
    · have hk := h key
      have hes := lastValue_eq_none_iff.mpr hkey
      simpa [lastValue, hes, (hnone key).mp hes] using hk
  · rintro ⟨htail, hhead⟩ k
    simp only [lastValue, htail]
    by_cases hk : key = k
    · subst hk
      by_cases hkey : key ∈ es.map Prod.fst
      · have hes := mt lastValue_eq_none_iff.mp (not_not.mpr hkey)
        rw [htail] at hes
        obtain ⟨value, hvalue⟩ := Option.ne_none_iff_exists'.mp hes
        simp [hvalue]
      · rw [hhead hkey]
    · simp [hk]

theorem keys_pySet (d : List (κ × β)) (key : κ) (value : β) :
    (pySet d key value).map Prod.fst =
      if key ∈ d.map Prod.fst then d.map Prod.fst else d.map Prod.fst ++ [key] := by
  induction d with
  | nil => simp [pySet]
  | cons e d ih =>
    unfold pySet
    grind

/-- Setting values keeps the keys of a dictionary distinct, and which keys there are does not
depend on the values. -/
theorem keys_foldl_pySet {es es' : List (κ × β)} (hkeys : es.map Prod.fst = es'.map Prod.fst)
    {d d' : List (κ × β)} (hd : d.map Prod.fst = d'.map Prod.fst)
    (hnodup : (d.map Prod.fst).Nodup) :
    (es.foldl (fun d e => pySet d e.1 e.2) d).map Prod.fst =
        (es'.foldl (fun d e => pySet d e.1 e.2) d').map Prod.fst ∧
      ((es.foldl (fun d e => pySet d e.1 e.2) d).map Prod.fst).Nodup := by
  induction es generalizing es' d d' with
  | nil =>
    obtain rfl : es' = [] := by simpa using hkeys.symm
    exact ⟨hd, hnodup⟩
  | cons e es ih =>
    cases es' with
    | nil => cases hkeys
    | cons e' es' =>
      obtain ⟨hkey, hkeys⟩ := List.cons.inj hkeys
      refine ih hkeys ?_ ?_
      · rw [keys_pySet, keys_pySet, hd, hkey]
      · rw [keys_pySet]
        split
        · exact hnodup
        · rename_i hnew
          rw [← List.concat_eq_append]
          exact hnodup.concat hnew

/-- A dictionary is its keys and what it answers. -/
theorem eq_of_pyGet_eq {d d' : List (κ × β)} (hkeys : d.map Prod.fst = d'.map Prod.fst)
    (hnodup : (d.map Prod.fst).Nodup) (h : ∀ k, pyGet d k = pyGet d' k) : d = d' := by
  induction d generalizing d' with
  | nil => simpa using hkeys.symm
  | cons e d ih =>
    cases d' with
    | nil => cases hkeys
    | cons e' d' =>
      obtain ⟨hkey, hkeys⟩ := List.cons.inj hkeys
      obtain ⟨hnew, hnodup⟩ := List.nodup_cons.mp hnodup
      have hvalue : e.2 = e'.2 := by simpa [pyGet, hkey] using h e.1
      have hmissing : ∀ d₀ : List (κ × β), e.1 ∉ d₀.map Prod.fst → pyGet d₀ e.1 = none := by
        intro d₀ hnew
        induction d₀ with
        | nil => rfl
        | cons e₀ d₀ ih₀ => grind [pyGet]
      have htail : d = d' := ih hkeys hnodup fun k => by
        by_cases hk : e.1 = k
        · subst hk
          rw [hmissing d hnew, hmissing d' (hkeys ▸ hnew)]
        · have hget := h k
          simpa [pyGet, hk, ← hkey] using hget
      rw [htail, show e = e' from Prod.ext hkey hvalue]

/-- Dictionaries built from entries with the same keys are equal when the last values are. -/
theorem pyDict_eq_iff {es es' : List (κ × β)} (hkeys : es.map Prod.fst = es'.map Prod.fst) :
    pyDict es = pyDict es' ↔ ∀ k, lastValue es k = lastValue es' k := by
  constructor
  · intro h k
    rw [← pyGet_pyDict, h, pyGet_pyDict]
  · intro h
    have hnil : (([] : List (κ × β)).map Prod.fst).Nodup := List.nodup_nil
    have hdict := keys_foldl_pySet hkeys rfl hnil
    refine eq_of_pyGet_eq hdict.1 hdict.2 fun k => ?_
    have hget := h k
    rwa [← pyGet_pyDict, ← pyGet_pyDict] at hget

theorem nodup_keys_pyDict (entries : List (κ × β)) : ((pyDict entries).map Prod.fst).Nodup := by
  have hnil : (([] : List (κ × β)).map Prod.fst).Nodup := List.nodup_nil
  have hsame : entries.map Prod.fst = entries.map Prod.fst := rfl
  exact (keys_foldl_pySet hsame rfl hnil).2

section entries
variable {d : List (κ × β)} {e : κ × β} {key : κ} {value : β}

theorem mem_pySet_self : (key, value) ∈ pySet d key value := by
  induction d with
  | nil => exact List.mem_cons_self
  | cons e d ih =>
    unfold pySet
    split
    · exact List.mem_cons_self
    · exact List.mem_cons_of_mem _ ih

theorem mem_of_mem_pySet (h : e ∈ pySet d key value) : e = (key, value) ∨ e ∈ d := by
  induction d with
  | nil => exact .inl (List.mem_singleton.mp h)
  | cons e' d ih =>
    unfold pySet at h
    split at h
    · grind
    · grind

/-- The last entry is set last. -/
theorem pyDict_snoc (entries : List (κ × β)) (e : κ × β) :
    pyDict (entries ++ [e]) = pySet (pyDict entries) e.1 e.2 := by
  simp [pyDict]

/-- The entries of a dictionary are among those it was built from. -/
theorem mem_of_mem_pyDict {entries : List (κ × β)} (h : e ∈ pyDict entries) : e ∈ entries := by
  induction entries using List.reverseRecOn with
  | nil => exact h
  | append_singleton es e' ih =>
    rw [pyDict_snoc] at h
    apply List.mem_append.mpr
    rcases mem_of_mem_pySet h with rfl | h
    · exact .inr List.mem_cons_self
    · exact .inl (ih h)

theorem pySet_of_new (hnew : key ∉ d.map Prod.fst) : pySet d key value = d ++ [(key, value)] := by
  induction d with
  | nil => rfl
  | cons e d ih =>
    unfold pySet
    grind

/-- Entries with distinct keys are the dictionary that is built from them. -/
theorem pyDict_eq_self {entries : List (κ × β)} (hnodup : (entries.map Prod.fst).Nodup) :
    pyDict entries = entries := by
  induction entries using List.reverseRecOn with
  | nil => rfl
  | append_singleton es e ih =>
    rw [List.map_append, List.nodup_append] at hnodup
    rw [pyDict_snoc, ih hnodup.1]
    apply pySet_of_new
    intro hmem
    exact hnodup.2.2 _ hmem e.1 (by simp) rfl

variable (p : κ → Bool)

/-- Setting an entry and then keeping some keys, or the other way round. -/
theorem filter_pySet (d : List (κ × β)) (key : κ) (value : β) :
    (pySet d key value).filter (fun e => p e.1) =
      if p key then pySet (d.filter fun e => p e.1) key value else d.filter fun e => p e.1 := by
  induction d with
  | nil => simp [pySet, List.filter_singleton]
  | cons e d ih =>
    rw [pySet]
    by_cases hkey : e.1 = key
    · subst hkey
      rw [if_pos rfl]
      cases hp : p e.1 <;> simp [pySet, hp]
    · rw [if_neg hkey, List.filter_cons, List.filter_cons, ih]
      cases p e.1 <;> cases p key <;> simp [pySet, hkey]

/-- The part of a dictionary with some keys is built from the entries with these keys. -/
theorem filter_pyDict (entries : List (κ × β)) :
    (pyDict entries).filter (fun e => p e.1) = pyDict (entries.filter fun e => p e.1) := by
  induction entries using List.reverseRecOn with
  | nil => rfl
  | append_singleton es e ih =>
    rw [pyDict_snoc, filter_pySet, ih, List.filter_append]
    cases hkept : p e.1 with
    | true => simp [hkept, pyDict_snoc]
    | false => simp [hkept]

variable {γ : Type} (g : β → γ)

theorem map_pySet (d : List (κ × β)) (key : κ) (value : β) :
    (pySet d key value).map (fun e => (e.1, g e.2)) =
      pySet (d.map fun e => (e.1, g e.2)) key (g value) := by
  induction d with
  | nil => rfl
  | cons e d ih =>
    unfold pySet
    split <;> simp_all

/-- Mapping the values of a dictionary maps the entries it is built from. -/
theorem map_pyDict (entries : List (κ × β)) :
    (pyDict entries).map (fun e => (e.1, g e.2)) = pyDict (entries.map fun e => (e.1, g e.2)) := by
  induction entries using List.reverseRecOn with
  | nil => rfl
  | append_singleton es e ih =>
    rw [pyDict_snoc, map_pySet, ih, List.map_append, List.map_singleton, pyDict_snoc]

end entries

section comprehension
variable {α γ : Type}

/-- A comprehension that raises where one of its values does: `none`, or all values. -/
theorem mapM_eq_ite (f : α → Option γ) (g : α → γ) (hg : ∀ x, ∀ y ∈ f x, y = g x)
    (xs : List α) :
    xs.mapM f = if ∀ x ∈ xs, (f x).isSome then some (xs.map g) else none := by
  induction xs with
  | nil => simp
  | cons x xs ih =>
    rw [List.mapM_cons, ih]
    cases hx : f x with
    | none => simp [hx]
    | some y =>
      obtain rfl := hg x y hx
      by_cases hall : ∀ x ∈ xs, (f x).isSome
      · have hall' : ∀ x' ∈ x :: xs, (f x').isSome := List.forall_mem_cons.mpr ⟨by simp [hx], hall⟩
        rw [if_pos hall, if_pos hall']
        rfl
      · have hall' : ¬∀ x' ∈ x :: xs, (f x').isSome := fun h => hall (List.forall_mem_cons.mp h).2
        rw [if_neg hall, if_neg hall']
        rfl

end comprehension

section related
variable {R : κ → β → β → Prop}

/-- Entry by entry the same keys, and values that `R` relates. -/
def Related (R : κ → β → β → Prop) (es es' : List (κ × β)) : Prop :=
  List.Forall₂ (fun e e' => e.1 = e'.1 ∧ R e.1 e.2 e'.2) es es'

theorem Related.pySet {d d' : List (κ × β)} (h : Related R d d') {key : κ} {x y : β}
    (hxy : R key x y) : Related R (pySet d key x) (pySet d' key y) := by
  induction h with
  | nil => exact .cons ⟨rfl, hxy⟩ .nil
  | @cons e e' d d' he htail ih =>
    unfold Library.pySet
    rw [← he.1]
    split
    · exact .cons ⟨rfl, hxy⟩ htail
    · exact .cons he ih

/-- Dictionaries built from related entries are related. -/
theorem Related.pyDict {es es' : List (κ × β)} (h : Related R es es') :
    Related R (pyDict es) (pyDict es') := by
  have hfold : ∀ d d' : List (κ × β), Related R d d' →
      Related R (es.foldl (fun d e => Library.pySet d e.1 e.2) d)
        (es'.foldl (fun d e => Library.pySet d e.1 e.2) d') := by
    induction h with
    | nil => exact fun _ _ hd => hd
    | cons he _ ih =>
      intro d d' hd
      rw [List.foldl_cons, List.foldl_cons, ← he.1]
      exact ih _ _ (hd.pySet he.2)
  exact hfold [] [] .nil

end related

end BaseWebService.Library
