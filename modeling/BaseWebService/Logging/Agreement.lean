import BaseWebService.Logging.SafeLogging

/-!
# What one redactor removes and the other keeps

Both redactors are followed along the path to one leaf of a value. A redactor removes the leaf if
its result is the same whatever stands there. `redact_sensitive_data` does so for every sensitive
key on the path; `redactors_agree_iff` says when the redactor of outbound calls does too.
-/

namespace BaseWebService.Logging

open Library SafeLogging

/-- One step into a value: below a key, to an item of a list, or into the JSON a string holds. -/
inductive Step where
  | key (key : Key)
  | index (n : ℕ)
  | text

def PyValue.IsLeaf {ι : Type} : PyValue ι → Prop
  | .scalar _ => True
  | .str _ => True
  | _ => False

/-- Two values that differ at most in the leaf at a path. `x` and `x'` are what the path meets when
strings are not looked into: the leaf, or the string whose JSON holds it. -/
inductive DiffersAt (rt : Runtime) : List Step → Tree → Tree → Tree → Tree → Prop where
  | leaf {x x'} : x.IsLeaf → x'.IsLeaf → DiffersAt rt [] x x' x x'
  | key {p x x' v v'} (key entries entries') : DiffersAt rt p x x' v v' →
      DiffersAt rt (.key key :: p) x x' (.mapping () (entries ++ (key, v) :: entries'))
        (.mapping () (entries ++ (key, v') :: entries'))
  | index {p x x' v v'} (items items') : DiffersAt rt p x x' v v' →
      DiffersAt rt (.index items.length :: p) x x' (.seq .list () (items ++ v :: items'))
        (.seq .list () (items ++ v' :: items'))
  | text {p y y' text text' t t'} : rt.parseText text = some t → rt.parseText text' = some t' →
      DiffersAt rt p y y' t t' →
      DiffersAt rt (.text :: p) (.str text) (.str text') (.str text) (.str text')

variable {rt : Runtime}

/-- Some key on the path is sensitive to `redact_sensitive_data`. -/
def underSensitiveKey (rt : Runtime) : List Step → Bool
  | [] => false
  | .key key :: p => rt.isSensitiveKey key || underSensitiveKey rt p
  | _ :: p => underSensitiveKey rt p

/-- Some key on the path is sensitive to the redactor of outbound calls, before the path enters a
string. -/
def underSafeKey (rt : Runtime) : List Step → Bool
  | [] => false
  | .key key :: p => SafeLogging.isSensitiveKey rt key || underSafeKey rt p
  | .index _ :: p => underSafeKey rt p
  | .text :: _ => false

/-- What truncation makes of two leaves is the same. -/
def SameSlot (maxStrLen : ℕ) (x x' : Tree) : Prop :=
  x = x' ∨ ∃ s s', x = .str s ∧ x' = .str s' ∧ SameLogged maxStrLen s s'

/-! ## `redact_sensitive_data` of inbound requests -/

theorem AlikeEntries.refl (es : List (Key × Doc)) : AlikeEntries rt es es :=
  ⟨rfl, rfl, fun _ => rfl, fun _ => rfl⟩

theorem AlikeItems.refl (ds : List Doc) : AlikeItems rt ds ds :=
  ⟨fun _ => rfl, fun _ => rfl, fun _ _ => rfl⟩

theorem alike_entry {onText : String → Doc} {key : Key} {v v' : Tree}
    (h : rt.isSensitiveKey key = true ∨ Alike rt (unfoldWith onText v) (unfoldWith onText v'))
    (entries entries' : List (Key × Tree)) :
    AlikeEntries rt (unfoldEntries onText (entries ++ (key, v) :: entries'))
      (unfoldEntries onText (entries ++ (key, v') :: entries')) := by
  induction entries with
  | nil => exact (AlikeEntries.refl _).cons h
  | cons e entries ih => exact ih.cons (Or.inr (Alike.refl _))

theorem alike_item {onText : String → Doc} {v v' : Tree}
    (h : Alike rt (unfoldWith onText v) (unfoldWith onText v')) (items items' : List Tree) :
    AlikeItems rt (unfoldItems onText (items ++ v :: items'))
      (unfoldItems onText (items ++ v' :: items')) := by
  induction items with
  | nil => exact (AlikeItems.refl _).cons h
  | cons value items ih => exact ih.cons (Alike.refl _)

/-- Values that differ in a leaf below a sensitive key are unfolded alike. -/
theorem DiffersAt.alike {p : List Step} {x x' v v' : Tree} (h : DiffersAt rt p x x' v v')
    (hkey : underSensitiveKey rt p = true) : Alike rt (rt.unfold v) (rt.unfold v') := by
  induction h with
  | leaf => cases hkey
  | key key entries entries' _ ih =>
    refine (alike_entry ?_ entries entries').mapping
    exact (Bool.or_eq_true_iff.mp hkey).imp_right ih
  | index items items' _ ih => exact (alike_item (ih hkey) items items').seq
  | text hparse hparse' _ ih =>
    rw [Runtime.unfold, Runtime.unfold, unfoldWith, unfoldWith,
      Runtime.unfoldText_of_parse hparse, Runtime.unfoldText_of_parse hparse']
    exact (ih hkey).json

/-! ## The redactor of outbound calls -/

theorem redactAndTruncateEntries_eq_map (maxStrLen : ℕ) (entries : List (Key × Tree)) :
    redactAndTruncateEntries rt maxStrLen entries = entries.map fun e =>
      (e.1, if SafeLogging.isSensitiveKey rt e.1 then .str "***"
        else redactAndTruncate rt maxStrLen e.2) := by
  induction entries with
  | nil => rfl
  | cons e entries ih => rw [redactAndTruncateEntries, ih, List.map_cons]

theorem redactAndTruncateItems_eq_map (maxStrLen : ℕ) (items : List Tree) :
    redactAndTruncateItems rt maxStrLen items = items.map (redactAndTruncate rt maxStrLen) := by
  induction items with
  | nil => rfl
  | cons value items ih => rw [redactAndTruncateItems, ih, List.map_cons]

theorem redactAndTruncate_leaf {maxStrLen : ℕ} {x x' : Tree} (hx : x.IsLeaf) (hx' : x'.IsLeaf) :
    redactAndTruncate rt maxStrLen x = redactAndTruncate rt maxStrLen x' ↔
      SameSlot maxStrLen x x' := by
  match x, x', hx, hx' with
  | .scalar n, .scalar n', _, _ => simp [redactAndTruncate, SameSlot]
  | .scalar n, .str s, _, _ => simp [redactAndTruncate, SameSlot]
  | .str s, .scalar n, _, _ => simp [redactAndTruncate, SameSlot]
  | .str s, .str s', _, _ =>
    rw [redactAndTruncate, redactAndTruncate, PyValue.str.injEq, truncate_eq_iff]
    constructor
    · exact fun h => Or.inr ⟨s, s', rfl, rfl, h⟩
    · rintro (h | ⟨_, _, hs, hs', h⟩)
      · exact Or.inl (PyValue.str.inj h)
      · rw [PyValue.str.inj hs, PyValue.str.inj hs']
        exact h

/-- The results for two values that differ in one leaf are equal exactly if a key hides the leaf
before the path enters a string, or truncation cuts off the difference. -/
theorem DiffersAt.redactAndTruncate_eq_iff {p : List Step} {x x' v v' : Tree} {maxStrLen : ℕ}
    (h : DiffersAt rt p x x' v v') :
    redactAndTruncate rt maxStrLen v = redactAndTruncate rt maxStrLen v' ↔
      underSafeKey rt p = true ∨ SameSlot maxStrLen x x' := by
  induction h with
  | leaf hx hx' => simp [redactAndTruncate_leaf hx hx', underSafeKey]
  | key key entries entries' _ ih =>
    rw [redactAndTruncate, redactAndTruncate, redactAndTruncateEntries_eq_map,
      redactAndTruncateEntries_eq_map, underSafeKey, Bool.or_eq_true, or_assoc, ← ih]
    by_cases hkey : SafeLogging.isSensitiveKey rt key = true
    · simp [hkey]
    · simp [hkey]
  | index items items' _ ih =>
    rw [redactAndTruncate, redactAndTruncate, redactAndTruncateItems_eq_map,
      redactAndTruncateItems_eq_map, underSafeKey, ← ih]
    simp
  | @text _ _ _ text text' =>
    have hleaf : (PyValue.str text : Tree).IsLeaf ∧ (PyValue.str text' : Tree).IsLeaf :=
      ⟨trivial, trivial⟩
    rw [redactAndTruncate_leaf hleaf.1 hleaf.2]
    simp [underSafeKey]

/-- The body of a request is parsed as it is, without stripping it first. -/
theorem loads_eq_none_or {text : String} {t : Tree} (h : rt.parseText text = some t) :
    rt.loads text = none ∨ rt.loads text = some t := by
  cases hloads : rt.loads text with
  | none => exact Or.inl rfl
  | some t' =>
    right
    rw [← rt.loads_strip hloads, (Runtime.parseText_eq_some_iff.mp h).2]

theorem redactAndTruncate_ne_str (rt : Runtime) (maxStrLen : ℕ) {t : Tree} (h : t.IsContainer)
    (s : String) : redactAndTruncate rt maxStrLen t ≠ .str s := by
  match t, h with
  | .mapping _ _, _ => exact fun h => by cases h
  | .seq .list _ _, _ => exact fun h => by cases h

/-- Two bodies of JSON text that differ in one leaf. -/
theorem safeLogBody_eq_iff {p : List Step} {y y' t t' : Tree} {text text' : String}
    (hparse : rt.parseText text = some t) (hparse' : rt.parseText text' = some t')
    (h : DiffersAt rt p y y' t t') :
    safeLogBody rt (.str text) = safeLogBody rt (.str text') ↔
      ((rt.loads text).isSome = true ∧ (rt.loads text').isSome = true ∧
        (underSafeKey rt p = true ∨ SameSlot 500 y y')) ∨
      (rt.loads text = none ∧ rt.loads text' = none ∧ SameLogged 500 text text') := by
  unfold safeLogBody
  rcases loads_eq_none_or hparse with hloads | hloads <;>
    rcases loads_eq_none_or hparse' with hloads' | hloads'
  · simp [hloads, hloads', redactAndTruncate, truncate_eq_iff]
  · have hne := redactAndTruncate_ne_str rt 500 (Runtime.parseText_container hparse')
      (truncate 500 text)
    simpa [hloads, hloads', redactAndTruncate] using fun h => hne h.symm
  · have hne := redactAndTruncate_ne_str rt 500 (Runtime.parseText_container hparse)
      (truncate 500 text')
    simpa [hloads, hloads', redactAndTruncate] using hne
  · simpa [hloads, hloads'] using h.redactAndTruncate_eq_iff

/-- Whatever `redact_sensitive_data` removes for its key, the redactor of outbound calls removes
too, but for the keys `cookie` and `api-key` and for keys that are in JSON inside a string. -/
theorem redactors_agree_iff (rt : Runtime) :
    (∀ key, rt.isSensitiveKey key = true → (SafeLogging.isSensitiveKey rt key = true ↔
      rt.lower key.text ≠ "cookie" ∧ rt.lower key.text ≠ "api-key")) ∧
    (∀ p x x' v v', DiffersAt rt p x x' v v' → underSensitiveKey rt p = true →
      (∀ (a b : Allocator) (o o' : PyValue ℕ), o.erase = v → o'.erase = v' → o.Unshared →
        o'.Unshared → rt.clean false (rt.unfold v) = true → rt.redact a o = rt.redact b o') ∧
      (redactSensitiveData rt v = redactSensitiveData rt v' ↔
        underSafeKey rt p = true ∨ SameSlot 500 x x')) ∧
    (∀ v : Tree, (∀ text, v ≠ .str text) → safeLogBody rt v = redactSensitiveData rt v) ∧
    ∀ p y y' t t' text text', rt.parseText text = some t → rt.parseText text' = some t' →
      DiffersAt rt p y y' t t' → underSensitiveKey rt p = true →
      (safeLogBody rt (.str text) = safeLogBody rt (.str text') ↔
        ((rt.loads text).isSome = true ∧ (rt.loads text').isSome = true ∧
          (underSafeKey rt p = true ∨ SameSlot 500 y y')) ∨
        (rt.loads text = none ∧ rt.loads text' = none ∧ SameLogged 500 text text')) := by
  refine ⟨fun key => isSensitiveKey_iff, fun p x x' v v' h hkey => ⟨?_, ?_⟩, ?_, ?_⟩
  · rintro a b o o' rfl rfl ho ho' hclean
    have halike := h.alike hkey
    rw [Runtime.redact_eq_plain ho (Or.inr (Runtime.unfold_erase o ▸ hclean)),
      Runtime.redact_eq_plain ho' (Or.inr (by rw [← Runtime.unfold_erase, ← halike.clean, hclean])),
      ← Runtime.unfold_erase, halike.plain, Runtime.unfold_erase]
  · exact h.redactAndTruncate_eq_iff
  · intro v hv
    cases v with
    | str text => exact absurd rfl (hv text)
    | _ => rfl
  · intro p y y' t t' text text' hparse hparse' h _
    exact safeLogBody_eq_iff hparse hparse' h

/-- A dictionary with one number in it. -/
def oneEntry (key : String) (n : Int) : Tree := .mapping () [(.str key, .scalar (.int n))]

theorem oneEntry_differsAt (key : String) (n n' : Int) :
    DiffersAt tokenRuntime [.key (.str key)] (.scalar (.int n)) (.scalar (.int n'))
      (oneEntry key n) (oneEntry key n') := .key _ [] [] (.leaf trivial trivial)

/-- A leaf that both redactors remove. -/
theorem redactors_agree_iff_token : redactSensitiveData tokenRuntime (oneEntry "token" 1) =
    redactSensitiveData tokenRuntime (oneEntry "token" 2) := by
  have hdiffers := oneEntry_differsAt "token" 1 2
  have hagree := (redactors_agree_iff tokenRuntime).2.1 _ _ _ _ _ hdiffers (by decide)
  exact hagree.2.mpr (Or.inl (by decide))

/-- The cookie of an inbound request is redacted, that of an outbound call is logged. -/
theorem cookie_logged :
    tokenRuntime.isSensitiveKey (.str "cookie") = true ∧
    SafeLogging.isSensitiveKey tokenRuntime (.str "cookie") = false ∧
    (∀ a b : Allocator, tokenRuntime.redact a (.mapping 0 [(.str "cookie", .scalar (.int 1))]) =
      tokenRuntime.redact b (.mapping 0 [(.str "cookie", .scalar (.int 2))])) ∧
    redactSensitiveData tokenRuntime (oneEntry "cookie" 1) ≠
      redactSensitiveData tokenRuntime (oneEntry "cookie" 2) := by
  refine ⟨by decide, by decide, fun a b => rfl, fun h => ?_⟩
  have hone : redactSensitiveData tokenRuntime (oneEntry "cookie" 1) = oneEntry "cookie" 1 := rfl
  have htwo : redactSensitiveData tokenRuntime (oneEntry "cookie" 2) = oneEntry "cookie" 2 := rfl
  rw [hone, htwo] at h
  simp [oneEntry] at h

end BaseWebService.Logging
