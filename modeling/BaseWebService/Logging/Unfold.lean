import BaseWebService.Logging.Redaction

/-!
# Values with their JSON texts unfolded

A `Doc` is a value in which every string that holds JSON stands next to what it parses to, to any
depth. On it the redaction a log is meant to get, `Doc.plain`, is a structural recursion with no
identities in it.
-/

namespace BaseWebService.Logging

open Library

/-- A value with its JSON texts unfolded; `json d` is a string that parses to `d`. -/
inductive Doc where
  | scalar (x : Scalar)
  | str (text : String)
  | other (o : Opaque)
  | json (d : Doc)
  | mapping (entries : List (Key × Doc))
  | seq (kind : SeqKind) (items : List Doc)

variable {ι : Type}

section unfoldWith
variable (onText : String → Doc)

mutual

def unfoldWith : PyValue ι → Doc
  | .scalar x => .scalar x
  | .str text => onText text
  | .other _ o => .other o
  | .mapping _ entries => .mapping (unfoldEntries entries)
  | .seq kind _ items => .seq kind (unfoldItems items)

def unfoldEntries : List (Key × PyValue ι) → List (Key × Doc)
  | [] => []
  | (key, value) :: entries => (key, unfoldWith value) :: unfoldEntries entries

def unfoldItems : List (PyValue ι) → List Doc
  | [] => []
  | value :: items => unfoldWith value :: unfoldItems items

end

end unfoldWith

namespace Runtime

variable (rt : Runtime)

def unfoldText : ℕ → String → Doc
  | 0, text => .str text
  | depth + 1, text =>
    match rt.parseText text with
    | none => .str text
    | some t => .json (unfoldWith (unfoldText depth) t)

/-- Every JSON text in a value, and in what it parses to, unfolded. -/
def unfold (v : PyValue ι) : Doc := unfoldWith (fun text => rt.unfoldText text.length text) v

mutual

/-- The redaction of an unfolded value: no object is met twice. -/
def plain : Doc → Tree
  | .scalar x => .scalar x
  | .str text => .str text
  | .other o => .other () o
  | .json d => plain d
  | .mapping entries => .mapping () (pyDict (plainEntries entries))
  | .seq _ items => .seq .list () (plainItems 100 items)

def plainEntries : List (Key × Doc) → List (Key × Tree)
  | [] => []
  | (key, d) :: entries =>
    (.str key.text, if rt.isSensitiveKey key then .str redacted else plain d) ::
      plainEntries entries

def plainItems (limit : ℕ) : List Doc → List Tree
  | [] => []
  | d :: items =>
    match limit with
    | 0 => []
    | limit + 1 => plain d :: plainItems limit items

end

end Runtime

/-! ## The depth bound is never reached -/

theorem pyStrip_length_le (text : String) : (pyStrip text).length ≤ text.length := by
  have hleft := (List.dropWhile_suffix (l := text.toList) pyIsSpace).length_le
  have hright := (List.dropWhile_suffix
    (l := (text.toList.dropWhile pyIsSpace).reverse) pyIsSpace).length_le
  simp only [pyStrip, ← String.length_toList, String.toList_ofList, List.length_reverse]
    at hleft hright ⊢
  omega

section congruence
variable {onText onText' : String → Doc}

mutual

theorem unfoldWith_congr : ∀ v : PyValue ι, (∀ s ∈ v.strings, onText s = onText' s) →
    unfoldWith onText v = unfoldWith onText' v
  | .scalar _, _ => rfl
  | .str text, h => h text (by simp [PyValue.strings])
  | .other _ _, _ => rfl
  | .mapping _ entries, h => by rw [unfoldWith, unfoldEntries_congr entries h, unfoldWith]
  | .seq _ _ items, h => by rw [unfoldWith, unfoldItems_congr items h, unfoldWith]

theorem unfoldEntries_congr : ∀ entries : List (Key × PyValue ι),
    (∀ s ∈ stringsEntries entries, onText s = onText' s) →
    unfoldEntries onText entries = unfoldEntries onText' entries
  | [], _ => rfl
  | (_, value) :: entries, h => by
    simp only [stringsEntries, List.forall_mem_append] at h
    rw [unfoldEntries, unfoldWith_congr value h.1, unfoldEntries_congr entries h.2, unfoldEntries]

theorem unfoldItems_congr : ∀ items : List (PyValue ι),
    (∀ s ∈ stringsItems items, onText s = onText' s) →
    unfoldItems onText items = unfoldItems onText' items
  | [], _ => rfl
  | value :: items, h => by
    simp only [stringsItems, List.forall_mem_append] at h
    rw [unfoldItems, unfoldWith_congr value h.1, unfoldItems_congr items h.2, unfoldItems]

end

end congruence

mutual

theorem unfoldWith_erase (onText : String → Doc) : ∀ v : PyValue ι,
    unfoldWith onText v.erase = unfoldWith onText v
  | .scalar _ => rfl
  | .str _ => rfl
  | .other _ _ => rfl
  | .mapping _ entries => by
    rw [PyValue.erase, unfoldWith, unfoldEntries_erase onText entries, unfoldWith]
  | .seq _ _ items => by
    rw [PyValue.erase, unfoldWith, unfoldItems_erase onText items, unfoldWith]

theorem unfoldEntries_erase (onText : String → Doc) : ∀ entries : List (Key × PyValue ι),
    unfoldEntries onText (eraseEntries entries) = unfoldEntries onText entries
  | [] => rfl
  | (_, value) :: entries => by
    rw [eraseEntries, unfoldEntries, unfoldWith_erase onText value,
      unfoldEntries_erase onText entries, unfoldEntries]

theorem unfoldItems_erase (onText : String → Doc) : ∀ items : List (PyValue ι),
    unfoldItems onText (eraseItems items) = unfoldItems onText items
  | [] => rfl
  | value :: items => by
    rw [eraseItems, unfoldItems, unfoldWith_erase onText value,
      unfoldItems_erase onText items, unfoldItems]

end

section walkCongruence
variable {rt : Runtime} {onText onText' : String → Memory → Tree × Memory}

mutual

theorem redactWith_congr : ∀ (v : PyValue ℕ) (m : Memory),
    (∀ s ∈ v.strings, onText s = onText' s) →
    rt.redactWith onText v m = rt.redactWith onText' v m
  | .scalar _, _, _ => rfl
  | .str text, m, h => congrFun (h text (by simp [PyValue.strings])) m
  | .other _ _, _, _ => rfl
  | .mapping id entries, m, h => by
    rw [Runtime.redactWith, redactEntries_congr entries (m.visit id) h, Runtime.redactWith]
  | .seq _ id items, m, h => by
    rw [Runtime.redactWith, redactItems_congr 100 items (m.visit id) h, Runtime.redactWith]

theorem redactEntries_congr : ∀ (entries : List (Key × PyValue ℕ)) (m : Memory),
    (∀ s ∈ stringsEntries entries, onText s = onText' s) →
    rt.redactEntries onText entries m = rt.redactEntries onText' entries m
  | [], _, _ => rfl
  | (_, value) :: entries, m, h => by
    simp only [stringsEntries, List.forall_mem_append] at h
    simp only [Runtime.redactEntries, redactWith_congr value m h.1,
      redactEntries_congr entries _ h.2]

theorem redactItems_congr : ∀ (limit : ℕ) (items : List (PyValue ℕ)) (m : Memory),
    (∀ s ∈ stringsItems items, onText s = onText' s) →
    rt.redactItems onText limit items m = rt.redactItems onText' limit items m
  | _, [], _, _ => rfl
  | 0, _ :: _, _, _ => rfl
  | limit + 1, value :: items, m, h => by
    simp only [stringsItems, List.forall_mem_append] at h
    simp only [Runtime.redactItems, redactWith_congr value m h.1,
      redactItems_congr limit items _ h.2]

end

end walkCongruence

namespace Runtime

variable {rt : Runtime}

/-- The strings in a text's parsed value are shorter than the text. -/
theorem parseText_shorter {text : String} {t : Tree} (h : rt.parseText text = some t) :
    ∀ s ∈ t.strings, s.length < text.length := fun s hs =>
  (rt.loads_shorter (parseText_eq_some_iff.mp h).2 s hs).trans_le (pyStrip_length_le text)

theorem parseText_container {text : String} {t : Tree} (h : rt.parseText text = some t) :
    t.IsContainer := by
  obtain ⟨hstart, hloads⟩ := parseText_eq_some_iff.mp h
  exact rt.loads_container hloads (startsJson_iff.mp hstart)

/-- A text that opens with something else than white space, a brace or a bracket holds no JSON. -/
theorem parseText_of_open {text : String} {c : Char} {cs : List Char}
    (htext : text.toList = c :: cs)
    (hopen : pyIsSpace c = false ∧ c ≠ '{' ∧ c ≠ '[') : rt.parseText text = none := by
  have hprefix : (pyStrip text).toList <+: c :: cs := by
    have hkept : (c :: cs).dropWhile pyIsSpace = c :: cs :=
      List.dropWhile_cons_of_neg (by simp [hopen.1])
    rw [pyStrip, String.toList_ofList, htext, hkept]
    have hsuffix := List.dropWhile_suffix (l := (c :: cs).reverse) pyIsSpace
    simpa using List.reverse_prefix.mpr hsuffix
  have hstart : startsJson (pyStrip text) = false := by
    rw [Bool.eq_false_iff]
    intro h
    obtain ⟨cs', hcs' | hcs'⟩ := startsJson_iff.mp h
    · rw [hcs'] at hprefix
      exact hopen.2.1 (List.cons_prefix_cons.mp hprefix).1.symm
    · rw [hcs'] at hprefix
      exact hopen.2.2 (List.cons_prefix_cons.mp hprefix).1.symm
  simp [parseText, hstart]

/-- A marker is not taken for JSON. -/
theorem parseText_marker (typeName : String) :
    rt.parseText ("<recursive " ++ typeName ++ ">") = none := by
  have htext : ("<recursive " ++ typeName ++ ">").toList =
      '<' :: ("recursive ".toList ++ typeName.toList ++ ">".toList) := by
    simp only [String.toList_append]
    rfl
  exact parseText_of_open htext (by decide)

theorem unfoldText_of_none {text : String} (h : rt.parseText text = none) :
    ∀ depth, rt.unfoldText depth text = .str text
  | 0 => rfl
  | _ + 1 => by simp [unfoldText, h]

/-- The empty text holds no JSON. -/
theorem parseText_length {text : String} {t : Tree} (h : rt.parseText text = some t) :
    ∃ n, text.length = n + 1 := by
  refine Nat.exists_eq_succ_of_ne_zero fun hzero => ?_
  have hempty : text = "" := String.length_eq_zero_iff.mp hzero
  have hstart := (parseText_eq_some_iff.mp h).1
  rw [hempty] at hstart
  exact absurd hstart (by decide)

theorem unfoldText_of_le : ∀ {depth : ℕ} {text : String}, text.length ≤ depth →
    rt.unfoldText depth text = rt.unfoldText text.length text := by
  intro depth
  induction depth using Nat.strong_induction_on with
  | _ depth ih =>
    intro text hle
    cases hparse : rt.parseText text with
    | none => cases depth <;> cases text.length <;> simp [unfoldText, hparse]
    | some t =>
      obtain ⟨n, hn⟩ := parseText_length hparse
      obtain ⟨depth, rfl⟩ : ∃ k, depth = k + 1 := ⟨depth - 1, by omega⟩
      rw [hn, unfoldText, unfoldText, hparse]
      refine congrArg Doc.json (unfoldWith_congr t fun s hs => ?_)
      have hshorter := parseText_shorter hparse s hs
      rw [ih depth (by omega) (by omega), ih n (by omega) (by omega)]

/-- A text that holds JSON is unfolded to what it parses to. -/
theorem unfoldText_of_parse {text : String} {t : Tree} (h : rt.parseText text = some t) :
    rt.unfoldText text.length text = .json (rt.unfold t) := by
  obtain ⟨n, hn⟩ := parseText_length h
  rw [hn, unfoldText, h]
  refine congrArg Doc.json (unfoldWith_congr t fun s hs => ?_)
  have hshorter := parseText_shorter h s hs
  exact unfoldText_of_le (by omega)

variable {a : Allocator}

theorem redactText_of_le : ∀ {depth : ℕ} {live : List ℕ} {text : String}, text.length ≤ depth →
    rt.redactText a depth live text = rt.redactText a text.length live text := by
  intro depth
  induction depth using Nat.strong_induction_on with
  | _ depth ih =>
    intro live text hle
    funext m
    cases hparse : rt.parseText text with
    | none => cases depth <;> cases text.length <;> simp [redactText, hparse]
    | some t =>
      obtain ⟨n, hn⟩ := parseText_length hparse
      obtain ⟨depth, rfl⟩ : ∃ k, depth = k + 1 := ⟨depth - 1, by omega⟩
      rw [hn, redactText, redactText, hparse]
      refine redactWith_congr _ _ fun s hs => ?_
      rw [← PyValue.strings_erase, a.erase_build] at hs
      have hshorter := parseText_shorter hparse s hs
      rw [ih depth (by omega) (by omega), ih n (by omega) (by omega)]

/-- The branch on strings as the source has it: parse, and walk what was parsed with the strings
in it treated alike. -/
theorem redactText_of_parse {live : List ℕ} {text : String} {t : Tree} {m : Memory}
    (h : rt.parseText text = some t) :
    rt.redactText a text.length live text m =
      rt.redactWith (fun s => rt.redactText a s.length ((a.build m live t).ids ++ live) s)
        (a.build m live t) m.parse := by
  obtain ⟨n, hn⟩ := parseText_length h
  rw [hn, redactText, h]
  refine redactWith_congr _ _ fun s hs => ?_
  rw [← PyValue.strings_erase, a.erase_build] at hs
  have hshorter := parseText_shorter h s hs
  exact redactText_of_le (by omega)

end Runtime

end BaseWebService.Logging
