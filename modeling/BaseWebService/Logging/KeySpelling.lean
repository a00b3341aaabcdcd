import BaseWebService.Logging.Noninterference
import BaseWebService.Logging.Shown

/-!
# Spellings of sensitive keys

`_is_sensitive_key` looks a key up with its dashes turned into underscores, in a table that has one
name with a dash. The spellings of that name are the ones that redaction does not know.
-/

namespace BaseWebService.Logging

open Library

/-- The same character, or a dash and an underscore. -/
def SameLetter (c d : Char) : Prop := c = d ∨ c ∈ ['-', '_'] ∧ d ∈ ['-', '_']

instance (c d : Char) : Decidable (SameLetter c d) :=
  inferInstanceAs (Decidable (c = d ∨ c ∈ ['-', '_'] ∧ d ∈ ['-', '_']))

namespace Runtime

/-- A key that is a listed name up to letter case and to dashes for underscores; the names are in
lower case. -/
def Spells (rt : Runtime) (key name : String) : Prop :=
  List.Forall₂ SameLetter (rt.lower key).toList name.toList

/-- A key that ends in `_token` or `-token` up to letter case. -/
def EndsInToken (rt : Runtime) (key : String) : Prop :=
  pyEndsWith (rt.lower key) "_token" = true ∨ pyEndsWith (rt.lower key) "-token" = true

variable {rt : Runtime} {key name : String}

theorem map_replace_eq_iff {cs ds : List Char} :
    (cs.map fun c => if c = '-' then '_' else c) = (ds.map fun d => if d = '-' then '_' else d) ↔
      List.Forall₂ SameLetter cs ds := by
  rw [← List.forall₂_eq_eq_eq, List.forall₂_map_left_iff, List.forall₂_map_right_iff]
  have hletter : ∀ c d : Char, (if c = '-' then '_' else c) = (if d = '-' then '_' else d) ↔
      SameLetter c d := by
    intro c d
    unfold SameLetter
    split <;> split <;> grind
  simp only [hletter]

/-- A key spells a name if both are looked up as the same text. -/
theorem spells_iff :
    rt.Spells key name ↔ pyReplace '-' '_' (rt.lower key) = pyReplace '-' '_' name := by
  rw [Spells, ← map_replace_eq_iff, pyReplace, pyReplace, String.ofList_inj]

/-- All listed names but one are looked up as they are listed. -/
theorem isSensitiveKey_of_spells (hname : name ∈ sensitiveKeys) (hspells : rt.Spells key name)
    (hcookie : ¬ rt.Spells key "set-cookie") : rt.isSensitiveKey (.str key) = true := by
  have hlisted : ∀ name ∈ sensitiveKeys, name = "set-cookie" ∨ pyReplace '-' '_' name = name := by
    decide
  rcases hlisted name hname with rfl | hsame
  · exact absurd hspells hcookie
  · rw [spells_iff, hsame] at hspells
    rw [isSensitiveKey, Key.text, hspells]
    simp [hname]

/-- With its last dash turned into an underscore, a key still ends in `_token`. -/
theorem isSensitiveKey_of_endsInToken (h : rt.EndsInToken key) :
    rt.isSensitiveKey (.str key) = true := by
  have hends : ∀ tail : String, pyReplace '-' '_' tail = "_token" →
      pyEndsWith (rt.lower key) tail = true → rt.isSensitiveKey (.str key) = true := by
    intro tail htail h
    have hsuffix : (pyReplace '-' '_' tail).toList <:+
        (pyReplace '-' '_' (rt.lower key)).toList := by
      simp only [pyReplace, String.toList_ofList]
      exact (of_decide_eq_true h).map _
    rw [htail] at hsuffix
    exact Bool.or_eq_true_iff.mpr (Or.inr (decide_eq_true hsuffix))
  rcases h with h | h
  · exact hends "_token" (by decide) h
  · exact hends "-token" (by decide) h

/-- The name with the dash is looked up with an underscore, and is not found. -/
theorem not_isSensitiveKey_of_setCookie (h : rt.Spells key "set-cookie") :
    rt.isSensitiveKey (.str key) = false := by
  have hnormal : pyReplace '-' '_' "set-cookie" = "set_cookie" := by decide
  rw [spells_iff, hnormal] at h
  rw [isSensitiveKey, Key.text, h]
  decide

/-- Where a mapping with a sensitive key is shown as a mapping, the key has the placeholder. -/
theorem redacted_of_facing {a : Allocator} {v : PyValue ℕ} {entries : List (Key × Doc)}
    {shown : List (Key × Tree)} (hkey : rt.isSensitiveKey (.str key) = true)
    (hfacing : Facing (rt.unfold v) (rt.redact a v) (.mapping entries) (.mapping () shown))
    (hmem : Key.str key ∈ entries.map Prod.fst) :
    pyGet shown (.str key) = some (.str redacted) := by
  obtain h | h := (shows_redact v).facing hfacing
  · obtain h | ⟨shown', hentries, heq⟩ := h
    · cases h
    obtain rfl : shown = pyDict shown' := by simpa using heq
    rw [pyGet_pyDict]
    obtain ⟨hnone, -⟩ | ⟨d, t, -, ht, hshown⟩ := hentries.lookup key
    · obtain ⟨e, he, hfst⟩ := List.mem_map.mp hmem
      refine absurd ?_ (lastValue_eq_none_iff.mp hnone)
      exact List.mem_map.mpr
        ⟨(e.1.text, e.2), List.mem_map.mpr ⟨e, he, rfl⟩, by simp [hfst, Key.text]⟩
    · rw [if_pos hkey] at hshown
      rw [ht, hshown]
  · cases h

/-- Wherever a mapping is, the value of a key that spells a listed name or ends like a token is
replaced, for any interpreter, exactly if the key is not a spelling of `set-cookie`. -/
theorem spelling_redacted_iff
    (hkey : (∃ name ∈ sensitiveKeys, rt.Spells key name) ∨ rt.EndsInToken key) :
    (∀ (a : Allocator) (v : PyValue ℕ) (entries : List (Key × Doc)) (shown : List (Key × Tree)),
      Facing (rt.unfold v) (rt.redact a v) (.mapping entries) (.mapping () shown) →
      Key.str key ∈ entries.map Prod.fst → pyGet shown (.str key) = some (.str redacted)) ↔
      ¬ rt.Spells key "set-cookie" := by
  constructor
  · intro hall hcookie
    -- The mapping of this key alone, to a number, is shown as it is.
    have hshown : rt.redact .stack (.mapping 0 [(.str key, .scalar (.int 0))]) =
        .mapping () [(.str key, .scalar (.int 0))] := by
      have hnot := not_isSensitiveKey_of_setCookie hcookie
      simp [redact, redactWith, redactEntries, Memory.start, hnot, pyDict, pySet, Key.text]
    have hget := hall .stack (.mapping 0 [(.str key, .scalar (.int 0))]) _ _
      (by rw [hshown]; exact .here _ _) (by simp [unfoldEntries])
    simp [pyGet] at hget
  · intro hcookie a v entries shown hfacing hmem
    refine redacted_of_facing ?_ hfacing hmem
    rcases hkey with ⟨name, hname, hspells⟩ | htoken
    · exact isSensitiveKey_of_spells hname hspells hcookie
    · exact isSensitiveKey_of_endsInToken htoken

/-- A header with dashes. -/
theorem spelling_redacted_iff_clientSecret : tokenRuntime.Spells "Client-Secret" "client_secret" ∧
    ∀ (a : Allocator) (v : PyValue ℕ) (entries : List (Key × Doc)) (shown : List (Key × Tree)),
      Facing (tokenRuntime.unfold v) (tokenRuntime.redact a v) (.mapping entries)
        (.mapping () shown) →
      Key.str "Client-Secret" ∈ entries.map Prod.fst →
      pyGet shown (.str "Client-Secret") = some (.str redacted) := by
  have hspells : tokenRuntime.Spells "Client-Secret" "client_secret" := by
    unfold Spells
    decide
  refine ⟨hspells, (spelling_redacted_iff (Or.inl ⟨"client_secret", by decide, hspells⟩)).mpr ?_⟩
  unfold Spells
  decide

/-- The header that the table has with its dash. -/
theorem setCookie_shown : tokenRuntime.Spells "Set-Cookie" "set-cookie" ∧
    "set-cookie" ∈ sensitiveKeys ∧
    tokenRuntime.redact .stack (.mapping 0 [(.str "Set-Cookie", .scalar (.int 1))]) =
      .mapping () [(.str "Set-Cookie", .scalar (.int 1))] := by
  refine ⟨by unfold Spells; decide, by decide, rfl⟩

end Runtime

end BaseWebService.Logging
