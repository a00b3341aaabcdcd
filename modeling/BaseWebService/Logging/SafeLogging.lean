import BaseWebService.Logging.Noninterference

/-!
# The redactor of outbound calls

`core/infra/connectors/safe_logging.py`, compared with `redact_sensitive_data` of inbound requests.
It accepts a key that has one of a few words in it, leaves strings as they are up to their length,
and parses JSON only where the body itself is a string.
-/

namespace BaseWebService.Logging

open Library

namespace SafeLogging

def sensitiveKeywords : List String :=
  ["authorization", "password", "secret", "token", "api_key", "apikey"]

/-- `value[:max_str_len] + f"... [truncated, total {len(value)} chars]"` for a longer string. -/
def truncate (maxStrLen : ℕ) (text : String) : String :=
  if maxStrLen < text.length then
    String.ofList (text.toList.take maxStrLen) ++ ("... [truncated, total " ++
      (pyStr text.length ++ " chars]"))
  else text

variable (rt : Runtime)

def isSensitiveKey (key : Key) : Bool :=
  sensitiveKeywords.any fun keyword => pyContains (rt.lower key.text) keyword

mutual

/-- Identities play no part: the walk does not look for objects met before. -/
def redactAndTruncate (maxStrLen : ℕ) : Tree → Tree
  | .scalar x => .scalar x
  | .str text => .str (truncate maxStrLen text)
  | .other _ o => .other () o
  | .mapping _ entries => .mapping () (redactAndTruncateEntries maxStrLen entries)
  | .seq .list _ items => .seq .list () (redactAndTruncateItems maxStrLen items)
  | .seq _ _ items => .seq .list () ((redactAndTruncateItems maxStrLen items).take 100)

/-- The keys stay as they are, and distinct. -/
def redactAndTruncateEntries (maxStrLen : ℕ) : List (Key × Tree) → List (Key × Tree)
  | [] => []
  | (key, value) :: entries =>
    (key, if isSensitiveKey rt key then .str "***" else redactAndTruncate maxStrLen value) ::
      redactAndTruncateEntries maxStrLen entries

def redactAndTruncateItems (maxStrLen : ℕ) : List Tree → List Tree
  | [] => []
  | value :: items => redactAndTruncate maxStrLen value :: redactAndTruncateItems maxStrLen items

end

/-- `redact_sensitive_data(value)` of this module. -/
def redactSensitiveData (value : Tree) : Tree := redactAndTruncate rt 500 value

def safeLogBody (value : Tree) : Tree :=
  match value with
  | .str text =>
    match rt.loads text with
    | some parsed => redactAndTruncate rt 500 parsed
    | none => redactAndTruncate rt 500 (.str text)
  | value => redactAndTruncate rt 500 value

/-! ## Keys -/

variable {rt}

/-- The keywords without an underscore, which normalising a key cannot make or break. -/
def plainKeywords : List String := ["authorization", "password", "secret", "token", "apikey"]

theorem isSensitiveKey_of_normalized {key : Key} {word : String} (hword : word ∈ plainKeywords)
    (h : pyContains (pyReplace '-' '_' (rt.lower key.text)) word = true) :
    isSensitiveKey rt key = true := by
  have hplain : ∀ word ∈ plainKeywords, word ∈ sensitiveKeywords ∧ '_' ∉ word.toList := by decide
  obtain ⟨hmem, hunderscore⟩ := hplain word hword
  exact List.any_eq_true.mpr ⟨word, hmem, pyContains_of_pyReplace hunderscore h⟩

/-- What `_is_sensitive_key` accepts, `is_sensitive_key` accepts too, with two exceptions. -/
theorem isSensitiveKey_iff {key : Key} (h : rt.isSensitiveKey key = true) :
    isSensitiveKey rt key = true ↔
      rt.lower key.text ≠ "cookie" ∧ rt.lower key.text ≠ "api-key" := by
  constructor
  · intro hsafe
    constructor
    · intro hcookie
      rw [isSensitiveKey, hcookie] at hsafe
      revert hsafe
      decide
    · intro hapi
      rw [isSensitiveKey, hapi] at hsafe
      revert hsafe
      decide
  · rintro ⟨hcookie, hapi⟩
    have hkeys : ∀ name ∈ sensitiveKeys, name = "cookie" ∨ name = "set-cookie" ∨
        name = "api_key" ∨ ∃ word ∈ plainKeywords, pyContains name word = true := by decide
    rcases Bool.or_eq_true_iff.mp h with h | h
    · rcases hkeys _ (List.contains_iff_mem.mp h) with h | h | h | ⟨word, hword, h⟩
      · exact absurd (eq_of_pyReplace_eq_self (by decide) h) hcookie
      · -- No dash is left in a normalised key.
        have hdash : '-' ∉ "set-cookie".toList :=
          h ▸ not_mem_pyReplace (by decide) (rt.lower key.text)
        exact absurd (by decide) hdash
      · have hsplit : "api_key" = "api" ++ String.singleton '_' ++ "key" := by decide
        rcases eq_of_pyReplace_eq (by decide) (by decide) (h.trans hsplit) with h | h
        · refine List.any_eq_true.mpr ⟨"api_key", by decide, ?_⟩
          rw [h]
          decide
        · exact absurd (h.trans (by decide)) hapi
      · exact isSensitiveKey_of_normalized hword h
    · have hword : "token" ∈ plainKeywords := by decide
      have htoken : "token".toList <:+: "_token".toList := by decide
      exact isSensitiveKey_of_normalized hword
        (decide_eq_true (htoken.trans (of_decide_eq_true h).isInfix))

/-! ## Strings -/

/-- Two strings that truncation leaves equal. -/
def SameLogged (maxStrLen : ℕ) (s s' : String) : Prop :=
  s = s' ∨ maxStrLen < s.length ∧ s.length = s'.length ∧
    s.toList.take maxStrLen = s'.toList.take maxStrLen

theorem length_truncate {maxStrLen : ℕ} {s : String} (h : maxStrLen < s.length) :
    maxStrLen < (truncate maxStrLen s).length := by
  rw [truncate, if_pos h]
  simp only [String.length_append, String.length_ofList, List.length_take, String.length_toList]
  have hdots : 0 < "... [truncated, total ".length := by decide
  omega

/-- A truncated string shows its beginning and its length, any other one shows itself. -/
theorem truncate_eq_iff {maxStrLen : ℕ} {s s' : String} :
    truncate maxStrLen s = truncate maxStrLen s' ↔ SameLogged maxStrLen s s' := by
  constructor
  · intro h
    by_cases hs : maxStrLen < s.length <;> by_cases hs' : maxStrLen < s'.length
    · right
      rw [truncate, truncate, if_pos hs, if_pos hs'] at h
      have hl := congrArg String.toList h
      simp only [String.toList_append, String.toList_ofList] at hl
      obtain ⟨htake, hrest⟩ := List.append_inj hl (by
        rw [List.length_take, List.length_take, String.length_toList, String.length_toList]
        omega)
      have hnumber := List.append_cancel_right (List.append_cancel_left hrest)
      have hlength := pyStr_injective (String.toList_inj.mp hnumber)
      exact ⟨hs, by exact_mod_cast hlength, htake⟩
    · have hlt := length_truncate hs
      rw [h, truncate, if_neg hs'] at hlt
      omega
    · have hlt := length_truncate hs'
      rw [← h, truncate, if_neg hs] at hlt
      omega
    · rw [truncate, truncate, if_neg hs, if_neg hs'] at h
      exact Or.inl h
  · rintro (rfl | ⟨hs, hlength, htake⟩)
    · rfl
    · rw [truncate, truncate, if_pos hs, if_pos (hlength ▸ hs), htake, hlength]

end SafeLogging

end BaseWebService.Logging
