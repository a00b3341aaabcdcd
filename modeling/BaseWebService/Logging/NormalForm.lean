import BaseWebService.Logging.Plain

/-!
# Redacted values

What `redact_sensitive_data` returns holds no JSON text, no long list and no secret, and its keys
are texts. On such a value the redactor has nothing to do, so to redact again, as
`serialize_for_log` does at every enclosing level, changes nothing.
-/

namespace BaseWebService.Logging

open Library

/-- The normal forms of redaction. -/
inductive Redacted (rt : Runtime) : Tree → Prop
  | scalar (x : Scalar) : Redacted rt (.scalar x)
  | str {text : String} (unparsed : rt.parseText text = none) : Redacted rt (.str text)
  | other (o : Opaque) : Redacted rt (.other () o)
  | mapping {entries : List (Key × Tree)} (distinct : (entries.map Prod.fst).Nodup)
      (texts : ∀ e ∈ entries, Key.str e.1.text = e.1)
      (hidden : ∀ e ∈ entries, rt.isSensitiveKey e.1 = true → e.2 = .str redacted)
      (shown : ∀ e ∈ entries, rt.isSensitiveKey e.1 = false → Redacted rt e.2) :
      Redacted rt (.mapping () entries)
  | list {items : List Tree} (short : items.length ≤ 100) (each : ∀ t ∈ items, Redacted rt t) :
      Redacted rt (.seq .list () items)

/-- An entry of a redacted mapping. -/
structure RedactedEntry (rt : Runtime) (e : Key × Tree) : Prop where
  text : Key.str e.1.text = e.1
  hidden : rt.isSensitiveKey e.1 = true → e.2 = .str redacted
  shown : rt.isSensitiveKey e.1 = false → Redacted rt e.2

variable {rt : Runtime}

theorem redacted_marker (typeName : String) : Redacted rt (recursive typeName) :=
  .str (Runtime.parseText_marker typeName)

theorem Redacted.entry {entries : List (Key × Tree)} (h : Redacted rt (.mapping () entries)) :
    ∀ e ∈ entries, RedactedEntry rt e := by
  cases h with
  | mapping _ texts hidden shown => exact fun e he => ⟨texts e he, hidden e he, shown e he⟩

/-- The dictionary of redacted entries is redacted. -/
theorem redacted_pyDict {entries : List (Key × Tree)} (h : ∀ e ∈ entries, RedactedEntry rt e) :
    Redacted rt (.mapping () (pyDict entries)) :=
  .mapping (nodup_keys_pyDict entries) (fun e he => (h e (mem_of_mem_pyDict he)).text)
    (fun e he => (h e (mem_of_mem_pyDict he)).hidden)
    fun e he => (h e (mem_of_mem_pyDict he)).shown

/-! ## What redaction returns -/

section walk
variable {onText : String → Memory → Tree × Memory}

mutual

theorem redactWith_redacted : ∀ (v : PyValue ℕ) (m : Memory),
    (∀ s ∈ v.strings, ∀ m, Redacted rt (onText s m).1) → Redacted rt (rt.redactWith onText v m).1
  | .scalar x, _, _ => .scalar x
  | .str text, m, htext => htext text (by simp [PyValue.strings]) m
  | .other id o, m, _ => by
    rw [Runtime.redactWith]
    split
    · exact redacted_marker o.typeName
    · exact .other o
  | .mapping id entries, m, htext => by
    rw [Runtime.redactWith]
    split
    · exact redacted_marker "dict"
    · exact redacted_pyDict (redactEntries_redacted entries (m.visit id) htext)
  | .seq kind id items, m, htext => by
    rw [Runtime.redactWith]
    split
    · exact redacted_marker kind.typeName
    · obtain ⟨hshort, heach⟩ := redactItems_redacted 100 items (m.visit id) htext
      exact .list hshort heach

theorem redactEntries_redacted : ∀ (entries : List (Key × PyValue ℕ)) (m : Memory),
    (∀ s ∈ stringsEntries entries, ∀ m, Redacted rt (onText s m).1) →
    ∀ e ∈ (rt.redactEntries onText entries m).1, RedactedEntry rt e
  | [], _, _ => fun _ he => absurd he List.not_mem_nil
  | (key, value) :: entries, m, htext => by
    simp only [stringsEntries, List.forall_mem_append] at htext
    rw [Runtime.redactEntries]
    refine List.forall_mem_cons.mpr ⟨?_, redactEntries_redacted entries _ htext.2⟩
    -- Whether a key is sensitive depends on its text alone.
    have hsame : rt.isSensitiveKey (.str key.text) = rt.isSensitiveKey key := rfl
    refine ⟨rfl, fun hkey => ?_, fun hkey => ?_⟩
    · rw [hsame] at hkey
      simp [hkey]
    · rw [hsame] at hkey
      simpa [hkey] using redactWith_redacted value m htext.1

theorem redactItems_redacted : ∀ (limit : ℕ) (items : List (PyValue ℕ)) (m : Memory),
    (∀ s ∈ stringsItems items, ∀ m, Redacted rt (onText s m).1) →
    (rt.redactItems onText limit items m).1.length ≤ limit ∧
      ∀ t ∈ (rt.redactItems onText limit items m).1, Redacted rt t
  | _, [], _, _ => ⟨Nat.zero_le _, fun _ ht => absurd ht List.not_mem_nil⟩
  | 0, _ :: _, _, _ => ⟨Nat.le_refl 0, fun _ ht => absurd ht List.not_mem_nil⟩
  | limit + 1, value :: items, m, htext => by
    simp only [stringsItems, List.forall_mem_append] at htext
    rw [Runtime.redactItems]
    have hrest := redactItems_redacted limit items (rt.redactWith onText value m).2 htext.2
    exact ⟨Nat.succ_le_succ hrest.1,
      List.forall_mem_cons.mpr ⟨redactWith_redacted value m htext.1, hrest.2⟩⟩

end

end walk

namespace Runtime

variable {a b : Allocator}

/-- A text becomes what it parses to, redacted, or stays if it does not parse. -/
theorem redactText_redacted (depth : ℕ) (live : List ℕ) (text : String) (m : Memory)
    (hdepth : text.length ≤ depth) : Redacted rt (rt.redactText a depth live text m).1 := by
  induction depth generalizing live text m with
  | zero =>
    obtain rfl : text = "" := String.length_eq_zero_iff.mp (Nat.le_zero.mp hdepth)
    exact .str (by simp [parseText, show startsJson (pyStrip "") = false by decide])
  | succ depth ih =>
    rw [redactText]
    cases hparse : rt.parseText text with
    | none => exact .str hparse
    | some t =>
      refine redactWith_redacted _ _ fun s hs m' => ih _ s m' ?_
      rw [← PyValue.strings_erase, a.erase_build] at hs
      have hshorter := parseText_shorter hparse s hs
      omega

theorem redact_redacted (v : PyValue ℕ) : Redacted rt (rt.redact a v) :=
  redactWith_redacted v .start fun s _ m => redactText_redacted s.length v.ids s m (Nat.le_refl _)

/-! ## Redaction of what is redacted -/

mutual

/-- Nothing is parsed in a redacted value and nothing replaced. -/
theorem plain_of_redacted : ∀ t : Tree, Redacted rt t →
    rt.plain (rt.unfold t) = t ∧ ∀ dirty, rt.clean dirty (rt.unfold t) = true
  | .scalar _, _ => ⟨rfl, fun _ => rfl⟩
  | .str text, h => by
    cases h with
    | str hunparsed =>
      rw [unfold, unfoldWith, unfoldText_of_none hunparsed]
      exact ⟨rfl, fun _ => rfl⟩
  | .other _ _, _ => ⟨rfl, fun _ => rfl⟩
  | .mapping _ entries, h => by
    obtain ⟨hplain, hclean⟩ := plainEntries_of_redacted entries h.entry
    cases h with
    | mapping hdistinct =>
      refine ⟨?_, hclean⟩
      rw [unfold, unfoldWith, plain, hplain, pyDict_eq_self hdistinct]
  | .seq _ _ items, h => by
    cases h with
    | list hshort heach =>
      obtain ⟨hplain, hclean⟩ := plainItems_of_redacted 100 items hshort heach
      refine ⟨?_, hclean⟩
      rw [unfold, unfoldWith, plain, hplain]

theorem plainEntries_of_redacted : ∀ entries : List (Key × Tree),
    (∀ e ∈ entries, RedactedEntry rt e) →
    rt.plainEntries (unfoldEntries (fun text => rt.unfoldText text.length text) entries) =
        entries ∧
      ∀ dirty, rt.cleanEntries dirty
        (unfoldEntries (fun text => rt.unfoldText text.length text) entries) = true
  | [], _ => ⟨rfl, fun _ => rfl⟩
  | (key, value) :: entries, h => by
    obtain ⟨hentry, hentries⟩ := List.forall_mem_cons.mp h
    obtain ⟨hplain, hclean⟩ := plainEntries_of_redacted entries hentries
    have htext : Key.str key.text = key := hentry.text
    rw [unfoldEntries, plainEntries, hplain, htext]
    cases hkey : rt.isSensitiveKey key with
    | true =>
      have hhidden : value = .str redacted := hentry.hidden hkey
      exact ⟨by simp [hhidden], fun dirty => by simp [cleanEntries, hkey, hclean]⟩
    | false =>
      obtain ⟨hvalue, hvalueClean⟩ := plain_of_redacted value (hentry.shown hkey)
      rw [unfold] at hvalue hvalueClean
      exact ⟨by simp [hvalue], fun dirty => by simp [cleanEntries, hvalueClean, hclean]⟩

theorem plainItems_of_redacted : ∀ (limit : ℕ) (items : List Tree), items.length ≤ limit →
    (∀ t ∈ items, Redacted rt t) →
    rt.plainItems limit (unfoldItems (fun text => rt.unfoldText text.length text) items) =
        items ∧
      ∀ dirty, rt.cleanItems dirty limit
        (unfoldItems (fun text => rt.unfoldText text.length text) items) = true
  | _, [], _, _ => ⟨rfl, fun _ => rfl⟩
  | 0, _ :: _, hshort, _ => absurd hshort (by simp)
  | limit + 1, value :: items, hshort, h => by
    obtain ⟨hvalue, hitems⟩ := List.forall_mem_cons.mp h
    obtain ⟨hplain, hclean⟩ :=
      plainItems_of_redacted limit items (Nat.le_of_succ_le_succ hshort) hitems
    obtain ⟨hplain', hclean'⟩ := plain_of_redacted value hvalue
    rw [unfold] at hplain' hclean'
    rw [unfoldItems, plainItems, hplain, hplain']
    exact ⟨rfl, fun dirty => by simp [cleanItems, hclean, hclean']⟩

end

/-- A redacted value that is made of new objects is redacted to itself. -/
theorem redact_of_redacted {v : PyValue ℕ} (hv : v.Unshared) (h : Redacted rt v.erase) :
    rt.redact a v = v.erase := by
  obtain ⟨hplain, hclean⟩ := plain_of_redacted v.erase h
  have hunfold : rt.unfold v.erase = rt.unfold v := unfoldWith_erase _ v
  rw [hunfold] at hplain hclean
  rw [redact_eq_plain hv (Or.inr (hclean false)), hplain]

/-- Redaction is idempotent: its result is made of new objects, wherever they are stored. -/
theorem redact_idempotent (a b : Allocator) (v : PyValue ℕ) :
    rt.redact b (b.build .start [] (rt.redact a v)) = rt.redact a v := by
  have hredacted : Redacted rt (b.build .start [] (rt.redact a v)).erase := by
    rw [b.erase_build]
    exact redact_redacted v
  rw [redact_of_redacted (b.unshared_build _ _ _) hredacted, b.erase_build]

end Runtime

end BaseWebService.Logging
