import BaseWebService.Logging.Reuse

/-!
# Redaction and secrets

Two values are secret-equivalent if they differ only in what is stored under sensitive keys, also
inside strings that hold JSON. Their plain redactions are equal; the redactions the interpreter
comes to are equal exactly if the values are clean.
-/

namespace BaseWebService.Logging

open Library

mutual

/-- Equal up to the values under sensitive keys, dictionaries with their entries in order. -/
inductive SecretEq (rt : Runtime) : Tree → Tree → Prop where
  | scalar (x : Scalar) : SecretEq rt (.scalar x) (.scalar x)
  | str (text : String) : SecretEq rt (.str text) (.str text)
  | other (o : Opaque) : SecretEq rt (.other () o) (.other () o)
  | mapping {entries entries'} : SecretEqEntries rt entries entries' →
      SecretEq rt (.mapping () entries) (.mapping () entries')
  | seq {kind items items'} : kind ≠ .set → SecretEqItems rt items items' →
      SecretEq rt (.seq kind () items) (.seq kind () items')
  | json {text text' t t'} : rt.parseText text = some t → rt.parseText text' = some t' →
      SecretEq rt t t' → SecretEq rt (.str text) (.str text')

inductive SecretEqEntries (rt : Runtime) : List (Key × Tree) → List (Key × Tree) → Prop where
  | nil : SecretEqEntries rt [] []
  | secret {key value value' entries entries'} : rt.isSensitiveKey key = true →
      SecretEqEntries rt entries entries' →
      SecretEqEntries rt ((key, value) :: entries) ((key, value') :: entries')
  | entry {key value value' entries entries'} : SecretEq rt value value' →
      SecretEqEntries rt entries entries' →
      SecretEqEntries rt ((key, value) :: entries) ((key, value') :: entries')

inductive SecretEqItems (rt : Runtime) : List Tree → List Tree → Prop where
  | nil : SecretEqItems rt [] []
  | cons {value value' items items'} : SecretEq rt value value' →
      SecretEqItems rt items items' → SecretEqItems rt (value :: items) (value' :: items')

end

variable {rt : Runtime}

/-- What redaction makes of two unfolded values, and whether it can go wrong, is the same. -/
structure Alike (rt : Runtime) (d d' : Doc) : Prop where
  plain : rt.plain d = rt.plain d'
  parses : rt.parses d = rt.parses d'
  clean : ∀ dirty, rt.clean dirty d = rt.clean dirty d'

structure AlikeEntries (rt : Runtime) (es es' : List (Key × Doc)) : Prop where
  plain : rt.plainEntries es = rt.plainEntries es'
  parses : rt.parsesEntries es = rt.parsesEntries es'
  clean : ∀ dirty, rt.cleanEntries dirty es = rt.cleanEntries dirty es'
  overwritten : ∀ key, overwritten key es = overwritten key es'

structure AlikeItems (rt : Runtime) (ds ds' : List Doc) : Prop where
  plain : ∀ limit, rt.plainItems limit ds = rt.plainItems limit ds'
  parses : ∀ limit, rt.parsesItems limit ds = rt.parsesItems limit ds'
  clean : ∀ dirty limit, rt.cleanItems dirty limit ds = rt.cleanItems dirty limit ds'

theorem Alike.refl (d : Doc) : Alike rt d d := ⟨rfl, rfl, fun _ => rfl⟩

theorem Alike.json {d d' : Doc} (h : Alike rt d d') : Alike rt (.json d) (.json d') where
  plain := by rw [Runtime.plain, h.plain, Runtime.plain]
  parses := rfl
  clean dirty := by rw [Runtime.clean, h.clean, Runtime.clean]

theorem AlikeEntries.mapping {es es' : List (Key × Doc)} (h : AlikeEntries rt es es') :
    Alike rt (.mapping es) (.mapping es') where
  plain := by rw [Runtime.plain, h.plain, Runtime.plain]
  parses := h.parses
  clean := h.clean

theorem AlikeItems.seq {kind : SeqKind} {ds ds' : List Doc} (h : AlikeItems rt ds ds') :
    Alike rt (.seq kind ds) (.seq kind ds') where
  plain := by rw [Runtime.plain, h.plain, Runtime.plain]
  parses := h.parses 100
  clean dirty := h.clean dirty 100

/-- The entries of two dictionaries, where a sensitive key may hide any two values. -/
theorem AlikeEntries.cons {key : Key} {d d' : Doc} {es es' : List (Key × Doc)}
    (hd : rt.isSensitiveKey key = true ∨ Alike rt d d') (h : AlikeEntries rt es es') :
    AlikeEntries rt ((key, d) :: es) ((key, d') :: es') where
  plain := by
    rw [Runtime.plainEntries, Runtime.plainEntries, h.plain]
    rcases hd with hkey | hd
    · rw [if_pos hkey, if_pos hkey]
    · rw [hd.plain]
  parses := by
    rw [Runtime.parsesEntries, Runtime.parsesEntries, h.parses]
    rcases hd with hkey | hd
    · simp [hkey]
    · rw [hd.parses]
  clean dirty := by
    rw [Runtime.cleanEntries, Runtime.cleanEntries, h.clean, h.overwritten]
    rcases hd with hkey | hd
    · simp [hkey]
    · rw [hd.clean, hd.parses]
  overwritten k := by
    have htail := h.overwritten k
    unfold Logging.overwritten at htail ⊢
    rw [List.any_cons, List.any_cons, htail]

/-- Entries with the same keys, where what is not under a sensitive key is alike. -/
theorem AlikeEntries.of_related {onText : String → Doc} {es es' : List (Key × Tree)}
    (h : Related (fun key value value' => rt.isSensitiveKey key = true ∨
      Alike rt (unfoldWith onText value) (unfoldWith onText value')) es es') :
    AlikeEntries rt (unfoldEntries onText es) (unfoldEntries onText es') := by
  induction h with
  | nil => exact ⟨rfl, rfl, fun _ => rfl, fun _ => rfl⟩
  | @cons e e' es es' he _ ih =>
    obtain ⟨key, value⟩ := e
    obtain ⟨key', value'⟩ := e'
    obtain ⟨rfl, hvalue⟩ := he
    exact ih.cons hvalue

theorem AlikeItems.cons {d d' : Doc} {ds ds' : List Doc} (hd : Alike rt d d')
    (h : AlikeItems rt ds ds') : AlikeItems rt (d :: ds) (d' :: ds') where
  plain limit := by
    cases limit with
    | zero => rfl
    | succ limit => rw [Runtime.plainItems, hd.plain, h.plain, Runtime.plainItems]
  parses limit := by
    cases limit with
    | zero => rfl
    | succ limit => rw [Runtime.parsesItems, hd.parses, h.parses, Runtime.parsesItems]
  clean dirty limit := by
    cases limit with
    | zero => rfl
    | succ limit =>
      rw [Runtime.cleanItems, hd.clean, hd.parses, h.clean, Runtime.cleanItems]

mutual

/-- Secret-equivalent values are unfolded alike. -/
theorem SecretEq.alike : ∀ {t t' : Tree}, SecretEq rt t t' → Alike rt (rt.unfold t) (rt.unfold t')
  | _, _, .scalar _ => Alike.refl _
  | _, _, .str _ => Alike.refl _
  | _, _, .other _ => Alike.refl _
  | _, _, .mapping h => h.alike.mapping
  | _, _, .seq _ h => h.alike.seq
  | _, _, .json hparse hparse' h => by
    rw [Runtime.unfold, Runtime.unfold, unfoldWith, unfoldWith,
      Runtime.unfoldText_of_parse hparse, Runtime.unfoldText_of_parse hparse']
    exact h.alike.json

theorem SecretEqEntries.alike : ∀ {es es' : List (Key × Tree)}, SecretEqEntries rt es es' →
    AlikeEntries rt (unfoldEntries (fun text => rt.unfoldText text.length text) es)
      (unfoldEntries (fun text => rt.unfoldText text.length text) es')
  | _, _, .nil => ⟨rfl, rfl, fun _ => rfl, fun _ => rfl⟩
  | _, _, .secret hkey h => h.alike.cons (Or.inl hkey)
  | _, _, .entry hvalue h => h.alike.cons (Or.inr hvalue.alike)

theorem SecretEqItems.alike : ∀ {ts ts' : List Tree}, SecretEqItems rt ts ts' →
    AlikeItems rt (unfoldItems (fun text => rt.unfoldText text.length text) ts)
      (unfoldItems (fun text => rt.unfoldText text.length text) ts')
  | _, _, .nil => ⟨fun _ => rfl, fun _ => rfl, fun _ _ => rfl⟩
  | _, _, .cons hvalue h => h.alike.cons hvalue.alike

end

theorem Runtime.unfold_erase {ι : Type} (v : PyValue ι) : rt.unfold v.erase = rt.unfold v :=
  unfoldWith_erase _ v

/-- Values that are unfolded alike have equal redactions, wherever the interpreter stores them and
what it parses, if and only if they are clean. -/
theorem Alike.redact_eq_iff {d d' : Doc} (halike : Alike rt d d') {v w : Allocator → PyValue ℕ}
    (hv : ∀ a, (v a).Unshared) (hw : ∀ a, (w a).Unshared) (hd : ∀ a, rt.unfold (v a) = d)
    (hd' : ∀ a, rt.unfold (w a) = d') :
    (∀ a b : Allocator, rt.redact a (v a) = rt.redact b (w b)) ↔ rt.clean false d = true := by
  constructor
  · intro hequal
    have hplain : rt.redact .neverReuse (w .neverReuse) = rt.plain (rt.unfold (w .neverReuse)) :=
      Runtime.redact_eq_plain (hw _) (Or.inl Allocator.neverReuse_neverReuses)
    rw [← hd .stack]
    refine Runtime.clean_of_redact_eq_plain (hv _) ?_
    rw [hequal .stack .neverReuse, hplain, hd, hd', halike.plain]
  · intro hclean a b
    have hclean' : rt.clean false d' = true := by rw [← halike.clean, hclean]
    rw [Runtime.redact_eq_plain (hv a) (Or.inr (hd a ▸ hclean)),
      Runtime.redact_eq_plain (hw b) (Or.inr (hd' b ▸ hclean')), hd, hd', halike.plain]

/-- The redactions of two secret-equivalent values are equal, wherever the interpreter stores what
it parses, if and only if no JSON text in them shows after another one is done with. -/
theorem noninterference_iff_clean {v w : PyValue ℕ} (hv : v.Unshared) (hw : w.Unshared)
    (h : SecretEq rt v.erase w.erase) :
    (∀ a b : Allocator, rt.redact a v = rt.redact b w) ↔ rt.clean false (rt.unfold v) = true := by
  have halike : Alike rt (rt.unfold v) (rt.unfold w) := by
    simpa only [Runtime.unfold_erase] using h.alike
  exact halike.redact_eq_iff (fun _ => hv) (fun _ => hw) (fun _ => rfl) fun _ => rfl

/-! ## Secrets that do not and that do show -/

/-- A runtime in which these texts are the ones that hold JSON. -/
def Runtime.ofTexts (texts : List (String × Tree))
    (h : ∀ e ∈ texts, pyStrip e.1 = e.1 ∧ e.2.strings = [] ∧ e.2.IsContainer) : Runtime where
  lower text := String.ofList (text.toList.map Char.toLower)
  loads text := pyGet texts text
  loads_shorter := by
    intro text t hget s hs
    rw [(h _ (mem_of_pyGet hget)).2.1] at hs
    cases hs
  loads_strip := by
    intro text t hget
    rw [(h _ (mem_of_pyGet hget)).1, hget]
  loads_container := fun hget _ => (h _ (mem_of_pyGet hget)).2.2

/-- A list in which `token` is the only sensitive key. -/
def tokenThenB (token : Tree) : Tree :=
  .seq .list () [.mapping () [(.str "token", token)], .mapping () [(.str "b", .scalar (.int 2))]]

def textOfDicts : String := "\x7b\"a\":\x7b\"q\":\x7b\x7d\x7d\x7d"
def textOfZero : String := "[\x7b\"token\":0\x7d,\x7b\"b\":2\x7d]"
def textOfDict : String := "[\x7b\"token\":\x7b\x7d\x7d,\x7b\"b\":2\x7d]"

def tokenRuntime : Runtime :=
  .ofTexts
    [(textOfDicts, .mapping () [(.str "a", .mapping () [(.str "q", .mapping () [])])]),
      (textOfZero, tokenThenB (.scalar (.int 0))), (textOfDict, tokenThenB (.mapping () []))]
    (by
      have hstrip : pyStrip textOfDicts = textOfDicts ∧ pyStrip textOfZero = textOfZero ∧
          pyStrip textOfDict = textOfDict := by decide
      simp [hstrip, tokenThenB, PyValue.strings, stringsEntries, stringsItems,
        PyValue.IsContainer])

/-- Dictionaries are stored at the lowest free even numbers, the list around them at an odd one:
lists and dictionaries come from free lists of their own. -/
def freeLists : Allocator :=
  .ofNumbering
    (fun _ live t n =>
      match t, n with
      | .seq _ _ _, 0 => 2 * above live + 1
      | _, n => 2 * (above live + n))
    (fun _ live t n n' h => by
      dsimp only at h
      split at h <;> split at h <;> grind)
    (fun _ live t n h => by
      split at h
      · have hlt := lt_above h
        omega
      · have hlt := lt_above h
        omega)

theorem tokenThenB_secretEq (token token' : Tree) :
    SecretEq tokenRuntime (tokenThenB token) (tokenThenB token') := by
  have hkey : tokenRuntime.isSensitiveKey (.str "token") = true := by decide
  exact .seq (by decide) (.cons (.mapping (.secret hkey .nil)) (.cons
    (.mapping (.entry (.scalar _) .nil)) .nil))

theorem texts_secretEq : SecretEq tokenRuntime (.str textOfZero) (.str textOfDict) := by
  have hzero : tokenRuntime.parseText textOfZero = some (tokenThenB (.scalar (.int 0))) := rfl
  have hdict : tokenRuntime.parseText textOfDict = some (tokenThenB (.mapping () [])) := rfl
  exact .json hzero hdict (tokenThenB_secretEq _ _)

/-- One text by itself. -/
theorem noninterference_iff_clean_text :
    tokenRuntime.redact .stack (.str textOfZero) =
      tokenRuntime.redact freeLists (.str textOfDict) :=
  (noninterference_iff_clean (by decide) (by decide) texts_secretEq).mpr rfl _ _

/-- The text after another one, which is done with when it is parsed. -/
def afterDicts (text : String) : PyValue ℕ := .seq .list 0 [.str textOfDicts, .str text]

/-- Whether the secret is a number or a dictionary decides if its neighbour is taken for an object
met before. -/
theorem token_shows : (afterDicts textOfZero).Unshared ∧ (afterDicts textOfDict).Unshared ∧
    SecretEq tokenRuntime (afterDicts textOfZero).erase (afterDicts textOfDict).erase ∧
    tokenRuntime.redact freeLists (afterDicts textOfZero) ≠
      tokenRuntime.redact freeLists (afterDicts textOfDict) := by
  refine ⟨by decide, by decide, ?_, fun h => ?_⟩
  · exact .seq (by decide) (.cons (.str _) (.cons texts_secretEq .nil))
  · have hzero : tokenRuntime.redact freeLists (afterDicts textOfZero) =
        .seq .list () [.mapping () [(.str "a", .mapping () [(.str "q", .mapping () [])])],
          .seq .list () [recursive "dict", recursive "dict"]] := rfl
    have hdict : tokenRuntime.redact freeLists (afterDicts textOfDict) =
        .seq .list () [.mapping () [(.str "a", .mapping () [(.str "q", .mapping () [])])],
          .seq .list () [recursive "dict", .mapping () [(.str "b", .scalar (.int 2))]]] := rfl
    rw [hzero, hdict] at h
    simp [recursive] at h

end BaseWebService.Logging
