import BaseWebService.Logging.Unfold

/-!
# What redaction may show of a value

Which objects are taken for ones met before is up to the interpreter. `Shows` is redaction without
that choice: at every place either what the value has there, or a marker. `Facing` leads from a
value and what is shown of it to the parts that stand at the same place in both.
-/

namespace BaseWebService.Logging

open Library

/-- The value of the last entry whose key has this text. -/
def lastText {β : Type} (entries : List (Key × β)) (text : String) : Option β :=
  lastValue (entries.map fun e => (e.1.text, e.2)) text

/-- `d'` and `t'` stand at the same place in `d` and in `t`; a JSON text stands where its value
does. -/
inductive Facing : Doc → Tree → Doc → Tree → Prop
  | here (d : Doc) (t : Tree) : Facing d t d t
  | json {d d' : Doc} {t t' : Tree} (rest : Facing d t d' t') : Facing (.json d) t d' t'
  | entry {entries : List (Key × Doc)} {shown : List (Key × Tree)} {text : String} {d d' : Doc}
      {t t' : Tree} (value : lastText entries text = some d)
      (image : pyGet shown (.str text) = some t) (rest : Facing d t d' t') :
      Facing (.mapping entries) (.mapping () shown) d' t'
  | item {kind : SeqKind} {items : List Doc} {shown : List Tree} {i : ℕ} {d d' : Doc} {t t' : Tree}
      (value : items[i]? = some d) (image : shown[i]? = some t) (rest : Facing d t d' t') :
      Facing (.seq kind items) (.seq .list () shown) d' t'

section lookup
variable {β γ : Type} (text : String)

theorem lastText_cons (e : Key × β) (entries : List (Key × β)) :
    lastText (e :: entries) text =
      (lastText entries text).or (if e.1.text = text then some e.2 else none) := rfl

/-- Keys that are texts are found by their text. -/
theorem lastText_eq_lastValue {entries : List (Key × β)}
    (htexts : ∀ e ∈ entries, Key.str e.1.text = e.1) :
    lastText entries text = lastValue entries (.str text) := by
  induction entries with
  | nil => rfl
  | cons e entries ih =>
    obtain ⟨he, htexts⟩ := List.forall_mem_cons.mp htexts
    have hkey : e.1 = .str text ↔ e.1.text = text := by
      rw [← he]
      simp [Key.text]
    rw [lastText_cons, lastValue, ih htexts]
    simp [hkey]

theorem lastText_map (f : β → γ) (entries : List (Key × β)) :
    lastText (entries.map fun e => (e.1, f e.2)) text = (lastText entries text).map f := by
  induction entries with
  | nil => rfl
  | cons e entries ih =>
    rw [List.map_cons, lastText_cons, lastText_cons, ih]
    cases lastText entries text <;> by_cases hkey : e.1.text = text <;> simp [hkey]

end lookup

/-- Nothing but itself stands in a text. -/
theorem Facing.eq_of_str {d d' : Doc} {t t' : Tree} (h : Facing d t d' t') :
    ∀ text, t = .str text → t' = .str text := by
  induction h with
  | here => exact fun _ h => h
  | json _ ih => exact ih
  | entry | item => exact fun _ h => by cases h

namespace Runtime

variable (rt : Runtime)

mutual

/-- What redaction may make of an unfolded value. -/
def Shows : Doc → Tree → Prop
  | .scalar x, t => t = .scalar x
  | .str text, t => t = .str text
  | .other o, t => t = recursive o.typeName ∨ t = .other () o
  | .json d, t => Shows d t
  | .mapping entries, t =>
    t = recursive "dict" ∨ ∃ shown, ShowsEntries entries shown ∧ t = .mapping () (pyDict shown)
  | .seq kind items, t =>
    t = recursive kind.typeName ∨ ∃ shown, ShowsItems 100 items shown ∧ t = .seq .list () shown

def ShowsEntries : List (Key × Doc) → List (Key × Tree) → Prop
  | [], shown => shown = []
  | (key, d) :: entries, shown => ∃ t rest, shown = (.str key.text, t) :: rest ∧
      (if rt.isSensitiveKey key then t = .str redacted else Shows d t) ∧ ShowsEntries entries rest

def ShowsItems (limit : ℕ) : List Doc → List Tree → Prop
  | [], shown => shown = []
  | d :: items, shown =>
    match limit with
    | 0 => shown = []
    | limit + 1 => ∃ t rest, shown = t :: rest ∧ Shows d t ∧ ShowsItems limit items rest

end

variable {rt}

/-! ## Redaction shows -/

section walk
variable {onText : String → Memory → Tree × Memory} {unfoldText : String → Doc}
  (htext : ∀ s m, rt.Shows (unfoldText s) (onText s m).1)
include htext

mutual

theorem shows_redactWith : ∀ (v : PyValue ℕ) (m : Memory),
    rt.Shows (unfoldWith unfoldText v) (rt.redactWith onText v m).1
  | .scalar _, _ => rfl
  | .str text, m => htext text m
  | .other id _, m => by
    rw [redactWith, unfoldWith]
    split
    · exact Or.inl rfl
    · exact Or.inr rfl
  | .mapping id entries, m => by
    rw [redactWith, unfoldWith]
    split
    · exact Or.inl rfl
    · exact Or.inr ⟨_, shows_redactEntries entries (m.visit id), rfl⟩
  | .seq _ id items, m => by
    rw [redactWith, unfoldWith]
    split
    · exact Or.inl rfl
    · exact Or.inr ⟨_, shows_redactItems 100 items (m.visit id), rfl⟩

theorem shows_redactEntries : ∀ (entries : List (Key × PyValue ℕ)) (m : Memory),
    rt.ShowsEntries (unfoldEntries unfoldText entries) (rt.redactEntries onText entries m).1
  | [], _ => rfl
  | (key, value) :: entries, m => by
    refine ⟨_, _, rfl, ?_, shows_redactEntries entries _⟩
    split
    · rfl
    · exact shows_redactWith value m

theorem shows_redactItems : ∀ (limit : ℕ) (items : List (PyValue ℕ)) (m : Memory),
    rt.ShowsItems limit (unfoldItems unfoldText items) (rt.redactItems onText limit items m).1
  | _, [], _ => rfl
  | 0, _ :: _, _ => rfl
  | limit + 1, value :: items, m =>
    ⟨_, _, rfl, shows_redactWith value m, shows_redactItems limit items _⟩

end

end walk

variable {a : Allocator}

theorem shows_redactText (depth : ℕ) (live : List ℕ) (text : String) (m : Memory) :
    rt.Shows (rt.unfoldText depth text) (rt.redactText a depth live text m).1 := by
  induction depth generalizing live text m with
  | zero => rfl
  | succ depth ih =>
    rw [redactText, unfoldText]
    cases rt.parseText text with
    | none => rfl
    | some t =>
      have hwalk := shows_redactWith (fun s m' => ih ((a.build m live t).ids ++ live) s m')
        (a.build m live t) m.parse
      rw [← unfoldWith_erase, a.erase_build] at hwalk
      exact hwalk

theorem shows_redact (v : PyValue ℕ) : rt.Shows (rt.unfold v) (rt.redact a v) :=
  shows_redactWith (fun s m => shows_redactText s.length v.ids s m) v .start

/-- A mapping or a sequence that is redacted from the start is not taken for one met before. -/
theorem shows_redact_mapping (id : ℕ) (entries : List (Key × PyValue ℕ)) :
    ∃ shown, rt.ShowsEntries (unfoldEntries (fun text => rt.unfoldText text.length text) entries)
      shown ∧ rt.redact a (.mapping id entries) = .mapping () (pyDict shown) :=
  ⟨_, shows_redactEntries (fun s m => shows_redactText s.length _ s m) entries _,
    congrArg Prod.fst (redactWith_mapping entries List.not_mem_nil)⟩

theorem shows_redact_seq (kind : SeqKind) (id : ℕ) (items : List (PyValue ℕ)) :
    ∃ shown, rt.ShowsItems 100 (unfoldItems (fun text => rt.unfoldText text.length text) items)
      shown ∧ rt.redact a (.seq kind id items) = .seq .list () shown :=
  ⟨_, shows_redactItems (fun s m => shows_redactText s.length _ s m) 100 items _,
    congrArg Prod.fst (redactWith_seq kind items List.not_mem_nil)⟩

/-! ## Parts that face each other -/

/-- Under the text of a sensitive key there is the placeholder, under any other what is shown of the
last of its values. -/
theorem ShowsEntries.lookup (text : String) : ∀ {entries : List (Key × Doc)}
    {shown : List (Key × Tree)}, rt.ShowsEntries entries shown →
    (lastText entries text = none ∧ lastValue shown (.str text) = none) ∨
      ∃ d t, lastText entries text = some d ∧ lastValue shown (.str text) = some t ∧
        if rt.isSensitiveKey (.str text) then t = .str redacted else rt.Shows d t
  | [], shown, h => by
    obtain rfl : shown = [] := h
    exact Or.inl ⟨rfl, rfl⟩
  | (key, d) :: entries, shown, h => by
    obtain ⟨t, rest, rfl, hvalue, hrest⟩ := h
    rw [lastText_cons, lastValue]
    rcases ShowsEntries.lookup text hrest with ⟨hnone, hnone'⟩ | ⟨d', t', hd, ht, hlast⟩
    · by_cases hkey : key.text = text
      · subst hkey
        exact Or.inr ⟨d, t, by simp [hnone], by simp [hnone'], hvalue⟩
      · exact Or.inl ⟨by simp [hnone, hkey], by simp [hnone', hkey]⟩
    · exact Or.inr ⟨d', t', by simp [hd], by simp [ht], hlast⟩

/-- The first items are shown, one by one. -/
theorem ShowsItems.getElem? : ∀ {limit : ℕ} {items : List Doc} {shown : List Tree},
    rt.ShowsItems limit items shown → shown.length = min limit items.length ∧
      ∀ (i : ℕ) (d : Doc) (t : Tree), items[i]? = some d → shown[i]? = some t → rt.Shows d t
  | _, [], shown, h => by
    obtain rfl : shown = [] := h
    simp
  | 0, _ :: _, shown, h => by
    obtain rfl : shown = [] := h
    simp
  | limit + 1, d :: items, shown, h => by
    obtain ⟨t, rest, rfl, hitem, hrest⟩ := h
    obtain ⟨hlength, hitems⟩ := ShowsItems.getElem? hrest
    refine ⟨by simp [hlength], fun i d' t' hd ht => ?_⟩
    cases i with
    | zero => simpa [← Option.some.inj hd, ← Option.some.inj ht] using hitem
    | succ i => exact hitems i d' t' hd ht

/-- Parts that face each other are shown, or there is the placeholder. -/
theorem Shows.facing {d d' : Doc} {t t' : Tree} (hfacing : Facing d t d' t')
    (h : rt.Shows d t) : rt.Shows d' t' ∨ t' = .str redacted := by
  induction hfacing with
  | here => exact Or.inl h
  | json _ ih => exact ih h
  | @entry entries shown text d d' t t' hvalue himage hrest ih =>
    obtain h | ⟨shown', hentries, heq⟩ := h
    · cases h
    obtain rfl : shown = pyDict shown' := by simpa using heq
    rw [pyGet_pyDict] at himage
    obtain ⟨-, hnone⟩ | ⟨d₁, t₁, hd, ht, hshown⟩ := hentries.lookup text
    · rw [hnone] at himage
      cases himage
    · obtain rfl := Option.some.inj (hvalue.symm.trans hd)
      obtain rfl := Option.some.inj (himage.symm.trans ht)
      split_ifs at hshown with hkey
      · exact Or.inr (hrest.eq_of_str _ hshown)
      · exact ih hshown
  | @item kind items shown i d d' t t' hvalue himage hrest ih =>
    obtain h | ⟨shown', hitems, heq⟩ := h
    · cases h
    obtain rfl : shown = shown' := by simpa using heq
    exact ih (hitems.getElem?.2 i d t hvalue himage)

end Runtime

end BaseWebService.Logging
