import Mathlib.Logic.Relation
import BaseWebService.Logging.Serialize
import BaseWebService.Logging.Shown

/-!
# Lists that are cut

`_truncate_log_value` marks a list that it cuts at a hundred items. It is handed what
`redact_sensitive_data` returns, which cuts lists at a hundred items and marks nothing. `Mirrors`
says of a value and a record of it that every list has the records of its first hundred items,
whatever is redacted again and replaced on the way out.
-/

namespace BaseWebService.Logging

open Library Relation

/-- A value as it was given, its texts left as they are. -/
abbrev asWritten (v : PyValue ℕ) : Doc := unfoldWith .str v

/-- A scalar or a text. -/
def PyValue.IsBare : Tree → Prop
  | .scalar _ => True
  | .str _ => True
  | _ => False

/-- What `_truncate_log_value` puts in the place of a dictionary. -/
def cutMapping (typeName : String) : Tree :=
  .mapping () [(.str "type", .str typeName), (.str "truncated", .scalar (.bool true))]

/-- What `serialize_for_log` writes for a value without looking into it. -/
inductive Written : Doc → Tree → Prop
  | scalar (x : Scalar) : Written (.scalar x) (.scalar x)
  | str (text : String) : Written (.str text) (.str text)
  | bytes (data : List UInt8) :
      Written (.other (.bytes data)) (Environment.sizeMarker data false)
  | object (typeName text : String) : Written (.other (.object typeName text)) (.str text)
  | objectMet (typeName text : String) :
      Written (.other (.object typeName text)) (recursive typeName)
  | mappingMet (entries : List (Key × Doc)) : Written (.mapping entries) (recursive "dict")
  | mappingCut (entries : List (Key × Doc)) {typeName : String}
      (reason : typeName = "object" ∨ typeName = "dict") :
      Written (.mapping entries) (cutMapping typeName)
  | seqMet (kind : SeqKind) (items : List Doc) (kind' : SeqKind) :
      Written (.seq kind items) (recursive kind'.typeName)

/-- `t'` is what redacting `t`, any number of times, may make of it. -/
def RedactsTo (rt : Runtime) : Tree → Tree → Prop :=
  ReflTransGen fun t t' => rt.Shows (rt.unfold t) t'

/-- `t` is a record of `d`: what was written for it and redacted on the way out, or made of records
of its parts. -/
inductive Mirrors (rt : Runtime) : Doc → Tree → Prop
  | whole {d : Doc} {t₀ t : Tree} (written : Written d t₀) (redacts : RedactsTo rt t₀ t) :
      Mirrors rt d t
  | mapping {entries : List (Key × Doc)} {shown : List (Key × Tree)}
      (distinct : (shown.map Prod.fst).Nodup) (texts : ∀ e ∈ shown, Key.str e.1.text = e.1)
      (hidden : ∀ text t, pyGet shown (.str text) = some t →
        rt.isSensitiveKey (.str text) = true → t = .str redacted)
      (inside : ∀ text d t, lastText entries text = some d → pyGet shown (.str text) = some t →
        rt.isSensitiveKey (.str text) = false → Mirrors rt d t) :
      Mirrors rt (.mapping entries) (.mapping () shown)
  | seq {kind : SeqKind} {items : List Doc} {shown : List Tree}
      (length : shown.length = min 100 items.length)
      (inside : ∀ (i : ℕ) d t, items[i]? = some d → shown[i]? = some t → Mirrors rt d t) :
      Mirrors rt (.seq kind items) (.seq .list () shown)

section mirrors
variable {rt : Runtime} {entries : List (Key × Doc)} {kind : SeqKind} {items : List Doc}

theorem lastValue_eq_pyGet {shown : List (Key × Tree)} (hdistinct : (shown.map Prod.fst).Nodup)
    (key : Key) : lastValue shown key = pyGet shown key := by
  rw [← pyGet_pyDict, pyDict_eq_self hdistinct]

theorem ShowsEntries.texts : ∀ {entries : List (Key × Doc)} {shown : List (Key × Tree)},
    rt.ShowsEntries entries shown → ∀ e ∈ shown, Key.str e.1.text = e.1
  | [], shown, h => by
    obtain rfl : shown = [] := h
    exact fun _ he => absurd he List.not_mem_nil
  | _ :: _, shown, h => by
    obtain ⟨t, rest, rfl, -, hrest⟩ := h
    exact List.forall_mem_cons.mpr ⟨rfl, ShowsEntries.texts hrest⟩

/-- What stands under a key of a dictionary that was redacted. -/
theorem lookup_pyDict {built : List (Key × Tree)} {shown : List (Key × Tree)}
    (hshown : rt.ShowsEntries (built.map fun e => (e.1, rt.unfold e.2)) shown) {text : String}
    {t' : Tree} (himage : pyGet (pyDict shown) (.str text) = some t') :
    ∃ t, lastText built text = some t ∧
      if rt.isSensitiveKey (.str text) then t' = .str redacted else rt.Shows (rt.unfold t) t' := by
  rw [pyGet_pyDict] at himage
  obtain ⟨-, hnone⟩ | ⟨d, t₁, hd, ht₁, hvalue⟩ := hshown.lookup text
  · rw [hnone] at himage
    cases himage
  · obtain rfl := Option.some.inj (himage.symm.trans ht₁)
    rw [lastText_map] at hd
    obtain ⟨t, ht, rfl⟩ := Option.map_eq_some_iff.mp hd
    exact ⟨t, ht, hvalue⟩

/-- A mapping of records, redacted, is a record of the mapping. -/
theorem mirrors_pyDict {built : List (Key × Tree)} {shown : List (Key × Tree)}
    (hshown : rt.ShowsEntries (built.map fun e => (e.1, rt.unfold e.2)) shown)
    (hinside : ∀ text d t, lastText entries text = some d → lastText built text = some t →
      rt.isSensitiveKey (.str text) = false → ∀ t', rt.Shows (rt.unfold t) t' → Mirrors rt d t') :
    Mirrors rt (.mapping entries) (.mapping () (pyDict shown)) := by
  refine .mapping (nodup_keys_pyDict shown)
    (fun e he => ShowsEntries.texts hshown e (mem_of_mem_pyDict he)) ?_ ?_
  · intro text t' himage hkey
    obtain ⟨t, -, hvalue⟩ := lookup_pyDict hshown himage
    rwa [if_pos hkey] at hvalue
  · intro text d t' hd himage hkey
    obtain ⟨t, ht, hvalue⟩ := lookup_pyDict hshown himage
    rw [hkey] at hvalue
    exact hinside text d t hd ht hkey t' hvalue

/-- A list of records, redacted, is a record of the list, cut at a hundred items. -/
theorem mirrors_list {built shown : List Tree}
    (hshown : rt.ShowsItems 100 (built.map rt.unfold) shown)
    (hlength : min 100 built.length = min 100 items.length)
    (hinside : ∀ (i : ℕ) d t, items[i]? = some d → built[i]? = some t →
      ∀ t', rt.Shows (rt.unfold t) t' → Mirrors rt d t') :
    Mirrors rt (.seq kind items) (.seq .list () shown) := by
  obtain ⟨hcut, hitems⟩ := hshown.getElem?
  refine .seq (by rw [hcut, List.length_map, hlength]) fun i d t' hd ht' => ?_
  have hi : i < built.length := by
    have hlt := (List.getElem?_eq_some_iff.mp ht').1
    simp only [hcut, List.length_map] at hlt
    omega
  have ht : built[i]? = some built[i] := List.getElem?_eq_getElem hi
  exact hinside i d _ hd ht t' (hitems i _ t' (by simp [ht]) ht')

/-- A record that is redacted once more is still a record. -/
theorem Mirrors.of_shows {d : Doc} {t : Tree} (h : Mirrors rt d t) :
    ∀ t', rt.Shows (rt.unfold t) t' → Mirrors rt d t' := by
  induction h with
  | whole hwritten hredacts => exact fun t' hshows => .whole hwritten (hredacts.tail hshows)
  | @mapping entries shown hdistinct htexts _ _ ih =>
    intro t' hshows
    obtain rfl | ⟨shown', hentries, rfl⟩ := hshows
    · exact .whole (.mappingMet _) .refl
    · rw [Environment.unfoldEntries_eq_map] at hentries
      refine mirrors_pyDict hentries fun text d t hd ht hkey => ?_
      rw [lastText_eq_lastValue text htexts, lastValue_eq_pyGet hdistinct] at ht
      exact ih text d t hd ht hkey
  | @seq kind items shown hlength _ ih =>
    intro t' hshows
    obtain rfl | ⟨shown', hitems, rfl⟩ := hshows
    · exact .whole (.seqMet _ _ .list) .refl
    · rw [Environment.unfoldItems_eq_map] at hitems
      exact mirrors_list hitems (by omega) ih

/-! ## What is written without being looked into -/

/-- A text that holds no JSON stays as it is. -/
theorem RedactsTo.eq_of_unparsed {text : String} {t : Tree} (h : RedactsTo rt (.str text) t)
    (hunparsed : rt.parseText text = none) : t = .str text := by
  induction h with
  | refl => rfl
  | tail _ hshows ih =>
    rw [ih, Runtime.unfold, unfoldWith, Runtime.unfoldText_of_none hunparsed] at hshows
    exact hshows

theorem RedactsTo.eq_of_scalar {x : Scalar} {t : Tree} (h : RedactsTo rt (.scalar x) t) :
    t = .scalar x := by
  induction h with
  | refl => rfl
  | tail _ hshows ih =>
    rw [ih] at hshows
    exact hshows

theorem RedactsTo.eq_of_marker {typeName : String} {t : Tree}
    (h : RedactsTo rt (recursive typeName) t) : t = recursive typeName :=
  h.eq_of_unparsed (Runtime.parseText_marker typeName)

/-- A dictionary of which all that is shown is bare. -/
def Plain (rt : Runtime) (t : Tree) : Prop :=
  ∃ shown, t = .mapping () shown ∧ (shown.map Prod.fst).Nodup ∧
    (∀ e ∈ shown, Key.str e.1.text = e.1) ∧
    ∀ text t, pyGet shown (.str text) = some t →
      if rt.isSensitiveKey (.str text) then t.IsBare
      else (∃ x, t = .scalar x) ∨ ∃ text, t = .str text ∧ rt.parseText text = none

/-- What takes the place of a dictionary stays bare, or is replaced by a marker. -/
theorem RedactsTo.plain {t₀ t : Tree} (h : RedactsTo rt t₀ t) (hplain : Plain rt t₀) :
    t = recursive "dict" ∨ Plain rt t := by
  induction h with
  | refl => exact .inr hplain
  | tail _ hshows ih =>
    rcases ih with rfl | ⟨shown, rfl, hdistinct, htexts, hvalues⟩
    · have hstep : RedactsTo rt (recursive "dict") _ := ReflTransGen.single hshows
      exact .inl hstep.eq_of_marker
    obtain rfl | ⟨shown', hentries, rfl⟩ := hshows
    · exact .inl rfl
    rw [Environment.unfoldEntries_eq_map] at hentries
    refine .inr ⟨_, rfl, nodup_keys_pyDict shown',
      fun e he => ShowsEntries.texts hentries e (mem_of_mem_pyDict he), fun text t' himage => ?_⟩
    obtain ⟨t, ht, hvalue⟩ := lookup_pyDict hentries himage
    rw [lastText_eq_lastValue text htexts, lastValue_eq_pyGet hdistinct] at ht
    have hold := hvalues text t ht
    split_ifs at hvalue hold ⊢ with hkey
    · rw [hvalue]
      trivial
    · have hstep : RedactsTo rt t t' := ReflTransGen.single hvalue
      rcases hold with ⟨x, rfl⟩ | ⟨text', rfl, hunparsed⟩
      · exact .inl ⟨x, hstep.eq_of_scalar⟩
      · exact .inr ⟨text', hstep.eq_of_unparsed hunparsed, hunparsed⟩

theorem plain_cutMapping {typeName : String} (hreason : typeName = "object" ∨ typeName = "dict") :
    Plain rt (cutMapping typeName) := by
  have hunparsed : rt.parseText typeName = none := by
    have hstart : startsJson (pyStrip typeName) = false := by
      rcases hreason with rfl | rfl <;> decide
    simp [Runtime.parseText, hstart]
  refine ⟨_, rfl, by simp, by simp [Key.text], fun text t hget => ?_⟩
  have hvalue : t = .str typeName ∨ t = .scalar (.bool true) := by
    rcases List.mem_cons.mp (mem_of_pyGet hget) with h | h
    · exact .inl (congrArg Prod.snd h)
    · exact .inr (congrArg Prod.snd (List.mem_singleton.mp h))
  rcases hvalue with rfl | rfl <;> split_ifs
  · trivial
  · exact .inr ⟨typeName, rfl, hunparsed⟩
  · trivial
  · exact .inl ⟨_, rfl⟩

/-- Where a list is shown for a sequence, it is made of the records of the items. -/
theorem Mirrors.seq_inv {t : Tree} {shown : List Tree} (h : Mirrors rt (.seq kind items) t)
    (ht : t = .seq .list () shown) : shown.length = min 100 items.length ∧
      ∀ (i : ℕ) d t, items[i]? = some d → shown[i]? = some t → Mirrors rt d t := by
  cases h with
  | whole hwritten hredacts =>
    cases hwritten
    rw [hredacts.eq_of_marker] at ht
    cases ht
  | seq hlength hinside =>
    cases ht
    exact ⟨hlength, hinside⟩

/-- Parts at the same place are records of each other, or what stands there is bare. -/
theorem Mirrors.facing {d d' : Doc} {t t' : Tree} (hfacing : Facing d t d' t')
    (h : Mirrors rt d t) : Mirrors rt d' t' ∨ t'.IsBare := by
  have hbare : ∀ {d d' : Doc} {t t' : Tree}, Facing d t d' t' → t.IsBare → t'.IsBare := by
    intro d d' t t' hfacing
    induction hfacing with
    | here => exact id
    | json _ ih => exact ih
    | entry | item => exact fun h => h.elim
  induction hfacing with
  | here => exact Or.inl h
  | json _ ih =>
    cases h with
    | whole hwritten => cases hwritten
  | @entry entries shown text d d' t t' hvalue himage hrest ih =>
    generalize hwhole : (PyValue.mapping () shown : Tree) = whole at h
    cases h with
    | whole hwritten hredacts =>
      cases hwritten with
      | mappingMet =>
        rw [hredacts.eq_of_marker] at hwhole
        cases hwhole
      | mappingCut _ hreason =>
        -- nothing in such a dictionary is a container
        right
        rcases hredacts.plain (plain_cutMapping hreason) with heq | ⟨shown', heq, -, -, hplain⟩
        · rw [heq] at hwhole
          cases hwhole
        · rw [heq] at hwhole
          cases hwhole
          have hvalue := hplain text t himage
          split_ifs at hvalue
          · exact hbare hrest hvalue
          · rcases hvalue with ⟨x, rfl⟩ | ⟨text', rfl, -⟩
            · exact hbare hrest trivial
            · exact hbare hrest trivial
    | mapping _ _ hhidden hinside =>
      cases hwhole
      cases hkey : rt.isSensitiveKey (.str text) with
      | true => exact Or.inr (hbare hrest (by rw [hhidden text t himage hkey]; trivial))
      | false => exact ih (hinside text d t hvalue himage hkey)
  | @item kind items shown i d d' t t' hvalue himage _ ih =>
    exact ih ((h.seq_inv rfl).2 i d t hvalue himage)

/-! ## The marker of a cut list -/

def itemsTruncated : Tree := .str "... [items truncated]"

/-- The text of the value is the marker's. -/
def ReadsAsMarker (d : Doc) : Prop :=
  d = .str "... [items truncated]" ∨
    ∃ typeName, d = .other (.object typeName "... [items truncated]")

/-- A marker of recursion, or a dictionary or a list. -/
def Coarse (t : Tree) : Prop := (∃ typeName, t = recursive typeName) ∨ t.IsContainer

theorem itemsTruncated_not_coarse : ¬ Coarse itemsTruncated := by
  rintro (⟨typeName, h⟩ | h)
  · have htext := congrArg String.toList (PyValue.str.inj h)
    simp only [String.toList_append] at htext
    cases htext
  · exact h

theorem coarse_of_shows {onText : String → Doc} {t₀ t : Tree} (ht₀ : t₀.IsContainer)
    (h : rt.Shows (unfoldWith onText t₀) t) : Coarse t := by
  cases t₀ with
  | scalar | str | other => exact ht₀.elim
  | mapping id entries =>
    rw [unfoldWith] at h
    obtain rfl | ⟨shown, -, rfl⟩ := h
    · exact .inl ⟨_, rfl⟩
    · exact .inr trivial
  | seq kind id items =>
    rw [unfoldWith] at h
    obtain rfl | ⟨shown, -, rfl⟩ := h
    · exact .inl ⟨_, rfl⟩
    · exact .inr trivial

theorem RedactsTo.coarse {t₀ t : Tree} (h : RedactsTo rt t₀ t) (ht : Coarse t₀) : Coarse t := by
  induction h with
  | refl => exact ht
  | tail _ hshows ih =>
    rcases ih with ⟨typeName, rfl⟩ | hcontainer
    · have hstep : RedactsTo rt (recursive typeName) _ := ReflTransGen.single hshows
      exact .inl ⟨typeName, hstep.eq_of_marker⟩
    · exact coarse_of_shows hcontainer hshows

/-- A text stays as it is, or is parsed. -/
theorem RedactsTo.of_str {text : String} {t : Tree} (h : RedactsTo rt (.str text) t) :
    t = .str text ∨ Coarse t := by
  induction h with
  | refl => exact .inl rfl
  | tail _ hshows ih =>
    rcases ih with rfl | hcoarse
    · cases hparsed : rt.parseText text with
      | none =>
        have hstep : RedactsTo rt (.str text) _ := ReflTransGen.single hshows
        exact .inl (hstep.eq_of_unparsed hparsed)
      | some c =>
        obtain ⟨n, hn⟩ := Runtime.parseText_length hparsed
        rw [Runtime.unfold, unfoldWith, hn, Runtime.unfoldText, hparsed] at hshows
        exact .inr (coarse_of_shows (Runtime.parseText_container hparsed) hshows)
    · have hstep : RedactsTo rt _ _ := ReflTransGen.single hshows
      exact .inr (hstep.coarse hcoarse)

/-- The marker is a record of nothing but its own text. -/
theorem Mirrors.readsAsMarker {d : Doc} {t : Tree} (h : Mirrors rt d t) (ht : t = itemsTruncated) :
    ReadsAsMarker d := by
  have hcoarse : ¬ Coarse t := ht ▸ itemsTruncated_not_coarse
  cases h with
  | mapping | seq => cases ht
  | whole hwritten hredacts =>
    cases hwritten with
    | scalar x =>
      rw [hredacts.eq_of_scalar] at ht
      cases ht
    | str text =>
      rcases hredacts.of_str with h | h
      · exact .inl (by rw [PyValue.str.inj (h.symm.trans ht)])
      · exact absurd h hcoarse
    | object typeName text =>
      rcases hredacts.of_str with h | h
      · exact .inr ⟨typeName, by rw [PyValue.str.inj (h.symm.trans ht)]⟩
      · exact absurd h hcoarse
    | bytes | mappingCut => exact absurd (hredacts.coarse (.inr trivial)) hcoarse
    | objectMet | mappingMet | seqMet => exact absurd (hredacts.coarse (.inl ⟨_, rfl⟩)) hcoarse

end mirrors

/-! ## The record of a container -/

namespace Environment

variable {env : Environment} {alloc : ℕ → Allocator}

/-- Truncation leaves a record of a mapping a record of it. -/
theorem mirrors_truncateLogValue {entries : List (Key × Doc)} {shown : List (Key × Tree)}
    (h : Mirrors env.toRuntime (.mapping entries) (.mapping () shown)) :
    Mirrors env.toRuntime (.mapping entries) (env.truncateLogValue (.mapping () shown)) := by
  rw [truncateLogValue]
  split
  · split
    · exact .whole (.mappingCut entries (.inl rfl)) .refl
    · exact h
  · exact .whole (.mappingCut entries (.inr rfl)) .refl

/-- A list that was redacted is too short to be cut. -/
theorem truncateLogValue_list {shown : List Tree} {docs : List Doc}
    (h : env.ShowsItems 100 docs shown) :
    env.truncateLogValue (.seq .list () shown) = .seq .list () shown := by
  have hshort : ¬ 100 < shown.length := by
    rw [h.getElem?.1]
    omega
  exact if_neg hshort

theorem unfoldEntries_build {a : Allocator} {id : ℕ} {entries : List (Key × PyValue ℕ)}
    {built : List (Key × Tree)} (h : a.build .start [] (.mapping () built) = .mapping id entries) :
    unfoldEntries (fun text => env.unfoldText text.length text) entries =
      built.map fun e => (e.1, env.unfold e.2) := by
  have herase := a.erase_build .start [] (.mapping () built)
  rw [h, PyValue.erase] at herase
  obtain rfl : eraseEntries entries = built := by simpa using herase
  rw [← unfoldEntries_erase, unfoldEntries_eq_map]
  rfl

theorem unfoldItems_build {a : Allocator} {kind : SeqKind} {id : ℕ} {items : List (PyValue ℕ)}
    {built : List Tree} (h : a.build .start [] (.seq .list () built) = .seq kind id items) :
    unfoldItems (fun text => env.unfoldText text.length text) items = built.map env.unfold := by
  have herase := a.erase_build .start [] (.seq .list () built)
  rw [h, PyValue.erase] at herase
  obtain rfl : eraseItems items = built := by
    injection herase
  rw [← unfoldItems_erase, unfoldItems_eq_map]
  rfl

/-- What is built for a mapping, redacted: a mapping. -/
theorem redactNew_mapping (a : Allocator) (built : List (Key × Tree)) : ∃ shown,
    env.ShowsEntries (built.map fun e => (e.1, env.unfold e.2)) shown ∧
      env.redactNew a (.mapping () built) = .mapping () (pyDict shown) := by
  have herase := a.erase_build .start [] (.mapping () built)
  cases hbuild : a.build .start [] (.mapping () built) with
  | mapping id entries =>
    rw [redactNew, hbuild, ← unfoldEntries_build hbuild]
    exact Runtime.shows_redact_mapping id entries
  | _ => simp [hbuild, PyValue.erase] at herase

theorem redactNew_list (a : Allocator) (built : List Tree) : ∃ shown,
    env.ShowsItems 100 (built.map env.unfold) shown ∧
      env.redactNew a (.seq .list () built) = .seq .list () shown := by
  have herase := a.erase_build .start [] (.seq .list () built)
  cases hbuild : a.build .start [] (.seq .list () built) with
  | seq kind id items =>
    rw [redactNew, hbuild, ← unfoldItems_build hbuild]
    exact Runtime.shows_redact_seq kind id items
  | _ => simp [hbuild, PyValue.erase] at herase

/-- A part of what is built: the record of a part of the value. -/
def BuiltEntries (env : Environment) (entries : List (Key × Doc)) (built : List (Key × Tree)) :
    Prop :=
  List.Forall₂ (fun e e' => Key.str e.1.text = e'.1 ∧ Mirrors env.toRuntime e.2 e'.2) entries built

theorem BuiltEntries.lookup {entries : List (Key × Doc)} {built : List (Key × Tree)}
    (h : env.BuiltEntries entries built) (text : String) :
    Option.Rel (Mirrors env.toRuntime) (lastText entries text) (lastText built text) := by
  induction h with
  | nil => exact .none
  | @cons e e' entries built he _ ih =>
    have hkey : e'.1.text = e.1.text := by
      rw [← he.1]
      rfl
    rw [lastText_cons, lastText_cons, hkey]
    generalize lastText entries text = o, lastText built text = o' at ih
    cases ih with
    | none =>
      by_cases htext : e.1.text = text
      · simpa [htext] using Option.Rel.some he.2
      · simp [htext]
    | some hvalue => exact .some hvalue

theorem BuiltEntries.texts {entries : List (Key × Doc)} {built : List (Key × Tree)}
    (h : env.BuiltEntries entries built) : ∀ e ∈ built, Key.str e.1.text = e.1 := by
  induction h with
  | nil => exact fun _ he => absurd he List.not_mem_nil
  | cons he _ ih =>
    refine List.forall_mem_cons.mpr ⟨?_, ih⟩
    rw [← he.1]
    rfl

theorem lastText_pyDict {built : List (Key × Tree)} (htexts : ∀ e ∈ built, Key.str e.1.text = e.1)
    (text : String) : lastText (pyDict built) text = lastText built text := by
  rw [lastText_eq_lastValue text htexts, lastText_eq_lastValue text fun e he =>
    htexts e (mem_of_mem_pyDict he), lastValue_eq_pyGet (nodup_keys_pyDict built), pyGet_pyDict]

mutual

theorem mirrors_serializeWith : ∀ (v : PyValue ℕ) (s : Serializing),
    Mirrors env.toRuntime (asWritten v) (env.serializeWith alloc v s).1
  | .scalar x, _ => .whole (.scalar x) .refl
  | .str text, _ => .whole (.str text) .refl
  | .other _ (.bytes data), _ => .whole (.bytes data) .refl
  | .other id (.object typeName text), s => by
    rw [serializeWith, serializeOpaque]
    split
    · exact .whole (.objectMet typeName text) .refl
    · exact .whole (.object typeName text) .refl
  | .mapping id entries, s => by
    rw [serializeWith]
    split
    · exact .whole (.mappingMet _) .refl
    · have hbuilt := mirrors_serializeEntries entries (s.visit id)
      obtain ⟨shown, hshown, heq⟩ := redactNew_mapping
        (alloc (env.serializeEntries alloc entries (s.visit id)).2.calls)
        (pyDict (env.serializeEntries alloc entries (s.visit id)).1)
      rw [logContainer, heq]
      refine mirrors_truncateLogValue ?_
      refine mirrors_pyDict hshown fun text d t hd ht _ => ?_
      have hrel := hbuilt.lookup text
      rw [lastText_pyDict hbuilt.texts] at ht
      rw [hd, ht] at hrel
      cases hrel with
      | some hvalue => exact hvalue.of_shows
  | .seq kind id items, s => by
    rw [serializeWith]
    split
    · exact .whole (.seqMet kind _ kind) .refl
    · have hbuilt := mirrors_serializeItems items (s.visit id)
      obtain ⟨shown, hshown, heq⟩ := redactNew_list
        (alloc (env.serializeItems alloc items (s.visit id)).2.calls)
        (env.serializeItems alloc items (s.visit id)).1
      rw [logContainer, heq, truncateLogValue_list hshown]
      refine mirrors_list hshown (by rw [hbuilt.length_eq]) fun i d t hd ht => ?_
      obtain ⟨hi, rfl⟩ := List.getElem?_eq_some_iff.mp hd
      obtain ⟨hi', rfl⟩ := List.getElem?_eq_some_iff.mp ht
      exact (hbuilt.get hi hi').of_shows

theorem mirrors_serializeEntries : ∀ (entries : List (Key × PyValue ℕ)) (s : Serializing),
    env.BuiltEntries (unfoldEntries .str entries) (env.serializeEntries alloc entries s).1
  | [], _ => .nil
  | (_, value) :: entries, s =>
    .cons ⟨rfl, mirrors_serializeWith value s⟩ (mirrors_serializeEntries entries _)

theorem mirrors_serializeItems : ∀ (items : List (PyValue ℕ)) (s : Serializing),
    List.Forall₂ (Mirrors env.toRuntime) (unfoldItems .str items)
      (env.serializeItems alloc items s).1
  | [], _ => .nil
  | value :: items, s => .cons (mirrors_serializeWith value s) (mirrors_serializeItems items _)

end

/-! ## Lists in a record -/

/-- A list of more than a hundred items ends with the marker, after the records of the first
hundred; a shorter one has the records of its items, and no marker but where an item is one. -/
def TruncationMarked (rt : Runtime) (items : List Doc) (shown : List Tree) : Prop :=
  if 100 < items.length then
    ∃ kept, List.Forall₂ (Mirrors rt) (items.take 100) kept ∧ shown = kept ++ [itemsTruncated]
  else List.Forall₂ (Mirrors rt) items shown ∧
    (itemsTruncated ∈ shown → ∃ d ∈ items, ReadsAsMarker d)

/-- The record of a list is a list. -/
theorem serializeWith_list (kind : SeqKind) (id : ℕ) (items : List (PyValue ℕ)) : ∃ shown,
    env.ShowsItems 100 ((env.serializeItems alloc items (Serializing.start.visit id)).1.map
      env.unfold) shown ∧
    (env.serializeWith alloc (.seq kind id items) .start).1 = .seq .list () shown := by
  obtain ⟨shown, hshown, heq⟩ := redactNew_list
    (alloc (env.serializeItems alloc items (Serializing.start.visit id)).2.calls)
    (env.serializeItems alloc items (Serializing.start.visit id)).1
  have hshort : ¬ 100 < shown.length := by
    rw [hshown.getElem?.1]
    omega
  refine ⟨shown, hshown, ?_⟩
  rw [serializeWith_seq kind items List.not_mem_nil, logContainer, heq]
  exact if_neg hshort

/-- A hundred and one zeros. -/
def zeros : PyValue ℕ := .seq .list 0 (List.replicate 101 (.scalar (.int 0)))

theorem serializeItems_zeros (n : ℕ) (s : Serializing) :
    (env.serializeItems alloc (List.replicate n (.scalar (.int 0))) s).1 =
      List.replicate n (.scalar (.int 0)) := by
  induction n generalizing s with
  | zero => rfl
  | succ n ih => rw [List.replicate_succ, serializeItems, ih, List.replicate_succ, serializeWith]

theorem asWritten_zeros : asWritten zeros = .seq .list (List.replicate 101 (.scalar (.int 0))) := by
  rw [asWritten, zeros, unfoldWith, unfoldItems_eq_map, List.map_replicate, unfoldWith]

end Environment

end BaseWebService.Logging
