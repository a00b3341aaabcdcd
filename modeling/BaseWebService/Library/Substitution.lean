import BaseWebService.Library.PyReplace

/-!
# One substitution after the other

Filling in placeholders by replacing one word after the other is compared with filling them all in
at once. For the latter a text is first carved into letters and placeholders, and what is filled in
is never looked at. Letters carry a mark that tells those that were filled in; as long as no
replacement touches one of them, the two agree.
-/

namespace BaseWebService.Library

variable {α β κ : Type*}

/-! ## Placeholders -/

/-- A letter, and whether it was filled in. -/
abbrev Marked (α : Type*) := α × Bool

/-- A text with one mark on all its letters. -/
def marked (filled : Bool) (l : List α) : List (Marked α) := l.map fun a => (a, filled)

/-- A letter of a text with placeholders; a placeholder has none. -/
def letterOf : α ⊕ κ → Option α := Sum.elim some fun _ => none

section fill
variable (literal : κ → List α)

/-- All placeholders filled in at once. -/
def fill (t : List (α ⊕ κ)) : List α := t.flatMap (Sum.elim ([·]) literal)

/-- The same, with the letters marked that were filled in. -/
def fillMarked (t : List (α ⊕ κ)) : List (Marked α) :=
  t.flatMap (Sum.elim (fun a => [(a, false)]) fun k => marked true (literal k))

end fill

section fill
variable {literal literal' : κ → List α} {t : List (α ⊕ κ)} {old : List α} {k : κ}

@[simp] theorem fill_nil : fill literal ([] : List (α ⊕ κ)) = [] := rfl

@[simp] theorem fill_inl {a : α} : fill literal (.inl a :: t) = a :: fill literal t := rfl

@[simp] theorem fill_inr : fill literal (.inr k :: t) = literal k ++ fill literal t := rfl

@[simp] theorem fillMarked_nil : fillMarked literal ([] : List (α ⊕ κ)) = [] := rfl

@[simp] theorem fillMarked_inl {a : α} :
    fillMarked literal (.inl a :: t) = (a, false) :: fillMarked literal t := rfl

@[simp] theorem fillMarked_inr :
    fillMarked literal (.inr k :: t) = marked true (literal k) ++ fillMarked literal t := rfl

@[simp] theorem map_fst_marked (filled : Bool) (l : List α) :
    (marked filled l).map Prod.fst = l := by
  rw [marked, List.map_map]
  exact List.map_id l

theorem fillMarked_map_inl (l : List α) :
    fillMarked literal (l.map (.inl (β := κ))) = marked false l := by
  induction l with
  | nil => rfl
  | cons a l ih => simpa [marked] using ih

@[simp] theorem map_fst_fillMarked (t : List (α ⊕ κ)) :
    (fillMarked literal t).map Prod.fst = fill literal t := by
  induction t with
  | nil => rfl
  | cons x t ih => cases x <;> simp [ih]

/-- Letters that were not filled in are letters of the text. -/
theorem map_letterOf_take (hne : ∀ k, literal k ≠ []) (n : ℕ) (t : List (α ⊕ κ))
    (h : ∀ x ∈ (fillMarked literal t).take n, x.2 = false) :
    (t.take n).map letterOf = ((fillMarked literal t).take n).map fun x => some x.1 := by
  induction n generalizing t with
  | zero => simp
  | succ n ih =>
    cases t with
    | nil => simp
    | cons x t =>
      cases x with
      | inl a =>
        have hrest := ih t fun x hx => h x (by simp [hx])
        simpa [letterOf] using hrest
      | inr k =>
        obtain ⟨a, as, hk⟩ := List.exists_cons_of_ne_nil (hne k)
        have hfirst := h (a, true) (by simp [hk, marked])
        cases hfirst

/-- A word of the text is read in it when it is filled in. -/
theorem prefix_fillMarked (h : old.map some <+: t.map letterOf) :
    old <+: (fillMarked literal t).map Prod.fst := by
  induction old generalizing t with
  | nil => exact List.nil_prefix
  | cons a old ih =>
    cases t with
    | nil => simp at h
    | cons x t =>
      rw [List.map_cons, List.map_cons, List.cons_prefix_cons] at h
      cases x with
      | inl b =>
        obtain ⟨hfirst, hrest⟩ := h
        obtain rfl : a = b := Option.some.inj hfirst
        exact List.cons_prefix_cons.mpr ⟨rfl, ih hrest⟩
      | inr k => exact absurd h.1 (by simp [letterOf])

/-- A word that is read in what is filled in is one of the text, if none of its letters was filled
in. -/
theorem prefix_letterOf (hne : ∀ k, literal k ≠ [])
    (h : old <+: (fillMarked literal t).map Prod.fst)
    (hmarks : ∀ x ∈ (fillMarked literal t).take old.length, x.2 = false) :
    old.map some <+: t.map letterOf := by
  have hold : old = ((fillMarked literal t).take old.length).map Prod.fst := by
    rw [List.map_take]
    exact List.prefix_iff_eq_take.mp h
  have hletters := map_letterOf_take hne old.length t hmarks
  have hsame : old.map some = (t.take old.length).map letterOf := by
    rw [hletters]
    conv_lhs => rw [hold]
    rw [List.map_map]
    rfl
  rw [hsame]
  exact (List.take_prefix _ _).map _

/-- Texts of the same lengths give the same filling only if they are the same where they are
needed. -/
theorem fill_eq_fill_iff (hlength : ∀ k, (literal k).length = (literal' k).length)
    (t : List (α ⊕ κ)) :
    fill literal t = fill literal' t ↔ ∀ k, .inr k ∈ t → literal k = literal' k := by
  induction t with
  | nil => simp
  | cons x t ih =>
    cases x with
    | inl a => simp [ih]
    | inr k =>
      rw [fill_inr, fill_inr]
      constructor
      · intro h
        obtain ⟨hk, hrest⟩ := List.append_inj h (hlength k)
        intro j hj
        rcases List.mem_cons.mp hj with hj | hj
        · obtain rfl := Sum.inr.inj hj
          exact hk
        · exact ih.mp hrest j hj
      · intro h
        rw [h k List.mem_cons_self, ih.mpr fun j hj => h j (List.mem_cons_of_mem _ hj)]

end fill

/-! ## One substitution after the other -/

variable [DecidableEq α]

/-- The items that `replaceFrom` takes out. -/
def replacedFrom (letter : β → α) (old : List α) : ℕ → List β → List β
  | _, [] => []
  | skip + 1, x :: l => x :: replacedFrom letter old skip l
  | 0, x :: l =>
    if old <+: (x :: l).map letter then x :: replacedFrom letter old (old.length - 1) l
    else replacedFrom letter old 0 l

/-- All that a replacement of `old` takes out was there from the start. -/
def Untouched (old : List α) (l : List (Marked α)) : Prop :=
  ∀ x ∈ replacedFrom Prod.fst old 0 l, x.2 = false

section run
variable (word : κ → List α) (literal : κ → List α)

/-- One replacement after the other. -/
def substitute (ks : List κ) (l : List α) : List α :=
  ks.foldl (fun l k => replaceFrom id (word k) (literal k) 0 l) l

/-- A text with its placeholders, in the order in which they are looked for. -/
def carve (ks : List κ) (l : List α) : List (α ⊕ κ) :=
  ks.foldl (fun t k => replaceFrom letterOf ((word k).map some) [.inr k] 0 t) (l.map .inl)

/-- No replacement touches what an earlier one has filled in. -/
def UntouchedRun : List κ → List (Marked α) → Prop
  | [], _ => True
  | k :: ks, l => Untouched (word k) l ∧
      UntouchedRun ks (replaceFrom Prod.fst (word k) (marked true (literal k)) 0 l)

end run

/-! ## A replacement that touches nothing that was filled in -/

section untouched
variable {word literal : κ → List α} {t : List (α ⊕ κ)} {old : List α} {l : List (Marked α)} {k : κ}

/-- The next letters of an occurrence are all taken out. -/
theorem take_subset_replacedFrom {letter : β → α} (n : ℕ) (l : List β) :
    l.take n ⊆ replacedFrom letter old n l := by
  induction n generalizing l with
  | zero => simp
  | succ n ih =>
    cases l with
    | nil => simp
    | cons x l =>
      rw [List.take_succ_cons, replacedFrom]
      exact List.cons_subset_cons x (ih l)

/-- Marks make no difference to what is replaced. -/
theorem map_fst_replaceFrom (new : List (Marked α)) (skip : ℕ) (l : List (Marked α)) :
    (replaceFrom Prod.fst old new skip l).map Prod.fst =
      replaceFrom id old (new.map Prod.fst) skip (l.map Prod.fst) := by
  fun_induction replaceFrom Prod.fst old new skip l with
  | case1 => rfl
  | case2 skip x l ih => simpa [replaceFrom] using ih
  | case3 x l hstart ih => simp_all [replaceFrom]
  | case4 x l hstart ih => simp_all [replaceFrom]

/-- Nothing begins in letters that were filled in. -/
theorem replaceFrom_filled (new : List (Marked α)) {m : List (Marked α)} (hm : ∀ x ∈ m, x.2 = true)
    (h : Untouched old (m ++ l)) : replaceFrom Prod.fst old new 0 (m ++ l) =
      m ++ replaceFrom Prod.fst old new 0 l ∧ Untouched old l := by
  induction m with
  | nil => exact ⟨rfl, h⟩
  | cons x m ih =>
    obtain ⟨hx, hm⟩ := List.forall_mem_cons.mp hm
    by_cases hstart : old <+: (x :: (m ++ l)).map Prod.fst
    · have hfirst := h x (by rw [List.cons_append, replacedFrom, if_pos hstart]; simp)
      exact absurd (hx.symm.trans hfirst) (by decide)
    · have hrest : Untouched old (m ++ l) := by
        intro y hy
        exact h y (by rwa [List.cons_append, replacedFrom, if_neg hstart])
      obtain ⟨hreplace, hl⟩ := ih hm hrest
      rw [List.cons_append, replaceFrom, if_neg hstart, hreplace]
      exact ⟨rfl, hl⟩

/-- A replacement that touches nothing filled in replaces placeholders of the text. -/
theorem replaceFrom_fillMarked (hne : ∀ k, literal k ≠ []) (hold : old ≠ []) (k : κ) (skip : ℕ)
    (t : List (α ⊕ κ))
    (h : ∀ x ∈ replacedFrom Prod.fst old skip (fillMarked literal t), x.2 = false) :
    replaceFrom Prod.fst old (marked true (literal k)) skip (fillMarked literal t) =
      fillMarked literal (replaceFrom letterOf (old.map some) [.inr k] skip t) := by
  induction t generalizing skip with
  | nil => cases skip <;> rfl
  | cons x t ih =>
    cases x with
    | inl a =>
      cases skip with
      | succ skip =>
        rw [fillMarked_inl, replaceFrom, replaceFrom]
        exact ih skip fun y hy => h y (List.mem_cons_of_mem _ hy)
      | zero =>
        rw [fillMarked_inl] at h ⊢
        by_cases hstart : old <+: ((a, false) :: fillMarked literal t).map Prod.fst
        · rw [replacedFrom, if_pos hstart] at h
          have hmarks : ∀ y ∈ (fillMarked literal (.inl a :: t)).take old.length, y.2 = false := by
            obtain ⟨n, hn⟩ := Nat.exists_eq_succ_of_ne_zero (List.length_pos_of_ne_nil hold).ne'
            intro y hy
            rw [hn, fillMarked_inl, List.take_succ_cons] at hy
            rcases List.mem_cons.mp hy with rfl | hy
            · rfl
            · refine h y (List.mem_cons_of_mem _ ?_)
              rw [hn, Nat.succ_sub_one]
              exact take_subset_replacedFrom n _ hy
          have hword := prefix_letterOf hne (t := .inl a :: t) hstart hmarks
          rw [replaceFrom, if_pos hstart, replaceFrom, if_pos hword, List.length_map,
            ih _ fun y hy => h y (List.mem_cons_of_mem _ hy)]
          rfl
        · rw [replacedFrom, if_neg hstart] at h
          have hword : ¬ old.map some <+: ((.inl a :: t : List (α ⊕ κ))).map letterOf :=
            fun hword => hstart (prefix_fillMarked hword)
          rw [replaceFrom, if_neg hstart, replaceFrom, if_neg hword, ih 0 h]
          rfl
    | inr j =>
      cases skip with
      | succ skip =>
        obtain ⟨a, as, hj⟩ := List.exists_cons_of_ne_nil (hne j)
        have hfirst := h (a, true) (by simp [hj, marked, replacedFrom])
        cases hfirst
      | zero =>
        have hfilled : ∀ x ∈ marked true (literal j), x.2 = true := by simp [marked]
        rw [fillMarked_inr] at h ⊢
        obtain ⟨hreplace, hrest⟩ := replaceFrom_filled (marked true (literal k)) hfilled h
        have hword : ¬ old.map some <+: ((.inr j :: t : List (α ⊕ κ))).map letterOf := by
          obtain ⟨a, as, rfl⟩ := List.exists_cons_of_ne_nil hold
          simp [letterOf, List.cons_prefix_cons]
        rw [hreplace, replaceFrom, if_neg hword, fillMarked_inr, ih 0 hrest]

end untouched

/-! ## Whole runs -/

section runs
variable {word literal literal' : κ → List α}

/-- A run that touches nothing filled in is the filling of what is carved. -/
theorem foldl_fillMarked (hne : ∀ k, literal k ≠ []) (hword : ∀ k, word k ≠ []) (ks : List κ)
    (t : List (α ⊕ κ)) (h : UntouchedRun word literal ks (fillMarked literal t)) :
    ks.foldl (fun l k => replaceFrom Prod.fst (word k) (marked true (literal k)) 0 l)
        (fillMarked literal t) =
      fillMarked literal
        (ks.foldl (fun t k => replaceFrom letterOf ((word k).map some) [.inr k] 0 t) t) := by
  induction ks generalizing t with
  | nil => rfl
  | cons k ks ih =>
    have hstep := replaceFrom_fillMarked hne (hword k) k 0 t h.1
    have hrest := h.2
    rw [hstep] at hrest
    rw [List.foldl_cons, List.foldl_cons, hstep]
    exact ih _ hrest

/-- Marks make no difference to a run. -/
theorem map_fst_foldl (ks : List κ) (l : List (Marked α)) :
    (ks.foldl (fun l k => replaceFrom Prod.fst (word k) (marked true (literal k)) 0 l) l).map
      Prod.fst = substitute word literal ks (l.map Prod.fst) := by
  induction ks generalizing l with
  | nil => rfl
  | cons k ks ih =>
    rw [List.foldl_cons, ih, map_fst_replaceFrom, map_fst_marked]
    rfl

/-- If nothing that was filled in is touched, one substitution after the other fills in all
placeholders at once. -/
theorem substitute_eq_fill (hne : ∀ k, literal k ≠ []) (hword : ∀ k, word k ≠ []) {ks : List κ}
    {l : List α} (h : UntouchedRun word literal ks (marked false l)) :
    substitute word literal ks l = fill literal (carve word ks l) := by
  have hmarked : fillMarked literal (l.map (.inl (β := κ))) = marked false l :=
    fillMarked_map_inl l
  have hrun := foldl_fillMarked hne hword ks (l.map .inl) (hmarked ▸ h)
  have herase := congrArg (List.map Prod.fst) hrun
  rw [map_fst_foldl, map_fst_fillMarked, map_fst_fillMarked] at herase
  have hsame : fill literal (l.map (.inl (β := κ))) = l := by
    rw [← map_fst_fillMarked, hmarked, map_fst_marked]
  rw [hsame] at herase
  exact herase

theorem carve_append (ks : List κ) (k : κ) (l : List α) : carve word (ks ++ [k]) l =
    replaceFrom letterOf ((word k).map some) [.inr k] 0 (carve word ks l) := by
  rw [carve, List.foldl_append]
  rfl

/-- Nothing that was filled in is touched exactly if each word is found, once the placeholders
before it are filled in at once, only in letters of the text. -/
theorem untouchedRun_iff (hne : ∀ k, literal k ≠ []) (hword : ∀ k, word k ≠ []) {ks : List κ}
    {l : List α} : UntouchedRun word literal ks (marked false l) ↔
      ∀ done k later, ks = done ++ k :: later →
        Untouched (word k) (fillMarked literal (carve word done l)) := by
  have hall : ∀ (later done : List κ),
      UntouchedRun word literal later (fillMarked literal (carve word done l)) ↔
        ∀ done' k later', later = done' ++ k :: later' →
          Untouched (word k) (fillMarked literal (carve word (done ++ done') l)) := by
    intro later
    induction later with
    | nil => exact fun done => iff_of_true trivial (by simp)
    | cons k later ih =>
      intro done
      constructor
      · rintro ⟨huntouched, hrest⟩ done' k' later' heq
        rw [replaceFrom_fillMarked hne (hword k) k 0 _ huntouched, ← carve_append, ih] at hrest
        cases done' with
        | nil =>
          obtain ⟨rfl, rfl⟩ := List.cons.inj heq
          rwa [List.append_nil]
        | cons k'' done' =>
          obtain ⟨rfl, rfl⟩ := List.cons.inj heq
          simpa using hrest done' k' later' rfl
      · intro h
        have huntouched : Untouched (word k) (fillMarked literal (carve word done l)) := by
          simpa using h [] k later rfl
        refine ⟨huntouched, ?_⟩
        rw [replaceFrom_fillMarked hne (hword k) k 0 _ huntouched, ← carve_append, ih]
        intro done' k' later' heq
        simpa using h (k :: done') k' later' (by rw [heq, List.cons_append])
  have hstart : fillMarked literal (carve word [] l) = marked false l := fillMarked_map_inl l
  have hrun := hall ks []
  rw [hstart] at hrun
  exact hrun

end runs

/-! ## Carving in one pass -/

/-- From left to right, at each place the first word that stands there; the first `skip` letters
belong to a word that was met before them. -/
def scan (word : κ → List α) (ks : List κ) : ℕ → List α → List (α ⊕ κ)
  | _, [] => []
  | skip + 1, _ :: l => scan word ks skip l
  | 0, x :: l =>
    match ks.find? fun k => word k <+: x :: l with
    | some k => .inr k :: scan word ks ((word k).length - 1) l
    | none => .inl x :: scan word ks 0 l

section scan
variable {word : κ → List α} {ks : List κ} {a : α}

theorem scan_length_append (before l : List α) :
    scan word ks before.length (before ++ l) = scan word ks 0 l := by
  induction before with
  | nil => rfl
  | cons x before ih => exact ih

theorem scan_nil (l : List α) : scan word [] 0 l = l.map .inl := by
  induction l with
  | nil => rfl
  | cons x l ih => simpa [scan] using ih

/-- Where no word can begin, letters are kept. -/
theorem scan_append (hword : ∀ k ∈ ks, ∃ rest, word k = a :: rest ∧ a ∉ rest) {before : List α}
    (hbefore : a ∉ before) (l : List α) :
    scan word ks 0 (before ++ l) = before.map .inl ++ scan word ks 0 l := by
  induction before with
  | nil => rfl
  | cons x before ih =>
    obtain ⟨hx, hbefore⟩ := not_or.mp (mt List.mem_cons.mpr hbefore)
    have hnone : ks.find? (fun k => word k <+: x :: (before ++ l)) = none := by
      refine List.find?_eq_none.mpr fun k hmem => ?_
      obtain ⟨rest, hk, -⟩ := hword k hmem
      rw [hk, decide_eq_true_eq, List.cons_prefix_cons]
      exact fun h => hx h.1
    rw [List.cons_append, scan, hnone]
    simp [ih hbefore]

theorem prefix_of_prefix_scan {old : List α} (l : List α)
    (h : old.map some <+: (scan word ks 0 l).map letterOf) : old <+: l := by
  induction l generalizing old with
  | nil => simpa [scan] using h
  | cons x l ih =>
    cases old with
    | nil => exact List.nil_prefix
    | cons b old =>
      rw [scan] at h
      split at h
      · exact absurd (List.cons_prefix_cons.mp h).1 (by simp [letterOf])
      · obtain ⟨hb, hrest⟩ := List.cons_prefix_cons.mp h
        exact List.cons_prefix_cons.mpr ⟨Option.some.inj hb, ih hrest⟩

/-- To look for one more word is to replace it in what the others leave. -/
theorem replaceFrom_scan (hword : ∀ k ∈ ks, ∃ rest, word k = a :: rest ∧ a ∉ rest) {k : κ}
    (hlast : ∃ rest, word k = a :: rest ∧ a ∉ rest) (skip : ℕ) (l : List α) :
    replaceFrom letterOf ((word k).map some) [.inr k] 0 (scan word ks skip l) =
      scan word (ks ++ [k]) skip l := by
  induction l generalizing skip with
  | nil => cases skip <;> rfl
  | cons x l ih =>
    cases skip with
    | succ skip => exact ih skip
    | zero =>
      obtain ⟨rest, hk, hrest⟩ := hlast
      rw [scan, scan, List.find?_append]
      cases hfind : ks.find? fun k => word k <+: x :: l with
      | some j =>
        have hno : ¬ (word k).map some <+:
            ((.inr j :: scan word ks ((word j).length - 1) l : List (α ⊕ κ))).map letterOf := by
          rw [hk]
          simp [letterOf, List.cons_prefix_cons]
        rw [Option.some_or]
        simp only [replaceFrom, hno, if_false, ih]
      | none =>
        rw [Option.none_or]
        by_cases hstart : word k <+: x :: l
        · have hsingle : [k].find? (fun k => word k <+: x :: l) = some k := by simp [hstart]
          rw [hk] at hstart
          obtain ⟨rfl, l', rfl⟩ := List.cons_prefix_cons.mp hstart
          have hkept : scan word ks 0 (rest ++ l') = _ := scan_append hword hrest l'
          have hmatch : (word k).map some <+:
              ((.inl a :: scan word ks 0 (rest ++ l') : List (α ⊕ κ))).map letterOf := by
            rw [hk, hkept]
            simp [letterOf, Function.comp_def]
          have hdone := ih rest.length
          rw [scan_length_append, scan_length_append] at hdone
          have hskip : replaceFrom letterOf ((word k).map some) [.inr k] rest.length
              (rest.map .inl ++ scan word ks 0 l') =
                replaceFrom letterOf ((word k).map some) [.inr k] 0 (scan word ks 0 l') := by
            simpa using replaceFrom_length_append (rest.map .inl) (scan word ks 0 l')
          have hlength : (word k).length - 1 = rest.length := by rw [hk]; rfl
          rw [hsingle]
          show replaceFrom letterOf ((word k).map some) [.inr k] 0
              (.inl a :: scan word ks 0 (rest ++ l')) =
            .inr k :: scan word (ks ++ [k]) ((word k).length - 1) (rest ++ l')
          rw [replaceFrom, if_pos hmatch, List.length_map, hlength, scan_length_append, hkept,
            hskip, hdone]
          rfl
        · have hsingle : [k].find? (fun k => word k <+: x :: l) = none := by simp [hstart]
          have hno : ¬ (word k).map some <+:
              ((.inl x :: scan word ks 0 l : List (α ⊕ κ))).map letterOf := by
            intro h
            rw [hk, List.map_cons, List.map_cons] at h
            obtain ⟨hx, htail⟩ := List.cons_prefix_cons.mp h
            rw [hk] at hstart
            exact hstart (List.cons_prefix_cons.mpr
              ⟨Option.some.inj hx, prefix_of_prefix_scan l htail⟩)
          rw [hsingle]
          simp only [replaceFrom, hno, if_false, ih]

/-- Where all words begin with a letter that is nowhere else in them, the text is carved in one
pass. -/
theorem carve_eq_scan (hword : ∀ k ∈ ks, ∃ rest, word k = a :: rest ∧ a ∉ rest) (l : List α) :
    carve word ks l = scan word ks 0 l := by
  induction ks using List.reverseRecOn with
  | nil => rw [scan_nil]; rfl
  | append_singleton ks k ih =>
    rw [carve_append, ih fun j hj => hword j (List.mem_append_left _ hj),
      replaceFrom_scan (fun j hj => hword j (List.mem_append_left _ hj)) (hword k (by simp))]

end scan

end BaseWebService.Library
