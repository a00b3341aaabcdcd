import BaseWebService.Proto.Reruns

/-!
# The generated files

The three searches below the output directory find different files, so a run treats every file by
itself, and each generated file once.

## Main results

* `main_eq` : a run is one pass over the files.
* `main_fixes_iff` : when a run fixes all files, in every order of the roots and ever after.
-/

namespace BaseWebService.Proto

open Library Template

/-! ## All files at once -/

section mapM
variable {α β γ ι : Type*}

theorem mapM_bind {f : α → Option β} {g : β → Option γ} (l : List α) :
    (l.mapM f).bind (List.mapM g) = l.mapM fun x => (f x).bind g := by
  induction l with
  | nil => rfl
  | cons x l ih =>
    rw [List.mapM_cons, List.mapM_cons, ← ih]
    cases hx : f x with
    | none => simp
    | some y =>
      cases hl : l.mapM f with
      | none => cases hy : g y <;> simp [hy]
      | some ys => simp

theorem mapM_eq_some_iff {f : α → Option β} {g : α → β} {l : List α} :
    l.mapM f = some (l.map g) ↔ ∀ x ∈ l, f x = some (g x) := by
  induction l with
  | nil => simp
  | cons x l ih =>
    rw [List.mapM_cons, List.forall_mem_cons, ← ih]
    cases hx : f x with
    | none => simp
    | some y => cases hl : l.mapM f <;> simp

theorem mapM_eq_some_self_iff {f : α → Option α} {l : List α} :
    l.mapM f = some l ↔ ∀ x ∈ l, f x = some x := by
  have h : l.mapM f = some (l.map id) ↔ ∀ x ∈ l, f x = some (id x) := mapM_eq_some_iff
  rwa [List.map_id] at h

theorem foldlM_mapM (step : ι → α → Option α) (is : List ι) (l : List α) :
    is.foldlM (fun l i => l.mapM (step i)) l =
      l.mapM fun x => is.foldlM (fun x i => step i x) x := by
  induction is generalizing l with
  | nil =>
    exact (mapM_eq_some_self_iff.mpr fun _ _ => rfl).symm
  | cons i is ih =>
    calc (l.mapM (step i)).bind (fun l => is.foldlM (fun l i => l.mapM (step i)) l)
        = (l.mapM (step i)).bind (List.mapM fun x => is.foldlM (fun x i => step i x) x) :=
          congrArg _ (funext ih)
      _ = l.mapM fun x => (step i x).bind fun x => is.foldlM (fun x i => step i x) x := mapM_bind l

end mapM

def ProtoFile.isGenerated (file : ProtoFile) : Bool := endings.any (file.endsWith ·)

/-- What a run makes of a file. -/
def fixGenerated (pkg : Text) (roots : List ProtoRoot) (file : ProtoFile) : Option ProtoFile :=
  if file.isGenerated then
    (fixContent pkg roots (universalNewlines file.content)).map ({ file with content := · })
  else some file

theorem foldlM_fixFile_of_not {pkg : Text} {roots : List ProtoRoot} {file : ProtoFile}
    {found : List Text} (h : ∀ ending ∈ found, file.endsWith ending = false) :
    found.foldlM (fun file ending => fixFile pkg roots ending file) file = some file := by
  induction found with
  | nil => rfl
  | cons ending found ih =>
    obtain ⟨hfirst, hmore⟩ := List.forall_mem_cons.mp h
    rw [List.foldlM_cons, fixFile, hfirst]
    exact ih hmore

/-- No name has two of the endings. -/
theorem not_endsWith (file : ProtoFile) :
    endings.Pairwise fun ending ending' =>
      file.endsWith ending → file.endsWith ending' = false := by
  have hapart : endings.Pairwise fun ending ending' =>
      ¬ ending <:+ ending' ∧ ¬ ending' <:+ ending := by decide
  refine hapart.imp fun {ending ending'} hne h => ?_
  by_contra h'
  rw [Bool.not_eq_false] at h'
  rw [ProtoFile.endsWith, List.isSuffixOf_iff_suffix] at h h'
  obtain hlength | hlength := Nat.le_total ending.length ending'.length
  · exact hne.1 (List.suffix_of_suffix_length_le h h' hlength)
  · exact hne.2 (List.suffix_of_suffix_length_le h' h hlength)

/-- No file is found twice. -/
theorem foldlM_fixFile (pkg : Text) (roots : List ProtoRoot) (file : ProtoFile) :
    endings.foldlM (fun file ending => fixFile pkg roots ending file) file =
      fixGenerated pkg roots file := by
  have hapart := not_endsWith file
  rw [fixGenerated, ProtoFile.isGenerated]
  generalize endings = found at hapart ⊢
  induction found with
  | nil => rfl
  | cons ending found ih =>
    obtain ⟨hfirst, hmore⟩ := List.pairwise_cons.mp hapart
    rw [List.foldlM_cons, fixFile, List.any_cons]
    cases h : file.endsWith ending with
    | true =>
      cases fixContent pkg roots (universalNewlines file.content) with
      | none => rfl
      | some content =>
        exact foldlM_fixFile_of_not fun ending' hending' => hfirst ending' hending' h
    | false => exact ih hmore

/-- A run is one pass over the files. -/
theorem main_eq (protoOutDir : Text) (roots : List ProtoRoot) (files : List ProtoFile) :
    main protoOutDir roots files = files.mapM (fixGenerated (packagePrefix protoOutDir) roots) := by
  rw [main, foldlM_mapM]
  simp only [foldlM_fixFile]

/-! ## What a run is for -/

def fixedFile (pkg : Text) (roots : List ProtoRoot) (file : ProtoFile) : ProtoFile :=
  if file.isGenerated then
    { file with content := fixedContent pkg roots (universalNewlines file.content) }
  else file

section fixedFile
variable {pkg : Text} {roots order : List ProtoRoot} {file : ProtoFile}

theorem fixGenerated_eq_iff : fixGenerated pkg order file = some (fixedFile pkg roots file) ↔
    (file.isGenerated → fixContent pkg order (universalNewlines file.content) =
      some (fixedContent pkg roots (universalNewlines file.content))) := by
  by_cases h : file.isGenerated
  · simp [fixGenerated, fixedFile, h]
  · simp [fixGenerated, fixedFile, h]

theorem fixGenerated_fixedFile_eq_iff :
    fixGenerated pkg order (fixedFile pkg roots file) = some (fixedFile pkg roots file) ↔
    (file.isGenerated → fixContent pkg order (universalNewlines
        (fixedContent pkg roots (universalNewlines file.content))) =
      some (fixedContent pkg roots (universalNewlines file.content))) := by
  have hgenerated : (fixedFile pkg roots file).isGenerated = file.isGenerated := by
    rw [fixedFile]
    split <;> rfl
  rw [fixGenerated, hgenerated]
  by_cases h : file.isGenerated
  · simp [fixedFile, h]
  · simp [h]

end fixedFile

/-- A run in any order of the roots fixes the generated files and no others, and another run in any
order leaves all files as they are. -/
def MainFixes (protoOutDir : Text) (roots : List ProtoRoot) (files : List ProtoFile) : Prop :=
  let fixed := files.map (fixedFile (packagePrefix protoOutDir) roots)
  ∀ order, order.Perm roots → main protoOutDir order files = some fixed ∧
    ∀ again, again.Perm roots → main protoOutDir again fixed = some fixed

/-- Every generated file is fixed by itself. -/
theorem mainFixes_iff_fixes (protoOutDir : Text) (roots : List ProtoRoot) (files : List ProtoFile) :
    MainFixes protoOutDir roots files ↔ ∀ file ∈ files, file.isGenerated →
      Fixes (packagePrefix protoOutDir) roots (universalNewlines file.content) := by
  simp only [MainFixes, main_eq, mapM_eq_some_iff, mapM_eq_some_self_iff, List.forall_mem_map,
    fixGenerated_eq_iff, fixGenerated_fixedFile_eq_iff, Fixes]
  constructor
  · intro h file hfile hgenerated order horder
    exact ⟨(h order horder).1 file hfile hgenerated, fun again hagain =>
      (h order horder).2 again hagain file hfile hgenerated⟩
  · intro h order horder
    exact ⟨fun file hfile hgenerated => (h file hfile hgenerated order horder).1,
      fun again hagain file hfile hgenerated =>
        (h file hfile hgenerated order horder).2 again hagain⟩

/-- A run fixes all files, in every order of the roots and ever after, exactly when each generated
file is stable. -/
theorem main_fixes_iff (protoOutDir : Text) (roots : List ProtoRoot) (files : List ProtoFile) :
    MainFixes protoOutDir roots files ↔ ∀ file ∈ files, file.isGenerated →
      Stable (packagePrefix protoOutDir) roots (universalNewlines file.content) := by
  rw [mainFixes_iff_fixes]
  exact forall₃_congr fun file _ _ => fixes_iff (not_mem_universalNewlines file.content)

/-- A root that is named as the package begins: the second run finds its own package. -/
theorem app_fixed_twice : ¬ MainFixes (text "app/pb") [⟨text "app", by decide⟩]
    [⟨text "x_pb2.py", text "from app.v1 import y_pb2"⟩] := by
  intro h
  obtain ⟨hfirst, hagain⟩ := h _ (.refl _)
  have hsecond := hagain _ (.refl _)
  have hrun : main (text "app/pb") [⟨text "app", by decide⟩]
      [⟨text "x_pb2.py", text "from app.v1 import y_pb2"⟩] =
        some [⟨text "x_pb2.py", text "from app.pb.app.v1 import y_pb2"⟩] := by decide
  rw [← Option.some_inj.mp (hrun.symm.trans hfirst)] at hsecond
  revert hsecond
  decide

end BaseWebService.Proto
