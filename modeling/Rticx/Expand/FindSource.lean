import Mathlib.Algebra.Ring.Nat
import Rticx.Expand.Restore

/-!
# The search for the source file

`find_source_file` of `flow.rs`, by which `expand` comes to the file that it merges into. It skips
the directories that `restore` skips.
-/

namespace Rticx.Expand.Restore

open Rticx.Lib

/-- `find_source_file` in one directory: the file, or the stack with the directories that are
still to be searched. -/
def scan (wanted : Name) (base : Path) : Crate → List (Path × Crate) →
    Path ⊕ List (Path × Crate)
  | .nil, stack => .inr stack
  | .file name _ rest, stack =>
    if name = wanted then .inl (base ++ [name]) else scan wanted base rest stack
  | .dir name entries rest, stack =>
    if isSkipped name then scan wanted base rest stack
    else scan wanted base rest ((base ++ [name], entries) :: stack)

/-- What is left to do for the directories of a stack. -/
def weight (stack : List (Path × Crate)) : Nat := (stack.map fun entry => entry.2.size + 1).sum

theorem weight_scan {wanted : Name} {base : Path} {t : Crate} {stack stack' : List (Path × Crate)}
    (h : scan wanted base t stack = .inr stack') : weight stack' ≤ weight stack + t.size := by
  induction t generalizing stack with
  | nil =>
    cases h
    exact Nat.le_add_right _ _
  | file name contents rest ih =>
    rw [scan] at h
    split at h
    · cases h
    · have := ih h
      simp only [FileTree.size]
      omega
  | dir name entries rest _ ih =>
    rw [scan] at h
    split at h
    · have := ih h
      simp only [FileTree.size]
      omega
    · have := ih h
      simp only [weight, List.map_cons, List.sum_cons] at this
      simp only [FileTree.size, weight]
      omega

/-- The loop of `find_source_file` -/
def search (wanted : Name) (stack : List (Path × Crate)) : Option Path :=
  match stack with
  | [] => none
  | (base, t) :: rest =>
    match _h : scan wanted base t rest with
    | .inl path => some path
    | .inr stack' => search wanted stack'
termination_by weight stack
decreasing_by
  have := weight_scan _h
  simp only [weight, List.map_cons, List.sum_cons] at this ⊢
  omega

/-- `find_source_file` -/
def findSourceFile (t : Crate) (stem : Name) : Option Path := search (stem ++ rsSuffix) [([], t)]

variable {t : Crate} {base file path rel : Path} {name wanted : Name}
variable {stack stack' : List (Path × Crate)}

/-! ## What is found -/

/-- A file of this name that is below no directory that is skipped. -/
def Source (wanted : Name) (t : Crate) (path : Path) : Prop :=
  (t.fileAt path).isSome ∧ Visible path ∧ path.getLast? = some wanted

/-- A file of this name below a directory of the stack. -/
def Reachable (wanted : Name) (stack : List (Path × Crate)) (path : Path) : Prop :=
  ∃ base t rel, (base, t) ∈ stack ∧ path = base ++ rel ∧ Source wanted t rel

theorem source_file {contents : List UInt8} {rest : Crate} (hrest : name ∉ rest.names) :
    Source wanted (.file name contents rest) rel ↔
      rel = [name] ∧ name = wanted ∨ Source wanted rest rel := by
  unfold Source
  rw [FileTree.fileAt]
  by_cases hrel : rel = [name]
  · subst hrel
    simp [Visible, FileTree.fileAt_of_notMem hrest]
  · simp [hrel]

theorem source_dir {entries rest : Crate} (hrest : name ∉ rest.names) :
    Source wanted (.dir name entries rest) rel ↔
      isSkipped name = false ∧ (∃ below, rel = name :: below ∧ Source wanted entries below) ∨
        Source wanted rest rel := by
  unfold Source
  cases rel with
  | nil => simp
  | cons n rel =>
    rw [FileTree.fileAt]
    by_cases hn : n = name
    · subst hn
      rw [if_pos rfl, FileTree.fileAt_of_notMem hrest]
      cases rel with
      | nil => simp
      | cons m rel =>
        simp only [Visible, List.dropLast_cons_cons, List.forall_mem_cons, List.getLast?_cons_cons]
        constructor
        · rintro ⟨hfile, ⟨hn, hvisible⟩, hlast⟩
          exact Or.inl ⟨hn, _, rfl, hfile, hvisible, hlast⟩
        · rintro (⟨hn, below, heq, hfile, hvisible, hlast⟩ | ⟨hfile, _⟩)
          · obtain rfl := (List.cons.inj heq).2
            exact ⟨hfile, ⟨hn, hvisible⟩, hlast⟩
          · cases hfile
    · rw [if_neg hn]
      constructor
      · exact Or.inr
      · rintro (⟨_, below, heq, _⟩ | h)
        · exact absurd (List.cons.inj heq).1 hn
        · exact h

theorem reachable_cons : Reachable wanted ((base, t) :: stack) path ↔
    (∃ rel, path = base ++ rel ∧ Source wanted t rel) ∨ Reachable wanted stack path := by
  constructor
  · rintro ⟨base', t', rel, hmem, heq, hsource⟩
    rcases List.mem_cons.mp hmem with hhead | htail
    · obtain ⟨rfl, rfl⟩ := Prod.mk.inj hhead
      exact Or.inl ⟨rel, heq, hsource⟩
    · exact Or.inr ⟨base', t', rel, htail, heq, hsource⟩
  · rintro (⟨rel, heq, hsource⟩ | ⟨base', t', rel, hmem, heq, hsource⟩)
    · exact ⟨base, t, rel, List.mem_cons_self, heq, hsource⟩
    · exact ⟨base', t', rel, List.mem_cons_of_mem _ hmem, heq, hsource⟩

theorem source_of_scan (ht : t.Distinct) (h : scan wanted base t stack = .inl path) :
    ∃ rel, path = base ++ rel ∧ Source wanted t rel := by
  induction t generalizing stack with
  | nil => cases h
  | file name contents rest ih =>
    rw [scan] at h
    split at h
    · rename_i heq
      cases h
      exact ⟨[name], rfl, (source_file ht.1).mpr (Or.inl ⟨rfl, heq⟩)⟩
    · obtain ⟨rel, heq, hsource⟩ := ih ht.2 h
      exact ⟨rel, heq, (source_file ht.1).mpr (Or.inr hsource)⟩
  | dir name entries rest _ ih =>
    have hrest : ∃ rel, path = base ++ rel ∧ Source wanted rest rel := by
      rw [scan] at h
      split at h
      · exact ih ht.2.2 h
      · exact ih ht.2.2 h
    obtain ⟨rel, heq, hsource⟩ := hrest
    exact ⟨rel, heq, (source_dir ht.1).mpr (Or.inr hsource)⟩

/-- A directory without the file: what is left is on the stack. -/
theorem reachable_of_scan (ht : t.Distinct) (h : scan wanted base t stack = .inr stack') :
    Reachable wanted ((base, t) :: stack) path ↔ Reachable wanted stack' path := by
  induction t generalizing stack with
  | nil =>
    cases h
    simp [reachable_cons, Source, FileTree.fileAt]
  | file name contents rest ih =>
    rw [scan] at h
    split at h
    · cases h
    · rename_i hne
      rw [← ih ht.2 h, reachable_cons, reachable_cons]
      simp [source_file ht.1, hne]
  | dir name entries rest _ ih =>
    rw [scan] at h
    split at h
    · rename_i hskip
      rw [← ih ht.2.2 h, reachable_cons, reachable_cons]
      simp [source_dir ht.1, hskip]
    · rename_i hskip
      have hskip : isSkipped name = false := by simpa using hskip
      rw [← ih ht.2.2 h, reachable_cons, reachable_cons, reachable_cons]
      simp only [source_dir ht.1, hskip, true_and]
      constructor
      · rintro (⟨rel, heq, ⟨below, rfl, hsource⟩ | hsource⟩ | hstack)
        · exact Or.inr (Or.inl ⟨below, by rw [heq, List.append_assoc]; rfl, hsource⟩)
        · exact Or.inl ⟨rel, heq, hsource⟩
        · exact Or.inr (Or.inr hstack)
      · rintro (⟨rel, heq, hsource⟩ | ⟨below, heq, hsource⟩ | hstack)
        · exact Or.inl ⟨rel, heq, Or.inr hsource⟩
        · exact Or.inl ⟨name :: below, by rw [heq, List.append_assoc]; rfl,
            Or.inl ⟨below, rfl, hsource⟩⟩
        · exact Or.inr hstack

theorem distinct_of_scan (ht : t.Distinct) (hstack : ∀ entry ∈ stack, entry.2.Distinct)
    (h : scan wanted base t stack = .inr stack') : ∀ entry ∈ stack', entry.2.Distinct := by
  induction t generalizing stack with
  | nil =>
    cases h
    exact hstack
  | file name contents rest ih =>
    rw [scan] at h
    split at h
    · cases h
    · exact ih ht.2 hstack h
  | dir name entries rest _ ih =>
    rw [scan] at h
    split at h
    · exact ih ht.2.2 hstack h
    · exact ih ht.2.2 (List.forall_mem_cons.mpr ⟨ht.2.1, hstack⟩) h

/-- **The search comes to a file if there is one to come to.** -/
theorem search_spec (hstack : ∀ entry ∈ stack, entry.2.Distinct) :
    (∀ path, search wanted stack = some path → Reachable wanted stack path) ∧
      (search wanted stack = none → ∀ path, ¬ Reachable wanted stack path) := by
  induction stack using search.induct wanted with
  | case1 =>
    rw [search]
    refine ⟨fun path h => (by cases h), fun _ path hpath => ?_⟩
    obtain ⟨_, _, _, hmem, _⟩ := hpath
    cases hmem
  | case2 base t stack path hscan =>
    obtain ⟨ht, hstack⟩ := List.forall_mem_cons.mp hstack
    rw [search, hscan]
    refine ⟨fun path' h => ?_, fun h => by cases h⟩
    cases h
    exact reachable_cons.mpr (Or.inl (source_of_scan ht hscan))
  | case3 base t stack stack' hscan ih =>
    obtain ⟨ht, hstack⟩ := List.forall_mem_cons.mp hstack
    obtain ⟨hsome, hnone⟩ := ih (distinct_of_scan ht hstack hscan)
    rw [search, hscan]
    refine ⟨fun path h => ?_, fun h path => ?_⟩
    · exact (reachable_of_scan ht hscan).mpr (hsome path h)
    · rw [reachable_of_scan ht hscan]
      exact hnone h path

theorem findSourceFile_spec (ht : t.Distinct) {stem : Name} :
    (∀ file, findSourceFile t stem = some file → Source (stem ++ rsSuffix) t file) ∧
      (findSourceFile t stem = none → ∀ file, ¬ Source (stem ++ rsSuffix) t file) := by
  have hreachable : ∀ file, Reachable (stem ++ rsSuffix) [([], t)] file ↔
      Source (stem ++ rsSuffix) t file := by
    intro file
    rw [reachable_cons]
    simp [Reachable]
  have h := @search_spec (stem ++ rsSuffix) [([], t)] (List.forall_mem_singleton.mpr ht)
  simpa only [hreachable, findSourceFile] using h

/-- A file that the search finds is searched by `restore`. -/
theorem Source.searched {stem : Name} (h : Source (stem ++ rsSuffix) t file) : Searched file := by
  refine ⟨h.2.1, ?_⟩
  rw [h.2.2, Option.getD_some]
  exact List.suffix_append _ _

/-- **What `expand` finds, `restore` finds again.** The search for the source file comes to one if
there is one to come to, and after a merge into it `restore` gives the crate back exactly if there
were no backups. -/
theorem found_restored (ht : t.Distinct) {stem : Name} :
    (findSourceFile t stem = none ↔ ∀ file, ¬ Source (stem ++ rsSuffix) t file) ∧
      ∀ file, findSourceFile t stem = some file → Source (stem ++ rsSuffix) t file ∧
        ∀ original expansion rounds t',
          mergeInto t file original expansion false rounds = some (.ok t') →
          ((∃ t'', restore t' none = .ok t'' ∧ SameFiles t'' t) ↔ collectBackups [] t = []) := by
  obtain ⟨hsome, hnone⟩ := @findSourceFile_spec t ht stem
  refine ⟨⟨hnone, fun h => ?_⟩, fun file hfile => ⟨hsome file hfile, ?_⟩⟩
  · cases hfound : findSourceFile t stem with
    | none => rfl
    | some file => exact absurd (hsome file hfound) (h file)
  · intro original expansion rounds t' hmerge
    rw [(merged_of_mergeInto ht hmerge).restore_iff ht]
    exact and_iff_right (hsome file hfile).searched

theorem blink_found :
    (findSourceFile blink "main".toList = none ↔ ∀ file, ¬ Source "main.rs".toList blink file) ∧
      ∀ file, findSourceFile blink "main".toList = some file →
        Source "main.rs".toList blink file ∧ ∀ original expansion rounds t',
          mergeInto blink file original expansion false rounds = some (.ok t') →
          ((∃ t'', restore t' none = .ok t'' ∧ SameFiles t'' blink) ↔
            collectBackups [] blink = []) :=
  @found_restored blink blink_distinct "main".toList

end Rticx.Expand.Restore
