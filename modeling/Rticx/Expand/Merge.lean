import Rticx.Expand.Detect
import Rticx.Lib.Machine
import Rticx.Lib.Utf8

/-!
# Merging the expansion into the source file, and back

`merge_into` and `restore` of `flow.rs`: the app of a source file is replaced by its expansion, the
text that was there is kept in a file beside it. Each is a few operations on files that can fail, a
write with a part of the text written.
-/

namespace Rticx.Expand

open Rticx.Lib Rticx.Lib.Utf8

/-! ## Splicing -/

/-- The merged text, around the place of the app. -/
def splice (original expansion : List Char) (item : AppItem) : Except String (List Char) :=
  match slice? original 0 item.attrStart, slice? original item.stop (encode original).length with
  | some pre, some post =>
    let newline := if expansion.getLast? = some '\n' then [] else ['\n']
    .ok (pre ++ (expansion ++ newline) ++ post)
  | _, _ => .error "byte index is not a char boundary"

/-- `splice_expansion`, when the search for the app gets this number of rounds: `none` when it is not
over. -/
def spliceExpansion (original expansion : List Char) (rounds : Nat) :
    Option (Except String (List Char)) :=
  (Loop.exec (Search.round (encode original)) rounds ⟨0, []⟩).map fun found => do
    match (← found).items with
    | [] => .error "no `#[…::app]` module found"
    | [item] => splice original expansion item
    | items => .error s!"found {items.length} `#[…::app]` modules; expand one application per file."

/-! ## The files -/

/-- Where a call is. -/
inductive Phase where
  | idle
  /-- `merge_into` writes the backup -/
  | backing (original merged : List UInt8)
  /-- `merge_into` writes the file -/
  | writing (merged : List UInt8)
  /-- `restore` has removed the file -/
  | removed
  deriving DecidableEq

structure Files where
  file : Option (List UInt8)
  /-- the file with the suffix `.old` -/
  backup : Option (List UInt8)
  phase : Phase
  /-- what the last `merge_into` read that passed its checks, until a `restore` is done -/
  source : Option (List UInt8)
  deriving DecidableEq

inductive Event where
  /-- `merge_into` reads this text and comes to its checks, with this many rounds of the search -/
  | merge (original expansion : List Char) (force : Bool) (rounds : Nat)
  /-- `merge_into` cannot read the file, or `restore` finds no backup or several ones, or cannot
  remove the file -/
  | fails
  /-- the write has come to this number of bytes -/
  | write (n : Nat)
  | writeDone
  | writeFails
  /-- `restore` removes the file, if there is one -/
  | restore
  | rename
  | renameFails
  deriving DecidableEq

def Files.step (s : Files) : Event → Option Files
  | .merge original expansion force rounds =>
    if s.phase = .idle ∧ s.file = some (encode original) then
      (spliceExpansion original expansion rounds).map fun
        | .error _ => s
        | .ok merged =>
          if s.backup.isSome ∧ force = false then s
          else { s with
            phase := .backing (encode original) (encode merged)
            source := some (encode original) }
    else none
  | .fails => if s.phase = .idle then some s else none
  | .write n =>
    match s.phase with
    | .backing original _ => some { s with backup := some (original.take n) }
    | .writing merged => some { s with file := some (merged.take n) }
    | _ => none
  | .writeDone =>
    match s.phase with
    | .backing original merged => some { s with backup := some original, phase := .writing merged }
    | .writing merged => some { s with file := some merged, phase := .idle }
    | _ => none
  | .writeFails =>
    match s.phase with
    | .backing _ _ | .writing _ => some { s with phase := .idle }
    | _ => none
  | .restore =>
    if s.phase = .idle ∧ s.backup.isSome then some { s with file := none, phase := .removed }
    else none
  | .rename =>
    match s.phase, s.backup with
    | .removed, some backup => some ⟨some backup, none, .idle, none⟩
    | _, _ => none
  | .renameFails => if s.phase = .removed then some { s with phase := .idle } else none

/-- The calls on a file, with any contents to start with. -/
def calls (file backup : Option (List UInt8)) : Machine Files Event where
  init := ⟨file, backup, .idle, none⟩
  step := Files.step

/-! ## The source is not lost -/

/-- The text that was merged is in the file or in the backup. -/
def Files.Intact (s : Files) : Prop :=
  ∀ text, s.source = some text → s.file = some text ∨ s.backup = some text

/-- The next step keeps the text. -/
def Kept (s : Files) (e : Event) : Prop := ∀ s', s.step e = some s' → s'.Intact

/-- No `restore` removes the file while the backup is something else than the text that was merged:
the write of that backup has failed. -/
def BackupWritten (s : Files) (e : Event) : Prop :=
  e = .restore → s.phase = .idle → s.file.isSome → ∀ backup text, s.backup = some backup →
    s.source = some text → backup = text

/-- What the phases say about the files. -/
structure Files.Inv (s : Files) : Prop where
  intact : s.Intact
  backing : ∀ original merged, s.phase = .backing original merged →
    s.file = some original ∧ s.source = some original
  writing : ∀ merged, s.phase = .writing merged → ∀ text, s.source = some text →
    s.backup = some text

variable {s s' : Files} {e : Event} {file backup : Option (List UInt8)}

/-- Where no call is under way, there is nothing more to say. -/
theorem Files.Inv.of_idle (h : s.Intact) (hphase : s.phase = .idle) : s.Inv := by
  refine ⟨h, ?_, ?_⟩
  · intro original merged hbacking
    rw [hphase] at hbacking
    cases hbacking
  · intro merged hwriting
    rw [hphase] at hwriting
    cases hwriting

/-- What a call to `merge_into` comes to. -/
theorem step_merge {original expansion : List Char} {force : Bool} {rounds : Nat}
    (h : s.step (.merge original expansion force rounds) = some s') :
    s.phase = .idle ∧ (s' = s ∨ ∃ merged, s.file = some (encode original) ∧
      s' = { s with phase := .backing (encode original) (encode merged),
                    source := some (encode original) }) := by
  simp only [Files.step] at h
  split at h
  · rename_i hidle
    obtain ⟨result, -, rfl⟩ := Option.map_eq_some_iff.mp h
    refine ⟨hidle.1, ?_⟩
    split
    · exact .inl rfl
    · rename_i merged
      split
      · exact .inl rfl
      · exact .inr ⟨merged, hidle.2, rfl⟩
  · cases h

theorem Files.Inv.step (hs : s.Inv) (hC : BackupWritten s e) (h : s.step e = some s') : s'.Inv := by
  cases e with
  | merge original expansion force rounds =>
    rcases (step_merge h).2 with rfl | ⟨merged, hfile, rfl⟩
    · exact hs
    · refine ⟨?_, ?_, ?_⟩
      · intro text htext
        cases htext
        exact .inl hfile
      · intro original' merged' hphase
        cases hphase
        exact ⟨hfile, rfl⟩
      · intro merged' hphase
        cases hphase
  | fails =>
    simp only [Files.step] at h
    split at h
    · cases h
      exact hs
    · cases h
  | write n =>
    simp only [Files.step] at h
    split at h
    · rename_i original merged hphase
      cases h
      obtain ⟨hfile, hsource⟩ := hs.backing _ _ hphase
      refine ⟨?_, hs.backing, ?_⟩
      · intro text htext
        cases hsource.symm.trans htext
        exact .inl hfile
      · intro merged' hwriting
        rw [show s.phase = _ from hwriting] at hphase
        cases hphase
    · rename_i merged hphase
      cases h
      refine ⟨fun text htext => .inr (hs.writing _ hphase text htext), ?_, hs.writing⟩
      · intro original merged' hbacking
        rw [show s.phase = _ from hbacking] at hphase
        cases hphase
    · cases h
  | writeDone =>
    simp only [Files.step] at h
    split at h
    · rename_i original merged hphase
      cases h
      obtain ⟨-, hsource⟩ := hs.backing _ _ hphase
      have hbackup : ∀ text, s.source = some text → some original = some text :=
        fun text htext => hsource.symm.trans htext
      refine ⟨fun text htext => .inr (hbackup text htext), ?_, fun _ _ => hbackup⟩
      · intro original' merged' hbacking
        cases hbacking
    · rename_i merged hphase
      cases h
      exact .of_idle (fun text htext => .inr (hs.writing _ hphase text htext)) rfl
    · cases h
  | writeFails =>
    simp only [Files.step] at h
    split at h
    · cases h
      exact .of_idle hs.intact rfl
    · cases h
      exact .of_idle hs.intact rfl
    · cases h
  | restore =>
    simp only [Files.step] at h
    split at h
    · rename_i hidle
      cases h
      obtain ⟨backup, hbackup⟩ := Option.isSome_iff_exists.mp hidle.2
      refine ⟨fun text htext => .inr ?_, ?_, ?_⟩
      · rcases hs.intact text htext with hfile | hsame
        · have := hC rfl hidle.1 (by rw [hfile]; rfl) backup text hbackup htext
          rw [← this]
          exact hbackup
        · exact hsame
      · intro original merged hbacking
        cases hbacking
      · intro merged hwriting
        cases hwriting
    · cases h
  | rename =>
    simp only [Files.step] at h
    split at h
    · cases h
      exact .of_idle (fun text htext => by cases htext) rfl
    · cases h
  | renameFails =>
    simp only [Files.step] at h
    split at h
    · cases h
      exact .of_idle hs.intact rfl
    · cases h

theorem inv_init : (calls file backup).init.Inv := .of_idle (fun _ h => by cases h) rfl

/-- A `restore` with another backup loses the text at once. -/
theorem backupWritten_of_kept (h : Kept s e) : BackupWritten s e := by
  rintro rfl hidle - backup text hbackup htext
  have hstep : s.step .restore = some { s with file := none, phase := .removed } :=
    if_pos ⟨hidle, by rw [hbackup]; rfl⟩
  rcases h _ hstep text htext with hfile | hsame
  · cases hfile
  · exact Option.some.inj (hbackup.symm.trans hsame)

/-- **A run keeps the text exactly when no `restore` follows a backup that was not written.** -/
theorem along_kept_iff (es : List Event) :
    (calls file backup).Along Kept (calls file backup).init es ↔
      (calls file backup).Along BackupWritten (calls file backup).init es := by
  constructor
  · exact Machine.Along.of_invariant (P := fun _ => True) (fun _ _ _ _ _ _ => trivial)
      (fun _ _ _ => backupWritten_of_kept) trivial
  · exact Machine.Along.of_invariant (P := Files.Inv) (fun _ _ _ hs hC h => hs.step hC h)
      (fun _ _ hs hC s' h => (hs.step hC h).intact) inv_init

/-! ## Whole calls -/

/-- The steps of a `merge_into` that succeeds, with its writes at any moments. -/
def mergeSteps (original expansion : List Char) (force : Bool) (rounds : Nat)
    (backupWrites fileWrites : List Nat) : List Event :=
  .merge original expansion force rounds :: (backupWrites.map .write ++
    .writeDone :: (fileWrites.map .write ++ [.writeDone]))

/-- `merge_into` is refused: there is no app or there are several, or there is a backup. -/
def Refused (s : Files) (original : List Char) (force : Bool) (rounds : Nat) : Prop :=
  (∃ found, Loop.exec (Search.round (encode original)) rounds ⟨0, []⟩ = some (.ok found) ∧
    found.items.length ≠ 1) ∨ s.backup.isSome ∧ force = false

theorem step_refused {original expansion : List Char} {force : Bool} {rounds : Nat}
    (hrefused : Refused s original force rounds)
    (h : s.step (.merge original expansion force rounds) = some s') : s' = s := by
  simp only [Files.step] at h
  split at h
  · obtain ⟨result, hresult, rfl⟩ := Option.map_eq_some_iff.mp h
    split
    · rfl
    · rcases hrefused with ⟨found, hfound, hlength⟩ | hbackup
      · obtain ⟨found', hfound', hresult⟩ := Option.map_eq_some_iff.mp hresult
        cases hfound.symm.trans hfound'
        change (match found.items with
          | [] => _
          | [item] => _
          | items => _) = Except.ok _ at hresult
        split at hresult
        · cases hresult
        · rename_i hitems
          rw [hitems] at hlength
          exact absurd rfl hlength
        · cases hresult
      · exact if_pos hbackup
  · cases h

/-- The writes of the backup leave the file alone. -/
theorem exec_backing {original merged : List UInt8} {ns : List Nat}
    (hphase : s.phase = .backing original merged)
    (h : (calls file backup).exec s (ns.map .write) = some s') :
    s'.phase = .backing original merged ∧ s'.file = s.file := by
  induction ns generalizing s with
  | nil =>
    cases h
    exact ⟨hphase, rfl⟩
  | cons n ns ih =>
    obtain ⟨m, hm, h⟩ := (Machine.exec_cons_eq_some _).mp h
    change s.step (.write n) = some m at hm
    simp only [Files.step, hphase] at hm
    cases hm
    have hrest := ih rfl h
    exact hrest

/-- The writes of the file leave the backup alone. -/
theorem exec_writing {merged : List UInt8} {ns : List Nat} (hphase : s.phase = .writing merged)
    (h : (calls file backup).exec s (ns.map .write) = some s') :
    s'.phase = .writing merged ∧ s'.backup = s.backup := by
  induction ns generalizing s with
  | nil =>
    cases h
    exact ⟨hphase, rfl⟩
  | cons n ns ih =>
    obtain ⟨m, hm, h⟩ := (Machine.exec_cons_eq_some _).mp h
    change s.step (.write n) = some m at hm
    simp only [Files.step, hphase] at hm
    cases hm
    have hrest := ih rfl h
    exact hrest

theorem exec_append_eq_some {es es' : List Event} :
    (calls file backup).exec s (es ++ es') = some s' ↔
      ∃ m, (calls file backup).exec s es = some m ∧ (calls file backup).exec m es' = some s' := by
  rw [Machine.exec_append, Option.bind_eq_some_iff]

/-- Where no call is under way, nothing is written. -/
theorem exec_idle {ns : List Nat} {es : List Event} (hphase : s.phase = .idle) :
    (calls file backup).exec s (ns.map .write ++ .writeDone :: es) = none := by
  have hstep : ∀ e, e = .writeDone ∨ (∃ n, e = .write n) → s.step e = none := by
    rintro e (rfl | ⟨n, rfl⟩) <;> simp only [Files.step, hphase]
  cases ns with
  | nil =>
    show (s.step .writeDone).bind _ = none
    rw [hstep _ (.inl rfl)]
    rfl
  | cons n ns =>
    show (s.step (.write n)).bind _ = none
    rw [hstep _ (.inr ⟨n, rfl⟩)]
    rfl

/-- A merge that succeeds leaves the text of the file in the backup. -/
theorem exec_mergeSteps {original expansion : List Char} {force : Bool} {rounds : Nat}
    {ns ms : List Nat}
    (h : (calls file backup).exec s (mergeSteps original expansion force rounds ns ms) = some s') :
    s'.backup = s.file := by
  obtain ⟨s₁, h₁, hrest⟩ := (Machine.exec_cons_eq_some _).mp h
  obtain ⟨hidle, hmerge⟩ := step_merge h₁
  rcases hmerge with heq | ⟨merged, hfile, heq⟩
  · rw [heq, exec_idle hidle] at hrest
    cases hrest
  · subst heq
    obtain ⟨s₂, h₂, hrest⟩ := exec_append_eq_some.mp hrest
    obtain ⟨hphase₂, -⟩ := exec_backing rfl h₂
    obtain ⟨s₃, h₃, hrest⟩ := (Machine.exec_cons_eq_some _).mp hrest
    change s₂.step .writeDone = some s₃ at h₃
    simp only [Files.step, hphase₂] at h₃
    cases h₃
    obtain ⟨s₄, h₄, hrest⟩ := exec_append_eq_some.mp hrest
    obtain ⟨hphase₄, hbackup₄⟩ := exec_writing rfl h₄
    obtain ⟨s₅, h₅, hrest⟩ := (Machine.exec_cons_eq_some _).mp hrest
    change s₄.step .writeDone = some s₅ at h₅
    simp only [Files.step, hphase₄] at h₅
    cases h₅
    cases hrest
    exact hbackup₄.trans hfile.symm

/-- A restore that succeeds gives the file the text of the backup. -/
theorem exec_restore (h : (calls file backup).exec s [.restore, .rename] = some s') :
    s'.file = s.backup ∧ s'.backup = none := by
  obtain ⟨s₁, h₁, h⟩ := (Machine.exec_cons_eq_some _).mp h
  obtain ⟨s₂, h₂, h⟩ := (Machine.exec_cons_eq_some _).mp h
  cases h
  change s.step .restore = some s₁ at h₁
  change s₁.step .rename = some s' at h₂
  simp only [Files.step] at h₁
  split at h₁
  · cases h₁
    simp only [Files.step] at h₂
    split at h₂
    · rename_i hbackup
      cases h₂
      exact ⟨hbackup.symm, rfl⟩
    · cases h₂
  · cases h₁

/-- **Merging and restoring.** A run keeps the text that was merged exactly when no `restore` removes
the file while the backup is another text. A merge and a restore that succeed give the file back. A
merge that is refused changes nothing. -/
theorem merge_restore (file backup : Option (List UInt8)) (es : List Event) :
    ((calls file backup).Along Kept (calls file backup).init es ↔
      (calls file backup).Along BackupWritten (calls file backup).init es) ∧
    (∀ s s' original expansion force rounds ns ms, (calls file backup).exec s
      (mergeSteps original expansion force rounds ns ms ++ [.restore, .rename]) = some s' →
      s'.file = s.file ∧ s'.backup = none) ∧
    ∀ s s' : Files, ∀ original expansion force rounds, Refused s original force rounds →
      s.step (.merge original expansion force rounds) = some s' → s' = s := by
  refine ⟨along_kept_iff es, ?_, fun s s' _ _ _ _ => step_refused⟩
  intro s s' original expansion force rounds ns ms h
  obtain ⟨m, hmerge, hrestore⟩ := exec_append_eq_some.mp h
  obtain ⟨hfile, hbackup⟩ := exec_restore hrestore
  exact ⟨hfile.trans (exec_mergeSteps hmerge), hbackup⟩

/-- `#[x::app()] mod a {}` -/
def appText : List Char := "#[x::app()] mod a {}".toList

/-- The write of the backup fails after three bytes, and the backup is restored. -/
def failedBackup : List Event :=
  [.merge appText "mod a {}".toList false 5, .write 3, .writeFails, .restore]

/-- The file is gone, and the backup is three bytes long. -/
theorem source_lost : (∃ s, (calls (some (encode appText)) none).exec
      (calls (some (encode appText)) none).init failedBackup = some s ∧ s.file = none ∧
        s.backup = some ((encode appText).take 3)) ∧
    ¬ (calls (some (encode appText)) none).Along Kept (calls (some (encode appText)) none).init
      failedBackup := by
  have hexec : (calls (some (encode appText)) none).exec (calls (some (encode appText)) none).init
      failedBackup = some ⟨none, some ((encode appText).take 3), .removed, some (encode appText)⟩ := by
    decide +kernel
  refine ⟨⟨_, hexec, rfl, rfl⟩, fun h => ?_⟩
  have hintact := h.invariant (P := Files.Intact) (fun _ _ t _ hkept hstep => hkept t hstep)
    (fun _ htext => by cases htext) hexec
  exact absurd (hintact _ rfl) (by decide +kernel)

end Rticx.Expand
