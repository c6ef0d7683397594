import Rticx.Expand.Merge
import Rticx.Lib.FileTree
import Rticx.Lib.Str

/-!
# Restoring in a crate

`restore` of `flow.rs`, which looks for the backup of the merged file in the directories of the
crate unless it is told the file.
-/

namespace Rticx.Expand.Restore

open Rticx.Lib Rticx.Lib.Except Rticx.Lib.Str Rticx.Lib.Utf8

abbrev Name := List Char

/-- A path below the directory of the crate. -/
abbrev Path := List Name

/-- The directory of the crate. -/
abbrev Crate := FileTree Name (List UInt8)

def targetName : Name := "target".toList

def rsSuffix : Name := ".rs".toList

def oldSuffix : Name := ".old".toList

def backupSuffix : Name := ".rs.old".toList

/-- Directories that are not searched. -/
def isSkipped (name : Name) : Bool := name == targetName || name.head? == some '.'

/-- `format!("{}.old", file.display())` -/
def backupOf (file : Path) : Path := file.dropLast ++ [file.getLast?.getD [] ++ oldSuffix]

/-! ## Merging -/

inductive MergeError where
  | read (file : Path)
  | splice (message : String)
  | backupExists (backup : Path)
  | writeBackup (backup : Path)
  | write (file : Path)
  deriving DecidableEq

/-- `merge_into` with the text of the file, when the search for the app gets this number of
rounds. -/
def mergeInto (t : Crate) (file : Path) (original expansion : List Char) (force : Bool)
    (rounds : Nat) : Option (Except MergeError Crate) :=
  (spliceExpansion original expansion rounds).map fun spliced =>
    if t.fileAt file ≠ some (encode original) then .error (.read file)
    else
      match spliced with
      | .error message => .error (.splice message)
      | .ok merged =>
        if t.hasEntry (backupOf file) && !force then .error (.backupExists (backupOf file))
        else
          match t.write (backupOf file) (encode original) with
          | none => .error (.writeBackup (backupOf file))
          | some t => (t.write file (encode merged)).elim (.error (.write file)) .ok

/-! ## Restoring -/

inductive RestoreError where
  | noBackupAt (backup : Path)
  | noBackups
  | several (files : List Path)
  | remove (file : Path)
  | rename (file backup : Path)
  deriving DecidableEq

/-- `collect_backups` below this directory: the files with their backups. -/
def collectBackups (base : Path) : Crate → List (Path × Path)
  | .nil => []
  | .file name _ rest =>
    if backupSuffix.isSuffixOf name then
      (base ++ [trimEndMatches oldSuffix name], base ++ [name]) :: collectBackups base rest
    else collectBackups base rest
  | .dir name entries rest =>
    if isSkipped name then collectBackups base rest
    else collectBackups (base ++ [name]) entries ++ collectBackups base rest

/-- `remove_file`, if the file exists -/
def removeFile (t : Crate) (file : Path) : Except RestoreError Crate :=
  if t.hasEntry file then
    if (t.fileAt file).isSome then .ok (t.remove file) else .error (.remove file)
  else .ok t

/-- `rename` of the backup, which stands beside the file: also a directory, which can only be one
that `--file` names -/
def rename (t : Crate) (file backup : Path) : Except RestoreError Crate :=
  match t.fileAt backup with
  | none =>
    if t.isDir backup then .ok (t.renameDir backup (file.getLast?.getD []))
    else .error (.rename file backup)
  | some contents =>
    ((t.remove backup).write file contents).elim (.error (.rename file backup)) .ok

def restoreFile (t : Crate) (file backup : Path) : Except RestoreError Crate := do
  rename (← removeFile t file) file backup

/-- `restore`, with `--file` or without -/
def restore (t : Crate) : Option Path → Except RestoreError Crate
  | some file =>
    if t.hasEntry (backupOf file) then restoreFile t file (backupOf file)
    else .error (.noBackupAt (backupOf file))
  | none =>
    match collectBackups [] t with
    | [] => .error .noBackups
    | [(file, backup)] => restoreFile t file backup
    | found => .error (.several (found.map Prod.fst))

/-! ## What is collected -/

def Visible (path : Path) : Prop := ∀ n ∈ path.dropLast, isSkipped n = false

/-- A file that `restore` can find: a source file in directories that are searched. -/
def Searched (file : Path) : Prop := Visible file ∧ rsSuffix <:+ file.getLast?.getD []

/-- The file of a backup. -/
def originalOf (backup : Path) : Path :=
  backup.dropLast ++ [trimEndMatches oldSuffix (backup.getLast?.getD [])]

def isBackup (path : Path) : Bool := backupSuffix.isSuffixOf (path.getLast?.getD [])

variable {t t' : Crate} {base file path backup : Path} {name : Name}

theorem collectBackups_eq :
    collectBackups base t = ((t.walk isSkipped).filter isBackup).map
      fun path => (base ++ originalOf path, base ++ path) := by
  induction t generalizing base with
  | nil => rfl
  | file name contents rest ih =>
    rw [collectBackups, FileTree.walk, List.filter_cons, ih]
    by_cases hname : backupSuffix.isSuffixOf name
    · simp [isBackup, originalOf, hname]
    · simp [isBackup, hname]
  | dir name entries rest ihe ihr =>
    rw [collectBackups, FileTree.walk, List.filter_append, List.map_append, ← ihr]
    split
    · rfl
    · congr 1
      have hbackup : ∀ path ∈ entries.walk isSkipped, isBackup (name :: path) = isBackup path := by
        intro path hpath
        obtain ⟨n, path, rfl⟩ := List.exists_cons_of_ne_nil (FileTree.ne_nil_of_mem_walk hpath)
        rw [isBackup, isBackup, List.getLast?_cons_cons]
      rw [ihe, List.filter_map, List.map_map]
      have hfilter : (entries.walk isSkipped).filter (isBackup ∘ (name :: ·)) =
          (entries.walk isSkipped).filter isBackup := List.filter_congr hbackup
      rw [hfilter]
      refine List.map_congr_left fun path hpath => ?_
      obtain ⟨n, path, rfl⟩ := List.exists_cons_of_ne_nil
        (FileTree.ne_nil_of_mem_walk (List.mem_filter.mp hpath).1)
      simp [originalOf, List.getLast?_cons_cons]

theorem mem_collectBackups (ht : t.Distinct) :
    (file, backup) ∈ collectBackups [] t ↔ (t.fileAt backup).isSome ∧ Visible backup ∧
      isBackup backup ∧ file = originalOf backup := by
  rw [collectBackups_eq, List.mem_map]
  simp only [List.nil_append, Prod.mk.injEq, List.mem_filter, FileTree.mem_walk ht]
  constructor
  · rintro ⟨path, ⟨⟨hfile, hvisible⟩, hbackup⟩, rfl, rfl⟩
    exact ⟨hfile, hvisible, hbackup, rfl⟩
  · rintro ⟨hfile, hvisible, hbackup, rfl⟩
    exact ⟨backup, ⟨⟨hfile, hvisible⟩, hbackup⟩, rfl, rfl⟩

theorem nodup_collectBackups (ht : t.Distinct) : (collectBackups [] t).Nodup := by
  rw [collectBackups_eq]
  refine ((FileTree.nodup_walk ht).filter _).map fun path path' heq => ?_
  exact (Prod.mk.inj heq).2

/-! ## The backup of a file -/

variable (dirs : Path)

theorem backupOf_append : backupOf (dirs ++ [name]) = dirs ++ [name ++ oldSuffix] := by
  rw [backupOf, List.dropLast_concat, List.getLast?_concat, Option.getD_some]

theorem backupOf_ne : backupOf (dirs ++ [name]) ≠ dirs ++ [name] := by
  rw [backupOf_append]
  intro heq
  have hname := List.cons.inj (List.append_cancel_left heq)
  have hlen := congrArg List.length hname.1
  simp [oldSuffix] at hlen

theorem isBackup_backupOf : isBackup (backupOf (dirs ++ [name])) = true ↔ rsSuffix <:+ name := by
  have hsuffix : backupSuffix = rsSuffix ++ oldSuffix := rfl
  rw [backupOf_append, isBackup, List.getLast?_concat, Option.getD_some, List.isSuffixOf_iff_suffix,
    hsuffix]
  exact List.suffix_append_self_iff

theorem originalOf_backupOf (h : rsSuffix <:+ name) :
    originalOf (backupOf (dirs ++ [name])) = dirs ++ [name] := by
  have hold : ¬ oldSuffix <:+ name := by
    intro hold
    obtain ⟨stem, rfl⟩ := h
    obtain ⟨stem', heq⟩ := hold
    have hlast := congrArg List.getLast? heq
    simp [oldSuffix, rsSuffix] at hlast
  rw [backupOf_append, originalOf, List.dropLast_concat, List.getLast?_concat, Option.getD_some,
    trimEndMatches_append (by decide) hold]

theorem exists_of_isBackup (h : isBackup backup = true) :
    ∃ dirs name, rsSuffix <:+ name ∧ backup = backupOf (dirs ++ [name]) := by
  have hne : backup ≠ [] := by
    rintro rfl
    cases h
  rw [isBackup, List.getLast?_eq_some_getLast hne, Option.getD_some,
    List.isSuffixOf_iff_suffix] at h
  obtain ⟨stem, hstem⟩ := h
  refine ⟨backup.dropLast, stem ++ rsSuffix, List.suffix_append _ _, ?_⟩
  rw [backupOf_append, List.append_assoc]
  exact (List.dropLast_append_getLast hne).symm.trans (by rw [← hstem]; rfl)

theorem ne_of_collected (ht : t.Distinct) (h : (file, backup) ∈ collectBackups [] t) :
    backup ≠ file := by
  obtain ⟨_, _, hbackup, rfl⟩ := (mem_collectBackups ht).mp h
  obtain ⟨dirs, name, hname, rfl⟩ := exists_of_isBackup hbackup
  rw [originalOf_backupOf dirs hname]
  exact backupOf_ne dirs

theorem searched_append : Searched (dirs ++ [name]) ↔
    (∀ n ∈ dirs, isSkipped n = false) ∧ rsSuffix <:+ name := by
  rw [Searched, Visible, List.dropLast_concat, List.getLast?_concat, Option.getD_some]

/-- The backup of a file is collected, as the backup of this file, if the file is searched. -/
theorem backup_collected_iff (ht : t.Distinct)
    (hbackup : (t.fileAt (backupOf (dirs ++ [name]))).isSome) :
    (file, backupOf (dirs ++ [name])) ∈ collectBackups [] t ↔
      Searched (dirs ++ [name]) ∧ file = dirs ++ [name] := by
  rw [mem_collectBackups ht, isBackup_backupOf, searched_append, Visible, backupOf_append,
    List.dropLast_concat, ← backupOf_append]
  constructor
  · rintro ⟨_, hvisible, hname, rfl⟩
    exact ⟨⟨hvisible, hname⟩, originalOf_backupOf dirs hname⟩
  · rintro ⟨⟨hvisible, hname⟩, rfl⟩
    exact ⟨hbackup, hvisible, hname, (originalOf_backupOf dirs hname).symm⟩

/-! ## A merge, and back -/

/-- The same files are there. -/
def SameFiles (t t' : Crate) : Prop := ∀ path, t.fileAt path = t'.fileAt path

/-- The files of a crate with a merged file. -/
structure Merged (t t' : Crate) (file : Path) (original : List UInt8) : Prop where
  before : t.fileAt file = some original
  fresh : t.hasEntry (backupOf file) = false
  distinct : t'.Distinct
  merged : ∃ text, ∀ path, t'.fileAt path =
    if path = file then some text else if path = backupOf file then some original
      else t.fileAt path
  dirs : ∀ path, t.isDir path = true → t'.isDir path = true

theorem merged_of_mergeInto (ht : t.Distinct) {original expansion : List Char} {rounds : Nat}
    (h : mergeInto t file original expansion false rounds = some (.ok t')) :
    Merged t t' file (encode original) := by
  obtain ⟨spliced, _, h⟩ := Option.map_eq_some_iff.mp h
  split at h
  · cases h
  rename_i hbefore
  cases spliced with
  | error message => cases h
  | ok text =>
    dsimp only at h
    split at h
    · cases h
    rename_i hfresh
    split at h
    · cases h
    rename_i mid hmid
    cases hwrite : mid.write file (encode text) with
    | none => simp [hwrite] at h
    | some t'' =>
      rw [hwrite] at h
      obtain rfl := Except.ok.inj h
      refine ⟨not_not.mp hbefore, by simpa using hfresh, (ht.write hmid).write hwrite,
        ⟨encode text, fun path => ?_⟩, fun path hdir => ?_⟩
      · rw [FileTree.fileAt_write hwrite, FileTree.fileAt_write hmid]
      · exact FileTree.isDir_write hwrite (FileTree.isDir_write hmid hdir)

/-- What a restore from a file does to the files. -/
theorem fileAt_restoreFile {t'' : Crate} (ht : t.Distinct) (hne : backup ≠ file)
    (hsome : (t.fileAt backup).isSome) (h : restoreFile t file backup = .ok t'') :
    t''.fileAt path = if path = file then t.fileAt backup else if path = backup then none
      else t.fileAt path := by
  obtain ⟨mid, hmid, h⟩ := bind_eq_ok.mp h
  have hremoved : mid.Distinct ∧ ∀ path, mid.fileAt path =
      if path = file then none else t.fileAt path := by
    unfold removeFile at hmid
    split at hmid
    · split at hmid
      · cases hmid
        exact ⟨ht.remove, fun path => FileTree.fileAt_remove ht⟩
      · cases hmid
    · rename_i hentry
      cases hmid
      refine ⟨ht, fun path => ?_⟩
      split
      · rename_i heq
        subst heq
        simp only [FileTree.hasEntry, Bool.or_eq_true, not_or] at hentry
        simpa using hentry.1
      · rfl
  obtain ⟨hdistinct, hfiles⟩ := hremoved
  unfold rename at h
  split at h
  · rename_i hcontents
    rw [hfiles, if_neg hne] at hcontents
    simp [hcontents] at hsome
  rename_i contents hcontents
  cases hwrite : (mid.remove backup).write file contents with
  | none => simp [hwrite] at h
  | some t₁ =>
    rw [hwrite] at h
    obtain rfl := Except.ok.inj h
    rw [hfiles, if_neg hne] at hcontents
    rw [FileTree.fileAt_write hwrite, FileTree.fileAt_remove hdistinct, hfiles, hcontents]
    split
    · rfl
    · rfl

section

variable {original : List UInt8}

theorem Merged.exists_append (h : Merged t t' file original) : ∃ dirs name, file = dirs ++ [name] := by
  have hne : file ≠ [] := by
    rintro rfl
    have hbefore := h.before
    simp at hbefore
  exact ⟨file.dropLast, file.getLast hne, (List.dropLast_append_getLast hne).symm⟩

theorem Merged.backup_none (h : Merged t t' file original) : t.fileAt (backupOf file) = none := by
  have hfresh := h.fresh
  simp only [FileTree.hasEntry, Bool.or_eq_false_iff] at hfresh
  simpa using hfresh.1

theorem Merged.backup_some (h : Merged t t' file original) :
    t'.fileAt (backupOf file) = some original := by
  obtain ⟨dirs, name, rfl⟩ := h.exists_append
  obtain ⟨text, hfiles⟩ := h.merged
  rw [hfiles, if_neg (backupOf_ne dirs), if_pos rfl]

/-- A file of the crate that is no backup of the merged file is there before and after. -/
theorem Merged.isSome_iff (h : Merged t t' file original) (hne : path ≠ backupOf file) :
    (t'.fileAt path).isSome ↔ (t.fileAt path).isSome := by
  obtain ⟨text, hfiles⟩ := h.merged
  rw [hfiles, if_neg hne]
  split
  · rename_i heq
    rw [heq, h.before]
    simp
  · rfl

/-- Other backups are collected before and after. -/
theorem Merged.collected_iff (h : Merged t t' file original) (ht : t.Distinct)
    (hne : backup ≠ backupOf file) :
    (path, backup) ∈ collectBackups [] t' ↔ (path, backup) ∈ collectBackups [] t := by
  rw [mem_collectBackups h.distinct, mem_collectBackups ht, h.isSome_iff hne]

/-- A restore of the merged file gives its text back. -/
theorem Merged.restoreFile (h : Merged t t' (dirs ++ [name]) original) (ht : t.Distinct) :
    ∃ t'', Restore.restoreFile t' (dirs ++ [name]) (backupOf (dirs ++ [name])) = .ok t'' ∧
      SameFiles t'' t := by
  obtain ⟨text, hfiles⟩ := h.merged
  have hfile : t'.fileAt (dirs ++ [name]) = some text := by rw [hfiles, if_pos rfl]
  have hbackup : t'.fileAt (backupOf (dirs ++ [name])) = some original := by
    rw [hfiles, if_neg (backupOf_ne dirs), if_pos rfl]
  have hremove : removeFile t' (dirs ++ [name]) = .ok (t'.remove (dirs ++ [name])) := by
    simp [removeFile, FileTree.hasEntry, hfile]
  have hparent : t.isDir dirs = true :=
    FileTree.isDir_of_fileAt_append ht (by rw [h.before]; rfl)
  have hdir : t'.isDir (dirs ++ [name]) = false :=
    FileTree.isDir_of_fileAt h.distinct (by rw [hfile]; rfl)
  have hdistinct : (t'.remove (dirs ++ [name])).Distinct := h.distinct.remove
  obtain ⟨t'', hwrite⟩ : ∃ t'', ((t'.remove (dirs ++ [name])).remove
      (backupOf (dirs ++ [name]))).write (dirs ++ [name]) original = some t'' := by
    refine FileTree.exists_write ?_ ?_
    · rw [FileTree.isDir_remove hdistinct, FileTree.isDir_remove h.distinct]
      exact h.dirs _ hparent
    · rw [FileTree.isDir_remove hdistinct, FileTree.isDir_remove h.distinct]
      exact hdir
  have hrestore : Restore.restoreFile t' (dirs ++ [name]) (backupOf (dirs ++ [name])) = .ok t'' := by
    refine bind_eq_ok.mpr ⟨_, hremove, ?_⟩
    rw [rename, FileTree.fileAt_remove h.distinct, if_neg (backupOf_ne dirs), hbackup]
    dsimp only
    rw [hwrite]
    rfl
  refine ⟨t'', hrestore, fun path => ?_⟩
  rw [fileAt_restoreFile h.distinct (backupOf_ne dirs) (by rw [hbackup]; rfl) hrestore, hbackup,
    hfiles]
  split
  · rename_i heq
    rw [heq, h.before]
  · split
    · rename_i heq
      rw [heq, h.backup_none]
    · rfl

/-- Without other backups, that of the merged file is collected, if it is searched. -/
theorem Merged.collectBackups_eq (h : Merged t t' (dirs ++ [name]) original) (ht : t.Distinct)
    (hsearched : Searched (dirs ++ [name])) (hnone : collectBackups [] t = []) :
    collectBackups [] t' = [(dirs ++ [name], backupOf (dirs ++ [name]))] := by
  have hbackup := h.backup_some
  refine List.perm_singleton.mp ((List.perm_ext_iff_of_nodup (nodup_collectBackups h.distinct)
    (List.nodup_singleton _)).mpr fun found => ?_)
  obtain ⟨file, backup⟩ := found
  rw [List.mem_singleton, Prod.mk.injEq]
  by_cases heq : backup = backupOf (dirs ++ [name])
  · subst heq
    rw [backup_collected_iff dirs h.distinct (by rw [hbackup]; rfl)]
    simp [hsearched]
  · rw [h.collected_iff ht heq, hnone]
    simp [heq]

/-- Without `--file`, the merged file is restored exactly if it is searched and nothing else is. -/
theorem Merged.restore_iff (h : Merged t t' file original) (ht : t.Distinct) :
    (∃ t'', restore t' none = .ok t'' ∧ SameFiles t'' t) ↔
      Searched file ∧ collectBackups [] t = [] := by
  obtain ⟨dirs, name, rfl⟩ := h.exists_append
  constructor
  · rintro ⟨t'', hrestore, hsame⟩
    rw [restore] at hrestore
    split at hrestore
    · cases hrestore
    · rename_i found backup hfound
      have hmem : (found, backup) ∈ collectBackups [] t' := by rw [hfound]; exact List.mem_cons_self
      have hsome : (t'.fileAt backup).isSome := ((mem_collectBackups h.distinct).mp hmem).1
      have hlast := hsame (backupOf (dirs ++ [name]))
      rw [fileAt_restoreFile h.distinct (ne_of_collected h.distinct hmem) hsome hrestore,
        h.backup_none, h.backup_some] at hlast
      -- the backup of the merged file is gone, so it is the one that was renamed
      have heq : backup = backupOf (dirs ++ [name]) := by
        split at hlast
        · simp [hlast] at hsome
        · split at hlast
          · rename_i heq
            exact heq.symm
          · cases hlast
      subst heq
      refine ⟨((backup_collected_iff dirs h.distinct hsome).mp hmem).1, ?_⟩
      refine List.eq_nil_iff_forall_not_mem.mpr fun other hother => ?_
      obtain ⟨file, backup⟩ := other
      have hbackup : backup ≠ backupOf (dirs ++ [name]) := by
        rintro rfl
        have hfile := ((mem_collectBackups ht).mp hother).1
        rw [h.backup_none] at hfile
        cases hfile
      have hother' := (h.collected_iff ht hbackup).mpr hother
      rw [hfound, List.mem_singleton] at hother'
      exact hbackup (Prod.mk.inj hother').2
    · cases hrestore
  · rintro ⟨hsearched, hnone⟩
    obtain ⟨t'', hrestore, hsame⟩ := h.restoreFile dirs ht
    refine ⟨t'', ?_, hsame⟩
    rw [restore, h.collectBackups_eq dirs ht hsearched hnone]
    exact hrestore

end

/-- **After a merge, `restore` gives the crate back**: with `--file` always, and without exactly if
the merged file is searched and no other backup is. -/
theorem merge_restored_iff (ht : t.Distinct) {original expansion : List Char} {rounds : Nat}
    (hmerge : mergeInto t file original expansion false rounds = some (.ok t')) :
    (∃ t'', restore t' (some file) = .ok t'' ∧ SameFiles t'' t) ∧
      ((∃ t'', restore t' none = .ok t'' ∧ SameFiles t'' t) ↔
        Searched file ∧ collectBackups [] t = []) := by
  have h := merged_of_mergeInto ht hmerge
  refine ⟨?_, h.restore_iff ht⟩
  obtain ⟨dirs, name, rfl⟩ := h.exists_append
  obtain ⟨t'', hrestore, hsame⟩ := h.restoreFile dirs ht
  refine ⟨t'', ?_, hsame⟩
  rw [restore, if_pos, hrestore]
  simp [FileTree.hasEntry, h.backup_some]

/-- A crate with another backup, where the search does not come to it. -/
def blink : Crate :=
  .dir "target".toList (.file "old.rs.old".toList [] .nil)
    (.dir "src".toList (.file "main.rs".toList (encode "#[x::app()] mod a \x7b \x7d".toList) .nil)
      (.file "Cargo.toml".toList [] .nil))

def mainFile : Path := ["src".toList, "main.rs".toList]

def blinkMerged : Crate :=
  .dir "target".toList (.file "old.rs.old".toList [] .nil)
    (.dir "src".toList (.file "main.rs".toList (encode "mod a \x7b fn f() \x7b \x7d \x7d\n".toList)
        (.file "main.rs.old".toList (encode "#[x::app()] mod a \x7b \x7d".toList) .nil))
      (.file "Cargo.toml".toList [] .nil))

theorem blink_distinct : blink.Distinct := by
  simp [blink, FileTree.Distinct, FileTree.names]

theorem blink_restored :
    (∃ t'', restore blinkMerged (some mainFile) = .ok t'' ∧ SameFiles t'' blink) ∧
      ((∃ t'', restore blinkMerged none = .ok t'' ∧ SameFiles t'' blink) ↔
        Searched mainFile ∧ collectBackups [] blink = []) :=
  @merge_restored_iff blink blinkMerged mainFile blink_distinct "#[x::app()] mod a \x7b \x7d".toList
    "mod a \x7b fn f() \x7b \x7d \x7d".toList 2 (by decide +kernel)

example : restore blinkMerged none = .ok blink := by decide +kernel

end Rticx.Expand.Restore
