import Rticx.Core.Snapshots
import Rticx.Lib.Str

/-!
# The directory of the snapshots

`--expand-passes` of `flow.rs`: the snapshots of an earlier build are removed, the build writes its
own, and they are listed in the order of their names.
-/

namespace Rticx.Expand.Snapshots

open Rticx.Lib Rticx.Lib.Str Rticx.Core.Pipeline

/-! ## Names -/

/-- `is_snapshot_name` -/
def isSnapshotName (name : Text) : Bool :=
  match stripSuffix ".rs".toList name with
  | none => false
  | some rest =>
    match splitOnce '_' rest with
    | none => false
    | some (digits, label) =>
      decide (2 ≤ digits.length) && digits.all Char.isDigit && !label.isEmpty &&
        label.all fun c => c.isAlphanum || c == '_'

/-- `clean_pass_snapshots` -/
def cleanPassSnapshots (dir : Directory) : Directory := dir.filter fun name => !isSnapshotName name

/-- The files of `beautify_pass_snapshots`, which it sorts. -/
def passSnapshots (dir : Directory) : List Text := dir.keys.filter isSnapshotName

/-- The number in the name of a snapshot. -/
def stageOf (name : Text) : Nat := Nat.ofDigitChars 10 (name.takeWhile Char.isDigit) 0

variable {stage stage' : Nat} {label label' : Text}

theorem takeWhile_snapshotName :
    (snapshotName stage label).takeWhile Char.isDigit = Decimal.pad 2 stage := by
  rw [snapshotName, List.takeWhile_append_of_pos fun _ => Decimal.isDigit_of_mem_pad]
  simp

/-- The number is read back. -/
@[simp] theorem stageOf_snapshotName : stageOf (snapshotName stage label) = stage := by
  rw [stageOf, takeWhile_snapshotName, Decimal.ofDigitChars_pad]

theorem all_sanitize : (sanitize label).all (fun c => c.isAlphanum || c == '_') = true := by
  rw [sanitize, List.all_map, List.all_eq_true]
  intro c hc
  dsimp only [Function.comp_apply]
  split
  · assumption
  · rfl

/-- A snapshot is known by its name, unless its label is empty. -/
theorem isSnapshotName_snapshotName (h : label ≠ []) :
    isSnapshotName (snapshotName stage label) = true := by
  have hdigit : ∀ x ∈ Decimal.pad 2 stage, (x != '_') = true := by
    intro x hx
    have := Decimal.isDigit_of_mem_pad hx
    rw [bne_iff_ne]
    rintro rfl
    cases this
  have hsplit : snapshotName stage label =
      (Decimal.pad 2 stage ++ '_' :: sanitize label) ++ ".rs".toList := by
    rw [snapshotName, List.append_assoc, List.cons_append]
  have hdigits : (Decimal.pad 2 stage).all Char.isDigit = true :=
    List.all_eq_true.mpr fun _ => Decimal.isDigit_of_mem_pad
  have hlabel : (sanitize label).isEmpty = false := by
    simpa [sanitize] using h
  rw [isSnapshotName, hsplit, stripSuffix_append]
  dsimp only
  rw [splitOnce_append hdigit]
  dsimp only
  rw [hdigits, hlabel, all_sanitize, decide_eq_true Decimal.le_length_pad]
  rfl

/-- Of two stages below 100, the earlier one comes first. -/
theorem snapshotName_lt (h : stage < stage') (h' : stage' < 100) :
    snapshotName stage label < snapshotName stage' label' :=
  Decimal.pad_append_lt h h' _ _

/-- Behind stage 99 the order of the names is another one. -/
theorem snapshotName_hundred_lt : snapshotName 100 label < snapshotName 99 label' :=
  List.cons_lt_cons_iff.mpr (Or.inl (by decide))

/-! ## The build -/

variable {V Args Mod App Analysis Code : Type} {display : Display Args Mod Code}
variable {b : RticMacroBuilder V Args Mod App Analysis Code} {program : Program Args Mod}
variable {report : Report} {dir : Directory} {name contents : Text}

/-- The log of the build with `--expand-passes`. -/
def expandPasses (log : ExpandLog) (dir : Directory) : ExpandLog :=
  { log with passDir := some (cleanPassSnapshots dir) }

theorem label_ne_nil (hnames : ∀ pass ∈ b.preStdPasses, pass.passName ≠ [])
    (h : Reported display b program report) : report.label ≠ [] := by
  cases h with
  | original => exact List.cons_ne_nil _ _
  | output hk _ => exact hnames _ (List.mem_of_getElem? hk)
  | input hk _ _ => exact List.append_ne_nil_of_left_ne_nil (hnames _ (List.mem_of_getElem? hk)) _
  | postPasses _ _ => exact List.cons_ne_nil _ _
  | core _ => exact List.cons_ne_nil _ _

/-- The names of the snapshots of a run, by their stages. -/
def names (reports : List Report) : List Text := (reports.map Report.entry).map Prod.fst

theorem stages_names (reports : List Report) :
    (names reports).map stageOf = reports.map Report.stage := by
  rw [names, List.map_map, List.map_map]
  refine List.map_congr_left fun report _ => ?_
  simp [Report.entry]

theorem nodup_names : (names (reports display b program)).Nodup := by
  refine List.Nodup.of_map stageOf ?_
  rw [stages_names, stages_reports]
  exact List.nodup_range

theorem isSnapshotName_of_mem_names (hnames : ∀ pass ∈ b.preStdPasses, pass.passName ≠ [])
    (h : name ∈ names (reports display b program)) : isSnapshotName name = true := by
  rw [names, List.map_map, List.mem_map] at h
  obtain ⟨report, hreport, rfl⟩ := h
  exact isSnapshotName_snapshotName (label_ne_nil hnames (mem_reports.mp hreport))

/-- The files of the directory after the build. -/
theorem get?_writeAll (hnames : ∀ pass ∈ b.preStdPasses, pass.passName ≠ []) :
    ((cleanPassSnapshots dir).writeAll (reports display b program)).get? name = some contents ↔
      (name, contents) ∈ (reports display b program).map Report.entry ∨
        isSnapshotName name = false ∧ dir.get? name = some contents := by
  have hclean : ∀ contents, (cleanPassSnapshots dir).get? name = some contents ↔
      isSnapshotName name = false ∧ dir.get? name = some contents := fun contents => by
    rw [cleanPassSnapshots, SortedMap.get?_filter, Bool.not_eq_true']
  rw [Directory.writeAll, SortedMap.get?_foldl_update_iff nodup_names, hclean]
  intro k hk
  rw [Option.eq_none_iff_forall_not_mem]
  intro v hv
  have hsnapshot := isSnapshotName_of_mem_names hnames hk
  have := (SortedMap.get?_filter.mp hv).1
  simp [hsnapshot] at this

/-- Two passes, of which the second one fails. -/
def traced : RticMacroBuilder Unit Text Text Text Unit Text where
  core :=
    { parse := fun program => .ok program.appMod
      cores := fun _ => 1
      analyse := fun app => .ok (app, ())
      appEntry := fun _ => ()
      analysisEntry := fun _ => ()
      preCodegenValidation := fun _ _ _ => .ok ()
      codegen := fun _ app _ _ => some app }
  preStdPasses :=
    [{ passName := "SoftwareTasks".toList
       runPass := fun state => .ok (state.1, { state.2 with appMod := "mod app;".toList })
       mainInjection := fun _ _ _ => none },
     { passName := "AsyncPass".toList
       runPass := fun _ => .error (.error "no dispatcher".toList)
       mainInjection := fun _ _ _ => none }]
  infoBus := .new

theorem traced_named : ∀ pass ∈ traced.preStdPasses, pass.passName ≠ [] := by
  simp [traced]

/-- What an earlier build and somebody else have left. -/
def leftovers : Directory :=
  (SortedMap.empty.update "07_Old.rs".toList fun _ => []).update "notes.txt".toList fun _ => []

theorem mem_passSnapshots (hnames : ∀ pass ∈ b.preStdPasses, pass.passName ≠ []) :
    name ∈ passSnapshots ((cleanPassSnapshots dir).writeAll (reports display b program)) ↔
      name ∈ names (reports display b program) := by
  rw [passSnapshots, List.mem_filter, SortedMap.mem_keys]
  simp only [get?_writeAll hnames]
  constructor
  · rintro ⟨⟨contents, h | h⟩, hsnapshot⟩
    · exact List.mem_map_of_mem h
    · simp [hsnapshot] at h
  · intro h
    obtain ⟨⟨name', contents⟩, hentry, rfl⟩ := List.mem_map.mp h
    exact ⟨⟨contents, Or.inl hentry⟩, isSnapshotName_of_mem_names hnames h⟩

theorem passSnapshots_sorted : (passSnapshots dir).Pairwise (· < ·) := dir.sorted.filter _

theorem passSnapshots_perm (hnames : ∀ pass ∈ b.preStdPasses, pass.passName ≠ []) :
    (passSnapshots ((cleanPassSnapshots dir).writeAll (reports display b program))).Perm
      (names (reports display b program)) :=
  (List.perm_ext_iff_of_nodup (passSnapshots_sorted.imp ne_of_lt) nodup_names).mpr
    fun _ => mem_passSnapshots hnames

theorem length_names (reports : List Report) : (names reports).length = reports.length := by
  rw [names, List.length_map, List.length_map]

/-- Up to stage 99 the names are in the order of the stages. -/
theorem names_sorted {reports : List Report}
    (hstages : reports.map Report.stage = List.range reports.length)
    (hlen : reports.length ≤ 100) : (names reports).Pairwise (· < ·) := by
  have hlt : ∀ report ∈ reports, report.stage < 100 := by
    intro report hreport
    have hmem := List.mem_map_of_mem (f := Report.stage) hreport
    rw [hstages, List.mem_range] at hmem
    omega
  have hsorted : reports.Pairwise fun r r' => r.stage < r'.stage := by
    rw [← List.pairwise_map, hstages]
    exact List.pairwise_lt_range
  rw [names, List.map_map, List.pairwise_map]
  exact hsorted.imp_of_mem fun _ hr' hlt' => snapshotName_lt hlt' (hlt _ hr')

/-- Behind stage 99 they are not, in any list that is sorted. -/
theorem not_sorted {listing : List Text} {reports : List Report}
    (hmem : ∀ name ∈ listing, name ∈ names reports) (hsorted : listing.Pairwise (· < ·))
    (hlen : 100 < listing.length) : listing.map stageOf ≠ List.range listing.length := by
  intro hstages
  have hat : ∀ (k : Nat) (hk : k < listing.length), ∃ label, listing[k] = snapshotName k label := by
    intro k hk
    have hname := hmem _ (List.getElem_mem hk)
    rw [names, List.map_map, List.mem_map] at hname
    obtain ⟨report, _, hreport⟩ := hname
    have hstage : stageOf listing[k] = k := by
      have := List.getElem_of_eq hstages (i := k) (by simpa using hk)
      simpa using this
    have hk' : report.stage = k := by
      rw [← hstage, ← hreport]
      exact stageOf_snapshotName.symm
    refine ⟨report.label, hreport.symm.trans ?_⟩
    rw [← hk']
    rfl
  obtain ⟨label, hlabel⟩ := hat 99 (by omega)
  obtain ⟨label', hlabel'⟩ := hat 100 hlen
  have hlt := List.pairwise_iff_getElem.mp hsorted 99 100 (by omega) hlen (by decide)
  rw [hlabel, hlabel'] at hlt
  exact absurd (hlt.trans snapshotName_hundred_lt) (lt_irrefl _)

/-- **The listing is in the order of the pipeline as long as it has a hundred files.** -/
theorem listing_in_order_iff (hnames : ∀ pass ∈ b.preStdPasses, pass.passName ≠ [])
    (log : ExpandLog) (dir : Directory) :
    ∃ log' dir', (buildRticMacro2 display b (some (expandPasses log dir)) program).1 = some log' ∧
      log'.passDir = some dir' ∧
      ((passSnapshots dir').map stageOf = List.range (passSnapshots dir').length ↔
        (passSnapshots dir').length ≤ 100) := by
  obtain ⟨log', hlog', hdir⟩ :=
    @buildRticMacro2_eq _ _ _ _ _ _ display b program (expandPasses log dir)
  refine ⟨log', _, by rw [hlog'], hdir, ?_, ?_⟩
  · intro hstages
    by_contra hlen
    exact not_sorted (fun _ => (mem_passSnapshots hnames).mp) passSnapshots_sorted
      (not_le.mp hlen) hstages
  · intro hlen
    have hperm : (passSnapshots ((cleanPassSnapshots dir).writeAll
        (reports display b program))).Perm (names (reports display b program)) :=
      passSnapshots_perm hnames
    rw [hperm.length_eq, length_names] at hlen
    have heq : passSnapshots ((cleanPassSnapshots dir).writeAll (reports display b program)) =
        names (reports display b program) :=
      passSnapshots_sorted.eq_of_mem_iff (names_sorted stages_reports hlen)
        fun _ => mem_passSnapshots hnames
    rw [heq, stages_names, stages_reports, length_names]

theorem traced_listing :
    ∃ log' dir', (buildRticMacro2 ⟨id, id, id⟩ traced
        (some (expandPasses ⟨none, [], none⟩ leftovers))
        ⟨[], "mod app \x7b \x7d".toList⟩).1 = some log' ∧ log'.passDir = some dir' ∧
      ((passSnapshots dir').map stageOf = List.range (passSnapshots dir').length ↔
        (passSnapshots dir').length ≤ 100) :=
  listing_in_order_iff traced_named _ _

end Rticx.Expand.Snapshots
