import Rticx.Core.Pipeline

/-!
# The snapshots of a run

What a run of the pipeline writes into the directory of its snapshots: one file for each stage that
it comes to, whose number is the stage.
-/

namespace Rticx.Core.Pipeline

open Rticx.Lib Rticx.Lib.Except

variable {V Args Mod App Analysis Code : Type}

/-! ## Stages -/

def runAll (state : InfoBus V × Program Args Mod) (passes : List (RticPass V Args Mod)) :
    Except Failure (InfoBus V × Program Args Mod) :=
  passes.foldlM (fun state pass => pass.runPass state) state

/-- What this number of passes make of the program. -/
def afterPasses (b : RticMacroBuilder V Args Mod App Analysis Code) (program : Program Args Mod)
    (k : Nat) : Except Failure (InfoBus V × Program Args Mod) :=
  runAll (b.infoBus, program) (b.preStdPasses.take k)

/-- A stage, with the label and the text of its snapshot. -/
structure Report where
  stage : Nat
  label : Text
  contents : Text

variable (display : Display Args Mod Code)

def outputReport (stage : Nat) (pass : RticPass V Args Mod)
    (out : InfoBus V × Program Args Mod) : Report :=
  ⟨stage, pass.passName, renderPassState display (outputContext pass.passName) out.2⟩

def inputReport (stage : Nat) (pass : RticPass V Args Mod)
    (state : InfoBus V × Program Args Mod) : Report :=
  ⟨stage, inputLabel pass.passName, renderPassState display (inputContext pass.passName) state.2⟩

/-- The stages that a run comes to. -/
inductive Reported (b : RticMacroBuilder V Args Mod App Analysis Code)
    (program : Program Args Mod) : Report → Prop where
  | original :
    Reported b program ⟨0, "original".toList, renderPassState display originalContext program⟩
  | output {k : Nat} {pass : RticPass V Args Mod} {out : InfoBus V × Program Args Mod} :
    b.preStdPasses[k]? = some pass → afterPasses b program (k + 1) = .ok out →
    Reported b program (outputReport display (k + 1) pass out)
  /-- the pass fails -/
  | input {k : Nat} {pass : RticPass V Args Mod} {state : InfoBus V × Program Args Mod}
      {message : Text} :
    b.preStdPasses[k]? = some pass → afterPasses b program k = .ok state →
    pass.runPass state = .error (.error message) →
    Reported b program (inputReport display (k + 1) pass state)
  /-- the parser of the core pass fails -/
  | postPasses {state : InfoBus V × Program Args Mod} {message : Text} :
    afterPasses b program b.preStdPasses.length = .ok state →
    b.core.parse state.2 = .error (.error message) →
    Reported b program ⟨b.preStdPasses.length + 1, "post_passes".toList,
      renderPassState display postPassesContext state.2⟩
  | core {code : Code} :
    (buildRticMacro2 display b none program).2 = .ok code →
    Reported b program ⟨b.preStdPasses.length + 1, "core".toList, display.code code⟩

/-! ## Reports -/

def Report.entry (report : Report) : Text × Text :=
  (snapshotName report.stage report.label, report.contents)

def Directory.writeAll (dir : Directory) (reports : List Report) : Directory :=
  (reports.map Report.entry).foldl (fun dir entry => dir.update entry.1 fun _ => entry.2) dir

def ExpandLog.writeReports (log : ExpandLog) (reports : List Report) : ExpandLog :=
  { log with passDir := log.passDir.map (·.writeAll reports) }

section

variable {log : ExpandLog} {report : Report} {reports reports' : List Report}

theorem ExpandLog.writeReports_nil : log.writeReports [] = log := by
  obtain ⟨dir, stem, passDir⟩ := log
  cases passDir with
  | none => rfl
  | some dir => rfl

theorem ExpandLog.writeReports_cons :
    log.writeReports (report :: reports) =
      (log.writePassState report.stage report.label report.contents).writeReports reports := by
  obtain ⟨dir, stem, passDir⟩ := log
  cases passDir with
  | none => rfl
  | some dir => rfl

theorem ExpandLog.writeReports_append :
    log.writeReports (reports ++ reports') = (log.writeReports reports).writeReports reports' := by
  induction reports generalizing log with
  | nil => rw [List.nil_append, writeReports_nil]
  | cons report reports ih => rw [List.cons_append, writeReports_cons, writeReports_cons, ih]

end

/-- The reports of the loop over the passes. -/
def passReports (ran : Nat) (state : InfoBus V × Program Args Mod) :
    List (RticPass V Args Mod) → List Report
  | [] => []
  | pass :: passes =>
    match pass.runPass state with
    | .ok out =>
      outputReport display (ran + 1) pass out :: passReports (ran + 1) out passes
    | .error (.error _) => [inputReport display (ran + 1) pass state]
    | .error .panic => []

/-- The report of the core pass. -/
def coreReports (b : RticMacroBuilder V Args Mod App Analysis Code)
    (state : InfoBus V × Program Args Mod) : List Report :=
  match b.core.parse state.2 with
  | .error (.error _) =>
    [⟨b.preStdPasses.length + 1, "post_passes".toList,
      renderPassState display postPassesContext state.2⟩]
  | .error .panic => []
  | .ok app =>
    match generate b state.1 app with
    | .error _ => []
    | .ok code => [⟨b.preStdPasses.length + 1, "core".toList, display.code code⟩]

/-- The reports of a run. -/
def reports (b : RticMacroBuilder V Args Mod App Analysis Code) (program : Program Args Mod) :
    List Report :=
  ⟨0, "original".toList, renderPassState display originalContext program⟩ ::
    (passReports display 0 (b.infoBus, program) b.preStdPasses ++
      match afterPasses b program b.preStdPasses.length with
      | .ok state => coreReports display b state
      | .error _ => [])

variable {display} {b : RticMacroBuilder V Args Mod App Analysis Code} {program : Program Args Mod}
variable {log : Option ExpandLog} {state out : InfoBus V × Program Args Mod} {ran k : Nat}
variable {passes : List (RticPass V Args Mod)} {report : Report}

/-! ## The loop over the passes -/

theorem runAll_cons {pass : RticPass V Args Mod} :
    runAll state (pass :: passes) = pass.runPass state >>= (runAll · passes) :=
  List.foldlM_cons

/-- What the loop writes, and that it comes to its end as without a log. -/
theorem runPasses_eq :
    runPasses display ran log state passes =
      (log.map (·.writeReports (passReports display ran state passes)),
        (runPasses display 0 none state passes).2) := by
  induction passes generalizing ran log state with
  | nil =>
    cases log with
    | none => rfl
    | some log => simp [runPasses, passReports, ExpandLog.writeReports_nil]
  | cons pass passes ih =>
    rw [runPasses, runPasses, passReports]
    cases pass.runPass state with
    | ok out =>
      have hnone : runPasses display (0 + 1) none out passes =
          (none, (runPasses display 0 none out passes).2) := ih
      dsimp only
      rw [ih, Option.map_none, hnone]
      cases log with
      | none => rfl
      | some log => simp [ExpandLog.writeReports_cons, outputReport]
    | error failure =>
      cases log with
      | none =>
        cases failure with
        | error message => rfl
        | panic => rfl
      | some log =>
        cases failure with
        | error message =>
          simp [ExpandLog.writeReports_cons, ExpandLog.writeReports_nil, inputReport]
        | panic => simp [ExpandLog.writeReports_nil]

theorem runPasses_none : runPasses display ran none state passes =
    (none, (runPasses display 0 none state passes).2) := runPasses_eq

theorem runPasses_ok :
    (runPasses display 0 none state passes).2 = .ok out ↔ runAll state passes = .ok out := by
  induction passes generalizing state with
  | nil => simp [runPasses, runAll, Pure.pure, Except.pure]
  | cons pass passes ih =>
    rw [runPasses, runAll_cons]
    cases pass.runPass state with
    | ok mid =>
      dsimp only
      rw [runPasses_eq]
      exact ih
    | error failure =>
      cases failure with
      | error message => simp [Bind.bind, Except.bind]
      | panic => simp [Bind.bind, Except.bind]

/-! ## The run -/

theorem runCore_eq {log : ExpandLog} :
    ∃ log', runCore display b (some log) state = (some log', (runCore display b none state).2) ∧
      log'.passDir = (log.writeReports (coreReports display b state)).passDir := by
  unfold runCore coreReports
  cases b.core.parse state.2 with
  | error failure =>
    cases failure with
    | error message =>
      refine ⟨_, rfl, ?_⟩
      rw [ExpandLog.writeReports_cons, ExpandLog.writeReports_nil]
    | panic => exact ⟨log, rfl, by rw [ExpandLog.writeReports_nil]⟩
  | ok app =>
    dsimp only
    cases generate b state.1 app with
    | error failure => exact ⟨log, rfl, by rw [ExpandLog.writeReports_nil]⟩
    | ok code =>
      refine ⟨_, rfl, ?_⟩
      rw [ExpandLog.writeReports_cons, ExpandLog.writeReports_nil]
      rfl

theorem afterPasses_length :
    afterPasses b program b.preStdPasses.length = runAll (b.infoBus, program) b.preStdPasses := by
  rw [afterPasses, List.take_length]

/-- **A run writes its reports, and comes to what it comes to without them.** -/
theorem buildRticMacro2_eq {log : ExpandLog} :
    ∃ log', buildRticMacro2 display b (some log) program =
        (some log', (buildRticMacro2 display b none program).2) ∧
      log'.passDir = log.passDir.map (·.writeAll (reports display b program)) := by
  have hreports : ∀ core : List Report, log.passDir.map (·.writeAll
      (⟨0, "original".toList, renderPassState display originalContext program⟩ ::
        (passReports display 0 (b.infoBus, program) b.preStdPasses ++ core))) =
      (((log.writePassState 0 "original".toList
        (renderPassState display originalContext program)).writeReports
          (passReports display 0 (b.infoBus, program) b.preStdPasses)).writeReports core).passDir :=
    fun core => by
      rw [← ExpandLog.writeReports_append]
      exact congrArg ExpandLog.passDir (@ExpandLog.writeReports_cons log ⟨0, _, _⟩ _)
  unfold buildRticMacro2
  dsimp only
  rw [runPasses_eq, Option.map_some, Option.map_some, Option.map_none, reports, afterPasses_length,
    hreports]
  rw [runPasses_none]
  cases hrun : (runPasses display 0 none (b.infoBus, program) b.preStdPasses).2 with
  | error failure =>
    refine ⟨_, rfl, ?_⟩
    cases hall : runAll (b.infoBus, program) b.preStdPasses with
    | ok out => simp [runPasses_ok.mpr hall] at hrun
    | error failure => rw [ExpandLog.writeReports_nil]
  | ok out =>
    rw [runPasses_ok.mp hrun]
    exact runCore_eq

/-! ## What is reported -/

theorem mem_passReports :
    report ∈ passReports display ran state passes ↔
      ∃ k pass before, passes[k]? = some pass ∧ runAll state (passes.take k) = .ok before ∧
        ((∃ out, pass.runPass before = .ok out ∧
            report = outputReport display (ran + k + 1) pass out) ∨
          ∃ message, pass.runPass before = .error (.error message) ∧
            report = inputReport display (ran + k + 1) pass before) := by
  induction passes generalizing ran state with
  | nil => simp [passReports]
  | cons pass passes ih =>
    rw [passReports]
    constructor
    · intro h
      cases hpass : pass.runPass state with
      | ok out =>
        simp only [hpass, List.mem_cons] at h
        rcases h with rfl | h
        · exact ⟨0, pass, state, rfl, rfl, Or.inl ⟨out, hpass, rfl⟩⟩
        · obtain ⟨k, pass', before, hk, hbefore, h⟩ := ih.mp h
          refine ⟨k + 1, pass', before, hk, ?_, ?_⟩
          · rw [List.take_succ_cons, runAll_cons, hpass]
            exact hbefore
          · rw [Nat.add_right_comm ran 1 k] at h
            exact h
      | error failure =>
        cases failure with
        | error message =>
          simp only [hpass, List.mem_singleton] at h
          exact ⟨0, pass, state, rfl, rfl, Or.inr ⟨message, hpass, h⟩⟩
        | panic => simp [hpass] at h
    · rintro ⟨k, pass', before, hk, hbefore, h⟩
      cases k with
      | zero =>
        cases hk
        cases hbefore
        rcases h with ⟨out, hout, rfl⟩ | ⟨message, hmessage, rfl⟩
        · simp [hout]
        · simp [hmessage]
      | succ k =>
        rw [List.take_succ_cons, runAll_cons] at hbefore
        obtain ⟨out, hout, hbefore⟩ := bind_eq_ok.mp hbefore
        simp only [hout, List.mem_cons]
        refine Or.inr (ih.mpr ⟨k, pass', before, hk, hbefore, ?_⟩)
        rw [Nat.add_right_comm ran 1 k]
        exact h

theorem afterPasses_succ {pass : RticPass V Args Mod} (h : b.preStdPasses[k]? = some pass) :
    afterPasses b program (k + 1) = afterPasses b program k >>= pass.runPass := by
  rw [afterPasses, afterPasses, List.take_add_one, h, runAll, runAll, List.foldlM_append]
  simp

theorem afterPasses_of_ok {code : Code}
    (h : (buildRticMacro2 display b none program).2 = .ok code) :
    ∃ out, afterPasses b program b.preStdPasses.length = .ok out := by
  unfold buildRticMacro2 at h
  dsimp only at h
  rw [Option.map_none, runPasses_eq] at h
  cases hrun : (runPasses display 0 none (b.infoBus, program) b.preStdPasses).2 with
  | error failure => simp [hrun] at h
  | ok out => exact ⟨out, by rw [afterPasses_length, runPasses_ok.mp hrun]⟩

/-- The core pass comes to the code. -/
theorem buildRticMacro2_ok (hout : afterPasses b program b.preStdPasses.length = .ok out)
    {code : Code} :
    (buildRticMacro2 display b none program).2 = .ok code ↔
      ∃ app, b.core.parse out.2 = .ok app ∧ generate b out.1 app = .ok code := by
  rw [afterPasses_length] at hout
  unfold buildRticMacro2
  dsimp only
  rw [Option.map_none, runPasses_eq, runPasses_ok.mpr hout]
  dsimp only [Option.map_none]
  unfold runCore
  cases b.core.parse out.2 with
  | error failure =>
    cases failure with
    | error message => simp [contextualize]
    | panic => simp
  | ok app =>
    simp only [Except.ok.injEq, exists_eq_left']
    cases hcode : generate b out.1 app with
    | error failure => simp
    | ok code => simp

theorem mem_coreReports (hout : afterPasses b program b.preStdPasses.length = .ok out) :
    report ∈ coreReports display b out ↔
      (∃ message, b.core.parse out.2 = .error (.error message) ∧
        report = ⟨b.preStdPasses.length + 1, "post_passes".toList,
          renderPassState display postPassesContext out.2⟩) ∨
      ∃ code, (buildRticMacro2 display b none program).2 = .ok code ∧
        report = ⟨b.preStdPasses.length + 1, "core".toList, display.code code⟩ := by
  simp only [buildRticMacro2_ok hout]
  unfold coreReports
  cases b.core.parse out.2 with
  | error failure =>
    cases failure with
    | error message => simp
    | panic => simp
  | ok app =>
    cases hcode : generate b out.1 app with
    | error failure => simp [hcode]
    | ok code => simp [hcode]

/-- **A run reports the stages that it comes to.** -/
theorem mem_reports : report ∈ reports display b program ↔ Reported display b program report := by
  rw [reports, List.mem_cons, List.mem_append, mem_passReports]
  constructor
  · rintro (rfl | ⟨k, pass, before, hk, hbefore, h⟩ | h)
    · exact .original
    · rcases h with ⟨out, hout, rfl⟩ | ⟨message, hmessage, rfl⟩
      · rw [Nat.zero_add]
        refine .output hk ?_
        rw [afterPasses_succ hk]
        exact bind_eq_ok.mpr ⟨before, hbefore, hout⟩
      · rw [Nat.zero_add]
        exact .input hk hbefore hmessage
    · cases hout : afterPasses b program b.preStdPasses.length with
      | error failure => simp [hout] at h
      | ok out =>
        simp only [hout, mem_coreReports hout] at h
        rcases h with ⟨message, hmessage, rfl⟩ | ⟨code, hcode, rfl⟩
        · exact .postPasses hout hmessage
        · exact .core hcode
  · intro h
    cases h with
    | original => exact Or.inl rfl
    | @output k pass out hk hout =>
      rw [afterPasses_succ hk] at hout
      obtain ⟨before, hbefore, hout⟩ := bind_eq_ok.mp hout
      refine Or.inr (Or.inl ⟨k, pass, before, hk, hbefore, Or.inl ⟨out, hout, ?_⟩⟩)
      rw [Nat.zero_add]
    | @input k pass state message hk hstate hmessage =>
      refine Or.inr (Or.inl ⟨k, pass, state, hk, hstate, Or.inr ⟨message, hmessage, ?_⟩⟩)
      rw [Nat.zero_add]
    | @postPasses state message hstate hmessage =>
      refine Or.inr (Or.inr ?_)
      rw [hstate]
      exact (mem_coreReports hstate).mpr (Or.inl ⟨message, hmessage, rfl⟩)
    | @core code hcode =>
      obtain ⟨out, hout⟩ := afterPasses_of_ok hcode
      refine Or.inr (Or.inr ?_)
      rw [hout]
      exact (mem_coreReports hout).mpr (Or.inr ⟨code, hcode, rfl⟩)

/-! ## The numbers of the stages -/

theorem stages_passReports :
    (passReports display ran state passes).map Report.stage =
      List.range' (ran + 1) (passReports display ran state passes).length := by
  induction passes generalizing ran state with
  | nil => rfl
  | cons pass passes ih =>
    rw [passReports]
    cases pass.runPass state with
    | ok out =>
      dsimp only
      rw [List.map_cons, ih, List.length_cons, List.range'_succ]
      rfl
    | error failure =>
      cases failure with
      | error message => rfl
      | panic => rfl

theorem length_passReports (h : runAll state passes = .ok out) :
    (passReports display ran state passes).length = passes.length := by
  induction passes generalizing ran state with
  | nil => rfl
  | cons pass passes ih =>
    rw [runAll_cons] at h
    obtain ⟨mid, hmid, h⟩ := bind_eq_ok.mp h
    simp [passReports, hmid, ih h]

theorem stages_coreReports :
    (coreReports display b state).map Report.stage =
      List.range' (b.preStdPasses.length + 1) (coreReports display b state).length := by
  unfold coreReports
  cases b.core.parse state.2 with
  | error failure =>
    cases failure with
    | error message => rfl
    | panic => rfl
  | ok app =>
    dsimp only
    cases generate b state.1 app with
    | error failure => rfl
    | ok code => rfl

/-- **The stages are numbered from 0, and none is left out.** -/
theorem stages_reports :
    (reports display b program).map Report.stage =
      List.range (reports display b program).length := by
  rw [reports, List.map_cons, List.map_append, stages_passReports, List.length_cons,
    List.length_append, List.range_eq_range', List.range'_succ]
  congr 1
  cases hout : afterPasses b program b.preStdPasses.length with
  | error failure => simp
  | ok out =>
    rw [afterPasses_length] at hout
    dsimp only
    rw [stages_coreReports, length_passReports hout, Nat.zero_add,
      Nat.add_comm b.preStdPasses.length 1, List.range'_append_1]

end Rticx.Core.Pipeline
