import Rticx.Core.Entry
import Rticx.Lib.Decimal
import Rticx.Lib.UniqueMap

/-!
# The pipeline of the app macro

`build_rtic_macro2` of `rticx-core/src/lib.rs`: the passes in the order in which they were bound, the
core pass, and what `expand_log.rs` writes on the way. The parser, the analysis and the code
generator of the core pass are parameters here, as the passes are. Every write succeeds.
-/

namespace Rticx.Core.Pipeline

open Rticx.Lib

abbrev Text := List Char

/-- Why a call does not return a value. -/
inductive Failure where
  /-- an error of `syn`, by its message, which becomes a `compile_error!` -/
  | error (message : Text)
  | panic
deriving DecidableEq

/-! ## The info bus -/

/-- `InfoBus`, by the entries -/
structure InfoBus (V : Type) where
  infos : AList fun _ : Text => V

/-- `InfoBus::new` -/
def InfoBus.new {V : Type} : InfoBus V := ⟨∅⟩

/-- `errors::Error::EntryOccupied` -/
def entryOccupied (entry : Text) : Text :=
  "Can't publish '".toList ++ entry ++ "' entry to info bus. Entry already exists".toList

/-- `InfoBus::publish` -/
def InfoBus.publish {V : Type} (bus : InfoBus V) (entry : Text) (value : V) :
    Except Text (InfoBus V) :=
  (UniqueMap.insertNew entryOccupied bus.infos (entry, value)).map InfoBus.mk

/-! ## Passes -/

/-- What a pass is given: the arguments of the macro and the module. -/
structure Program (Args Mod : Type) where
  args : Args
  appMod : Mod

variable {V Args Mod App Analysis Code : Type}

/-- `RticPass`; `subscribe` is a part of `run_pass`, before which it is called. -/
structure RticPass (V Args Mod : Type) where
  passName : Text
  runPass : InfoBus V × Program Args Mod → Except Failure (InfoBus V × Program Args Mod)
  /-- after the run, with what is in the info bus then -/
  mainInjection : InfoBus V → MainInjection

/-- The core pass with its backend. -/
structure CorePass (V Args Mod App Analysis Code : Type) where
  /-- `App::parse` -/
  parse : Program Args Mod → Except Failure App
  cores : App → Nat
  /-- `Analysis::run`, which changes the app -/
  analyse : App → Except Failure (App × Analysis)
  appEntry : App → V
  analysisEntry : Analysis → V
  /-- `CorePassBackend::pre_codegen_validation` -/
  preCodegenValidation : InfoBus V → App → Analysis → Except Failure Unit
  /-- `CodeGen::run`, if it does not panic -/
  codegen : InfoBus V → App → Analysis → MainInjections → Option Code

structure RticMacroBuilder (V Args Mod App Analysis Code : Type) where
  core : CorePass V Args Mod App Analysis Code
  preStdPasses : List (RticPass V Args Mod)
  infoBus : InfoBus V

/-- `contextualize` -/
def contextualize (context : Text) : Failure → Failure
  | .error message => .error (context ++ ": ".toList ++ message)
  | .panic => .panic

/-! ## The expansion log -/

/-- The files of a directory, by their names. -/
abbrev Directory := SortedMap Text Text

def Directory.write (dir : Directory) (name contents : Text) : Directory :=
  dir.update name fun _ => contents

/-- `ExpandLog`, by what is in its directories -/
structure ExpandLog where
  /-- none if the path is empty -/
  dir : Option Directory
  stem : Text
  passDir : Option Directory

/-- `sanitize` -/
def sanitize (label : Text) : Text :=
  label.map fun ch => if ch.isAlphanum || ch == '_' then ch else '_'

/-- `format!("{index:02}_{}.rs", sanitize(label))` -/
def snapshotName (index : Nat) (label : Text) : Text :=
  Decimal.pad 2 index ++ '_' :: (sanitize label ++ ".rs".toList)

/-- `ExpandLog::write_pass_state` -/
def ExpandLog.writePassState (log : ExpandLog) (index : Nat) (label contents : Text) : ExpandLog :=
  { log with passDir := log.passDir.map (·.write (snapshotName index label) contents) }

def expansionName (stem label : Text) : Text := stem ++ '_' :: (sanitize label ++ ".rs".toList)

/-- `ExpandLog::write` -/
def ExpandLog.write (log : ExpandLog) (label contents : Text) : ExpandLog :=
  { log with dir := log.dir.map (·.write (expansionName log.stem label) contents) }

/-- `to_string`, for what is written. -/
structure Display (Args Mod Code : Type) where
  args : Args → Text
  appMod : Mod → Text
  code : Code → Text

/-- `render_pass_state` -/
def renderPassState (display : Display Args Mod Code) (context : Text)
    (program : Program Args Mod) : Text :=
  "// ==================== ".toList ++ context ++ " ====================\n// #[app(".toList ++
    display.args program.args ++ ")]\n".toList ++ display.appMod program.appMod ++ ['\n']

/-! ## The run -/

def originalContext : Text := "original app module (before all passes)".toList

def outputContext (passName : Text) : Text := "output of `".toList ++ passName ++ ['`']

def inputContext (passName : Text) : Text :=
  "input to `".toList ++ passName ++ "` (pass failed)".toList

def postPassesContext : Text := "state after all passes (core parsing failed)".toList

def passContext (passName : Text) : Text :=
  "in `".toList ++ passName ++ "` compilation pass".toList

/-- The phases of the core pass, in its errors. -/
def coreContext (phase : Text) : Text :=
  "in `core` compilation pass during the user code `".toList ++ phase ++ "` phase".toList

def inputLabel (passName : Text) : Text := passName ++ "_input".toList

variable (display : Display Args Mod Code)

/-- The loop over the passes, of which `ran` have run already. -/
def runPasses (ran : Nat) (log : Option ExpandLog) (state : InfoBus V × Program Args Mod) :
    List (RticPass V Args Mod) →
      Option ExpandLog × Except Failure (InfoBus V × Program Args Mod)
  | [] => (log, .ok state)
  | pass :: passes =>
    match pass.runPass state with
    | .ok out =>
      let contents := renderPassState display (outputContext pass.passName) out.2
      runPasses (ran + 1) (log.map (·.writePassState (ran + 1) pass.passName contents)) out passes
    | .error (.error message) =>
      let contents := renderPassState display (inputContext pass.passName) state.2
      (log.map (·.writePassState (ran + 1) (inputLabel pass.passName) contents),
        .error (contextualize (passContext pass.passName) (.error message)))
    | .error .panic => (log, .error .panic)

/-- `publish(…).expect(…)` -/
def expectPublish (bus : InfoBus V) (entry : Text) (value : V) :
    Except Failure (InfoBus V) := (bus.publish entry value).mapError fun _ => .panic

/-- From the parsed app to the code. -/
def generate (b : RticMacroBuilder V Args Mod App Analysis Code) (bus : InfoBus V) (app : App) :
    Except Failure Code := do
  let bus ← expectPublish bus "rticx_core::App".toList (b.core.appEntry app)
  let (app, analysis) ←
    (b.core.analyse app).mapError (contextualize (coreContext "analysis".toList))
  let bus ← expectPublish bus "rticx_core::Analysis".toList (b.core.analysisEntry analysis)
  b.core.preCodegenValidation bus app analysis
  let injections := MainInjections.collect (b.preStdPasses.map fun pass => pass.mainInjection bus)
    (b.core.cores app)
  (b.core.codegen bus app analysis injections).elim (.error .panic) .ok

/-- The core pass, behind the other passes. -/
def runCore (b : RticMacroBuilder V Args Mod App Analysis Code) (log : Option ExpandLog)
    (state : InfoBus V × Program Args Mod) : Option ExpandLog × Except Failure Code :=
  let stage := b.preStdPasses.length + 1
  match b.core.parse state.2 with
  | .error (.error message) =>
    let contents := renderPassState display postPassesContext state.2
    (log.map (·.writePassState stage "post_passes".toList contents),
      .error (contextualize (coreContext "parsing".toList) (.error message)))
  | .error .panic => (log, .error .panic)
  | .ok app =>
    match generate b state.1 app with
    | .error failure => (log, .error failure)
    | .ok code =>
      let contents := display.code code
      (log.map fun log =>
        (log.write "expanded".toList contents).writePassState stage "core".toList contents,
        .ok code)

/-- `build_rtic_macro2` -/
def buildRticMacro2 (b : RticMacroBuilder V Args Mod App Analysis Code) (log : Option ExpandLog)
    (program : Program Args Mod) : Option ExpandLog × Except Failure Code :=
  let contents := renderPassState display originalContext program
  match runPasses display 0 (log.map (·.writePassState 0 "original".toList contents))
    (b.infoBus, program) b.preStdPasses with
  | (log, .error failure) => (log, .error failure)
  | (log, .ok state) => runCore display b log state

end Rticx.Core.Pipeline
