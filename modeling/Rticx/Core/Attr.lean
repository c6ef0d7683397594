import Mathlib.Data.List.AList
import Rticx.Core.App
import Rticx.Lib.Except

/-!
# Attributes as they are written

`rticx-core/src/parse_utils`: an attribute is a name and a map from keys to expressions, which one
pass takes apart and the next one reads again. The map is a `HashMap`: it is printed in any order.
-/

namespace Rticx.Core

open Rticx.Lib.Except

/-- An expression, as far as the parsers tell expressions apart. -/
inductive Expr where
  /-- an integer literal, by the value of its digits: a suffix is not read -/
  | int (value : Nat)
  /-- a path without a qualified self type and without a leading colon -/
  | path (segments : List Ident)
  /-- an element that is not an identifier is `none` -/
  | array (elems : List (Option Ident))
  | other (tokens : String)
  deriving DecidableEq

structure RticAttr where
  name : Ident
  elements : AList (fun _ : Ident => Expr)

namespace RticAttr

/-- `parse_from_tokens`: a key without a value stands for `key = ()`. -/
def parseFromTokens (tokens : List (Ident × Option Expr)) (name : Ident) : RticAttr where
  name := name
  elements := tokens.foldl
    (fun elements token => elements.insert token.1 (token.2.getD (.other "()"))) ∅

/-- `args_tokens`, in one of the orders of the map. -/
def argsTokens (attr : RticAttr) : List (Ident × Option Expr) :=
  attr.elements.entries.map fun element => (element.1, some element.2)

def getExpr (attr : RticAttr) (key : Ident) : Option Expr :=
  attr.elements.lookup key

def takeIdent (attr : RticAttr) (key : Ident) : Except String (Option Ident) :=
  match attr.getExpr key with
  | none => .ok none
  | some (.path [ident]) => .ok (some ident)
  | some _ => .error s!"`{key}` must be an identifier"

/-- `take_int`, for the integers below `bound`. -/
def takeInt (attr : RticAttr) (key : Ident) (bound : Nat) : Except String (Option Nat) :=
  match attr.getExpr key with
  | none => .ok none
  | some (.int value) => Core.takeInt key bound (some value)
  | some _ => .error s!"`{key}` must be an integer literal"

/-- One element of an array of identifiers. -/
def takeElem (key : Ident) : Option Ident → Except String Ident
  | some ident => .ok ident
  | none => .error s!"expected identifier in `{key}` array"

def takeIdentArray (attr : RticAttr) (key : Ident) : Except String (Option (List Ident)) :=
  match attr.getExpr key with
  | none => .ok none
  | some (.array elems) => (elems.mapM (takeElem key)).map some
  | some _ => .error s!"`{key}` must be an array of identifiers, e.g. `{key} = [a, b]`"

/-- `ensure_supported`: the unknown argument that the map comes to first. -/
def ensureSupported (attr : RticAttr) (supported : List Ident) : Except String Unit :=
  match attr.elements.keys.find? (· ∉ supported) with
  | some unknown =>
    let expected := ", ".intercalate supported
    .error s!"unknown argument `{unknown}`; expected one of: {expected}"
  | none => .ok ()

end RticAttr

/-- `init = generated` -/
def takeInitGenerated (attr : RticAttr) : Except String Bool :=
  match attr.getExpr "init" with
  | none => .ok false
  | some (.path ["generated"]) => .ok true
  | some _ => .error "expected `init = generated`"

/-- The arguments that a task may have. -/
def taskArgsSupported : List Ident := ["binds", "priority", "shared", "core", "task_trait", "init"]

/-- `TaskArgs::parse`, from the attribute as it is written. -/
def TaskArgs.fromAttr (attr : RticAttr) : Except String TaskArgs := do
  attr.ensureSupported taskArgsSupported
  let binds ← attr.takeIdent "binds"
  let priority ← attr.takeInt "priority" (2 ^ 16)
  let shared ← attr.takeIdentArray "shared"
  let core ← attr.takeInt "core" (2 ^ 32)
  let taskTrait ← attr.takeIdent "task_trait"
  let initGenerated ← takeInitGenerated attr
  return {
    binds := binds
    priority := priority.getD defaultTaskPriority
    shared := shared.getD []
    core := core.getD 0
    taskTrait := taskTrait.getD hwtTraitTy
    initGenerated := initGenerated }

/-! ## What a successful parse has read -/

namespace RticAttr

variable {attr : RticAttr} {key : Ident}

theorem takeInt_eq_ok {bound : Nat} {v : Option Nat} (h : attr.takeInt key bound = .ok v) :
    attr.getExpr key = v.map .int ∧ ∀ n, v = some n → n < bound := by
  unfold takeInt at h
  split at h
  · rename_i hget
    cases h
    constructor
    · exact hget
    · rintro n ⟨⟩
  · rename_i value hget
    change (if value < bound then Except.ok (some value) else Except.error _) = _ at h
    split at h
    · rename_i hlt
      cases h
      constructor
      · exact hget
      · rintro n ⟨⟩
        exact hlt
    · cases h
  · cases h

theorem takeIdent_eq_ok {v : Option Ident} (h : attr.takeIdent key = .ok v) :
    attr.getExpr key = v.map fun ident => .path [ident] := by
  unfold takeIdent at h
  split at h
  · rename_i hget
    cases h
    simp [hget]
  · rename_i ident hget
    cases h
    simp [hget]
  · cases h

end RticAttr

/-! ## The values of the arguments -/

namespace RticAttr

def identValue (attr : RticAttr) (key : Ident) : Option Ident :=
  match attr.getExpr key with
  | some (.path [ident]) => some ident
  | _ => none

def intValue (attr : RticAttr) (key : Ident) : Option Nat :=
  match attr.getExpr key with
  | some (.int value) => some value
  | _ => none

def arrayValue (attr : RticAttr) (key : Ident) : Option (List Ident) :=
  match attr.getExpr key with
  | some (.array elems) => some elems.reduceOption
  | _ => none

/-- The attribute by the values of its arguments. -/
def taskAttr (attr : RticAttr) : TaskAttr where
  binds := attr.identValue "binds"
  priority := attr.intValue "priority"
  shared := attr.arrayValue "shared"
  core := attr.intValue "core"
  taskTrait := attr.identValue "task_trait"
  init := attr.identValue "init"

variable {attr : RticAttr} {key : Ident}

theorem identValue_of_takeIdent {v : Option Ident} (h : attr.takeIdent key = .ok v) :
    attr.identValue key = v := by
  unfold identValue
  rw [takeIdent_eq_ok h]
  cases v with
  | none => rfl
  | some ident => rfl

theorem takeInt_eq_intValue {bound : Nat} {v : Option Nat} (h : attr.takeInt key bound = .ok v) :
    v = attr.intValue key := by
  unfold intValue
  rw [(takeInt_eq_ok h).1]
  cases v with
  | none => rfl
  | some n => rfl

theorem takeInt_intValue {bound : Nat} {v : Option Nat} (h : attr.takeInt key bound = .ok v) :
    Core.takeInt key bound (attr.intValue key) = .ok v := by
  rw [← takeInt_eq_intValue h]
  cases v with
  | none => rfl
  | some n => exact if_pos ((takeInt_eq_ok h).2 n rfl)

theorem mapM_takeElem {elems : List (Option Ident)} {idents : List Ident}
    (h : elems.mapM (takeElem key) = .ok idents) : elems = idents.map some := by
  induction elems generalizing idents with
  | nil =>
    cases h
    rfl
  | cons elem elems ih =>
    rw [List.mapM_cons, bind_eq_ok] at h
    obtain ⟨ident, helem, h⟩ := h
    obtain ⟨rest, hrest, h⟩ := bind_eq_ok.mp h
    cases h
    cases elem with
    | none => cases helem
    | some ident' =>
      cases helem
      rw [ih hrest]
      rfl

theorem arrayValue_of_takeIdentArray {v : Option (List Ident)}
    (h : attr.takeIdentArray key = .ok v) : attr.arrayValue key = v := by
  unfold takeIdentArray at h
  unfold arrayValue
  split at h
  · rename_i hget
    cases h
    rw [hget]
  · rename_i elems hget
    obtain ⟨idents, hmap, rfl⟩ := map_eq_ok.mp h
    rw [hget, mapM_takeElem hmap]
    show some ((idents.map some).filterMap id) = some idents
    rw [List.filterMap_map]
    exact congrArg some List.filterMap_some
  · cases h

theorem takeInit_identValue {v : Bool} (h : takeInitGenerated attr = .ok v) :
    takeInit (attr.identValue "init") = .ok v := by
  unfold takeInitGenerated at h
  unfold identValue
  split at h
  · rename_i hget
    rw [hget, ← h]
    rfl
  · rename_i hget
    rw [hget, ← h]
    rfl
  · cases h

end RticAttr

/-- **Reading the written attribute reads the values of its arguments.** -/
theorem TaskArgs.parse_taskAttr {attr : RticAttr} {args : TaskArgs}
    (h : TaskArgs.fromAttr attr = .ok args) : TaskArgs.parse attr.taskAttr = .ok args := by
  obtain ⟨_, _, h⟩ := bind_eq_ok.mp h
  obtain ⟨binds, hbinds, h⟩ := bind_eq_ok.mp h
  obtain ⟨priority, hpriority, h⟩ := bind_eq_ok.mp h
  obtain ⟨shared, hshared, h⟩ := bind_eq_ok.mp h
  obtain ⟨core, hcore, h⟩ := bind_eq_ok.mp h
  obtain ⟨taskTrait, htaskTrait, h⟩ := bind_eq_ok.mp h
  obtain ⟨initGenerated, hinit, h⟩ := bind_eq_ok.mp h
  cases h
  refine bind_eq_ok.mpr ⟨priority, RticAttr.takeInt_intValue hpriority, ?_⟩
  refine bind_eq_ok.mpr ⟨core.getD 0, ?_, ?_⟩
  · exact map_eq_ok.mpr ⟨core, RticAttr.takeInt_intValue hcore, rfl⟩
  · refine bind_eq_ok.mpr ⟨initGenerated, RticAttr.takeInit_identValue hinit, ?_⟩
    simp only [RticAttr.taskAttr, RticAttr.identValue_of_takeIdent hbinds,
      RticAttr.arrayValue_of_takeIdentArray hshared,
      RticAttr.identValue_of_takeIdent htaskTrait]
    rfl

/-! ## Printing and reading again -/

/-- The entry that a printed argument becomes. -/
def tokenEntry (token : Ident × Option Expr) : Sigma fun _ : Ident => Expr :=
  ⟨token.1, token.2.getD (.other "()")⟩

/-- The map that a list of entries with distinct keys builds. -/
theorem lookup_foldl_insert {entries : List (Sigma fun _ : Ident => Expr)}
    (hentries : entries.NodupKeys) (elements : AList (fun _ : Ident => Expr)) (key : Ident) :
    (entries.foldl (fun elements element => elements.insert element.1 element.2)
        elements).lookup key =
      (entries.dlookup key).or (elements.lookup key) := by
  induction entries generalizing elements with
  | nil => simp
  | cons element entries ih =>
    obtain ⟨k, value⟩ := element
    obtain ⟨hk, hentries⟩ := List.nodupKeys_cons.mp hentries
    rw [List.foldl_cons, ih hentries]
    by_cases h : key = k
    · subst h
      rw [List.dlookup_eq_none.mpr hk, List.dlookup_cons_eq, AList.lookup_insert]
      rfl
    · rw [AList.lookup_insert_ne h, List.dlookup_cons_ne _ _ h]

/-- **An attribute says the same after it was printed and read again**, in whatever order the map
was printed. -/
theorem RticAttr.getExpr_parseFromTokens {attr : RticAttr} {tokens : List (Ident × Option Expr)}
    (htokens : tokens.Perm attr.argsTokens) (name key : Ident) :
    (parseFromTokens tokens name).getExpr key = attr.getExpr key := by
  have hperm : (tokens.map tokenEntry).Perm attr.elements.entries := by
    have := htokens.map tokenEntry
    rwa [argsTokens, List.map_map, show tokenEntry ∘ (fun element : Sigma fun _ : Ident => Expr =>
      (element.1, some element.2)) = id from rfl, List.map_id] at this
  have hentries := (List.perm_nodupKeys hperm).mpr attr.elements.nodupKeys
  have hlookup := lookup_foldl_insert hentries ∅ key
  rw [List.foldl_map, AList.lookup_empty, Option.or_none] at hlookup
  exact hlookup.trans (List.perm_dlookup key hentries hperm)

end Rticx.Core
