import Rticx.Core.Attr
import Rticx.Core.Duplicates

/-!
# The arguments of a task as they are written

`TaskArgs::parse` from the list between the brackets of the attribute. `parse_from_tokens` puts an
argument into a `HashMap` when its key is one identifier: another key leaves no trace, and a key
that is given again replaces the value before. `take_ident` reads the first segment of a path and
not its generic arguments. `seen` is what is left of a list.
-/

namespace Rticx.Core.Written

open Rticx.Core.Source (Path PathSegment TypePath)
open Rticx.Lib.Except

/-! ## Arguments -/

/-- An expression, as far as the parsers tell expressions apart. -/
inductive Expr where
  /-- an integer literal, by the value of its digits -/
  | int (value : Nat) (suffix : String)
  | path (path : TypePath)
  /-- an element that is not a path stands for itself -/
  | array (elems : List (TypePath ⊕ String))
  | other (tokens : String)
  deriving DecidableEq

/-- `key = value`, or a key alone. -/
structure Arg where
  key : Path
  value : Option Expr
  deriving DecidableEq

/-- `get_ident` -/
def getIdent (path : Path) : Option Ident :=
  match path.leadingColon, path.segments with
  | false, [segment] => if segment.arguments = "" then some segment.ident else none
  | _, _ => none

/-- The value that is parsed: `()` for a key alone. -/
def Arg.expr (arg : Arg) : Expr := arg.value.getD (.other "()")

/-- The map of `parse_from_tokens`. -/
def elements (args : List Arg) : AList fun _ : Ident => Expr :=
  args.foldl (fun elements arg =>
    match getIdent arg.key with
    | some ident => elements.insert ident arg.expr
    | none => elements) ∅

/-! ## Typed accessors -/

/-- A path that `take_ident` takes for an identifier. -/
def pathIdent (path : TypePath) : Option Ident :=
  match path.qself, path.path.leadingColon, path.path.segments with
  | none, false, [segment] => some segment.ident
  | _, _, _ => none

def readIdent (key : Ident) : Expr → Except String Ident
  | .path path =>
    match pathIdent path with
    | some ident => .ok ident
    | none => .error s!"`{key}` must be an identifier"
  | _ => .error s!"`{key}` must be an identifier"

def readInt (key : Ident) (bound : Nat) : Expr → Except String Nat
  | .int value _ =>
    if value < bound then .ok value
    else .error s!"`{key}` must be an integer literal: number too large to fit in target type"
  | _ => .error s!"`{key}` must be an integer literal"

def readElem (key : Ident) : TypePath ⊕ String → Except String Ident
  | .inl path =>
    match pathIdent path with
    | some ident => .ok ident
    | none => .error s!"expected identifier in `{key}` array"
  | .inr _ => .error s!"expected identifier in `{key}` array"

def readIdentArray (key : Ident) : Expr → Except String (List Ident)
  | .array elems => elems.mapM (readElem key)
  | _ => .error s!"`{key}` must be an array of identifiers, e.g. `{key} = [a, b]`"

/-- `init = generated` -/
def readInit : Expr → Except String Unit
  | .path path =>
    if getIdent path.path = some "generated" then .ok () else .error "expected `init = generated`"
  | _ => .error "expected `init = generated`"

/-- What an absent key gives, and what the value of a key is read as. -/
def take {α : Type} (elements : AList fun _ : Ident => Expr) (key : Ident)
    (read : Expr → Except String α) : Except String (Option α) :=
  match elements.lookup key with
  | none => .ok none
  | some e => (read e).map some

/-- `take_ident` -/
def takeIdent (elements : AList fun _ : Ident => Expr) (key : Ident) :
    Except String (Option Ident) :=
  take elements key (readIdent key)

/-- `take_int`, for the integers below `bound`. -/
def takeInt (elements : AList fun _ : Ident => Expr) (key : Ident) (bound : Nat) :
    Except String (Option Nat) :=
  take elements key (readInt key bound)

/-- `take_ident_array` -/
def takeIdentArray (elements : AList fun _ : Ident => Expr) (key : Ident) :
    Except String (Option (List Ident)) :=
  take elements key (readIdentArray key)

/-- `ensure_supported`: the unknown argument that the map comes to first. -/
def ensureSupported (elements : AList fun _ : Ident => Expr) (supported : List Ident) :
    Except String Unit :=
  match elements.keys.find? (· ∉ supported) with
  | some unknown =>
    let expected := ", ".intercalate supported
    .error s!"unknown argument `{unknown}`; expected one of: {expected}"
  | none => .ok ()

/-- `TaskArgs::parse` -/
def parse (args : List Arg) : Except String TaskArgs := do
  let elements := elements args
  ensureSupported elements taskArgsSupported
  let binds ← takeIdent elements "binds"
  let priority ← takeInt elements "priority" (2 ^ 16)
  let shared ← takeIdentArray elements "shared"
  let core ← takeInt elements "core" (2 ^ 32)
  let taskTrait ← takeIdent elements "task_trait"
  let init ← take elements "init" readInit
  return {
    binds := binds
    priority := priority.getD defaultTaskPriority
    shared := shared.getD []
    core := core.getD 0
    taskTrait := taskTrait.getD hwtTraitTy
    initGenerated := init.isSome }

/-! ## What a list of arguments says -/

def identPath (ident : Ident) : Path where
  segments := [⟨ident, ""⟩]
  nonempty := List.cons_ne_nil _ _

def identExpr (ident : Ident) : TypePath := { path := identPath ident }

def IsIdent (e : Expr) (ident : Ident) : Prop := e = .path (identExpr ident)

def IsInt (bound : Nat) (e : Expr) (n : Nat) : Prop := n < bound ∧ ∃ suffix, e = .int n suffix

def IsIdentArray (e : Expr) (idents : List Ident) : Prop :=
  e = .array (idents.map fun ident => .inl (identExpr ident))

def IsGenerated (e : Expr) (_ : Unit) : Prop := IsIdent e "generated"

/-- A supported key with a value of its form. -/
def WellFormed (key : Ident) (e : Expr) : Prop :=
  (key = "binds" ∨ key = "task_trait") ∧ (∃ ident, IsIdent e ident) ∨
    key = "priority" ∧ (∃ n, IsInt (2 ^ 16) e n) ∨
    key = "core" ∧ (∃ n, IsInt (2 ^ 32) e n) ∨
    key = "shared" ∧ (∃ idents, IsIdentArray e idents) ∨
    key = "init" ∧ IsGenerated e ()

/-- Every argument is a supported identifier with a value of its form, and occurs once. -/
structure Good (args : List Arg) : Prop where
  wellFormed : ∀ arg ∈ args, ∃ key e, arg = ⟨identPath key, some e⟩ ∧ WellFormed key e
  nodup : (args.map (·.key)).Nodup

/-- The value of a key, wherever it stands. -/
def Gives {α : Type} (args : List Arg) (key : Ident) (is : Expr → α → Prop) : Option α → Prop
  | none => ∀ arg ∈ args, arg.key ≠ identPath key
  | some value => ∃ e, ⟨identPath key, some e⟩ ∈ args ∧ is e value

/-- Each key that is given has its value, and each other one its default. -/
structure Denotes (args : List Arg) (t : TaskArgs) : Prop where
  binds : Gives args "binds" IsIdent t.binds
  priority : ∃ priority, Gives args "priority" (IsInt (2 ^ 16)) priority ∧
    t.priority = priority.getD defaultTaskPriority
  shared : ∃ shared, Gives args "shared" IsIdentArray shared ∧ t.shared = shared.getD []
  core : ∃ core, Gives args "core" (IsInt (2 ^ 32)) core ∧ t.core = core.getD 0
  taskTrait : ∃ taskTrait, Gives args "task_trait" IsIdent taskTrait ∧
    t.taskTrait = taskTrait.getD hwtTraitTy
  initGenerated : ∃ init, Gives args "init" IsGenerated init ∧ t.initGenerated = init.isSome

/-! ## What the parser sees -/

/-- The last argument with this key. -/
def lastArg : List Arg → Ident → Option Arg
  | [], _ => none
  | arg :: args, key =>
    (lastArg args key).or (if getIdent arg.key = some key then some arg else none)

/-- A path without its generic arguments, where they are not looked at. -/
def seenPath (path : TypePath) : TypePath := ((pathIdent path).map identExpr).getD path

def seenExpr (key : Ident) : Expr → Expr
  | .path path => if key = "init" then .path path else .path (seenPath path)
  | .array elems => .array (elems.map (Sum.map seenPath id))
  | e => e

/-- The arguments with an identifier for a key, each at the last place where it is given, and their
values as they are read. -/
def seen : List Arg → List Arg
  | [] => []
  | arg :: args =>
    match getIdent arg.key with
    | none => seen args
    | some key =>
      if (lastArg args key).isSome then seen args
      else ⟨arg.key, some (seenExpr key arg.expr)⟩ :: seen args

/-! ## The map -/

variable {args : List Arg} {key : Ident}

theorem getIdent_eq_some {path : Path} : getIdent path = some key ↔ path = identPath key := by
  constructor
  · intro h
    unfold getIdent at h
    split at h
    · rename_i segment hcolon hsegments
      split at h
      · rename_i harguments
        obtain ⟨leadingColon, segments, nonempty⟩ := path
        obtain ⟨ident, arguments⟩ := segment
        cases hcolon
        cases hsegments
        cases harguments
        cases h
        rfl
      · cases h
    · cases h
  · rintro rfl
    rfl

/-- The map has the last value of each key. -/
theorem lookup_elements (args : List Arg) (key : Ident) :
    (elements args).lookup key = (lastArg args key).map Arg.expr := by
  have hloop : ∀ start : AList fun _ : Ident => Expr,
      (args.foldl (fun elements arg =>
        match getIdent arg.key with
        | some ident => elements.insert ident arg.expr
        | none => elements) start).lookup key =
      ((lastArg args key).map Arg.expr).or (start.lookup key) := by
    induction args with
    | nil => intro start; rfl
    | cons arg args ih =>
      intro start
      rw [List.foldl_cons, ih, lastArg]
      cases hlast : lastArg args key with
      | some last => rfl
      | none =>
        cases hident : getIdent arg.key with
        | none => rfl
        | some ident =>
          by_cases hkey : ident = key
          · subst hkey
            simp
          · simp [hkey, AList.lookup_insert_ne (Ne.symm hkey)]
  rw [elements, hloop, AList.lookup_empty, Option.or_none]

theorem ensureSupported_ok_iff {supported : List Ident} :
    ensureSupported (elements args) supported = .ok () ↔
      ∀ key, (lastArg args key).isSome → key ∈ supported := by
  have hmem : ∀ key, (lastArg args key).isSome ↔ key ∈ (elements args).keys := by
    intro key
    rw [← AList.mem_keys, ← AList.lookup_isSome, lookup_elements, Option.isSome_map]
  simp only [hmem]
  unfold ensureSupported
  constructor
  · intro h
    split at h
    · cases h
    · rename_i hnone
      intro key hkey
      simpa using List.find?_eq_none.mp hnone key hkey
  · intro h
    rw [List.find?_eq_none.mpr fun key hkey => by simpa using h key hkey]

/-! ## What is seen -/

/-- Each key that occurs is seen with its last value. -/
theorem mem_seen {arg : Arg} :
    arg ∈ seen args ↔ ∃ key last, lastArg args key = some last ∧
      arg = ⟨identPath key, some (seenExpr key last.expr)⟩ := by
  induction args with
  | nil => simp [seen, lastArg]
  | cons a args ih =>
    have hcons : ∀ key, lastArg (a :: args) key =
        (lastArg args key).or (if getIdent a.key = some key then some a else none) := fun _ => rfl
    rw [seen]
    simp only [hcons]
    cases hident : getIdent a.key with
    | none =>
      simp only [reduceCtorEq, if_false, Option.or_none]
      exact ih
    | some ident =>
      have hkey := getIdent_eq_some.mp hident
      cases hlast : lastArg args ident with
      | some last =>
        simp only [hlast, Option.isSome_some, if_true]
        rw [ih]
        refine exists_congr fun key => exists_congr fun last' => and_congr_left fun _ => ?_
        by_cases hne : ident = key
        · subst hne
          rw [hlast]
          rfl
        · rw [if_neg fun h => hne (Option.some.inj h), Option.or_none]
      | none =>
        simp only [hlast, Option.isSome_none, Bool.false_eq_true, if_false, List.mem_cons]
        rw [ih]
        constructor
        · rintro (rfl | ⟨key, last, hl, rfl⟩)
          · refine ⟨ident, a, ?_, by rw [hkey]⟩
            rw [hlast, if_pos rfl]
            rfl
          · exact ⟨key, last, by rw [hl]; rfl, rfl⟩
        · rintro ⟨key, last, hl, rfl⟩
          rcases Option.or_eq_some_iff.mp hl with hl | ⟨-, hl⟩
          · exact .inr ⟨key, last, hl, rfl⟩
          · split at hl
            · rename_i heq
              cases hl
              cases heq
              exact .inl (by rw [hkey])
            · cases hl

theorem identPath_injective : Function.Injective identPath := by
  intro a b h
  cases h
  rfl

theorem seen_nodup (args : List Arg) : ((seen args).map (·.key)).Nodup := by
  induction args with
  | nil => exact List.nodup_nil
  | cons a args ih =>
    unfold seen
    split
    · exact ih
    · rename_i key hident
      split
      · exact ih
      · rename_i hlast
        refine List.nodup_cons.mpr ⟨fun hmem => ?_, ih⟩
        obtain ⟨arg, harg, hkey⟩ := List.mem_map.mp hmem
        obtain ⟨key', last, hl, rfl⟩ := mem_seen.mp harg
        obtain rfl := identPath_injective (hkey.trans (getIdent_eq_some.mp hident))
        rw [hl] at hlast
        exact hlast rfl

theorem mem_seen_key {e : Expr} :
    ⟨identPath key, some e⟩ ∈ seen args ↔
      ∃ last, lastArg args key = some last ∧ e = seenExpr key last.expr := by
  rw [mem_seen]
  constructor
  · rintro ⟨key', last, hl, heq⟩
    obtain ⟨hkey, he⟩ := Arg.mk.inj heq
    obtain rfl := identPath_injective hkey
    exact ⟨last, hl, Option.some.inj he⟩
  · rintro ⟨last, hl, rfl⟩
    exact ⟨key, last, hl, rfl⟩

/-- An accessor returns what the list that is seen gives. -/
theorem take_ok_iff {α : Type} {read : Expr → Except String α} {is : Expr → α → Prop}
    (hread : ∀ e a, read e = .ok a ↔ is (seenExpr key e) a) {value : Option α} :
    take (elements args) key read = .ok value ↔ Gives (seen args) key is value := by
  unfold take
  rw [lookup_elements]
  cases hlast : lastArg args key with
  | none =>
    rw [Option.map_none]
    cases value with
    | none =>
      refine iff_of_true rfl fun arg harg hkey => ?_
      obtain ⟨key', last, hl, rfl⟩ := mem_seen.mp harg
      obtain rfl := identPath_injective hkey
      rw [hlast] at hl
      cases hl
    | some a =>
      refine iff_of_false (by rintro ⟨⟩) ?_
      rintro ⟨e, he, -⟩
      obtain ⟨last, hl, -⟩ := mem_seen_key.mp he
      rw [hlast] at hl
      cases hl
  | some last =>
    rw [Option.map_some]
    show (read last.expr).map some = .ok value ↔ _
    rw [map_eq_ok]
    constructor
    · rintro ⟨a, ha, rfl⟩
      exact ⟨_, mem_seen_key.mpr ⟨last, hlast, rfl⟩, (hread _ _).mp ha⟩
    · intro h
      cases value with
      | none => exact absurd rfl (h _ (mem_seen_key.mpr ⟨last, hlast, rfl⟩))
      | some a =>
        obtain ⟨e, he, his⟩ := h
        obtain ⟨last', hl, rfl⟩ := mem_seen_key.mp he
        rw [hlast] at hl
        cases hl
        exact ⟨a, (hread _ _).mpr his, rfl⟩

/-! ## The values -/

theorem identExpr_injective : Function.Injective identExpr := by
  intro a b h
  cases h
  rfl

theorem seenPath_eq_identExpr {path : TypePath} {ident : Ident} :
    seenPath path = identExpr ident ↔ pathIdent path = some ident := by
  unfold seenPath
  cases hident : pathIdent path with
  | none =>
    refine iff_of_false ?_ (by rintro ⟨⟩)
    rintro rfl
    cases hident
  | some j =>
    refine Iff.trans ?_ (Option.some_inj (a := j) (b := ident)).symm
    exact identExpr_injective.eq_iff

theorem readIdent_ok_iff (hkey : key ≠ "init") (e : Expr) (ident : Ident) :
    readIdent key e = .ok ident ↔ IsIdent (seenExpr key e) ident := by
  unfold IsIdent
  cases e with
  | int value suffix | array elems | other tokens =>
    exact iff_of_false (by rintro ⟨⟩) (by rintro ⟨⟩)
  | path path =>
    rw [seenExpr, if_neg hkey, Expr.path.injEq, seenPath_eq_identExpr, readIdent]
    cases pathIdent path with
    | none => exact iff_of_false (by rintro ⟨⟩) (by rintro ⟨⟩)
    | some j => simp

theorem readInt_ok_iff (bound : Nat) (e : Expr) (n : Nat) :
    readInt key bound e = .ok n ↔ IsInt bound (seenExpr key e) n := by
  unfold IsInt
  cases e with
  | int value suffix =>
    show (if value < bound then _ else _) = _ ↔ n < bound ∧ ∃ s, Expr.int value suffix = .int n s
    split
    · rename_i hlt
      constructor
      · rintro ⟨⟩
        exact ⟨hlt, suffix, rfl⟩
      · rintro ⟨-, suffix', heq⟩
        rw [(Expr.int.inj heq).1]
    · rename_i hge
      refine iff_of_false (by rintro ⟨⟩) ?_
      rintro ⟨hlt, suffix', heq⟩
      exact hge ((Expr.int.inj heq).1 ▸ hlt)
  | path path =>
    refine iff_of_false (by rintro ⟨⟩) ?_
    rintro ⟨-, suffix, heq⟩
    rw [seenExpr] at heq
    split at heq <;> cases heq
  | array elems | other tokens =>
    refine iff_of_false (by rintro ⟨⟩) ?_
    rintro ⟨-, suffix, ⟨⟩⟩

theorem readElem_ok_iff (elem : TypePath ⊕ String) (ident : Ident) :
    readElem key elem = .ok ident ↔ Sum.map seenPath id elem = .inl (identExpr ident) := by
  cases elem with
  | inr tokens => exact iff_of_false (by rintro ⟨⟩) (by rintro ⟨⟩)
  | inl path =>
    rw [Sum.map_inl, Sum.inl.injEq, seenPath_eq_identExpr, readElem]
    cases pathIdent path with
    | none => exact iff_of_false (by rintro ⟨⟩) (by rintro ⟨⟩)
    | some j => simp

theorem mapM_readElem_ok_iff (elems : List (TypePath ⊕ String)) (idents : List Ident) :
    elems.mapM (readElem key) = .ok idents ↔
      elems.map (Sum.map seenPath id) = idents.map fun ident => .inl (identExpr ident) := by
  induction elems generalizing idents with
  | nil => cases idents <;> simp [pure, Except.pure]
  | cons elem elems ih =>
    rw [List.mapM_cons, bind_eq_ok]
    constructor
    · rintro ⟨ident, helem, h⟩
      obtain ⟨rest, hrest, h⟩ := bind_eq_ok.mp h
      cases h
      rw [List.map_cons, List.map_cons, (readElem_ok_iff elem ident).mp helem, (ih rest).mp hrest]
    · intro h
      cases idents with
      | nil => cases h
      | cons ident idents =>
        rw [List.map_cons, List.map_cons, List.cons.injEq] at h
        refine ⟨ident, (readElem_ok_iff elem ident).mpr h.1, ?_⟩
        exact bind_eq_ok.mpr ⟨idents, (ih idents).mpr h.2, rfl⟩

theorem readIdentArray_ok_iff (e : Expr) (idents : List Ident) :
    readIdentArray key e = .ok idents ↔ IsIdentArray (seenExpr key e) idents := by
  unfold IsIdentArray
  cases e with
  | array elems =>
    rw [readIdentArray, seenExpr, Expr.array.injEq]
    exact mapM_readElem_ok_iff elems idents
  | path path =>
    refine iff_of_false (by rintro ⟨⟩) ?_
    rw [seenExpr]
    split <;> rintro ⟨⟩
  | int value suffix | other tokens => exact iff_of_false (by rintro ⟨⟩) (by rintro ⟨⟩)

/-- A qualified path is not one identifier. -/
theorem eq_identExpr {path : TypePath} (h : path.path = identPath key) :
    path = identExpr key := by
  cases path with
  | mk qself path qualified =>
    cases h
    cases qself with
    | none => rfl
    | some ty =>
      rcases qualified rfl with hcolon | hlen
      · cases hcolon
      · exact absurd hlen (by simp)

/-- Here the generic arguments are looked at. -/
theorem readInit_ok_iff (e : Expr) (u : Unit) :
    readInit e = .ok u ↔ IsGenerated (seenExpr "init" e) u := by
  unfold IsGenerated IsIdent
  cases e with
  | int value suffix | array elems | other tokens =>
    exact iff_of_false (by rintro ⟨⟩) (by rintro ⟨⟩)
  | path path =>
    rw [readInit, seenExpr, if_pos rfl, Expr.path.injEq]
    constructor
    · intro h
      split at h
      · exact eq_identExpr (getIdent_eq_some.mp ‹_›)
      · cases h
    · intro h
      rw [if_pos (getIdent_eq_some.mpr (congrArg TypePath.path h))]

/-! ## What is parsed -/

/-- **The parser returns what the list that it sees denotes.** -/
theorem parse_ok_iff {t : TaskArgs} :
    parse args = .ok t ↔
      (∀ key, (lastArg args key).isSome → key ∈ taskArgsSupported) ∧ Denotes (seen args) t := by
  have hident : ∀ {key v}, key ≠ "init" → (takeIdent (elements args) key = .ok v ↔
      Gives (seen args) key IsIdent v) := fun hkey => take_ok_iff (readIdent_ok_iff hkey)
  have hint : ∀ {key bound v}, takeInt (elements args) key bound = .ok v ↔
      Gives (seen args) key (IsInt bound) v := take_ok_iff (readInt_ok_iff _)
  have harray : ∀ {key v}, takeIdentArray (elements args) key = .ok v ↔
      Gives (seen args) key IsIdentArray v := take_ok_iff readIdentArray_ok_iff
  have hinit : ∀ {v}, take (elements args) "init" readInit = .ok v ↔
      Gives (seen args) "init" IsGenerated v := take_ok_iff readInit_ok_iff
  unfold parse
  constructor
  · intro h
    obtain ⟨_, hsupported, h⟩ := bind_eq_ok.mp h
    obtain ⟨binds, hbinds, h⟩ := bind_eq_ok.mp h
    obtain ⟨priority, hpriority, h⟩ := bind_eq_ok.mp h
    obtain ⟨shared, hshared, h⟩ := bind_eq_ok.mp h
    obtain ⟨core, hcore, h⟩ := bind_eq_ok.mp h
    obtain ⟨taskTrait, htaskTrait, h⟩ := bind_eq_ok.mp h
    obtain ⟨init, hgenerated, h⟩ := bind_eq_ok.mp h
    cases h
    refine ⟨ensureSupported_ok_iff.mp hsupported, ?_⟩
    exact {
      binds := (hident (by decide)).mp hbinds
      priority := ⟨priority, hint.mp hpriority, rfl⟩
      shared := ⟨shared, harray.mp hshared, rfl⟩
      core := ⟨core, hint.mp hcore, rfl⟩
      taskTrait := ⟨taskTrait, (hident (by decide)).mp htaskTrait, rfl⟩
      initGenerated := ⟨init, hinit.mp hgenerated, rfl⟩ }
  · rintro ⟨hsupported, h⟩
    obtain ⟨priority, hpriority, hp⟩ := h.priority
    obtain ⟨shared, hshared, hs⟩ := h.shared
    obtain ⟨core, hcore, hc⟩ := h.core
    obtain ⟨taskTrait, htaskTrait, ht⟩ := h.taskTrait
    obtain ⟨init, hgenerated, hg⟩ := h.initGenerated
    refine bind_eq_ok.mpr ⟨(), ensureSupported_ok_iff.mpr hsupported, ?_⟩
    refine bind_eq_ok.mpr ⟨_, (hident (by decide)).mpr h.binds, ?_⟩
    refine bind_eq_ok.mpr ⟨_, hint.mpr hpriority, ?_⟩
    refine bind_eq_ok.mpr ⟨_, harray.mpr hshared, ?_⟩
    refine bind_eq_ok.mpr ⟨_, hint.mpr hcore, ?_⟩
    refine bind_eq_ok.mpr ⟨_, (hident (by decide)).mpr htaskTrait, ?_⟩
    refine bind_eq_ok.mpr ⟨_, hinit.mpr hgenerated, ?_⟩
    obtain ⟨b, p, s, c, tt, g⟩ := t
    cases hp
    cases hs
    cases hc
    cases ht
    cases hg
    rfl

/-- A key is given in some way, unless its last value has not its form. -/
theorem exists_gives {α : Type} (args : List Arg) (key : Ident) (is : Expr → α → Prop)
    (h : ∀ last, lastArg args key = some last → ∃ value, is (seenExpr key last.expr) value) :
    ∃ value, Gives (seen args) key is value := by
  cases hlast : lastArg args key with
  | none =>
    refine ⟨none, fun arg harg hkey => ?_⟩
    obtain ⟨key', last, hl, rfl⟩ := mem_seen.mp harg
    obtain rfl := identPath_injective hkey
    rw [hlast] at hl
    cases hl
  | some last =>
    obtain ⟨value, hvalue⟩ := h last hlast
    exact ⟨some value, _, mem_seen_key.mpr ⟨last, hlast, rfl⟩, hvalue⟩

theorem WellFormed.supported {e : Expr} (h : WellFormed key e) : key ∈ taskArgsSupported := by
  rcases h with ⟨rfl | rfl, -⟩ | ⟨rfl, -⟩ | ⟨rfl, -⟩ | ⟨rfl, -⟩ | ⟨rfl, -⟩ <;> decide

/-- What a good list that is seen denotes. -/
theorem Good.denotes (h : Good (seen args)) : ∃ t, Denotes (seen args) t := by
  have hform : ∀ {key last}, lastArg args key = some last →
      WellFormed key (seenExpr key last.expr) := by
    intro key last hlast
    obtain ⟨key', e, heq, hform⟩ := h.wellFormed _ (mem_seen_key.mpr ⟨last, hlast, rfl⟩)
    obtain ⟨hkey, he⟩ := Arg.mk.inj heq
    obtain rfl := identPath_injective hkey
    exact Option.some.inj he ▸ hform
  obtain ⟨binds, hbinds⟩ := exists_gives args "binds" IsIdent
    fun last hlast => by simpa [WellFormed] using hform hlast
  obtain ⟨priority, hpriority⟩ := exists_gives args "priority" (IsInt (2 ^ 16))
    fun last hlast => by simpa [WellFormed] using hform hlast
  obtain ⟨shared, hshared⟩ := exists_gives args "shared" IsIdentArray
    fun last hlast => by simpa [WellFormed] using hform hlast
  obtain ⟨core, hcore⟩ := exists_gives args "core" (IsInt (2 ^ 32))
    fun last hlast => by simpa [WellFormed] using hform hlast
  obtain ⟨taskTrait, htaskTrait⟩ := exists_gives args "task_trait" IsIdent
    fun last hlast => by simpa [WellFormed] using hform hlast
  obtain ⟨init, hinit⟩ := exists_gives args "init" IsGenerated
    fun last hlast => ⟨(), by simpa [WellFormed] using hform hlast⟩
  exact ⟨⟨binds, priority.getD defaultTaskPriority, shared.getD [], core.getD 0,
    taskTrait.getD hwtTraitTy, init.isSome⟩, {
      binds := hbinds
      priority := ⟨priority, hpriority, rfl⟩
      shared := ⟨shared, hshared, rfl⟩
      core := ⟨core, hcore, rfl⟩
      taskTrait := ⟨taskTrait, htaskTrait, rfl⟩
      initGenerated := ⟨init, hinit, rfl⟩ }⟩

theorem Gives.exists_value {α : Type} {is : Expr → α → Prop} {value : Option α} {last : Arg}
    (h : Gives (seen args) key is value) (hlast : lastArg args key = some last) :
    ∃ a, is (seenExpr key last.expr) a := by
  cases value with
  | none => exact absurd rfl (h _ (mem_seen_key.mpr ⟨last, hlast, rfl⟩))
  | some a =>
    obtain ⟨e, he, his⟩ := h
    obtain ⟨last', hl, rfl⟩ := mem_seen_key.mp he
    rw [hlast] at hl
    cases hl
    exact ⟨a, his⟩

/-- The parser accepts the lists of which it sees a good one. -/
theorem parse_ok_iff_good {t : TaskArgs} :
    parse args = .ok t ↔ Good (seen args) ∧ Denotes (seen args) t := by
  rw [parse_ok_iff]
  refine and_congr_left fun hdenotes => ⟨fun hsupported => ⟨?_, seen_nodup args⟩, ?_⟩
  · intro arg harg
    obtain ⟨key, last, hlast, rfl⟩ := mem_seen.mp harg
    refine ⟨key, _, rfl, ?_⟩
    have hkey := hsupported key (hlast ▸ rfl)
    unfold taskArgsSupported at hkey
    simp only [List.mem_cons, List.not_mem_nil, or_false] at hkey
    rcases hkey with rfl | rfl | rfl | rfl | rfl | rfl
    · exact .inl ⟨.inl rfl, hdenotes.binds.exists_value hlast⟩
    · obtain ⟨_, hgives, -⟩ := hdenotes.priority
      exact .inr (.inl ⟨rfl, hgives.exists_value hlast⟩)
    · obtain ⟨_, hgives, -⟩ := hdenotes.shared
      exact .inr (.inr (.inr (.inl ⟨rfl, hgives.exists_value hlast⟩)))
    · obtain ⟨_, hgives, -⟩ := hdenotes.core
      exact .inr (.inr (.inl ⟨rfl, hgives.exists_value hlast⟩))
    · obtain ⟨_, hgives, -⟩ := hdenotes.taskTrait
      exact .inl ⟨.inr rfl, hgives.exists_value hlast⟩
    · obtain ⟨_, hgives, -⟩ := hdenotes.initGenerated
      obtain ⟨_, hinit⟩ := hgives.exists_value hlast
      exact .inr (.inr (.inr (.inr ⟨rfl, hinit⟩)))
  · intro hgood key hkey
    obtain ⟨last, hlast⟩ := Option.isSome_iff_exists.mp hkey
    obtain ⟨key', e, heq, hform⟩ := hgood.wellFormed _ (mem_seen_key.mpr ⟨last, hlast, rfl⟩)
    obtain rfl := identPath_injective (Arg.mk.inj heq).1
    exact hform.supported

/-! ## The order of the arguments -/

variable {args' : List Arg} {t : TaskArgs}

theorem Good.perm (h : Good args) (hperm : args'.Perm args) : Good args' where
  wellFormed arg harg := h.wellFormed arg (hperm.mem_iff.mp harg)
  nodup := ((hperm.map _).nodup_iff).mpr h.nodup

theorem Gives.perm {α : Type} {is : Expr → α → Prop} {value : Option α}
    (h : Gives args key is value) (hperm : args'.Perm args) : Gives args' key is value := by
  cases value with
  | none => exact fun arg harg => h arg (hperm.mem_iff.mp harg)
  | some a =>
    obtain ⟨e, he, his⟩ := h
    exact ⟨e, hperm.mem_iff.mpr he, his⟩

theorem Denotes.perm (h : Denotes args t) (hperm : args'.Perm args) : Denotes args' t where
  binds := h.binds.perm hperm
  priority := h.priority.imp fun _ hv => ⟨hv.1.perm hperm, hv.2⟩
  shared := h.shared.imp fun _ hv => ⟨hv.1.perm hperm, hv.2⟩
  core := h.core.imp fun _ hv => ⟨hv.1.perm hperm, hv.2⟩
  taskTrait := h.taskTrait.imp fun _ hv => ⟨hv.1.perm hperm, hv.2⟩
  initGenerated := h.initGenerated.imp fun _ hv => ⟨hv.1.perm hperm, hv.2⟩

theorem seenPath_identExpr (ident : Ident) : seenPath (identExpr ident) = identExpr ident := rfl

/-- A value of its form is read as it is written. -/
theorem WellFormed.seenExpr_eq {e : Expr} (h : WellFormed key e) : seenExpr key e = e := by
  rcases h with ⟨-, ident, rfl⟩ | ⟨-, n, -, suffix, rfl⟩ | ⟨-, n, -, suffix, rfl⟩ |
    ⟨-, idents, rfl⟩ | ⟨rfl, rfl⟩
  · rw [seenExpr, seenPath_identExpr]
    split <;> rfl
  · rfl
  · rfl
  · rw [seenExpr, List.map_map]
    rfl
  · rfl

/-- Of a good list everything is seen. -/
theorem Good.seen_eq (h : Good args) : seen args = args := by
  induction args with
  | nil => rfl
  | cons arg args ih =>
    obtain ⟨key, e, rfl, hform⟩ := h.wellFormed arg List.mem_cons_self
    obtain ⟨hfresh, hnodup⟩ := List.nodup_cons.mp h.nodup
    have hlast : lastArg args key = none := by
      refine Option.eq_none_iff_forall_ne_some.mpr fun last hlast => hfresh ?_
      have hmem := mem_seen_key.mpr ⟨last, hlast, rfl⟩
      rw [ih ⟨fun a ha => h.wellFormed a (List.mem_cons_of_mem _ ha), hnodup⟩] at hmem
      exact List.mem_map.mpr ⟨_, hmem, rfl⟩
    rw [seen, show getIdent (identPath key) = some key from rfl]
    simp only [hlast, Option.isSome_none, Bool.false_eq_true, if_false]
    rw [ih ⟨fun a ha => h.wellFormed a (List.mem_cons_of_mem _ ha), hnodup⟩,
      show Arg.expr ⟨identPath key, some e⟩ = e from rfl, hform.seenExpr_eq]

/-! ## When no argument is ignored -/

/-- What is accepted is good and parsed as it says, in whatever order it is written, and everything
else is an error. -/
structure Exact (args : List Arg) : Prop where
  ok_iff : ∀ t, parse args = .ok t ↔ Good args ∧ Denotes args t
  accepts : Good args → ∃ t, parse args = .ok t
  order : ∀ t, parse args = .ok t → ∀ args' : List Arg, args'.Perm args → parse args' = .ok t

/-- A good list is parsed as it says. -/
theorem Good.parse_iff (h : Good args) : parse args = .ok t ↔ Denotes args t := by
  rw [parse_ok_iff_good, h.seen_eq]
  exact and_iff_right h

/--
**No argument is ignored exactly when what is seen of the list is the whole list, or is no good
list.**
-/
theorem exact_iff (args : List Arg) : Exact args ↔ (Good (seen args) → seen args = args) := by
  constructor
  · intro h hseen
    obtain ⟨t, ht⟩ := hseen.denotes
    exact ((h.ok_iff t).mp (parse_ok_iff_good.mpr ⟨hseen, ht⟩)).1.seen_eq
  · intro h
    have hok : ∀ t, parse args = .ok t ↔ Good args ∧ Denotes args t := by
      intro t
      constructor
      · intro hparse
        obtain ⟨hgood, hdenotes⟩ := parse_ok_iff_good.mp hparse
        have heq := h hgood
        rw [heq] at hgood hdenotes
        exact ⟨hgood, hdenotes⟩
      · rintro ⟨hgood, hdenotes⟩
        exact hgood.parse_iff.mpr hdenotes
    refine ⟨hok, fun hgood => ?_, fun t hparse args' hperm => ?_⟩
    · have hseen : Good (seen args) := hgood.seen_eq.symm ▸ hgood
      obtain ⟨t, ht⟩ := hseen.denotes
      exact ⟨t, parse_ok_iff_good.mpr ⟨hseen, ht⟩⟩
    · obtain ⟨hgood, hdenotes⟩ := (hok t).mp hparse
      exact (hgood.perm hperm).parse_iff.mpr (hdenotes.perm hperm)

def identArg (key : Ident) (e : Expr) : Arg := ⟨identPath key, some e⟩

/-- A key given twice, a key of two segments, and generic arguments of an interrupt. -/
theorem arguments_ignored :
    ¬ Exact [identArg "priority" (.int 2 ""), identArg "priority" (.int 7 "")] ∧
    ¬ Exact [⟨⟨false, [⟨"task", ""⟩, ⟨"priority", ""⟩], List.cons_ne_nil _ _⟩,
      some (.int 7 "")⟩] ∧
    ¬ Exact [identArg "binds"
      (.path { path := ⟨false, [⟨"UART", "::<u8>"⟩], List.cons_ne_nil _ _⟩ })] := by
  refine ⟨fun h => ?_, fun h => ?_, fun h => ?_⟩
  · have hgood := ((h.ok_iff ⟨none, 7, [], 0, hwtTraitTy, false⟩).mp rfl).1
    exact (List.nodup_cons.mp hgood.nodup).1 (List.mem_singleton_self _)
  · have hgood := ((h.ok_iff ⟨none, 1, [], 0, hwtTraitTy, false⟩).mp rfl).1
    obtain ⟨key, e, heq, -⟩ := hgood.wellFormed _ List.mem_cons_self
    have hlength : 2 = 1 := congrArg (fun arg : Arg => arg.key.segments.length) heq
    exact absurd hlength (by decide)
  · have hgood := ((h.ok_iff ⟨some "UART", 1, [], 0, hwtTraitTy, false⟩).mp rfl).1
    obtain ⟨key, e, heq, hform⟩ := hgood.wellFormed _ List.mem_cons_self
    obtain ⟨hkey, he⟩ := Arg.mk.inj heq
    obtain rfl := identPath_injective hkey
    obtain rfl := Option.some.inj he
    rcases hform with ⟨-, ident, hident⟩ | ⟨hkey, -⟩ | ⟨hkey, -⟩ | ⟨hkey, -⟩ | ⟨hkey, -⟩
    · have harguments : ["::<u8>"] = [""] := congrArg (fun path : TypePath =>
        path.path.segments.map PathSegment.arguments) (Expr.path.inj hident)
      exact absurd (List.cons.inj harguments).1 (by decide)
    all_goals exact absurd hkey (by decide)

/-! ## Expressions without generic arguments -/

/-- An expression as the passes exchange it. -/
def Expr.erase : Expr → Core.Expr
  | .int value _ => .int value
  | .path p =>
    match p.qself, p.path.leadingColon with
    | none, false => .path p.path.idents
    | _, _ => .other ""
  | .array elems => .array (elems.map fun
    | .inl p => pathIdent p
    | .inr _ => none)
  | .other tokens => .other tokens

/-- The tokens of the arguments that are looked at. -/
def tokens (args : List Arg) : List (Ident × Option Core.Expr) :=
  args.filterMap fun arg => (getIdent arg.key).map fun key => (key, some arg.expr.erase)

/-- The two maps have the same keys and values. -/
theorem elements_erase (args : List Arg) (name : Ident) :
    (RticAttr.parseFromTokens (tokens args) name).elements.keys = (elements args).keys ∧
      ∀ key, (RticAttr.parseFromTokens (tokens args) name).getExpr key =
        ((elements args).lookup key).map Expr.erase := by
  have hloop : ∀ (m : AList fun _ : Ident => Core.Expr) (m' : AList fun _ : Ident => Expr),
      m.keys = m'.keys → (∀ key, m.lookup key = (m'.lookup key).map Expr.erase) →
      let r := (tokens args).foldl
        (fun elements token => elements.insert token.1 (token.2.getD (.other "()"))) m
      let r' := args.foldl (fun elements arg =>
        match getIdent arg.key with
        | some ident => elements.insert ident arg.expr
        | none => elements) m'
      r.keys = r'.keys ∧ ∀ key, r.lookup key = (r'.lookup key).map Expr.erase := by
    induction args with
    | nil => exact fun m m' hkeys hlookup => ⟨hkeys, hlookup⟩
    | cons arg args ih =>
      intro m m' hkeys hlookup
      cases hident : getIdent arg.key with
      | none =>
        have htokens : tokens (arg :: args) = tokens args := by
          unfold tokens
          rw [List.filterMap_cons_none (by rw [hident]; rfl)]
        rw [htokens, List.foldl_cons]
        simp only [hident]
        exact ih m m' hkeys hlookup
      | some ident =>
        have htokens : tokens (arg :: args) = (ident, some arg.expr.erase) :: tokens args := by
          unfold tokens
          rw [List.filterMap_cons_some (by rw [hident]; rfl)]
        rw [htokens, List.foldl_cons, List.foldl_cons]
        simp only [hident]
        refine ih _ _ ?_ fun key => ?_
        · rw [AList.keys_insert, AList.keys_insert, hkeys]
        · by_cases hkey : key = ident
          · subst hkey
            rw [AList.lookup_insert, AList.lookup_insert]
            rfl
          · rw [AList.lookup_insert_ne hkey, AList.lookup_insert_ne hkey, hlookup]
  exact hloop ∅ ∅ rfl fun _ => rfl

section Erase

variable {attr : RticAttr} {elements : AList fun _ : Ident => Expr}

theorem takeIdent_erase (h : attr.getExpr key = (elements.lookup key).map Expr.erase) :
    attr.takeIdent key = takeIdent elements key := by
  unfold RticAttr.takeIdent takeIdent take
  rw [h]
  cases elements.lookup key with
  | none => rfl
  | some e =>
    cases e with
    | int value suffix | array elems | other tokens => rfl
    | path p =>
      cases p with
      | mk qself path qualified =>
        cases path with
        | mk leadingColon segments nonempty =>
          cases qself <;> cases leadingColon <;> try rfl
          match segments with
          | [] | [_] | _ :: _ :: _ => rfl

theorem erase_path (p : TypePath) :
    (Expr.path p).erase = .path p.path.idents ∨ (Expr.path p).erase = .other "" := by
  rw [Expr.erase]
  split
  · exact .inl rfl
  · exact .inr rfl

theorem takeInt_erase (bound : Nat) (h : attr.getExpr key = (elements.lookup key).map Expr.erase) :
    attr.takeInt key bound = takeInt elements key bound := by
  unfold RticAttr.takeInt takeInt take
  rw [h]
  cases elements.lookup key with
  | none => rfl
  | some e =>
    rw [Option.map_some]
    cases e with
    | int value suffix =>
      show (if value < bound then _ else _) = Except.map some (if value < bound then _ else _)
      split <;> rfl
    | array elems | other tokens => rfl
    | path p => rcases erase_path p with heq | heq <;> rw [heq] <;> rfl

theorem takeIdentArray_erase (h : attr.getExpr key = (elements.lookup key).map Expr.erase) :
    attr.takeIdentArray key = takeIdentArray elements key := by
  unfold RticAttr.takeIdentArray takeIdentArray take
  rw [h]
  cases elements.lookup key with
  | none => rfl
  | some e =>
    rw [Option.map_some]
    cases e with
    | int value suffix | other tokens => rfl
    | path p => rcases erase_path p with heq | heq <;> rw [heq] <;> rfl
    | array elems =>
      show ((elems.map _).mapM (RticAttr.takeElem key)).map some =
        (elems.mapM (readElem key)).map some
      rw [List.mapM_map]
      refine congrArg (fun f : TypePath ⊕ String → Except String Ident => (elems.mapM f).map some)
        (funext fun elem => ?_)
      cases elem with
      | inr tokens => rfl
      | inl p =>
        show RticAttr.takeElem key (pathIdent p) = readElem key (.inl p)
        rw [readElem]
        cases pathIdent p <;> rfl

theorem getIdent_of_erase {p : TypePath} (h : (Expr.path p).erase = .path [key])
    (hplain : ∀ segment ∈ p.path.segments, segment.arguments = "") :
    getIdent p.path = some key := by
  rw [Expr.erase] at h
  split at h
  · rename_i hcolon
    have hidents : p.path.segments.map (·.ident) = [key] := Core.Expr.path.inj h
    obtain ⟨segment, hsegments, hident⟩ := List.map_eq_singleton_iff.mp hidents
    have harguments := hplain segment (hsegments ▸ List.mem_cons_self)
    unfold getIdent
    rw [hcolon, hsegments]
    show (if segment.arguments = "" then some segment.ident else none) = _
    rw [if_pos harguments, hident]
  · cases h

/-- The one accessor that looks at generic arguments. -/
theorem takeInit_erase (h : attr.getExpr "init" = (elements.lookup "init").map Expr.erase)
    (hplain : ∀ p, elements.lookup "init" = some (.path p) →
      ∀ segment ∈ p.path.segments, segment.arguments = "") :
    takeInitGenerated attr = (take elements "init" readInit).map (·.isSome) := by
  unfold takeInitGenerated take
  rw [h]
  cases hlookup : elements.lookup "init" with
  | none => rfl
  | some e =>
    rw [Option.map_some]
    cases e with
    | int value suffix | array elems | other tokens => rfl
    | path p =>
      by_cases hgenerated : getIdent p.path = some "generated"
      · rw [eq_identExpr (getIdent_eq_some.mp hgenerated)]
        rfl
      · have hright : readInit (.path p) = .error "expected `init = generated`" := if_neg hgenerated
        show _ = ((readInit (.path p)).map some).map (·.isSome)
        rw [hright]
        have hne : (Expr.path p).erase ≠ .path ["generated"] :=
          fun heq => hgenerated (getIdent_of_erase heq (hplain p hlookup))
        split
        · rename_i heq
          cases heq
        · rename_i heq
          exact absurd (Option.some.inj heq) hne
        · rfl

end Erase

theorem map_bind {α β γ : Type} (x : Except String α) (f : α → β) (g : β → Except String γ) :
    (x.map f >>= g) = x >>= fun a => g (f a) := by
  cases x <;> rfl

/-- **The arguments are read as the attribute that the passes exchange**, unless `init` is given
generic arguments. -/
theorem parse_eq_fromAttr (args : List Arg) (name : Ident)
    (hplain : ∀ p, (elements args).lookup "init" = some (.path p) →
      ∀ segment ∈ p.path.segments, segment.arguments = "") :
    parse args = TaskArgs.fromAttr (RticAttr.parseFromTokens (tokens args) name) := by
  obtain ⟨hkeys, hlookup⟩ := elements_erase args name
  unfold parse TaskArgs.fromAttr
  rw [takeIdent_erase (hlookup "binds"), takeInt_erase _ (hlookup "priority"),
    takeIdentArray_erase (hlookup "shared"), takeInt_erase _ (hlookup "core"),
    takeIdent_erase (hlookup "task_trait"), takeInit_erase (hlookup "init") hplain,
    RticAttr.ensureSupported, hkeys]
  simp only [map_bind]
  rfl

end Rticx.Core.Written
