import Mathlib.Algebra.Order.Ring.Nat
import Mathlib.Data.Nat.Cast.Order.Basic
import Rticx.Core.Conservation

/-!
# Second implementations of a trait

The `Item::Impl` branch of `App::parse` with the paths as they are written. Implementations are
grouped by the last identifier of the type and compared by that of the trait; neither the segments
before it nor the generic arguments are looked at.
-/

namespace Rticx.Core.Source

open Rticx.Core Rticx.Lib.Except

/-! ## Paths -/

/-- `syn::PathSegment`, with its arguments as tokens. -/
structure PathSegment where
  ident : Ident
  arguments : String := ""
  deriving DecidableEq

/-- `syn::Path` -/
structure Path where
  leadingColon : Bool := false
  segments : List PathSegment
  nonempty : segments ≠ []
  deriving DecidableEq

/-- `syn::TypePath` -/
structure TypePath where
  /-- what stands between `<` and `>` in front of the path -/
  qself : Option String := none
  path : Path
  /-- `<T>::A` has a leading colon, and `<T as A>::B` two segments -/
  qualified : qself.isSome → path.leadingColon = true ∨ 2 ≤ path.segments.length := by simp
  deriving DecidableEq

/-- `syn::ItemImpl` -/
structure ImplBlock where
  /-- the path of the trait, and whether a `!` stands in front of it -/
  trait : Option (Bool × Path)
  /-- the type, when it is a path -/
  selfTy : Option TypePath
  tokens : String
  deriving DecidableEq

def Path.idents (path : Path) : List Ident := path.segments.map (·.ident)

def Path.lastIdent (path : Path) : Ident := (path.segments.getLast path.nonempty).ident

/-- The names that the parser reads. -/
def ImplBlock.item (block : ImplBlock) : ItemImpl where
  traitPath := block.trait.map fun trait => trait.2.idents
  selfTy := block.selfTy.map fun ty => ty.path.idents
  tokens := block.tokens

/-- An item of the module. -/
inductive WrittenItem where
  | fn (function : ItemFn)
  | strct (strct : ItemStruct)
  | impl (block : ImplBlock)
  | use (item : OtherItem)
  | other (item : OtherItem)
  deriving DecidableEq

def WrittenItem.item : WrittenItem → ModuleItem
  | .fn function => .fn function
  | .strct itemStruct => .strct itemStruct
  | .impl block => .impl block.item
  | .use item => .use item
  | .other item => .other item

def WrittenItem.block? : WrittenItem → Option ImplBlock
  | .impl block => some block
  | _ => none

/-- The implementations of the module. -/
def implBlocks (items : List WrittenItem) : List ImplBlock := items.filterMap WrittenItem.block?

/-! ## Duplicates -/

/-- Two elements at different places are related. -/
def Twice {α : Type*} (R : α → α → Prop) (l : List α) : Prop := ∃ a b, [a, b].Sublist l ∧ R a b

/-- One trait is implemented for one type, both with the same path and generic arguments. -/
def ImplBlock.Same (b b' : ImplBlock) : Prop :=
  b.trait.isSome ∧ b.selfTy.isSome ∧ b.trait = b'.trait ∧ b.selfTy = b'.selfTy

instance (b b' : ImplBlock) : Decidable (b.Same b') := inferInstanceAs (Decidable (_ ∧ _ ∧ _ ∧ _))

/-- The last identifiers of the trait and of the type. -/
def ImplBlock.names (block : ImplBlock) : Option (Ident × Ident) :=
  match block.trait, block.selfTy with
  | some trait, some ty => some (trait.2.lastIdent, ty.path.lastIdent)
  | _, _ => none

def ImplBlock.SameNames (b b' : ImplBlock) : Prop := b.names.isSome ∧ b.names = b'.names

/-- The error of `App::parse` for second implementations. -/
def duplicateError (items : List WrittenItem) : Option String :=
  match Core.App.checkImpls
      ((items.map fun item => item.item.sort).filterMap Sorted.implName?) with
  | .error e => some e
  | .ok () => none

/-- `App::parse` fails with that error. -/
def ReportsDuplicate (args : AppArgs) (items : List WrittenItem) : Prop :=
  ∃ e, duplicateError items = some e ∧ App.parse args (items.map WrittenItem.item) = .error e

section Twice

variable {α β : Type*} {R S : α → α → Prop} {l : List α}

theorem Twice.mono (hRS : ∀ a b, R a b → S a b) : Twice R l → Twice S l := by
  rintro ⟨a, b, hsub, hR⟩
  exact ⟨a, b, hsub, hRS a b hR⟩

theorem not_twice_iff : ¬ Twice R l ↔ l.Pairwise fun a b => ¬ R a b := by
  rw [List.pairwise_iff_forall_sublist]
  constructor
  · intro h a b hsub hR
    exact h ⟨a, b, hsub, hR⟩
  · rintro h ⟨a, b, hsub, hR⟩
    exact h hsub hR

/-- Two elements have the same value when the values have a duplicate. -/
theorem nodup_filterMap_iff {f : α → Option β} :
    (l.filterMap f).Nodup ↔ ¬ Twice (fun a b => (f a).isSome ∧ f a = f b) l := by
  rw [not_twice_iff, List.Nodup, List.pairwise_filterMap]
  refine List.Pairwise.iff fun a b => ?_
  constructor
  · rintro h ⟨hsome, heq⟩
    obtain ⟨c, hc⟩ := Option.isSome_iff_exists.mp hsome
    exact h c hc c (heq ▸ hc) rfl
  · rintro h c hc d hd rfl
    exact h ⟨by rw [hc]; rfl, hc.trans hd.symm⟩

end Twice

/-! ## What the check compares -/

variable {args : AppArgs} {items : List WrittenItem}

theorem Path.getLast?_idents (path : Path) : path.idents.getLast? = some path.lastIdent := by
  unfold Path.idents Path.lastIdent
  rw [List.getLast?_map, List.getLast?_eq_some_getLast path.nonempty]
  rfl

/-- What is captured of an implementation. -/
theorem names_sort (block : ImplBlock) :
    ((ModuleItem.impl block.item).sort.implName?).bind implPair? = block.names := by
  obtain ⟨trait, selfTy, tokens⟩ := block
  cases trait with
  | none => rfl
  | some trait =>
    cases selfTy with
    | none =>
      obtain ⟨negative, leadingColon, segments, nonempty⟩ := trait
      cases segments <;> rfl
    | some ty =>
      have htrait := trait.2.getLast?_idents
      have hty := ty.path.getLast?_idents
      obtain ⟨segment, segments, hsegments⟩ := List.exists_cons_of_ne_nil trait.2.nonempty
      have hcapture : captureTraitImpl (ImplBlock.item ⟨some trait, some ty, tokens⟩) =
          some ty.path.lastIdent := by
        simp only [captureTraitImpl, ImplBlock.item, Option.map_some, Path.idents, hsegments,
          List.map_cons]
        exact hty
      have hstr : implTraitStr (ImplBlock.item ⟨some trait, some ty, tokens⟩) =
          some trait.2.lastIdent := htrait
      simp only [ModuleItem.sort, hcapture, Sorted.implName?, hstr]
      rfl

/-- The names that the check compares are those of the implementations. -/
theorem implPairs_eq (items : List WrittenItem) :
    ((items.map fun item => item.item.sort).filterMap Sorted.implName?).filterMap implPair? =
      (implBlocks items).filterMap ImplBlock.names := by
  unfold implBlocks
  rw [List.filterMap_filterMap, List.filterMap_map, List.filterMap_filterMap]
  refine congrArg (List.filterMap · items) (funext fun item => ?_)
  cases item with
  | impl block => exact names_sort block
  | fn function =>
    show ((sortFn function).implName?).bind implPair? = none
    unfold sortFn
    split
    · rfl
    · split <;> rfl
  | strct itemStruct =>
    show ((sortStruct itemStruct).implName?).bind implPair? = none
    unfold sortStruct
    split
    · rfl
    · split
      · rfl
      · split <;> rfl
  | use item | other item => rfl

theorem duplicateImpl_of_nodup {seen : List (Ident × Ident)} {items : List Item}
    (hnodup : (items.filterMap implPair?).Nodup)
    (hfresh : ∀ name ∈ items.filterMap implPair?, name ∉ seen) :
    Core.App.duplicateImpl seen items = none := by
  induction items generalizing seen with
  | nil => rfl
  | cons item items ih =>
    cases item with
    | impl traitTy implementor =>
      rw [show (Item.impl traitTy implementor :: items).filterMap implPair? =
        (traitTy, implementor) :: items.filterMap implPair? from rfl] at hnodup hfresh
      obtain ⟨hnot, hnodup⟩ := List.nodup_cons.mp hnodup
      rw [Core.App.duplicateImpl, Option.or_eq_none_iff]
      refine ⟨ih hnodup fun name hname hmem => ?_, if_neg (hfresh _ List.mem_cons_self)⟩
      rcases List.mem_cons.mp hmem with rfl | hmem
      · exact hnot hname
      · exact hfresh name (List.mem_cons_of_mem _ hname) hmem
    | init ident core | postInit ident core | task strct attr | idle strct attr
    | shared strct core fields => exact ih hnodup hfresh

/-- An error exactly when two implementations have the same names. -/
theorem duplicateError_isSome_iff :
    (duplicateError items).isSome ↔ Twice ImplBlock.SameNames (implBlocks items) := by
  rw [← not_iff_not]
  refine Iff.trans ?_ (nodup_filterMap_iff (f := ImplBlock.names))
  rw [← implPairs_eq]
  unfold duplicateError Core.App.checkImpls
  constructor
  · intro h
    split at h
    · exact absurd rfl h
    · rename_i hok
      split at hok
      · cases hok
      · exact (duplicateImpl_none ‹_›).1
  · intro h
    rw [duplicateImpl_of_nodup h fun _ _ => List.not_mem_nil]
    exact Bool.false_ne_true

/-- The check comes first. -/
theorem reportsDuplicate_iff : ReportsDuplicate args items ↔ (duplicateError items).isSome := by
  rw [Option.isSome_iff_exists]
  refine exists_congr fun e => ⟨fun h => h.1, fun h => ⟨h, ?_⟩⟩
  unfold duplicateError at h
  split at h
  · rename_i e' herr
    cases h
    unfold App.parse
    rw [List.map_map]
    show (Core.App.checkImpls _ >>= _) = _
    rw [show ModuleItem.sort ∘ WrittenItem.item = fun item => item.item.sort from rfl, herr]
    rfl
  · cases h

/-! ## When only real duplicates are rejected -/

theorem ImplBlock.Same.sameNames {b b' : ImplBlock} (h : b.Same b') : b.SameNames b' := by
  obtain ⟨htrait, hty, htraits, htys⟩ := h
  unfold ImplBlock.SameNames ImplBlock.names
  rw [← htraits, ← htys]
  obtain ⟨trait, htrait⟩ := Option.isSome_iff_exists.mp htrait
  obtain ⟨ty, hty⟩ := Option.isSome_iff_exists.mp hty
  rw [htrait, hty]
  exact ⟨rfl, rfl⟩

/--
**Only real duplicates are rejected exactly when there is one, or no two implementations agree in
the last identifiers of their paths.** A real duplicate is never missed.
-/
theorem only_duplicates_rejected_iff :
    (ReportsDuplicate args items ↔ Twice ImplBlock.Same (implBlocks items)) ↔
      (Twice ImplBlock.SameNames (implBlocks items) →
        Twice ImplBlock.Same (implBlocks items)) := by
  rw [reportsDuplicate_iff, duplicateError_isSome_iff]
  exact ⟨fun h => h.mp, fun h => ⟨h, Twice.mono fun _ _ => ImplBlock.Same.sameNames⟩⟩

/-- `impl From<#arg> for Foo` -/
def fromImpl (arguments : String) : ImplBlock where
  trait := some (false, { segments := [⟨"From", arguments⟩], nonempty := List.cons_ne_nil _ _ })
  selfTy := some { path := { segments := [⟨"Foo", ""⟩], nonempty := List.cons_ne_nil _ _ } }
  tokens := ""

def fromItems (arguments0 arguments1 : String) : List WrittenItem := [
  .fn { ident := "init", attrs := [⟨["init"], .path⟩], tokens := "" },
  .impl (fromImpl arguments0),
  .impl (fromImpl arguments1)]

/-- Two instances of a generic trait are rejected. -/
theorem generic_trait_rejected :
    ReportsDuplicate ⟨["mypac"], 1⟩ (fromItems "<u8>" "<u16>") ∧
      ¬ Twice ImplBlock.Same (implBlocks (fromItems "<u8>" "<u16>")) :=
  ⟨reportsDuplicate_iff.mpr (by decide +kernel), not_twice_iff.mpr (by decide +kernel)⟩

end Rticx.Core.Source
