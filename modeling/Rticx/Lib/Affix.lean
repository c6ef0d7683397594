import Mathlib.Data.List.Nodup
import Rticx.Lib.Decimal

/-!
# Names between two fixed texts

A name that a generator makes of another one: `affix pre post x`. The names of one scheme are told
apart by what they are made of; those of two schemes by the first or the last character of the fixed
texts, or by a character that the names of the other scheme do not have.
-/

namespace Rticx.Lib

/-- A text between two fixed ones. -/
def affix (pre post x : String) : String := pre ++ x ++ post

variable {pre post pre' post' x y : String} {c d : Char}

theorem toList_affix (pre post x : String) :
    (affix pre post x).toList = pre.toList ++ (x.toList ++ post.toList) := by
  simp [affix, String.toList_append]

theorem affix_injective (pre post : String) : Function.Injective (affix pre post) := by
  intro x y h
  have hlist := congrArg String.toList h
  rw [toList_affix, toList_affix] at hlist
  exact String.toList_inj.mp (List.append_cancel_right (List.append_cancel_left hlist))

/-- Two schemes whose names end in different characters. -/
theorem affix_ne_of_post (hc : post.toList.getLast? = some c) (hd : post'.toList.getLast? = some d)
    (hne : c ≠ d) : affix pre post x ≠ affix pre' post' y := by
  intro h
  have hlast := congrArg (fun s => s.toList.getLast?) h
  simp only [toList_affix, List.getLast?_append, hc, hd, Option.some_or, Option.some.injEq] at hlast
  exact hne hlast

/-- A name of the scheme begins as the scheme says. -/
theorem head_affix (hc : pre.toList.head? = some c) :
    (affix pre post x).toList.head? = some c := by
  rw [toList_affix, List.head?_append, hc, Option.some_or]

theorem affix_ne_of_head (hc : pre.toList.head? = some c) (hd : y.toList.head? = some d)
    (hne : c ≠ d) : affix pre post x ≠ y := by
  rintro rfl
  rw [head_affix hc] at hd
  exact hne (Option.some.inj hd)

theorem mem_affix (hc : c ∈ post.toList) : c ∈ (affix pre post x).toList := by
  rw [toList_affix]
  exact List.mem_append_right _ (List.mem_append_right _ hc)

/-- A scheme with a number in it. -/
theorem affix_toString_injective (pre post : String) :
    Function.Injective fun n : Nat => affix pre post (toString n) := by
  intro m n h
  have hlist := congrArg String.toList (affix_injective pre post h)
  have hdigits : ∀ k : Nat, (toString k).toList = Nat.toDigits 10 k := fun _ => Nat.toList_repr
  rw [hdigits, hdigits] at hlist
  exact Decimal.toDigits_injective hlist

end Rticx.Lib
