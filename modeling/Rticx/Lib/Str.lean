import Mathlib.Data.List.Basic

/-!
# Ends of strings

`strip_suffix`, `split_once` and `trim_end_matches`, on the characters.
-/

namespace Rticx.Lib.Str

/-- `strip_suffix` -/
def stripSuffix (suffix text : List Char) : Option (List Char) :=
  if suffix.isSuffixOf text then some (text.take (text.length - suffix.length)) else none

/-- `split_once` -/
def splitOnce (c : Char) (text : List Char) : Option (List Char × List Char) :=
  match text.dropWhile (· != c) with
  | [] => none
  | _ :: rest => some (text.takeWhile (· != c), rest)

/-- The suffix is stripped this number of times at most. -/
def trimEndLoop (suffix : List Char) : Nat → List Char → List Char
  | 0, text => text
  | n + 1, text =>
    match stripSuffix suffix text with
    | some rest => trimEndLoop suffix n rest
    | none => text

/-- `trim_end_matches` -/
def trimEndMatches (suffix text : List Char) : List Char := trimEndLoop suffix text.length text

variable {suffix text text' : List Char} {c : Char}

theorem stripSuffix_append : stripSuffix suffix (text ++ suffix) = some text := by
  have hsuffix : suffix.isSuffixOf (text ++ suffix) = true := by simp
  rw [stripSuffix, if_pos hsuffix, List.length_append, Nat.add_sub_cancel, List.take_left]

theorem stripSuffix_eq_none (h : ¬ suffix <:+ text) : stripSuffix suffix text = none :=
  if_neg (by simpa using h)

theorem splitOnce_append (h : ∀ x ∈ text, (x != c) = true) :
    splitOnce c (text ++ c :: text') = some (text, text') := by
  rw [splitOnce, List.dropWhile_append_of_pos h, List.takeWhile_append_of_pos h]
  simp

/-- A suffix that stands there once. -/
theorem trimEndMatches_append (hne : suffix ≠ []) (h : ¬ suffix <:+ text) :
    trimEndMatches suffix (text ++ suffix) = text := by
  have hlen : (text ++ suffix).length = text.length + suffix.length := List.length_append
  have hpos : 0 < suffix.length := List.length_pos_of_ne_nil hne
  obtain ⟨n, hn⟩ : ∃ n, (text ++ suffix).length = n + 1 := ⟨(text ++ suffix).length - 1, by omega⟩
  rw [trimEndMatches, hn, trimEndLoop, stripSuffix_append]
  cases n with
  | zero => rfl
  | succ n =>
    dsimp only
    rw [trimEndLoop, stripSuffix_eq_none h]

end Rticx.Lib.Str
