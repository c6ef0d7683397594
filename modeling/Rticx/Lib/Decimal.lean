import Mathlib.Algebra.Ring.Nat
import Mathlib.Data.Char
import Mathlib.Data.List.Basic
import Mathlib.Data.List.Lex
import Mathlib.Tactic.Common

/-!
# Numbers in texts

A number that is written in a text can be read back, as long as no digit follows it. Numbers that
are padded with zeros to one width are ordered as their texts are.
-/

namespace Rticx.Lib.Decimal

theorem toDigits_injective {m n : Nat} (h : Nat.toDigits 10 m = Nat.toDigits 10 n) : m = n := by
  rw [← Nat.ofDigitChars_ten_toDigits (n := m), h, Nat.ofDigitChars_ten_toDigits]

/-- Two runs of characters that end where the same other character stands. -/
theorem append_cons_inj {α : Type*} {p : α → Bool} {c : α} (hc : p c = false) {xs ys : List α}
    (hxs : ∀ x ∈ xs, p x = true) (hys : ∀ y ∈ ys, p y = true) {xs' ys' : List α}
    (h : xs ++ c :: xs' = ys ++ c :: ys') : xs = ys ∧ xs' = ys' := by
  have htake : ∀ zs zs' : List α, (∀ z ∈ zs, p z = true) → (zs ++ c :: zs').takeWhile p = zs := by
    intro zs zs' hzs
    rw [List.takeWhile_append_of_pos hzs, List.takeWhile_cons_of_neg (by simp [hc]), List.append_nil]
  have heq : xs = ys := by
    rw [← htake xs xs' hxs, h, htake ys ys' hys]
  subst heq
  exact ⟨rfl, (List.cons.inj (List.append_cancel_left h)).2⟩

/-- **A number that is followed by something else than a digit is read back.** -/
theorem toString_append_inj {m n : Nat} {c : Char} (hc : c.isDigit = false) {xs ys : List Char}
    (h : (toString m).toList ++ c :: xs = (toString n).toList ++ c :: ys) : m = n ∧ xs = ys := by
  have hdigits : ∀ k : Nat, (toString k).toList = Nat.toDigits 10 k := fun _ => Nat.toList_repr
  rw [hdigits, hdigits] at h
  obtain ⟨hmn, hxy⟩ := append_cons_inj (p := Char.isDigit) hc
    (fun _ hx => Nat.isDigit_of_mem_toDigits (by decide) (by decide) hx)
    (fun _ hy => Nat.isDigit_of_mem_toDigits (by decide) (by decide) hy) h
  exact ⟨toDigits_injective hmn, hxy⟩

/-! ## Padding -/

/-- The digits behind zeros, to this width at least. -/
def pad (width n : Nat) : List Char :=
  List.replicate (width - (Nat.toDigits 10 n).length) '0' ++ Nat.toDigits 10 n

variable {width m n : Nat}

theorem isDigit_of_mem_pad {c : Char} (h : c ∈ pad width n) : c.isDigit = true := by
  rcases List.mem_append.mp h with h | h
  · rw [List.eq_of_mem_replicate h]
    rfl
  · exact Nat.isDigit_of_mem_toDigits (by decide) (by decide) h

theorem le_length_pad : width ≤ (pad width n).length := by
  simp only [pad, List.length_append, List.length_replicate]
  omega

/-- Zeros in front do not count. -/
theorem ofDigitChars_pad : Nat.ofDigitChars 10 (pad width n) 0 = n := by
  rw [pad, Nat.ofDigitChars_append, Nat.ofDigitChars_replicate_zero, Nat.mul_zero,
    Nat.ofDigitChars_ten_toDigits]

theorem pad_succ :
    pad (width + 2) n = pad (width + 1) (n / 10) ++ [Nat.digitChar (n % 10)] := by
  by_cases hlt : n < 10
  · have hdigits : ∀ k < 10, Nat.toDigits 10 k = [Nat.digitChar k] := fun k hk =>
      Nat.toDigits_of_lt_base hk
    rw [pad, pad, Nat.div_eq_of_lt hlt, Nat.mod_eq_of_lt hlt, hdigits n hlt,
      hdigits 0 (by decide)]
    simp only [List.length_singleton, Nat.add_one_sub_one, List.replicate_succ', List.append_assoc]
    rfl
  · have hdiv : 0 < n / 10 := by omega
    have hsplit := Nat.toDigits_append_toDigits (b := 10) (by decide) hdiv
      (Nat.mod_lt n (by decide))
    rw [Nat.div_add_mod, Nat.toDigits_of_lt_base (Nat.mod_lt n (by decide))] at hsplit
    rw [pad, pad, ← hsplit, List.length_append, List.length_singleton, List.append_assoc]
    congr 2
    omega

theorem digitChar_lt (hmn : m < n) (hn : n < 10) : Nat.digitChar m < Nat.digitChar n := by
  have h : ∀ n < 10, ∀ m < n, Nat.digitChar m < Nat.digitChar n := by decide
  exact h n hn m hmn

/-- **Of two numbers that fit into the width, the smaller one comes first.** -/
theorem pad_append_lt (hmn : m < n) (hn : n < 10 ^ (width + 1)) (xs ys : List Char) :
    pad (width + 1) m ++ xs < pad (width + 1) n ++ ys := by
  induction width generalizing m n xs ys with
  | zero =>
    have hn : n < 10 := by simpa using hn
    rw [pad, pad, Nat.toDigits_of_lt_base hn, Nat.toDigits_of_lt_base (hmn.trans hn)]
    exact List.cons_lt_cons_iff.mpr (Or.inl (digitChar_lt hmn hn))
  | succ width ih =>
    rw [pad_succ, pad_succ, List.append_assoc, List.append_assoc]
    rcases Nat.lt_or_eq_of_le (Nat.div_le_div_right hmn.le) with hlt | heq
    · exact ih hlt (by rw [Nat.pow_succ] at hn; omega) _ _
    · rw [heq]
      refine List.append_left_lt (List.cons_lt_cons_iff.mpr (Or.inl (digitChar_lt ?_ ?_)))
      · omega
      · omega

end Rticx.Lib.Decimal
