import Mathlib.Data.List.Basic

/-!
# Texts as bytes

A text is a list of characters; its bytes are those of its UTF-8 encoding. A slice of a text is by
byte positions, and it exists when they lie between characters.

* `Utf8.encode`: the bytes of a text. A character of ASCII is one byte; the bytes of every other
  character are not ASCII.
* `Utf8.slice?`: the text between two positions.
* `Utf8.Boundary`: a position between characters. Next to an ASCII byte there always is one.
-/

namespace Rticx.Lib.Utf8

/-- The bytes of a text. -/
def encode (text : List Char) : List UInt8 := text.flatMap String.utf8EncodeChar

/-- A position between two characters, or at an end. -/
def Boundary (text : List Char) (i : Nat) : Prop :=
  ∃ pre post, text = pre ++ post ∧ i = (encode pre).length

/-- The text before and behind a position between characters. -/
def splitAt? : Nat → List Char → Option (List Char × List Char)
  | 0, text => some ([], text)
  | _ + 1, [] => none
  | i + 1, c :: text =>
    if c.utf8Size ≤ i + 1 then
      (splitAt? (i + 1 - c.utf8Size) text).map fun parts => (c :: parts.1, parts.2)
    else none

/-- The text between two positions between characters. -/
def slice? (text : List Char) (i j : Nat) : Option (List Char) :=
  if i ≤ j then
    (splitAt? i text).bind fun parts => (splitAt? (j - i) parts.2).map Prod.fst
  else none

variable {text pre mid post : List Char} {c : Char} {i j : Nat} {b : UInt8}

/-! ## The bytes of a text -/

@[simp] theorem encode_nil : encode [] = [] := rfl

@[simp] theorem encode_cons (c : Char) (text : List Char) :
    encode (c :: text) = String.utf8EncodeChar c ++ encode text := List.flatMap_cons

@[simp] theorem encode_append (pre post : List Char) :
    encode (pre ++ post) = encode pre ++ encode post := List.flatMap_append

theorem encodeChar_ascii (hc : c.toNat < 0x80) : String.utf8EncodeChar c = [c.toUInt8] := by
  have hle : c.val.toNat ≤ 0x7f := by
    have : c.toNat = c.val.toNat := rfl
    omega
  unfold String.utf8EncodeChar
  rw [if_pos hle]
  rfl

/-- The bytes of a character that is not ASCII are not. -/
theorem of_mem_encodeChar (hc : 0x80 ≤ c.toNat) (hb : b ∈ String.utf8EncodeChar c) : 0x80 ≤ b := by
  have hle : ¬ c.val.toNat ≤ 0x7f := by
    have : c.toNat = c.val.toNat := rfl
    omega
  have hofNat : ∀ n : Nat, 0x80 ≤ n → n < 256 → (0x80 : UInt8) ≤ UInt8.ofNat n := by
    intro n hn hn'
    rw [UInt8.le_iff_toNat_le, UInt8.toNat_ofNat_of_lt' hn']
    exact hn
  unfold String.utf8EncodeChar at hb
  rw [if_neg hle] at hb
  split at hb
  · simp only [List.mem_cons, List.not_mem_nil, or_false] at hb
    rcases hb with rfl | rfl <;> exact hofNat _ (by omega) (by omega)
  split at hb
  · simp only [List.mem_cons, List.not_mem_nil, or_false] at hb
    rcases hb with rfl | rfl | rfl <;> exact hofNat _ (by omega) (by omega)
  · simp only [List.mem_cons, List.not_mem_nil, or_false] at hb
    rcases hb with rfl | rfl | rfl | rfl <;> exact hofNat _ (by omega) (by omega)

theorem encodeChar_ne_nil (c : Char) : 0 < (String.utf8EncodeChar c).length := by
  rw [String.length_utf8EncodeChar]
  exact c.utf8Size_pos

/-- A character of more than one byte is not ASCII, and the other way round. -/
theorem one_lt_length_encodeChar (hc : 0x80 ≤ c.toNat) :
    1 < (String.utf8EncodeChar c).length := by
  have hle : ¬ c.val.toNat ≤ 0x7f := by
    have : c.toNat = c.val.toNat := rfl
    omega
  unfold String.utf8EncodeChar
  rw [if_neg hle]
  split
  · simp
  split <;> simp

/-! ## Positions between characters -/

theorem boundary_zero : Boundary text 0 := ⟨[], text, rfl, rfl⟩

theorem boundary_length : Boundary text (encode text).length := ⟨text, [], by simp, rfl⟩

/-- Behind a part of the text, the positions are those of the rest. -/
theorem boundary_append_iff : Boundary (pre ++ post) ((encode pre).length + i) ↔ Boundary post i := by
  constructor
  · rintro ⟨l, r, heq, hlen⟩
    rcases List.append_eq_append_iff.mp heq with ⟨m, rfl, rfl⟩ | ⟨m, rfl, rfl⟩
    · refine ⟨m, r, rfl, ?_⟩
      rw [encode_append, List.length_append] at hlen
      omega
    · rw [encode_append, List.length_append] at hlen
      have hm : m = [] := by
        cases m with
        | nil => rfl
        | cons c m =>
          rw [encode_cons, List.length_append] at hlen
          have := encodeChar_ne_nil c
          omega
      subst hm
      refine ⟨[], post, rfl, ?_⟩
      simp only [encode_nil, List.length_nil] at hlen ⊢
      omega
  · rintro ⟨l, r, rfl, rfl⟩
    exact ⟨pre ++ l, r, (List.append_assoc _ _ _).symm, by simp⟩

/-- The character at a position that is not the end. -/
theorem Boundary.exists_cons (h : Boundary text i) (hb : (encode text)[i]? = some b) :
    ∃ pre c post, text = pre ++ c :: post ∧ i = (encode pre).length ∧
      (String.utf8EncodeChar c)[0]? = some b := by
  obtain ⟨pre, post, rfl, rfl⟩ := h
  rw [encode_append, List.getElem?_append_right (Nat.le_refl _), Nat.sub_self] at hb
  cases post with
  | nil => cases hb
  | cons c post =>
    refine ⟨pre, c, post, rfl, rfl, ?_⟩
    rwa [encode_cons, List.getElem?_append_left (encodeChar_ne_nil c)] at hb

/-- **Next to an ASCII byte there is no character that spans the position.** -/
theorem boundary_of_ascii (h : (encode text)[i]? = some b) (hb : b < 0x80) :
    Boundary text i ∧ Boundary text (i + 1) := by
  induction text generalizing i with
  | nil => cases h
  | cons c text ih =>
    have hcons : ∀ j, Boundary text j → Boundary ([c] ++ text) ((encode [c]).length + j) :=
      fun j hj => boundary_append_iff.mpr hj
    have hlen : (encode [c]).length = (String.utf8EncodeChar c).length := by simp
    rw [encode_cons] at h
    rcases Nat.lt_or_ge i (String.utf8EncodeChar c).length with hlt | hge
    · rw [List.getElem?_append_left hlt] at h
      have hascii : c.toNat < 0x80 := by
        by_contra hge
        have := of_mem_encodeChar (Nat.le_of_not_lt hge) (List.mem_of_getElem? h)
        exact absurd hb (UInt8.not_lt.mpr this)
      rw [encodeChar_ascii hascii] at hlt hlen
      obtain rfl : i = 0 := by simpa using hlt
      refine ⟨boundary_zero, ?_⟩
      have := hcons 0 boundary_zero
      rwa [hlen] at this
    · rw [List.getElem?_append_right hge] at h
      obtain ⟨h₁, h₂⟩ := ih h
      refine ⟨?_, ?_⟩
      · have := hcons _ h₁
        rwa [hlen, Nat.add_sub_cancel' hge] at this
      · have := hcons _ h₂
        rwa [hlen, ← Nat.add_assoc, Nat.add_sub_cancel' hge] at this

/-- The position behind the first byte of a character that is not ASCII is within it. -/
theorem not_boundary_succ (h : Boundary text i) (hget : (encode text)[i]? = some b)
    (hb : 0x80 ≤ b) : ¬ Boundary text (i + 1) := by
  obtain ⟨pre, c, post, rfl, rfl, hc⟩ := h.exists_cons hget
  rw [boundary_append_iff]
  have hc : 0x80 ≤ c.toNat := by
    by_contra hlt
    have hlt := Nat.lt_of_not_le hlt
    rw [encodeChar_ascii hlt] at hc
    cases hc
    have : c.toUInt8.toNat = c.toNat := by
      rw [Char.toUInt8, UInt32.toNat_toUInt8]
      exact Nat.mod_eq_of_lt (by change c.toNat < 256; omega)
    rw [UInt8.le_iff_toNat_le, this] at hb
    exact absurd hlt (Nat.not_lt.mpr hb)
  rintro ⟨l, r, heq, hlen⟩
  cases l with
  | nil => cases hlen
  | cons d l =>
    cases heq
    have := one_lt_length_encodeChar hc
    rw [encode_cons, List.length_append] at hlen
    omega

/-! ## Slices -/

theorem splitAt?_encode (pre post : List Char) :
    splitAt? (encode pre).length (pre ++ post) = some (pre, post) := by
  induction pre with
  | nil => cases post <;> rfl
  | cons c pre ih =>
    have hpos := c.utf8Size_pos
    have hlen : (encode (c :: pre)).length = c.utf8Size + (encode pre).length := by simp
    obtain ⟨n, hn⟩ := Nat.exists_eq_add_of_lt hpos
    rw [hlen, show c.utf8Size + (encode pre).length = (n + (encode pre).length) + 1 by omega,
      List.cons_append, splitAt?, if_pos (by omega),
      show n + (encode pre).length + 1 - c.utf8Size = (encode pre).length by omega, ih]
    rfl

theorem splitAt?_eq_some (h : splitAt? i text = some (pre, post)) :
    text = pre ++ post ∧ i = (encode pre).length := by
  induction text generalizing i pre with
  | nil =>
    cases i with
    | zero =>
      cases h
      exact ⟨rfl, rfl⟩
    | succ i => cases h
  | cons c text ih =>
    cases i with
    | zero =>
      cases h
      exact ⟨rfl, rfl⟩
    | succ i =>
      rw [splitAt?] at h
      split at h
      · obtain ⟨⟨l, r⟩, hsplit, heq⟩ := Option.map_eq_some_iff.mp h
        cases heq
        obtain ⟨rfl, hi⟩ := ih hsplit
        refine ⟨rfl, ?_⟩
        rw [encode_cons, List.length_append, String.length_utf8EncodeChar]
        show i + 1 = c.utf8Size + (encode l).length
        omega
      · cases h

theorem slice?_encode (pre mid post : List Char) :
    slice? (pre ++ (mid ++ post)) (encode pre).length ((encode pre).length + (encode mid).length) =
      some mid := by
  rw [slice?, if_pos (Nat.le_add_right _ _), splitAt?_encode, Option.bind_some,
    Nat.add_sub_cancel_left, splitAt?_encode]
  rfl

theorem slice?_eq_some (h : slice? text i j = some mid) :
    ∃ pre post, text = pre ++ (mid ++ post) ∧ i = (encode pre).length ∧
      j = (encode pre).length + (encode mid).length := by
  unfold slice? at h
  split at h
  · rename_i hle
    obtain ⟨⟨pre, rest⟩, hpre, h⟩ := Option.bind_eq_some_iff.mp h
    obtain ⟨⟨mid', post⟩, hmid, rfl⟩ := Option.map_eq_some_iff.mp h
    obtain ⟨rfl, rfl⟩ := splitAt?_eq_some hpre
    obtain ⟨hrest, hj⟩ := splitAt?_eq_some hmid
    dsimp only at hrest
    refine ⟨pre, post, by rw [hrest], rfl, ?_⟩
    show j = (encode pre).length + (encode mid').length
    omega
  · cases h

/-- A slice exists between positions that are between characters. -/
theorem exists_slice_iff : (∃ mid, slice? text i j = some mid) ↔
    i ≤ j ∧ Boundary text i ∧ Boundary text j := by
  constructor
  · rintro ⟨mid, h⟩
    obtain ⟨pre, post, rfl, rfl, rfl⟩ := slice?_eq_some h
    exact ⟨Nat.le_add_right _ _, ⟨pre, _, rfl, rfl⟩, pre ++ mid, post, by simp, by simp⟩
  · rintro ⟨hle, ⟨pre, rest, rfl, rfl⟩, hj⟩
    obtain ⟨k, rfl⟩ := Nat.exists_eq_add_of_le hle
    obtain ⟨mid, post, rfl, rfl⟩ := boundary_append_iff.mp hj
    exact ⟨mid, slice?_encode pre mid post⟩

end Rticx.Lib.Utf8
