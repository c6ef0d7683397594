import Mathlib.Data.Bool.AllAny
import Mathlib.Data.List.Infix
import Rticx.Expand.Detect
import Rticx.Lib.RustLexer
import Rticx.Lib.Utf8

/-!
# The scan for a delimiter over the lexemes of Rust

The loop of `find_matching_delim` goes from byte to byte. Over a lexeme that it does not misread it
comes to the byte behind it, and what it counts are the delimiters among the lexemes.
-/

namespace Rticx.Expand

open Rticx.Lib Rticx.Lib.Except Rticx.Lib.Utf8 Rticx.Lib.Rust

/-! ## Bytes and characters -/

/-- The rest of the bytes from here on is this text. -/
def At (bytes : List UInt8) (i : Nat) (text : List Char) : Prop := bytes.drop i = encode text

section

variable {bytes : List UInt8} {i j n : Nat} {b : UInt8} {x y : Char} {text pre post run : List Char}
  {p : UInt8 → Bool}

theorem byte_lt (hx : x.toNat < 0x80) : byte x < 0x80 := by
  rw [UInt8.lt_iff_toNat_lt, byte, Char.toUInt8, UInt32.toNat_toUInt8]
  have : x.val.toNat = x.toNat := rfl
  have h80 : (0x80 : UInt8).toNat = 128 := rfl
  omega

theorem byte_inj (hx : x.toNat < 0x80) (hy : y.toNat < 0x80) : byte x = byte y ↔ x = y := by
  constructor
  · intro h
    have hval := congrArg UInt8.toNat h
    rw [byte, byte, Char.toUInt8, Char.toUInt8, UInt32.toNat_toUInt8, UInt32.toNat_toUInt8] at hval
    have hx' : x.val.toNat = x.toNat := rfl
    have hy' : y.val.toNat = y.toNat := rfl
    have heq : x.toNat = y.toNat := by omega
    exact Char.ext (UInt32.toNat_inj.mp heq)
  · rintro rfl
    rfl

theorem At.start (text : List Char) : At (encode text) 0 text := rfl

theorem At.append (h : At bytes i (pre ++ post)) : At bytes (i + (encode pre).length) post := by
  rw [At, ← List.drop_drop, h, encode_append, List.drop_left]

theorem At.getElem? (h : At bytes i text) (k : Nat) : bytes[i + k]? = (encode text)[k]? := by
  rw [← h, List.getElem?_drop]

theorem At.cons (h : At bytes i (x :: text)) (hx : x.toNat < 0x80) :
    bytes[i]? = some (byte x) ∧ At bytes (i + 1) text := by
  have hlen : (encode [x]).length = 1 := by rw [encode_cons, encodeChar_ascii hx]; rfl
  have happ : At bytes i ([x] ++ text) := h
  have hnext : At bytes (i + (encode [x]).length) text := happ.append
  rw [hlen] at hnext
  refine ⟨?_, hnext⟩
  have := h.getElem? 0
  rw [encode_cons, encodeChar_ascii hx] at this
  exact this

/-- The byte that is here is the character that is here, for ASCII. -/
theorem At.head_iff (h : At bytes i text) (hx : x.toNat < 0x80) :
    bytes[i]? = some (byte x) ↔ text.head? = some x := by
  cases text with
  | nil =>
    have := h.getElem? 0
    rw [Nat.add_zero] at this
    simp [this]
  | cons y text =>
    rw [List.head?_cons, Option.some_inj]
    by_cases hy : y.toNat < 0x80
    · rw [(h.cons hy).1, Option.some_inj, byte_inj hy hx]
    · have hget := h.getElem? 0
      rw [Nat.add_zero, encode_cons, List.getElem?_append_left (encodeChar_ne_nil y)] at hget
      constructor
      · intro hb
        rw [hget] at hb
        have hge := of_mem_encodeChar (Nat.le_of_not_lt hy) (List.mem_of_getElem? hb)
        exact absurd (byte_lt hx) (UInt8.not_lt.mpr hge)
      · rintro rfl
        exact absurd hx hy

/-- The bytes of a character that is not ASCII. -/
theorem At.high (h : At bytes i (x :: text)) (hx : 0x80 ≤ x.toNat) {k : Nat}
    (hk : k < (encode [x]).length) : ∃ b, bytes[i + k]? = some b ∧ 0x80 ≤ b := by
  have hlen : (encode [x]).length = (String.utf8EncodeChar x).length := by simp
  rw [hlen] at hk
  refine ⟨(String.utf8EncodeChar x)[k], ?_, of_mem_encodeChar hx (List.getElem_mem hk)⟩
  rw [h.getElem? k, encode_cons, List.getElem?_append_left hk, List.getElem?_eq_getElem hk]

theorem skipWhile_of_not (h : ∀ b, bytes[i]? = some b → p b = false) : skipWhile bytes p i = i := by
  rw [skipWhile]
  split
  · rename_i hlt
    rw [if_neg]
    rw [h _ (List.getElem?_eq_getElem hlt)]
    exact Bool.false_ne_true
  · rfl

theorem skipWhile_of_pos (h : bytes[i]? = some b) (hb : p b) :
    skipWhile bytes p i = skipWhile bytes p (i + 1) := by
  obtain ⟨hlt, rfl⟩ := List.getElem?_eq_some_iff.mp h
  rw [skipWhile, dif_pos hlt, if_pos hb]

/-- Bytes that are passed. -/
theorem skipWhile_add (h : ∀ k, k < n → ∃ b, bytes[i + k]? = some b ∧ p b) :
    skipWhile bytes p i = skipWhile bytes p (i + n) := by
  induction n with
  | zero => rfl
  | succ n ih =>
    obtain ⟨b, hb, hp⟩ := h n (Nat.lt_succ_self n)
    rw [ih fun k hk => h k (Nat.lt_succ_of_lt hk), skipWhile_of_pos hb hp]
    rfl

/-- A run of characters all of whose bytes are passed. -/
theorem At.skipWhile (h : At bytes i (run ++ post))
    (hrun : ∀ x ∈ run, ∀ b ∈ String.utf8EncodeChar x, p b)
    (hstop : ∀ b, (encode post)[0]? = some b → p b = false) :
    skipWhile bytes p i = i + (encode run).length := by
  have hbytes : ∀ k, k < (encode run).length → ∃ b, bytes[i + k]? = some b ∧ p b := by
    intro k hk
    refine ⟨(encode run)[k], ?_, ?_⟩
    · rw [h.getElem? k, encode_append, List.getElem?_append_left hk, List.getElem?_eq_getElem hk]
    · obtain ⟨x, hx, hb⟩ := List.mem_flatMap.mp (List.getElem_mem hk)
      exact hrun x hx _ hb
  rw [skipWhile_add hbytes]
  refine skipWhile_of_not fun b hb => hstop b ?_
  have hpost := h.append.getElem? 0
  rw [Nat.add_zero] at hpost
  rw [← hpost]
  exact hb

end

/-! ## From byte to byte -/

/-- A pair of delimiters. -/
inductive IsPair : Char → Char → Prop where
  | paren : IsPair '(' ')'
  | bracket : IsPair '[' ']'
  | brace : IsPair '{' '}'

/-- The scan for the second delimiter comes from one place to another and counts nothing. -/
def Skips (bytes : List UInt8) (o c : Char) (i j : Nat) : Prop :=
  ∀ depth, matchingLoop bytes (startsLiteral bytes) (byte o) (byte c) depth i =
    matchingLoop bytes (startsLiteral bytes) (byte o) (byte c) depth j

/-- A quote follows, behind any number of hashes. -/
def rawFollows (text : List Char) : Bool := (text.dropWhile (· == '#')).head? == some '"'

/-- `is_literal_start`, of a character by what stands behind it. -/
def startsAt (x : Char) (text : List Char) : Bool :=
  if x = '"' ∨ x = '\'' then true
  else if x = 'r' then rawFollows text
  else if x = 'b' ∨ x = 'c' then
    text.head? == some '"' || (text.head? == some 'r' &&
      (text.tail.head? == some '#' || text.tail.head? == some '"'))
  else x == '/' && (text.head? == some '/' || text.head? == some '*')

section

variable {bytes : List UInt8} {i j k n : Nat} {b : UInt8} {o c x : Char}
  {text pre post run : List Char}

theorem Skips.refl : Skips bytes o c i i := fun _ => rfl

theorem Skips.trans (h : Skips bytes o c i j) (h' : Skips bytes o c j k) : Skips bytes o c i k :=
  fun depth => (h depth).trans (h' depth)

theorem IsPair.ascii (h : IsPair o c) : o.toNat < 0x80 ∧ c.toNat < 0x80 := by
  cases h <;> decide

theorem skips_of_not_literal (hb : bytes[i]? = some b) (ho : b ≠ byte o) (hc : b ≠ byte c)
    (h : startsLiteral bytes i b = .ok false) : Skips bytes o c i (i + 1) := by
  intro depth
  obtain ⟨hlt, rfl⟩ := List.getElem?_eq_some_iff.mp hb
  rw [matchingLoop, dif_pos hlt, if_neg ho, if_neg hc, h]
  rfl

theorem skips_of_literal (hb : bytes[i]? = some b) (ho : b ≠ byte o) (hc : b ≠ byte c)
    (h : startsLiteral bytes i b = .ok true) (hn : literalLen bytes i = .ok (n + 1)) :
    Skips bytes o c i (i + (n + 1)) := by
  intro depth
  obtain ⟨hlt, rfl⟩ := List.getElem?_eq_some_iff.mp hb
  rw [matchingLoop, dif_pos hlt, if_neg ho, if_neg hc, h]
  show (literalSkip bytes i >>= _) = _
  rw [literalSkip, hn]
  rfl

/-- Bytes that are not ASCII are passed. -/
theorem skips_of_high (hpair : IsPair o c)
    (h : ∀ k, k < n → ∃ b, bytes[i + k]? = some b ∧ 0x80 ≤ b) : Skips bytes o c i (i + n) := by
  induction n with
  | zero => exact .refl
  | succ n ih =>
    obtain ⟨b, hb, hhigh⟩ := h n (Nat.lt_succ_self n)
    have hne : ∀ x : Char, x.toNat < 0x80 → b ≠ byte x := by
      rintro x hx rfl
      exact absurd (byte_lt hx) (UInt8.not_lt.mpr hhigh)
    refine (ih fun k hk => h k (Nat.lt_succ_of_lt hk)).trans
      (skips_of_not_literal hb (hne o hpair.ascii.1) (hne c hpair.ascii.2) ?_)
    unfold startsLiteral
    rw [if_neg]
    · have : (b == byte '/') = false := beq_false_of_ne (hne '/' (by decide))
      rw [this]
      rfl
    · rintro (h | h | h | h | h)
      all_goals exact hne _ (by decide) h

/-- The hashes at the start of a text are passed. -/
theorem At.skipHashes (h : At bytes i text) :
    Expand.skipWhile bytes (· == byte '#') i = i + (text.takeWhile (· == '#')).length ∧
      At bytes (i + (text.takeWhile (· == '#')).length) (text.dropWhile (· == '#')) := by
  induction text generalizing i with
  | nil =>
    refine ⟨skipWhile_of_not fun b hb => ?_, h⟩
    have hnone := h.getElem? 0
    rw [Nat.add_zero, hb] at hnone
    cases hnone
  | cons x text ih =>
    by_cases hx : x = '#'
    · subst hx
      obtain ⟨hb, hnext⟩ := h.cons (by decide)
      obtain ⟨hskip, hat⟩ := ih hnext
      have hpos : (('#' : Char) == '#') = true := rfl
      rw [skipWhile_of_pos hb (by decide), hskip, List.takeWhile_cons_of_pos (p := (· == '#')) hpos,
        List.dropWhile_cons_of_pos (p := (· == '#')) hpos, List.length_cons]
      have heq : i + 1 + (text.takeWhile (· == '#')).length =
          i + ((text.takeWhile (· == '#')).length + 1) := by omega
      exact ⟨heq, heq ▸ hat⟩
    · have hneg : ¬(x == '#') = true := by simpa using hx
      rw [List.takeWhile_cons_of_neg (p := (· == '#')) hneg,
        List.dropWhile_cons_of_neg (p := (· == '#')) hneg]
      refine ⟨skipWhile_of_not fun b hb => ?_, h⟩
      rw [beq_eq_false_iff_ne]
      rintro rfl
      have := (h.head_iff (x := '#') (by decide)).mp hb
      exact hx (Option.some_inj.mp this)

theorem At.rawFollows_iff (h : At bytes i text) :
    bytes[Expand.skipWhile bytes (· == byte '#') i]? = some (byte '"') ↔ rawFollows text := by
  obtain ⟨hskip, hat⟩ := h.skipHashes
  rw [hskip, hat.head_iff (by decide), rawFollows, beq_iff_eq]

theorem At.beq_head (h : At bytes i text) (hx : x.toNat < 0x80) :
    (bytes[i]? == some (byte x)) = (text.head? == some x) := by
  rw [Bool.eq_iff_iff, beq_iff_eq, beq_iff_eq]
  exact h.head_iff hx

theorem At.tail_head (h : At bytes i text) (hx : text.head? = some x) (hascii : x.toNat < 0x80) :
    At bytes (i + 1) text.tail := by
  obtain ⟨text, rfl⟩ := List.head?_eq_some_iff.mp hx
  exact (h.cons hascii).2

/-- Which literals start here. -/
theorem At.startsLiteral_eq (h : At bytes i (x :: text)) (hx : x.toNat < 0x80) :
    startsLiteral bytes i (byte x) = .ok (startsAt x text) := by
  obtain ⟨hb, hnext⟩ := h.cons hx
  have hindex : index bytes i = .ok (byte x) := by rw [index, hb]
  have heq : ∀ y : Char, y.toNat < 0x80 → (byte x = byte y ↔ x = y) := fun y hy => byte_inj hx hy
  have hcomment : isCommentStart bytes i = (text.head? == some '/' || text.head? == some '*') := by
    rw [isCommentStart, hnext.beq_head (by decide), hnext.beq_head (by decide)]
  have hslash : (byte x == byte '/') = (x == '/') := by
    rw [Bool.eq_iff_iff, beq_iff_eq, beq_iff_eq]
    exact heq '/' (by decide)
  unfold startsLiteral isLiteralStart startsAt
  rw [hindex]
  simp only [heq '"' (by decide), heq '\'' (by decide), heq 'r' (by decide), heq 'b' (by decide),
    heq 'c' (by decide), heq '/' (by decide), Except.map, hcomment, hslash]
  by_cases hq : x = '"' ∨ x = '\''
  · rw [if_pos (hq.elim .inl fun h => .inr (.inl h))]
    simp only [hq, if_true]
  by_cases hr : x = 'r'
  · rw [if_pos (.inr (.inr (.inl hr)))]
    simp only [if_neg hq, if_pos hr]
    congr 1
    rw [Bool.eq_iff_iff, beq_iff_eq]
    exact hnext.rawFollows_iff
  by_cases hbc : x = 'b' ∨ x = 'c'
  · rw [if_pos (.inr (.inr (.inr hbc))), hnext.beq_head (by decide), hnext.beq_head (by decide)]
    simp only [hq, hr, hbc, if_true, if_false]
    by_cases hhead : text.head? = some 'r'
    · have htail := hnext.tail_head hhead (by decide)
      rw [htail.beq_head (by decide), htail.beq_head (by decide)]
    · have hne : (text.head? == some 'r') = false := beq_false_of_ne hhead
      rw [hne, Bool.false_and, Bool.false_and]
  · simp only [if_neg hq, if_neg hr, if_neg hbc]
    rw [if_neg]
    rintro (h | h | h | h)
    · exact hq (.inl h)
    · exact hq (.inr h)
    · exact hr h
    · exact hbc h

/-! ## The ends of literals -/

/-- The bytes of a character are not those of another one. -/
theorem At.bytes_ne (h : At bytes i (x :: text)) {y : Char} (hy : y.toNat < 0x80) (hne : x ≠ y)
    (hk : k < (encode [x]).length) : ∃ b, bytes[i + k]? = some b ∧ b ≠ byte y := by
  by_cases hx : x.toNat < 0x80
  · have hlen : (encode [x]).length = 1 := by rw [encode_cons, encodeChar_ascii hx]; rfl
    obtain rfl : k = 0 := by omega
    exact ⟨byte x, (h.cons hx).1, fun heq => hne ((byte_inj hx hy).mp heq)⟩
  · obtain ⟨b, hb, hhigh⟩ := h.high (Nat.le_of_not_lt hx) hk
    refine ⟨b, hb, ?_⟩
    rintro rfl
    exact absurd (byte_lt hy) (UInt8.not_lt.mpr hhigh)

theorem At.next (h : At bytes i (x :: text)) : At bytes (i + (encode [x]).length) text := by
  have happ : At bytes i ([x] ++ text) := h
  exact happ.append

theorem length_encode_cons (x : Char) (text : List Char) :
    (encode (x :: text)).length = (encode [x]).length + (encode text).length := by
  simp

theorem length_encode_ascii (hx : x.toNat < 0x80) : (encode [x]).length = 1 := by
  rw [encode_cons, encodeChar_ascii hx]
  rfl

theorem length_encode_cons_ascii (hx : x.toNat < 0x80) (text : List Char) :
    (encode (x :: text)).length = (encode text).length + 1 := by
  rw [length_encode_cons, length_encode_ascii hx, Nat.add_comm]

theorem quotedEndLoop_add
    (h : ∀ k, k < n → ∃ b, bytes[i + k]? = some b ∧ b ≠ byte '\\' ∧ b ≠ byte '"') :
    quotedEndLoop bytes i = quotedEndLoop bytes (i + n) := by
  induction n with
  | zero => rfl
  | succ n ih =>
    obtain ⟨b, hb, hescape, hquote⟩ := h n (Nat.lt_succ_self n)
    obtain ⟨hlt, rfl⟩ := List.getElem?_eq_some_iff.mp hb
    rw [ih fun k hk => h k (Nat.lt_succ_of_lt hk), quotedEndLoop, dif_pos hlt, if_neg hescape,
      if_neg hquote]
    rfl

/-- A character that is no escape and no quote. -/
theorem At.quotedEndLoop_next (h : At bytes i (x :: text)) (hescape : x ≠ '\\') (hquote : x ≠ '"') :
    quotedEndLoop bytes i = quotedEndLoop bytes (i + (encode [x]).length) := by
  refine quotedEndLoop_add fun k hk => ?_
  obtain ⟨b, hb, hne⟩ := h.bytes_ne (y := '\\') (by decide) hescape hk
  obtain ⟨b', hb', hne'⟩ := h.bytes_ne (y := '"') (by decide) hquote hk
  rw [hb, Option.some_inj] at hb'
  subst hb'
  exact ⟨b, hb, hne, hne'⟩

/-- **The end of a string is found**, at the first quote that is not escaped. -/
theorem quotedEndLoop_eq {rest body : List Char} (h : At bytes i text)
    (hbody : strBody text = some (body, rest)) :
    quotedEndLoop bytes i = some (i + (encode body).length) := by
  fun_induction strBody text generalizing i body with
  | case1 x text ih =>
    obtain ⟨⟨body', rest'⟩, hr, heq⟩ := Option.map_eq_some_iff.mp hbody
    cases heq
    obtain ⟨hb, hnext⟩ := h.cons (by decide)
    obtain ⟨hlt, hget⟩ := List.getElem?_eq_some_iff.mp hb
    rw [quotedEndLoop, dif_pos hlt, if_pos hget]
    -- the bytes of the escaped character behind its first one
    have hpass : quotedEndLoop bytes (i + 2) =
        quotedEndLoop bytes (i + 2 + ((encode [x]).length - 1)) := by
      refine quotedEndLoop_add fun k hk => ?_
      have hx : 0x80 ≤ x.toNat := by
        by_contra hlt
        rw [length_encode_ascii (Nat.lt_of_not_le hlt)] at hk
        omega
      obtain ⟨b, hb, hhigh⟩ := hnext.high hx (k := k + 1) (by omega)
      refine ⟨b, by rw [← hb]; congr 1; omega, ?_, ?_⟩
      · rintro rfl
        exact absurd hhigh (by decide)
      · rintro rfl
        exact absurd hhigh (by decide)
    have hone : 1 ≤ (encode [x]).length := by
      have := encodeChar_ne_nil x
      rw [encode_cons, encode_nil, List.append_nil]
      exact this
    have heq : i + 2 + ((encode [x]).length - 1) = i + 1 + (encode [x]).length := by omega
    have hlen : (encode ('\\' :: x :: body')).length =
        1 + ((encode [x]).length + (encode body').length) := by
      rw [length_encode_cons, length_encode_cons x body', length_encode_ascii (by decide)]
    rw [hpass, heq, ih hnext.next hr, hlen]
    congr 1
    omega
  | case2 text =>
    cases hbody
    obtain ⟨hlt, hget⟩ := List.getElem?_eq_some_iff.mp (h.cons (by decide)).1
    rw [quotedEndLoop, dif_pos hlt, if_neg (by rw [hget]; decide), if_pos hget]
    rfl
  | case3 x text hescape hquote ih =>
    obtain ⟨⟨body', rest'⟩, hr, heq⟩ := Option.map_eq_some_iff.mp hbody
    cases heq
    have hx : x ≠ '\\' := by
      rintro rfl
      cases text with
      | nil => cases hr
      | cons y text => exact hescape y text rfl rfl
    rw [h.quotedEndLoop_next hx hquote, ih h.next hr, length_encode_cons x body', Nat.add_assoc]
  | case4 => cases hbody

theorem At.hashesFollow_iff (h : At bytes i text) :
    hashesFollow bytes i n ↔ Lexeme.hashText n <+: text := by
  induction n generalizing i text with
  | zero => simp [hashesFollow, Lexeme.hashText]
  | succ n ih =>
    have hsplit : hashesFollow bytes i (n + 1) ↔
        bytes[i]? = some (byte '#') ∧ hashesFollow bytes (i + 1) n := by
      unfold hashesFollow
      rw [List.range_succ_eq_map, List.all_cons, List.all_map, Bool.and_eq_true, beq_iff_eq]
      have hshift : ∀ k, (i + 1 + k) = i + (k + 1) := fun k => by omega
      simp only [Function.comp_def, Nat.add_zero, hshift]
    rw [hsplit, h.head_iff (by decide)]
    cases text with
    | nil => simp [Lexeme.hashText]
    | cons x text =>
      rw [List.head?_cons, Option.some_inj, Lexeme.hashText, List.replicate_succ]
      constructor
      · rintro ⟨rfl, hrest⟩
        exact (List.prefix_cons_inj '#').mpr ((ih (h.cons (by decide)).2).mp hrest)
      · intro hfront
        obtain rfl : '#' = x := (List.cons_prefix_cons.mp hfront).1
        exact ⟨rfl, (ih (h.cons (by decide)).2).mpr ((List.prefix_cons_inj '#').mp hfront)⟩

theorem rawEnd_add {hashes : Nat} (h : ∀ k, k < n → ∃ b, bytes[i + k]? = some b ∧ b ≠ byte '"') :
    rawEnd bytes i hashes = rawEnd bytes (i + n) hashes := by
  induction n with
  | zero => rfl
  | succ n ih =>
    obtain ⟨b, hb, hquote⟩ := h n (Nat.lt_succ_self n)
    obtain ⟨hlt, rfl⟩ := List.getElem?_eq_some_iff.mp hb
    rw [ih fun k hk => h k (Nat.lt_succ_of_lt hk), rawEnd, dif_pos hlt, if_neg]
    · rfl
    · exact fun hclose => hquote hclose.1

/-- **The end of a raw string is found**, at the first quote with its hashes. -/
theorem rawEnd_eq {rest body : List Char} {hashes : Nat} (h : At bytes i text)
    (hbody : rawBody hashes text = some (body, rest)) :
    rawEnd bytes i hashes = some (i + (encode body).length) := by
  induction text generalizing i body with
  | nil => cases hbody
  | cons x text ih =>
    rw [rawBody] at hbody
    split at hbody
    · rename_i hclose
      cases hbody
      obtain ⟨rfl, hhashes⟩ := hclose
      obtain ⟨hb, hnext⟩ := h.cons (by decide)
      obtain ⟨hlt, hget⟩ := List.getElem?_eq_some_iff.mp hb
      rw [rawEnd, dif_pos hlt, if_pos ⟨hget, hnext.hashesFollow_iff.mpr hhashes⟩]
      rfl
    · rename_i hclose
      obtain ⟨⟨body', rest'⟩, hr, heq⟩ := Option.map_eq_some_iff.mp hbody
      cases heq
      have hpass : rawEnd bytes i hashes = rawEnd bytes (i + (encode [x]).length) hashes := by
        by_cases hx : x = '"'
        · subst hx
          obtain ⟨hb, hnext⟩ := h.cons (by decide)
          obtain ⟨hlt, hget⟩ := List.getElem?_eq_some_iff.mp hb
          rw [length_encode_ascii (by decide), rawEnd, dif_pos hlt, if_neg]
          exact fun hends => hclose ⟨rfl, hnext.hashesFollow_iff.mp hends.2⟩
        · exact rawEnd_add fun k hk => h.bytes_ne (by decide) hx hk
      rw [hpass, ih h.next hr, length_encode_cons x body', Nat.add_assoc]

theorem commentClose_add (h : ∀ k, k < n → ∃ b, bytes[i + k]? = some b ∧
    ¬(b = byte '*' ∧ bytes[i + k + 1]? = some (byte '/'))) :
    commentClose bytes i = commentClose bytes (i + n) := by
  induction n with
  | zero => rfl
  | succ n ih =>
    obtain ⟨b, hb, hclose⟩ := h n (Nat.lt_succ_self n)
    obtain ⟨hlt, rfl⟩ := List.getElem?_eq_some_iff.mp hb
    rw [ih fun k hk => h k (Nat.lt_succ_of_lt hk), commentClose, dif_pos hlt, if_neg hclose]
    rfl

/-- **The end of a block comment is found**, when it has no end within. -/
theorem commentClose_eq {rest body : List Char} (h : At bytes i (body ++ '*' :: '/' :: rest))
    (hbody : ¬['*', '/'] <:+: body) : commentClose bytes i = i + (encode body).length := by
  induction body generalizing i with
  | nil =>
    obtain ⟨hb, hnext⟩ := h.cons (by decide)
    obtain ⟨hlt, hget⟩ := List.getElem?_eq_some_iff.mp hb
    rw [commentClose, dif_pos hlt, if_pos ⟨hget, (hnext.cons (by decide)).1⟩]
    rfl
  | cons x body ih =>
    have hrest : ¬['*', '/'] <:+: body := fun hin => hbody (List.infix_cons hin)
    have hpass : commentClose bytes i = commentClose bytes (i + (encode [x]).length) := by
      refine commentClose_add fun k hk => ?_
      by_cases hx : x = '*'
      · subst hx
        obtain ⟨hb, hnext⟩ := h.cons (by decide)
        rw [length_encode_ascii (by decide)] at hk
        obtain rfl : k = 0 := by omega
        refine ⟨_, hb, fun hclose => ?_⟩
        -- a slash behind the star would be an end within, or the star of the end
        have hhead := (hnext.head_iff (x := '/') (by decide)).mp hclose.2
        cases body with
        | nil => cases hhead
        | cons y body =>
          obtain rfl : y = '/' := Option.some_inj.mp hhead
          exact hbody ⟨[], body, rfl⟩
      · obtain ⟨b, hb, hne⟩ := h.bytes_ne (y := '*') (by decide) hx hk
        exact ⟨b, hb, fun hclose => hne hclose.1⟩
    rw [hpass, ih h.next hrest, length_encode_cons x body, Nat.add_assoc]

/-! ## The lengths of literals -/

theorem lenTo_some {e : Nat} (h : i ≤ e) : lenTo i (some e) = .ok (e - i + 1) := by
  rw [lenTo, sub_of_le h]
  rfl

theorem At.literalLen_string {body rest : List Char} (h : At bytes i ('"' :: text))
    (hbody : strBody text = some (body, rest)) :
    literalLen bytes i = .ok (encode ('"' :: body ++ ['"'])).length := by
  obtain ⟨hb, hnext⟩ := h.cons (by decide)
  have hend : quotedEnd bytes i = some (i + 1 + (encode body).length) :=
    quotedEndLoop_eq hnext hbody
  have hlen : (encode ('"' :: body ++ ['"'])).length = 1 + (encode body).length + 1 := by
    simp (disch := decide) only [List.cons_append, length_encode_cons_ascii, encode_append,
      List.length_append, encode_nil, List.length_nil]
    omega
  have hindex : index bytes i = .ok (byte '"') := by rw [index, hb]
  rw [literalLen, hindex]
  show lenTo i (quotedEnd bytes i) = _
  rw [hend, lenTo_some (by omega), hlen]
  congr 1
  omega

theorem At.literalLen_marked {body rest : List Char} (hx : x = 'b' ∨ x = 'c')
    (h : At bytes i (x :: '"' :: text)) (hbody : strBody text = some (body, rest)) :
    literalLen bytes i = .ok (encode (x :: '"' :: body ++ ['"'])).length := by
  have hascii : x.toNat < 0x80 := by rcases hx with rfl | rfl <;> decide
  obtain ⟨hb, hnext⟩ := h.cons hascii
  obtain ⟨hquote, hnext⟩ := hnext.cons (by decide)
  have hend : quotedEnd bytes (i + 1) = some (i + 2 + (encode body).length) :=
    quotedEndLoop_eq hnext hbody
  have hlen : (encode (x :: '"' :: body ++ ['"'])).length = 2 + (encode body).length + 1 := by
    simp (disch := decide) only [List.cons_append, length_encode_cons_ascii hascii,
      length_encode_cons_ascii, encode_append, List.length_append, encode_nil, List.length_nil]
    omega
  have hindex : index bytes i = .ok (byte x) := by rw [index, hb]
  rw [literalLen, hindex]
  have hbranch : (lenTo i (quotedEnd bytes (i + 1)) : Except String Nat) =
      .ok (encode (x :: '"' :: body ++ ['"'])).length := by
    rw [hend, lenTo_some (by omega), hlen]
    congr 1
    omega
  rcases hx with rfl | rfl
  · show (if (byte 'b' = byte 'b' ∨ byte 'b' = byte 'c') ∧ bytes[i + 1]? = some (byte '"') then _
      else _) = _
    rw [if_pos ⟨.inl rfl, hquote⟩, hbranch]
  · show (if (byte 'c' = byte 'b' ∨ byte 'c' = byte 'c') ∧ bytes[i + 1]? = some (byte '"') then _
      else _) = _
    rw [if_pos ⟨.inr rfl, hquote⟩, hbranch]

theorem takeWhile_hashText (n : Nat) (text : List Char) :
    (Lexeme.hashText n ++ '"' :: text).takeWhile (· == '#') = Lexeme.hashText n ∧
      (Lexeme.hashText n ++ '"' :: text).dropWhile (· == '#') = '"' :: text := by
  induction n with
  | zero => exact ⟨rfl, rfl⟩
  | succ n ih =>
    have hcons : Lexeme.hashText (n + 1) = '#' :: Lexeme.hashText n := List.replicate_succ
    have hpos : (('#' : Char) == '#') = true := rfl
    rw [hcons, List.cons_append, List.takeWhile_cons_of_pos (p := (· == '#')) hpos,
      List.dropWhile_cons_of_pos (p := (· == '#')) hpos, ih.1, ih.2]
    exact ⟨rfl, rfl⟩

/-- A raw string whose hashes start at `j`. -/
theorem At.rawLen_eq {body rest : List Char} (h : At bytes j (Lexeme.hashText n ++ '"' :: text))
    (hbody : rawBody n text = some (body, rest)) (hij : i ≤ j) :
    rawLen bytes i j = .ok (j - i + n + 1 + (encode body).length + 1) := by
  obtain ⟨hskip, hat⟩ := h.skipHashes
  have hlength : (Lexeme.hashText n).length = n := List.length_replicate
  rw [(takeWhile_hashText n text).1, hlength] at hskip hat
  rw [(takeWhile_hashText n text).2] at hat
  obtain ⟨hquote, hnext⟩ := hat.cons (by decide)
  have hend := rawEnd_eq hnext hbody
  have hsub : j + n - j = n := by omega
  rw [rawLen]
  show (if bytes[Expand.skipWhile bytes (· == byte '#') j]? = some (byte '"') then _ else _) = _
  rw [hskip, if_pos hquote, hsub, hend, lenTo_some (by omega)]
  congr 1
  omega

theorem length_encode_hashText (n : Nat) : (encode (Lexeme.hashText n)).length = n := by
  induction n with
  | zero => rfl
  | succ n ih =>
    have hcons : Lexeme.hashText (n + 1) = '#' :: Lexeme.hashText n := List.replicate_succ
    rw [hcons, length_encode_cons, ih, length_encode_ascii (by decide), Nat.add_comm]

theorem At.literalLen_raw {body rest : List Char}
    (h : At bytes i ('r' :: (Lexeme.hashText n ++ '"' :: text)))
    (hbody : rawBody n text = some (body, rest)) :
    literalLen bytes i = .ok (encode ('r' :: (Lexeme.hashText n ++ '"' :: body ++ ['"']))).length := by
  obtain ⟨hb, hnext⟩ := h.cons (by decide)
  have hindex : index bytes i = .ok (byte 'r') := by rw [index, hb]
  rw [literalLen, hindex]
  show rawLen bytes i (i + 1) = _
  rw [hnext.rawLen_eq hbody (Nat.le_add_right i 1)]
  simp (disch := decide) only [length_encode_cons_ascii, encode_append, List.length_append,
    length_encode_hashText, encode_nil, List.length_nil]
  congr 1
  omega

theorem At.literalLen_marked_raw {body rest : List Char} (hx : x = 'b' ∨ x = 'c')
    (h : At bytes i (x :: 'r' :: (Lexeme.hashText n ++ '"' :: text)))
    (hbody : rawBody n text = some (body, rest)) :
    literalLen bytes i =
      .ok (encode (x :: 'r' :: (Lexeme.hashText n ++ '"' :: body ++ ['"']))).length := by
  have hascii : x.toNat < 0x80 := by rcases hx with rfl | rfl <;> decide
  obtain ⟨hb, hnext⟩ := h.cons hascii
  obtain ⟨hr, hnext⟩ := hnext.cons (by decide)
  have hindex : index bytes i = .ok (byte x) := by rw [index, hb]
  have hlen : rawLen bytes i (i + 2) =
      .ok (encode (x :: 'r' :: (Lexeme.hashText n ++ '"' :: body ++ ['"']))).length := by
    rw [hnext.rawLen_eq hbody (Nat.le_add_right i 2)]
    simp (disch := decide) only [length_encode_cons_ascii hascii, length_encode_cons_ascii,
      encode_append, List.length_append, length_encode_hashText, encode_nil, List.length_nil]
    congr 1
    omega
  have hquote : bytes[i + 1]? ≠ some (byte '"') := by
    rw [hr]
    decide
  rw [literalLen, hindex]
  rcases hx with rfl | rfl
  · show (if (byte 'b' = byte 'b' ∨ byte 'b' = byte 'c') ∧ bytes[i + 1]? = some (byte '"') then _
      else if (byte 'b' = byte 'b' ∨ byte 'b' = byte 'c') ∧ bytes[i + 1]? = some (byte 'r') then _
      else _) = _
    rw [if_neg fun hmark => hquote hmark.2, if_pos ⟨.inl rfl, hr⟩, hlen]
  · show (if (byte 'c' = byte 'b' ∨ byte 'c' = byte 'c') ∧ bytes[i + 1]? = some (byte '"') then _
      else if (byte 'c' = byte 'b' ∨ byte 'c' = byte 'c') ∧ bytes[i + 1]? = some (byte 'r') then _
      else _) = _
    rw [if_neg fun hmark => hquote hmark.2, if_pos ⟨.inr rfl, hr⟩, hlen]

/-- A line comment is passed up to the end of its line. -/
theorem At.skipLine {body rest : List Char} (h : At bytes i ('/' :: '/' :: (body ++ rest)))
    (hbody : '\n' ∉ body) (hrest : ∀ y, rest.head? = some y → y = '\n') :
    Expand.skipWhile bytes (· != byte '\n') i = i + (encode ('/' :: '/' :: body)).length := by
  have hat : At bytes i (('/' :: '/' :: body) ++ rest) := h
  refine hat.skipWhile ?_ ?_
  · intro y hy b hmem
    have hne : y ≠ '\n' := by
      rcases List.mem_cons.mp hy with rfl | hy
      · decide
      rcases List.mem_cons.mp hy with rfl | hy
      · decide
      · exact fun heq => hbody (heq ▸ hy)
    rw [bne_iff_ne]
    rintro rfl
    by_cases hascii : y.toNat < 0x80
    · rw [encodeChar_ascii hascii, List.mem_singleton] at hmem
      exact hne ((byte_inj hascii (by decide)).mp hmem.symm)
    · exact absurd (of_mem_encodeChar (Nat.le_of_not_lt hascii) hmem) (by decide)
  · intro b hb
    cases rest with
    | nil => cases hb
    | cons y rest =>
      obtain rfl := hrest y rfl
      cases hb
      rfl

theorem At.literalLen_lineComment {body rest : List Char} (h : At bytes i ('/' :: '/' :: (body ++ rest)))
    (hbody : '\n' ∉ body) (hrest : ∀ y, rest.head? = some y → y = '\n') :
    literalLen bytes i = .ok (encode ('/' :: '/' :: body)).length := by
  obtain ⟨hb, hnext⟩ := h.cons (by decide)
  have hslash := (hnext.cons (by decide)).1
  have hindex : index bytes i = .ok (byte '/') := by rw [index, hb]
  rw [literalLen, hindex]
  show (if byte '/' = byte '/' ∧ bytes[i + 1]? = some (byte '/') then _ else _) = _
  rw [if_pos ⟨rfl, hslash⟩, h.skipLine hbody hrest, sub_of_le (Nat.le_add_right _ _)]
  congr 1
  omega

/-- The end of a block comment. -/
theorem At.blockEnd {body rest : List Char}
    (h : At bytes i ('/' :: '*' :: (body ++ '*' :: '/' :: rest))) (hbody : ¬['*', '/'] <:+: body) :
    min (commentClose bytes (i + 2) + 2) bytes.length =
      i + (encode ('/' :: '*' :: body ++ ['*', '/'])).length := by
  obtain ⟨-, hnext⟩ := h.cons (by decide)
  obtain ⟨-, hnext⟩ := hnext.cons (by decide)
  have hclose := commentClose_eq hnext hbody
  have hlen : (encode ('/' :: '*' :: body ++ ['*', '/'])).length = (encode body).length + 4 := by
    simp (disch := decide) only [List.cons_append, length_encode_cons_ascii, encode_append,
      List.length_append, encode_nil, List.length_nil]
  -- the slash of the end is there
  have hend := hnext.append.next.cons (by decide)
  rw [length_encode_ascii (by decide)] at hend
  have hlt := (List.getElem?_eq_some_iff.mp hend.1).1
  rw [hclose, Nat.min_eq_left (by omega), hlen]
  omega

theorem At.literalLen_blockComment {body rest : List Char}
    (h : At bytes i ('/' :: '*' :: (body ++ '*' :: '/' :: rest))) (hbody : ¬['*', '/'] <:+: body) :
    literalLen bytes i = .ok (encode ('/' :: '*' :: body ++ ['*', '/'])).length := by
  obtain ⟨hb, hnext⟩ := h.cons (by decide)
  have hstar := (hnext.cons (by decide)).1
  have hindex : index bytes i = .ok (byte '/') := by rw [index, hb]
  have hne : bytes[i + 1]? ≠ some (byte '/') := by
    rw [hstar]
    decide
  rw [literalLen, hindex]
  show (if byte '/' = byte '/' ∧ bytes[i + 1]? = some (byte '/') then _
    else if byte '/' = byte '/' ∧ bytes[i + 1]? = some (byte '*') then _ else _) = _
  rw [if_neg fun hline => hne hline.2, if_pos ⟨rfl, hstar⟩, h.blockEnd hbody,
    sub_of_le (Nat.le_add_right _ _)]
  congr 1
  omega

/-! ## Character literals -/

/-- An ASCII character that is no quote, and a quote: behind a quote, this is read as a character
literal. -/
def closesChar : List Char → Bool
  | x :: '\'' :: _ => x != '\'' && decide (x.toNat < 0x80)
  | _ => false

theorem charLen_one (h : At bytes (i + 1) text) (hback : text.head? ≠ some '\\')
    (hclose : closesChar text = false) : charLen bytes i = .ok 1 := by
  have hescape : bytes[i + 1]? ≠ some (byte '\\') :=
    fun hb => hback ((h.head_iff (by decide)).mp hb)
  rw [charLen, if_neg hescape, if_neg]
  rintro ⟨hfirst, hsecond⟩
  cases text with
  | nil =>
    have hnone := h.getElem? 0
    rw [Nat.add_zero] at hnone
    rw [hnone] at hfirst
    cases hfirst
  | cons x text =>
    by_cases hx : x.toNat < 0x80
    · obtain ⟨hb, hnext⟩ := h.cons hx
      have hquote := (hnext.head_iff (x := '\'') (by decide)).mp hsecond
      obtain ⟨text, rfl⟩ := List.head?_eq_some_iff.mp hquote
      rw [hb] at hfirst
      have hne : x ≠ '\'' := by
        rintro rfl
        cases hfirst
      have hcloses : closesChar (x :: '\'' :: text) = true := by simp [closesChar, hne, hx]
      rw [hclose] at hcloses
      cases hcloses
    · -- the second byte is one of the character
      have htwo : 1 < (encode [x]).length := by
        have := one_lt_length_encodeChar (Nat.le_of_not_lt hx)
        rw [encode_cons, encode_nil, List.append_nil]
        exact this
      obtain ⟨b, hb, hhigh⟩ := h.high (Nat.le_of_not_lt hx) htwo
      have heq : i + 2 = i + 1 + 1 := by omega
      rw [heq, hb, Option.some_inj] at hsecond
      subst hsecond
      exact absurd hhigh (by decide)

theorem charLen_three (h : At bytes (i + 1) (x :: '\'' :: text)) (hx : x.toNat < 0x80)
    (hescape : x ≠ '\\') (hquote : x ≠ '\'') : charLen bytes i = .ok 3 := by
  obtain ⟨hb, hnext⟩ := h.cons hx
  have hclose := (hnext.cons (by decide)).1
  have hne : ∀ y : Char, y.toNat < 0x80 → x ≠ y → byte x ≠ byte y :=
    fun y hy hxy heq => hxy ((byte_inj hx hy).mp heq)
  rw [charLen, if_neg, if_pos]
  · rw [hb]
    refine ⟨?_, hclose⟩
    simpa using hne '\'' (by decide) hquote
  · rw [hb, Option.some_inj]
    exact hne '\\' (by decide) hescape

/-- An escape, up to the first quote behind its first character. -/
theorem charLen_escape {esc rest : List Char} (h : At bytes (i + 1) ('\\' :: (esc ++ '\'' :: rest)))
    (hesc : '\'' ∉ esc) : charLen bytes i = .ok ((encode esc).length + 3) := by
  obtain ⟨hb, hnext⟩ := h.cons (by decide)
  have hskip : Expand.skipWhile bytes (· != byte '\'') (i + 2) = i + 2 + (encode esc).length := by
    refine At.skipWhile hnext ?_ ?_
    · intro y hy b hmem
      have hne : y ≠ '\'' := fun heq => hesc (heq ▸ hy)
      rw [bne_iff_ne]
      rintro rfl
      by_cases hascii : y.toNat < 0x80
      · rw [encodeChar_ascii hascii, List.mem_singleton] at hmem
        exact hne ((byte_inj hascii (by decide)).mp hmem.symm)
      · exact absurd (of_mem_encodeChar (Nat.le_of_not_lt hascii) hmem) (by decide)
    · intro b hb
      cases hb
      rfl
  have hclose := (hnext.append.cons (by decide)).1
  have hlt := (List.getElem?_eq_some_iff.mp hclose).1
  rw [charLen, if_pos hb]
  show (if Expand.skipWhile bytes (· != byte '\'') (i + 2) < bytes.length then _ else _) = _
  rw [hskip, if_pos hlt, sub_of_le (by omega)]
  show Except.ok (i + 2 + (encode esc).length - i + 1) = _
  congr 1
  omega

theorem literalLen_quote (h : bytes[i]? = some (byte '\'')) : literalLen bytes i = charLen bytes i := by
  have hindex : index bytes i = .ok (byte '\'') := by rw [index, h]
  rw [literalLen, hindex]
  rfl

/-! ## Over characters -/

/-- The scan goes over these characters. -/
def Passes (bytes : List UInt8) (o c : Char) (i : Nat) (text : List Char) : Prop :=
  Skips bytes o c i (i + (encode text).length)

/-- A character that is passed, by what stands behind it. -/
structure Neutral (o c x : Char) (text : List Char) : Prop where
  ne_open : x ≠ o
  ne_close : x ≠ c
  starts : startsAt x text →
    (x = '\'' ∧ text.head? ≠ some '\\' ∧ closesChar text = false) ∨
    ((x = 'b' ∨ x = 'c') ∧ text.head? = some 'r' ∧ rawFollows text.tail = false)

theorem Passes.nil : Passes bytes o c i [] := .refl

theorem Passes.append (h : Passes bytes o c i pre) (h' : Passes bytes o c (i + (encode pre).length) post) :
    Passes bytes o c i (pre ++ post) := by
  have hlen : i + (encode (pre ++ post)).length =
      i + (encode pre).length + (encode post).length := by
    rw [encode_append, List.length_append, Nat.add_assoc]
  rw [Passes, hlen]
  exact h.trans h'

/-- `br` or `cr` and hashes without a quote. -/
theorem At.literalLen_mark (h : At bytes i (x :: text)) (hx : x = 'b' ∨ x = 'c')
    (hr : text.head? = some 'r') (hraw : rawFollows text.tail = false) :
    literalLen bytes i = .ok 1 := by
  have hascii : x.toNat < 0x80 := by rcases hx with rfl | rfl <;> decide
  obtain ⟨hb, hnext⟩ := h.cons hascii
  have hb' := (hnext.head_iff (by decide)).mpr hr
  have htail := hnext.tail_head hr (by decide)
  have hquote : bytes[Expand.skipWhile bytes (· == byte '#') (i + 2)]? ≠ some (byte '"') := by
    intro hq
    rw [htail.rawFollows_iff.mp hq] at hraw
    cases hraw
  have hlen : rawLen bytes i (i + 2) = .ok 1 := by
    rw [rawLen]
    exact if_neg hquote
  have hne : bytes[i + 1]? ≠ some (byte '"') := by
    rw [hb']
    decide
  have hindex : index bytes i = .ok (byte x) := by rw [index, hb]
  rw [literalLen, hindex]
  rcases hx with rfl | rfl
  · show (if (byte 'b' = byte 'b' ∨ byte 'b' = byte 'c') ∧ bytes[i + 1]? = some (byte '"') then _
      else if (byte 'b' = byte 'b' ∨ byte 'b' = byte 'c') ∧ bytes[i + 1]? = some (byte 'r') then _
      else _) = _
    rw [if_neg fun hmark => hne hmark.2, if_pos ⟨.inl rfl, hb'⟩, hlen]
  · show (if (byte 'c' = byte 'b' ∨ byte 'c' = byte 'c') ∧ bytes[i + 1]? = some (byte '"') then _
      else if (byte 'c' = byte 'b' ∨ byte 'c' = byte 'c') ∧ bytes[i + 1]? = some (byte 'r') then _
      else _) = _
    rw [if_neg fun hmark => hne hmark.2, if_pos ⟨.inr rfl, hb'⟩, hlen]

theorem At.passes_char (h : At bytes i (x :: text)) (hpair : IsPair o c)
    (hneutral : Neutral o c x text) : Passes bytes o c i [x] := by
  by_cases hx : x.toNat < 0x80
  · obtain ⟨hb, hnext⟩ := h.cons hx
    have ho : byte x ≠ byte o := fun heq => hneutral.ne_open ((byte_inj hx hpair.ascii.1).mp heq)
    have hc : byte x ≠ byte c := fun heq => hneutral.ne_close ((byte_inj hx hpair.ascii.2).mp heq)
    have hstarts := h.startsLiteral_eq hx
    rw [Passes, length_encode_ascii hx]
    cases hs : startsAt x text with
    | false => exact skips_of_not_literal hb ho hc (hs ▸ hstarts)
    | true =>
      refine skips_of_literal (n := 0) hb ho hc (hs ▸ hstarts) ?_
      rcases hneutral.starts hs with ⟨rfl, hback, hclose⟩ | ⟨hmark, hr, hraw⟩
      · rw [literalLen_quote hb, charLen_one hnext hback hclose]
      · exact h.literalLen_mark hmark hr hraw
  · exact skips_of_high hpair fun k hk => h.high (Nat.le_of_not_lt hx) hk

/-- A literal that starts here. -/
theorem At.passes_literal (h : At bytes i (x :: text)) (hx : x.toNat < 0x80) (ho : x ≠ o)
    (hc : x ≠ c) (hpair : IsPair o c) (hstarts : startsAt x text) (hne : pre ≠ [])
    (hlen : literalLen bytes i = .ok (encode pre).length) : Passes bytes o c i pre := by
  obtain ⟨n, hn⟩ : ∃ n, (encode pre).length = n + 1 := by
    cases pre with
    | nil => exact absurd rfl hne
    | cons y pre =>
      have := encodeChar_ne_nil y
      rw [encode_cons, List.length_append]
      exact ⟨(String.utf8EncodeChar y).length + (encode pre).length - 1, by omega⟩
  rw [Passes, hn]
  rw [hn] at hlen
  have heq := h.startsLiteral_eq hx
  rw [hstarts] at heq
  exact skips_of_literal (h.cons hx).1 (fun he => ho ((byte_inj hx hpair.ascii.1).mp he))
    (fun he => hc ((byte_inj hx hpair.ascii.2).mp he)) heq hlen

theorem At.passes_run (h : At bytes i (run ++ post)) (hpair : IsPair o c)
    (hrun : ∀ before x after, run = before ++ x :: after → Neutral o c x (after ++ post)) :
    Passes bytes o c i run := by
  induction run generalizing i with
  | nil => exact .nil
  | cons x run ih =>
    have hx : Passes bytes o c i [x] := At.passes_char h hpair (hrun [] x run rfl)
    exact hx.append (ih (At.next h) fun before y after heq =>
      hrun (x :: before) y after (by rw [heq]; rfl))

/-! ## Over lexemes -/

/-- The end of a word and a quote that is not its own: together they are read as a literal. -/
def glued (word rest : List Char) : Bool :=
  (word.getLast? == some 'r' && rawFollows rest) ||
    ((word.getLast? == some 'b' || word.getLast? == some 'c') && rest.head? == some '"')

/-- The closing quote of this character literal is taken for an opening one. -/
def misquoted (body rest : List Char) : Bool :=
  (body == ['\\', '\''] || body.any (0x80 ≤ ·.toNat)) && closesChar rest

/-- The lexemes that the scan does not come to the end of: a nested block comment, a literal of an
escaped quote or of a character that is not ASCII with a quote behind the next character, and a
suffix, a lifetime or a raw word that is read together with the string behind it. -/
def misread (lexeme : Lexeme) (rest : List Char) : Bool :=
  glued lexeme.text rest || match lexeme with
    | .blockComment body => decide (['*', '/'] <:+: body)
    | .char _ body suff => misquoted body (suff ++ rest)
    | _ => false

variable {X : Xid} {lexeme : Lexeme} {rest body suff : List Char}

theorem glued_append (h : glued (pre ++ run) rest = false) : glued run rest = false := by
  cases run with
  | nil => rfl
  | cons x run =>
    unfold glued at h ⊢
    rwa [List.getLast?_append_of_ne_nil _ (List.cons_ne_nil x run)] at h

theorem rawFollows_cons (hhash : x ≠ '#') (hquote : x ≠ '"') : rawFollows (x :: text) = false := by
  have hneg : ¬(x == '#') = true := by simpa using hhash
  rw [rawFollows, List.dropWhile_cons_of_neg (p := (· == '#')) hneg]
  simpa using hquote

theorem startsAt_cases (h : startsAt x text) : x = '"' ∨ x = '\'' ∨ (x = 'r' ∧ rawFollows text) ∨
    ((x = 'b' ∨ x = 'c') ∧ (text.head? = some '"' ∨ text.head? = some 'r')) ∨ x = '/' := by
  unfold startsAt at h
  split at h
  · rename_i hx
    exact hx.elim .inl fun hx => .inr (.inl hx)
  split at h
  · rename_i hx
    exact .inr (.inr (.inl ⟨hx, h⟩))
  split at h
  · rename_i hx
    refine .inr (.inr (.inr (.inl ⟨hx, ?_⟩)))
    rcases Bool.or_eq_true_iff.mp h with h | h
    · exact .inl (beq_iff_eq.mp h)
    · exact .inr (beq_iff_eq.mp (Bool.and_eq_true_iff.mp h).1)
  · exact .inr (.inr (.inr (.inr (beq_iff_eq.mp (Bool.and_eq_true_iff.mp h).1))))

theorem rawFollows_run (hchars : ∀ y ∈ run, IsNumberChar X y)
    (hglued : glued ('r' :: run) rest = false) : rawFollows (run ++ rest) = false := by
  cases run with
  | nil => exact (Bool.or_eq_false_iff.mp hglued).1
  | cons y run =>
    have hy := hchars y List.mem_cons_self
    exact rawFollows_cons (hy.ne (by decide) (by decide) (by decide))
      (hy.ne (by decide) (by decide) (by decide))

/-- The characters of a word or a number. -/
theorem neutral_of_chars (hpair : IsPair o c) (hchars : ∀ x ∈ run, IsNumberChar X x)
    (hglued : glued run rest = false) (hrest : rest.head?.any X.wordStart = false)
    (before : List Char) (x : Char) (after : List Char) (heq : run = before ++ x :: after) :
    Neutral o c x (after ++ rest) := by
  have hmem : ∀ y ∈ x :: after, IsNumberChar X y :=
    fun y hy => hchars y (heq ▸ List.mem_append_right before hy)
  have hx := hmem x List.mem_cons_self
  have hglued : glued (x :: after) rest = false := glued_append (heq ▸ hglued)
  refine ⟨?_, ?_, fun hstarts => ?_⟩
  · cases hpair <;> exact hx.ne (by decide) (by decide) (by decide)
  · cases hpair <;> exact hx.ne (by decide) (by decide) (by decide)
  rcases startsAt_cases hstarts with hq | hq | ⟨rfl, hraw⟩ | ⟨hmark, hnext⟩ | hq
  · exact absurd hq (hx.ne (by decide) (by decide) (by decide))
  · exact absurd hq (hx.ne (by decide) (by decide) (by decide))
  · rw [rawFollows_run (fun y hy => hmem y (List.mem_cons_of_mem _ hy)) hglued] at hraw
    cases hraw
  · cases after with
    | nil =>
      rcases hnext with hnext | hnext
      · -- the quote of the string behind the word
        have hlast : ((([x] : List Char).getLast? == some 'b' || [x].getLast? == some 'c') &&
            rest.head? == some '"') = false := (Bool.or_eq_false_iff.mp hglued).2
        have hhead : (rest.head? == some '"') = true := beq_iff_eq.mpr hnext
        rw [hhead] at hlast
        rcases hmark with rfl | rfl <;> cases hlast
      · have hhead : rest.head? = some 'r' := hnext
        rw [hhead] at hrest
        have hstart : X.wordStart 'r' = false := hrest
        rw [wordStart_of_isAlpha (by decide)] at hstart
        cases hstart
    | cons y after =>
      have hy := hmem y (List.mem_cons_of_mem _ List.mem_cons_self)
      rcases hnext with hnext | hnext
      · have hquote : y = '"' := Option.some_inj.mp hnext
        exact absurd hquote (hy.ne (by decide) (by decide) (by decide))
      · obtain rfl : y = 'r' := Option.some_inj.mp hnext
        have hrun : glued ([x] ++ 'r' :: after) rest = false := hglued
        refine .inr ⟨hmark, rfl, rawFollows_run (fun z hz => hmem z ?_) (glued_append hrun)⟩
        exact List.mem_cons_of_mem _ (List.mem_cons_of_mem _ hz)
  · exact absurd hq (hx.ne (by decide) (by decide) (by decide))

/-- A character with no meaning for the scan. -/
theorem neutral_of_ne (ho : x ≠ o) (hc : x ≠ c)
    (hx : x ∉ ['"', '\'', 'r', 'b', 'c', '/']) : Neutral o c x text := by
  refine ⟨ho, hc, fun hstarts => ?_⟩
  exfalso
  apply hx
  rcases startsAt_cases hstarts with rfl | rfl | ⟨rfl, -⟩ | ⟨rfl | rfl, -⟩ | rfl
  all_goals decide

/-- A character of the scan that is no delimiter of this pair. -/
theorem IsPair.ne {y : Char} (hpair : IsPair o c) (hy : y ∉ ['(', ')', '[', ']', '{', '}']) :
    y ≠ o ∧ y ≠ c := by
  cases hpair
  all_goals
    constructor
    all_goals
      rintro rfl
      exact hy (by decide)

theorem At.passes_word {name : List Char} (h : At bytes i (name ++ rest)) (hpair : IsPair o c)
    (hword : ∀ x ∈ name, X.cont x) (hrest : rest.head?.any X.wordStart = false)
    (hglued : glued name rest = false) : Passes bytes o c i name :=
  At.passes_run h hpair (neutral_of_chars hpair (fun x hx => .inl (hword x hx)) hglued hrest)

theorem At.passes_suffix (h : At bytes i (suff ++ rest)) (hpair : IsPair o c)
    (hsuff : suffix X (suff ++ rest) = suff) (hglued : glued suff rest = false) :
    Passes bytes o c i suff :=
  At.passes_word h hpair (fun _ hx => cont_of_mem_suffix hsuff hx) (not_wordStart_of_suffix hsuff)
    hglued

/-- `r#` and a word. -/
theorem At.passes_rawName {name : List Char} (h : At bytes i ('r' :: '#' :: (name ++ rest)))
    (hpair : IsPair o c) (hword : IsWord X name rest) (hglued : glued name rest = false) :
    Passes bytes o c i ('r' :: '#' :: name) := by
  obtain ⟨x, tail, rfl, hx⟩ := hword.exists_cons
  have hchar : IsNumberChar X x := .inl (cont_of_wordStart hx)
  have hraw : rawFollows ('#' :: (x :: tail ++ rest)) = false := by
    have hpos : (('#' : Char) == '#') = true := rfl
    have heq : rawFollows ('#' :: (x :: tail ++ rest)) = rawFollows (x :: tail ++ rest) := by
      rw [rawFollows, List.dropWhile_cons_of_pos (p := (· == '#')) hpos, rawFollows]
    rw [heq]
    exact rawFollows_cons (hchar.ne (by decide) (by decide) (by decide))
      (hchar.ne (by decide) (by decide) (by decide))
  have hr : Neutral o c 'r' ('#' :: (x :: tail ++ rest)) := by
    refine ⟨(hpair.ne (by decide)).1, (hpair.ne (by decide)).2, fun hstarts => ?_⟩
    have hstarts : rawFollows ('#' :: (x :: tail ++ rest)) = true := hstarts
    rw [hraw] at hstarts
    cases hstarts
  have hhash : Neutral o c '#' (x :: tail ++ rest) :=
    neutral_of_ne (hpair.ne (by decide)).1 (hpair.ne (by decide)).2 (by decide)
  have hfirst : Passes bytes o c i ['r'] := At.passes_char h hpair hr
  have hsecond : Passes bytes o c (i + (encode ['r']).length) ['#'] :=
    At.passes_char (At.next h) hpair hhash
  have hname := At.passes_word (At.next (At.next h)) hpair hword.cont
    (not_wordStart_of_not_cont hword.maximal) hglued
  exact hfirst.append (hsecond.append hname)

/-- Behind the quote of a lifetime there is no character literal. -/
theorem closesChar_word {name : List Char} (hword : IsWord X name rest)
    (hrest : rest.head? ≠ some '\'') : closesChar (name ++ rest) = false := by
  obtain ⟨x, tail, rfl, -⟩ := hword.exists_cons
  have hsecond : ∀ y, (tail ++ rest).head? = some y → y ≠ '\'' := by
    cases tail with
    | nil =>
      rintro y hy rfl
      exact hrest hy
    | cons y tail =>
      rintro y' hy rfl
      have hchar : IsNumberChar X y := .inl (hword.cont y (by simp))
      exact hchar.ne (by decide) (by decide) (by decide) (Option.some_inj.mp hy)
  rw [List.cons_append]
  unfold closesChar
  split
  · rename_i heq
    exact absurd rfl (hsecond '\'' (by rw [(List.cons.inj heq).2]; rfl))
  · rfl

theorem head?_ne_of_isWord {name : List Char} (hword : IsWord X name rest) :
    (name ++ rest).head? ≠ some '\\' := by
  obtain ⟨x, tail, rfl, hx⟩ := hword.exists_cons
  have hchar : IsNumberChar X x := .inl (cont_of_wordStart hx)
  exact fun heq => hchar.ne (by decide) (by decide) (by decide) (Option.some_inj.mp heq)

theorem head?_ne_of_suffix (hsuff : suffix X (suff ++ rest) = suff) (hrest : rest.head? ≠ some '\\') :
    (suff ++ rest).head? ≠ some '\\' := by
  cases suff with
  | nil => exact hrest
  | cons x suff =>
    have hx : IsNumberChar X x := .inl (cont_of_mem_suffix hsuff List.mem_cons_self)
    exact fun heq => absurd (Option.some_inj.mp heq) (hx.ne (by decide) (by decide) (by decide))

theorem At.passes_lifetime {name : List Char} (h : At bytes i ('\'' :: (name ++ rest)))
    (hpair : IsPair o c) (hword : IsWord X name rest) (hrest : rest.head? ≠ some '\'')
    (hglued : glued name rest = false) : Passes bytes o c i ('\'' :: name) := by
  have hquote : Neutral o c '\'' (name ++ rest) :=
    ⟨(hpair.ne (by decide)).1, (hpair.ne (by decide)).2,
      fun _ => .inl ⟨rfl, head?_ne_of_isWord hword, closesChar_word hword hrest⟩⟩
  have hfirst : Passes bytes o c i ['\''] := At.passes_char h hpair hquote
  exact hfirst.append (At.passes_word (At.next h) hpair hword.cont
    (not_wordStart_of_not_cont hword.maximal) hglued)

theorem At.passes_rawLifetime {name : List Char} (h : At bytes i ('\'' :: 'r' :: '#' :: (name ++ rest)))
    (hpair : IsPair o c) (hword : IsWord X name rest) (hglued : glued name rest = false) :
    Passes bytes o c i ('\'' :: 'r' :: '#' :: name) := by
  have hquote : Neutral o c '\'' ('r' :: '#' :: (name ++ rest)) := by
    refine ⟨(hpair.ne (by decide)).1, (hpair.ne (by decide)).2, fun _ => .inl ⟨rfl, ?_, rfl⟩⟩
    intro hback
    exact absurd (Option.some_inj.mp hback) (by decide)
  have hfirst : Passes bytes o c i ['\''] := At.passes_char h hpair hquote
  exact hfirst.append (At.passes_rawName (At.next h) hpair hword hglued)

/-- The closing quote of a literal that the scan does not take for one. -/
theorem At.passes_quote (h : At bytes i ('\'' :: text)) (hpair : IsPair o c)
    (hback : text.head? ≠ some '\\') (hclose : closesChar text = false) :
    Passes bytes o c i ['\''] :=
  At.passes_char h hpair
    ⟨(hpair.ne (by decide)).1, (hpair.ne (by decide)).2, fun _ => .inl ⟨rfl, hback, hclose⟩⟩

/-- The length of a character literal, unless the character is a quote or not of ASCII. -/
theorem charLen_body (h : At bytes (i + 1) (body ++ '\'' :: text)) (hbody : IsCharBody body)
    (hone : ∀ x, body = [x] → x.toNat < 0x80) (hquoted : body ≠ ['\\', '\'']) :
    charLen bytes i = .ok (encode ('\'' :: body ++ ['\''])).length := by
  cases hbody with
  | @one x hx hescape =>
    have hascii := hone x rfl
    have hlen : (encode ('\'' :: [x] ++ ['\''])).length = 3 := by
      simp (disch := decide) only [List.cons_append, List.nil_append,
        length_encode_cons_ascii hascii, length_encode_cons_ascii, encode_nil, List.length_nil]
    rw [hlen]
    exact charLen_three h hascii hescape hx
  | @escape y tail htail hquote =>
    have hesc : '\'' ∉ y :: tail := by
      intro hmem
      rcases List.mem_cons.mp hmem with rfl | hmem
      · exact hquoted (by rw [hquote rfl])
      · exact htail hmem
    have hlen : (encode ('\'' :: ('\\' :: y :: tail) ++ ['\''])).length =
        (encode (y :: tail)).length + 3 := by
      have heq : ('\'' :: ('\\' :: y :: tail) ++ ['\'']) =
          ['\'', '\\'] ++ (y :: tail) ++ ['\''] := rfl
      rw [heq, encode_append, encode_append, List.length_append, List.length_append]
      generalize (encode (y :: tail)).length = k
      simp (disch := decide) only [length_encode_cons_ascii, encode_nil, List.length_nil]
      omega
    rw [hlen]
    exact charLen_escape h hesc

/-- The literal of an escaped quote is read up to that quote. -/
theorem charLen_escapedQuote (h : At bytes (i + 1) ('\\' :: '\'' :: text)) :
    charLen bytes i = .ok (encode ['\'', '\\', '\'']).length := by
  have hat : At bytes (i + 1) ('\\' :: ([] ++ '\'' :: text)) := h
  exact charLen_escape hat List.not_mem_nil

theorem At.passes_charBody (h : At bytes i ('\'' :: (body ++ '\'' :: text))) (hpair : IsPair o c)
    (hbody : IsCharBody body) (hmisquoted : misquoted body text = false)
    (hback : text.head? ≠ some '\\') : Passes bytes o c i ('\'' :: body ++ ['\'']) := by
  obtain ⟨hquote, hnext⟩ := h.cons (by decide)
  have hopen : ∀ pre : List Char, pre ≠ [] → charLen bytes i = .ok (encode pre).length →
      Passes bytes o c i pre := fun pre hne hlen =>
    At.passes_literal h (by decide) (hpair.ne (by decide)).1 (hpair.ne (by decide)).2 hpair rfl hne
      (by rw [literalLen_quote hquote, hlen])
  by_cases hquoted : body = ['\\', '\'']
  · subst hquoted
    have hclose : closesChar text = false := by
      unfold misquoted at hmisquoted
      rwa [beq_self_eq_true, Bool.true_or, Bool.true_and] at hmisquoted
    have hfirst : Passes bytes o c i ['\'', '\\', '\''] :=
      hopen _ (List.cons_ne_nil _ _) (charLen_escapedQuote hnext)
    have hat : At bytes i (['\'', '\\', '\''] ++ '\'' :: text) := h
    exact hfirst.append (At.passes_quote hat.append hpair hback hclose)
  by_cases hone : ∀ x, body = [x] → x.toNat < 0x80
  · exact hopen _ (by simp) (charLen_body hnext hbody hone hquoted)
  · -- three characters, one after the other
    simp only [not_forall] at hone
    obtain ⟨x, rfl, hascii⟩ := hone
    have hclose : closesChar text = false := by
      have hany : [x].any (0x80 ≤ ·.toNat) = true := by simpa using hascii
      unfold misquoted at hmisquoted
      rw [hany, Bool.or_true, Bool.true_and] at hmisquoted
      exact hmisquoted
    have hfirst : Passes bytes o c i ['\''] := by
      refine At.passes_quote h hpair (fun hback => ?_) ?_
      · obtain rfl : x = '\\' := Option.some_inj.mp hback
        exact hascii (by decide)
      · unfold closesChar
        split
        · rename_i heq
          cases heq
          simpa using fun _ => Nat.le_of_not_lt hascii
        · rfl
    have hsecond : Passes bytes o c (i + (encode ['\'']).length) [x] :=
      skips_of_high hpair fun k hk => At.high (At.next h) (Nat.le_of_not_lt hascii) hk
    have hat : At bytes i (['\'', x] ++ '\'' :: text) := h
    exact (hfirst.append hsecond).append (At.passes_quote hat.append hpair hback hclose)

theorem IsPair.quotes (hpair : IsPair o c) (hx : x ∈ ['"', '\'', 'r', 'b', 'c', '/', '#']) :
    x ≠ o ∧ x ≠ c := by
  have hsides : ∀ x ∈ ['"', '\'', 'r', 'b', 'c', '/', '#'], x ∉ ['(', ')', '[', ']', '{', '}'] :=
    List.all_iff_forall_prop.mp (by decide)
  exact hpair.ne (hsides x hx)

theorem At.passes_str {mark : Mark} (h : At bytes i (mark.text ++ '"' :: (body ++ '"' :: text)))
    (hpair : IsPair o c) (hbody : strBody (body ++ '"' :: text) = some (body, text)) :
    Passes bytes o c i (mark.text ++ '"' :: body ++ ['"']) := by
  cases mark with
  | plain =>
    exact At.passes_literal h (by decide) (hpair.quotes (by decide)).1 (hpair.quotes (by decide)).2
      hpair rfl (List.cons_ne_nil _ _) (At.literalLen_string h hbody)
  | byte =>
    exact At.passes_literal h (by decide) (hpair.quotes (by decide)).1 (hpair.quotes (by decide)).2
      hpair rfl (List.cons_ne_nil _ _) (At.literalLen_marked (.inl rfl) h hbody)
  | c =>
    exact At.passes_literal h (by decide) (hpair.quotes (by decide)).1 (hpair.quotes (by decide)).2
      hpair rfl (List.cons_ne_nil _ _) (At.literalLen_marked (.inr rfl) h hbody)

theorem rawFollows_hashText (n : Nat) (text : List Char) :
    rawFollows (Lexeme.hashText n ++ '"' :: text) = true := by
  rw [rawFollows, (takeWhile_hashText n text).2]
  rfl

theorem At.passes_hashes (h : At bytes i (Lexeme.hashText n ++ text)) (hpair : IsPair o c) :
    Passes bytes o c i (Lexeme.hashText n) := by
  refine At.passes_run h hpair fun before x after heq => ?_
  have hmem : x ∈ Lexeme.hashText n := by
    rw [heq]
    exact List.mem_append_right before List.mem_cons_self
  obtain rfl := List.eq_of_mem_replicate hmem
  exact neutral_of_ne (hpair.quotes (by decide)).1 (hpair.quotes (by decide)).2 (by decide)

theorem At.passes_rawStr {mark : Mark}
    (h : At bytes i (mark.text ++ 'r' :: (Lexeme.hashText n ++ '"' ::
      (body ++ '"' :: Lexeme.hashText n ++ text)))) (hpair : IsPair o c)
    (hbody : rawBody n (body ++ '"' :: Lexeme.hashText n ++ text) = some (body, text)) :
    Passes bytes o c i (mark.text ++ 'r' :: (Lexeme.hashText n ++ '"' :: body ++ ['"'])) := by
  have hraw := rawFollows_hashText n (body ++ '"' :: Lexeme.hashText n ++ text)
  cases mark with
  | plain =>
    exact At.passes_literal h (by decide) (hpair.quotes (by decide)).1 (hpair.quotes (by decide)).2
      hpair hraw (List.cons_ne_nil _ _) (At.literalLen_raw h hbody)
  | byte =>
    refine At.passes_literal h (by decide) (hpair.quotes (by decide)).1 (hpair.quotes (by decide)).2
      hpair ?_ (List.cons_ne_nil _ _) (At.literalLen_marked_raw (.inl rfl) h hbody)
    cases n <;> rfl
  | c =>
    refine At.passes_literal h (by decide) (hpair.quotes (by decide)).1 (hpair.quotes (by decide)).2
      hpair ?_ (List.cons_ne_nil _ _) (At.literalLen_marked_raw (.inr rfl) h hbody)
    cases n <;> rfl

theorem At.passes_punct (h : At bytes i (x :: rest)) (hpair : IsPair o c) (hx : x ∈ punctuation)
    (hslash : x = '/' → rest.head? ∉ [some '/', some '*']) (ho : x ≠ o) (hc : x ≠ c) :
    Passes bytes o c i [x] := by
  refine At.passes_char h hpair ⟨ho, hc, fun hstarts => ?_⟩
  exfalso
  by_cases hcomment : x = '/'
  · subst hcomment
    have hstarts : (rest.head? == some '/' || rest.head? == some '*') = true := hstarts
    apply hslash rfl
    rcases Bool.or_eq_true_iff.mp hstarts with hhead | hhead
    · exact List.mem_cons.mpr (.inl (beq_iff_eq.mp hhead))
    · exact List.mem_cons_of_mem _ (List.mem_singleton.mpr (beq_iff_eq.mp hhead))
  · rcases startsAt_cases hstarts with rfl | rfl | ⟨rfl, -⟩ | ⟨rfl | rfl, -⟩ | rfl
    · exact absurd hx (by decide)
    · exact absurd hx (by decide)
    · exact absurd hx (by decide)
    · exact absurd hx (by decide)
    · exact absurd hx (by decide)
    · exact hcomment rfl

theorem At.passes_space (h : At bytes i (x :: rest)) (hpair : IsPair o c) (hx : isWhitespace x) :
    Passes bytes o c i [x] := by
  have hne : ∀ y : Char, isWhitespace y = false → x ≠ y := by
    rintro y hy rfl
    rw [hx] at hy
    cases hy
  refine At.passes_char h hpair (neutral_of_ne ?_ ?_ ?_)
  · cases hpair <;> exact hne _ (by decide)
  · cases hpair <;> exact hne _ (by decide)
  · intro hmem
    simp only [List.mem_cons, List.not_mem_nil, or_false] at hmem
    rcases hmem with h | h | h | h | h | h
    all_goals exact hne _ (by decide) h

/-- **The scan comes to the end of a lexeme that it does not misread**, and counts nothing unless
the lexeme is one of its delimiters. -/
theorem At.passes_lexeme (h : At bytes i (lexeme.text ++ rest)) (hpair : IsPair o c)
    (hlexed : Lexed X lexeme rest) (hmisread : misread lexeme rest = false)
    (hback : rest.head? ≠ some '\\') (ho : lexeme ≠ .punct o) (hc : lexeme ≠ .punct c) :
    Passes bytes o c i lexeme.text := by
  obtain ⟨hglued, hmisread⟩ := Bool.or_eq_false_iff.mp hmisread
  cases lexeme with
  | space x => exact At.passes_space h hpair hlexed
  | lineComment body =>
    exact At.passes_literal h (by decide) (hpair.quotes (by decide)).1 (hpair.quotes (by decide)).2
      hpair rfl (List.cons_ne_nil _ _) (At.literalLen_lineComment h hlexed.1 hlexed.2)
  | blockComment body =>
    have hat : At bytes i ('/' :: '*' :: (body ++ '*' :: '/' :: rest)) := by
      simpa [Lexeme.text] using h
    have hnest : ¬['*', '/'] <:+: body := of_decide_eq_false hmisread
    exact At.passes_literal hat (by decide) (hpair.quotes (by decide)).1
      (hpair.quotes (by decide)).2 hpair rfl (List.cons_ne_nil _ _)
      (At.literalLen_blockComment hat hnest)
  | word name =>
    exact At.passes_word h hpair hlexed.1.cont (not_wordStart_of_not_cont hlexed.1.maximal) hglued
  | rawWord name =>
    have hname : glued (['r', '#'] ++ name) rest = false := hglued
    exact At.passes_rawName h hpair hlexed (glued_append hname)
  | lifetime name =>
    have hname : glued (['\''] ++ name) rest = false := hglued
    refine At.passes_lifetime h hpair hlexed.1 (fun hquote => hlexed.2 ?_) (glued_append hname)
    rw [hquote]
    exact List.mem_cons_self
  | rawLifetime name =>
    have hname : glued (['\'', 'r', '#'] ++ name) rest = false := hglued
    exact At.passes_rawLifetime h hpair hlexed (glued_append hname)
  | char isByte body suff =>
    obtain ⟨hbody, -, hsuff⟩ := hlexed
    have hback' := head?_ne_of_suffix hsuff hback
    have hquoted : ∀ i, At bytes i ('\'' :: (body ++ '\'' :: (suff ++ rest))) →
        glued suff rest = false →
        Passes bytes o c i (('\'' :: body ++ ['\'']) ++ suff) := by
      intro i hat hglued
      have hat' : At bytes i (('\'' :: body ++ ['\'']) ++ (suff ++ rest)) := by simpa using hat
      exact (At.passes_charBody hat hpair (charBody_eq hbody).2 hmisread hback').append
        (At.passes_suffix hat'.append hpair hsuff hglued)
    cases isByte with
    | false =>
      have htext : (Lexeme.char false body suff).text = ('\'' :: body ++ ['\'']) ++ suff := by
        simp [Lexeme.text]
      rw [htext] at h hglued ⊢
      exact hquoted i (by simpa using h) (glued_append hglued)
    | true =>
      have htext : (Lexeme.char true body suff).text = ['b'] ++ (('\'' :: body ++ ['\'']) ++ suff) := by
        simp [Lexeme.text]
      rw [htext] at h hglued ⊢
      have hat : At bytes i ('b' :: '\'' :: (body ++ '\'' :: (suff ++ rest))) := by simpa using h
      have hb : Passes bytes o c i ['b'] := by
        refine At.passes_char hat hpair
          ⟨(hpair.quotes (by decide)).1, (hpair.quotes (by decide)).2, fun hstarts => ?_⟩
        rcases startsAt_cases hstarts with heq | heq | ⟨heq, -⟩ | ⟨-, heq | heq⟩ | heq
        all_goals exact absurd heq (by simp)
      exact hb.append (hquoted _ hat.next (glued_append (glued_append hglued)))
  | str mark body suff =>
    obtain ⟨hbody, hsuff⟩ := hlexed
    have htext : (Lexeme.str mark body suff).text = (mark.text ++ '"' :: body ++ ['"']) ++ suff := by
      simp [Lexeme.text]
    rw [htext] at h hglued ⊢
    have hat : At bytes i (mark.text ++ '"' :: (body ++ '"' :: (suff ++ rest))) := by simpa using h
    have hstr := At.passes_str hat hpair hbody
    have hat' : At bytes i ((mark.text ++ '"' :: body ++ ['"']) ++ (suff ++ rest)) := by simpa using h
    have hstr' : Passes bytes o c i (mark.text ++ '"' :: body ++ ['"']) := by simpa using hstr
    exact hstr'.append (At.passes_suffix hat'.append hpair hsuff (glued_append hglued))
  | rawStr mark hashes body suff =>
    obtain ⟨hbody, hsuff⟩ := hlexed
    have htext : (Lexeme.rawStr mark hashes body suff).text =
        (mark.text ++ 'r' :: (Lexeme.hashText hashes ++ '"' :: body ++ ['"'])) ++
          (Lexeme.hashText hashes ++ suff) := by
      simp [Lexeme.text]
    rw [htext] at h hglued ⊢
    have hat : At bytes i (mark.text ++ 'r' :: (Lexeme.hashText hashes ++ '"' ::
        (body ++ '"' :: Lexeme.hashText hashes ++ (suff ++ rest)))) := by simpa using h
    have hat' : At bytes i ((mark.text ++ 'r' :: (Lexeme.hashText hashes ++ '"' :: body ++ ['"'])) ++
        (Lexeme.hashText hashes ++ (suff ++ rest))) := by simpa using h
    have hhashes := At.passes_hashes hat'.append hpair
    exact (At.passes_rawStr hat hpair hbody).append
      (hhashes.append (At.passes_suffix hat'.append.append hpair hsuff
        (glued_append (glued_append hglued))))
  | number body suff =>
    obtain ⟨hbody, -, hsuff⟩ := hlexed
    refine At.passes_run h hpair (neutral_of_chars (X := X) hpair (fun x hx => ?_) hglued
      (not_wordStart_of_suffix hsuff))
    rcases List.mem_append.mp hx with hx | hx
    · exact (numberBody_part hbody).chars x hx
    · exact .inl (cont_of_mem_suffix hsuff hx)
  | punct x =>
    exact At.passes_punct h hpair hlexed.1 hlexed.2 (fun heq => ho (heq ▸ rfl))
      (fun heq => hc (heq ▸ rfl))

end

end Rticx.Expand
