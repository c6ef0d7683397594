import Mathlib.Data.List.DropRight
import Rticx.Expand.Apps

/-!
# Locating an app

`locate_app_item` from the attribute of an app on, when no lexeme up to the end of the module is
misread and the attribute and the module are written in the way that it knows.
-/

namespace Rticx.Expand

open Rticx.Lib Rticx.Lib.Except Rticx.Lib.Utf8 Rticx.Lib.Rust

/-- Whitespace that the search skips, and comments. -/
def isSkipped : Lexeme → Bool
  | .space x => decide (x.toNat < 0x80) && isAsciiWhitespace (byte x)
  | .lineComment _ | .blockComment _ => true
  | _ => false

/-- A name of ASCII. -/
def isPlainName : Lexeme → Bool
  | .word name => name.all fun x => decide (x.toNat < 0x80)
  | _ => false

/-- The grammar that the search knows. -/
def simple : Dialect := ⟨isSkipped, fun _ => false, isPlainName, false⟩

/-- None of these lexemes is misread, with the rest behind them. -/
def allRead (rest : List Lexeme) : List Lexeme → Bool
  | [] => true
  | l :: region => !misread l (texts (region ++ rest)) && allRead rest region

/-- The lexemes from one place to a later one are not misread. -/
def ReadTo (rest ls : List Lexeme) : Prop := ∃ region, ls = region ++ rest ∧ allRead rest region

/-- The rest of the text from here on has these lexemes. -/
structure Here (X : Xid) (bytes : List UInt8) (i : Nat) (ls : List Lexeme) : Prop where
  at' : At bytes i (texts ls)
  lexed : AllLexed X ls
  le : i ≤ bytes.length

section

variable {X : Xid} {bytes : List UInt8} {i j e depth : Nat} {b : UInt8} {o c x : Char}
  {l : Lexeme} {ls ls' rest region pre post : List Lexeme}

theorem allRead_append : allRead rest (pre ++ post) = (allRead (post ++ rest) pre && allRead rest post) := by
  induction pre with
  | nil => rfl
  | cons l pre ih =>
    rw [List.cons_append, allRead, ih, allRead, List.append_assoc, Bool.and_assoc]

/-- A place in between. -/
theorem ReadTo.split (h : ReadTo rest ls) (h₁ : ls' <:+ ls) (h₂ : rest <:+ ls') :
    ReadTo ls' ls ∧ ReadTo rest ls' := by
  obtain ⟨region, rfl, hread⟩ := h
  obtain ⟨pre, hpre⟩ := h₁
  obtain ⟨post, rfl⟩ := h₂
  have heq : region = pre ++ post := by
    rw [← List.append_assoc] at hpre
    exact (List.append_cancel_right hpre).symm
  subst heq
  rw [allRead_append, Bool.and_eq_true] at hread
  exact ⟨⟨pre, List.append_assoc _ _ _, hread.1⟩, post, rfl, hread.2⟩

theorem ReadTo.cons (h : ReadTo rest (l :: ls)) (hne : l :: ls ≠ rest) :
    misread l (texts ls) = false ∧ ReadTo rest ls := by
  obtain ⟨region, heq, hread⟩ := h
  cases region with
  | nil => exact absurd heq hne
  | cons l' region =>
    cases heq
    obtain ⟨hl, hregion⟩ := Bool.and_eq_true_iff.mp hread
    exact ⟨by simpa using hl, region, rfl, hregion⟩

theorem Here.next (h : Here X bytes i (l :: ls)) : Here X bytes (i + (encode l.text).length) ls := by
  have hat := h.at'
  rw [texts_cons] at hat
  refine ⟨hat.append, h.lexed.2, ?_⟩
  have hlen := congrArg List.length hat
  rw [List.length_drop, encode_append, List.length_append] at hlen
  have := h.le
  have hpos : 0 < (encode l.text).length := by
    cases htext : l.text with
    | nil => exact absurd htext h.lexed.1.text_ne_nil
    | cons y t =>
      have := encodeChar_ne_nil y
      rw [encode_cons, List.length_append]
      omega
  omega

theorem Here.punct (h : Here X bytes i (.punct x :: ls)) (hx : x.toNat < 0x80) :
    bytes[i]? = some (byte x) ∧ Here X bytes (i + 1) ls := by
  have hat : At bytes i (x :: texts ls) := h.at'
  have hnext := h.next
  have hlen : (encode (Lexeme.punct x).text).length = 1 := length_encode_ascii hx
  rw [hlen] at hnext
  exact ⟨(hat.cons hx).1, hnext⟩

theorem behind_of_countClose (h : countClose o c depth ls = some rest) : Behind rest ls := by
  induction ls generalizing depth with
  | nil => cases h
  | cons l ls ih =>
    rw [countClose] at h
    split at h
    · exact (ih h).cons
    split at h
    · split at h
      · cases h
        exact .head
      · exact (ih h).cons
    · exact (ih h).cons

/-- **The loop of the scan counts what is counted among the lexemes.** -/
theorem matchingLoop_eq (hpair : IsPair o c) (h : Here X bytes i ls)
    (hclose : countClose o c depth ls = some rest) (hdepth : 1 ≤ depth) (hread : ReadTo rest ls) :
    ∃ e, matchingLoop bytes (startsLiteral bytes) (byte o) (byte c) depth i = .ok (some e) ∧
      Here X bytes (e + 1) rest := by
  have hbytes : byte c ≠ byte o := by cases hpair <;> decide
  induction ls generalizing depth i with
  | nil => cases hclose
  | cons l ls ih =>
    have hne : l :: ls ≠ rest := by
      rintro rfl
      exact absurd (behind_of_countClose hclose).length_lt (Nat.lt_irrefl _)
    obtain ⟨hl, htail⟩ := hread.cons hne
    rw [countClose] at hclose
    split at hclose
    · rename_i ho
      subst ho
      obtain ⟨hb, hnext⟩ := h.punct hpair.ascii.1
      obtain ⟨hlt, hget⟩ := List.getElem?_eq_some_iff.mp hb
      rw [matchingLoop, dif_pos hlt, if_pos hget]
      exact ih hnext hclose (by omega) htail
    rename_i ho
    split at hclose
    · rename_i hc
      subst hc
      obtain ⟨hb, hnext⟩ := h.punct hpair.ascii.2
      obtain ⟨hlt, hget⟩ := List.getElem?_eq_some_iff.mp hb
      rw [matchingLoop, dif_pos hlt, if_neg (by rw [hget]; exact hbytes), if_pos hget,
        sub_of_le hdepth]
      show ∃ e, (if depth - 1 = 0 then _ else _) = Except.ok (some e) ∧ _
      split at hclose
      · cases hclose
        rw [if_pos (by omega)]
        exact ⟨i, rfl, hnext⟩
      · rw [if_neg (by omega)]
        exact ih hnext hclose (by omega) htail
    · rename_i hc
      have hat : At bytes i (l.text ++ texts ls) := h.at'
      have hpasses := hat.passes_lexeme hpair h.lexed.1 hl h.lexed.2.head_ne ho hc
      rw [hpasses depth]
      exact ih h.next hclose hdepth htail

/-! ## Whitespace and comments -/

/-- What `skip_trivia` stops before. -/
def Stops (text : List Char) : Prop :=
  ∃ x, text.head? = some x ∧ (x.toNat < 0x80 → isAsciiWhitespace (byte x) = false ∧ x ≠ '/')

theorem stops_of_head {text : List Char} (h : text.head? = some x)
    (hx : isAsciiWhitespace (byte x) = false ∧ x ≠ '/') : Stops text := ⟨x, h, fun _ => hx⟩

theorem skipTrivia_stop {text : List Char} (h : At bytes i text) (hstop : Stops text) :
    skipTrivia bytes i = i := by
  obtain ⟨x, hx, hascii⟩ := hstop
  have hslash : bytes[i]? ≠ some (byte '/') := by
    intro hb
    rw [(h.head_iff (x := '/') (by decide)).mp hb, Option.some_inj] at hx
    subst hx
    exact (hascii (by decide)).2 rfl
  have hskip : skipWhile bytes isAsciiWhitespace i = i := by
    refine skipWhile_of_not fun b hb => ?_
    rw [Bool.eq_false_iff]
    intro hspace
    obtain ⟨y, hy, rfl⟩ : ∃ y : Char, y.toNat < 0x80 ∧ b = byte y := by
      unfold isAsciiWhitespace at hspace
      simp only [Bool.or_eq_true, beq_iff_eq] at hspace
      rcases hspace with (((h | h) | h) | h) | h
      · exact ⟨' ', by decide, h⟩
      · exact ⟨'\t', by decide, h⟩
      · exact ⟨'\n', by decide, h⟩
      · exact ⟨'\x0c', by decide, h⟩
      · exact ⟨'\r', by decide, h⟩
    rw [(h.head_iff hy).mp hb, Option.some_inj] at hx
    subst hx
    rw [(hascii hy).1] at hspace
    cases hspace
  rw [skipTrivia, hskip]
  rw [dif_neg fun hline => hslash hline.1, dif_neg fun hblock => hslash hblock.1]

/-- What `skip_trivia` skips. -/
theorem Here.skipTrivia_eq (h : Here X bytes i (l :: ls)) (hl : isSkipped l)
    (hread : misread l (texts ls) = false) :
    skipTrivia bytes i = skipTrivia bytes (i + (encode l.text).length) := by
  have hat : At bytes i (l.text ++ texts ls) := h.at'
  have hlexed := h.lexed.1
  have hcomment : ∀ text, At bytes i ('/' :: text) → skipWhile bytes isAsciiWhitespace i = i := by
    intro text hslash
    refine skipWhile_of_not fun b hget => ?_
    rw [(hslash.cons (by decide)).1, Option.some_inj] at hget
    rw [← hget]
    decide
  cases l with
  | space x =>
    obtain ⟨hascii, hspace⟩ := Bool.and_eq_true_iff.mp hl
    have hascii : x.toNat < 0x80 := of_decide_eq_true hascii
    have hx : At bytes i (x :: texts ls) := hat
    have hskip := skipWhile_of_pos (p := isAsciiWhitespace) (hx.cons hascii).1 hspace
    have hlen : (encode (Lexeme.space x).text).length = 1 := length_encode_ascii hascii
    rw [hlen]
    conv_lhs => rw [skipTrivia]
    conv_rhs => rw [skipTrivia]
    rw [hskip]
  | lineComment body =>
    have hline : At bytes i ('/' :: '/' :: (body ++ texts ls)) := hat
    obtain ⟨hb, hnext⟩ := hline.cons (by decide)
    conv_lhs => rw [skipTrivia]
    rw [hcomment _ hline]
    rw [dif_pos ⟨hb, (hnext.cons (by decide)).1⟩, hline.skipLine hlexed.1 hlexed.2]
    rfl
  | blockComment body =>
    have hblock : At bytes i ('/' :: '*' :: (body ++ '*' :: '/' :: texts ls)) := by
      simpa [Lexeme.text] using hat
    obtain ⟨hb, hnext⟩ := hblock.cons (by decide)
    have hstar := (hnext.cons (by decide)).1
    have hbody : ¬['*', '/'] <:+: body :=
      of_decide_eq_false (Bool.or_eq_false_iff.mp hread).2
    have hne : bytes[i + 1]? ≠ some (byte '/') := by
      rw [hstar]
      decide
    conv_lhs => rw [skipTrivia]
    rw [hcomment _ hblock]
    rw [dif_neg fun hline => hne hline.2, dif_pos ⟨hb, hstar⟩, hblock.blockEnd hbody]
    rfl
  | _ => cases hl

/-- **Whitespace and comments are skipped.** -/
theorem Here.trivia (h : Here X bytes i ls) (hread : ReadTo (ls.dropWhile isSkipped) ls)
    (hstop : Stops (texts (ls.dropWhile isSkipped))) :
    Here X bytes (skipTrivia bytes i) (ls.dropWhile isSkipped) := by
  induction ls generalizing i with
  | nil =>
    obtain ⟨x, hx, -⟩ := hstop
    cases hx
  | cons l ls ih =>
    by_cases hl : isSkipped l
    · rw [List.dropWhile_cons_of_pos hl] at hread hstop ⊢
      have hne : l :: ls ≠ ls.dropWhile isSkipped := by
        intro heq
        have := (List.dropWhile_suffix isSkipped (l := ls)).length_le
        rw [← heq, List.length_cons] at this
        omega
      obtain ⟨hmisread, htail⟩ := hread.cons hne
      rw [h.skipTrivia_eq hl hmisread]
      exact ih h.next htail hstop
    · rw [List.dropWhile_cons_of_neg hl] at hstop ⊢
      rw [skipTrivia_stop h.at' hstop]
      exact h

/-! ## Attributes -/

/-- **The end of a group is found.** -/
theorem Here.group (hpair : IsPair o c) (h : Here X bytes i (.punct o :: ls))
    (hclose : countClose o c 1 ls = some rest) (hread : ReadTo rest ls) :
    ∃ e, findMatching bytes (startsLiteral bytes) i (byte o) (byte c) = .ok (some e) ∧
      Here X bytes (e + 1) rest := by
  obtain ⟨hb, hnext⟩ := h.punct hpair.ascii.1
  obtain ⟨hlt, hget⟩ := List.getElem?_eq_some_iff.mp hb
  obtain ⟨e, he, hrest⟩ := matchingLoop_eq hpair hnext hclose (Nat.le_refl 1) hread
  refine ⟨e, ?_, hrest⟩
  have hindex : index bytes i = .ok (byte o) := by rw [index, hb]
  rw [findMatching, hindex]
  show (if byte o = byte o then _ else _) = _
  rw [if_pos rfl, matchingLoop, dif_pos hlt, if_pos hget]
  exact he

theorem expect_cons : expect l (l :: ls) = some ls := if_pos rfl

/-- Whitespace and comments are no delimiters. -/
theorem countClose_dropWhile :
    countClose o c depth (ls.dropWhile Lexeme.isTrivia) = countClose o c depth ls := by
  induction ls with
  | nil => rfl
  | cons l ls ih =>
    by_cases hl : l.isTrivia
    · have hne : ∀ x, l ≠ .punct x := by
        rintro x rfl
        cases hl
      rw [List.dropWhile_cons_of_pos hl, ih, countClose_skip (hne o) (hne c)]
    · rw [List.dropWhile_cons_of_neg hl]

/-- In the path of an attribute there is no bracket. -/
theorem countClose_appPath {state : PathState} (h : appPath state ls = some rest) :
    countClose '[' ']' depth ls = countClose '[' ']' depth rest := by
  have hskip : ∀ (l : Lexeme) (ls : List Lexeme),
      l.isTrivia ∨ isName l ∨ l = .punct ':' ∨ l = .punct '(' →
      countClose '[' ']' depth (l :: ls) = countClose '[' ']' depth ls := by
    intro l ls hl
    refine countClose_skip ?_ ?_
    · rintro rfl
      rcases hl with hl | hl | hl | hl <;> cases hl
    · rintro rfl
      rcases hl with hl | hl | hl | hl <;> cases hl
  fun_induction appPath state ls with
  | case1 => cases h
  | case2 l ls hgap ih => rw [hskip l ls (.inl hgap), ih h]
  | case3 ls _ ih => rw [hskip _ ls (.inr (.inr (.inl rfl))), ih h]
  | case4 l ls _ _ hname ih => rw [hskip l ls (.inr (.inl hname)), ih h]
  | case5 => cases h
  | case6 ls ih => rw [hskip _ ls (.inr (.inr (.inl rfl))), ih h]
  | case7 => cases h
  | case8 named l ls hgap ih => rw [hskip l ls (.inl hgap), ih h]
  | case9 named l ls _ hname ih => rw [hskip l ls (.inr (.inl hname)), ih h]
  | case10 => cases h
  | case11 isApp l ls hgap ih => rw [hskip l ls (.inl hgap), ih h]
  | case12 isApp ls _ ih => rw [hskip _ ls (.inr (.inr (.inl rfl))), ih h]
  | case13 isApp l ls _ _ happ =>
    cases h
    rw [happ.2, hskip _ rest (.inr (.inr (.inr rfl)))]
  | case14 => cases h
  | case15 ls ih => rw [hskip _ ls (.inr (.inr (.inl rfl))), ih h]
  | case16 => cases h

theorem eq_of_attrOpen (h : attrOpen simple ls = some rest) :
    ls = .punct '#' :: .punct '[' :: rest := by
  obtain ⟨ls', hsharp, hopen⟩ := Option.bind_eq_some_iff.mp h
  have hdrop : ls'.dropWhile simple.sharpGap = ls' := by
    cases ls' <;> rfl
  rw [hdrop] at hopen
  rw [eq_of_expect hsharp, eq_of_expect hopen]

/-- The brackets of an attribute of an app. -/
theorem countClose_appAttr (h : appAttr simple ls = some rest) :
    ∃ inside, ls = .punct '#' :: .punct '[' :: inside ∧
      countClose '[' ']' 1 inside = some rest := by
  unfold appAttr at h
  obtain ⟨inside, hopen, h⟩ := Option.bind_eq_some_iff.mp h
  obtain ⟨args, hpath, h⟩ := Option.bind_eq_some_iff.mp h
  obtain ⟨behind, hargs, hend⟩ := Option.bind_eq_some_iff.mp h
  refine ⟨inside, eq_of_attrOpen hopen, ?_⟩
  have hcount : countClose '[' ']' 1 args = countClose '[' ']' 1 behind :=
    countClose_of_closing .bracket hargs (.inl (Nat.le_refl 1))
  calc countClose '[' ']' 1 inside
      = countClose '[' ']' 1 args := countClose_appPath hpath
    _ = countClose '[' ']' 1 behind := hcount
    _ = countClose '[' ']' 1 (.punct ']' :: rest) := by
      rw [← @countClose_dropWhile _ _ _ behind, eq_of_expect hend]
    _ = some rest := rfl

/-- A module begins here: a visibility or the keyword. -/
def ModuleFirst (ls : List Lexeme) : Prop :=
  ∃ tail, ls = .word "pub".toList :: tail ∨ ls = .word "mod".toList :: tail

theorem ModuleFirst.head (h : ModuleFirst ls) :
    (texts ls).head? = some 'p' ∨ (texts ls).head? = some 'm' := by
  obtain ⟨tail, rfl | rfl⟩ := h
  · exact .inl rfl
  · exact .inr rfl

theorem ModuleFirst.stops (h : ModuleFirst ls) : Stops (texts ls) := by
  rcases h.head with h | h
  · exact stops_of_head h (by decide)
  · exact stops_of_head h (by decide)

theorem suffix_of_attributes {D : Dialect} (h : attributes D ls = some rest) : rest <:+ ls := by
  fun_induction attributes D ls with
  | case1 ls first hopen =>
    rw [← Option.some_inj.mp h]
    exact List.dropWhile_suffix D.gap
  | case2 => cases h
  | case3 ls first inside hopen behind hclose ih =>
    have hdrop : first <:+ ls := List.dropWhile_suffix D.gap
    exact ((ih h).trans ((behind_of_closing hclose).suffix)).trans
      ((behind_of_attrOpen D hopen).suffix.trans hdrop)

/-- Behind the further attributes there is nothing more to skip. -/
theorem dropWhile_of_attributes {D : Dialect} (h : attributes D ls = some rest) :
    rest.dropWhile D.gap = rest := by
  fun_induction attributes D ls with
  | case1 ls first hopen =>
    rw [← Option.some_inj.mp h]
    exact List.dropWhile_idempotent D.gap ls
  | case2 => cases h
  | case3 ls first inside hopen behind hclose ih => exact ih h

theorem skipAttributes_stop (hne : ¬(bytes[skipTrivia bytes i]? = some (byte '#') ∧
    bytes[skipTrivia bytes i + 1]? = some (byte '['))) :
    skipAttributes bytes i = .ok (some (skipTrivia bytes i)) := by
  rw [skipAttributes, dif_neg hne]

theorem skipAttributes_next (hsharp : bytes[skipTrivia bytes i]? = some (byte '#'))
    (hopen : bytes[skipTrivia bytes i + 1]? = some (byte '['))
    (he : findMatchingBracket bytes (skipTrivia bytes i + 1) = .ok (some e)) :
    skipAttributes bytes i = skipAttributes bytes (e + 1) := by
  rw [skipAttributes, dif_pos ⟨hsharp, hopen⟩]
  split
  · rename_i herror
    cases herror.symm.trans he
  · rename_i hnone
    cases hnone.symm.trans he
  · rename_i e' hsome
    cases hsome.symm.trans he
    rfl

/-- **The further attributes are skipped.** -/
theorem Here.passes_attributes (h : Here X bytes i ls) (hattr : attributes simple ls = some rest)
    (hread : ReadTo rest ls) (hfirst : ModuleFirst rest) :
    ∃ j, skipAttributes bytes i = .ok (some j) ∧ Here X bytes j rest := by
  fun_induction attributes simple ls generalizing i with
  | case1 ls =>
    have heq : ls.dropWhile isSkipped = rest := Option.some_inj.mp hattr
    subst heq
    have hnext := h.trivia hread hfirst.stops
    refine ⟨skipTrivia bytes i, skipAttributes_stop ?_, hnext⟩
    rintro ⟨hsharp, -⟩
    rcases hfirst.head with hhead | hhead
    all_goals
      rw [(hnext.at'.head_iff (x := '#') (by decide)).mp hsharp] at hhead
      exact absurd (Option.some_inj.mp hhead) (by decide)
  | case2 => cases hattr
  | case3 =>
    rename_i ls first inside hopen behind hclose ih
    obtain hdrop : first <:+ ls := List.dropWhile_suffix _
    have hbehind : rest <:+ behind := suffix_of_attributes hattr
    have hinside : behind <:+ inside := (behind_of_closing hclose).suffix
    have hcount : countClose '[' ']' (0 + 1) inside = some behind :=
      countClose_of_closing .bracket hclose (.inr rfl)
    have heq : ls.dropWhile isSkipped = .punct '#' :: .punct '[' :: inside := eq_of_attrOpen hopen
    have hfirst' : inside <:+ first := (behind_of_attrOpen simple hopen).suffix
    obtain ⟨hgap, hread'⟩ := hread.split hdrop (hbehind.trans (hinside.trans hfirst'))
    have hstop : Stops (texts (ls.dropWhile isSkipped)) := by
      rw [heq]
      exact stops_of_head (x := '#') rfl (by decide)
    have hsharp := h.trivia hgap hstop
    rw [heq] at hsharp
    obtain ⟨hb, hbracket⟩ := hsharp.punct (by decide)
    have hb' := (hbracket.punct (by decide)).1
    obtain ⟨-, hread'⟩ := hread'.split hfirst' (hbehind.trans hinside)
    obtain ⟨hgroup, hread'⟩ := hread'.split hinside hbehind
    obtain ⟨e, he, hnext⟩ := hbracket.group .bracket hcount hgroup
    obtain ⟨j, hj, hrest⟩ := ih hnext hattr hread'
    exact ⟨j, (skipAttributes_next hb hb' he).trans hj, hrest⟩

/-! ## The module -/

theorem isWordByte_byte (hx : x.toNat < 0x80) : isWordByte (byte x) = X.cont x := by
  have hall : ∀ n : Fin 128, isWordByte (byte (Char.ofNat n)) =
      ((Char.ofNat n).isAlphanum || Char.ofNat n == '_') := by decide
  have hchar := hall ⟨x.toNat, hx⟩
  rw [Char.ofNat_toNat] at hchar
  rw [hchar, X.cont_ascii x hx]

/-- Behind a word there is no byte of one. -/
theorem At.not_wordByte {text : List Char} (h : At bytes i text)
    (hstop : text.head?.any X.cont = false) (hb : bytes[i]? = some b) : isWordByte b = false := by
  cases text with
  | nil =>
    have hnone := h.getElem? 0
    rw [Nat.add_zero, hb] at hnone
    cases hnone
  | cons x text =>
    by_cases hx : x.toNat < 0x80
    · rw [(h.cons hx).1, Option.some_inj] at hb
      rw [← hb, isWordByte_byte hx]
      exact hstop
    · have hlen : 0 < (encode [x]).length := by simpa using encodeChar_ne_nil x
      obtain ⟨b', hb', hhigh⟩ := h.high (Nat.le_of_not_lt hx) hlen
      rw [Nat.add_zero, hb, Option.some_inj] at hb'
      subst hb'
      rw [Bool.eq_false_iff]
      exact fun hword => absurd (isWordByte_lt hword) (UInt8.not_lt.mpr hhigh)

theorem encode_ascii {name : List Char} (h : ∀ x ∈ name, x.toNat < 0x80) :
    encode name = name.map byte := by
  induction name with
  | nil => rfl
  | cons x name ih =>
    rw [encode_cons, encodeChar_ascii (h x List.mem_cons_self),
      ih fun y hy => h y (List.mem_cons_of_mem x hy)]
    rfl

/-- A word is consumed. -/
theorem At.consumeWord_eq {name text : List Char} (h : At bytes i (name ++ text))
    (hname : ∀ x ∈ name, x.toNat < 0x80) (hstop : text.head?.any X.cont = false) :
    consumeWord bytes i (name.map byte) = some (i + (encode name).length) := by
  have hlen : (encode name).length = (name.map byte).length := by rw [encode_ascii hname]
  have htake : (bytes.drop i).take (name.map byte).length = name.map byte := by
    rw [h, encode_append, encode_ascii hname, List.take_left]
  have hafter : bytes[i + (name.map byte).length]?.any isWordByte = false := by
    rw [← hlen]
    cases hb : bytes[i + (encode name).length]? with
    | none => rfl
    | some b => exact h.append.not_wordByte hstop hb
  rw [consumeWord, if_neg (not_not.mpr htake), hafter, if_neg Bool.false_ne_true, hlen]

/-- A word that starts with another byte is not there. -/
theorem consumeWord_none {word : List UInt8} (hne : bytes[i]? ≠ word.head?) (hword : word ≠ []) :
    consumeWord bytes i word = none := by
  rw [consumeWord, if_pos]
  intro htake
  cases word with
  | nil => exact hword rfl
  | cons a word =>
    have hhead := congrArg List.head? htake
    rw [List.length_cons, List.head?_take, if_neg (Nat.succ_ne_zero _), List.head?_drop] at hhead
    exact hne hhead

/-- A keyword. -/
theorem Here.keyword {name : List Char} (h : Here X bytes i (.word name :: ls))
    (hname : ∀ x ∈ name, x.toNat < 0x80) :
    ∃ j, consumeWord bytes i (name.map byte) = some j ∧ Here X bytes j ls := by
  have hat : At bytes i (name ++ texts ls) := h.at'
  exact ⟨_, hat.consumeWord_eq hname h.lexed.1.1.maximal, h.next⟩

/-- A name of ASCII is passed. -/
theorem Here.name (h : Here X bytes i (l :: ls)) (hl : isPlainName l) :
    Here X bytes (skipWhile bytes isWordByte i) ls := by
  cases l with
  | word name =>
    have hascii : ∀ x ∈ name, x.toNat < 0x80 :=
      fun x hx => of_decide_eq_true (List.all_eq_true.mp hl x hx)
    have hat : At bytes i (name ++ texts ls) := h.at'
    have hskip : skipWhile bytes isWordByte i = i + (encode name).length := by
      refine hat.skipWhile (fun x hx b hb => ?_) (fun b hb => ?_)
      · rw [encodeChar_ascii (hascii x hx), List.mem_singleton] at hb
        subst hb
        exact (isWordByte_byte (X := X) (hascii x hx)).trans (h.lexed.1.1.cont x hx)
      · have hpost := hat.append.getElem? 0
        exact hat.append.not_wordByte h.lexed.1.1.maximal (hpost.trans hb)
    rw [hskip]
    exact h.next
  | _ => cases hl

theorem suffix_of_dropWhile {p : Lexeme → Bool} (h : ls.dropWhile p = ls') : ls' <:+ ls :=
  h ▸ List.dropWhile_suffix p

theorem stops_word {name : List Char} (hname : IsWord X name (texts ls)) :
    Stops (texts (.word name :: ls)) := by
  obtain ⟨x, tail, rfl, hx⟩ := hname.exists_cons
  have hchar : IsNumberChar X x := .inl (cont_of_wordStart hx)
  refine ⟨x, rfl, fun hlt => ⟨?_, hchar.ne (by decide) (by decide) (by decide)⟩⟩
  have hword : isWordByte (byte x) := (isWordByte_byte (X := X) hlt).trans (cont_of_wordStart hx)
  rw [Bool.eq_false_iff]
  intro hspace
  have hall : ∀ n : Fin 256, isWordByte (UInt8.ofFin n) → ¬isAsciiWhitespace (UInt8.ofFin n) := by
    decide +kernel
  exact hall (byte x).toFin hword hspace

theorem modFirst (tail : List Lexeme) : ModuleFirst (.word "mod".toList :: tail) := ⟨tail, .inr rfl⟩

/-- Whitespace and comments, with the place where the reading stops further on. -/
theorem Here.trivia_to (h : Here X bytes i ls) (hread : ReadTo rest ls)
    (hdrop : ls.dropWhile isSkipped = ls') (hrest : rest <:+ ls') (hstop : Stops (texts ls')) :
    Here X bytes (skipTrivia bytes i) ls' ∧ ReadTo rest ls' := by
  subst hdrop
  obtain ⟨hgap, hread⟩ := hread.split (List.dropWhile_suffix isSkipped) hrest
  exact ⟨h.trivia hgap hstop, hread⟩

/-- A group, with the place where the reading stops further on. -/
theorem Here.group_to (hpair : IsPair o c) (h : Here X bytes i (.punct o :: ls))
    (hread : ReadTo rest (.punct o :: ls)) (hclose : closing [c] ls = some ls')
    (hrest : rest <:+ ls') :
    ∃ e, findMatching bytes (startsLiteral bytes) i (byte o) (byte c) = .ok (some e) ∧
      Here X bytes (e + 1) ls' ∧ ReadTo rest ls' := by
  have hbehind := behind_of_closing hclose
  have hcount : countClose o c (0 + [c].count c) ls = some ls' :=
    countClose_of_closing hpair hclose (.inr rfl)
  have hcount : countClose o c 1 ls = some ls' := by simpa using hcount
  obtain ⟨-, hread⟩ := hread.split (List.suffix_cons _ _) (hrest.trans hbehind.suffix)
  obtain ⟨hgroup, hread⟩ := hread.split hbehind.suffix hrest
  obtain ⟨e, he, hnext⟩ := h.group hpair hcount hgroup
  exact ⟨e, he, hnext, hread⟩

/-- **The visibility is skipped**, and what stands before the keyword. -/
theorem Here.passes_visibility {tail : List Lexeme} (h : Here X bytes i ls)
    (hvis : visibility simple ls = some ls') (hread : ReadTo rest ls)
    (hdrop : ls.dropWhile isSkipped = ls) (hmod : ls'.dropWhile isSkipped = .word "mod".toList :: tail)
    (hrest : rest <:+ .word "mod".toList :: tail) :
    ∃ j, skipVisibility bytes i = .ok j ∧
      Here X bytes (skipTrivia bytes j) (.word "mod".toList :: tail) ∧
      ReadTo rest (.word "mod".toList :: tail) := by
  have hsuffix := suffix_of_dropWhile hmod
  have hstop := (modFirst tail).stops
  unfold visibility at hvis
  split at hvis
  · cases hvis
    rw [hdrop] at hmod
    subst hmod
    obtain ⟨hnext, hread⟩ := h.trivia_to hread hdrop hrest hstop
    have hat : At bytes i ("mod".toList ++ texts tail) := h.at'
    have hb : bytes[i]? = some (byte 'm') := (hat.cons (by decide)).1
    refine ⟨i, ?_, hnext, hread⟩
    rw [skipVisibility, consumeWord_none (by rw [hb]; decide) (by decide)]
  · rename_i behind hpub
    obtain rfl := eq_of_expect hpub
    obtain ⟨j, hj, hnext⟩ := h.keyword (by simp)
    have hword : consumeWord bytes i pubBytes = some j := hj
    dsimp only at hvis
    split at hvis
    · cases hvis
      have hbehind := hsuffix.trans (List.dropWhile_suffix simple.gap)
      have hread := (hread.split (List.suffix_cons _ _) (hrest.trans hbehind)).2
      have hmod' : behind.dropWhile isSkipped = .word "mod".toList :: tail := by
        rw [← hmod]
        exact (List.dropWhile_idempotent isSkipped behind).symm
      obtain ⟨hnext, hread⟩ := hnext.trivia_to hread hmod' hrest hstop
      have hnot : bytes[skipTrivia bytes j]? ≠ some (byte '(') := by
        have hat : At bytes (skipTrivia bytes j) ("mod".toList ++ texts tail) := hnext.at'
        have hb : bytes[skipTrivia bytes j]? = some (byte 'm') := (hat.cons (by decide)).1
        rw [hb]
        decide
      refine ⟨skipTrivia bytes j, ?_, ?_⟩
      · rw [skipVisibility, hword]
        exact if_neg hnot
      · rw [skipTrivia_stop hnext.at' hstop]
        exact ⟨hnext, hread⟩
    · rename_i inside hopen
      have heq := eq_of_expect hopen
      have hinside := (behind_of_closing hvis).suffix
      have hgroup := (hrest.trans (hsuffix.trans hinside)).trans (List.suffix_cons (.punct '(') _)
      have hbehind := hgroup.trans (suffix_of_dropWhile heq)
      have hread := (hread.split (List.suffix_cons _ _) hbehind).2
      have hopenStop : Stops (texts (.punct '(' :: inside)) :=
        stops_of_head (x := '(') rfl (by decide)
      obtain ⟨hnext, hread⟩ := hnext.trivia_to hread heq hgroup hopenStop
      obtain ⟨e, he, hgroup, hread⟩ := hnext.group_to .paren hread hvis (hrest.trans hsuffix)
      obtain ⟨hnext', hread⟩ := hgroup.trivia_to hread hmod hrest hstop
      refine ⟨e + 1, ?_, hnext', hread⟩
      rw [skipVisibility, hword]
      show (if _ then _ else _) = _
      rw [if_pos (hnext.punct (by decide)).1]
      show (findMatchingDelim bytes _ _ _).map _ = _
      rw [findMatchingDelim, he]
      rfl

/-- The parts of a module. -/
structure ModuleParts (D : Dialect) (ls rest : List Lexeme) where
  visible : List Lexeme
  tail : List Lexeme
  name : Lexeme
  behind : List Lexeme
  inside : List Lexeme
  visibility_eq : visibility D ls = some visible
  keyword_eq : (unsafety D (visible.dropWhile D.gap)).dropWhile D.gap =
    .word "mod".toList :: tail
  name_eq : tail.dropWhile D.gap = name :: behind
  name_ok : D.name name
  brace_eq : behind.dropWhile D.gap = .punct '{' :: inside
  closing_eq : closing ['}'] inside = some rest

theorem ModuleParts.exists_of {D : Dialect} (h : moduleItem D ls = some rest) :
    Nonempty (ModuleParts D ls rest) := by
  unfold moduleItem at h
  obtain ⟨visible, hvis, h⟩ := Option.bind_eq_some_iff.mp h
  obtain ⟨tail, hmod, h⟩ := Option.bind_eq_some_iff.mp h
  obtain ⟨behind, hname, h⟩ := Option.bind_eq_some_iff.mp h
  obtain ⟨inside, hopen, hclose⟩ := Option.bind_eq_some_iff.mp h
  obtain ⟨name, htail, hok⟩ : ∃ name, tail.dropWhile D.gap = name :: behind ∧ D.name name := by
    unfold moduleName at hname
    split at hname
    · cases hname
    · rename_i l ls' htail
      split at hname
      · rename_i hl
        cases hname
        exact ⟨l, htail, hl⟩
      · cases hname
  exact ⟨⟨visible, tail, name, behind, inside, hvis, eq_of_expect hmod, htail, hok,
    eq_of_expect hopen, hclose⟩⟩

theorem ModuleParts.moduleItem_eq {D : Dialect} (m : ModuleParts D ls rest) :
    moduleItem D ls = some rest := by
  have hname : moduleName D (m.tail.dropWhile D.gap) = some m.behind := by
    rw [m.name_eq]
    exact if_pos m.name_ok
  unfold moduleItem
  rw [m.visibility_eq, Option.bind_eq_bind, Option.bind_some]
  dsimp only
  rw [m.keyword_eq, expect_cons, Option.bind_some, hname, Option.bind_some, m.brace_eq, expect_cons,
    Option.bind_some, m.closing_eq]

/-- What stands behind the module stands behind each of its parts. -/
theorem ModuleParts.rest_suffix {D : Dialect} (m : ModuleParts D ls rest) :
    rest <:+ .punct '{' :: m.inside ∧ rest <:+ m.behind ∧ rest <:+ m.name :: m.behind ∧
      rest <:+ m.tail ∧ rest <:+ .word "mod".toList :: m.tail := by
  have hinside : rest <:+ .punct '{' :: m.inside :=
    (behind_of_closing m.closing_eq).suffix.trans (List.suffix_cons _ _)
  have hbehind := hinside.trans (suffix_of_dropWhile m.brace_eq)
  have hname := hbehind.trans (List.suffix_cons m.name _)
  have htail := hname.trans (suffix_of_dropWhile m.name_eq)
  exact ⟨hinside, hbehind, hname, htail, htail.trans (List.suffix_cons _ _)⟩

theorem ModuleParts.simple_keyword (m : ModuleParts simple ls rest) :
    m.visible.dropWhile isSkipped = .word "mod".toList :: m.tail := by
  have hkeyword : (m.visible.dropWhile isSkipped).dropWhile isSkipped =
      .word "mod".toList :: m.tail := m.keyword_eq
  rwa [List.dropWhile_idempotent] at hkeyword

theorem suffix_of_visibility {D : Dialect} (h : visibility D ls = some rest) : rest <:+ ls := by
  unfold visibility at h
  split at h
  · cases h
    exact List.suffix_refl ls
  · rename_i behind hpub
    have hls := eq_of_expect hpub
    have hbehind : behind <:+ ls := hls ▸ List.suffix_cons _ _
    have hdrop : behind.dropWhile D.gap <:+ behind := List.dropWhile_suffix D.gap
    dsimp only at h
    split at h
    · cases h
      exact hdrop.trans hbehind
    · rename_i inside hopen
      have hinside : inside <:+ behind.dropWhile D.gap := eq_of_expect hopen ▸ List.suffix_cons _ _
      exact ((behind_of_closing h).suffix.trans hinside).trans (hdrop.trans hbehind)

theorem suffix_of_unsafety {D : Dialect} : unsafety D ls <:+ ls := by
  unfold unsafety
  split
  · cases hunsafe : expect (.word "unsafe".toList) ls with
    | none => exact List.suffix_refl ls
    | some behind => exact eq_of_expect hunsafe ▸ List.suffix_cons _ _
  · exact List.suffix_refl ls

theorem ModuleParts.suffix {D : Dialect} (m : ModuleParts D ls rest) : rest <:+ ls :=
  ((m.rest_suffix.2.2.2.2.trans (suffix_of_dropWhile m.keyword_eq)).trans
    (suffix_of_unsafety.trans (List.dropWhile_suffix D.gap))).trans
    (suffix_of_visibility m.visibility_eq)

/-- The first lexeme of a module. -/
theorem ModuleParts.first (m : ModuleParts simple ls rest) (hdrop : ls.dropWhile isSkipped = ls) :
    ModuleFirst ls := by
  have hvis := m.visibility_eq
  unfold visibility at hvis
  split at hvis
  · have hkeyword := m.simple_keyword
    rw [← Option.some_inj.mp hvis, hdrop] at hkeyword
    exact ⟨m.tail, .inr hkeyword⟩
  · rename_i behind hpub
    exact ⟨behind, .inl (eq_of_expect hpub)⟩

/-- Without the keyword there is no module. -/
theorem locateModule_no_keyword {hash : Nat} (hj : skipVisibility bytes i = .ok j)
    (hword : consumeWord bytes (skipTrivia bytes j) modBytes = none) :
    locateModule bytes hash i = .ok none := by
  unfold locateModule
  rw [hj, ok_bind, hword]
  rfl

/-- Behind the keyword the brace decides. -/
theorem locateModule_keyword {hash k : Nat} (hj : skipVisibility bytes i = .ok j)
    (hword : consumeWord bytes (skipTrivia bytes j) modBytes = some k) :
    locateModule bytes hash i =
      let i := skipTrivia bytes (skipWhile bytes isWordByte (skipTrivia bytes k))
      if bytes[i]? ≠ some (byte '{') then .ok none
      else (findMatchingBrace bytes i).map (Option.map fun close => ⟨hash, close + 1⟩) := by
  unfold locateModule
  rw [hj, ok_bind, hword]
  rfl

/-- **The module is located.** -/
theorem Here.locates_module {hash : Nat} (h : Here X bytes i ls) (m : ModuleParts simple ls rest)
    (hread : ReadTo rest ls) (hdrop : ls.dropWhile isSkipped = ls) :
    ∃ stop, locateModule bytes hash i = .ok (some ⟨hash, stop⟩) ∧ Here X bytes stop rest := by
  obtain ⟨hinside, hbehind, hname, htail, hmod⟩ := m.rest_suffix
  obtain ⟨j, hj, hkeyword, hread⟩ :=
    h.passes_visibility m.visibility_eq hread hdrop m.simple_keyword hmod
  obtain ⟨k, hk, hnext⟩ := hkeyword.keyword (by simp)
  have hword : consumeWord bytes (skipTrivia bytes j) modBytes = some k := hk
  have hread := (hread.split (List.suffix_cons _ _) htail).2
  have hlexed : AllLexed X (m.name :: m.behind) := hnext.lexed.suffix (suffix_of_dropWhile m.name_eq)
  have hstop : Stops (texts (m.name :: m.behind)) := by
    have hok : isPlainName m.name := m.name_ok
    cases hl : m.name with
    | word name =>
      rw [hl] at hlexed
      exact stops_word hlexed.1.1
    | _ =>
      rw [hl] at hok
      cases hok
  obtain ⟨hnamed, hread⟩ := hnext.trivia_to hread m.name_eq hname hstop
  have hread := (hread.split (List.suffix_cons _ _) hbehind).2
  obtain ⟨hbrace, hread⟩ := (hnamed.name m.name_ok).trivia_to hread m.brace_eq hinside
    (stops_of_head (x := '{') rfl (by decide))
  obtain ⟨e, he, hrest, -⟩ := hbrace.group_to .brace hread m.closing_eq (List.suffix_refl rest)
  refine ⟨e + 1, ?_, hrest⟩
  rw [locateModule_keyword hj hword]
  show (if _ then _ else _) = _
  rw [if_neg (not_not.mpr (hbrace.punct (by decide)).1)]
  show (findMatching bytes _ _ _ _).map _ = _
  rw [he]
  rfl

/-- **An app that is written as the search knows it, and in which nothing is misread, is located
with its end.** -/
theorem Here.located (h : Here X bytes i ls) (happ : app simple ls = some rest)
    (hread : ReadTo rest ls) :
    ∃ stop, locateAppItem bytes i = .ok (some ⟨i, stop⟩) ∧ Here X bytes stop rest := by
  unfold app at happ
  obtain ⟨behind, hattr, happ⟩ := Option.bind_eq_some_iff.mp happ
  obtain ⟨first, hattrs, hmod⟩ := Option.bind_eq_some_iff.mp happ
  obtain ⟨m⟩ := ModuleParts.exists_of hmod
  obtain ⟨inside, rfl, hcount⟩ := countClose_appAttr hattr
  have hdrop : first.dropWhile isSkipped = first := dropWhile_of_attributes hattrs
  have hfirst : rest <:+ first := m.suffix
  have hbehind : rest <:+ behind := hfirst.trans (suffix_of_attributes hattrs)
  have hinside := (behind_of_countClose hcount).suffix
  obtain ⟨-, hbracket⟩ := h.punct (by decide)
  have hopen : inside <:+ .punct '#' :: .punct '[' :: inside := ⟨[.punct '#', .punct '['], rfl⟩
  obtain ⟨-, hread⟩ := hread.split hopen (hbehind.trans hinside)
  obtain ⟨hattrRead, hread⟩ := hread.split hinside hbehind
  obtain ⟨e, he, hnext⟩ := hbracket.group .bracket hcount hattrRead
  obtain ⟨hattrsRead, hread⟩ := hread.split (suffix_of_attributes hattrs) hfirst
  obtain ⟨j, hj, hmodule⟩ := hnext.passes_attributes hattrs hattrsRead (m.first hdrop)
  obtain ⟨stop, hstop, hrest⟩ := hmodule.locates_module m hread hdrop
  refine ⟨stop, ?_, hrest⟩
  have hfind : findMatchingBracket bytes (i + 1) = .ok (some e) := he
  unfold locateAppItem
  rw [hfind]
  show (skipAttributes bytes (e + 1) >>= _) = _
  rw [hj]
  exact hstop

end

end Rticx.Expand
