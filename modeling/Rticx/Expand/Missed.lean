import Rticx.Expand.Locate

/-!
# Apps that are not located

An app of Rust in which nothing is misread, but which is not written in the way that the search
knows: whitespace that is not that of ASCII, space behind the `#` of an attribute, an `unsafe`
module, a raw name or one that is not ASCII. `locate_app_item` gives such a module up.
-/

namespace Rticx.Expand

open Rticx.Lib Rticx.Lib.Except Rticx.Lib.Utf8 Rticx.Lib.Rust

/-- Whitespace that the search does not know comes first. -/
def StrangeFirst (ls : List Lexeme) : Prop :=
  ∃ x tail, ls = .space x :: tail ∧ isSkipped (.space x) = false ∧ isWhitespace x

/-- A word comes first. -/
def WordFirst (ls : List Lexeme) : Prop := ∃ name tail, ls = .word name :: tail

section

variable {X : Xid} {bytes : List UInt8} {i j hash : Nat} {b : UInt8} {o c x y : Char}
  {l : Lexeme} {ls ls' rest first vis : List Lexeme} {text : List Char}

/-! ## What comes first -/

theorem Here.byte_ne (h : Here X bytes i ls) (hy : y.toNat < 0x80)
    (hne : (texts ls).head? ≠ some y) : bytes[i]? ≠ some (byte y) :=
  fun hb => hne ((h.at'.head_iff hy).mp hb)

theorem StrangeFirst.head_ne (h : StrangeFirst ls) (hy : isWhitespace y = false) :
    (texts ls).head? ≠ some y := by
  obtain ⟨x, tail, rfl, -, hspace⟩ := h
  intro heq
  obtain rfl : x = y := Option.some_inj.mp heq
  rw [hspace] at hy
  cases hy

theorem StrangeFirst.stops (h : StrangeFirst ls) : Stops (texts ls) := by
  have hslash := h.head_ne (y := '/') (by decide)
  obtain ⟨x, tail, rfl, hskipped, -⟩ := h
  refine ⟨x, rfl, fun hx => ⟨?_, fun heq => hslash (heq ▸ rfl)⟩⟩
  have hspace : (decide (x.toNat < 0x80) && isAsciiWhitespace (byte x)) = false := hskipped
  rwa [decide_eq_true hx, Bool.true_and] at hspace

theorem WordFirst.stops (h : WordFirst ls) (hlexed : AllLexed X ls) : Stops (texts ls) := by
  obtain ⟨name, tail, rfl⟩ := h
  exact stops_word hlexed.1.1

/-- What is skipped is trivia, and trivia that is not skipped is strange. -/
theorem dropWhile_cases (hlexed : AllLexed X ls) :
    ls.dropWhile isSkipped = ls.dropWhile Lexeme.isTrivia ∨
      (StrangeFirst (ls.dropWhile isSkipped) ∧
        ls.dropWhile Lexeme.isTrivia <:+ ls.dropWhile isSkipped) := by
  induction ls with
  | nil => exact .inl rfl
  | cons l ls ih =>
    by_cases hl : isSkipped l
    · have htrivia : l.isTrivia := by
        cases l with
        | space x | lineComment body | blockComment body => rfl
        | _ => cases hl
      rw [List.dropWhile_cons_of_pos hl, List.dropWhile_cons_of_pos htrivia]
      exact ih hlexed.2
    · rw [List.dropWhile_cons_of_neg hl]
      by_cases htrivia : l.isTrivia
      · right
        refine ⟨?_, List.dropWhile_suffix _⟩
        cases l with
        | space x => exact ⟨x, ls, rfl, Bool.eq_false_iff.mpr hl, hlexed.1⟩
        | lineComment body | blockComment body => exact absurd rfl hl
        | _ => cases htrivia
      · exact .inl (List.dropWhile_cons_of_neg htrivia).symm

/-- **Where the search is behind whitespace and comments**: before the next token, or before
whitespace that it does not know. -/
theorem Here.trivia_or (h : Here X bytes i ls) (hread : ReadTo rest ls)
    (hdrop : ls.dropWhile Lexeme.isTrivia = ls') (hrest : rest <:+ ls') (hstop : Stops (texts ls')) :
    (ls.dropWhile isSkipped = ls' ∧ Here X bytes (skipTrivia bytes i) ls' ∧ ReadTo rest ls') ∨
      ∃ strange, StrangeFirst strange ∧ ls.dropWhile isSkipped = strange ∧
        Here X bytes (skipTrivia bytes i) strange := by
  subst hdrop
  rcases dropWhile_cases h.lexed with heq | ⟨hstrange, hsuffix⟩
  · exact .inl ⟨heq, h.trivia_to hread heq hrest hstop⟩
  · right
    exact ⟨_, hstrange, rfl, (h.trivia_to hread rfl (hrest.trans hsuffix) hstrange.stops).1⟩

/-- No module is located where neither a visibility nor the keyword can start. -/
theorem locateModule_none (hp : bytes[i]? ≠ some (byte 'p')) (hm : bytes[i]? ≠ some (byte 'm'))
    (hstop : skipTrivia bytes i = i) : locateModule bytes hash i = .ok none := by
  have hvis : skipVisibility bytes i = .ok i := by
    rw [skipVisibility, consumeWord_none hp (by decide)]
  have hword : consumeWord bytes i modBytes = none := consumeWord_none hm (by decide)
  exact locateModule_no_keyword hvis (by rw [hstop, hword])

theorem StrangeFirst.locateModule_none (h : StrangeFirst ls) (hat : Here X bytes i ls) :
    locateModule bytes hash i = .ok none :=
  Expand.locateModule_none (hat.byte_ne (by decide) (h.head_ne (by decide)))
    (hat.byte_ne (by decide) (h.head_ne (by decide))) (skipTrivia_stop hat.at' h.stops)

/-! ## Attributes -/

theorem attrOpen_none_of_rust (h : attrOpen rust ls = none) : attrOpen simple ls = none := by
  cases hsimple : attrOpen simple ls with
  | none => rfl
  | some inside =>
    rw [eq_of_attrOpen hsimple] at h
    cases h

/-- The `#` of an attribute, with or without something behind it. -/
theorem attrOpen_rust_cases (h : attrOpen rust ls = some rest) :
    ls = .punct '#' :: .punct '[' :: rest ∨
      ∃ l tail, ls = .punct '#' :: l :: tail ∧ l.isTrivia := by
  obtain ⟨behind, hsharp, hopen⟩ := Option.bind_eq_some_iff.mp h
  obtain rfl := eq_of_expect hsharp
  have hopen := eq_of_expect hopen
  cases behind with
  | nil => cases hopen
  | cons l tail =>
    by_cases hl : l.isTrivia
    · exact .inr ⟨l, tail, rfl, hl⟩
    · left
      have hl' : ¬rust.sharpGap l := hl
      rw [List.dropWhile_cons_of_neg hl'] at hopen
      rw [hopen]

/-- Whitespace and comments do not start like a token. -/
theorem head_ne_of_isTrivia (hl : l.isTrivia) (hlexed : Lexed X l (texts ls))
    (hy : isWhitespace y = false) (hslash : y ≠ '/') : (texts (l :: ls)).head? ≠ some y := by
  cases l with
  | space x =>
    intro heq
    obtain rfl : x = y := Option.some_inj.mp heq
    have hspace : isWhitespace x := hlexed
    rw [hspace] at hy
    cases hy
  | lineComment body | blockComment body => exact fun heq => hslash (Option.some_inj.mp heq).symm
  | _ => cases hl

theorem attributes_none {D : Dialect} (h : attrOpen D (ls.dropWhile D.gap) = none) :
    attributes D ls = some (ls.dropWhile D.gap) := by
  rw [attributes]
  split
  · rfl
  · rename_i hopen
    cases h.symm.trans hopen

theorem attributes_some {D : Dialect} {inside behind : List Lexeme}
    (hopen : attrOpen D (ls.dropWhile D.gap) = some inside)
    (hclose : closing [']'] inside = some behind) : attributes D ls = attributes D behind := by
  rw [attributes]
  split
  · rename_i hnone
    cases hnone.symm.trans hopen
  · rename_i inside' hopen'
    cases hopen'.symm.trans hopen
    split
    · rename_i hnone
      cases hnone.symm.trans hclose
    · rename_i behind' hclose'
      cases hclose'.symm.trans hclose
      rfl

theorem WordFirst.head_ne (h : WordFirst ls) (hlexed : AllLexed X ls) (hy : y.toNat < 0x80)
    (hword : (y.isAlphanum || y == '_') = false) (hdot : y ∉ ['.', '+', '-']) :
    (texts ls).head? ≠ some y := by
  obtain ⟨name, tail, rfl⟩ := h
  obtain ⟨x, name, rfl, hx⟩ := hlexed.1.1.exists_cons
  have hchar : IsNumberChar X x := .inl (cont_of_wordStart hx)
  exact fun heq => hchar.ne hy hword hdot (Option.some_inj.mp heq)

/-- **Behind the further attributes**, the search is before the module, or it gives up. -/
theorem Here.attributes_or (h : Here X bytes i ls) (hattr : attributes rust ls = some first)
    (hread : ReadTo first ls) (hfirst : WordFirst first) :
    ∃ j, skipAttributes bytes i = .ok (some j) ∧
      ((attributes simple ls = some first ∧ Here X bytes j first) ∨
        locateModule bytes hash j = .ok none) := by
  have hlexed : AllLexed X first := h.lexed.suffix (suffix_of_attributes hattr)
  fun_induction attributes rust ls generalizing i with
  | case1 =>
    rename_i ls first' hopen
    have heq : ls.dropWhile Lexeme.isTrivia = first := Option.some_inj.mp hattr
    rcases h.trivia_or hread heq (List.suffix_refl first) (hfirst.stops hlexed) with
      ⟨hdrop, hnext, -⟩ | ⟨strange, hstrange, hdrop, hnext⟩
    · refine ⟨skipTrivia bytes i, skipAttributes_stop ?_, .inl ⟨?_, hnext⟩⟩
      · exact fun hsharp => hnext.byte_ne (by decide)
          (hfirst.head_ne hlexed (by decide) (by decide) (by decide)) hsharp.1
      · have hopen' : attrOpen rust first = none := heq ▸ hopen
        have hnone : attrOpen simple (ls.dropWhile simple.gap) = none :=
          hdrop ▸ attrOpen_none_of_rust hopen'
        rw [attributes_none hnone]
        exact congrArg some hdrop
    · refine ⟨skipTrivia bytes i, skipAttributes_stop ?_, .inr (hstrange.locateModule_none hnext)⟩
      exact fun hsharp => hnext.byte_ne (by decide) (hstrange.head_ne (by decide)) hsharp.1
  | case2 => cases hattr
  | case3 =>
    rename_i ls first' inside hopen behind hclose ih
    have hopen : attrOpen rust (ls.dropWhile Lexeme.isTrivia) = some inside := hopen
    have hsuffix : first <:+ behind := suffix_of_attributes hattr
    have hinside : first <:+ inside := hsuffix.trans (behind_of_closing hclose).suffix
    have hopened : inside <:+ ls.dropWhile Lexeme.isTrivia := (behind_of_attrOpen rust hopen).suffix
    have hsharp : ∃ tail, ls.dropWhile Lexeme.isTrivia = .punct '#' :: tail := by
      rcases attrOpen_rust_cases hopen with heq | ⟨l, tail, heq, -⟩
      · exact ⟨_, heq⟩
      · exact ⟨_, heq⟩
    have hstop : Stops (texts (ls.dropWhile Lexeme.isTrivia)) := by
      obtain ⟨tail, heq⟩ := hsharp
      rw [heq]
      exact stops_of_head (x := '#') rfl (by decide)
    rcases h.trivia_or hread rfl (hinside.trans hopened) hstop with
      ⟨hdrop, hnext, hread⟩ | ⟨strange, hstrange, hdrop, hnext⟩
    · rcases attrOpen_rust_cases hopen with heq | ⟨l, tail, heq, hl⟩
      · rw [heq] at hnext hread hdrop
        obtain ⟨hb, hbracket⟩ := hnext.punct (by decide)
        have hb' := (hbracket.punct (by decide)).1
        have hread := (hread.split (List.suffix_cons _ _)
          (hinside.trans (List.suffix_cons _ _))).2
        obtain ⟨e, he, hgroup, hread⟩ := hbracket.group_to .bracket hread hclose hsuffix
        obtain ⟨j, hj, hor⟩ := ih hgroup hattr hread
        refine ⟨j, (skipAttributes_next hb hb' he).trans hj, hor.imp_left fun hsimple => ?_⟩
        have hopen' : attrOpen simple (ls.dropWhile simple.gap) = some inside := by
          show attrOpen simple (ls.dropWhile isSkipped) = some inside
          rw [hdrop]
          rfl
        exact ⟨(attributes_some hopen' hclose).trans hsimple.1, hsimple.2⟩
      · rw [heq] at hnext
        obtain ⟨hb, hgap⟩ := hnext.punct (by decide)
        have hne : (texts (l :: tail)).head? ≠ some '[' :=
          head_ne_of_isTrivia hl hgap.lexed.1 (by decide) (by decide)
        refine ⟨skipTrivia bytes i, skipAttributes_stop ?_, .inr ?_⟩
        · exact fun hsharp => hgap.byte_ne (by decide) hne hsharp.2
        · refine locateModule_none ?_ ?_ ?_
          · rw [hb]
            decide
          · rw [hb]
            decide
          · exact skipTrivia_stop hnext.at' (stops_of_head (x := '#') rfl (by decide))
    · refine ⟨skipTrivia bytes i, skipAttributes_stop ?_, .inr (hstrange.locateModule_none hnext)⟩
      exact fun hsharp => hnext.byte_ne (by decide) (hstrange.head_ne (by decide)) hsharp.1

/-! ## The module -/

/-- The first word of a module: a visibility, `unsafe` or the keyword. -/
def ItemFirst (ls : List Lexeme) : Prop :=
  ∃ tail, ls = .word "unsafe".toList :: tail ∨ ls = .word "mod".toList :: tail

theorem ItemFirst.wordFirst (h : ItemFirst ls) : WordFirst ls := by
  obtain ⟨tail, rfl | rfl⟩ := h
  · exact ⟨_, tail, rfl⟩
  · exact ⟨_, tail, rfl⟩

theorem ItemFirst.head (h : ItemFirst ls) :
    (texts ls).head? = some 'u' ∨ (texts ls).head? = some 'm' := by
  obtain ⟨tail, rfl | rfl⟩ := h
  · exact .inl rfl
  · exact .inr rfl

theorem ItemFirst.head_ne (h : ItemFirst ls) (hu : y ≠ 'u') (hm : y ≠ 'm') :
    (texts ls).head? ≠ some y := by
  intro heq
  rcases h.head with hhead | hhead
  · rw [heq] at hhead
    exact hu (Option.some_inj.mp hhead)
  · rw [heq] at hhead
    exact hm (Option.some_inj.mp hhead)

/-- **Behind the visibility**, the search is where Rust is, or there is no keyword. -/
theorem Here.visibility_or (h : Here X bytes i ls) (hvis : visibility rust ls = some vis)
    (hread : ReadTo rest ls) (hrest : rest <:+ vis) (hdrop : ls.dropWhile Lexeme.isTrivia = ls)
    (hitem : ItemFirst (vis.dropWhile Lexeme.isTrivia)) :
    ∃ j, skipVisibility bytes i = .ok j ∧
      ((visibility simple ls = some vis ∧ Here X bytes j vis ∧ ReadTo rest vis) ∨
        consumeWord bytes (skipTrivia bytes j) modBytes = none) := by
  unfold visibility at hvis
  split at hvis
  · rename_i hpub
    cases hvis
    rw [hdrop] at hitem
    have hp := h.byte_ne (y := 'p') (by decide) (hitem.head_ne (by decide) (by decide))
    have hskip : skipVisibility bytes i = .ok i := by
      rw [skipVisibility, consumeWord_none hp (by decide)]
    refine ⟨i, hskip, .inl ⟨?_, h, hread⟩⟩
    unfold visibility
    rw [hpub]
  · rename_i behind hpub
    obtain rfl := eq_of_expect hpub
    obtain ⟨j, hj, hnext⟩ := h.keyword (by simp)
    have hword : consumeWord bytes i pubBytes = some j := hj
    have hlexed := hnext.lexed
    have hskip (hnot : bytes[skipTrivia bytes j]? ≠ some (byte '(')) :
        skipVisibility bytes i = .ok (skipTrivia bytes j) := by
      rw [skipVisibility, hword]
      exact if_neg hnot
    have hsuffix : vis <:+ behind.dropWhile Lexeme.isTrivia := by
      dsimp only at hvis
      split at hvis
      · cases hvis
        exact List.suffix_refl _
      · rename_i inside hopen
        have heq := eq_of_expect hopen
        exact (behind_of_closing hvis).suffix.trans (heq ▸ List.suffix_cons _ _)
    have hbehind := (hrest.trans hsuffix).trans (List.dropWhile_suffix Lexeme.isTrivia)
    have hread := (hread.split (List.suffix_cons _ _) hbehind).2
    have hstop : Stops (texts (behind.dropWhile Lexeme.isTrivia)) := by
      dsimp only at hvis
      split at hvis
      · cases hvis
        have hidem : (behind.dropWhile rust.gap).dropWhile Lexeme.isTrivia =
            behind.dropWhile Lexeme.isTrivia := List.dropWhile_idempotent Lexeme.isTrivia behind
        rw [hidem] at hitem
        exact hitem.wordFirst.stops (hlexed.suffix (List.dropWhile_suffix _))
      · rename_i inside hopen
        have heq : behind.dropWhile Lexeme.isTrivia = .punct '(' :: inside := eq_of_expect hopen
        rw [heq]
        exact stops_of_head (x := '(') rfl (by decide)
    rcases hnext.trivia_or hread rfl (hrest.trans hsuffix) hstop with
      ⟨hdrop, hnext, hread⟩ | ⟨strange, hstrange, -, hnext⟩
    · have hgap : behind.dropWhile simple.gap = behind.dropWhile rust.gap := hdrop
      have hsimple : visibility simple (.word "pub".toList :: behind) = some vis := by
        unfold visibility
        rw [expect_cons]
        dsimp only
        rw [hgap]
        exact hvis
      dsimp only at hvis
      split at hvis
      · cases hvis
        refine ⟨skipTrivia bytes j, hskip ?_, .inl ⟨hsimple, hnext, hread⟩⟩
        refine hnext.byte_ne (by decide) ?_
        have hidem : (behind.dropWhile rust.gap).dropWhile Lexeme.isTrivia =
            behind.dropWhile Lexeme.isTrivia := List.dropWhile_idempotent Lexeme.isTrivia behind
        rw [hidem] at hitem
        exact hitem.head_ne (by decide) (by decide)
      · rename_i inside hopen
        have heq : behind.dropWhile Lexeme.isTrivia = .punct '(' :: inside := eq_of_expect hopen
        rw [heq] at hnext hread
        obtain ⟨e, he, hgroup, hread⟩ := hnext.group_to .paren hread hvis hrest
        refine ⟨e + 1, ?_, .inl ⟨hsimple, hgroup, hread⟩⟩
        rw [skipVisibility, hword]
        show (if _ then _ else _) = _
        rw [if_pos (hnext.punct (by decide)).1]
        show (findMatchingDelim bytes _ _ _).map _ = _
        rw [findMatchingDelim, he]
        rfl
    · refine ⟨skipTrivia bytes j,
        hskip (hnext.byte_ne (by decide) (hstrange.head_ne (by decide))), .inr ?_⟩
      rw [skipTrivia_stop hnext.at' hstrange.stops]
      exact consumeWord_none (hnext.byte_ne (y := 'm') (by decide) (hstrange.head_ne (by decide)))
        (by decide)

theorem locateModule_no_brace {k : Nat} (hj : skipVisibility bytes i = .ok j)
    (hword : consumeWord bytes (skipTrivia bytes j) modBytes = some k)
    (hbrace : bytes[skipTrivia bytes (skipWhile bytes isWordByte (skipTrivia bytes k))]? ≠
      some (byte '{')) : locateModule bytes hash i = .ok none := by
  rw [locateModule_keyword hj hword]
  exact if_pos hbrace

/-- Whitespace is no part of a word. -/
theorem StrangeFirst.skipWhile (h : StrangeFirst ls) (hat : Here X bytes i ls) :
    Expand.skipWhile bytes isWordByte i = i := by
  obtain ⟨x, tail, rfl, -, hspace⟩ := h
  have hx : At bytes i (x :: texts tail) := hat.at'
  refine skipWhile_of_not fun b hb => ?_
  rw [Bool.eq_false_iff]
  intro hword
  by_cases hascii : x.toNat < 0x80
  · rw [(hx.cons hascii).1, Option.some_inj] at hb
    rw [← hb, isWordByte_byte (X := Xid.ascii) hascii] at hword
    have hall : ∀ n : Fin 128, isWhitespace (Char.ofNat n) →
        ((Char.ofNat n).isAlphanum || Char.ofNat n == '_') = false := by decide
    have hnot := hall ⟨x.toNat, hascii⟩
    rw [Char.ofNat_toNat] at hnot
    rw [Xid.ascii.cont_ascii x hascii, hnot hspace] at hword
    cases hword
  · have hlen : 0 < (encode [x]).length := by simpa using encodeChar_ne_nil x
    obtain ⟨b', hb', hhigh⟩ := hx.high (Nat.le_of_not_lt hascii) hlen
    rw [Nat.add_zero, hb, Option.some_inj] at hb'
    subst hb'
    exact absurd (isWordByte_lt hword) (UInt8.not_lt.mpr hhigh)

/-- Behind the part of a name that the search passes there is no brace. -/
theorem Here.name_none (h : Here X bytes i (l :: ls)) (hl : isName l) (hplain : ¬isPlainName l) :
    bytes[skipTrivia bytes (skipWhile bytes isWordByte i)]? ≠ some (byte '{') := by
  -- a run of ASCII, and the character behind it
  obtain ⟨run, x, post, hat, hrun, hstop, hx⟩ : ∃ run x post, At bytes i (run ++ x :: post) ∧
      (∀ y ∈ run, y.toNat < 0x80 ∧ isWordByte (byte y)) ∧
      (∀ b, (encode (x :: post))[0]? = some b → isWordByte b = false) ∧
      (x.toNat < 0x80 → x = '#') := by
    cases l with
    | rawWord name =>
      have hat : At bytes i ('r' :: '#' :: (name ++ texts ls)) := h.at'
      refine ⟨['r'], '#', name ++ texts ls, hat, ?_, ?_, fun _ => rfl⟩
      · intro y hy
        obtain rfl := List.mem_singleton.mp hy
        exact ⟨by decide, by decide⟩
      · intro b hb
        cases hb
        rfl
    | word name =>
      have hat : At bytes i (name ++ texts ls) := h.at'
      have hne : name.dropWhile (fun x => decide (x.toNat < 0x80)) ≠ [] := by
        intro hnil
        rw [List.dropWhile_eq_nil_iff] at hnil
        exact hplain (List.all_eq_true.mpr hnil)
      obtain ⟨x, post, heq⟩ := List.exists_cons_of_ne_nil hne
      have hname : name.takeWhile (fun x => decide (x.toNat < 0x80)) ++ x :: post = name := by
        rw [← heq]
        exact List.takeWhile_append_dropWhile
      have hx : ¬x.toNat < 0x80 := by
        have hhead := List.head?_dropWhile_not (fun x : Char => decide (x.toNat < 0x80)) name
        rw [heq] at hhead
        simpa using hhead
      refine ⟨name.takeWhile fun x => decide (x.toNat < 0x80), x, post ++ texts ls, ?_, ?_, ?_,
        fun hlt => absurd hlt hx⟩
      · rwa [← hname, List.append_assoc] at hat
      · intro y hy
        have hascii : y.toNat < 0x80 :=
          of_decide_eq_true (List.mem_takeWhile_imp (p := fun x : Char => decide (x.toNat < 0x80)) hy)
        have hmem : y ∈ name := (List.takeWhile_prefix _).subset hy
        exact ⟨hascii, (isWordByte_byte (X := X) hascii).trans (h.lexed.1.1.cont y hmem)⟩
      · intro b hb
        rw [encode_cons, List.getElem?_append_left (encodeChar_ne_nil x)] at hb
        have hhigh := of_mem_encodeChar (Nat.le_of_not_lt hx) (List.mem_of_getElem? hb)
        rw [Bool.eq_false_iff]
        exact fun hword => absurd (isWordByte_lt hword) (UInt8.not_lt.mpr hhigh)
    | _ => cases hl
  have hskip : skipWhile bytes isWordByte i = i + (encode run).length := by
    refine hat.skipWhile (fun y hy b hb => ?_) hstop
    rw [encodeChar_ascii (hrun y hy).1, List.mem_singleton] at hb
    subst hb
    exact (hrun y hy).2
  have hstops : Stops (x :: post) := by
    refine ⟨x, rfl, fun hascii => ?_⟩
    rw [hx hascii]
    decide
  rw [hskip, skipTrivia_stop hat.append hstops]
  intro hb
  have hhead := Option.some_inj.mp ((hat.append.head_iff (x := '{') (by decide)).mp hb)
  have hsharp := hx (by rw [hhead]; decide)
  rw [hhead] at hsharp
  exact absurd hsharp (by decide)

/-- What stands behind the visibility of a module of Rust. -/
theorem ModuleParts.rust_keyword (m : ModuleParts rust ls rest) :
    (∃ body, m.visible.dropWhile Lexeme.isTrivia = .word "unsafe".toList :: body ∧
      rest <:+ .word "unsafe".toList :: body) ∨
    m.visible.dropWhile Lexeme.isTrivia = .word "mod".toList :: m.tail := by
  have hkeyword : ((expect (.word "unsafe".toList) (m.visible.dropWhile Lexeme.isTrivia)).getD
      (m.visible.dropWhile Lexeme.isTrivia)).dropWhile Lexeme.isTrivia =
        .word "mod".toList :: m.tail := m.keyword_eq
  cases hbody : expect (.word "unsafe".toList) (m.visible.dropWhile Lexeme.isTrivia) with
  | none =>
    right
    rw [hbody] at hkeyword
    exact (List.dropWhile_idempotent Lexeme.isTrivia m.visible).symm.trans hkeyword
  | some body =>
    left
    rw [hbody] at hkeyword
    have hsuffix : .word "mod".toList :: m.tail <:+ body := suffix_of_dropWhile hkeyword
    exact ⟨body, eq_of_expect hbody,
      (m.rest_suffix.2.2.2.2.trans hsuffix).trans (List.suffix_cons _ _)⟩

theorem ModuleParts.itemFirst (m : ModuleParts rust ls rest) :
    ItemFirst (m.visible.dropWhile Lexeme.isTrivia) ∧
      rest <:+ m.visible.dropWhile Lexeme.isTrivia := by
  rcases m.rust_keyword with ⟨body, hbody, hrest⟩ | hmod
  · exact ⟨⟨body, .inl hbody⟩, hbody ▸ hrest⟩
  · exact ⟨⟨m.tail, .inr hmod⟩, hmod ▸ m.rest_suffix.2.2.2.2⟩

theorem ModuleParts.wordFirst (m : ModuleParts rust ls rest)
    (hdrop : ls.dropWhile Lexeme.isTrivia = ls) : WordFirst ls := by
  have hvis := m.visibility_eq
  unfold visibility at hvis
  split at hvis
  · have hitem := m.itemFirst.1
    rw [← Option.some_inj.mp hvis, hdrop] at hitem
    exact hitem.wordFirst
  · rename_i behind hpub
    exact ⟨_, behind, eq_of_expect hpub⟩

/-- **Behind the keyword of a module of Rust** the search is at its name and its brace, or the module
is given up. -/
theorem Here.body_or {k : Nat} (h : Here X bytes k ls') (m : ModuleParts rust ls rest)
    (htail : ls' = m.tail) (hread : ReadTo rest m.tail) :
    (m.tail.dropWhile isSkipped = m.name :: m.behind ∧ isPlainName m.name ∧
      m.behind.dropWhile isSkipped = .punct '{' :: m.inside) ∨
    bytes[skipTrivia bytes (skipWhile bytes isWordByte (skipTrivia bytes k))]? ≠
      some (byte '{') := by
  subst htail
  obtain ⟨hinside, hbehind, hname, -, -⟩ := m.rest_suffix
  have hlexed : AllLexed X (m.name :: m.behind) := h.lexed.suffix (suffix_of_dropWhile m.name_eq)
  have hok : isName m.name := m.name_ok
  have hstop : Stops (texts (m.name :: m.behind)) := by
    cases hl : m.name with
    | word name =>
      rw [hl] at hlexed
      exact stops_word hlexed.1.1
    | rawWord name => exact stops_of_head (x := 'r') rfl (by decide)
    | _ =>
      rw [hl] at hok
      cases hok
  rcases h.trivia_or hread m.name_eq hname hstop with
    ⟨htail, hnamed, hread⟩ | ⟨strange, hstrange, -, hnamed⟩
  · by_cases hplain : isPlainName m.name
    · have hread := (hread.split (List.suffix_cons _ _) hbehind).2
      rcases (hnamed.name hplain).trivia_or hread m.brace_eq hinside
        (stops_of_head (x := '{') rfl (by decide)) with
        ⟨hbrace, -, -⟩ | ⟨strange, hstrange, -, hbrace⟩
      · exact .inl ⟨htail, hplain, hbrace⟩
      · exact .inr (hbrace.byte_ne (by decide) (hstrange.head_ne (by decide)))
    · exact .inr (hnamed.name_none hok hplain)
  · right
    rw [hstrange.skipWhile hnamed, skipTrivia_stop hnamed.at' hstrange.stops]
    exact hnamed.byte_ne (by decide) (hstrange.head_ne (by decide))

/-- **A module of Rust** is written as the search knows it, or it is given up. -/
theorem Here.module_or (h : Here X bytes i ls) (m : ModuleParts rust ls rest)
    (hread : ReadTo rest ls) (hdrop : ls.dropWhile Lexeme.isTrivia = ls) :
    moduleItem simple ls = some rest ∨ locateModule bytes hash i = .ok none := by
  obtain ⟨hitem, hrest⟩ := m.itemFirst
  obtain ⟨j, hj, ⟨hsimple, hvis, hread⟩ | hnone⟩ := h.visibility_or m.visibility_eq hread
    (hrest.trans (List.dropWhile_suffix _)) hdrop hitem
  · have hstop : Stops (texts (m.visible.dropWhile Lexeme.isTrivia)) :=
      hitem.wordFirst.stops (hvis.lexed.suffix (List.dropWhile_suffix _))
    rcases hvis.trivia_or hread rfl hrest hstop with
      ⟨hgap, hnext, hread⟩ | ⟨strange, hstrange, -, hnext⟩
    · rcases m.rust_keyword with ⟨body, hbody, -⟩ | hmod
      · rw [hbody] at hnext
        have hat : At bytes (skipTrivia bytes j) ("unsafe".toList ++ texts body) := hnext.at'
        have hb : bytes[skipTrivia bytes j]? = some (byte 'u') := (hat.cons (by decide)).1
        exact .inr (locateModule_no_keyword hj (consumeWord_none (by rw [hb]; decide) (by decide)))
      · rw [hmod] at hnext hread
        obtain ⟨k, hk, hnext⟩ := hnext.keyword (by simp)
        have hread := (hread.split (List.suffix_cons _ _) m.rest_suffix.2.2.2.1).2
        rcases hnext.body_or m rfl hread with ⟨htail, hplain, hbrace⟩ | hnone
        · have hkeyword : (m.visible.dropWhile isSkipped).dropWhile isSkipped =
              .word "mod".toList :: m.tail := by
            rw [List.dropWhile_idempotent, hgap, hmod]
          exact .inl (ModuleParts.moduleItem_eq ⟨m.visible, m.tail, m.name, m.behind, m.inside,
            hsimple, hkeyword, htail, hplain, hbrace, m.closing_eq⟩)
        · exact .inr (locateModule_no_brace hj hk hnone)
    · exact .inr (locateModule_no_keyword hj (consumeWord_none
        (hnext.byte_ne (y := 'm') (by decide) (hstrange.head_ne (by decide))) (by decide)))
  · exact .inr (locateModule_no_keyword hj hnone)

/-- **An app in which nothing is misread is written as the search knows it, or it is given up.** -/
theorem Here.located_or (h : Here X bytes i ls) (happ : app rust ls = some rest)
    (hread : ReadTo rest ls) (hopen : bytes[i + 1]? = some (byte '[')) :
    app simple ls = some rest ∨ locateAppItem bytes i = .ok none := by
  unfold app at happ
  obtain ⟨behind, hattr, happ⟩ := Option.bind_eq_some_iff.mp happ
  obtain ⟨first, hattrs, hmod⟩ := Option.bind_eq_some_iff.mp happ
  obtain ⟨m⟩ := ModuleParts.exists_of hmod
  have hdrop : first.dropWhile Lexeme.isTrivia = first := dropWhile_of_attributes hattrs
  have hfirst : rest <:+ first := m.suffix
  have hbehind : rest <:+ behind := hfirst.trans (suffix_of_attributes hattrs)
  have hattr' : appAttr simple ls = some behind := by
    unfold appAttr at hattr ⊢
    obtain ⟨inside, hinside, hattr⟩ := Option.bind_eq_some_iff.mp hattr
    rcases attrOpen_rust_cases hinside with rfl | ⟨l, tail, rfl, hl⟩
    · exact hattr
    · obtain ⟨-, hgap⟩ := h.punct (by decide)
      have hne := head_ne_of_isTrivia hl hgap.lexed.1 (y := '[') (by decide) (by decide)
      exact absurd hopen (hgap.byte_ne (by decide) hne)
  obtain ⟨inside, rfl, hcount⟩ := countClose_appAttr hattr'
  have hinside := (behind_of_countClose hcount).suffix
  obtain ⟨-, hbracket⟩ := h.punct (by decide)
  have hopened : inside <:+ .punct '#' :: .punct '[' :: inside := ⟨[.punct '#', .punct '['], rfl⟩
  obtain ⟨-, hread⟩ := hread.split hopened (hbehind.trans hinside)
  obtain ⟨hattrRead, hread⟩ := hread.split hinside hbehind
  obtain ⟨e, he, hnext⟩ := hbracket.group .bracket hcount hattrRead
  obtain ⟨hattrsRead, hread⟩ := hread.split (suffix_of_attributes hattrs) hfirst
  have hfind : findMatchingBracket bytes (i + 1) = .ok (some e) := he
  have hlocate : ∀ j, skipAttributes bytes (e + 1) = .ok (some j) →
      locateAppItem bytes i = locateModule bytes i j := by
    intro j hj
    unfold locateAppItem
    rw [hfind]
    show (skipAttributes bytes (e + 1) >>= _) = _
    rw [hj]
    rfl
  obtain ⟨j, hj, ⟨hsimple, hmodule⟩ | hnone⟩ :=
    hnext.attributes_or hattrs hattrsRead (m.wordFirst hdrop) 
  · rcases hmodule.module_or m hread hdrop with hitem | hnone
    · left
      unfold app
      rw [hattr', Option.bind_eq_bind, Option.bind_some, hsimple, Option.bind_some, hitem]
    · exact .inr ((hlocate j hj).trans hnone)
  · exact .inr ((hlocate j hj).trans hnone)

end

end Rticx.Expand
