import Rticx.Expand.Emits

/-!
# The attributes of an expansion

Where the pass finds the end of an attribute, and what it makes of an attribute of documentation.
-/

namespace Rticx.Expand.Beautify

open Rticx.Lib Rticx.Lib.Except Rticx.Lib.Utf8 Rticx.Lib.Rust

variable {X : Xid} {input text w w' o : List Char} {bytes : List UInt8} {i depth : Nat}
  {l : Lexeme} {ls content rest : List Lexeme}

/-! ## The end of an attribute -/

/-- The search asks for literals only where there is a byte. -/
theorem matchingLoop_congr {f g : Nat → UInt8 → Except String Bool} {openCh closeCh : UInt8}
    (h : ∀ i b, bytes[i]? = some b → f i b = g i b) :
    matchingLoop bytes f openCh closeCh depth i = matchingLoop bytes g openCh closeCh depth i := by
  induction hn : bytes.length - i using Nat.strongRecOn generalizing i depth with
  | _ n ih =>
    have hnext : ∀ depth' j, i < j → i < bytes.length →
        matchingLoop bytes f openCh closeCh depth' j =
          matchingLoop bytes g openCh closeCh depth' j := by
      intro depth' j hij hlt
      exact ih (bytes.length - j) (by omega) rfl
    conv_lhs => rw [matchingLoop]
    conv_rhs => rw [matchingLoop]
    split
    · rename_i hlt
      rw [h i _ (List.getElem?_eq_getElem hlt)]
      simp (disch := omega) only [hnext _ _ _ hlt]
    · rfl

theorem startsLiteral_eq {b : UInt8} (hb : bytes[i]? = some b) :
    startsLiteral bytes i b = Expand.startsLiteral bytes i b := by
  have hindex : index bytes i = .ok b := by rw [index, hb]
  unfold startsLiteral Expand.startsLiteral
  by_cases hquote : b = byte '"' ∨ b = byte '\''
  · rw [if_pos hquote, if_pos (hquote.imp_right .inl), isLiteralStart, hindex]
    show _ = Except.ok (if b = byte '"' ∨ b = byte '\'' then true else _)
    rw [if_pos hquote]
  · rw [if_neg hquote]
    by_cases hmark : b = byte 'r' ∨ b = byte 'b' ∨ b = byte 'c'
    · rw [if_pos hmark, if_pos (.inr (.inr hmark))]
    · rw [if_neg hmark, if_neg]
      rintro (h | h | h)
      · exact hquote (.inl h)
      · exact hquote (.inr h)
      · exact hmark h

theorem Here.le_unique {i j : Nat} (h : Here X bytes i ls) (h' : Here X bytes j ls) : i = j := by
  have hlen := congrArg List.length (h.at'.trans h'.at'.symm)
  rw [List.length_drop, List.length_drop] at hlen
  have := h.le
  have := h'.le
  omega

/-- An attribute that is read to its end, with these lexemes behind it. -/
structure Attribute (X : Xid) (content rest : List Lexeme) : Prop where
  lexed : AllLexed X ((Piece.attr content).lexemes ++ rest)
  matched : countClose '[' ']' 1 (content ++ .punct ']' :: rest) = some rest
  read : allRead rest (content ++ [.punct ']'])

/-- The text of an attribute. -/
theorem texts_attr (content : List Lexeme) :
    texts (Piece.attr content).lexemes = '#' :: '[' :: (texts content ++ [']']) := by
  simp [Piece.lexemes, Lexeme.text]

theorem attrEnd_eq (ha : Attribute X content rest)
    (h : Stands input i ('#' :: '[' :: (texts content ++ ']' :: texts rest))) :
    attrEnd (encode input) i (byte '#') =
      .ok (some (i + 2 + (encode (texts content)).length)) := by
  have hhere : Here X (encode input) i ((Piece.attr content).lexemes ++ rest) := by
    refine ⟨?_, ha.lexed, ?_⟩
    · rw [texts_append, texts_attr]
      simpa using h.at
    · obtain ⟨pre, rfl, rfl⟩ := h
      simp
  have hsharp : Here X (encode input) i
      (.punct '#' :: .punct '[' :: (content ++ .punct ']' :: rest)) := by
    simpa [Piece.lexemes] using hhere
  obtain ⟨-, hopen⟩ := hsharp.punct (by decide)
  have hread : ReadTo rest (content ++ .punct ']' :: rest) :=
    ⟨content ++ [.punct ']'], by simp, ha.read⟩
  obtain ⟨e, he, hrest⟩ := hopen.group .bracket ha.matched hread
  have hbracket := (hopen.punct (by decide)).1
  have hfind : findMatchingBracket (encode input) (i + 1) = .ok (some e) := by
    rw [← he, findMatchingBracket, findMatching, findMatching]
    simp only [matchingLoop_congr fun _ _ hb => startsLiteral_eq hb]
  have hend : Here X (encode input) (i + 2 + (encode (texts content)).length + 1) rest := by
    have hall : ∀ (pre : List Lexeme) (j : Nat), Here X (encode input) j (pre ++ rest) →
        Here X (encode input) (j + (encode (texts pre)).length) rest := by
      intro pre
      induction pre with
      | nil => exact fun j hj => hj
      | cons l pre ih =>
        intro j hj
        have hnext := ih _ hj.next
        rwa [texts_cons, encode_append, List.length_append, ← Nat.add_assoc]
    have hnext := hall _ _ hhere
    rw [texts_attr] at hnext
    simp (disch := decide) only [length_encode_cons_ascii, encode_append, List.length_append,
      encode_nil, List.length_nil] at hnext
    have heq : i + ((encode (texts content)).length + (0 + 1) + 1 + 1) =
        i + 2 + (encode (texts content)).length + 1 := by omega
    rwa [heq] at hnext
  have hplace := Here.le_unique hrest hend
  rw [attrEnd, if_pos ⟨rfl, hbracket⟩, hfind]
  congr 2
  omega

/-! ## Attributes of documentation -/

/-- A text with no whitespace at its ends. -/
structure IsTrimmed (text : List Char) : Prop where
  ne_nil : text ≠ []
  head : text.head?.any isWhitespace = false
  last : text.getLast?.any isWhitespace = false

theorem dropWhile_of_head (h : text.head?.any isWhitespace = false) :
    text.dropWhile isWhitespace = text := by
  cases text with
  | nil => rfl
  | cons c text => exact List.dropWhile_cons_of_neg (Bool.eq_false_iff.mp h)

theorem trim_eq (hw : ∀ c ∈ w, isWhitespace c) (hw' : ∀ c ∈ w', isWhitespace c)
    (h : IsTrimmed text) : trim (w ++ (text ++ w')) = text := by
  have hhead : (text ++ w').head?.any isWhitespace = false := by
    cases text with
    | nil => exact absurd rfl h.ne_nil
    | cons c text => exact h.head
  have hlast : text.reverse.head?.any isWhitespace = false := by
    rw [List.head?_reverse]
    exact h.last
  rw [trim, List.dropWhile_append_of_pos hw, dropWhile_of_head hhead, List.reverse_append,
    List.dropWhile_append_of_pos fun c hc => hw' c (List.mem_reverse.mp hc),
    dropWhile_of_head hlast, List.reverse_reverse]

theorem IsTrimmed.of_ends {c d : Char} {mid : List Char} (hc : isWhitespace c = false)
    (hd : isWhitespace d = false) : IsTrimmed (c :: (mid ++ [d])) := by
  refine ⟨List.cons_ne_nil _ _, hc, ?_⟩
  have hlast : (c :: (mid ++ [d])).getLast? = some d := by
    rw [← List.cons_append, List.getLast?_concat]
  rw [hlast]
  exact hd

theorem exists_lexed_of_mem (h : AllLexed X ls) (hl : l ∈ ls) : ∃ rest, Lexed X l rest := by
  induction ls with
  | nil => cases hl
  | cons l' ls ih =>
    rcases List.mem_cons.mp hl with rfl | hl
    · exact ⟨_, h.1⟩
    · exact ih h.2 hl

/-- The text of whitespace between tokens. -/
theorem isWhitespace_of_mem (hlexed : ∀ l ∈ ls, ∃ rest, Lexed X l rest) (hblank : ls.all isBlank) :
    ∀ c ∈ texts ls, isWhitespace c := by
  intro c hc
  obtain ⟨l, hl, hc⟩ := List.mem_flatMap.mp hc
  have hb := List.all_eq_true.mp hblank l hl
  obtain ⟨rest, hspace⟩ := hlexed l hl
  cases l with
  | space x =>
    obtain rfl := List.mem_singleton.mp hc
    have hascii : c.toNat < 0x80 := of_decide_eq_true hb
    have hall : ∀ n : Fin 128, Rust.isWhitespace (Char.ofNat n) → isWhitespace (Char.ofNat n) := by
      decide
    have hchar := hall ⟨c.toNat, hascii⟩
    rw [Char.ofNat_toNat] at hchar
    exact hchar hspace
  | _ => cases hb

/-- `doc` with a value behind the equals sign. -/
theorem docAttrToComment_value {w₁ w₂ w₃ w₄ lit : List Char} (h₁ : ∀ c ∈ w₁, isWhitespace c)
    (h₂ : ∀ c ∈ w₂, isWhitespace c) (h₃ : ∀ c ∈ w₃, isWhitespace c) (h₄ : ∀ c ∈ w₄, isWhitespace c)
    (hlit : IsTrimmed lit) :
    docAttrToComment (w₁ ++ ("doc".toList ++ (w₂ ++ '=' :: (w₃ ++ lit))) ++ w₄) =
      (stringLiteralContent lit).map fun content =>
        content.map fun (text, isRaw) => comment (if isRaw then text else unescape text) := by
  have hlast : ∀ pre : List Char, (pre ++ lit).getLast?.any isWhitespace = false := by
    intro pre
    rw [List.getLast?_append_of_ne_nil _ hlit.ne_nil]
    exact hlit.last
  have hall : IsTrimmed ("doc".toList ++ (w₂ ++ '=' :: (w₃ ++ lit))) := by
    refine ⟨by simp, rfl, ?_⟩
    have := hlast ("doc".toList ++ (w₂ ++ '=' :: w₃))
    simpa using this
  have hvalue : IsTrimmed ('=' :: (w₃ ++ lit)) := ⟨by simp, rfl, hlast ('=' :: w₃)⟩
  have htrim : trim (w₂ ++ '=' :: (w₃ ++ lit)) = '=' :: (w₃ ++ lit) := by
    have := trim_eq h₂ (List.forall_mem_nil _) hvalue
    simpa using this
  have htrim' : trim (w₃ ++ lit) = lit := by
    have := trim_eq h₃ (List.forall_mem_nil _) hlit
    simpa using this
  have hequals : stripPrefix "=".toList ('=' :: (w₃ ++ lit)) = some (w₃ ++ lit) :=
    @stripPrefix_append ['='] (w₃ ++ lit)
  rw [docAttrToComment, List.append_assoc, trim_eq h₁ h₄ hall]
  simp only [stripPrefix_append, htrim, hequals, htrim']

theorem docAttrToComment_hidden {w₁ w₂ w₄ : List Char} (h₁ : ∀ c ∈ w₁, isWhitespace c)
    (h₂ : ∀ c ∈ w₂, isWhitespace c) (h₄ : ∀ c ∈ w₄, isWhitespace c) :
    docAttrToComment (w₁ ++ ("doc".toList ++ (w₂ ++ "(hidden)".toList)) ++ w₄) = .ok (some []) := by
  have hhidden : IsTrimmed "(hidden)".toList := by constructor <;> decide
  have hall : IsTrimmed ("doc".toList ++ (w₂ ++ "(hidden)".toList)) := by
    refine ⟨by simp, rfl, ?_⟩
    rw [← List.append_assoc, List.getLast?_append_of_ne_nil _ (by decide)]
    decide
  have htrim : trim (w₂ ++ "(hidden)".toList) = "(hidden)".toList := by
    have := trim_eq h₂ (List.forall_mem_nil _) hhidden
    simpa using this
  have hequals : stripPrefix "=".toList "(hidden)".toList = none := by decide
  rw [docAttrToComment, List.append_assoc, trim_eq h₁ h₄ hall]
  simp only [stripPrefix_append, htrim, hequals, if_true]

theorem stringLiteralContent_str {body rest : List Char} (h : Lexed X (.str .plain body []) rest) :
    stringLiteralContent (Lexeme.str .plain body []).text = .ok (some (body, false)) := by
  have hbody := strBody_append h.1 []
  have hstands := Stands.start ('"' :: (body ++ ['"']))
  have hnext := hstands.cons (by decide)
  have hend : quotedEnd (encode ('"' :: (body ++ ['"']))) 0 = some (1 + (encode body).length) :=
    quotedEndLoop_eq hnext.at hbody
  have htext : (Lexeme.str .plain body []).text = '"' :: (body ++ ['"']) := rfl
  rw [htext, stringLiteralContent]
  dsimp only
  rw [if_pos (hstands.at.cons (by decide)).1, hend]
  have hslice : slice ('"' :: (body ++ ['"'])) 1 (1 + (encode body).length) = .ok body :=
    hnext.slice_eq
  simp only [hslice]
  rfl

theorem stringLiteralContent_rawStr {n : Nat} {body rest : List Char}
    (h : Lexed X (.rawStr .plain n body []) rest) :
    stringLiteralContent (Lexeme.rawStr .plain n body []).text = .ok (some (body, true)) := by
  have hbody := rawBody_append (by simpa using h.1) []
  rw [List.append_nil] at hbody
  have hlength : (Lexeme.hashText n).length = n := List.length_replicate
  have hstands : Stands (Lexeme.rawStr .plain n body []).text 0
      ('r' :: (Lexeme.hashText n ++ '"' :: (body ++ '"' :: Lexeme.hashText n))) :=
    ⟨[], by simp [Lexeme.text, Mark.text], rfl⟩
  generalize (Lexeme.rawStr .plain n body []).text = lit at hstands
  have hr := (hstands.at.cons (by decide)).1
  have hnext := hstands.cons (by decide)
  obtain ⟨hskip, hat⟩ := hnext.at.skipHashes
  rw [(takeWhile_hashText n _).1, hlength, Nat.zero_add] at hskip hat
  rw [(takeWhile_hashText n _).2] at hat
  have hinside := hnext.append.cons (by decide)
  rw [length_encode_hashText, Nat.zero_add] at hinside
  have hend := rawEnd_eq hinside.at hbody
  have hsub : 1 + n - 1 = n := by omega
  rw [stringLiteralContent]
  dsimp only
  rw [hr, if_neg (by decide), if_pos rfl, hskip, if_neg (not_not.mpr (hat.cons (by decide)).1), hsub,
    hend]
  simp only [hinside.slice_eq]
  rfl

/-- Between the tokens there is only whitespace of ASCII. -/
def Spaced (X : Xid) (content : List Lexeme) : Prop :=
  ∀ l ∈ content, (∃ rest, Lexed X l rest) ∧ (l.isTrivia → isBlank l)

/-- The first token, and the whitespace before it. -/
theorem Spaced.split (h : Spaced X content)
    (htokens : content.filter (!·.isTrivia) = l :: ls) : ∃ pre post, content = pre ++ l :: post ∧
      pre.all isBlank ∧ (∀ c ∈ texts pre, isWhitespace c) ∧ Spaced X post ∧
      post.filter (!·.isTrivia) = ls := by
  obtain ⟨pre, post, rfl, hpre, -, hpost⟩ := List.filter_eq_cons_iff.mp htokens
  have hblank : pre.all isBlank := by
    refine List.all_eq_true.mpr fun l hl => ?_
    exact (h l (List.mem_append_left _ hl)).2 (by simpa using hpre l hl)
  refine ⟨pre, post, rfl, hblank, ?_, ?_, hpost⟩
  · exact isWhitespace_of_mem (X := X) (fun l hl => (h l (List.mem_append_left _ hl)).1) hblank
  · exact fun l hl => h l (by simp [hl])

theorem Spaced.blank (h : Spaced X content) (htokens : content.filter (!·.isTrivia) = []) :
    ∀ c ∈ texts content, isWhitespace c := by
  refine isWhitespace_of_mem (X := X) (fun l hl => (h l hl).1) (List.all_eq_true.mpr fun l hl => ?_)
  exact (h l hl).2 (by simpa using List.filter_eq_nil_iff.mp htokens l hl)

/-- `doc` and a literal. -/
theorem docAttrToComment_literal {lit : Lexeme} {value : List Char × Bool} (h : Spaced X content)
    (htokens : content.filter (!·.isTrivia) = [.word "doc".toList, .punct '=', lit])
    (htrimmed : IsTrimmed lit.text) (hlit : stringLiteralContent lit.text = .ok (some value)) :
    docAttrToComment (texts content) =
      .ok (some (comment (if value.2 then value.1 else unescape value.1))) := by
  obtain ⟨w₁, content, rfl, -, h₁, h, htokens⟩ := h.split htokens
  obtain ⟨w₂, content, rfl, -, h₂, h, htokens⟩ := h.split htokens
  obtain ⟨w₃, w₄, rfl, -, h₃, h, htokens⟩ := h.split htokens
  have heq := docAttrToComment_value h₁ h₂ h₃ (h.blank htokens) htrimmed
  rw [hlit] at heq
  have htexts : texts (w₁ ++ .word "doc".toList :: (w₂ ++ .punct '=' :: (w₃ ++ lit :: w₄))) =
      texts w₁ ++ ("doc".toList ++ (texts w₂ ++ '=' :: (texts w₃ ++ lit.text))) ++ texts w₄ := by
    simp [Lexeme.text]
  rw [htexts, heq]
  rfl

/-- Between the parentheses of `(hidden)` there is nothing else. -/
theorem tight_of_take {pre pre' post : List Lexeme} {name : List Char} (hpre : pre.all isBlank)
    (hpre' : pre'.all isBlank)
    (h : (Lexeme.punct '(' :: (pre ++ .word name :: (pre' ++ .punct ')' :: post))).take 3 =
      [.punct '(', .word name, .punct ')']) : pre = [] ∧ pre' = [] := by
  cases pre with
  | cons l pre =>
    obtain rfl : l = .word name := Option.some_inj.mp (congrArg (·[1]?) h)
    cases hpre
  | nil =>
    cases pre' with
    | nil => exact ⟨rfl, rfl⟩
    | cons l pre' =>
      obtain rfl : l = .punct ')' := Option.some_inj.mp (congrArg (·[2]?) h)
      cases hpre'

/-- **An attribute of documentation becomes a comment of its text.** -/
theorem docAttrToComment_eq (hdoc : docText content = some text)
    (hplain : isPlainDoc content rest text) (hlexed : ∀ l ∈ content, ∃ rest, Lexed X l rest) :
    docAttrToComment (texts content) = .ok (some (comment text)) := by
  obtain ⟨hplain, -⟩ := Bool.and_eq_true_iff.mp hplain
  obtain ⟨hall, htight⟩ := Bool.and_eq_true_iff.mp hplain
  have h : Spaced X content := by
    refine fun l hl => ⟨hlexed l hl, fun htrivia => ?_⟩
    have := List.all_eq_true.mp hall l hl
    rwa [htrivia] at this
  have hmem : ∀ l, l ∈ content.filter (!·.isTrivia) → ∃ rest, Lexed X l rest :=
    fun l hl => hlexed l (List.mem_filter.mp hl).1
  unfold docText at hdoc
  split at hdoc
  · rename_i name body htokens
    split at hdoc
    · rename_i hname
      cases hdoc
      subst hname
      obtain ⟨r, hlit⟩ := hmem (.str .plain body []) (by simp [htokens])
      exact docAttrToComment_literal h htokens (.of_ends (by decide) (by decide))
        (stringLiteralContent_str hlit)
    · cases hdoc
  · rename_i name n body htokens
    split at hdoc
    · rename_i hname
      cases hdoc
      subst hname
      obtain ⟨r, hlit⟩ := hmem (.rawStr .plain n text []) (by simp [htokens])
      refine docAttrToComment_literal h htokens ?_ (stringLiteralContent_rawStr hlit)
      cases n with
      | zero =>
        have htext : (Lexeme.rawStr .plain 0 text []).text = 'r' :: (('"' :: text) ++ ['"']) := by
          simp [Lexeme.text, Mark.text, Lexeme.hashText]
        rw [htext]
        exact .of_ends (by decide) (by decide)
      | succ n =>
        have htext : (Lexeme.rawStr .plain (n + 1) text []).text =
            'r' :: ((Lexeme.hashText (n + 1) ++ '"' :: (text ++ '"' :: Lexeme.hashText n)) ++
              ['#']) := by
          simp [Lexeme.text, Mark.text, Lexeme.hashText, List.replicate_succ']
        rw [htext]
        exact .of_ends (by decide) (by decide)
    · cases hdoc
  · rename_i name argument htokens
    split at hdoc
    · rename_i hnames
      cases hdoc
      obtain ⟨rfl, rfl⟩ := hnames
      have hequals : content.contains (.punct '=') = false := by
        rw [Bool.eq_false_iff]
        intro hmem
        have hmem : .punct '=' ∈ content.filter (!·.isTrivia) :=
          List.mem_filter.mpr ⟨List.contains_iff_mem.mp hmem, by decide⟩
        rw [htokens] at hmem
        simp at hmem
      rw [hequals, Bool.false_or, beq_iff_eq] at htight
      obtain ⟨w₁, content, rfl, hb₁, h₁, h, htokens⟩ := h.split htokens
      obtain ⟨w₂, content, rfl, hb₂, h₂, h, htokens⟩ := h.split htokens
      obtain ⟨w₃, content, rfl, hb₃, h₃, h, htokens⟩ := h.split htokens
      obtain ⟨w₄, w₅, rfl, hb₄, -, hrest, hnil⟩ := h.split htokens
      have hskip : ∀ w : List Lexeme, w.all isBlank → ∀ l ∈ w, (l != .punct '(') = true := by
        intro w hw l hl
        have hb := List.all_eq_true.mp hw l hl
        cases l with
        | space x => rfl
        | _ => cases hb
      rw [List.dropWhile_append_of_pos (hskip w₁ hb₁), List.dropWhile_cons_of_pos (by rfl),
        List.dropWhile_append_of_pos (hskip w₂ hb₂), List.dropWhile_cons_of_neg (by decide)]
        at htight
      obtain ⟨rfl, rfl⟩ := tight_of_take hb₃ hb₄ htight
      have htexts : texts (w₁ ++ .word "doc".toList :: (w₂ ++ .punct '(' ::
          ([] ++ .word "hidden".toList :: ([] ++ .punct ')' :: w₅)))) =
          texts w₁ ++ ("doc".toList ++ (texts w₂ ++ "(hidden)".toList)) ++ texts w₅ := by
        simp [Lexeme.text]
      rw [htexts, docAttrToComment_hidden h₁ h₂ (hrest.blank hnil)]
      rfl
    · cases hdoc
  · cases hdoc

end Rticx.Expand.Beautify
