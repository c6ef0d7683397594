import Mathlib.Data.Bool.AllAny
import Mathlib.Data.List.Basic
import Rticx.Lib.RustLexer

/-!
# Reading lexemes again

A sequence in which every lexeme fits what stands behind it is what its text is read as. What a
lexeme is does not depend on much of what stands behind it, so it stays what it is where the text
behind it is changed into a text that starts alike.

* `next_of_lexed` and `lexemes_of_allLexed` are the other direction of `next_reads` and
  `lexemes_spec`.
* `Alike` says how the texts behind a lexeme may differ; `Lexed.alike` is the rule for it.
-/

namespace Rticx.Lib.Rust

variable {X : Xid} {text rest rest' body suff name pre run : List Char} {lexeme : Lexeme}
  {hashes depth : Nat} {c : Char} {p : Char → Bool}

/-! ## Literals end where they end -/

theorem takeWhile_append_stop (hrun : ∀ c ∈ run, p c) (hstop : rest.head?.any p = false) :
    (run ++ rest).takeWhile p = run := by
  rw [List.takeWhile_append_of_pos hrun]
  cases rest with
  | nil => simp
  | cons c rest =>
    have hc : ¬ p c := by simpa using hstop
    simp [hc]

theorem strBody_append (h : strBody (body ++ '"' :: rest) = some (body, rest)) (rest' : List Char) :
    strBody (body ++ '"' :: rest') = some (body, rest') := by
  generalize htext : body ++ '"' :: rest = text at h
  fun_induction strBody text generalizing body with
  | case1 c text ih =>
    obtain ⟨⟨b, r⟩, hr, heq⟩ := Option.map_eq_some_iff.mp h
    cases heq
    obtain ⟨-, htext⟩ := List.cons.inj htext
    obtain ⟨-, htext⟩ := List.cons.inj htext
    simp [strBody, ih htext hr]
  | case2 text =>
    cases h
    rfl
  | case3 c text hescape hquote ih =>
    obtain ⟨⟨b, r⟩, hr, heq⟩ := Option.map_eq_some_iff.mp h
    cases heq
    obtain ⟨-, htext⟩ := List.cons.inj htext
    have hbody := ih htext hr
    have hc : c ≠ '\\' := by
      rintro rfl
      cases text with
      | nil => cases hr
      | cons d text => exact hescape d text rfl rfl
    rw [List.cons_append, strBody, hbody]
    · rfl
    · intro d tail hback
      exact absurd hback hc
    · exact hquote
  | case4 => cases h

theorem blockBody_append (h : blockBody depth (body ++ '*' :: '/' :: rest) = some (body, rest))
    (rest' : List Char) : blockBody depth (body ++ '*' :: '/' :: rest') = some (body, rest') := by
  generalize htext : body ++ '*' :: '/' :: rest = text at h
  fun_induction blockBody depth text generalizing body with
  | case1 text =>
    cases h
    rfl
  | case2 text depth ih | case3 depth text ih =>
    obtain ⟨⟨b, r⟩, hr, heq⟩ := Option.map_eq_some_iff.mp h
    cases heq
    obtain ⟨-, htext⟩ := List.cons.inj htext
    obtain ⟨-, htext⟩ := List.cons.inj htext
    simp [blockBody, ih htext hr]
  | case4 depth c text hclose hopen ih =>
    obtain ⟨⟨b, r⟩, hr, heq⟩ := Option.map_eq_some_iff.mp h
    cases heq
    obtain ⟨-, htext⟩ := List.cons.inj htext
    have hbody := ih htext hr
    -- the character behind `c` is the same
    have hhead : (b ++ '*' :: '/' :: rest').head? = text.head? := by
      rw [← htext]
      cases b <;> rfl
    rw [List.cons_append, blockBody, hbody]
    · rfl
    · intro tail hstar hslash
      rw [hslash] at hhead
      obtain ⟨tail', rfl⟩ := List.head?_eq_some_iff.mp hhead.symm
      exact hclose tail' hstar rfl
    · intro tail hslash hstar
      rw [hstar] at hhead
      obtain ⟨tail', rfl⟩ := List.head?_eq_some_iff.mp hhead.symm
      exact hopen tail' hslash rfl
  | case5 => cases h

theorem rawBody_append
    (h : rawBody hashes (body ++ '"' :: Lexeme.hashText hashes ++ rest) = some (body, rest))
    (rest' : List Char) :
    rawBody hashes (body ++ '"' :: Lexeme.hashText hashes ++ rest') = some (body, rest') := by
  induction body with
  | nil =>
    rw [List.nil_append, List.cons_append, rawBody, if_pos ⟨rfl, List.prefix_append _ _⟩]
    simp [Lexeme.hashText]
  | cons c body ih =>
    rw [List.cons_append, List.cons_append, rawBody] at h ⊢
    split at h
    · cases h
    · rename_i hclose
      obtain ⟨r, hr, heq⟩ := Option.map_eq_some_iff.mp h
      obtain rfl : r = (body, rest) := by simpa [Prod.ext_iff] using heq
      -- the hashes that are looked for end before the text behind the literal begins
      have hfront : ∀ tail, Lexeme.hashText hashes <+: body ++ '"' :: Lexeme.hashText hashes ++ tail ↔
          Lexeme.hashText hashes <+: body ++ '"' :: Lexeme.hashText hashes := by
        intro tail
        constructor
        · intro hpre
          refine List.prefix_of_prefix_length_le hpre (List.prefix_append _ tail) ?_
          simp
          omega
        · exact fun hpre => hpre.trans (List.prefix_append _ tail)
      have hopen : ¬(c = '"' ∧
          Lexeme.hashText hashes <+: body ++ '"' :: Lexeme.hashText hashes ++ rest') := by
        rwa [hfront, ← hfront rest]
      rw [if_neg hopen, ih hr]
      rfl

theorem escapeTail_append (h : escapeTail (body ++ rest) = some (body, rest))
    (rest' : List Char) : escapeTail (body ++ rest') = some (body, rest') := by
  generalize htext : body ++ rest = text at h
  unfold escapeTail at h
  split at h
  · rename_i x y text
    split at h
    · rename_i hhex
      cases h
      simp [escapeTail, hhex]
    · cases h
  · rename_i text
    dsimp only at h
    split at h
    · rename_i hdigits
      cases h
      have hall : ∀ c ∈ text.takeWhile (fun c => isHexDigit c || c == '_'),
          (isHexDigit c || c == '_') = true :=
        fun c hc => List.mem_takeWhile_imp (p := fun c => isHexDigit c || c == '_') hc
      generalize text.takeWhile (fun c => isHexDigit c || c == '_') = digits at hdigits hall ⊢
      have htake : (digits ++ '}' :: rest').takeWhile (fun c => isHexDigit c || c == '_') = digits :=
        takeWhile_append_stop hall rfl
      simp [escapeTail, htake, hdigits.1]
    · cases h
  · rename_i c text hx hu
    split at h
    · rename_i hc
      cases h
      simp only [List.mem_cons, List.not_mem_nil, or_false] at hc
      rcases hc with rfl | rfl | rfl | rfl | rfl | rfl | rfl
      all_goals rfl
    · cases h
  · cases h

theorem charBody_append (h : charBody (body ++ rest) = some (body, rest)) (rest' : List Char) :
    charBody (body ++ rest') = some (body, rest') := by
  generalize htext : body ++ rest = text at h
  unfold charBody at h
  split at h
  · obtain ⟨⟨b, r⟩, hr, heq⟩ := Option.map_eq_some_iff.mp h
    cases heq
    obtain ⟨-, rfl⟩ := List.cons.inj htext
    simp [charBody, escapeTail_append hr]
  · rename_i c text hback
    split at h
    · cases h
    · rename_i hc
      cases h
      rw [List.cons_append, charBody, if_neg hc]
      · rfl
      · exact hback
  · cases h

/-! ## Numbers -/

/-- The exponent of a number and what stands behind the number. -/
inductive IsExponent : List Char → List Char → Prop where
  | none {rest : List Char} : rest.head? ∉ [some 'e', some 'E'] → IsExponent [] rest
  | digits {e : Char} {sign digits rest : List Char} : e ∈ ['e', 'E'] →
    sign ∈ [[], ['+'], ['-']] → (∀ c ∈ digits, isDecimal c) → digits.any Char.isDigit →
    rest.head?.any isDecimal = false → IsExponent (e :: sign ++ digits) rest

/-- The fraction and the exponent of a number and what stands behind the number. -/
inductive IsFraction (X : Xid) : List Char → List Char → Prop where
  | none {e rest : List Char} : IsExponent e rest →
    (e = [] → rest.head? = some '.' → rest[1]? = some '.' ∨ rest[1]?.any X.wordStart) →
    IsFraction X e rest
  | dot {rest : List Char} : rest.head? ≠ some '.' → rest.head?.any X.wordStart = false →
    rest.head?.any Char.isDigit = false → IsFraction X ['.'] rest
  | digits {digits e rest : List Char} : digits.head?.any Char.isDigit →
    (∀ c ∈ digits, isDecimal c) → IsExponent e rest → (e = [] → rest.head?.any isDecimal = false) →
    IsFraction X ('.' :: digits ++ e) rest

/-- A number and what stands behind it, suffix included. -/
inductive IsNumber (X : Xid) : List Char → List Char → Prop where
  | base {base : Char} {digits rest : List Char} : base ∈ ['b', 'o', 'x'] →
    (∀ c ∈ digits, isBaseDigit (some base) c) → digits.any isHexDigit →
    rest.head?.any (isBaseDigit (some base)) = false → IsNumber X ('0' :: base :: digits) rest
  | decimal {digits f rest : List Char} : digits.head?.any Char.isDigit →
    (∀ c ∈ digits, isDecimal c) → IsFraction X f rest →
    (f = [] → rest.head?.any isDecimal = false) →
    (digits ++ f = ['0'] → rest.head? ∉ [some 'b', some 'o', some 'x']) →
    IsNumber X (digits ++ f) rest

theorem isDecimal_not {c : Char} (h : isDecimal c) : c ∉ ['.', '+', '-', 'e', 'E', 'b', 'o', 'x'] := by
  intro hmem
  simp only [List.mem_cons, List.not_mem_nil, or_false] at hmem
  rcases hmem with rfl | rfl | rfl | rfl | rfl | rfl | rfl | rfl
  all_goals exact absurd h (by decide)

theorem sign_mem (text : List Char) : sign text ∈ [[], ['+'], ['-']] := by
  unfold sign
  split
  · rename_i h
    rcases h with h | h
    all_goals
      obtain ⟨tail, rfl⟩ := List.head?_eq_some_iff.mp h
      simp
  · simp

theorem sign_prefix (text : List Char) : sign text ++ text.drop (sign text).length = text := by
  unfold sign
  split
  · rename_i h
    rcases h with h | h
    all_goals
      obtain ⟨tail, rfl⟩ := List.head?_eq_some_iff.mp h
      rfl
  · rfl

theorem sign_append {s digits : List Char} (hs : s ∈ [[], ['+'], ['-']])
    (hdigits : ∀ c ∈ digits, isDecimal c) (hne : digits ≠ []) :
    sign (s ++ (digits ++ rest)) = s := by
  obtain ⟨d, digits, rfl⟩ := List.exists_cons_of_ne_nil hne
  have hd := isDecimal_not (hdigits d List.mem_cons_self)
  simp only [List.mem_cons, List.not_mem_nil, or_false, not_or] at hd hs
  rcases hs with rfl | rfl | rfl
  · simp [sign, hd]
  · rfl
  · rfl

theorem exponent_append_iff : exponent (body ++ rest) = some body ↔ IsExponent body rest := by
  constructor
  · intro h
    cases body with
    | nil =>
      refine .none ?_
      intro hmem
      cases rest with
      | nil => simp at hmem
      | cons c rest =>
        have hc : c = 'e' ∨ c = 'E' := by simpa using hmem
        simp [exponent, hc] at h
    | cons e body =>
      rw [List.cons_append, exponent] at h
      split at h
      · rename_i he
        dsimp only at h
        split at h
        · rename_i hany
          have htext := sign_prefix (body ++ rest)
          have hstop := head?_drop_takeWhile isDecimal
            ((body ++ rest).drop (sign (body ++ rest)).length)
          have htake := takeWhile_append_drop isDecimal
            ((body ++ rest).drop (sign (body ++ rest)).length)
          have hall : ∀ c ∈ ((body ++ rest).drop (sign (body ++ rest)).length).takeWhile isDecimal,
              isDecimal c := fun c hc => List.mem_takeWhile_imp hc
          have hs := sign_mem (body ++ rest)
          generalize ((body ++ rest).drop (sign (body ++ rest)).length).takeWhile isDecimal = digits at *
          generalize sign (body ++ rest) = s at *
          obtain rfl : s ++ digits = body := by simpa using h
          have hdrop : (s ++ digits ++ rest).drop s.length = digits ++ rest := by simp
          rw [hdrop, List.drop_left] at hstop
          exact .digits (by simpa using he) hs hall hany hstop
        · cases h
      · cases h
  · intro h
    cases h with
    | none hhead =>
      cases rest with
      | nil => rfl
      | cons c rest =>
        have hc : ¬(c = 'e' ∨ c = 'E') := by simpa using hhead
        simp [exponent, hc]
    | @digits e s digits rest he hs hdigits hany hstop =>
      have he : e = 'e' ∨ e = 'E' := by simpa using he
      have hne : digits ≠ [] := by
        rintro rfl
        cases hany
      have hsign : sign (s ++ (digits ++ rest)) = s := sign_append hs hdigits hne
      have htake : (digits ++ rest).takeWhile isDecimal = digits := takeWhile_append_stop hdigits hstop
      have htext : e :: s ++ digits ++ rest = e :: (s ++ (digits ++ rest)) := by simp
      rw [htext, exponent, if_pos he]
      simp [hsign, htake, hany]

theorem IsExponent.stops (h : IsExponent body rest) (hrest : body = [] → rest.head?.any isDecimal = false) :
    (body ++ rest).head?.any isDecimal = false := by
  cases h with
  | none => exact hrest rfl
  | @digits e sign digits rest he =>
    rcases List.mem_cons.mp he with rfl | he
    · rfl
    · rw [List.mem_singleton.mp he]
      rfl

theorem not_wordStart_of_isDigit (h : c.isDigit) : X.wordStart c = false := by
  have hdigit := isDigit_iff.mp h
  have halpha : c.isAlpha = false := by
    rw [Bool.eq_false_iff]
    intro halpha
    have := isAlpha_iff.mp halpha
    omega
  have hne : (c == '_') = false := by
    rw [beq_eq_false_iff_ne]
    rintro rfl
    exact absurd h (by decide)
  rw [Xid.wordStart, X.start_ascii c (by omega), halpha, hne]
  rfl

theorem isDecimal_of_isDigit (h : c.isDigit) : isDecimal c := by simp [isDecimal, h]

theorem fraction_append_iff : fraction X (body ++ rest) = some body ↔ IsFraction X body rest := by
  constructor
  · intro h
    unfold fraction at h
    split at h
    · rename_i hdot
      obtain ⟨hhead, hnext⟩ := hdot
      split at h
      · rename_i hdigit
        obtain ⟨e, he, heq⟩ := Option.map_eq_some_iff.mp h
        have hstop := head?_drop_takeWhile isDecimal ((body ++ rest).drop 1)
        have htake := takeWhile_append_drop isDecimal ((body ++ rest).drop 1)
        have hall : ∀ c ∈ ((body ++ rest).drop 1).takeWhile isDecimal, isDecimal c :=
          fun c hc => List.mem_takeWhile_imp hc
        have hstart : (((body ++ rest).drop 1).takeWhile isDecimal).head?.any Char.isDigit := by
          obtain ⟨tail, htail⟩ := List.head?_eq_some_iff.mp hhead
          rw [htail] at hdigit ⊢
          cases tail with
          | nil => cases hdigit
          | cons d tail =>
            have hd : d.isDigit := hdigit
            simp [isDecimal_of_isDigit hd, hd]
        generalize ((body ++ rest).drop 1).takeWhile isDecimal = digits at *
        subst heq
        have hdrop : ('.' :: digits ++ e ++ rest).drop (1 + digits.length) = e ++ rest := by
          simp [Nat.add_comm 1]
        have hdrop' : (('.' :: digits ++ e ++ rest).drop 1).drop digits.length = e ++ rest := by
          rw [List.drop_drop, hdrop]
        rw [hdrop] at he
        rw [hdrop'] at hstop
        refine .digits hstart hall (exponent_append_iff.mp he) ?_
        rintro rfl
        exact hstop
      · rename_i hdigit
        obtain rfl : ['.'] = body := Option.some_inj.mp h
        rw [List.singleton_append, List.getElem?_cons_succ, ← List.head?_eq_getElem?] at hnext hdigit
        exact .dot hnext.1 (Bool.eq_false_iff.mpr hnext.2) (Bool.eq_false_iff.mpr hdigit)
    · rename_i hdot
      refine .none (exponent_append_iff.mp h) ?_
      rintro rfl hhead
      by_contra hnext
      rw [not_or] at hnext
      exact hdot ⟨hhead, hnext⟩
  · intro h
    cases h with
    | none he hdot =>
      rw [fraction, if_neg]
      · exact exponent_append_iff.mpr he
      · rintro ⟨hhead, hnext⟩
        cases he with
        | none => exact (hdot rfl hhead).elim hnext.1 hnext.2
        | @digits e sign digits rest he =>
          obtain rfl : e = '.' := Option.some_inj.mp hhead
          exact absurd he (by decide)
    | dot hdot hword hdigit =>
      rw [List.head?_eq_getElem?] at hdot hword hdigit
      simp [fraction, hdot, hword, hdigit]
    | @digits digits e rest hstart hall he hstop =>
      cases digits with
      | nil => cases hstart
      | cons d digits =>
        have hd : d.isDigit := hstart
        have hdot : d ≠ '.' := by
          rintro rfl
          exact absurd hd (by decide)
        have htake : (d :: digits ++ (e ++ rest)).takeWhile isDecimal = d :: digits :=
          takeWhile_append_stop hall (he.stops hstop)
        have htext : '.' :: (d :: digits) ++ e ++ rest = '.' :: (d :: digits ++ (e ++ rest)) := by simp
        have hdrop : ('.' :: (d :: digits ++ (e ++ rest))).drop (1 + (d :: digits).length) =
            e ++ rest := by simp [Nat.add_comm 1]
        have hopen : ('.' :: (d :: digits ++ (e ++ rest))).head? = some '.' ∧
            ('.' :: (d :: digits ++ (e ++ rest)))[1]? ≠ some '.' ∧
            ¬('.' :: (d :: digits ++ (e ++ rest)))[1]?.any X.wordStart := by
          simp [hdot, not_wordStart_of_isDigit hd]
        rw [htext, fraction, if_pos hopen, if_pos (by simpa using hd), List.drop_succ_cons,
          List.drop_zero, htake]
        dsimp only
        rw [hdrop, exponent_append_iff.mpr he]
        rfl

theorem head?_takeWhile {q : Char → Bool} (hq : ∀ c, q c → p c) (h : text.head?.any q) :
    (text.takeWhile p).head?.any q := by
  cases text with
  | nil => cases h
  | cons c text =>
    have hc : q c := h
    simp [hq c hc, hc]

theorem numberBody_append_iff (hstart : (body ++ rest).head?.any Char.isDigit) :
    numberBody X (body ++ rest) = some body ↔ IsNumber X body rest := by
  constructor
  · intro h
    unfold numberBody at h
    split at h
    · rename_i hbase
      dsimp only at h
      split at h
      · rename_i hany
        have hstop := head?_drop_takeWhile (isBaseDigit (body ++ rest)[1]?) ((body ++ rest).drop 2)
        have hall : ∀ c ∈ ((body ++ rest).drop 2).takeWhile (isBaseDigit (body ++ rest)[1]?),
            isBaseDigit (body ++ rest)[1]? c := fun c hc => List.mem_takeWhile_imp hc
        generalize hdigits : ((body ++ rest).drop 2).takeWhile (isBaseDigit (body ++ rest)[1]?) =
          digits at *
        obtain ⟨m, tail, htext⟩ : ∃ m tail, body ++ rest = '0' :: m :: tail := by
          obtain ⟨tail, htail⟩ := List.head?_eq_some_iff.mp hbase.1
          rw [htail] at hbase
          cases tail with
          | nil => cases hbase.2
          | cons m tail => exact ⟨m, tail, htail⟩
        have hm : m ∈ ['b', 'o', 'x'] := by simpa [htext] using hbase.2
        obtain rfl : '0' :: m :: digits = body := by simpa [htext] using h
        have htail : tail = digits ++ rest := by simpa using htext.symm
        subst htail
        rw [htext] at hstop hall
        rw [List.drop_succ_cons, List.drop_succ_cons, List.drop_zero, List.drop_left] at hstop
        exact .base hm hall hany hstop
      · cases h
    · rename_i hbase
      obtain ⟨f, hf, heq⟩ := Option.map_eq_some_iff.mp h
      have hstop := head?_drop_takeWhile isDecimal (body ++ rest)
      have hall : ∀ c ∈ (body ++ rest).takeWhile isDecimal, isDecimal c :=
        fun c hc => List.mem_takeWhile_imp hc
      have hdigit := head?_takeWhile (p := isDecimal) (fun c => isDecimal_of_isDigit) hstart
      generalize (body ++ rest).takeWhile isDecimal = digits at *
      subst heq
      rw [List.append_assoc, List.drop_left] at hf hstop
      refine .decimal hdigit hall (fraction_append_iff.mp hf) ?_ ?_
      · rintro rfl
        exact hstop
      · intro hzero hmem
        rw [hzero] at hbase
        refine hbase ⟨rfl, ?_⟩
        cases rest with
        | nil => simp at hmem
        | cons c rest => simpa using hmem
  · intro h
    cases h with
    | @base m digits rest hm hall hany hstop =>
      have htake : (digits ++ rest).takeWhile (isBaseDigit (some m)) = digits :=
        takeWhile_append_stop hall hstop
      have hm' : m = 'b' ∨ m = 'o' ∨ m = 'x' := by simpa using hm
      simp [numberBody, hm', htake, hany]
    | @decimal digits f rest hdigit hall hf hstop hbase =>
      have htake : (digits ++ (f ++ rest)).takeWhile isDecimal = digits := by
        refine takeWhile_append_stop hall ?_
        cases hf with
        | none he => exact he.stops hstop
        | dot | digits => rfl
      have hne : ¬((digits ++ f ++ rest).head? = some '0' ∧
          (digits ++ f ++ rest)[1]?.any (· ∈ ['b', 'o', 'x'])) := by
        rintro ⟨hzero, hany⟩
        cases digits with
        | nil => cases hdigit
        | cons d digits =>
          obtain rfl : d = '0' := Option.some_inj.mp hzero
          have hnext : (digits ++ (f ++ rest)).head?.any (· ∈ ['b', 'o', 'x']) := by
            simpa [List.head?_eq_getElem?] using hany
          cases digits with
          | nil =>
            cases hf with
            | none he =>
              cases he with
              | none =>
                cases rest with
                | nil => cases hnext
                | cons c rest => exact hbase rfl (by simpa using hnext)
              | @digits e sign digits rest he =>
                have he : e = 'e' ∨ e = 'E' := by simpa using he
                rcases he with rfl | rfl
                all_goals exact absurd hnext (by simp)
            | dot | digits => exact absurd hnext (by simp)
          | cons d digits =>
            have hd := isDecimal_not (hall d (by simp))
            simp_all
      rw [numberBody, if_neg hne, List.append_assoc, htake]
      dsimp only
      rw [List.drop_left, fraction_append_iff.mpr hf]
      rfl

/-! ## The next lexeme -/

theorem suffix_drop {suff : List Char} {f : List Char → Lexeme} (h : suffix X (suff ++ rest) = suff) :
    withSuffix X f (suff ++ rest) = (f suff, rest) := by
  rw [withSuffix, h]
  simp

theorem charLiteral_of_lexed {isByte : Bool} (h : Lexed X (.char isByte body suff) rest) :
    charLiteral X isByte (body ++ '\'' :: (suff ++ rest)) = some (.char isByte body suff, rest) := by
  obtain ⟨hbody, hascii, hsuff⟩ := h
  have hnot : ¬(isByte = true ∧ body.any (0x80 ≤ ·.toNat) = true) := by
    rintro ⟨hbyte, hany⟩
    obtain ⟨c, hc, hge⟩ := List.any_eq_true.mp hany
    have hge : 0x80 ≤ c.toNat := by simpa using hge
    have := hascii hbyte c hc
    omega
  simp only [charLiteral, hbody]
  rw [if_neg hnot, suffix_drop hsuff]

theorem string_of_lexed {mark : Mark} (h : Lexed X (.str mark body suff) rest) :
    string X mark (body ++ '"' :: (suff ++ rest)) = some (.str mark body suff, rest) := by
  rw [string, h.1, Option.map_some, suffix_drop h.2]

theorem rawString_of_lexed {mark : Mark} (h : Lexed X (.rawStr mark hashes body suff) rest) :
    rawString X mark hashes (body ++ '"' :: Lexeme.hashText hashes ++ (suff ++ rest)) =
      some (.rawStr mark hashes body suff, rest) := by
  rw [rawString, h.1, Option.map_some, suffix_drop h.2]

theorem IsWord.takeWhile (h : IsWord X name rest) : (name ++ rest).takeWhile X.cont = name :=
  takeWhile_append_stop h.cont h.maximal

theorem wordLike_eq (h : IsWord X name rest) :
    wordLike X (name ++ rest) = afterWord X name rest := by
  rw [wordLike, h.takeWhile]
  simp

theorem not_isWhitespace (h : X.cont c) (hascii : c.toNat < 0x80) : isWhitespace c = false := by
  rw [X.cont_ascii c hascii] at h
  have hcases : c.isAlpha ∨ c.isDigit ∨ c = '_' := by
    rcases Bool.or_eq_true_iff.mp h with h | h
    · exact (isAlphanum_iff.mp h).imp_right .inl
    · exact .inr (.inr (beq_iff_eq.mp h))
  have hbounds : 48 ≤ c.toNat := by
    rcases hcases with h | h | rfl
    · have := isAlpha_iff.mp h
      omega
    · exact (isDigit_iff.mp h).1
    · decide
  rw [Bool.eq_false_iff]
  intro hspace
  simp only [isWhitespace, Bool.or_eq_true, Bool.and_eq_true, decide_eq_true_eq,
    List.contains_iff_mem, List.mem_cons, List.not_mem_nil, or_false] at hspace
  omega

/-- A character that starts a word and is no whitespace. -/
theorem next_wordLike (hstart : X.wordStart c) (hspace : isWhitespace c = false) :
    next X (c :: rest) = wordLike X (c :: rest) := by
  have hchar : IsNumberChar X c := .inl (cont_of_wordStart hstart)
  have hslash : c ≠ '/' := hchar.ne (by decide) (by decide) (by decide)
  have hquote : c ≠ '\'' := hchar.ne (by decide) (by decide) (by decide)
  have hdouble : c ≠ '"' := hchar.ne (by decide) (by decide) (by decide)
  simp [next, hspace, hslash, hquote, hdouble, hstart]

/-- What starts a word is no whitespace. -/
def Lexeme.Plain : Lexeme → Prop
  | .word name => ∀ c, name.head? = some c → isWhitespace c = false
  | _ => True

theorem cont_eq_false (hascii : c.toNat < 0x80) (hword : (c.isAlphanum || c == '_') = false) :
    X.cont c = false := by rw [X.cont_ascii c hascii, hword]

/-- A word, or the mark of a literal, and what stands behind it. -/
theorem next_mark (X : Xid) (name rest : List Char) (hname : ∀ c ∈ name, c.isAlpha) (hne : name ≠ [])
    (hrest : rest.head?.any X.cont = false) : next X (name ++ rest) = afterWord X name rest := by
  obtain ⟨c, tail, rfl⟩ := List.exists_cons_of_ne_nil hne
  have hword : IsWord X (c :: tail) rest := by
    refine ⟨wordStart_of_isAlpha (hname c List.mem_cons_self), fun d hd => ?_, hrest⟩
    exact cont_of_wordStart (wordStart_of_isAlpha (hname d hd))
  have hstart := wordStart_of_isAlpha (X := X) (hname c List.mem_cons_self)
  have hascii := isAlphanum_lt (wordChar_of_isAlpha c (hname c List.mem_cons_self))
  rw [← wordLike_eq hword]
  exact next_wordLike hstart (not_isWhitespace (cont_of_wordStart hstart) hascii)

theorem isRawMark_text (mark : Mark) : isRawMark (mark.text ++ ['r']) = some mark := by
  cases mark <;> rfl

theorem afterWord_raw {mark : Mark} (h : rawString X mark hashes text = some (lexeme, rest)) :
    afterWord X (mark.text ++ ['r']) (Lexeme.hashText hashes ++ '"' :: text) = some (lexeme, rest) := by
  cases hashes with
  | zero =>
    have hb : mark.text ++ ['r'] ≠ ['b'] := by cases mark <;> decide
    have hc : mark.text ++ ['r'] ≠ ['c'] := by cases mark <;> decide
    simp [Lexeme.hashText, afterWord, hb, hc, isRawMark_text, h]
  | succ n =>
    have htake : (Lexeme.hashText (n + 1) ++ '"' :: text).takeWhile (· == '#') =
        Lexeme.hashText (n + 1) :=
      takeWhile_append_stop (fun c hc => beq_iff_eq.mpr (List.eq_of_mem_replicate hc)) rfl
    have hlen : (Lexeme.hashText (n + 1)).length = n + 1 := List.length_replicate
    have hhead : (Lexeme.hashText (n + 1) ++ '"' :: text).head? = some '#' := rfl
    have hquote : (Lexeme.hashText (n + 1) ++ '"' :: text)[n + 1]? = some '"' := by
      rw [List.getElem?_append_right hlen.le, hlen]
      simp
    have hdrop : (Lexeme.hashText (n + 1) ++ '"' :: text).drop (n + 1 + 1) = text := by
      rw [← List.drop_drop, List.drop_left' hlen]
      rfl
    rw [afterWord, hhead, if_neg (by decide), if_neg (by decide), if_pos rfl, htake, hlen]
    dsimp only
    rw [if_pos hquote, isRawMark_text, hdrop]
    exact h

theorem next_rawWord (h : Lexed X (.rawWord name) rest) :
    next X ((Lexeme.rawWord name).text ++ rest) = some (.rawWord name, rest) := by
  have hword : IsWord X name rest := h
  obtain ⟨c, tail, rfl, hstart⟩ := hword.exists_cons
  have hchar : IsNumberChar X c := .inl (cont_of_wordStart hstart)
  have hhash : c ≠ '#' := hchar.ne (by decide) (by decide) (by decide)
  have hdouble : c ≠ '"' := hchar.ne (by decide) (by decide) (by decide)
  have hnext : next X (['r'] ++ '#' :: (c :: tail ++ rest)) =
      afterWord X ['r'] ('#' :: (c :: tail ++ rest)) :=
    next_mark X _ _ (by simp) (by decide) (cont_eq_false (by decide) (by decide))
  have htake := hword.takeWhile
  rw [List.cons_append] at htake
  show next X (['r'] ++ '#' :: (c :: tail ++ rest)) = _
  rw [hnext]
  simp [afterWord, hhash, hdouble, hstart, htake, Nat.add_comm 1]

theorem next_quote (h : quote X text = some (lexeme, rest)) :
    next X ('\'' :: text) = some (lexeme, rest) := by
  simp [next, isWhitespace, h]

theorem quote_lifetime (h : Lexed X (.lifetime name) rest) :
    quote X (name ++ rest) = some (.lifetime name, rest) := by
  obtain ⟨hword, hrest⟩ := h
  have htake := hword.takeWhile
  simp only [List.mem_cons, List.not_mem_nil, or_false, not_or] at hrest
  obtain ⟨c, tail, rfl, hstart⟩ := hword.exists_cons
  -- the character behind the first one is no quote
  have hsecond : (tail ++ rest).head? ≠ some '\'' := by
    cases tail with
    | nil => exact hrest.1
    | cons d tail =>
      have hd : IsNumberChar X d := .inl (hword.cont d (by simp))
      simpa using hd.ne (d := '\'') (by decide) (by decide) (by decide)
  have hopen : (c :: tail ++ rest).head?.any X.wordStart ∧ (c :: tail ++ rest)[1]? ≠ some '\'' :=
    ⟨hstart, by simpa [List.head?_eq_getElem?] using hsecond⟩
  have hraw : ¬((c :: tail ++ rest).head? = some 'r' ∧ (c :: tail ++ rest)[1]? = some '#' ∧
      (c :: tail ++ rest)[2]?.any X.wordStart) := by
    rintro ⟨-, hhash, -⟩
    cases tail with
    | nil => exact hrest.2 (by simpa [List.head?_eq_getElem?] using hhash)
    | cons d tail =>
      have hd : IsNumberChar X d := .inl (hword.cont d (by simp))
      exact hd.ne (d := '#') (by decide) (by decide) (by decide) (by simpa using hhash)
  rw [quote, if_pos hopen, if_neg hraw, htake]
  simp [hrest]

theorem quote_rawLifetime (h : Lexed X (.rawLifetime name) rest) :
    quote X ('r' :: '#' :: name ++ rest) = some (.rawLifetime name, rest) := by
  have hword : IsWord X name rest := h
  have htake := hword.takeWhile
  obtain ⟨c, tail, rfl, hstart⟩ := hword.exists_cons
  have hr : X.wordStart 'r' = true := wordStart_of_isAlpha (by decide)
  rw [List.cons_append] at htake
  simp [quote, hr, hstart, htake, Nat.add_comm 2]

/-- **A lexeme that fits what stands behind it is read.** -/
theorem next_of_lexed (h : Lexed X lexeme rest) (hplain : lexeme.Plain) :
    next X (lexeme.text ++ rest) = some (lexeme, rest) := by
  cases lexeme with
  | space c =>
    have hspace : isWhitespace c = true := h
    simp [Lexeme.text, next, hspace]
  | lineComment body =>
    have htake : (body ++ rest).takeWhile (· != '\n') = body := by
      refine takeWhile_append_stop (fun c hc => ?_) ?_
      · rw [bne_iff_ne]
        rintro rfl
        exact h.1 hc
      · cases rest with
        | nil => rfl
        | cons c rest =>
          rw [h.2 c rfl]
          rfl
    simp [Lexeme.text, next, isWhitespace, htake, Nat.add_comm 1]
  | blockComment body =>
    have hbody : blockBody 0 (body ++ '*' :: '/' :: rest) = some (body, rest) := h
    simp [Lexeme.text, next, isWhitespace, hbody]
  | word name =>
    obtain ⟨c, tail, rfl, hstart⟩ := h.1.exists_cons
    have hrest := h.2
    simp only [List.mem_cons, List.not_mem_nil, or_false, not_or] at hrest
    have hnext : next X ((c :: tail) ++ rest) = wordLike X ((c :: tail) ++ rest) :=
      next_wordLike hstart (hplain c rfl)
    rw [Lexeme.text, hnext, wordLike_eq h.1, afterWord, if_neg hrest.1, if_neg hrest.2.1,
      if_neg hrest.2.2]
  | rawWord name => exact next_rawWord h
  | lifetime name => exact next_quote (quote_lifetime h)
  | rawLifetime name => exact next_quote (quote_rawLifetime h)
  | char isByte body suff =>
    have hchar := charLiteral_of_lexed h
    cases isByte with
    | false =>
      have hquote :
          quote X (body ++ '\'' :: (suff ++ rest)) = some (.char false body suff, rest) := by
        rw [quote, if_neg, hchar]
        rintro ⟨hstart, hsecond⟩
        cases (charBody_eq h.1).2 with
        | one => exact hsecond rfl
        | escape =>
          have hback : X.wordStart '\\' = true := hstart
          have hcont := cont_of_wordStart hback
          rw [cont_eq_false (by decide) (by decide)] at hcont
          cases hcont
      simpa [Lexeme.text] using next_quote hquote
    | true =>
      have hnext := next_mark X ['b'] ('\'' :: (body ++ '\'' :: (suff ++ rest))) (by simp)
        (by decide) (cont_eq_false (by decide) (by decide))
      simpa [Lexeme.text, afterWord, hchar] using hnext
  | str mark body suff =>
    have hstr := string_of_lexed h
    cases mark with
    | plain => simpa [Lexeme.text, Mark.text, next, isWhitespace] using hstr
    | byte =>
      have hnext := next_mark X ['b'] ('"' :: (body ++ '"' :: (suff ++ rest))) (by simp)
        (by decide) (cont_eq_false (by decide) (by decide))
      simpa [Lexeme.text, Mark.text, afterWord, hstr] using hnext
    | c =>
      have hnext := next_mark X ['c'] ('"' :: (body ++ '"' :: (suff ++ rest))) (by simp)
        (by decide) (cont_eq_false (by decide) (by decide))
      simpa [Lexeme.text, Mark.text, afterWord, hstr] using hnext
  | rawStr mark hashes body suff =>
    have hraw := rawString_of_lexed h
    have hnext := next_mark X (mark.text ++ ['r'])
      (Lexeme.hashText hashes ++ '"' :: (body ++ '"' :: Lexeme.hashText hashes ++ (suff ++ rest)))
      (by cases mark <;> simp [Mark.text]) (by simp)
      (by cases hashes <;> exact cont_eq_false (by decide) (by decide))
    rw [afterWord_raw hraw] at hnext
    simpa [Lexeme.text] using hnext
  | number body suff =>
    obtain ⟨hbody, hdigit, hsuff⟩ := h
    cases body with
    | nil => cases hdigit
    | cons c body =>
      have hc : c.isDigit := hdigit
      have hword := not_wordStart_of_isDigit (X := X) hc
      have hspace := not_isWhitespace (X := X) (cont_of_isDecimal (isDecimal_of_isDigit hc))
        (by have := isDigit_iff.mp hc; omega)
      have hslash : c ≠ '/' := by rintro rfl; exact absurd hc (by decide)
      have hquote : c ≠ '\'' := by rintro rfl; exact absurd hc (by decide)
      have hdouble : c ≠ '"' := by rintro rfl; exact absurd hc (by decide)
      simp only [List.cons_append] at hbody
      simp [Lexeme.text, next, hspace, hslash, hquote, hdouble, hword, hc, hbody, suffix_drop hsuff]
  | punct c =>
    obtain ⟨hmem, hslash⟩ := h
    simp only [List.mem_cons, List.not_mem_nil, or_false, not_or] at hslash
    have hascii : ∀ d ∈ punctuation, d.toNat < 0x80 ∧ (d.isAlphanum || d == '_') = false ∧
        isWhitespace d = false ∧ d ≠ '\'' ∧ d ≠ '"' ∧ d.isDigit = false :=
      List.all_iff_forall_prop.mp (by decide)
    obtain ⟨hlt, hword, hspace, hquote, hdouble, hdigit⟩ := hascii c hmem
    have hstart : X.wordStart c = false := by
      rw [Bool.eq_false_iff]
      intro hstart
      have hcont := cont_of_wordStart hstart
      rw [cont_eq_false hlt hword] at hcont
      cases hcont
    by_cases hc : c = '/'
    · simp [Lexeme.text, next, hspace, hquote, hdouble, hstart, hdigit, hmem, hslash hc]
    · simp [Lexeme.text, next, hspace, hquote, hdouble, hstart, hdigit, hmem, hc]

/-- **The text of lexemes that fit each other is read as these lexemes.** -/
theorem lexemes_of_allLexed {ls : List Lexeme} (h : AllLexed X ls) (hplain : ∀ l ∈ ls, l.Plain) :
    lexemes X (texts ls) = some ls := by
  induction ls with
  | nil => simp [lexemes]
  | cons l ls ih =>
    have hne : texts (l :: ls) ≠ [] := by
      rw [texts_cons]
      exact List.append_ne_nil_of_left_ne_nil h.1.text_ne_nil _
    have hnext := next_of_lexed h.1 (hplain l List.mem_cons_self)
    rw [← texts_cons] at hnext
    rw [lexemes, if_neg hne]
    split
    · rename_i hnone
      cases hnext.symm.trans hnone
    · rename_i hsome
      cases hnext.symm.trans hsome
      rw [ih h.2 fun l hl => hplain l (List.mem_cons_of_mem _ hl)]
      rfl

theorem plain_of_next (h : next X text = some (lexeme, rest)) : lexeme.Plain := by
  cases lexeme with
  | word name =>
    intro c hc
    obtain ⟨tail, rfl⟩ := List.head?_eq_some_iff.mp hc
    obtain ⟨rfl, -⟩ := next_reads h
    rw [Bool.eq_false_iff]
    intro hspace
    rw [Lexeme.text, List.cons_append, next, if_pos hspace] at h
    cases h
  | _ => trivial

theorem plain_of_lexemes {ls : List Lexeme} (h : lexemes X text = some ls) : ∀ l ∈ ls, l.Plain := by
  induction ls generalizing text with
  | nil => exact fun l hl => absurd hl List.not_mem_nil
  | cons l' ls ih =>
    rw [lexemes] at h
    split at h
    · cases h
    split at h
    · cases h
    · rename_i hnext
      obtain ⟨ls', hls, heq⟩ := Option.map_eq_some_iff.mp h
      cases heq
      exact List.forall_mem_cons.mpr ⟨plain_of_next hnext, ih hls⟩

/-! ## What stands behind a lexeme -/

/-- A text that starts like another one, as far as this matters for the lexeme before it. -/
inductive Alike (X : Xid) : List Char → List Char → Prop where
  /-- in place of a `#` there is whitespace of ASCII, or no more text -/
  | blank {rest rest' : List Char} : rest.head? = some '#' →
    (∀ c, rest'.head? = some c → isWhitespace c ∧ c.toNat < 0x80) → Alike X rest rest'
  /-- one word in place of another -/
  | word {rest rest' : List Char} : rest.head?.any X.wordStart → rest'.head?.any X.wordStart →
    Alike X rest rest'
  /-- the same character, and behind a dot another one of the same kind -/
  | same {rest rest' : List Char} : rest'.head? = rest.head? →
    (rest.head? = some '.' → (rest[1]? = some '.' → rest'[1]? = some '.') ∧
      (rest[1]?.any X.wordStart → rest'[1]?.any X.wordStart)) → Alike X rest rest'

theorem Alike.not_any (h : Alike X rest rest') (hp : ∀ c, p c → X.cont c)
    (hword : rest.head?.any X.wordStart → rest.head?.any p) (hrest : rest.head?.any p = false) :
    rest'.head?.any p = false := by
  cases h with
  | blank hhash hblank =>
    cases rest' with
    | nil => rfl
    | cons c rest' =>
      obtain ⟨hspace, hascii⟩ := hblank c rfl
      show p c = false
      rw [Bool.eq_false_iff]
      intro hc
      rw [not_isWhitespace (hp c hc) hascii] at hspace
      cases hspace
  | word hstart =>
    rw [hword hstart] at hrest
    cases hrest
  | same hhead => rwa [hhead]

theorem Alike.head?_ne (h : Alike X rest rest') (hword : X.wordStart c = false)
    (hspace : isWhitespace c = false) (hrest : rest.head? ≠ some c) : rest'.head? ≠ some c := by
  intro hhead
  cases h with
  | blank hhash hblank =>
    rw [(hblank c hhead).1] at hspace
    cases hspace
  | word hstart hstart' =>
    rw [hhead] at hstart'
    have hc : X.wordStart c = true := hstart'
    rw [hword] at hc
    cases hc
  | same heq => exact hrest (heq ▸ hhead)

/-- No word stands in place of another one. -/
def Steady (X : Xid) (rest rest' : List Char) : Prop :=
  rest'.head? = rest.head? ∨ rest.head?.any X.wordStart = false

theorem Alike.not_any_of_steady (h : Alike X rest rest') (hs : Steady X rest rest')
    (hp : ∀ c, p c → X.cont c) (hrest : rest.head?.any p = false) : rest'.head?.any p = false := by
  rcases hs with hhead | hword
  · rwa [hhead]
  · refine h.not_any hp (fun hstart => ?_) hrest
    rw [hword] at hstart
    cases hstart

/-- Behind a suffix that is there. -/
theorem Alike.append (h : suff.head?.any X.wordStart) : Alike X (suff ++ rest) (suff ++ rest') := by
  obtain ⟨c, tail, rfl⟩ : ∃ c tail, suff = c :: tail := by
    cases suff with
    | nil => cases h
    | cons c tail => exact ⟨c, tail, rfl⟩
  refine .same rfl ?_
  intro hdot
  obtain rfl : c = '.' := Option.some_inj.mp hdot
  have hcont := cont_of_wordStart (X := X) h
  rw [cont_eq_false (by decide) (by decide)] at hcont
  cases hcont

/-- What stands behind the same text. -/
theorem Alike.append_left (h : Alike X rest rest') (pre : List Char) :
    Alike X (pre ++ rest) (pre ++ rest') := by
  match pre with
  | [] => exact h
  | c :: d :: pre => exact .same rfl fun _ => ⟨id, id⟩
  | [c] =>
    refine .same rfl fun _ => ⟨fun hdot => ?_, fun hstart => ?_⟩
    · have hdot : rest.head? = some '.' := by simpa [List.head?_eq_getElem?] using hdot
      have hdot' : rest'.head? = some '.' := by
        cases h with
        | blank hhash => cases hhash.symm.trans hdot
        | word hstart =>
          rw [hdot] at hstart
          have hcont := cont_of_wordStart (X := X) hstart
          rw [cont_eq_false (by decide) (by decide)] at hcont
          cases hcont
        | same hhead => rwa [hhead]
      simpa [List.head?_eq_getElem?] using hdot'
    · have hstart : rest.head?.any X.wordStart := by simpa [List.head?_eq_getElem?] using hstart
      have hstart' : rest'.head?.any X.wordStart := by
        cases h with
        | blank hhash =>
          rw [hhash] at hstart
          have hcont := cont_of_wordStart (X := X) hstart
          rw [cont_eq_false (by decide) (by decide)] at hcont
          cases hcont
        | word _ hstart' => exact hstart'
        | same hhead => rwa [hhead]
      simpa [List.head?_eq_getElem?] using hstart'

theorem IsExponent.alike (h : IsExponent body rest) (ha : Alike X rest rest')
    (hs : Steady X rest rest') : IsExponent body rest' := by
  cases h with
  | none hhead =>
    refine .none ?_
    have hany : rest'.head?.any (fun c => c == 'e' || c == 'E') = false := by
      refine ha.not_any_of_steady hs (fun c hc => ?_) ?_
      · have hc : c = 'e' ∨ c = 'E' := by simpa using hc
        rcases hc with rfl | rfl
        all_goals exact cont_of_isAlphanum (by decide)
      · cases rest with
        | nil => rfl
        | cons c rest => simpa using hhead
    cases rest' with
    | nil => simp
    | cons c rest' => simpa using hany
  | digits he hsign hdigits hany hstop =>
    exact .digits he hsign hdigits hany
      (ha.not_any_of_steady hs (fun c => cont_of_isDecimal) hstop)

theorem wordStart_eq_false (hascii : c.toNat < 0x80) (hword : (c.isAlphanum || c == '_') = false) :
    X.wordStart c = false := by
  rw [Bool.eq_false_iff]
  intro hstart
  have hcont := cont_of_wordStart hstart
  rw [cont_eq_false hascii hword] at hcont
  cases hcont

theorem Alike.dot (h : Alike X rest rest') (hdot : rest'.head? = some '.') :
    rest.head? = some '.' ∧ (rest[1]? = some '.' → rest'[1]? = some '.') ∧
      (rest[1]?.any X.wordStart → rest'[1]?.any X.wordStart) := by
  by_cases hrest : rest.head? = some '.'
  · cases h with
    | blank hhash => cases hhash.symm.trans hrest
    | word hstart =>
      rw [hrest] at hstart
      have hword : X.wordStart '.' = false := wordStart_eq_false (by decide) (by decide)
      rw [show X.wordStart '.' = true from hstart] at hword
      cases hword
    | same _ hnext => exact ⟨hrest, hnext hrest⟩
  · exact absurd hdot (h.head?_ne (wordStart_eq_false (by decide) (by decide)) (by decide) hrest)

theorem IsFraction.alike (h : IsFraction X body rest) (ha : Alike X rest rest')
    (hs : Steady X rest rest') : IsFraction X body rest' := by
  cases h with
  | none he hdot =>
    refine .none (he.alike ha hs) fun hnil hhead => ?_
    obtain ⟨hrest, hdots, hstart⟩ := ha.dot hhead
    exact (hdot hnil hrest).imp hdots hstart
  | dot hdot hstart hdigit =>
    refine .dot (ha.head?_ne (wordStart_eq_false (by decide) (by decide)) (by decide) hdot)
      (ha.not_any (fun c => cont_of_wordStart) id hstart) ?_
    exact ha.not_any_of_steady hs (fun c hc => cont_of_isDecimal (isDecimal_of_isDigit hc)) hdigit
  | digits hstart hall he hstop =>
    exact .digits hstart hall (he.alike ha hs)
      fun hnil => ha.not_any_of_steady hs (fun c => cont_of_isDecimal) (hstop hnil)

theorem IsNumber.alike (h : IsNumber X body rest) (ha : Alike X rest rest')
    (hs : Steady X rest rest') : IsNumber X body rest' := by
  cases h with
  | base hm hall hany hstop =>
    exact .base hm hall hany (ha.not_any_of_steady hs (fun c => cont_of_isBaseDigit) hstop)
  | @decimal digits f rest hdigit hall hf hstop hbase =>
    refine .decimal hdigit hall (hf.alike ha hs)
      (fun hnil => ha.not_any_of_steady hs (fun c => cont_of_isDecimal) (hstop hnil)) ?_
    intro hzero
    have hany : rest'.head?.any (fun c => c == 'b' || c == 'o' || c == 'x') = false := by
      refine ha.not_any_of_steady hs (fun c hc => ?_) ?_
      · have hc : (c = 'b' ∨ c = 'o') ∨ c = 'x' := by simpa using hc
        rcases hc with (rfl | rfl) | rfl
        all_goals exact cont_of_isAlphanum (by decide)
      · cases rest with
        | nil => rfl
        | cons c rest => simpa [and_assoc] using hbase hzero
    cases rest' with
    | nil => simp
    | cons c rest' => simpa [and_assoc] using hany

theorem IsWord.alike (h : IsWord X name rest) (ha : Alike X rest rest') : IsWord X name rest' :=
  ⟨h.start, h.cont, ha.not_any (fun _ => id) (fun hstart => by
    obtain ⟨c, hc, hstart⟩ := (Option.any_eq_true _ _).mp hstart
    rw [hc]
    exact cont_of_wordStart hstart) h.maximal⟩

theorem start_of_suffix (h : suffix X (c :: suff ++ rest) = c :: suff) :
    (c :: suff).head?.any X.wordStart := by
  unfold suffix at h
  split at h
  · rename_i hstart
    exact hstart
  · cases h

/-- A suffix that is there is a word. -/
theorem isWord_of_suffix (h : suffix X (c :: suff ++ rest) = c :: suff) :
    IsWord X (c :: suff) rest := by
  have hhead := start_of_suffix h
  have hstart : (c :: suff ++ rest).head?.any X.wordStart := hhead
  have htake : (c :: suff ++ rest).takeWhile X.cont = c :: suff := by
    rwa [suffix, if_pos hstart] at h
  have hword := isWord_takeWhile hstart
  rwa [htake, List.drop_left] at hword

/-- The suffix of a literal. -/
theorem suffix_alike (h : suffix X (suff ++ rest) = suff) (ha : Alike X rest rest') :
    suffix X (suff ++ rest') = suff := by
  by_cases hstart : (suff ++ rest).head?.any X.wordStart
  · have htake : (suff ++ rest).takeWhile X.cont = suff := by rwa [suffix, if_pos hstart] at h
    have hword := isWord_takeWhile hstart
    rw [htake, List.drop_left] at hword
    have hword' := hword.alike ha
    have hstart' : (suff ++ rest').head?.any X.wordStart := by
      obtain ⟨c, tail, rfl, hc⟩ := hword.exists_cons
      exact hc
    rw [suffix, if_pos hstart', hword'.takeWhile]
  · obtain rfl : suff = [] := by rw [← h, suffix, if_neg hstart]
    have hstart' := ha.not_any (fun c => cont_of_wordStart) id (Bool.eq_false_iff.mpr hstart)
    rw [List.nil_append, suffix, if_neg (Bool.eq_false_iff.mp hstart')]

/-- **A lexeme stays what it is** where a text that starts alike is behind it. -/
theorem Lexed.alike (h : Lexed X lexeme rest) (ha : Alike X rest rest') : Lexed X lexeme rest' := by
  have hne : ∀ c ∈ ['\'', '"', '#', '/', '*'], rest.head? ≠ some c → rest'.head? ≠ some c := by
    intro c hc hrest
    have hascii : ∀ c ∈ ['\'', '"', '#', '/', '*'], c.toNat < 0x80 ∧
        (c.isAlphanum || c == '_') = false ∧ isWhitespace c = false :=
      List.all_iff_forall_prop.mp (by decide)
    obtain ⟨hlt, hword, hspace⟩ := hascii c hc
    exact ha.head?_ne (wordStart_eq_false hlt hword) hspace hrest
  cases lexeme with
  | space c => exact h
  | lineComment body =>
    refine ⟨h.1, fun c hc => ?_⟩
    cases ha with
    | blank hhash => exact absurd (h.2 _ hhash) (by decide)
    | word hstart =>
      obtain ⟨d, hd, hstart⟩ := (Option.any_eq_true _ _).mp hstart
      rw [h.2 d hd, wordStart_eq_false (by decide) (by decide)] at hstart
      cases hstart
    | same hhead => exact h.2 c (hhead ▸ hc)
  | blockComment body => exact blockBody_append h rest'
  | word name =>
    have hrest := h.2
    simp only [List.mem_cons, List.not_mem_nil, or_false, not_or] at hrest
    refine ⟨h.1.alike ha, ?_⟩
    simp only [List.mem_cons, List.not_mem_nil, or_false, not_or]
    exact ⟨hne _ (by decide) hrest.1, hne _ (by decide) hrest.2.1, hne _ (by decide) hrest.2.2⟩
  | rawWord name => exact IsWord.alike h ha
  | lifetime name =>
    have hrest := h.2
    simp only [List.mem_cons, List.not_mem_nil, or_false, not_or] at hrest
    refine ⟨h.1.alike ha, ?_⟩
    simp only [List.mem_cons, List.not_mem_nil, or_false, not_or]
    exact ⟨hne _ (by decide) hrest.1, hne _ (by decide) hrest.2⟩
  | rawLifetime name => exact IsWord.alike h ha
  | char isByte body suff =>
    exact ⟨charBody_append h.1 _, h.2.1, suffix_alike h.2.2 ha⟩
  | str mark body suff => exact ⟨strBody_append h.1 _, suffix_alike h.2 ha⟩
  | rawStr mark hashes body suff => exact ⟨rawBody_append h.1 _, suffix_alike h.2 ha⟩
  | number body suff =>
    obtain ⟨hbody, hdigit, hsuff⟩ := h
    have hstart : ∀ tail, (body ++ tail).head?.any Char.isDigit := by
      intro tail
      cases body with
      | nil => cases hdigit
      | cons c body => exact hdigit
    have hnumber := (numberBody_append_iff (hstart _)).mp hbody
    refine ⟨(numberBody_append_iff (hstart _)).mpr ?_, hdigit, suffix_alike hsuff ha⟩
    cases suff with
    | nil => exact hnumber.alike ha (.inr (not_wordStart_of_suffix hsuff))
    | cons c suff => exact hnumber.alike (.append (start_of_suffix hsuff)) (.inl rfl)
  | punct c =>
    refine ⟨h.1, fun hslash => ?_⟩
    have hrest := h.2 hslash
    simp only [List.mem_cons, List.not_mem_nil, or_false, not_or] at hrest ⊢
    exact ⟨hne _ (by decide) hrest.1, hne _ (by decide) hrest.2⟩

/-- **A text may be replaced behind lexemes** by one that starts alike. -/
theorem AllLexed.replace {ls tail tail' : List Lexeme} (h : AllLexed X (ls ++ tail))
    (ha : Alike X (texts tail) (texts tail')) (htail : AllLexed X tail') :
    AllLexed X (ls ++ tail') := by
  induction ls with
  | nil => exact htail
  | cons l ls ih =>
    refine ⟨h.1.alike ?_, ih h.2⟩
    show Alike X (texts (ls ++ tail)) (texts (ls ++ tail'))
    rw [texts_append, texts_append]
    exact ha.append_left (texts ls)

/-- Only whitespace ends a line. -/
theorem Lexed.getLast?_ne (h : Lexed X lexeme rest) (hspace : ∀ c, lexeme ≠ .space c) :
    lexeme.text.getLast? ≠ some '\n' := by
  have hlast : ∀ pre tail : List Char, ∀ c, '\n' ∉ c :: tail →
      (pre ++ c :: tail).getLast? ≠ some '\n' := by
    intro pre tail c hmem heq
    rw [List.getLast?_append_of_ne_nil _ (List.cons_ne_nil c tail)] at heq
    exact hmem (List.mem_of_getLast? heq)
  have hcont : ¬ X.cont '\n' := by
    rw [cont_eq_false (by decide) (by decide)]
    exact Bool.false_ne_true
  have hword : ∀ pre name, IsWord X name rest → (pre ++ name).getLast? ≠ some '\n' := by
    intro pre name hname
    obtain ⟨c, tail, rfl, -⟩ := hname.exists_cons
    exact hlast pre tail c fun hmem => hcont (hname.cont _ hmem)
  have hquote : ∀ pre suff : List Char, ∀ c, c ≠ '\n' → suffix X (suff ++ rest) = suff →
      (pre ++ c :: suff).getLast? ≠ some '\n' := by
    intro pre suff c hc hsuff
    refine hlast pre suff c fun hmem => ?_
    rcases List.mem_cons.mp hmem with heq | hmem
    · exact hc heq.symm
    · exact hcont (cont_of_mem_suffix hsuff hmem)
  cases lexeme with
  | space c => exact absurd rfl (hspace c)
  | lineComment body =>
    refine hlast ['/'] body '/' fun hmem => ?_
    rcases List.mem_cons.mp hmem with heq | hmem
    · exact absurd heq (by decide)
    · exact h.1 hmem
  | blockComment body =>
    have := hlast ('/' :: '*' :: body) ['/'] '*' (by decide)
    simpa [Lexeme.text] using this
  | word name => exact hword [] name h.1
  | rawWord name => exact hword ['r', '#'] name h
  | lifetime name => exact hword ['\''] name h.1
  | rawLifetime name => exact hword ['\'', 'r', '#'] name h
  | char isByte body suff =>
    have := hquote ((if isByte then ['b'] else []) ++ '\'' :: body) suff '\'' (by decide) h.2.2
    simpa [Lexeme.text] using this
  | str mark body suff =>
    have := hquote (mark.text ++ '"' :: body) suff '"' (by decide) h.2
    simpa [Lexeme.text] using this
  | rawStr mark hashes body suff =>
    have hend : '\n' ∉ '"' :: (Lexeme.hashText hashes ++ suff) := by
      intro hmem
      rcases List.mem_cons.mp hmem with heq | hmem
      · exact absurd heq (by decide)
      rcases List.mem_append.mp hmem with hmem | hmem
      · exact absurd (List.eq_of_mem_replicate hmem) (by decide)
      · exact hcont (cont_of_mem_suffix h.2 hmem)
    have := hlast (mark.text ++ 'r' :: Lexeme.hashText hashes ++ '"' :: body) _ '"' hend
    simpa [Lexeme.text] using this
  | number body suff =>
    obtain ⟨hbody, hdigit, hsuff⟩ := h
    have hchar : ∀ c ∈ body ++ suff, c ≠ '\n' := by
      intro c hc
      have hnumber : IsNumberChar X c := by
        rcases List.mem_append.mp hc with hc | hc
        · exact (numberBody_part hbody).chars c hc
        · exact .inl (cont_of_mem_suffix hsuff hc)
      exact hnumber.ne (by decide) (by decide) (by decide)
    exact fun heq => hchar _ (List.mem_of_getLast? heq) rfl
  | punct c =>
    intro heq
    obtain rfl : c = '\n' := Option.some_inj.mp heq
    exact absurd h.1 (by decide)

end Rticx.Lib.Rust
