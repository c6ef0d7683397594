import Mathlib.Data.List.Infix
import Mathlib.Data.Nat.Find
import Rticx.Expand.Merge
import Rticx.Expand.Missed

/-!
# Detection is exact

What `find_app_items` returns against the apps that the lexemes of a source file have. In files whose
apps hold no lexeme that the scan misreads, the search finds exactly the apps if and only if every
place that looks like the attribute of an app belongs to one, every app has one, no app is within
another, and the apps are written in the way that the search knows.
-/

namespace Rticx.Expand

open Rticx.Lib Rticx.Lib.Except Rticx.Lib.Utf8 Rticx.Lib.Rust

/-! ## What is looked for -/

/-- The search returns these items, and one alone is replaced without touching another byte. -/
structure Detected (text : List Char) (items : List AppItem) : Prop where
  found : FindAppItems (encode text) items
  spliced : ∀ item, items = [item] → ∃ pre mid post, text = pre ++ mid ++ post ∧
    (encode pre).length = item.attrStart ∧ (encode (pre ++ mid)).length = item.stop ∧
    ∀ expansion, ∃ rounds, spliceExpansion text expansion rounds = some (.ok
      (pre ++ (expansion ++ if expansion.getLast? = some '\n' then [] else ['\n']) ++ post))

/-- Places that look like attributes of apps are those of the apps, and no app lies within another. -/
structure Seen (bytes : List UInt8) (items : List AppItem) : Prop where
  start : isAppAt bytes 0 = false
  inside : ∀ pos hash, isAppAt bytes pos → attrStartOf bytes pos = .ok (some hash) →
    ∃ item ∈ items, item.attrStart ≤ hash ∧ pos < item.stop
  seen : ∀ item ∈ items, ∃ pos, isAppAt bytes pos ∧
    attrStartOf bytes pos = .ok (some item.attrStart)
  disjoint : items.Pairwise fun item item' => item.stop ≤ item'.attrStart

/-- No app holds a lexeme that is misread. -/
def AppsRead (ls : List Lexeme) : Prop :=
  ∀ suf ∈ ls.tails, ∀ rest ∈ app rust suf, ReadTo rest suf

/-- The apps are written in the way that the search knows. -/
def AppsKnown (ls : List Lexeme) : Prop :=
  ∀ suf ∈ ls.tails, ∀ rest ∈ app rust suf, app simple suf = some rest

instance (rest ls : List Lexeme) : Decidable (ReadTo rest ls) :=
  decidable_of_iff (ls.take (ls.length - rest.length) ++ rest = ls ∧
    allRead rest (ls.take (ls.length - rest.length))) <| by
    constructor
    · rintro ⟨heq, hread⟩
      exact ⟨_, heq.symm, hread⟩
    · rintro ⟨region, rfl, hread⟩
      rw [List.length_append, Nat.add_sub_cancel, List.take_left]
      exact ⟨rfl, hread⟩

instance (ls : List Lexeme) : Decidable (AppsRead ls) :=
  inferInstanceAs (Decidable (∀ suf ∈ ls.tails, ∀ rest ∈ app rust suf, ReadTo rest suf))

section

variable {X : Xid} {text head : List Char} {bytes : List UInt8} {offset hash hash' pos pos' : Nat}
  {ls suf rest : List Lexeme} {item item' : AppItem} {items todo : List AppItem} {s s' : Search}

/-! ## The apps of a file -/

theorem size_cons (l : Lexeme) (ls : List Lexeme) : size (l :: ls) = size [l] + size ls := by
  rw [size, size, size, texts_cons, encode_append, List.length_append, texts_cons, texts_nil,
    List.append_nil]

theorem size_append (pre post : List Lexeme) : size (pre ++ post) = size pre + size post := by
  rw [size, texts_append, encode_append, List.length_append]
  rfl

/-- The items are the apps at the suffixes of the file. -/
theorem mem_apps_iff : item ∈ apps offset ls ↔ ∃ pre suf rest, ls = pre ++ suf ∧
    app rust suf = some rest ∧
    item = ⟨offset + size pre, offset + size pre + (size suf - size rest)⟩ := by
  induction ls generalizing offset with
  | nil =>
    constructor
    · intro h
      cases h
    · rintro ⟨pre, suf, rest, hnil, happ, -⟩
      obtain ⟨rfl, rfl⟩ := List.append_eq_nil_iff.mp hnil.symm
      cases happ
  | cons l ls ih =>
    have hoffset : ∀ pre, offset + size (l :: pre) = offset + size [l] + size pre := by
      intro pre
      rw [size_cons, Nat.add_assoc]
    rw [apps, List.mem_append, ih, Option.mem_toList, Option.map_eq_some_iff]
    constructor
    · rintro (⟨rest, happ, rfl⟩ | ⟨pre, suf, rest, rfl, happ, rfl⟩)
      · exact ⟨[], l :: ls, rest, rfl, happ, rfl⟩
      · exact ⟨l :: pre, suf, rest, rfl, happ, by rw [hoffset pre]⟩
    · rintro ⟨pre, suf, rest, heq, happ, rfl⟩
      cases pre with
      | nil =>
        cases heq
        exact .inl ⟨rest, happ, rfl⟩
      | cons l' pre =>
        cases heq
        exact .inr ⟨pre, suf, rest, rfl, happ, by rw [hoffset pre]⟩

/-- The place of a suffix of the file. -/
theorem here_of_source {pre : List Lexeme} (hfile : source X text = some (head, ls))
    (hls : ls = pre ++ suf) : Here X (encode text) ((encode head).length + size pre) suf := by
  obtain ⟨htext, hlexed⟩ := source_spec hfile
  subst hls
  have hat : At (encode text) 0 ((head ++ texts pre) ++ texts suf) := by
    rw [htext, texts_append, List.append_assoc]
    exact At.start _
  have hplace := hat.append
  rw [Nat.zero_add, encode_append, List.length_append] at hplace
  refine ⟨hplace, hlexed.append_right, ?_⟩
  rw [htext, texts_append, encode_append, encode_append, List.length_append, List.length_append]
  show (encode head).length + (encode (texts pre)).length ≤ _
  omega

/-- Where a text is, by what is left. -/
theorem Here.add_size {i : Nat} (h : Here X bytes i ls) : i + size ls = bytes.length := by
  have hlen := congrArg List.length h.at'
  rw [List.length_drop] at hlen
  have := h.le
  show i + (encode (texts ls)).length = _
  omega

/-- **The apps are located with their ends.** -/
theorem located_of_mem (hfile : source X text = some (head, ls)) (hread : AppsRead ls)
    (hknown : AppsKnown ls) (hitem : item ∈ apps (encode head).length ls) :
    locateAppItem (encode text) item.attrStart = .ok (some item) := by
  obtain ⟨pre, suf, rest, hls, happ, rfl⟩ := mem_apps_iff.mp hitem
  have hsuf : suf ∈ ls.tails := (List.mem_tails suf ls).mpr ⟨pre, hls.symm⟩
  have hhere := here_of_source hfile hls
  obtain ⟨stop, hstop, hrest⟩ := hhere.located (hknown suf hsuf rest happ) (hread suf hsuf rest happ)
  have hsize := hhere.add_size
  have hsize' := hrest.add_size
  have hle : size rest ≤ size suf := by
    obtain ⟨region, rfl, -⟩ := hread suf hsuf rest happ
    rw [size_append]
    omega
  have heq : stop = (encode head).length + size pre + (size suf - size rest) := by omega
  rw [hstop, heq]

/-! ## The search over the apps -/

/-- What looks like an attribute reaches from its `#` on, over bytes that are none. -/
theorem eq_of_attrAt (hat : AttrAt bytes hash pos) (hat' : AttrAt bytes hash' pos')
    (hle : hash' ≤ hash) (hlt : hash < pos') : hash = hash' := by
  by_contra hne
  have hsharp := hat.sharp
  rcases Nat.eq_or_lt_of_le (show hash' + 1 ≤ hash by omega) with heq | hgt
  · rw [← heq, hat'.bracket] at hsharp
    exact absurd hsharp (by decide)
  · obtain ⟨b, hb, hor⟩ := hat'.path hash hgt hlt
    rw [hsharp, Option.some_inj] at hb
    subst hb
    exact absurd hor (by decide)

/-- An attribute that is seen, with what it says about the bytes. -/
theorem Seen.attrAt (h : Seen bytes items) (happ : isAppAt bytes pos)
    (hstart : attrStartOf bytes pos = .ok (some hash)) : AttrAt bytes hash pos := by
  have hone : 1 ≤ pos := by
    rcases Nat.eq_zero_or_pos pos with rfl | hpos
    · rw [h.start] at happ
      cases happ
    · exact hpos
  obtain ⟨r, hr, hat⟩ := attrStartOf_ok hone (Nat.le_of_add_right_le (length_of_isAppAt happ))
  cases hstart.symm.trans hr
  exact hat hash rfl

/-- The first attribute that is seen from a place on, when there is one. -/
theorem exists_firstFrom {i : Nat} (hzero : isAppAt bytes 0 = false) (hle : i ≤ pos)
    (happ : isAppAt bytes pos) (hstart : attrStartOf bytes pos = .ok (some hash)) :
    ∃ hash' pos', FirstFrom bytes i hash' pos' ∧ pos' ≤ pos := by
  have hex : ∃ q, i ≤ q ∧ isAppAt bytes q ∧ ∃ hash, attrStartOf bytes q = .ok (some hash) :=
    ⟨pos, hle, happ, hash, hstart⟩
  classical
  obtain ⟨hi, happ', hash', hstart'⟩ := Nat.find_spec hex
  refine ⟨hash', Nat.find hex, ⟨hi, happ', hstart', fun q hq hlt hq' => ?_⟩,
    Nat.find_min' hex ⟨hle, happ, hash, hstart⟩⟩
  have hone : 1 ≤ q := by
    rcases Nat.eq_zero_or_pos q with rfl | hpos
    · rw [hzero] at hq'
      cases hq'
    · exact hpos
  obtain ⟨r, hr, -⟩ := attrStartOf_ok hone (Nat.le_of_add_right_le (length_of_isAppAt hq'))
  cases r with
  | none => exact hr
  | some hash'' => exact absurd ⟨hq, hq', hash'', hr⟩ (Nat.find_min hex hlt)

/-- The search is behind the items that it has, and these and the ones that follow are all. -/
structure Upto (items todo : List AppItem) (s : Search) : Prop where
  items_eq : items = s.items ++ todo
  behind : ∀ item ∈ s.items, item.stop ≤ s.search
  ahead : ∀ item ∈ todo, s.search ≤ item.attrStart

/-- The next attribute is that of the next app. -/
theorem Upto.findFrom_cons (h : Upto items (item :: todo) s) (hseen : Seen bytes items)
    (hlocated : locateAppItem bytes item.attrStart = .ok (some item)) :
    findFrom bytes s.search = .ok (some item.attrStart) := by
  have hmem : item ∈ items := h.items_eq ▸ List.mem_append_right _ List.mem_cons_self
  have hahead := h.ahead item List.mem_cons_self
  obtain ⟨pos, happ, hstart⟩ := hseen.seen item hmem
  have hat := hseen.attrAt happ hstart
  have hlt := hat.lt
  have hspan : item.attrStart < item.stop := by
    obtain ⟨r, hr, hitem⟩ := locateAppItem_ok hat.bracket
    cases hlocated.symm.trans hr
    exact (hitem item rfl).lt
  have hpair := hseen.disjoint
  rw [h.items_eq, List.pairwise_append, List.pairwise_cons] at hpair
  obtain ⟨-, ⟨hafter, -⟩, hbefore⟩ := hpair
  -- what is not behind the search and not behind this app is this app
  have hthis : ∀ item' ∈ items, s.search < item'.stop → item'.attrStart < pos →
      pos ≤ item.stop → item' = item := by
    intro item' hitem' hstop hbegin hend
    rw [h.items_eq, List.mem_append, List.mem_cons] at hitem'
    rcases hitem' with hdone | rfl | htodo
    · have := h.behind item' hdone
      omega
    · rfl
    · have := hafter item' htodo
      omega
  have hend : pos ≤ item.stop := by
    obtain ⟨item', hitem', hbegin, hend⟩ := hseen.inside pos item.attrStart happ hstart
    rw [h.items_eq, List.mem_append, List.mem_cons] at hitem'
    rcases hitem' with hdone | rfl | htodo
    · have := h.behind item' hdone
      omega
    · omega
    · have := hafter item' htodo
      omega
  obtain ⟨hash', pos', hfirst, hle⟩ := exists_firstFrom (i := s.search) hseen.start (by omega) happ hstart
  have hat' := hseen.attrAt hfirst.app hfirst.start
  have hlt' := hat'.lt
  obtain ⟨item', hitem', hbegin, hstop⟩ := hseen.inside pos' hash' hfirst.app hfirst.start
  have hsearch := hfirst.le
  obtain rfl := hthis item' hitem' (by omega) (by omega) hend
  have hhash := eq_of_attrAt hat' hat hbegin (by omega)
  rw [hfirst.findFrom_eq, hhash]

/-- Behind the last app there is no attribute. -/
theorem Upto.findFrom_nil (h : Upto items [] s) (hseen : Seen bytes items) :
    findFrom bytes s.search = .ok none := by
  obtain ⟨r, hr, hfirst⟩ := findFrom_ok (i := s.search) (.inr hseen.start)
  cases r with
  | none => exact hr
  | some hash =>
    obtain ⟨pos, hpos⟩ := hfirst hash rfl
    obtain ⟨item, hitem, -, hstop⟩ := hseen.inside pos hash hpos.app hpos.start
    rw [h.items_eq, List.append_nil] at hitem
    have := h.behind item hitem
    have := hpos.le
    omega

/-- A round takes the next app. -/
theorem Upto.next (h : Upto items (item :: todo) s) (hseen : Seen bytes items)
    (hlocated : locateAppItem bytes item.attrStart = .ok (some item)) :
    s.round bytes = .ok (some ⟨item.stop, s.items ++ [item]⟩) ∧
      Upto items todo ⟨item.stop, s.items ++ [item]⟩ := by
  refine ⟨round_of_located (h.findFrom_cons hseen hlocated) hlocated, ?_, ?_, ?_⟩
  · rw [h.items_eq, List.append_assoc, List.singleton_append]
  · intro item' hitem'
    have hpair := hseen.disjoint
    have hmem : item ∈ items := h.items_eq ▸ List.mem_append_right _ List.mem_cons_self
    obtain ⟨pos, happ, hstart⟩ := hseen.seen item hmem
    obtain ⟨r, hr, hitem⟩ := locateAppItem_ok (hseen.attrAt happ hstart).bracket
    cases hlocated.symm.trans hr
    have hspan := (hitem item rfl).lt
    rcases List.mem_append.mp hitem' with hdone | hthis
    · have := h.behind item' hdone
      have := h.ahead item List.mem_cons_self
      show item'.stop ≤ item.stop
      omega
    · rw [List.mem_singleton.mp hthis]
  · intro item' hitem'
    have hpair := hseen.disjoint
    rw [h.items_eq, List.pairwise_append, List.pairwise_cons] at hpair
    exact hpair.2.1.1 item' hitem'

theorem Upto.returns (h : Upto items todo s) (hseen : Seen bytes items)
    (hlocated : ∀ item ∈ items, locateAppItem bytes item.attrStart = .ok (some item)) :
    ∃ stop, Loop.Returns (Search.round bytes) s ⟨stop, items⟩ := by
  induction todo generalizing s with
  | nil =>
    have hround : s.round bytes = .ok none := by
      unfold Search.round
      rw [h.findFrom_nil hseen]
      rfl
    have hitems : items = s.items := by rw [h.items_eq, List.append_nil]
    exact ⟨s.search, (Loop.returns_of_none hround).mpr (by rw [hitems])⟩
  | cons item todo ih =>
    have hmem : item ∈ items := h.items_eq ▸ List.mem_append_right _ List.mem_cons_self
    obtain ⟨hround, hnext⟩ := h.next hseen (hlocated item hmem)
    obtain ⟨stop, hstop⟩ := ih hnext
    exact ⟨stop, (Loop.returns_of_some hround).mpr hstop⟩

theorem upto_start (items : List AppItem) : Upto items items ⟨0, []⟩ where
  items_eq := rfl
  behind item hitem := by cases hitem
  ahead _ _ := Nat.zero_le _

/-! ## What is found is seen -/

/-- What the search has found so far. -/
structure Found (bytes : List UInt8) (s : Search) : Prop where
  disjoint : s.items.Pairwise fun item item' => item.stop ≤ item'.attrStart
  behind : ∀ item ∈ s.items, item.stop ≤ s.search
  located : ∀ item ∈ s.items, locateAppItem bytes item.attrStart = .ok (some item)
  seen : ∀ item ∈ s.items, ∃ pos, isAppAt bytes pos ∧
    attrStartOf bytes pos = .ok (some item.attrStart)
  inside : ∀ pos hash, isAppAt bytes pos → attrStartOf bytes pos = .ok (some hash) →
    pos < s.search → ∃ item ∈ s.items, item.attrStart ≤ hash ∧ pos < item.stop

theorem Found.next (h : Found bytes s) (hgood : Good bytes s) (hstart : isAppAt bytes 0 = false)
    (hfind : findFrom bytes s.search = .ok (some hash))
    (hlocate : locateAppItem bytes hash = .ok (some item)) :
    Found bytes ⟨item.stop, s.items ++ [item]⟩ := by
  obtain ⟨pos, hfirst, hat, hle⟩ := hgood.attrAt hstart hfind
  obtain ⟨r, hr, hitem⟩ := locateAppItem_ok hat.bracket
  cases hlocate.symm.trans hr
  have hitem := hitem item rfl
  have hhash := hitem.attrStart
  have hspan := hitem.lt
  constructor
  · refine List.pairwise_append.mpr ⟨h.disjoint, List.pairwise_singleton _ _, ?_⟩
    intro item' hitem' item'' hitem''
    rw [List.mem_singleton.mp hitem'', hhash]
    exact Nat.le_trans (h.behind item' hitem') hle
  · intro item' hitem'
    rcases List.mem_append.mp hitem' with hdone | hthis
    · have := h.behind item' hdone
      show item'.stop ≤ item.stop
      omega
    · rw [List.mem_singleton.mp hthis]
  · intro item' hitem'
    rcases List.mem_append.mp hitem' with hdone | hthis
    · exact h.located item' hdone
    · rw [List.mem_singleton.mp hthis, hhash]
      exact hlocate
  · intro item' hitem'
    rcases List.mem_append.mp hitem' with hdone | hthis
    · exact h.seen item' hdone
    · rw [List.mem_singleton.mp hthis, hhash]
      exact ⟨pos, hfirst.app, hfirst.start⟩
  · intro pos' hash' happ hstart' hlt
    rcases Nat.lt_or_ge pos' s.search with hbefore | hafter
    · obtain ⟨item', hmem, hin⟩ := h.inside pos' hash' happ hstart' hbefore
      exact ⟨item', List.mem_append_left _ hmem, hin⟩
    · refine ⟨item, List.mem_append_right _ (List.mem_singleton_self item), ?_, hlt⟩
      -- a later attribute does not start before the one that was found first
      have hone : 1 ≤ pos' := by
        rcases Nat.eq_zero_or_pos pos' with rfl | hpos
        · rw [hstart] at happ
          cases happ
        · exact hpos
      obtain ⟨r, hr, hat'⟩ := attrStartOf_ok hone (Nat.le_of_add_right_le (length_of_isAppAt happ))
      cases hstart'.symm.trans hr
      have hat' := hat' hash' rfl
      have hfirst' : pos ≤ pos' := by
        by_contra hgt
        cases hstart'.symm.trans (hfirst.first pos' hafter (by omega) happ)
      have hlt' := hat.lt
      rw [hhash]
      by_contra hgt
      exact hgt (Nat.le_of_eq (eq_of_attrAt hat hat' (by omega) (by omega)))

/-- A round of a search that returns. -/
theorem Found.step {t : Search} (hstart : isAppAt bytes 0 = false) (h : Found bytes s)
    (hgood : Good bytes s) (hreturns : Loop.Returns (Search.round bytes) s t)
    (hround : s.round bytes = .ok (some s')) : Found bytes s' ∧ Good bytes s' ∧
      Loop.Returns (Search.round bytes) s' t := by
  have hreturns' := (Loop.returns_of_some hround).mp hreturns
  obtain ⟨r, hr, -⟩ := findFrom_ok (i := s.search) (.inr hstart)
  cases r with
  | none =>
    unfold Search.round at hround
    rw [hr] at hround
    cases hround
  | some hash =>
    obtain ⟨pos, -, hat, -⟩ := hgood.attrAt hstart hr
    obtain ⟨r, hlocate, -⟩ := locateAppItem_ok hat.bracket
    cases r with
    | none => exact absurd hreturns (not_returns_of_missed hstart hgood hr hlocate)
    | some item =>
      cases hround.symm.trans (round_of_located hr hlocate)
      exact ⟨h.next hgood hstart hr hlocate, (Good.next hat (hgood.visited hash hr) hlocate).2,
        hreturns'⟩

/-- The text does not start with an attribute when the search returns. -/
theorem start_of_found (h : FindAppItems bytes items) : isAppAt bytes 0 = false := by
  obtain ⟨stop, hreturns⟩ := h
  by_contra happ
  obtain ⟨e, he⟩ := findFrom_panics (Bool.of_not_eq_false happ)
  refine Loop.not_returns_of_error (e := e) ?_ hreturns
  unfold Search.round
  rw [he]
  rfl

theorem found_of_returns (h : FindAppItems bytes items) :
    Seen bytes items ∧ ∀ item ∈ items, locateAppItem bytes item.attrStart = .ok (some item) := by
  have hstart := start_of_found h
  obtain ⟨stop, hreturns⟩ := h
  obtain ⟨hreach, hnone⟩ := hreturns.reaches
  have hempty : Found bytes ⟨0, []⟩ := by
    refine ⟨List.Pairwise.nil, ?_, ?_, ?_, fun pos hash _ _ hlt => absurd hlt (Nat.not_lt_zero pos)⟩
    all_goals
      intro item hitem
      cases hitem
  obtain ⟨hfound, -⟩ := hreach.invariant
    (P := fun s => Found bytes s ∧ Good bytes s ∧ Loop.Returns (Search.round bytes) s ⟨stop, items⟩)
    (fun s s' ⟨hfound, hgood, hreturns⟩ hround => hfound.step hstart hgood hreturns hround)
    ⟨hempty, .start, hreturns⟩
  refine ⟨⟨hstart, fun pos hash happ hattr => ?_, hfound.seen, hfound.disjoint⟩, hfound.located⟩
  rcases Nat.lt_or_ge pos stop with hlt | hge
  · exact hfound.inside pos hash happ hattr hlt
  · obtain ⟨hash', pos', hfirst, -⟩ := exists_firstFrom hstart hge happ hattr
    have hfind : findFrom bytes stop = .ok (some hash') := hfirst.findFrom_eq
    unfold Search.round at hnone
    rw [hfind, ok_bind] at hnone
    obtain ⟨r, -, hr⟩ := bind_eq_ok.mp hnone
    cases r <;> cases hr

/-! ## Exactness -/

/-- The app of a file, and what stands around it. -/
theorem parts_of_mem (hfile : source X text = some (head, ls)) (hread : AppsRead ls)
    (hitem : item ∈ apps (encode head).length ls) : ∃ pre mid post, text = pre ++ mid ++ post ∧
      (encode pre).length = item.attrStart ∧ (encode (pre ++ mid)).length = item.stop := by
  obtain ⟨before, suf, rest, rfl, happ, rfl⟩ := mem_apps_iff.mp hitem
  have hsuf : suf ∈ (before ++ suf).tails := (List.mem_tails suf _).mpr ⟨before, rfl⟩
  obtain ⟨region, rfl, -⟩ := hread suf hsuf rest happ
  obtain ⟨htext, -⟩ := source_spec hfile
  refine ⟨head ++ texts before, texts region, texts rest, ?_, ?_, ?_⟩
  · rw [htext, texts_append, texts_append, List.append_assoc, List.append_assoc]
  · rw [encode_append, List.length_append]
    rfl
  · rw [size_append, encode_append, encode_append, List.length_append, List.length_append]
    show _ + size before + size region = _ + size before + (size region + size rest - size rest)
    omega

theorem splice_eq {pre mid post expansion : List Char} (hstart : (encode pre).length = item.attrStart)
    (hstop : (encode (pre ++ mid)).length = item.stop) :
    splice (pre ++ mid ++ post) expansion item = .ok
      (pre ++ (expansion ++ if expansion.getLast? = some '\n' then [] else ['\n']) ++ post) := by
  have hpre : slice? (pre ++ mid ++ post) 0 item.attrStart = some pre := by
    have h := slice?_encode [] pre (mid ++ post)
    rw [List.nil_append, encode_nil, List.length_nil, Nat.zero_add, hstart] at h
    rw [List.append_assoc]
    exact h
  have hpost : slice? (pre ++ mid ++ post) item.stop (encode (pre ++ mid ++ post)).length =
      some post := by
    have h := slice?_encode (pre ++ mid) post []
    rw [List.append_nil, hstop, ← hstop, ← List.length_append, ← encode_append, hstop] at h
    exact h
  rw [splice, hpre, hpost]

/-- **What the search returns is exact** if and only if the places that look like attributes of apps
are those of the apps, none of which lies within another, and the apps are written as the search
knows. -/
theorem detected_iff (hfile : source X text = some (head, ls)) (hread : AppsRead ls) :
    Detected text (apps (encode head).length ls) ↔
      Seen (encode text) (apps (encode head).length ls) ∧ AppsKnown ls := by
  constructor
  · intro h
    obtain ⟨hseen, hlocated⟩ := found_of_returns h.found
    refine ⟨hseen, fun suf hsuf rest happ => ?_⟩
    obtain ⟨pre, hls⟩ := (List.mem_tails suf ls).mp hsuf
    obtain ⟨item, hmem, hitem⟩ : ∃ item ∈ apps (encode head).length ls,
        item.attrStart = (encode head).length + size pre :=
      ⟨_, mem_apps_iff.mpr ⟨pre, suf, rest, hls.symm, happ, rfl⟩, rfl⟩
    obtain ⟨pos, happ', hstart⟩ := hseen.seen _ hmem
    have hbracket := (hseen.attrAt happ' hstart).bracket
    have hlocate := hlocated _ hmem
    rw [hitem] at hbracket hlocate
    rcases (here_of_source hfile hls.symm).located_or happ (hread suf hsuf rest happ) hbracket with
      hsimple | hnone
    · exact hsimple
    · cases hlocate.symm.trans hnone
  · rintro ⟨hseen, hknown⟩
    have hlocated : ∀ item ∈ apps (encode head).length ls,
        locateAppItem (encode text) item.attrStart = .ok (some item) :=
      fun _ => located_of_mem hfile hread hknown
    obtain ⟨stop, hreturns⟩ := (upto_start _).returns hseen hlocated
    refine ⟨⟨stop, hreturns⟩, fun item hitems => ?_⟩
    have hmem : item ∈ apps (encode head).length ls := hitems ▸ List.mem_singleton_self item
    obtain ⟨pre, mid, post, htext, hpre, hmid⟩ := parts_of_mem hfile hread hmem
    refine ⟨pre, mid, post, htext, hpre, hmid, fun expansion => ?_⟩
    obtain ⟨rounds, hrounds⟩ := hreturns
    refine ⟨rounds, ?_⟩
    rw [hitems] at hrounds
    rw [spliceExpansion, hrounds, htext]
    exact congrArg some (splice_eq hpre hmid)

end

/-- A file with one app, which holds braces in a comment and in a string. -/
def plainFile : List Char := "#[x::app()] mod a \x7b /* \x7d */ \"\x7d\" \x7d".toList

/-- The lexemes of the file. -/
def plainLexemes : List Lexeme := ((source Xid.ascii plainFile).getD ([], [])).2

theorem plainFile_detected : Detected plainFile (apps 0 plainLexemes) ↔
    Seen (encode plainFile) (apps 0 plainLexemes) ∧ AppsKnown plainLexemes :=
  @detected_iff Xid.ascii plainFile [] plainLexemes (by decide +kernel) (by decide +kernel)

example : apps 0 plainLexemes = [⟨0, 33⟩] := by decide +kernel

end Rticx.Expand
