import Rticx.AsyncRt.WaitQueue
import Rticx.Lib.Object

/-!
# The wait queue as a sequence

What the pointers of the wait queue are for: a sequence to whose end links are pushed, from whose
front they are popped, and out of which any link can be removed, whether it is in it or not.

Between its creation and its push a link is fresh. Who removes a fresh link discards it.
-/

namespace Rticx.AsyncRt.WaitQueue

variable {A V : Type}

/-! ## Following the pointers -/

/-- The links that `next` leads to, `n` of them at most. -/
def walkNext (links : A → Option (Link A V)) : Nat → Option A → List A
  | 0, _ | _ + 1, none => []
  | n + 1, some a => a :: walkNext links n ((links a).bind (·.next))

/-- The links that `prev` leads to. -/
def walkPrev (links : A → Option (Link A V)) : Nat → Option A → List A
  | 0, _ | _ + 1, none => []
  | n + 1, some a => a :: walkPrev links n ((links a).bind (·.prev))

variable {links : A → Option (Link A V)} {w w' : WaitQueue A V} {ids ids' : List A} {p n : Option A}

theorem Linked.walkNext (h : Linked links p ids none) (k : Nat) :
    walkNext links k ids.head? = ids.take k := by
  induction ids generalizing p k with
  | nil => cases k <;> rfl
  | cons a ids ih =>
    cases k with
    | zero => rfl
    | succ k =>
      obtain ⟨⟨l, hl, -, hn⟩, ht⟩ := h
      rw [Option.or_none] at hn
      rw [List.head?_cons, WaitQueue.walkNext, hl, Option.bind_some, hn, ih ht, List.take_succ_cons]

theorem Linked.walkPrev (h : Linked links none ids n) (k : Nat) :
    walkPrev links k ids.getLast? = ids.reverse.take k := by
  induction ids using List.reverseRecOn generalizing n k with
  | nil => cases k <;> rfl
  | append_singleton ids a ih =>
    cases k with
    | zero => rfl
    | succ k =>
      obtain ⟨ht, ⟨l, hl, hp, -⟩, -⟩ := (linked_append ..).mp h
      rw [Option.or_none] at hp
      rw [List.getLast?_concat, WaitQueue.walkPrev, hl, Option.bind_some, hp, ih ht,
        List.reverse_append, List.reverse_singleton, List.singleton_append, List.take_succ_cons]

/-- The links that the pointers of a list lead to. -/
inductive Reaches (w : WaitQueue A V) : A → Prop where
  | head {a : A} : w.head = some a → w.Reaches a
  | tail {a : A} : w.tail = some a → w.Reaches a
  | next {a b : A} {l : Link A V} : w.Reaches a → w.links a = some l → l.next = some b → w.Reaches b
  | prev {a b : A} {l : Link A V} : w.Reaches a → w.links a = some l → l.prev = some b → w.Reaches b

/-- The neighbours of a link of a chain. -/
theorem Linked.neighbours {a : A} {l : Link A V} (h : Linked links p ids n) (ha : a ∈ ids)
    (hl : links a = some l) :
    (∀ b, l.next = some b → b ∈ ids ∨ n = some b) ∧ ∀ b, l.prev = some b → b ∈ ids ∨ p = some b := by
  obtain ⟨xs, ys, rfl⟩ := List.append_of_mem ha
  obtain ⟨-, ⟨l', hl', hp, hn⟩, -⟩ := (linked_append ..).mp h
  obtain rfl : l' = l := Option.some.inj (hl'.symm.trans hl)
  constructor
  · intro b hb
    rcases Option.or_eq_some_iff.mp (hn.symm.trans hb) with hy | ⟨-, hn⟩
    · exact Or.inl (List.mem_append_right _ (List.mem_cons_of_mem a (List.mem_of_mem_head? hy)))
    · exact Or.inr hn
  · intro b hb
    rcases Option.or_eq_some_iff.mp (hp.symm.trans hb) with hx | ⟨-, hp⟩
    · exact Or.inl (List.mem_append_left _ (List.mem_of_getLast? hx))
    · exact Or.inr hp

/-- No pointer leads out of the list, and every link of it is found. -/
theorem Represents.reaches_iff (h : w.Represents ids) {a : A} : w.Reaches a ↔ a ∈ ids := by
  constructor
  · intro hr
    induction hr with
    | head ha => exact List.mem_of_mem_head? (h.head.symm.trans ha)
    | tail ha => exact List.mem_of_getLast? (h.tail.symm.trans ha)
    | next _ hl hn ih => exact ((h.linked.neighbours ih hl).1 _ hn).resolve_right (by rintro ⟨⟩)
    | prev _ hl hp ih => exact ((h.linked.neighbours ih hl).2 _ hp).resolve_right (by rintro ⟨⟩)
  · intro ha
    obtain ⟨xs, ys, rfl⟩ := List.append_of_mem ha
    -- the links in front of it lead to it
    clear ha
    induction xs using List.reverseRecOn generalizing a ys with
    | nil => exact .head h.head
    | append_singleton xs b ih =>
      rw [List.append_assoc, List.singleton_append] at h
      obtain ⟨-, ⟨l, hl, -, hn⟩, -⟩ := (linked_append ..).mp h.linked
      exact .next (ih _ h) hl hn

/-! ## The calls -/

inductive Op (A V : Type) where
  /-- a link is made, in memory that is not in the list -/
  | new (a : A) (val : V)
  | push (a : A)
  | pop
  | removeFromList (a : A)
  | isEmpty
  | isPopped (a : A)

inductive Ret (V : Type) where
  | done
  | popped (val : Option V)
  | bool (b : Bool)

variable [DecidableEq A]

/-- A call of a method of the list or of a link. -/
def call (w : WaitQueue A V) : Op A V → Option (Ret V × WaitQueue A V)
  | .new a val => some (.done, w.insert a val)
  | .push a => some (.done, w.push a)
  | .pop => some (.popped w.pop.1, w.pop.2)
  | .removeFromList a => some (.done, w.remove a)
  | .isEmpty => some (.bool w.isEmpty, w)
  | .isPopped a => (w.links a).map fun l => (.bool l.isPopped, w)

/-- The list as an object. -/
def object (A V : Type) [DecidableEq A] : Lib.Object (WaitQueue A V) (Op A V) (Ret V) := ⟨new, call⟩

/-! ## The sequence -/

inductive Stage where
  | fresh
  | pushed
  | discarded
  deriving DecidableEq

/-- The links in the sequence, and what became of each link that there is. -/
structure Sequence (A V : Type) where
  ids : List A
  links : A → Option (V × Stage)

namespace Sequence

/-- What a call of the list is to do. Only a fresh link may be pushed, and only a link that there is
can be removed. -/
def call (s : Sequence A V) : Op A V → Option (Ret V × Sequence A V)
  | .new a val =>
    if a ∈ s.ids then none
    else some (.done, { s with links := Function.update s.links a (some (val, .fresh)) })
  | .push a =>
    match s.links a with
    | some (val, .fresh) => some (.done, {
        ids := s.ids ++ [a]
        links := Function.update s.links a (some (val, .pushed)) })
    | _ => none
  | .pop =>
    match s.ids with
    | [] => some (.popped none, s)
    | a :: ids => some (.popped ((s.links a).map Prod.fst), { s with ids := ids })
  | .removeFromList a =>
    match s.links a with
    | none => none
    | some (val, .fresh) =>
      some (.done, { s with links := Function.update s.links a (some (val, .discarded)) })
    | some _ => some (.done, { s with ids := s.ids.erase a })
  | .isEmpty => some (.bool s.ids.isEmpty, s)
  | .isPopped a => (s.links a).map fun link =>
    match link.2 with
    | .fresh => (.bool false, s)
    | .pushed => (.bool (a ∉ s.ids), s)
    | .discarded => (.bool true, s)

end Sequence

/-- The sequence as an object. -/
def sequence (A V : Type) [DecidableEq A] : Lib.Object (Sequence A V) (Op A V) (Ret V) :=
  ⟨⟨[], fun _ => none⟩, Sequence.call⟩

/-! ## The list is the sequence -/

/-- The link at `a` has become what the sequence says. -/
def LinkOk (w : WaitQueue A V) (ids : List A) (a : A) : Option (V × Stage) → Prop
  | none => a ∉ ids
  | some (val, .fresh) => a ∉ ids ∧ w.links a = some (Link.new val)
  | some (val, .pushed) => w.status a = some (val, decide (a ∉ ids))
  | some (val, .discarded) => a ∉ ids ∧ w.status a = some (val, true)

/-- The pointers form the sequence. -/
structure Refines (w : WaitQueue A V) (s : Sequence A V) : Prop where
  chain : w.Chain s.ids
  links : ∀ a, LinkOk w s.ids a (s.links a)

variable {s : Sequence A V} {a : A} {val : V} {stage : Stage}

theorem new_refines : (new : WaitQueue A V).Refines ⟨[], fun _ => none⟩ where
  chain := new_represents.chain
  links := fun _ => List.not_mem_nil

/-- A step that changes one link of the sequence only. -/
theorem Refines.change (h : w.Refines s) {s' : Sequence A V} (hchain : w'.Chain s'.ids)
    (hstatus : ∀ b, b ≠ a → w'.status b = w.status b)
    (hlinks : ∀ b, b ≠ a → b ∉ s.ids → w'.links b = w.links b)
    (hids : ∀ b, b ≠ a → (b ∈ s'.ids ↔ b ∈ s.ids)) (hstage : ∀ b, b ≠ a → s'.links b = s.links b)
    (hlink : LinkOk w' s'.ids a (s'.links a)) : w'.Refines s' := by
  refine ⟨hchain, fun b => ?_⟩
  by_cases hba : b = a
  · exact hba ▸ hlink
  · have hb := h.links b
    rw [hstage b hba]
    cases hlb : s.links b with
    | none =>
      rw [hlb] at hb
      exact mt (hids b hba).mp hb
    | some link =>
      obtain ⟨v, stage⟩ := link
      rw [hlb] at hb
      cases stage with
      | fresh => exact ⟨mt (hids b hba).mp hb.1, (hlinks b hba hb.1).trans hb.2⟩
      | pushed =>
        have hb : w.status b = some (v, decide (b ∉ s.ids)) := hb
        show w'.status b = some (v, decide (b ∉ s'.ids))
        rw [hstatus b hba, hb]
        simp only [hids b hba]
      | discarded => exact ⟨mt (hids b hba).mp hb.1, (hstatus b hba).trans hb.2⟩

/-- A link that is in the sequence was pushed, and is not marked. -/
theorem Refines.pushed (h : w.Refines s) (ha : a ∈ s.ids) :
    ∃ v l, s.links a = some (v, .pushed) ∧ w.links a = some l ∧ l.val = v ∧ l.isPopped = false := by
  have hlink := h.links a
  cases hla : s.links a with
  | none =>
    rw [hla] at hlink
    exact absurd ha hlink
  | some link =>
    obtain ⟨v, stage⟩ := link
    rw [hla] at hlink
    cases stage with
    | fresh => exact absurd ha hlink.1
    | pushed =>
      obtain ⟨l, hl, hv⟩ := Option.map_eq_some_iff.mp (show w.status a = _ from hlink)
      obtain ⟨hval, hmark⟩ := Prod.mk.inj hv
      exact ⟨v, l, rfl, hl, hval, by simpa [ha] using hmark⟩
    | discarded => exact absurd ha hlink.1

theorem Refines.new (h : w.Refines s) (ha : a ∉ s.ids) (v : V) :
    (w.insert a v).Refines { s with links := Function.update s.links a (some (v, .fresh)) } := by
  obtain ⟨hchain, hstatus⟩ := h.chain.insert ha v
  refine h.change (a := a) hchain ?_ ?_ (fun _ _ => Iff.rfl) ?_ ?_
  · intro b hba
    rw [hstatus, Function.update_of_ne hba]
  · intro b hba _
    exact Function.update_of_ne hba ..
  · intro b hba
    exact Function.update_of_ne hba ..
  · show LinkOk _ _ a (Function.update s.links a _ a)
    rw [Function.update_self]
    exact ⟨ha, Function.update_self ..⟩

theorem Refines.push (h : w.Refines s) (ha : s.links a = some (val, .fresh)) :
    (w.push a).Refines {
      ids := s.ids ++ [a]
      links := Function.update s.links a (some (val, .pushed)) } := by
  have hlink := h.links a
  rw [ha] at hlink
  obtain ⟨hmem, hl⟩ := hlink
  obtain ⟨hchain, hstatus, hlinks⟩ := h.chain.push hmem hl rfl rfl
  refine h.change (a := a) hchain ?_ ?_ ?_ ?_ ?_
  · intro b _
    rw [hstatus]
  · intro b hba hb
    exact hlinks b (by simp [hb, hba])
  · intro b hba
    simp [hba]
  · intro b hba
    exact Function.update_of_ne hba ..
  · show LinkOk _ _ a (Function.update s.links a _ a)
    rw [Function.update_self]
    show (w.push a).status a = _
    rw [hstatus, status, statusOf, hl]
    simp [Link.new]

theorem Refines.pop (h : w.Refines s) {ids : List A} (hids : s.ids = a :: ids) :
    ∃ w', w.pop = ((s.links a).map Prod.fst, w') ∧ w'.Refines { s with ids := ids } := by
  obtain ⟨v, l, hla, hl, hval, -⟩ := h.pushed (hids ▸ List.mem_cons_self)
  have hchain := h.chain
  rw [hids] at hchain
  have ha := (List.nodup_cons.mp hchain.nodup).1
  obtain ⟨l', w', hl', hpop, hchain', hstatus, hlinks⟩ := hchain.pop_cons
  obtain rfl : l' = l := Option.some.inj (hl'.symm.trans hl)
  refine ⟨w', by rw [hpop, hla, ← hval]; rfl, h.change (a := a) hchain' ?_ ?_ ?_ (fun _ _ => rfl) ?_⟩
  · intro b hba
    rw [hstatus, Function.update_of_ne hba]
  · intro b _ hb
    exact hlinks b (hids ▸ hb)
  · intro b hba
    simp [hids, hba]
  · show LinkOk w' ids a (s.links a)
    rw [hla]
    show w'.status a = some (v, decide (a ∉ ids))
    rw [hstatus, Function.update_self, hval]
    simp [ha]

/-- A link that is not in the sequence may be marked before. -/
theorem remove_of_isPopped {l : Link A V} (hl : w.links a = some l) (hmark : l.isPopped = true) :
    w.remove a = w := by
  simp only [WaitQueue.remove, hl, hmark, if_true]

theorem Refines.remove_fresh (h : w.Refines s) (ha : s.links a = some (val, .fresh)) :
    (w.remove a).Refines { s with links := Function.update s.links a (some (val, .discarded)) } := by
  have hlink := h.links a
  rw [ha] at hlink
  obtain ⟨hmem, hl⟩ := hlink
  have hhead : w.head ≠ some a := by
    rw [h.chain.head]
    exact fun hc => hmem (List.mem_of_mem_head? hc)
  -- its pointers lead nowhere, and the list does not begin with it
  have hremove : w.remove a = { w with links := modify w.links (some a) .setPopped } := by
    simp only [WaitQueue.remove, hl, Link.new, Bool.false_eq_true, if_false, if_neg hhead]
  have hother : ∀ b, b ≠ a → modify w.links (some a) .setPopped b = w.links b :=
    fun b hba => modify_of_ne _ _ fun hc => hba (Option.some.inj hc).symm
  rw [hremove]
  refine h.change (a := a) ⟨h.chain.nodup, h.chain.head, h.chain.tail, ?_⟩ ?_ ?_
    (fun _ _ => Iff.rfl) ?_ ?_
  · refine h.chain.linked.congr fun b hb => hother b ?_
    rintro rfl
    exact hmem hb
  · intro b hba
    exact congrArg (Option.map _) (hother b hba)
  · exact fun b hba _ => hother b hba
  · intro b hba
    exact Function.update_of_ne hba ..
  · show LinkOk _ _ a (Function.update s.links a _ a)
    rw [Function.update_self]
    refine ⟨hmem, ?_⟩
    show statusOf _ a = _
    rw [statusOf_popped hl ⟨rfl, rfl⟩, Function.update_self]
    rfl

theorem Refines.remove (h : w.Refines s) (ha : s.links a = some (val, stage))
    (hstage : stage ≠ .fresh) : (w.remove a).Refines { s with ids := s.ids.erase a } := by
  by_cases hmem : a ∈ s.ids
  · obtain ⟨v, l, hla, hl, hval, hmark⟩ := h.pushed hmem
    obtain ⟨hchain, hstatus, hlinks⟩ := h.chain.remove hmem hl hmark
    refine h.change (a := a) hchain ?_ (fun b _ => hlinks b) ?_ (fun _ _ => rfl) ?_
    · intro b hba
      rw [hstatus, Function.update_of_ne hba]
    · intro b hba
      exact List.mem_erase_of_ne hba
    · show LinkOk _ _ a (s.links a)
      rw [hla]
      show (w.remove a).status a = _
      rw [hstatus, Function.update_self, hval]
      simp [h.chain.nodup.mem_erase_iff]
  · have hlink := h.links a
    rw [ha] at hlink
    obtain ⟨l, hl, hmark⟩ : ∃ l, w.links a = some l ∧ l.isPopped = true := by
      have hst : w.status a = some (val, true) := by
        cases stage with
        | fresh => exact absurd rfl hstage
        | pushed => simpa [hmem] using (show w.status a = some (val, decide (a ∉ s.ids)) from hlink)
        | discarded => exact hlink.2
      obtain ⟨l, hl, hv⟩ := Option.map_eq_some_iff.mp hst
      exact ⟨l, hl, (Prod.mk.inj hv).2⟩
    rw [remove_of_isPopped hl hmark, List.erase_of_not_mem hmem]
    exact h

theorem Refines.isEmpty (h : w.Refines s) : w.isEmpty = s.ids.isEmpty := by
  rw [WaitQueue.isEmpty, h.chain.head]
  cases s.ids <;> rfl

theorem Refines.isPopped (h : w.Refines s) (ha : s.links a = some (val, .pushed)) :
    ∃ l, w.links a = some l ∧ l.isPopped = decide (a ∉ s.ids) := by
  have hlink := h.links a
  rw [ha] at hlink
  obtain ⟨l, hl, hv⟩ := Option.map_eq_some_iff.mp (show w.status a = _ from hlink)
  exact ⟨l, hl, (Prod.mk.inj hv).2⟩

/-- **Every call does to the list what it does to the sequence.** -/
theorem Refines.call (h : w.Refines s) {op : Op A V} {ret : Ret V} {s' : Sequence A V}
    (hcall : s.call op = some (ret, s')) : ∃ w', w.call op = some (ret, w') ∧ w'.Refines s' := by
  cases op with
  | new a v =>
    simp only [Sequence.call] at hcall
    split at hcall
    · cases hcall
    · rename_i ha
      cases hcall
      exact ⟨_, rfl, h.new ha v⟩
  | push a =>
    simp only [Sequence.call] at hcall
    split at hcall
    · rename_i v ha
      cases hcall
      exact ⟨_, rfl, h.push ha⟩
    · cases hcall
  | pop =>
    simp only [Sequence.call] at hcall
    split at hcall
    · rename_i hids
      cases hcall
      have hchain := h.chain
      rw [hids] at hchain
      exact ⟨w, by rw [WaitQueue.call, hchain.pop_nil], h⟩
    · rename_i a ids hids
      cases hcall
      obtain ⟨w', hw', h'⟩ := h.pop hids
      exact ⟨w', by rw [WaitQueue.call, hw'], h'⟩
  | removeFromList a =>
    simp only [Sequence.call] at hcall
    split at hcall
    · cases hcall
    · rename_i v ha
      cases hcall
      exact ⟨_, rfl, h.remove_fresh ha⟩
    · rename_i link hfresh ha
      cases hcall
      exact ⟨_, rfl, h.remove ha fun hst => hfresh link.1 (by rw [← hst])⟩
  | isEmpty =>
    cases hcall
    exact ⟨w, by rw [WaitQueue.call, h.isEmpty], h⟩
  | isPopped a =>
    obtain ⟨⟨v, stage⟩, ha, heq⟩ := Option.map_eq_some_iff.mp hcall
    have hlink := h.links a
    rw [ha] at hlink
    cases stage with
    | fresh =>
      cases heq
      exact ⟨w, by rw [WaitQueue.call, hlink.2]; rfl, h⟩
    | pushed =>
      cases heq
      obtain ⟨l, hl, hmark⟩ := h.isPopped ha
      exact ⟨w, by rw [WaitQueue.call, hl, Option.map_some, hmark], h⟩
    | discarded =>
      cases heq
      obtain ⟨l, hl, hv⟩ := Option.map_eq_some_iff.mp hlink.2
      exact ⟨w, by rw [WaitQueue.call, hl, Option.map_some, (Prod.mk.inj hv).2], h⟩

/--
**The wait queue is a sequence.** Whatever is done to it, its calls return what they return for the
sequence, and `next` from the head and `prev` from the tail lead through just its links.
-/
theorem wait_queue_refines {ops : List (Op A V)} {rets : List (Ret V)} {s : Sequence A V}
    (h : (sequence A V).run (sequence A V).init ops = some (rets, s)) :
    ∃ w : WaitQueue A V, (object A V).run new ops = some (rets, w) ∧
      (∀ n, walkNext w.links n w.head = s.ids.take n) ∧
      (∀ n, walkPrev w.links n w.tail = s.ids.reverse.take n) ∧
      (w.head = none ↔ s.ids = []) ∧ (w.tail = none ↔ s.ids = []) ∧
      (w.isEmpty = true ↔ s.ids = []) ∧
      ∀ a v, s.links a = some (v, .pushed) →
        ∃ l, w.links a = some l ∧ (l.isPopped = true ↔ a ∉ s.ids) := by
  obtain ⟨w, hw, hr⟩ := Lib.Object.run_of_simulation (O := object A V) (S := sequence A V)
    (R := fun _ => Refines) []
    (fun _ _ _ _ _ _ hr hcall => hr.call hcall) (new_refines (A := A) (V := V)) h
  refine ⟨w, hw, ?_, ?_, ?_, ?_, ?_, ?_⟩
  · intro n
    rw [hr.chain.head]
    exact hr.chain.linked.walkNext n
  · intro n
    rw [hr.chain.tail]
    exact hr.chain.linked.walkPrev n
  · rw [hr.chain.head, List.head?_eq_none_iff]
  · rw [hr.chain.tail, List.getLast?_eq_none_iff]
  · rw [hr.isEmpty, List.isEmpty_iff]
  · intro a v ha
    obtain ⟨l, hl, hmark⟩ := hr.isPopped ha
    exact ⟨l, hl, by rw [hmark, decide_eq_true_iff]⟩

/-- A link in the middle is removed twice and a fresh one once, and the first is popped. -/
def removals : List (Op Nat Nat) :=
  [.new 0 10, .new 1 11, .new 2 12, .new 3 13, .push 0, .push 1, .push 2, .removeFromList 1,
    .removeFromList 1, .removeFromList 3, .pop, .isPopped 1, .isPopped 2]

theorem wait_queue_refines_removals :
    ∃ rets w, (object Nat Nat).run new removals = some (rets, w) ∧
      rets.drop 10 = [.popped (some 10), .bool true, .bool false] ∧
      (∀ n, walkNext w.links n w.head = [2].take n) ∧
      ∀ n, walkPrev w.links n w.tail = [2].take n := by
  have h : ∃ rets s, (sequence Nat Nat).run (sequence Nat Nat).init removals = some (rets, s) ∧
      rets.drop 10 = [.popped (some 10), .bool true, .bool false] ∧ s.ids = [2] :=
    ⟨_, _, rfl, rfl, rfl⟩
  obtain ⟨rets, s, hrun, hrets, hids⟩ := h
  obtain ⟨w, hw, hnext, hprev, -⟩ := wait_queue_refines hrun
  rw [hids] at hnext hprev
  exact ⟨rets, w, hw, hrets, hnext, hprev⟩

end Rticx.AsyncRt.WaitQueue
