import Mathlib.Data.List.Basic
import Mathlib.Data.List.Induction
import Mathlib.Logic.Function.Basic
import Mathlib.Tactic.Common

/-!
# The wait queue

`DoublyLinkedList` of `rticx-async/src/wait_queue.rs`. The links live in the futures that wait,
so the list itself is only a head and a tail pointer, and every operation works on the links
through pointers. An address is the name of the future that owns the link.

`Represents w ids` says that the pointers form the list `ids`. Each operation has one lemma in
terms of `ids` and of `status`, which is what a future can see of its own link.
-/

namespace Rticx.AsyncRt

variable {A V : Type}

/-- `Link<T>` -/
structure Link (A V : Type) where
  val : V
  next : Option A
  prev : Option A
  isPopped : Bool

/-- `Link::new` -/
def Link.new (val : V) : Link A V where
  val := val
  next := none
  prev := none
  isPopped := false

/-- `self.next.store(next)` -/
def Link.setNext (next : Option A) (l : Link A V) : Link A V := { l with next := next }

/-- `self.prev.store(prev)` -/
def Link.setPrev (prev : Option A) (l : Link A V) : Link A V := { l with prev := prev }

/-- `self.is_popped.store(true)` -/
def Link.setPopped (l : Link A V) : Link A V := { l with isPopped := true }

/--
`DoublyLinkedList<T>` with the links that exist. A pointer to a link that does not exist is
followed like a null pointer; in a list that represents something there is none.
-/
structure WaitQueue (A V : Type) where
  head : Option A
  tail : Option A
  links : A → Option (Link A V)

namespace WaitQueue

/-- `DoublyLinkedList::new` -/
def new : WaitQueue A V where
  head := none
  tail := none
  links := fun _ => none

/-- `is_empty` -/
def isEmpty (w : WaitQueue A V) : Bool := w.head.isNone

section Operations

variable [DecidableEq A]

/-- Store into the link behind a pointer, unless it is null. -/
def modify (links : A → Option (Link A V)) (a : Option A) (f : Link A V → Link A V) :
    A → Option (Link A V) :=
  match a with
  | none => links
  | some a => Function.update links a ((links a).map f)

/-- `pop` -/
def pop (w : WaitQueue A V) : Option V × WaitQueue A V :=
  match w.head with
  | none => (none, w)
  | some head =>
    match w.links head with
    | none => (none, w)
    | some link =>
      let links := modify w.links link.next (.setPrev none)
      (some link.val,
        { head := link.next
          tail := if w.head = w.tail then none else w.tail
          links := modify links (some head) fun l => ((l.setNext none).setPrev none).setPopped })

/-- `push` of a link that exists. -/
def push (w : WaitQueue A V) (a : A) : WaitQueue A V :=
  match w.tail with
  | some tail =>
    let links := modify w.links (some a) (.setPrev (some tail))
    { w with tail := some a, links := modify links (some tail) (.setNext (some a)) }
  | none => { w with tail := some a, head := some a }

/-- `Link::remove_from_list` -/
def remove (w : WaitQueue A V) (a : A) : WaitQueue A V :=
  match w.links a with
  | none => w
  | some link =>
    if link.isPopped then w
    else
      let links := modify w.links (some a) .setPopped
      match link.prev, link.next with
      | none, none =>
        if w.head = some a then { head := none, tail := none, links := links }
        else { w with links := links }
      | none, some next =>
        { w with head := some next, links := modify links (some next) (.setPrev none) }
      | some prev, none =>
        { w with tail := some prev, links := modify links (some prev) (.setNext none) }
      | some prev, some next =>
        let links := modify links (some prev) (.setNext (some next))
        { w with links := modify links (some next) (.setPrev (some prev)) }

/-- The future at `a` puts a link into its own memory. -/
def insert (w : WaitQueue A V) (a : A) (val : V) : WaitQueue A V :=
  { w with links := Function.update w.links a (some (Link.new val)) }

/-- The future at `a` takes its link out again. -/
def take (w : WaitQueue A V) (a : A) : WaitQueue A V :=
  { w with links := Function.update w.links a none }

end Operations

/-! ## Chains of links -/

/-- The links `ids` follow each other, from `p` before the first to `n` behind the last. -/
def Linked (links : A → Option (Link A V)) : Option A → List A → Option A → Prop
  | _, [], _ => True
  | p, a :: ids, n =>
    (∃ l, links a = some l ∧ l.prev = p ∧ l.next = ids.head?.or n) ∧ Linked links (some a) ids n

variable {links links' : A → Option (Link A V)} {p p' n n' : Option A} {ids : List A} {a : A}

theorem linked_append (links : A → Option (Link A V)) (p n : Option A) (xs ys : List A) :
    Linked links p (xs ++ ys) n ↔
      Linked links p xs (ys.head?.or n) ∧ Linked links (xs.getLast?.or p) ys n := by
  induction xs generalizing p with
  | nil => simp [Linked]
  | cons x xs ih =>
    have hhead : (xs ++ ys).head?.or n = xs.head?.or (ys.head?.or n) := by
      rw [List.head?_append, Option.or_assoc]
    have hlast : (x :: xs).getLast?.or p = xs.getLast?.or (some x) := by
      cases xs with
      | nil => rfl
      | cons y xs =>
        obtain ⟨z, hz⟩ := Option.isSome_iff_exists.mp (List.getLast?_isSome.mpr (List.cons_ne_nil y xs))
        simp [List.getLast?_cons_cons, hz]
    rw [List.cons_append, Linked, Linked, ih, hhead, hlast, and_assoc]

/-- Links outside the chain do not matter. -/
theorem Linked.congr (h : Linked links p ids n) (heq : ∀ a ∈ ids, links' a = links a) :
    Linked links' p ids n := by
  induction ids generalizing p with
  | nil => trivial
  | cons a ids ih =>
    obtain ⟨⟨l, hl, hp, hn⟩, ht⟩ := h
    refine ⟨⟨l, (heq a List.mem_cons_self).trans hl, hp, hn⟩, ih ht fun b hb => ?_⟩
    exact heq b (List.mem_cons_of_mem a hb)

/-- A chain is determined by where it starts. -/
theorem Linked.unique {ids' : List A} (h : Linked links p ids none) (h' : Linked links p' ids' none)
    (hhead : ids.head? = ids'.head?) : ids = ids' := by
  induction ids generalizing p p' ids' with
  | nil => exact (List.head?_eq_none_iff.mp hhead.symm).symm
  | cons a ids ih =>
    cases ids' with
    | nil => cases hhead
    | cons b ids' =>
      obtain rfl : a = b := Option.some.inj hhead
      obtain ⟨⟨l, hl, -, hn⟩, ht⟩ := h
      obtain ⟨⟨l', hl', -, hn'⟩, ht'⟩ := h'
      obtain rfl : l = l' := Option.some.inj (hl.symm.trans hl')
      rw [Option.or_none] at hn hn'
      rw [ih ht ht' (hn.symm.trans hn')]

/-! ## What the pointers represent -/

/-- What a future can see of its link: the value it put in, and whether it was popped. -/
def statusOf (links : A → Option (Link A V)) (a : A) : Option (V × Bool) :=
  (links a).map fun l => (l.val, l.isPopped)

/-- `statusOf` of the links of a list. -/
def status (w : WaitQueue A V) : A → Option (V × Bool) := statusOf w.links

/-- The pointers form the list `ids`, and the links outside it are popped. -/
structure Represents (w : WaitQueue A V) (ids : List A) : Prop where
  nodup : ids.Nodup
  head : w.head = ids.head?
  tail : w.tail = ids.getLast?
  linked : Linked w.links none ids none
  popped : ∀ a v b, w.status a = some (v, b) → (b = false ↔ a ∈ ids)

/-- The pointers form the list `ids`, whatever the marks are. -/
structure Chain (w : WaitQueue A V) (ids : List A) : Prop where
  nodup : ids.Nodup
  head : w.head = ids.head?
  tail : w.tail = ids.getLast?
  linked : Linked w.links none ids none

variable {w : WaitQueue A V} {v : V}

theorem Represents.chain (h : w.Represents ids) : w.Chain ids where
  nodup := h.nodup
  head := h.head
  tail := h.tail
  linked := h.linked

theorem new_represents : (new : WaitQueue A V).Represents [] where
  nodup := List.nodup_nil
  head := rfl
  tail := rfl
  linked := trivial
  popped := fun _ _ _ => nofun

theorem Represents.isEmpty_iff (h : w.Represents ids) : w.isEmpty = true ↔ ids = [] := by
  rw [isEmpty, h.head, Option.isNone_iff_eq_none, List.head?_eq_none_iff]

/-- The pointers represent one list. -/
theorem Represents.unique {ids' : List A} (h : w.Represents ids) (h' : w.Represents ids') :
    ids = ids' :=
  h.linked.unique h'.linked (h.head.symm.trans h'.head)

/-- A link of the list exists. -/
theorem Linked.exists (h : Linked links p ids n) (ha : a ∈ ids) : ∃ l, links a = some l := by
  induction ids generalizing p with
  | nil => cases ha
  | cons b ids ih =>
    obtain ⟨⟨l, hl, -, -⟩, ht⟩ := h
    rcases List.mem_cons.mp ha with rfl | ha
    · exact ⟨l, hl⟩
    · exact ih ht ha

/-- The links of the list are those that are not popped. -/
theorem Represents.mem_iff (h : w.Represents ids) :
    a ∈ ids ↔ ∃ v, w.status a = some (v, false) := by
  constructor
  · intro ha
    obtain ⟨l, hl⟩ := h.linked.exists ha
    have hst : w.status a = some (l.val, l.isPopped) := by rw [status, statusOf, hl]; rfl
    exact ⟨l.val, by rw [hst, (h.popped a _ _ hst).mpr ha]⟩
  · rintro ⟨v, hv⟩
    exact (h.popped a v false hv).mp rfl

/-! ## Stores to the links -/

section Stores

variable [DecidableEq A]

theorem modify_of_ne (a : Option A) (f : Link A V → Link A V) {b : A} (h : a ≠ some b) :
    modify links a f b = links b := by
  cases a with
  | none => rfl
  | some a => exact Function.update_of_ne (fun hb => h (congrArg some hb.symm)) ..

theorem modify_self (links : A → Option (Link A V)) (a : A) (f : Link A V → Link A V) :
    modify links (some a) f a = (links a).map f := Function.update_self ..

/-- Attach the front of a chain to something else. -/
theorem Linked.setPrev (h : Linked links p ids n) (hnd : ids.Nodup) (p' : Option A) :
    Linked (modify links ids.head? (.setPrev p')) p' ids n := by
  cases ids with
  | nil => trivial
  | cons a ids =>
    obtain ⟨⟨l, hl, -, hn⟩, ht⟩ := h
    refine ⟨⟨l.setPrev p', ?_, rfl, hn⟩, ht.congr fun b hb => modify_of_ne _ _ ?_⟩
    · rw [List.head?_cons, modify_self, hl]
      rfl
    · rintro ⟨⟩
      exact (List.nodup_cons.mp hnd).1 hb

/-- Attach the end of a chain to something else. -/
theorem Linked.setNext (h : Linked links p ids n) (hnd : ids.Nodup) (n' : Option A) :
    Linked (modify links ids.getLast? (.setNext n')) p ids n' := by
  induction ids using List.reverseRecOn with
  | nil => trivial
  | append_singleton ids a _ =>
    rw [linked_append] at h ⊢
    have ha : a ∉ ids := fun ha => (List.nodup_append.mp hnd).2.2 a ha a (by simp) rfl
    obtain ⟨h, ⟨⟨l, hl, hp, -⟩, -⟩⟩ := h
    refine ⟨h.congr fun b hb => modify_of_ne _ _ ?_, ⟨l.setNext n', ?_, hp, rfl⟩, trivial⟩
    · rw [List.getLast?_concat]
      rintro ⟨⟩
      exact ha hb
    · rw [List.getLast?_concat, modify_self, hl]
      rfl

/-- Stores to `next` and `prev` are invisible to the futures. -/
theorem statusOf_modify (links : A → Option (Link A V)) (a : Option A)
    {f : Link A V → Link A V} (hf : ∀ l, (f l).val = l.val ∧ (f l).isPopped = l.isPopped) :
    statusOf (modify links a f) = statusOf links := by
  funext b
  by_cases h : a = some b
  · subst h
    rw [statusOf, modify_self, Option.map_map, statusOf]
    exact congrArg (Option.map · (links b)) (funext fun l => Prod.ext (hf l).1 (hf l).2)
  · rw [statusOf, modify_of_ne a f h, statusOf]

@[simp] theorem statusOf_setNext (links : A → Option (Link A V)) (a n : Option A) :
    statusOf (modify links a (.setNext n)) = statusOf links :=
  statusOf_modify links a fun _ => ⟨rfl, rfl⟩

@[simp] theorem statusOf_setPrev (links : A → Option (Link A V)) (a p : Option A) :
    statusOf (modify links a (.setPrev p)) = statusOf links :=
  statusOf_modify links a fun _ => ⟨rfl, rfl⟩

/-- The store to `is_popped` is not. -/
theorem statusOf_popped {l : Link A V} (hl : links a = some l) {f : Link A V → Link A V}
    (hf : (f l).val = l.val ∧ (f l).isPopped = true) :
    statusOf (modify links (some a) f) =
      Function.update (statusOf links) a (some (l.val, true)) := by
  funext b
  by_cases h : a = b
  · subst h
    rw [statusOf, modify_self, hl, Function.update_self, Option.map_some, Option.map_some, hf.1,
      hf.2]
  · rw [statusOf, modify_of_ne _ f (by simpa using h), Function.update_of_ne (Ne.symm h), statusOf]

end Stores

/-! ## The operations on a chain -/

section Chains

variable [DecidableEq A]

theorem Chain.pop_nil (h : w.Chain []) : w.pop = (none, w) := by
  rw [pop, h.head]
  rfl

/-- `pop` takes the first link out and marks it. -/
theorem Chain.pop_cons (h : w.Chain (a :: ids)) :
    ∃ l w', w.links a = some l ∧ w.pop = (some l.val, w') ∧ w'.Chain ids ∧
      w'.status = Function.update w.status a (some (l.val, true)) ∧
      ∀ b, b ∉ a :: ids → w'.links b = w.links b := by
  obtain ⟨⟨l, hl, -, hn⟩, ht⟩ := h.linked
  obtain ⟨ha, hnd⟩ := List.nodup_cons.mp h.nodup
  rw [Option.or_none] at hn
  have hne : ids.head? ≠ some a := fun hc => ha (List.mem_of_mem_head? hc)
  have hla : modify w.links ids.head? (.setPrev none) a = some l := (modify_of_ne _ _ hne).trans hl
  let w' : WaitQueue A V :=
    { head := ids.head?
      tail := if w.head = w.tail then none else w.tail
      links := modify (modify w.links ids.head? (.setPrev none)) (some a)
        fun l => ((l.setNext none).setPrev none).setPopped }
  refine ⟨l, w', hl, ?_, ⟨hnd, rfl, ?_, ?_⟩, ?_, fun b hb => ?_⟩
  · rw [pop, h.head, List.head?_cons]
    simp only [hl, hn, w', h.head, List.head?_cons]
  · show (if w.head = w.tail then none else w.tail) = _
    rw [h.head, h.tail]
    cases ids with
    | nil => exact if_pos rfl
    | cons b ids =>
      rw [if_neg, List.getLast?_cons_cons]
      intro hc
      rw [List.head?_cons, List.getLast?_cons_cons] at hc
      exact ha (List.mem_of_getLast? hc.symm)
  · refine (ht.setPrev hnd none).congr fun b hb => ?_
    refine modify_of_ne (some a) _ ?_
    rintro ⟨⟩
    exact ha hb
  · rw [status, statusOf_popped hla ⟨rfl, rfl⟩, statusOf_setPrev, status]
  · rw [List.mem_cons, not_or] at hb
    have hab : (some a : Option A) ≠ some b := fun hc => hb.1 (Option.some.inj hc).symm
    have hhead : ids.head? ≠ some b := fun hc => hb.2 (List.mem_of_mem_head? hc)
    exact (modify_of_ne _ _ hab).trans (modify_of_ne _ _ hhead)

/-- A link that points nowhere goes to the end. -/
theorem Chain.push (h : w.Chain ids) (ha : a ∉ ids) {l : Link A V} (hl : w.links a = some l)
    (hnext : l.next = none) (hprev : l.prev = none) :
    (w.push a).Chain (ids ++ [a]) ∧ (w.push a).status = w.status ∧
      ∀ b, b ∉ ids ++ [a] → (w.push a).links b = w.links b := by
  have hnd : (ids ++ [a]).Nodup := by
    refine List.nodup_append.mpr ⟨h.nodup, by simp, ?_⟩
    rintro b hb c hc rfl
    exact ha (List.mem_singleton.mp hc ▸ hb)
  cases hids : ids.getLast? with
  | none =>
    -- the only link is both ends of the line
    obtain rfl : ids = [] := by simpa using hids
    have hpush : w.push a = { w with tail := some a, head := some a } := by
      rw [WaitQueue.push, h.tail]
      rfl
    rw [hpush]
    exact ⟨⟨hnd, rfl, rfl, ⟨⟨l, hl, hprev, hnext⟩, trivial⟩⟩, rfl, fun _ _ => rfl⟩
  | some t =>
    have htail : w.tail = some t := h.tail.trans hids
    have ht : t ∈ ids := List.mem_of_getLast? hids
    have hta : (some t : Option A) ≠ some a := by
      rintro ⟨⟩
      exact ha ht
    -- `push` changes the old tail and the new link, and nothing in front of them
    have hpush : w.push a = { w with
        tail := some a
        links := modify (modify w.links (some a) (.setPrev (some t))) (some t)
          (.setNext (some a)) } := by
      rw [WaitQueue.push, htail]
    rw [hpush]
    refine ⟨⟨hnd, ?_, ?_, ?_⟩, ?_, fun b hb => ?_⟩
    · show w.head = (ids ++ [a]).head?
      rw [h.head, List.head?_append_of_ne_nil _ (List.ne_nil_of_mem ht)]
    · show some a = (ids ++ [a]).getLast?
      rw [List.getLast?_concat]
    · rw [linked_append]
      refine ⟨?_, ⟨⟨l.setPrev (some t), ?_, ?_, hnext⟩, trivial⟩⟩
      · have hframe : Linked (modify w.links (some a) (.setPrev (some t))) none ids none := by
          refine h.linked.congr fun b hb => modify_of_ne _ _ ?_
          rintro ⟨⟩
          exact ha hb
        have := hframe.setNext h.nodup (some a)
        rw [hids] at this
        exact this
      · show modify _ (some t) _ a = _
        rw [modify_of_ne _ _ hta, modify_self, hl]
        rfl
      · rw [hids]
        rfl
    · rw [status, statusOf_setNext, statusOf_setPrev, status]
    · rw [List.mem_append, not_or, List.mem_singleton] at hb
      have hab : (some a : Option A) ≠ some b := fun hc => hb.2 (Option.some.inj hc).symm
      have htb : (some t : Option A) ≠ some b := fun hc => hb.1 (Option.some.inj hc ▸ ht)
      exact (modify_of_ne _ _ htb).trans (modify_of_ne _ _ hab)

/-- The pointers after a link between `xs` and `ys` was taken out. -/
def unlinked (links : A → Option (Link A V)) (xs ys : List A) (a : A) : WaitQueue A V where
  head := (xs ++ ys).head?
  tail := (xs ++ ys).getLast?
  links := modify (modify (modify links (some a) .setPopped) xs.getLast? (.setNext ys.head?))
    ys.head? (.setPrev xs.getLast?)

/-- The four branches of `remove_from_list` do the same to the pointers around the link. -/
theorem Chain.remove_eq {xs ys : List A} (h : w.Chain (xs ++ a :: ys)) {l : Link A V}
    (hl : w.links a = some l) (hp : l.prev = xs.getLast?) (hn : l.next = ys.head?)
    (hpop : l.isPopped = false) : w.remove a = unlinked w.links xs ys a := by
  have hhead := h.head
  have htail := h.tail
  simp only [WaitQueue.remove, hl, hpop, hp, hn, Bool.false_eq_true, if_false]
  cases xs using List.reverseRecOn with
  | nil =>
    cases ys with
    | nil =>
      have hwa : w.head = some a := hhead
      simp [unlinked, hwa, modify]
    | cons y ys =>
      rw [List.nil_append, List.getLast?_cons_cons] at htail
      simp [unlinked, htail, modify]
  | append_singleton xs x _ =>
    rw [List.head?_append_of_ne_nil _ (by simp)] at hhead
    cases ys with
    | nil => simp [unlinked, hhead, modify]
    | cons y ys =>
      obtain ⟨z, hz⟩ := Option.isSome_iff_exists.mp
        (List.getLast?_isSome.mpr (List.cons_ne_nil y ys))
      rw [List.getLast?_append, List.getLast?_cons_cons, hz, Option.some_or] at htail
      simp [unlinked, hhead, htail, hz, modify]

/-- `remove_from_list` takes a link out wherever it is, and marks it. -/
theorem Chain.remove (h : w.Chain ids) (ha : a ∈ ids) {l : Link A V} (hl : w.links a = some l)
    (hpop : l.isPopped = false) :
    (w.remove a).Chain (ids.erase a) ∧
      (w.remove a).status = Function.update w.status a (some (l.val, true)) ∧
      ∀ b, b ∉ ids → (w.remove a).links b = w.links b := by
  obtain ⟨xs, ys, rfl⟩ := List.append_of_mem ha
  obtain ⟨hxs, hays, hdisj⟩ := List.nodup_append.mp h.nodup
  obtain ⟨hay, hys⟩ := List.nodup_cons.mp hays
  have hax : a ∉ xs := fun hc => hdisj a hc a List.mem_cons_self rfl
  obtain ⟨hlx, ⟨⟨l', hl', hp, hn⟩, hly⟩⟩ := (linked_append ..).mp h.linked
  obtain rfl : l' = l := Option.some.inj (hl'.symm.trans hl)
  rw [Option.or_none] at hp hn
  rw [h.remove_eq hl hp hn hpop, List.erase_append_right _ hax, List.erase_cons_head]
  have hnd : (xs ++ ys).Nodup := List.nodup_append.mpr
    ⟨hxs, hys, fun x hx y hy => hdisj x hx y (List.mem_cons_of_mem a hy)⟩
  refine ⟨⟨hnd, rfl, rfl, ?_⟩, ?_, fun b hb => ?_⟩
  · have popped : ∀ {p n zs}, a ∉ zs → Linked w.links p zs n →
        Linked (modify w.links (some a) .setPopped) p zs n := by
      intro p n zs hz h
      refine h.congr fun b hb => modify_of_ne _ _ ?_
      rintro ⟨⟩
      exact hz hb
    refine (linked_append ..).mpr ⟨?_, ?_⟩
    · -- up to the gap, whose left end now points behind it
      rw [Option.or_none]
      refine ((popped hax hlx).setNext hxs _).congr fun b hb => modify_of_ne _ _ fun hc => ?_
      exact hdisj b hb b (List.mem_cons_of_mem a (List.mem_of_mem_head? hc)) rfl
    · rw [Option.or_none]
      refine Linked.setPrev ((popped hay hly).congr fun b hb => modify_of_ne _ _ fun hc => ?_) hys _
      exact hdisj b (List.mem_of_getLast? hc) b (List.mem_cons_of_mem a hb) rfl
  · rw [status, unlinked, statusOf_setPrev, statusOf_setNext, statusOf_popped hl ⟨rfl, rfl⟩]
    rfl
  · have hne : ∀ c ∈ xs ++ a :: ys, (some c : Option A) ≠ some b := by
      rintro c hc ⟨⟩
      exact hb hc
    have hys : ys.head? ≠ some b := fun hc =>
      hb (List.mem_append_right _ (List.mem_cons_of_mem a (List.mem_of_mem_head? hc)))
    have hxs : xs.getLast? ≠ some b := fun hc => hb (List.mem_append_left _ (List.mem_of_getLast? hc))
    exact (modify_of_ne _ _ hys).trans ((modify_of_ne _ _ hxs).trans (modify_of_ne _ _ (hne a ha)))

/-- A link that is made outside the chain. -/
theorem Chain.insert (h : w.Chain ids) (ha : a ∉ ids) (v : V) :
    (w.insert a v).Chain ids ∧
      (w.insert a v).status = Function.update w.status a (some (v, false)) := by
  refine ⟨⟨h.nodup, h.head, h.tail, h.linked.congr fun b hb => Function.update_of_ne ?_ ..⟩, ?_⟩
  · rintro rfl
    exact ha hb
  · funext b
    by_cases hb : b = a
    · subst hb
      simp [status, statusOf, WaitQueue.insert, Link.new]
    · simp [status, statusOf, WaitQueue.insert, hb]

end Chains

/-! ## The operations -/

section Operations

variable [DecidableEq A]

theorem Represents.pop_nil (h : w.Represents []) : w.pop = (none, w) := h.chain.pop_nil

/-- The marks match the list again, where the chain has changed by one link. -/
theorem Chain.represents {w' : WaitQueue A V} {ids' : List A} (h' : w'.Chain ids')
    (h : w.Represents ids) {b : Bool} (hstatus : w'.status = Function.update w.status a (some (v, b)))
    (ha : b = false ↔ a ∈ ids') (hmem : ∀ c, c ≠ a → (c ∈ ids' ↔ c ∈ ids)) :
    w'.Represents ids' where
  nodup := h'.nodup
  head := h'.head
  tail := h'.tail
  linked := h'.linked
  popped := by
    intro c u d hc
    rw [hstatus] at hc
    by_cases hca : c = a
    · subst hca
      rw [Function.update_self] at hc
      cases hc
      exact ha
    · rw [Function.update_of_ne hca] at hc
      exact (h.popped c u d hc).trans (hmem c hca).symm

/-- **`pop` takes the first link out and marks it.** -/
theorem Represents.pop_cons (h : w.Represents (a :: ids)) :
    ∃ v w', w.status a = some (v, false) ∧ w.pop = (some v, w') ∧ w'.Represents ids ∧
      w'.status = Function.update w.status a (some (v, true)) := by
  obtain ⟨l, w', hl, hpop, hchain, hstatus, -⟩ := h.chain.pop_cons
  have hst : w.status a = some (l.val, l.isPopped) := by rw [status, statusOf, hl]; rfl
  have hmark : l.isPopped = false := (h.popped a _ _ hst).mpr List.mem_cons_self
  have ha := (List.nodup_cons.mp h.nodup).1
  refine ⟨l.val, w', by rw [hst, hmark], hpop, hchain.represents h hstatus ?_ ?_, hstatus⟩
  · simp [ha]
  · intro b hba
    simp [hba]

/-- **A new link goes to the end.** -/
theorem Represents.insert_push (h : w.Represents ids) (ha : w.links a = none) (v : V) :
    ((w.insert a v).push a).Represents (ids ++ [a]) ∧
      ((w.insert a v).push a).status = Function.update w.status a (some (v, false)) := by
  have hmem : a ∉ ids := by
    intro hin
    obtain ⟨l, hl⟩ := h.linked.exists hin
    rw [ha] at hl
    cases hl
  obtain ⟨hinsert, hstatus⟩ := h.chain.insert hmem v
  obtain ⟨hpush, hstatus', -⟩ :=
    hinsert.push hmem (l := Link.new v) (Function.update_self ..) rfl rfl
  rw [hstatus] at hstatus'
  refine ⟨hpush.represents h hstatus' (by simp) ?_, hstatus'⟩
  intro b hba
  simp [hba]

/-- **`remove_from_list` takes a link out wherever it is, and does nothing to a popped one.** -/
theorem Represents.remove (h : w.Represents ids) {b : Bool} (ha : w.status a = some (v, b)) :
    (w.remove a).Represents (ids.erase a) ∧
      (w.remove a).status = Function.update w.status a (some (v, true)) := by
  obtain ⟨l, hl, hlv⟩ : ∃ l, w.links a = some l ∧ (l.val, l.isPopped) = (v, b) := by
    rw [status, statusOf, Option.map_eq_some_iff] at ha
    exact ha
  obtain ⟨rfl, rfl⟩ := Prod.mk.inj hlv
  have hmem := h.popped a _ _ ha
  cases hb : l.isPopped with
  | true =>
    rw [hb] at hmem ha
    have hnot : a ∉ ids := fun hc => by simpa using hmem.mpr hc
    have hremove : w.remove a = w := by simp only [WaitQueue.remove, hl, hb, if_true]
    rw [hremove, List.erase_of_not_mem hnot]
    exact ⟨h, (Function.update_eq_self_iff.mpr ha.symm).symm⟩
  | false =>
    obtain ⟨hchain, hstatus, -⟩ := h.chain.remove (hmem.mp hb) hl hb
    refine ⟨hchain.represents h hstatus ?_ ?_, hstatus⟩
    · simp [h.nodup.mem_erase_iff]
    · intro c hca
      simp [h.nodup.mem_erase_iff, hca]

/-- A future forgets its link. -/
theorem Represents.take (h : w.Represents ids) (ha : a ∉ ids) :
    (w.take a).Represents ids ∧ (w.take a).status = Function.update w.status a none := by
  have hstatus : (w.take a).status = Function.update w.status a none := by
    funext b
    by_cases hb : b = a
    · subst hb
      simp [status, statusOf, WaitQueue.take]
    · simp [status, statusOf, WaitQueue.take, hb]
  refine ⟨⟨h.nodup, h.head, h.tail, h.linked.congr fun b hb => ?_, fun b u c hb => ?_⟩, hstatus⟩
  · refine Function.update_of_ne ?_ ..
    rintro rfl
    exact ha hb
  · rw [hstatus] at hb
    by_cases hba : b = a
    · subst hba
      rw [Function.update_self] at hb
      cases hb
    · rw [Function.update_of_ne hba] at hb
      exact h.popped b u c hb

end Operations

end WaitQueue

end Rticx.AsyncRt
