import Mathlib.Data.List.Basic
import Mathlib.Data.List.Perm.Basic
import Mathlib.Data.List.Sort
import Mathlib.Logic.Function.Basic

/-! Merging queues by their least front. `Merges` says what such a merge may emit,
for any family of queues; its rules give stability, order, invariance under maps
and, where ties stay within one queue, uniqueness. -/
namespace KWayMerge

variable {ι α β : Type*}

/-- A strict weak order: not being less is transitive. -/
structure WeakOrder (less : α → α → Prop) : Prop where
  asymm : ∀ a b, less a b → ¬ less b a
  notLess : ∀ a b c, ¬ less b a → ¬ less c b → ¬ less c a

/-- No element is less than one in front of it. -/
def Ordered (less : α → α → Prop) (l : List α) : Prop := l.Pairwise (fun a b => ¬ less b a)

/-- Elements that are not ordered either way carry the same tag. -/
def TiesWithin (less : α → α → Prop) (tag : α → ι) : Prop :=
  ∀ a b, ¬ less a b → ¬ less b a → tag a = tag b

/-- Every queue holds elements of its own tag. -/
def Tagged (tag : α → ι) (queues : ι → List α) : Prop := ∀ i, ∀ x ∈ queues i, tag x = i

variable [DecidableEq ι]

/-- What popping a least front until all queues are empty may emit. -/
inductive Merges (less : α → α → Prop) : (ι → List α) → List α → Prop
  | done {queues : ι → List α} (empty : ∀ i, queues i = []) : Merges less queues []
  | pop {queues : ι → List α} {out : List α} (i : ι) (x : α) (rest : List α)
      (front : queues i = x :: rest)
      (least : ∀ j y later, queues j = y :: later → ¬ less y x)
      (more : Merges less (Function.update queues i rest) out) : Merges less queues (x :: out)

variable {less : α → α → Prop} {queues : ι → List α} {out : List α} {tag : α → ι}

theorem WeakOrder.irrefl (order : WeakOrder less) (a : α) : ¬ less a a :=
  fun own => order.asymm a a own own

theorem Tagged.update (tagged : Tagged tag queues) {i : ι} {rest : List α}
    (shrunk : ∀ x ∈ rest, x ∈ queues i) : Tagged tag (Function.update queues i rest) := by
  intro j x member
  by_cases same : j = i
  · subst same
    rw [Function.update_self] at member
    exact tagged j x (shrunk x member)
  · rw [Function.update_of_ne same] at member
    exact tagged j x member

theorem Tagged.tail (tagged : Tagged tag queues) {i : ι} {x : α} {rest : List α}
    (front : queues i = x :: rest) : Tagged tag (Function.update queues i rest) :=
  tagged.update (fun y member => by rw [front]; exact List.mem_cons_of_mem x member)

theorem Merges.mem (merged : Merges less queues out) {x : α} (member : x ∈ out) :
    ∃ i, x ∈ queues i := by
  induction merged with
  | done empty => cases member
  | @pop queues out i y rest front least more ih =>
    rcases List.mem_cons.mp member with rfl | later
    · exact ⟨i, by rw [front]; exact List.mem_cons_self⟩
    · obtain ⟨j, held⟩ := ih later
      by_cases same : j = i
      · subst same
        rw [Function.update_self] at held
        exact ⟨j, by rw [front]; exact List.mem_cons_of_mem y held⟩
      · rw [Function.update_of_ne same] at held
        exact ⟨j, held⟩

/-- Stability: the elements of one queue come out as they stood in it. -/
theorem Merges.filter_eq (merged : Merges less queues out) (tagged : Tagged tag queues) (i : ι) :
    out.filter (fun x => decide (tag x = i)) = queues i := by
  induction merged with
  | done empty => rw [empty i]; rfl
  | @pop queues out j x rest front least more ih =>
    have tail := ih (tagged.tail front)
    have own : tag x = j := tagged j x (by rw [front]; exact List.mem_cons_self)
    by_cases same : i = j
    · subst same
      rw [Function.update_self] at tail
      rw [List.filter_cons_of_pos (by simpa using own), tail, front]
    · have other : ¬ tag x = i := fun claimed => same (claimed.symm.trans own)
      rw [Function.update_of_ne same] at tail
      rw [List.filter_cons_of_neg (by simpa using other), tail]

/-- Lists with the same elements of every tag, in order, are permutations. -/
theorem perm_of_filter_eq {l l' : List α}
    (same : ∀ i, l.filter (fun x => decide (tag x = i)) = l'.filter (fun x => decide (tag x = i))) :
    l.Perm l' := by
  classical
  rw [List.perm_iff_count]
  intro a
  have counted : ∀ part : List α,
      (part.filter (fun x => decide (tag x = tag a))).count a = part.count a :=
    fun part => List.count_filter (by simp)
  rw [← counted l, ← counted l', same (tag a)]

/-- If every queue is ordered, so is the merge. -/
theorem Merges.ordered (merged : Merges less queues out) (order : WeakOrder less)
    (sorted : ∀ i, Ordered less (queues i)) : Ordered less out := by
  induction merged with
  | done empty => exact List.Pairwise.nil
  | @pop queues out i x rest front least more ih =>
    have tails : ∀ j, Ordered less (Function.update queues i rest j) := by
      intro j
      by_cases same : j = i
      · subst same
        have whole := sorted j
        rw [front] at whole
        rw [Function.update_self]
        exact (List.pairwise_cons.mp whole).2
      · rw [Function.update_of_ne same]
        exact sorted j
    refine List.pairwise_cons.mpr ⟨?_, ih tails⟩
    intro y member
    obtain ⟨j, held⟩ := (Merges.pop i x rest front least more).mem (List.mem_cons_of_mem x member)
    cases queue : queues j with
    | nil => rw [queue] at held; cases held
    | cons head later =>
      have bound := least j head later queue
      have whole := sorted j
      rw [queue] at held whole
      rcases List.mem_cons.mp held with rfl | behind
      · exact bound
      · exact order.notLess x head y bound ((List.pairwise_cons.mp whole).1 y behind)

/-- An ordered list is a merge of its own parts. -/
theorem merges_of_ordered (order : WeakOrder less) {l : List α} (sorted : Ordered less l) :
    Merges less (fun i => l.filter (fun x => decide (tag x = i))) l := by
  induction l with
  | nil => exact Merges.done (fun _ => rfl)
  | cons a rest ih =>
    obtain ⟨first, tail⟩ := List.pairwise_cons.mp sorted
    refine Merges.pop (tag a) a (rest.filter (fun x => decide (tag x = tag a))) (by simp) ?_ ?_
    · intro j y later queue
      have member : y ∈ (a :: rest).filter (fun x => decide (tag x = j)) := by
        rw [queue]
        exact List.mem_cons_self
      rcases List.mem_cons.mp (List.mem_of_mem_filter member) with rfl | behind
      · exact order.irrefl y
      · exact first y behind
    · have parts : Function.update (fun i => (a :: rest).filter (fun x => decide (tag x = i))) (tag a)
          (rest.filter (fun x => decide (tag x = tag a))) =
          fun i => rest.filter (fun x => decide (tag x = i)) := by
        funext i
        by_cases same : i = tag a
        · subst same
          rw [Function.update_self]
        · have other : ¬ tag a = i := fun equal => same equal.symm
          rw [Function.update_of_ne same, List.filter_cons_of_neg (by simpa using other)]
      rw [parts]
      exact ih tail

/-- Where ties stay within one queue, the merge is determined by the queues. -/
theorem Merges.unique {out' : List α} (merged : Merges less queues out)
    (again : Merges less queues out') (tagged : Tagged tag queues) (ties : TiesWithin less tag) :
    out = out' := by
  induction merged generalizing out' with
  | done empty =>
    cases again with
    | done => rfl
    | pop j y later front => rw [empty j] at front; cases front
  | @pop queues out i x rest front least more ih =>
    cases again with
    | done empty => rw [empty i] at front; cases front
    | pop j y later front' least' more' =>
      have own : tag x = i := tagged i x (by rw [front]; exact List.mem_cons_self)
      have own' : tag y = j := tagged j y (by rw [front']; exact List.mem_cons_self)
      have same : i = j := by
        rw [← own, ← own']
        exact ties x y (least' i x rest front) (least j y later front')
      subst same
      rw [front] at front'
      cases front'
      rw [ih more' (tagged.tail front)]

/-- A map that keeps the order carries a merge of the queues to a merge of their images. -/
theorem Merges.map {less' : β → β → Prop} {f : α → β}
    (kept : ∀ a b, less' (f a) (f b) ↔ less a b) (merged : Merges less queues out) :
    Merges less' (fun i => (queues i).map f) (out.map f) := by
  induction merged with
  | done empty => exact Merges.done (fun i => by rw [empty i]; rfl)
  | @pop queues out i x rest front least more ih =>
    refine Merges.pop i (f x) (rest.map f) (by rw [front]; rfl) ?_ ?_
    · intro j y later queue
      cases held : queues j with
      | nil => rw [held] at queue; cases queue
      | cons z zs =>
        rw [held, List.map_cons] at queue
        cases queue
        rw [kept]
        exact least j z zs held
    · have images : Function.update (fun i => (queues i).map f) i (rest.map f) =
          fun j => (Function.update queues i rest j).map f := by
        funext j
        by_cases same : j = i
        · subst same
          rw [Function.update_self, Function.update_self]
        · rw [Function.update_of_ne same, Function.update_of_ne same]
      rw [images]
      exact ih

end KWayMerge

/-- Sorting without a promise on ties: the result is an ordered permutation of the input,
and nothing is said about the order of elements that compare neither way. -/
structure UnstableSort {α : Type*} (less : α → α → Prop) where
  sort : List α → List α
  perm : ∀ l, (sort l).Perm l
  ordered : ∀ l, KWayMerge.Ordered less (sort l)

namespace UnstableSort

variable {α : Type*} {less : α → α → Prop}

/-- Insertion sort is one such sort for every strict weak order. -/
def insertion [DecidableRel less] (order : KWayMerge.WeakOrder less) : UnstableSort less where
  sort := List.insertionSort (fun a b => ¬ less b a)
  perm := List.perm_insertionSort _
  ordered := fun l => by
    have total : Std.Total (fun a b => ¬ less b a) :=
      ⟨fun a b => not_or_of_imp (order.asymm b a)⟩
    have transitive : IsTrans α (fun a b => ¬ less b a) := ⟨order.notLess⟩
    exact List.pairwise_insertionSort (fun a b => ¬ less b a) l

end UnstableSort
