import LiveTiming.Timeline.Heap
import Mathlib.Data.List.Perm.Basic

namespace LiveTiming.Heap

variable {α : Type} {le : α → α → Bool}

/-- A root with a heap merged into its right branch keeps all its elements. -/
theorem mergeRoot_perm (a : α) (l r : Heap α) {mergeRight : Heap α → Heap α}
    (right : ∀ h, (mergeRight h).toList.Perm (r.toList ++ h.toList)) (h : Heap α) :
    (mergeRoot le a l r mergeRight h).toList.Perm ((node a l r).toList ++ h.toList) := by
  induction h with
  | nil => simp [mergeRoot, toList]
  | node b l' r' _ ih =>
    simp only [mergeRoot]
    split
    · simp only [toList, List.cons_append, List.append_assoc]
      refine .cons a ?_
      exact ((right (node b l' r')).append_right _).trans List.perm_append_comm
    · have moved : (b :: ((mergeRoot le a l r mergeRight r').toList ++ l'.toList)).Perm
          (b :: ((node a l r).toList ++ r'.toList ++ l'.toList)) := (ih.append_right _).cons b
      refine moved.trans ?_
      have swapped : (b :: ((node a l r).toList ++ (r'.toList ++ l'.toList))).Perm
          ((node a l r).toList ++ (b :: (r'.toList ++ l'.toList))) := List.perm_middle.symm
      rw [List.append_assoc]
      exact swapped.trans ((List.perm_append_comm.cons b).append_left _)

/-- Two heaps are merged without losing or repeating an element. -/
theorem merge_perm (g h : Heap α) : (merge le g h).toList.Perm (g.toList ++ h.toList) := by
  induction g generalizing h with
  | nil => simp [merge, toList]
  | node a l r _ right => exact mergeRoot_perm a l r right h

theorem push_perm (h : Heap α) (a : α) : (h.push le a).toList.Perm (a :: h.toList) :=
  (merge_perm h (node a nil nil)).trans List.perm_append_comm

/-- Only the top is removed. -/
theorem pop_perm {h : Heap α} {a : α} (top : h.peek? = some a) :
    h.toList.Perm (a :: (h.pop le).toList) := by
  cases h with
  | nil => simp [peek?] at top
  | node b l r =>
    cases Option.some.inj top
    exact (merge_perm l r).symm.cons a

/-- No member comes before one above it. -/
def Ordered (le : α → α → Bool) : Heap α → Prop
  | nil => True
  | node a l r => (∀ b ∈ l.toList ++ r.toList, le a b) ∧ l.Ordered le ∧ r.Ordered le

section
variable (total : ∀ a b, le a b = true ∨ le b a = true)
  (trans : ∀ a b c, le a b = true → le b c = true → le a c = true)

include total in
/-- The root comes before all that is below it. -/
theorem Ordered.root_le {a b : α} {l r : Heap α} (ordered : (node a l r).Ordered le)
    (member : b ∈ (node a l r).toList) : le a b := by
  rcases List.mem_cons.mp member with same | below
  · subst same
    exact (total b b).elim id id
  · exact ordered.1 b below

include total trans in
/-- The order survives at a root if it survives in the branch that is merged. -/
theorem mergeRoot_ordered {a : α} {l r h : Heap α} {mergeRight : Heap α → Heap α}
    (members : ∀ h, (mergeRight h).toList.Perm (r.toList ++ h.toList))
    (right : ∀ h, h.Ordered le → (mergeRight h).Ordered le)
    (orderedRoot : (node a l r).Ordered le) (ordered : h.Ordered le) :
    (mergeRoot le a l r mergeRight h).Ordered le := by
  induction h with
  | nil => exact orderedRoot
  | node b l' r' _ ih =>
    simp only [mergeRoot]
    split
    · rename_i first
      refine ⟨?_, right _ ordered, orderedRoot.2.1⟩
      intro c member
      rcases List.mem_append.mp member with joined | left
      · rcases List.mem_append.mp ((members _).mem_iff.mp joined) with old | new
        · exact orderedRoot.1 c (List.mem_append_right _ old)
        · exact trans a b c first (ordered.root_le total new)
      · exact orderedRoot.1 c (List.mem_append_left _ left)
    · rename_i later
      have first : le b a := (total a b).resolve_left later
      refine ⟨?_, ih ordered.2.2, ordered.2.1⟩
      intro c member
      rcases List.mem_append.mp member with joined | left
      · rcases List.mem_append.mp ((mergeRoot_perm a l r members r').mem_iff.mp joined) with old | new
        · exact trans b a c first (orderedRoot.root_le total old)
        · exact ordered.1 c (List.mem_append_right _ new)
      · exact ordered.1 c (List.mem_append_left _ left)

include total trans in
/-- Merged heaps are in order if both were. -/
theorem merge_ordered {g h : Heap α} (left : g.Ordered le) (right : h.Ordered le) :
    (merge le g h).Ordered le := by
  induction g generalizing h with
  | nil => exact right
  | node a l r _ ih =>
    exact mergeRoot_ordered total trans (merge_perm r) (fun _ => ih left.2.2) left right

include total trans in
theorem push_ordered {h : Heap α} (ordered : h.Ordered le) (a : α) : (h.push le a).Ordered le :=
  merge_ordered total trans ordered ⟨by simp [toList], trivial, trivial⟩

include total trans in
theorem pop_ordered {h : Heap α} (ordered : h.Ordered le) : (h.pop le).Ordered le := by
  cases h with
  | nil => exact ordered
  | node a l r => exact merge_ordered total trans ordered.2.1 ordered.2.2

include total in
/-- The top comes before every element. -/
theorem peek_least {h : Heap α} {a b : α} (ordered : h.Ordered le) (top : h.peek? = some a)
    (member : b ∈ h.toList) : le a b := by
  cases h with
  | nil => simp [peek?] at top
  | node c l r =>
    cases Option.some.inj top
    exact ordered.root_le total member

end

theorem peek_mem {h : Heap α} {a : α} (top : h.peek? = some a) : a ∈ h.toList := by
  cases h with
  | nil => simp [peek?] at top
  | node c l r =>
    cases Option.some.inj top
    exact List.mem_cons_self ..

/-- There is no top if and only if the heap is empty. -/
theorem peek_none_iff {h : Heap α} : h.peek? = none ↔ h.toList = [] := by
  cases h <;> simp [peek?, toList]

end LiveTiming.Heap
