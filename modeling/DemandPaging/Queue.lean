/-
  Queues: what is added at the back leaves at the front.

  A `Queue` is a list kept in two halves, so that adding and removing take a few
  steps.  Each operation is an operation on lists (`toList_push`, `pop?_eq`), seen
  through `Queue.toList`.
-/
namespace DemandPaging

/-- A queue: the first of it in order, and the rest from the back on. -/
structure Queue (α : Type) where
  front : List α := []
  back : List α := []
deriving DecidableEq, Repr

namespace Queue

variable {α : Type}

/-- The queue in order. -/
def toList (queue : Queue α) : List α := queue.front ++ queue.back.reverse

/-- A queue of the given items. -/
def ofList (items : List α) : Queue α := ⟨items, []⟩

/-- The number of items. -/
def size (queue : Queue α) : Nat := queue.front.length + queue.back.length

/-- Adds an item at the back. -/
def push (queue : Queue α) (a : α) : Queue α := { queue with back := a :: queue.back }

/-- Takes the item at the front. -/
def pop? : Queue α → Option (α × Queue α)
  | ⟨a :: front, back⟩ => some (a, ⟨front, back⟩)
  | ⟨[], back⟩ =>
    match back.reverse with
    | [] => none
    | a :: front => some (a, ⟨front, []⟩)

@[simp] theorem toList_ofList (items : List α) : (ofList items).toList = items := by
  simp [ofList, toList]

@[simp] theorem size_eq (queue : Queue α) : queue.size = queue.toList.length := by
  simp [size, toList]

@[simp] theorem toList_push (queue : Queue α) (a : α) :
    (queue.push a).toList = queue.toList ++ [a] := by
  simp [push, toList]

/-- The item at the front is the first, and the others stay in order. -/
theorem pop?_eq (queue : Queue α) :
    queue.pop?.map (fun (a, rest) => (a, rest.toList)) =
      queue.toList.head?.map fun a => (a, queue.toList.tail) := by
  obtain ⟨front, back⟩ := queue
  cases front with
  | cons a front => rfl
  | nil =>
    cases h : back.reverse <;> simp [pop?, toList, h]

theorem toList_of_pop? {queue rest : Queue α} {a : α} (h : queue.pop? = some (a, rest)) :
    queue.toList = a :: rest.toList := by
  have both := pop?_eq queue
  rw [h] at both
  cases items : queue.toList with
  | nil => simp [items] at both
  | cons b others => simp [items] at both; rw [both.1, both.2]

end Queue

end DemandPaging
