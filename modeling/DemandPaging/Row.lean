/-
  Rows of numbered cells: what tables of pages, frames and slots are made of.

  A `Row` is a list whose cells are reached by number in a few steps.  It is kept
  as a tree with the cells at its leaves, from left to right.  Each operation is
  an operation on lists (`get?_eq`, `toList_set`, `toList_push`), seen through
  `Row.toList`.
-/
namespace DemandPaging

/-- A tree of cells.  A fork knows how many cells are on its left. -/
inductive CellTree (α : Type) where
  | empty
  | cell (a : α)
  | fork (leftSize : Nat) (left right : CellTree α)
deriving DecidableEq, Repr

namespace CellTree

variable {α β : Type}

/-- The cells from left to right. -/
def toList : CellTree α → List α
  | empty => []
  | cell a => [a]
  | fork _ left right => left.toList ++ right.toList

/-- Every fork counts the cells on its left right. -/
def Counted : CellTree α → Prop
  | empty => True
  | cell _ => True
  | fork n left right => n = left.toList.length ∧ left.Counted ∧ right.Counted

/-- The number of cells. -/
def size : CellTree α → Nat
  | empty => 0
  | cell _ => 1
  | fork n _ right => n + right.size

/-- Cell `i`. -/
def get? : CellTree α → Nat → Option α
  | empty, _ => none
  | cell a, i => if i = 0 then some a else none
  | fork n left right, i => if i < n then left.get? i else right.get? (i - n)

/-- Replaces cell `i`, if there is one. -/
def set : CellTree α → Nat → α → CellTree α
  | empty, _, _ => empty
  | cell b, i, a => if i = 0 then cell a else cell b
  | fork n left right, i, a =>
    if i < n then fork n (left.set i a) right else fork n left (right.set (i - n) a)

/-- Adds a cell at the right end.  A fork takes it on its right until both sides
    have the same size, so that the tree stays shallow. -/
def push : CellTree α → α → CellTree α
  | empty, a => cell a
  | cell b, a => fork 1 (cell b) (cell a)
  | fork n left right, a =>
    if right.size < n then fork n left (right.push a)
    else fork (n + right.size) (fork n left right) (cell a)

/-- Changes every cell. -/
def map (f : α → β) : CellTree α → CellTree β
  | empty => empty
  | cell a => cell (f a)
  | fork n left right => fork n (left.map f) (right.map f)

/-- The number of cells with property `p`. -/
def countP (p : α → Bool) : CellTree α → Nat
  | empty => 0
  | cell a => if p a then 1 else 0
  | fork _ left right => left.countP p + right.countP p

/-- The number of the first cell with property `p` among those from `start` on. -/
def findFrom? (p : α → Bool) : CellTree α → (start : Nat) → Option Nat
  | empty, _ => none
  | cell a, start => if start = 0 ∧ p a then some 0 else none
  | fork n left right, start =>
    if start < n then
      match left.findFrom? p start with
      | some i => some i
      | none => (right.findFrom? p 0).map (n + ·)
    else (right.findFrom? p (start - n)).map (n + ·)

theorem size_eq {t : CellTree α} (h : t.Counted) : t.size = t.toList.length := by
  induction t with
  | empty => rfl
  | cell a => rfl
  | fork n left right _ ihr => simp [size, toList, ihr h.2.2, h.1]

theorem get?_eq {t : CellTree α} (h : t.Counted) (i : Nat) : t.get? i = t.toList[i]? := by
  induction t generalizing i with
  | empty => rfl
  | cell a => cases i <;> rfl
  | fork n left right ihl ihr =>
    obtain ⟨rfl, hl, hr⟩ := h
    simp only [get?, toList, List.getElem?_append, ihl hl, ihr hr]

theorem toList_set {t : CellTree α} (h : t.Counted) (i : Nat) (a : α) :
    (t.set i a).toList = t.toList.set i a := by
  induction t generalizing i with
  | empty => rfl
  | cell b => cases i <;> rfl
  | fork n left right ihl ihr =>
    obtain ⟨rfl, hl, hr⟩ := h
    simp only [set, toList, List.set_append]
    split <;> simp only [toList, ihl hl, ihr hr]

theorem Counted.set {t : CellTree α} (h : t.Counted) (i : Nat) (a : α) : (t.set i a).Counted := by
  induction t generalizing i with
  | empty => exact h
  | cell b => cases i <;> trivial
  | fork n left right ihl ihr =>
    obtain ⟨rfl, hl, hr⟩ := h
    unfold CellTree.set
    split
    · exact ⟨by rw [toList_set hl, List.length_set], ihl hl i, hr⟩
    · exact ⟨rfl, hl, ihr hr _⟩

theorem toList_push (t : CellTree α) (a : α) : (t.push a).toList = t.toList ++ [a] := by
  induction t with
  | empty => rfl
  | cell b => rfl
  | fork n left right _ ihr =>
    unfold push
    split <;> simp [toList, ihr]

theorem Counted.push {t : CellTree α} (h : t.Counted) (a : α) : (t.push a).Counted := by
  induction t with
  | empty => trivial
  | cell b => exact ⟨rfl, trivial, trivial⟩
  | fork n left right _ ihr =>
    unfold CellTree.push
    split
    · exact ⟨h.1, h.2.1, ihr h.2.2⟩
    · exact ⟨by rw [size_eq h.2.2, h.1, toList, List.length_append], h, trivial⟩

theorem toList_map (f : α → β) (t : CellTree α) : (t.map f).toList = t.toList.map f := by
  induction t with
  | empty => rfl
  | cell a => rfl
  | fork n left right ihl ihr => simp [map, toList, ihl, ihr]

theorem Counted.map {t : CellTree α} (h : t.Counted) (f : α → β) : (t.map f).Counted := by
  induction t with
  | empty => trivial
  | cell a => trivial
  | fork n left right ihl ihr =>
    exact ⟨by rw [toList_map, List.length_map, h.1], ihl h.2.1, ihr h.2.2⟩

/-- The tree without what its cells hold. -/
def shape (t : CellTree α) : CellTree Unit := t.map fun _ => ()

theorem shape_set (t : CellTree α) (i : Nat) (a : α) : (t.set i a).shape = t.shape := by
  unfold shape
  induction t generalizing i with
  | empty => rfl
  | cell b => unfold set; split <;> rfl
  | fork n left right ihl ihr =>
    unfold set
    split
    · simp only [map, ihl]
    · simp only [map, ihr]

theorem shape_map (f : α → β) (t : CellTree α) : (t.map f).shape = t.shape := by
  unfold shape
  induction t with
  | empty => rfl
  | cell a => rfl
  | fork n left right ihl ihr => simp only [map, ihl, ihr]

theorem size_shape (t : CellTree α) : t.shape.size = t.size := by
  unfold shape
  induction t with
  | empty => rfl
  | cell a => rfl
  | fork n left right _ ihr => simp only [map, size, ihr]

/-- The place of a new cell depends on the shape only. -/
theorem shape_push (t : CellTree α) (a : α) : (t.push a).shape = t.shape.push () := by
  induction t with
  | empty => rfl
  | cell b => rfl
  | fork n left right _ ihr =>
    have hshape : (fork n left right).shape = fork n left.shape right.shape := rfl
    rw [hshape]
    unfold push
    rw [size_shape]
    split
    · exact congrArg (fork n left.shape) ihr
    · rfl

theorem length_of_shape {t t' : CellTree α} (h : t.shape = t'.shape) :
    t.toList.length = t'.toList.length := by
  have hlen := congrArg (fun u => u.toList.length) h
  simpa only [shape, toList_map, List.length_map] using hlen

/-- Trees of one shape with the same cells are the same. -/
theorem eq_of_shape {t t' : CellTree α} (hs : t.shape = t'.shape) (hl : t.toList = t'.toList) :
    t = t' := by
  induction t generalizing t' with
  | empty => cases t' <;> first | rfl | cases hs
  | cell a =>
    cases t' with
    | cell b => simp only [toList, List.cons.injEq, and_true] at hl; rw [hl]
    | empty => cases hs
    | fork => cases hs
  | fork n left right ihl ihr =>
    cases t' with
    | fork n' left' right' =>
      simp only [shape, map, fork.injEq] at hs
      obtain ⟨rfl, hsl, hsr⟩ := hs
      obtain ⟨hll, hlr⟩ := List.append_inj hl (length_of_shape hsl)
      rw [ihl hsl hll, ihr hsr hlr]
    | empty => cases hs
    | cell => cases hs

theorem countP_eq (p : α → Bool) (t : CellTree α) : t.countP p = t.toList.countP p := by
  induction t with
  | empty => rfl
  | cell a => simp [countP, toList, List.countP_cons]
  | fork n left right ihl ihr => simp [countP, toList, List.countP_append, ihl, ihr]

theorem findFrom?_eq {t : CellTree α} (h : t.Counted) (p : α → Bool) (start : Nat) :
    t.findFrom? p start = ((t.toList.drop start).findIdx? p).map (start + ·) := by
  induction t generalizing start with
  | empty => simp [findFrom?, toList]
  | cell a =>
    cases start with
    | zero => by_cases h : p a <;> simp [findFrom?, toList, List.findIdx?_cons, h]
    | succ n => simp [findFrom?, toList]
  | fork n left right ihl ihr =>
    obtain ⟨rfl, hl, hr⟩ := h
    simp only [findFrom?, toList, ihl hl, ihr hr, List.drop_append]
    split
    · next hlt =>
      rw [Nat.sub_eq_zero_of_le (Nat.le_of_lt hlt), List.findIdx?_append]
      cases (left.toList.drop start).findIdx? p with
      | some i => rfl
      | none =>
        simp only [List.drop_zero, Option.map_map, Option.none_or, Option.map_none]
        congr 1
        funext i
        simp only [Function.comp_apply, List.length_drop]
        omega
    · next hge =>
      rw [List.drop_eq_nil_of_le (Nat.le_of_not_lt hge), List.nil_append, Option.map_map]
      congr 1
      funext i
      simp only [Function.comp_apply]
      omega

end CellTree

/-- A row of cells, numbered from 0. -/
structure Row (α : Type) where
  tree : CellTree α
  counted : tree.Counted
deriving DecidableEq

namespace Row

variable {α β : Type}

/-- The cells in their order. -/
def toList (row : Row α) : List α := row.tree.toList

instance [Repr α] : Repr (Row α) := ⟨fun row => reprPrec row.toList⟩

/-- The row without cells. -/
def empty : Row α := ⟨.empty, trivial⟩

/-- Adds a cell at the end. -/
def push (row : Row α) (a : α) : Row α := ⟨row.tree.push a, row.counted.push a⟩

/-- A row of the given cells. -/
def ofList (cells : List α) : Row α := cells.foldl push empty

/-- The number of cells. -/
def size (row : Row α) : Nat := row.tree.size

/-- Cell `i`. -/
def get? (row : Row α) (i : Nat) : Option α := row.tree.get? i

/-- Replaces cell `i`, if there is one. -/
def set (row : Row α) (i : Nat) (a : α) : Row α := ⟨row.tree.set i a, row.counted.set i a⟩

/-- Changes every cell. -/
def map (f : α → β) (row : Row α) : Row β := ⟨row.tree.map f, row.counted.map f⟩

/-- The number of cells with property `p`. -/
def countP (p : α → Bool) (row : Row α) : Nat := row.tree.countP p

/-- The number of the first cell with property `p` among those from `start` on. -/
def findFrom? (p : α → Bool) (row : Row α) (start : Nat) : Option Nat :=
  row.tree.findFrom? p start

@[simp] theorem toList_empty : (empty : Row α).toList = [] := rfl

@[simp] theorem toList_push (row : Row α) (a : α) : (row.push a).toList = row.toList ++ [a] :=
  row.tree.toList_push a

@[simp] theorem toList_ofList (cells : List α) : (ofList cells).toList = cells := by
  have grows (row : Row α) : (cells.foldl push row).toList = row.toList ++ cells := by
    induction cells generalizing row with
    | nil => simp
    | cons a rest ih => simp [ih]
  exact grows empty

@[simp] theorem size_eq (row : Row α) : row.size = row.toList.length := CellTree.size_eq row.counted

@[simp] theorem get?_eq (row : Row α) (i : Nat) : row.get? i = row.toList[i]? :=
  CellTree.get?_eq row.counted i

@[simp] theorem toList_set (row : Row α) (i : Nat) (a : α) :
    (row.set i a).toList = row.toList.set i a :=
  CellTree.toList_set row.counted i a

@[simp] theorem toList_map (f : α → β) (row : Row α) : (row.map f).toList = row.toList.map f :=
  row.tree.toList_map f

@[simp] theorem countP_eq (p : α → Bool) (row : Row α) : row.countP p = row.toList.countP p :=
  row.tree.countP_eq p

/-- The row without what its cells hold. -/
def shape (row : Row α) : CellTree Unit := row.tree.shape

@[simp] theorem shape_set (row : Row α) (i : Nat) (a : α) : (row.set i a).shape = row.shape :=
  row.tree.shape_set i a

@[simp] theorem shape_map (f : α → β) (row : Row α) : (row.map f).shape = row.shape :=
  row.tree.shape_map f

/-- Rows made of equally many cells have one shape. -/
theorem shape_ofList {cells : List α} {cells' : List β} (h : cells.length = cells'.length) :
    (ofList cells).shape = (ofList cells').shape := by
  suffices hfold : ∀ {row : Row α} {row' : Row β}, row.shape = row'.shape →
      (cells.foldl push row).shape = (cells'.foldl push row').shape from hfold rfl
  induction cells generalizing cells' with
  | nil =>
    obtain rfl := List.length_eq_zero_iff.1 h.symm
    exact id
  | cons a rest ih =>
    cases cells' with
    | nil => cases h
    | cons a' rest' =>
      intro row row' hs
      refine ih (Nat.succ.inj h) ?_
      calc (row.push a).shape
        _ = row.shape.push () := row.tree.shape_push a
        _ = row'.shape.push () := by rw [hs]
        _ = (row'.push a').shape := (row'.tree.shape_push a').symm

/-- Rows of one shape with the same cells are the same. -/
theorem eq_of_shape {row row' : Row α} (hs : row.shape = row'.shape)
    (hl : row.toList = row'.toList) : row = row' := by
  obtain ⟨t, h⟩ := row
  obtain ⟨t', h'⟩ := row'
  obtain rfl : t = t' := CellTree.eq_of_shape hs hl
  rfl

theorem map_set (f : α → β) (row : Row α) (i : Nat) (a : α) :
    (row.set i a).map f = (row.map f).set i (f a) :=
  eq_of_shape (by simp) (by simp)

theorem map_map {γ : Type} (f : α → β) (g : β → γ) (row : Row α) :
    (row.map f).map g = row.map (g ∘ f) :=
  eq_of_shape (by simp) (by simp)

theorem map_congr {f g : α → β} {row : Row α} (h : ∀ a ∈ row.toList, f a = g a) :
    row.map f = row.map g :=
  eq_of_shape (by simp) (by simpa using h)

theorem map_id (row : Row α) : row.map id = row := eq_of_shape (by simp) (by simp)

theorem map_eq_self {f : α → α} {row : Row α} (h : ∀ a ∈ row.toList, f a = a) : row.map f = row :=
  (map_congr h : row.map f = row.map id).trans row.map_id

/-- A map that changes nothing but one cell sets that cell. -/
theorem map_eq_set {f : α → α} {row : Row α} {i : Nat} {a : α} (hi : row.toList[i]? = some a)
    (h : ∀ {j b}, row.toList[j]? = some b → j ≠ i → f b = b) : row.map f = row.set i (f a) := by
  refine eq_of_shape (by simp) (List.ext_getElem? fun j => ?_)
  rw [toList_map, toList_set, List.getElem?_map]
  by_cases hj : j = i
  · subst hj
    obtain ⟨hlt, -⟩ := List.getElem?_eq_some_iff.1 hi
    rw [hi, List.getElem?_set_self hlt, Option.map_some]
  · rw [List.getElem?_set_ne (Ne.symm hj)]
    cases hb : row.toList[j]? with
    | none => rfl
    | some b => rw [Option.map_some, h hb hj]

theorem findFrom?_eq (p : α → Bool) (row : Row α) (start : Nat) :
    row.findFrom? p start = ((row.toList.drop start).findIdx? p).map (start + ·) :=
  CellTree.findFrom?_eq row.counted p start

end Row

end DemandPaging
