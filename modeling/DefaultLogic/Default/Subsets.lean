import DefaultLogic.Default.Selection

/-!
# Subsets by size

The sublists of a given size come in lexicographic order of positions, and all sublists by
increasing size; sets of numbers are met by stepping from one selection to the next, in words.
`visitBySize` meets the sublists in this order without listing them, and stops when the visitor is
done.
-/

namespace DefaultLogic

/-- What a visitor has gathered, and whether it wants more. -/
inductive Progress (σ : Type) where
  | more (state : σ)
  | done (state : σ)
  deriving DecidableEq

namespace Progress

variable {σ : Type}

def state : Progress σ → σ
  | .more s | .done s => s

def isDone : Progress σ → Bool
  | .more _ => false
  | .done _ => true

end Progress

namespace Subsets

variable {α σ : Type}

def ofSize : Nat → List α → List (List α)
  | 0, _ => [[]]
  | _ + 1, [] => []
  | k + 1, x :: xs =>
    if xs.length < k then [] else (ofSize k xs).map (x :: ·) ++ ofSize (k + 1) xs

def bySize (xs : List α) : List (List α) :=
  (List.range (xs.length + 1)).flatMap fun k => ofSize k xs

/-- A vector has less than half as many bytes as there are words, and a number has eight of them, so
this many numbers are no vector. -/
def vectorLimit : Nat := UInt64.size / 16

/-- The sets of `k` numbers below `n`, unless the program panics: the first set is a vector. -/
def below? (o : Overflow) (n k : UInt64) : Option (List (List Nat)) :=
  if h : k ≤ n then
    if k.toNat < vectorLimit then
      ((Selection.first k h).onward? o).map fun ss => ss.map Selection.numbers
    else none
  else some []

def allBelow? (o : Overflow) (n : UInt64) : Option (List (List Nat)) :=
  List.flatten <$> (List.range (n.toNat + 1)).mapM fun k => below? o n (.ofNat k)

def visitList {m : Type → Type} [Monad m] (visit : α → σ → m (Progress σ)) :
    List α → σ → m (Progress σ)
  | [], s => pure (.more s)
  | x :: xs, s => do
    match ← visit x s with
    | .done s => pure (.done s)
    | .more s => visitList visit xs s

section

variable {m : Type → Type} [Monad m] (visit : List α → σ → m (Progress σ))

/-- Visits the sublists with `k` elements, each after the elements already chosen. -/
def visitOfSize : Nat → List α → List α → σ → m (Progress σ)
  | 0, _, chosen, s => visit chosen s
  | _ + 1, [], _, s => pure (.more s)
  | k + 1, x :: xs, chosen, s =>
    if xs.length < k then pure (.more s)
    else do
      match ← visitOfSize k xs (chosen ++ [x]) s with
      | .done s => pure (.done s)
      | .more s => visitOfSize (k + 1) xs chosen s

def visitBySize (xs : List α) : σ → m (Progress σ) :=
  visitList (fun k => visitOfSize visit k xs []) (List.range (xs.length + 1))

end

variable {m : Type → Type} [Monad m] [LawfulMonad m]

theorem visitList_append (visit : α → σ → m (Progress σ)) (xs ys : List α) (s : σ) :
    visitList visit (xs ++ ys) s = (do
      match ← visitList visit xs s with
      | .done s => pure (.done s)
      | .more s => visitList visit ys s) := by
  induction xs generalizing s with
  | nil => simp [visitList]
  | cons x xs ih =>
    simp only [List.cons_append, visitList, bind_assoc]
    refine bind_congr fun r => ?_
    cases r <;> simp [ih]

theorem visitList_singleton (visit : α → σ → m (Progress σ)) (x : α) (s : σ) :
    visitList visit [x] s = visit x s := by
  conv => rhs; rw [← bind_pure (visit x s)]
  refine bind_congr fun r => ?_
  cases r <;> rfl

variable (visit : List α → σ → m (Progress σ))

theorem visitOfSize_eq (k : Nat) (xs chosen : List α) (s : σ) :
    visitOfSize visit k xs chosen s = visitList visit ((ofSize k xs).map (chosen ++ ·)) s := by
  induction xs generalizing k chosen s with
  | nil => cases k <;> simp [visitOfSize, ofSize, visitList_singleton, visitList]
  | cons x xs ih =>
    cases k with
    | zero => simp [visitOfSize, ofSize, visitList_singleton]
    | succ k =>
      simp only [visitOfSize, ofSize]
      split
      · simp [visitList]
      · rw [List.map_append, visitList_append, List.map_map, ih]
        simp only [Function.comp_def, List.append_assoc, List.cons_append, List.nil_append]
        refine bind_congr fun r => ?_
        cases r <;> simp [ih]

/-- The lazy visit meets exactly the listed subsets, in order. -/
theorem visitBySize_eq (xs : List α) (s : σ) :
    visitBySize visit xs s = visitList visit (bySize xs) s := by
  unfold visitBySize bySize
  generalize List.range (xs.length + 1) = ks
  induction ks generalizing s with
  | nil => rfl
  | cons k ks ih =>
    rw [List.flatMap_cons, visitList_append, visitList, visitOfSize_eq]
    simp only [List.nil_append, List.map_id_fun', id_eq]
    refine bind_congr fun r => ?_
    cases r <;> simp [ih]

end Subsets

end DefaultLogic
