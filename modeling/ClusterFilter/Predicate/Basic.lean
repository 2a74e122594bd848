import ClusterFilter.Condition

/-!
# ClusterFilter — predicates

A predicate is a tree of conditions under conjunctions and disjunctions. The combiners `and` and
`or` keep such trees flat: a conjunction never gets a conjunction as its child through them, and a
disjunction no disjunction.

Main results:
- `and_assoc`, `or_assoc`: the combiners are associative as operations on trees.
- `size_and`, `size_or`: a combination has the conditions of both sides.
-/

namespace ClusterFilter

/-- A boolean filter over the fields of one resource. -/
inductive Predicate where
  | leaf (condition : Condition)
  /-- All children hold. -/
  | allOf (children : List Predicate)
  /-- Some child holds. -/
  | anyOf (children : List Predicate)

namespace Predicate

-- ---------------------------------------------------------------------------
-- Equality
-- ---------------------------------------------------------------------------

mutual

/-- Structural equality of predicates is decidable. -/
def decEq : (p q : Predicate) → Decidable (p = q)
  | leaf a, leaf b =>
    if h : a = b then isTrue (by rw [h]) else isFalse fun e => h (by injection e)
  | allOf ps, allOf qs =>
    match decEqAll ps qs with
    | isTrue h => isTrue (by rw [h])
    | isFalse h => isFalse fun e => h (by injection e)
  | anyOf ps, anyOf qs =>
    match decEqAll ps qs with
    | isTrue h => isTrue (by rw [h])
    | isFalse h => isFalse fun e => h (by injection e)
  | leaf _, allOf _ => isFalse nofun
  | leaf _, anyOf _ => isFalse nofun
  | allOf _, leaf _ => isFalse nofun
  | allOf _, anyOf _ => isFalse nofun
  | anyOf _, leaf _ => isFalse nofun
  | anyOf _, allOf _ => isFalse nofun

/-- Structural equality of lists of predicates is decidable. -/
def decEqAll : (ps qs : List Predicate) → Decidable (ps = qs)
  | [], [] => isTrue rfl
  | [], _ :: _ => isFalse nofun
  | _ :: _, [] => isFalse nofun
  | p :: ps, q :: qs =>
    match decEq p q, decEqAll ps qs with
    | isTrue h, isTrue h' => isTrue (by rw [h, h'])
    | isFalse h, _ => isFalse fun e => h (by injection e)
    | _, isFalse h => isFalse fun e => h (by injection e)

end

instance : DecidableEq Predicate := decEq

-- ---------------------------------------------------------------------------
-- Combiners
-- ---------------------------------------------------------------------------

/-- The members of a predicate read as a conjunction. -/
def conjuncts : Predicate → List Predicate
  | allOf children => children
  | p => [p]

/-- The members of a predicate read as a disjunction. -/
def disjuncts : Predicate → List Predicate
  | anyOf children => children
  | p => [p]

/-- Conjunction; conjunctions on either side are merged into it. -/
def and (p q : Predicate) : Predicate :=
  allOf (p.conjuncts ++ q.conjuncts)

/-- Disjunction; disjunctions on either side are merged into it. -/
def or (p q : Predicate) : Predicate :=
  anyOf (p.disjuncts ++ q.disjuncts)

instance : AndOp Predicate := ⟨and⟩

instance : OrOp Predicate := ⟨or⟩

theorem and_assoc (p q r : Predicate) : (p.and q).and r = p.and (q.and r) := by
  simp [and, conjuncts]

theorem or_assoc (p q r : Predicate) : (p.or q).or r = p.or (q.or r) := by
  simp [or, disjuncts]

-- ---------------------------------------------------------------------------
-- Size
-- ---------------------------------------------------------------------------

mutual

/-- The number of conditions in the tree. -/
def size : Predicate → Nat
  | leaf _ => 1
  | allOf children => sizeAll children
  | anyOf children => sizeAll children

/-- The number of conditions in a list of trees. -/
def sizeAll : List Predicate → Nat
  | [] => 0
  | p :: ps => p.size + sizeAll ps

end

/-- Whether the tree holds no condition. -/
def isEmpty (p : Predicate) : Bool :=
  p.size == 0

theorem sizeAll_append (ps qs : List Predicate) :
    sizeAll (ps ++ qs) = sizeAll ps + sizeAll qs := by
  induction ps with
  | nil => simp [sizeAll]
  | cons p ps ih => simp [sizeAll, ih, Nat.add_assoc]

theorem sizeAll_conjuncts (p : Predicate) : sizeAll p.conjuncts = p.size := by
  cases p <;> simp [conjuncts, sizeAll, size]

theorem sizeAll_disjuncts (p : Predicate) : sizeAll p.disjuncts = p.size := by
  cases p <;> simp [disjuncts, sizeAll, size]

theorem size_and (p q : Predicate) : (p.and q).size = p.size + q.size := by
  simp [and, size, sizeAll_append, sizeAll_conjuncts]

theorem size_or (p q : Predicate) : (p.or q).size = p.size + q.size := by
  simp [or, size, sizeAll_append, sizeAll_disjuncts]

-- ---------------------------------------------------------------------------
-- Text
-- ---------------------------------------------------------------------------

mutual

/-- The predicate as an expression: a disjunction inside a conjunction stands in parentheses. -/
def chars : Predicate → List Char
  | leaf c => c.chars
  | allOf children => conjunctionChars children
  | anyOf children => disjunctionChars children

/-- The members of a conjunction with `and` between them. -/
def conjunctionChars : List Predicate → List Char
  | [] => []
  | [p] => p.memberChars
  | p :: ps => p.memberChars ++ " and ".toList ++ conjunctionChars ps

/-- The members of a disjunction with `or` between them. -/
def disjunctionChars : List Predicate → List Char
  | [] => []
  | [p] => p.chars
  | p :: ps => p.chars ++ " or ".toList ++ disjunctionChars ps

/-- A member of a conjunction. -/
def memberChars : Predicate → List Char
  | leaf c => c.chars
  | allOf children => conjunctionChars children
  | anyOf children => '(' :: disjunctionChars children ++ [')']

end

/-- The text of a predicate. -/
def text (p : Predicate) : String :=
  String.ofList p.chars

end Predicate

end ClusterFilter
