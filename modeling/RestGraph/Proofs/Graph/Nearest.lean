import RestGraph.Proofs.Graph.Blending
import Mathlib.Data.List.Shortlex

/-!
# The nearest branch

The levels of branches, one after the other, hold the branches by depth and, on one level, from left
to right. Where each adds the fields whose names are not there yet, a name goes to the nearest
branch that offers it.
-/

namespace RestGraph.Graph

variable {g h : Graph} {a b c n : Nat} {path path' level all : List Nat}

/-- The positions of children that lead from a composition down to a branch. -/
inductive BranchAt (g : Graph) (c : Nat) : List Nat → Nat → Prop
  | top : BranchAt g c [] c
  | down {path : List Nat} {a b k : Nat} (above : BranchAt g c path a)
      (expands : (g.node a).kind.expands = true) (child : (g.node a).children[k]? = some b) :
      BranchAt g c (path ++ [k]) b

/-- The first branch stands less deep than the second, or as deep and left of it. -/
def Before (g : Graph) (c a b : Nat) : Prop :=
  ∃ path path', g.BranchAt c path a ∧ g.BranchAt c path' b ∧ List.Shortlex (· < ·) path path'

namespace BranchAt

/-- At a path stands the composition itself or a branch of it. -/
theorem eq_or_branch (here : g.BranchAt c path b) : path = [] ∧ b = c ∨ g.Branch c b := by
  induction here with
  | top => exact .inl ⟨rfl, rfl⟩
  | down _ expands child ih =>
    have edge : g.Edge _ _ := ⟨expands, List.mem_of_getElem? child⟩
    refine .inr ?_
    rcases ih with ⟨-, rfl⟩ | branch
    · exact .single edge
    · exact branch.tail edge

theorem of_branch (branch : g.Branch c b) : ∃ path, g.BranchAt c path b := by
  induction branch with
  | single edge =>
    obtain ⟨k, child⟩ := List.mem_iff_getElem?.mp edge.2
    exact ⟨_, .down .top edge.1 child⟩
  | tail _ edge ih =>
    obtain ⟨path, above⟩ := ih
    obtain ⟨k, child⟩ := List.mem_iff_getElem?.mp edge.2
    exact ⟨_, .down above edge.1 child⟩

theorem le (forest : g.Forest) (here : g.BranchAt c path b) : c ≤ b := by
  induction here with
  | top => exact Nat.le_refl c
  | down _ _ child ih => exact ih.trans (forest.below (List.mem_of_getElem? child)).1.le

/-- In a forest no two paths lead to one branch. -/
theorem unique (forest : g.Forest) (first : g.BranchAt c path b) (second : g.BranchAt c path' b) :
    path = path' := by
  have apart : ∀ {path a k}, g.BranchAt c path a → (g.node a).children[k]? ≠ some c :=
    fun above child =>
      absurd (above.le forest) (Nat.not_le.mpr (forest.below (List.mem_of_getElem? child)).1)
  induction first generalizing path' with
  | top =>
    cases second with
    | top => rfl
    | down above _ child => exact absurd child (apart above)
  | @down _ a _ _ above _ child ih =>
    cases second with
    | top => exact absurd child (apart above)
    | down above' _ child' =>
      obtain rfl : a = _ := Option.some.inj ((forest.parent (List.mem_of_getElem? child)).symm.trans
        (forest.parent (List.mem_of_getElem? child')))
      have nodup : (g.node a).children.Nodup := (forest.sorted a).imp Nat.ne_of_lt
      have inside := (List.getElem?_eq_some_iff.mp child).1
      rw [ih above', (List.getElem?_inj inside nodup).mp (child.trans child'.symm)]

end BranchAt

theorem lex_append {p q : List Nat} (lex : List.Lex (· < ·) p q) (long : p.length = q.length)
    (s t : List Nat) : List.Lex (· < ·) (p ++ s) (q ++ t) := by
  induction lex with
  | nil => cases long
  | cons _ ih => exact .cons (ih (Nat.succ.inj long))
  | rel less => exact .rel less

/-- The branches of the level stand at the depth, from left to right. -/
structure Row (g : Graph) (c n : Nat) (level : List Nat) : Prop where
  deep : ∀ b ∈ level, ∃ path, path.length = n ∧ g.BranchAt c path b
  ordered : level.Pairwise (g.Before c)

/-- The next level has the paths that are one longer. -/
theorem Row.next (forest : g.Forest) (row : g.Row c n level) :
    g.Row c (n + 1) (level.flatMap g.branchesOn) := by
  have placed : ∀ {a b path}, g.BranchAt c path a → b ∈ g.branchesOn a →
      ∃ k, g.BranchAt c (path ++ [k]) b := fun above mem => by
    obtain ⟨expands, child⟩ := edge_of_mem_branchesOn mem
    obtain ⟨k, child⟩ := List.mem_iff_getElem?.mp child
    exact ⟨k, .down above expands child⟩
  refine ⟨fun b mem => ?_, List.pairwise_flatMap.mpr ⟨fun a mem => ?_, ?_⟩⟩
  · obtain ⟨a, mem, below⟩ := List.mem_flatMap.mp mem
    obtain ⟨path, rfl, above⟩ := row.deep a mem
    obtain ⟨k, here⟩ := placed above below
    exact ⟨_, List.length_append, here⟩
  · obtain ⟨path, -, above⟩ := row.deep a mem
    rw [branchesOn]
    split
    · next expands =>
      refine List.Pairwise.filter _ (List.pairwise_iff_getElem.mpr fun i j _ _ less => ?_)
      refine ⟨_, _, .down above expands (List.getElem?_eq_getElem _),
        .down above expands (List.getElem?_eq_getElem _), .append_left ?_ path⟩
      exact (List.shortlex_singleton_iff i j).mpr less
    · exact .nil
  · refine row.ordered.imp_of_mem fun {a b} ha hb before x hx y hy => ?_
    obtain ⟨path, path', above, above', less⟩ := before
    obtain ⟨p, long, same⟩ := row.deep a ha
    obtain ⟨q, long', same'⟩ := row.deep b hb
    obtain rfl := above.unique forest same
    obtain rfl := above'.unique forest same'
    obtain ⟨k, here⟩ := placed above hx
    obtain ⟨l, there⟩ := placed above' hy
    have level := long.trans long'.symm
    refine ⟨_, _, here, there,
      .of_lex ?_ (lex_append ((List.shortlex_iff_lex level).mp less) level _ _)⟩
    rw [List.length_append, List.length_append, level]
    rfl

/-- All branches from a level on stand at its depth or below, and the nearer ones come first. -/
theorem Walks.ordered (forest : g.Forest) (walks : g.Walks level all) (row : g.Row c n level) :
    (∀ b ∈ all, ∃ path, n ≤ path.length ∧ g.BranchAt c path b) ∧ all.Pairwise (g.Before c) := by
  induction walks generalizing n with
  | done => exact ⟨fun b none => absurd none List.not_mem_nil, .nil⟩
  | level _ ih =>
    obtain ⟨lower, ordered⟩ := ih (row.next forest)
    refine ⟨fun b mem => ?_, List.pairwise_append.mpr ⟨row.ordered, ordered, fun a ha b hb => ?_⟩⟩
    · rcases List.mem_append.mp mem with mem | mem
      · obtain ⟨path, rfl, here⟩ := row.deep b mem
        exact ⟨path, Nat.le_refl _, here⟩
      · obtain ⟨path, deep, here⟩ := lower b mem
        exact ⟨path, (Nat.le_succ n).trans deep, here⟩
    · obtain ⟨path, rfl, here⟩ := row.deep a ha
      obtain ⟨path', deep, there⟩ := lower b hb
      exact ⟨path, path', here, there, .of_length_lt deep⟩

/-- Merging starts with the branches right below the composition, from left to right. -/
theorem Row.start (expands : (g.node c).kind.expands = true) :
    g.Row c 1 (Build.branchesBelow g c) where
  deep b mem := by
    obtain ⟨k, child⟩ := List.mem_iff_getElem?.mp (List.mem_filter.mp mem).1
    exact ⟨[k], rfl, .down .top expands child⟩
  ordered := by
    refine List.Pairwise.filter _ (List.pairwise_iff_getElem.mpr fun i j _ _ less => ?_)
    exact ⟨[i], [j], .down .top expands (List.getElem?_eq_getElem _),
      .down .top expands (List.getElem?_eq_getElem _), (List.shortlex_singleton_iff i j).mpr less⟩

end RestGraph.Graph
