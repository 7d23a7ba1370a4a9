import RestGraph.Text.NameOrder
import Mathlib.Order.Compare

/-!
# Sorted names

The order of names is total, and no two names are equal in it. So what is sorted by names that are
pairwise different is strictly increasing.
-/

namespace RestGraph.Text

variable {α : Type} {name : α → String} {x y : α} {xs : List α}

instance : Std.TransCmp compareNames :=
  inferInstanceAs (Std.TransCmp (compareLex (compareOn fun a => (lowercase a).toList)
    (compareOn String.toList)))

theorem eq_of_compareNames {a b : String} (same : compareNames a b = .eq) : a = b :=
  String.toList_injective (Std.LawfulEqOrd.eq_of_compare (Ordering.then_eq_eq.mp same).2)

theorem insertByName_sorted (sorted : xs.Pairwise fun x y =>
    (compareNames (name x) (name y)).isLE) :
    (insertByName name x xs).Pairwise fun x y => (compareNames (name x) (name y)).isLE := by
  induction xs with
  | nil => exact List.pairwise_singleton _ x
  | cons y ys ih =>
    obtain ⟨least, rest⟩ := List.pairwise_cons.mp sorted
    rw [insertByName]
    split
    · next le =>
      refine List.pairwise_cons.mpr ⟨fun z mem => ?_, sorted⟩
      rcases List.mem_cons.mp mem with rfl | mem
      · exact le
      · exact Std.TransCmp.isLE_trans le (least z mem)
    · next lt =>
      refine List.pairwise_cons.mpr ⟨fun z mem => ?_, ih rest⟩
      rcases List.mem_cons.mp ((insertByName_perm name x ys).mem_iff.mp mem) with rfl | mem
      · have gt : compareNames (name z) (name y) = .gt := by simpa using lt
        rw [Std.OrientedCmp.lt_of_gt gt]
        rfl
      · exact least z mem

/-- What is sorted is in order. -/
theorem sortByName_sorted :
    (sortByName name xs).Pairwise fun x y => (compareNames (name x) (name y)).isLE := by
  induction xs with
  | nil => exact .nil
  | cons x xs ih => exact insertByName_sorted ih

/-- Different names are strictly increasing once they are sorted. -/
theorem sortByName_increasing (keys : (xs.map name).Nodup) :
    ((sortByName name xs).map name).Pairwise fun a b => compareNames a b = .lt := by
  have apart : ((sortByName name xs).map name).Nodup :=
    ((sortByName_perm name xs).map name).nodup_iff.mpr keys
  have sorted : ((sortByName name xs).map name).Pairwise fun a b => (compareNames a b).isLE :=
    List.pairwise_map.mpr sortByName_sorted
  refine sorted.imp₂ (fun a b le ne => ?_) apart
  cases order : compareNames a b with
  | lt => rfl
  | eq => exact absurd (eq_of_compareNames order) ne
  | gt =>
    rw [order] at le
    cases le

end RestGraph.Text
