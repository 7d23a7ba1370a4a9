import Mathlib.Order.Defs.Unbundled
import RestGraph.Proofs.Run.Ends

/-!
# Outcomes

A step of a run leaves a state behind also when it fails. What holds between the first state and the
last whatever the outcome is put together from the parts of a step: a part that fails is the last,
and what follows a part may build on how that part ends.
-/

namespace RestGraph

variable {σ α β : Type}

/-- The relation holds between the state at the start and the state left behind. -/
def Along (R : σ → σ → Prop) (m : ExceptT Fault (StateM σ) α) (s : σ) : Prop := R s (m.run s).2

namespace Along

variable {R : σ → σ → Prop} {m : ExceptT Fault (StateM σ) α} {s t : σ}

/-- A step that ends has come along to its end. -/
theorem ends {a : α} (along : Along R m s) (h : Ends m s a t) : R s t := by
  have run : m.run s = (.ok a, t) := h
  rwa [Along, run] at along

/-- What holds along a computation holds where it fails. -/
theorem fails {e : Fault} (along : Along R m s) (h : m.run s = (.error e, t)) : R s t := by
  rwa [Along, h] at along

section Preorder

variable [IsPreorder σ R]

/-- Nothing happens along `pure`. -/
@[simp] theorem pure (a : α) : Along R (pure a : ExceptT Fault (StateM σ) α) s := refl_of R s

/-- Nothing happens along a `throw`. -/
@[simp] theorem throw (e : Fault) : Along R (throw e : ExceptT Fault (StateM σ) α) s := refl_of R s

/-- Nothing happens along a `get`. -/
@[simp] theorem get : Along R (get : ExceptT Fault (StateM σ) σ) s := refl_of R s

/-- Nothing happens along an outcome that is lifted. -/
@[simp] theorem liftExcept (x : Except Fault α) :
    Along R (liftExcept x : ExceptT Fault (StateM σ) α) s := by
  cases x <;> exact refl_of R s

/-- Along a bind: along its first stage, and along the second from where the first one ends. -/
theorem bind {f : α → ExceptT Fault (StateM σ) β} (first : Along R m s)
    (second : ∀ {a u}, Ends m s a u → R s u → Along R (f a) u) : Along R (m >>= f) s := by
  rw [Along, Ends.run_bind]
  have here := first
  rw [Along] at here
  rcases run : m.run s with ⟨_ | a, u⟩
  · rwa [run] at here
  · rw [run] at here
    exact trans_of R here (second run here)

theorem map {f : α → β} (first : Along R m s) : Along R (f <$> m) s := by
  rw [← bind_pure_comp]
  exact first.bind fun _ _ => .pure _

theorem discard (first : Along R m s) : Along R (discard m) s := first.map

/-- A loop comes along when its rounds do; the invariant says from where each round starts. -/
theorem forM_counts {f : α → ExceptT Fault (StateM σ) PUnit} {I : Nat → σ → Prop} {xs : List α}
    (round : ∀ {k x s}, xs[k]? = some x → I k s → Along R (f x) s)
    (next : ∀ {k x s t}, xs[k]? = some x → I k s → Ends (f x) s ⟨⟩ t → I (k + 1) t)
    (start : I 0 s) : Along R (xs.forM f) s := by
  induction xs generalizing s I with
  | nil =>
    rw [List.forM_eq_forM, List.forM_nil]
    exact .pure _
  | cons x xs ih =>
    rw [List.forM_eq_forM, List.forM_cons]
    refine (round (k := 0) rfl start).bind fun h _ => ?_
    exact ih (I := fun k => I (k + 1)) (fun {k _ _} at_ => round (k := k + 1) at_)
      (fun {k _ _ _} at_ => next (k := k + 1) at_) (next (k := 0) rfl start h)

/-- A loop whose rounds come along from wherever the rounds before have come. -/
theorem forM {f : α → ExceptT Fault (StateM σ) PUnit} {xs : List α}
    (round : ∀ {x t}, x ∈ xs → R s t → Along R (f x) t) : Along R (xs.forM f) s :=
  forM_counts (I := fun _ t => R s t) (fun at_ here => round (List.mem_of_getElem? at_) here)
    (fun at_ here h => trans_of R here ((round (List.mem_of_getElem? at_) here).ends h))
      (refl_of R s)

/-- Along a fold, round by round. -/
theorem foldlM {f : β → α → ExceptT Fault (StateM σ) β} {xs : List α} {b : β}
    (round : ∀ {x b t}, x ∈ xs → R s t → Along R (f b x) t) : Along R (xs.foldlM f b) s := by
  have go : ∀ {ys : List α} {b : β} {t : σ}, (∀ y ∈ ys, y ∈ xs) → R s t →
      Along R (ys.foldlM f b) t := by
    intro ys
    induction ys with
    | nil =>
      intro b t _ _
      rw [List.foldlM_nil]
      exact .pure _
    | cons y ys ih =>
      intro b t mem here
      rw [List.foldlM_cons]
      refine (round (mem y List.mem_cons_self) here).bind fun _ there => ?_
      exact ih (fun z hz => mem z (List.mem_cons_of_mem y hz)) (trans_of R here there)
  exact go (fun _ mem => mem) (refl_of R s)

/-- Along a traversal, item by item. -/
theorem mapM {f : α → ExceptT Fault (StateM σ) β} {xs : List α}
    (round : ∀ {x t}, x ∈ xs → R s t → Along R (f x) t) : Along R (xs.mapM f) s := by
  have go : ∀ {ys : List α} {t : σ}, (∀ y ∈ ys, y ∈ xs) → R s t → Along R (ys.mapM f) t := by
    intro ys
    induction ys with
    | nil =>
      intro t _ _
      rw [List.mapM_nil]
      exact .pure _
    | cons y ys ih =>
      intro t mem here
      rw [List.mapM_cons]
      refine (round (mem y List.mem_cons_self) here).bind fun _ there => ?_
      refine bind (ih (fun z hz => mem z (List.mem_cons_of_mem y hz)) (trans_of R here there))
        fun _ _ => ?_
      exact .pure _
  exact go (fun _ mem => mem) (refl_of R s)

end Preorder

/-- Along a modification, when the relation takes that one step. -/
theorem modify {f : σ → σ} (step : R s (f s)) :
    Along R (modify f : ExceptT Fault (StateM σ) PUnit) s := step

/-- Along a `set`, when the relation takes that one step. -/
theorem set {v : σ} (step : R s v) : Along R (set v : ExceptT Fault (StateM σ) PUnit) s := step

end Along

/-! ## Enough depth -/

/-- The step does not give up for want of depth. -/
def Lasts (m : ExceptT Fault (StateM σ) α) (s : σ) : Prop := (m.run s).1 ≠ .error .depth

namespace Lasts

variable {m : ExceptT Fault (StateM σ) α} {s t : σ}

/-- A computation that succeeds has not run out of fuel. -/
theorem of_ends {a : α} (h : Ends m s a t) : Lasts m s := by
  have run : m.run s = (.ok a, t) := h
  rw [Lasts, run]
  exact fun e => by cases e

@[simp] theorem pure (a : α) : Lasts (pure a : ExceptT Fault (StateM σ) α) s :=
  of_ends (Ends.pure_iff.mpr ⟨rfl, rfl⟩)

@[simp] theorem get : Lasts (get : ExceptT Fault (StateM σ) σ) s :=
  of_ends (Ends.get_iff.mpr ⟨rfl, rfl⟩)

@[simp] theorem modify (f : σ → σ) : Lasts (modify f : ExceptT Fault (StateM σ) PUnit) s :=
  of_ends (a := ⟨⟩) (Ends.modify_iff.mpr rfl)

@[simp] theorem set (v : σ) : Lasts (set v : ExceptT Fault (StateM σ) PUnit) s :=
  of_ends (a := ⟨⟩) (Ends.set_iff.mpr rfl)

/-- Any error but the one for depth is an end of its own. -/
theorem throw {e : Fault} (other : e ≠ .depth) :
    Lasts (throw e : ExceptT Fault (StateM σ) α) s := fun same =>
  other (Except.error.inj same)

theorem liftExcept {x : Except Fault α} (other : x ≠ .error .depth) :
    Lasts (liftExcept x : ExceptT Fault (StateM σ) α) s := by
  cases x with
  | error e => exact throw fun same => other (by rw [same])
  | ok a => exact .pure a

/-- A bind lasts when its first stage does, and its second wherever the first one ends. -/
theorem bind {f : α → ExceptT Fault (StateM σ) β} (first : Lasts m s)
    (second : ∀ {a u}, Ends m s a u → Lasts (f a) u) : Lasts (m >>= f) s := by
  rw [Lasts, Ends.run_bind]
  rw [Lasts] at first
  rcases run : m.run s with ⟨e | a, u⟩
  · rw [run] at first
    exact fun same => first (by rw [Except.error.inj same])
  · exact second run

theorem map {f : α → β} (first : Lasts m s) : Lasts (f <$> m) s := by
  rw [← bind_pure_comp]
  exact first.bind fun _ => .pure _

theorem discard (first : Lasts m s) : Lasts (discard m) s := first.map

/-- A loop lasts when its rounds do; the invariant says from where each round starts. -/
theorem forM {f : α → ExceptT Fault (StateM σ) PUnit} {I : σ → Prop} {xs : List α}
    (round : ∀ {x s}, x ∈ xs → I s → Lasts (f x) s)
    (next : ∀ {x s t}, x ∈ xs → I s → Ends (f x) s ⟨⟩ t → I t) (start : I s) :
    Lasts (xs.forM f) s := by
  induction xs generalizing s with
  | nil =>
    rw [List.forM_eq_forM, List.forM_nil]
    exact .pure _
  | cons x xs ih =>
    rw [List.forM_eq_forM, List.forM_cons]
    refine (round List.mem_cons_self start).bind fun h => ?_
    exact ih (fun mem => round (List.mem_cons_of_mem x mem))
      (fun mem => next (List.mem_cons_of_mem x mem)) (next List.mem_cons_self start h)

/-- A fold lasts when every round lasts and keeps what lets the next one last. -/
theorem foldlM {f : β → α → ExceptT Fault (StateM σ) β} {I : σ → Prop} {xs : List α} {b : β}
    (round : ∀ {x b s}, x ∈ xs → I s → Lasts (f b x) s)
    (next : ∀ {x b c s t}, x ∈ xs → I s → Ends (f b x) s c t → I t) (start : I s) :
    Lasts (xs.foldlM f b) s := by
  induction xs generalizing s b with
  | nil =>
    rw [List.foldlM_nil]
    exact .pure _
  | cons x xs ih =>
    rw [List.foldlM_cons]
    refine (round List.mem_cons_self start).bind fun h => ?_
    exact ih (fun mem => round (List.mem_cons_of_mem x mem))
      (fun mem => next (List.mem_cons_of_mem x mem)) (next List.mem_cons_self start h)

end Lasts

/-! ## Faults -/

/-- Where the step fails, the fault passes the test. -/
def FailsFor (P : Fault → Prop) (m : ExceptT Fault (StateM σ) α) (s : σ) : Prop :=
  ∀ e t, m.run s = (.error e, t) → P e

namespace FailsFor

variable {P Q : Fault → Prop} {m : ExceptT Fault (StateM σ) α} {s t : σ}

/-- A computation that succeeds fails for no reason at all. -/
theorem of_ends {a : α} (h : Ends m s a t) : FailsFor P m s := fun _ _ run => by
  have run' : m.run s = (.ok a, t) := h
  cases run.symm.trans run'

/-- An error that is thrown must be among the reasons. -/
theorem throw {e : Fault} (passes : P e) : FailsFor P (throw e : ExceptT Fault (StateM σ) α) s :=
  fun _ _ run => by
    cases run
    exact passes

theorem liftExcept {x : Except Fault α} (passes : ∀ e, x = .error e → P e) :
    FailsFor P (liftExcept x : ExceptT Fault (StateM σ) α) s := by
  cases x with
  | error e => exact throw (passes e rfl)
  | ok a => exact of_ends (Ends.liftExcept_iff.mpr ⟨rfl, rfl⟩)

/-- A bind fails for the reasons of its two stages. -/
theorem bind {f : α → ExceptT Fault (StateM σ) β} (first : FailsFor P m s)
    (second : ∀ {a u}, Ends m s a u → FailsFor P (f a) u) : FailsFor P (m >>= f) s :=
  fun _ _ run => (Ends.fails_bind run).elim (fun fails => first _ _ fails)
    fun ⟨_, _, h, fails⟩ => second h _ _ fails

theorem discard (first : FailsFor P m s) : FailsFor P (discard m) s := by
  change FailsFor P ((fun _ => PUnit.unit) <$> m) s
  rw [← bind_pure_comp]
  exact first.bind fun _ => of_ends (Ends.pure_iff.mpr ⟨rfl, rfl⟩)

/-- More reasons may be allowed. -/
theorem mono (fails : FailsFor P m s) (weaker : ∀ e, P e → Q e) : FailsFor Q m s :=
  fun _ _ run => weaker _ (fails _ _ run)

end FailsFor

/-! ## Steps on a run -/

namespace Build

variable {d : Document} {r : Run} {R : Run → Run → Prop} {i : Nat}

/-- The relation need not mind the stack at the start and at the end of a step in a frame. -/
theorem along_framed {α : Type} {tag : Tag} {step : Build α}
    (along : Along R step (r.enter i tag)) (drop : ∀ {s}, R (r.enter i tag) s → R r s.leave) :
    Along R (framed i tag step) r := by
  have left := drop along
  rw [Along, run_framed]
  rcases run : step.run (r.enter i tag) with ⟨_ | a, s⟩ <;> rw [run] at left <;> exact left

/-- A frame takes no fuel. -/
theorem lasts_framed {α : Type} {tag : Tag} {step : Build α} (lasts : Lasts step (r.enter i tag)) :
    Lasts (framed i tag step) r := by
  rw [Lasts, run_framed]
  rw [Lasts] at lasts
  rcases run : step.run (r.enter i tag) with ⟨e | a, s⟩
  · rw [run] at lasts
    exact fun same => lasts (by rw [Except.error.inj same])
  · exact fun same => by cases same

section

variable [IsPreorder Run R]

@[simp] theorem along_graph : Along R graph r := Along.get.bind fun _ _ => .pure _

@[simp] theorem along_node : Along R (node i) r := Along.get.bind fun _ _ => .pure _

@[simp] theorem along_pathOf : Along R (pathOf i) r := Along.get.bind fun _ _ => .pure _

/-! What is only read from the description. -/

theorem along_decisive {schema : Json} : Along R (decisive d i schema) r := by
  unfold decisive
  split
  · exact .pure _
  · exact Along.get.bind fun _ _ => (Along.liftExcept _).bind fun _ _ => .liftExcept _

theorem along_deref {path : String} {j : Json} : Along R (deref d path j) r :=
  Along.get.bind fun _ _ => .liftExcept _

theorem along_mergeParameters {path : String} {raw : List Json} :
    Along R (mergeParameters d path raw) r := by
  refine (Along.foldlM fun {param merged t} _ _ => ?_).bind fun _ _ => .pure _
  refine along_deref.bind fun _ _ => ?_
  split <;> exact .pure _

theorem along_chosenResponse {path : String} {responses : Json} :
    Along R (chosenResponse d path responses) r := by
  unfold chosenResponse
  split
  · exact .pure _
  · exact along_deref.bind fun _ _ => .pure _

end

@[simp] theorem lasts_graph : Lasts graph r := Lasts.get.bind fun _ => .pure _

@[simp] theorem lasts_node : Lasts (node i) r := Lasts.get.bind fun _ => .pure _

@[simp] theorem lasts_pathOf : Lasts (pathOf i) r := Lasts.get.bind fun _ => .pure _

@[simp] theorem lasts_warn {location message : String} {kind : WarningKind} :
    Lasts (warn location kind message) r := .modify _

@[simp] theorem lasts_attach {s : Seed} : Lasts (attach i s) r :=
  Lasts.get.bind fun _ => (Lasts.modify _).bind fun _ => .pure _

@[simp] theorem lasts_modifyNode {f : Node → Node} : Lasts (modifyNode i f) r := .modify _

end Build

end RestGraph
