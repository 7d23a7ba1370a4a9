import RestGraph.Graph.Visit

/-!
# How steps end

A step of a run that does not fail has an answer and a last state. `Ends` relates them to the state
at the start; each way to put steps together has one equation for it, so that a run can be taken
apart without unfolding the monad.
-/

namespace RestGraph

/-- A bind of outcomes succeeds when both its stages do. -/
theorem bind_eq_ok_iff {ε α β : Type} {x : Except ε α} {f : α → Except ε β} {b : β} :
    x >>= f = .ok b ↔ ∃ a, x = .ok a ∧ f a = .ok b := by
  cases x with
  | error e => exact ⟨fun same => (by cases same), fun ⟨_, same, _⟩ => (by cases same)⟩
  | ok a => exact ⟨fun same => ⟨a, rfl, same⟩, fun ⟨_, same, ok⟩ => (by cases same; exact ok)⟩

variable {σ α β : Type}

/-- From the state `s` the step leads to the state `t` and answers `a`. -/
def Ends (m : ExceptT Fault (StateM σ) α) (s : σ) (a : α) (t : σ) : Prop :=
  m.run s = (.ok a, t)

namespace Ends

variable {m : ExceptT Fault (StateM σ) α} {s t : σ}

/-- A step has one end at most. -/
theorem unique {a a' : α} {t' : σ} (h : Ends m s a t) (h' : Ends m s a' t') : a = a' ∧ t = t' := by
  have e : (Except.ok a, t) = (Except.ok a', t') := h.symm.trans h'
  rwa [Prod.mk.injEq, Except.ok.injEq] at e

/-- What a bind runs to, by the outcome of its first stage. -/
theorem run_bind {f : α → ExceptT Fault (StateM σ) β} : (m >>= f).run s =
    match m.run s with
    | (.ok a, u) => (f a).run u
    | (.error e, u) => (.error e, u) := by
  change (ExceptT.bindCont f (m.run s).1).run (m.run s).2 = _
  rcases m.run s with ⟨_ | a, u⟩ <;> rfl

/-- What follows a step that ends goes on from there. -/
@[simp] theorem run_bind_of_ends {f : α → ExceptT Fault (StateM σ) β} {a : α} (h : Ends m s a t) :
    (m >>= f).run s = (f a).run t := by
  have run : m.run s = (.ok a, t) := h
  rw [run_bind, run]

/-- Whether the step ends, and with an answer and a state that pass a test. -/
def passes (m : ExceptT Fault (StateM σ) α) (s : σ) (test : α → σ → Bool) : Bool :=
  match m.run s with
  | (.ok a, t) => test a t
  | (.error _, _) => false

/-- A test that passes was put to an outcome of the computation. -/
theorem of_passes {test : α → σ → Bool} (h : passes m s test = true) :
    ∃ a t, Ends m s a t ∧ test a t = true := by
  unfold passes at h
  split at h
  · next a t run => exact ⟨a, t, run, h⟩
  · cases h

theorem passes_of {test : α → σ → Bool} {a : α} (h : Ends m s a t) (good : test a t = true) :
    passes m s test = true := by
  have run : m.run s = (.ok a, t) := h
  rw [passes, run]
  exact good

@[simp] theorem pure_iff {a b : α} :
    Ends (pure a : ExceptT Fault (StateM σ) α) s b t ↔ a = b ∧ s = t := by
  change (Except.ok a, s) = (Except.ok b, t) ↔ _
  simp only [Prod.mk.injEq, Except.ok.injEq]

@[simp] theorem throw_iff {e : Fault} {a : α} :
    Ends (throw e : ExceptT Fault (StateM σ) α) s a t ↔ False := by
  change (Except.error e, s) = (Except.ok a, t) ↔ _
  simp

/-- A bind ends where its second stage ends, started from where the first one did. -/
@[simp] theorem bind_iff {f : α → ExceptT Fault (StateM σ) β} {b : β} :
    Ends (m >>= f) s b t ↔ ∃ a u, Ends m s a u ∧ Ends (f a) u b t := by
  unfold Ends
  rw [run_bind]
  constructor
  · intro h
    rcases e : m.run s with ⟨x, u⟩
    rw [e] at h
    cases x with
    | error fault => cases h
    | ok a => exact ⟨a, u, rfl, h⟩
  · rintro ⟨a, u, h, h'⟩
    rw [h]
    exact h'

/-- A chain fails at its first part, or at its second after the first has ended. -/
theorem fails_bind {f : α → ExceptT Fault (StateM σ) β} {e : Fault}
    (h : (m >>= f).run s = (.error e, t)) :
    m.run s = (.error e, t) ∨ ∃ a u, Ends m s a u ∧ (f a).run u = (.error e, t) := by
  rw [run_bind] at h
  rcases run : m.run s with ⟨e' | a, u⟩ <;> rw [run] at h
  · left
    cases h
    rfl
  · exact .inr ⟨a, u, run, h⟩

/-- A map ends in the state its argument ends in. -/
@[simp] theorem map_iff {f : α → β} {b : β} :
    Ends (f <$> m) s b t ↔ ∃ a, Ends m s a t ∧ f a = b := by
  rw [← bind_pure_comp, bind_iff]
  constructor
  · rintro ⟨a, u, h, hb⟩
    obtain ⟨rfl, rfl⟩ := pure_iff.mp hb
    exact ⟨a, h, rfl⟩
  · rintro ⟨a, h, rfl⟩
    exact ⟨a, t, h, pure_iff.mpr ⟨rfl, rfl⟩⟩

/-- Discarding the value leaves the state as it is. -/
@[simp] theorem discard_iff {u : PUnit} : Ends (discard m) s u t ↔ ∃ a, Ends m s a t := by
  rw [show discard m = (fun _ => PUnit.unit) <$> m from rfl, map_iff]
  exact ⟨fun ⟨a, h, _⟩ => ⟨a, h⟩, fun ⟨a, h⟩ => ⟨a, h, rfl⟩⟩

@[simp] theorem get_iff {a : σ} :
    Ends (get : ExceptT Fault (StateM σ) σ) s a t ↔ s = a ∧ s = t := by
  change (Except.ok s, s) = (Except.ok a, t) ↔ _
  simp only [Prod.mk.injEq, Except.ok.injEq]

/-- Reading from the state leaves it as it is. -/
theorem reads_iff {f : σ → α} {a : α} :
    Ends (do return f (← get) : ExceptT Fault (StateM σ) α) s a t ↔ f s = a ∧ s = t := by
  rw [bind_iff]
  constructor
  · rintro ⟨_, u, h, h'⟩
    obtain ⟨rfl, rfl⟩ := get_iff.mp h
    exact pure_iff.mp h'
  · rintro ⟨rfl, rfl⟩
    exact ⟨s, s, get_iff.mpr ⟨rfl, rfl⟩, pure_iff.mpr ⟨rfl, rfl⟩⟩

@[simp] theorem set_iff {v : σ} {u : PUnit} :
    Ends (set v : ExceptT Fault (StateM σ) PUnit) s u t ↔ v = t := by
  change (Except.ok PUnit.unit, v) = (Except.ok u, t) ↔ _
  simp only [Prod.mk.injEq, true_and]

@[simp] theorem modify_iff {f : σ → σ} {u : PUnit} :
    Ends (modify f : ExceptT Fault (StateM σ) PUnit) s u t ↔ f s = t := by
  change (Except.ok PUnit.unit, f s) = (Except.ok u, t) ↔ _
  simp only [Prod.mk.injEq, true_and]

@[simp] theorem liftExcept_iff {x : Except Fault α} {a : α} :
    Ends (liftExcept x : ExceptT Fault (StateM σ) α) s a t ↔ x = .ok a ∧ s = t := by
  cases x with
  | error e => simp [liftExcept]
  | ok b => rw [liftExcept, pure_iff, Except.ok.injEq]

/-- A loop over nothing ends where it starts. -/
@[simp] theorem forM_nil_iff {f : α → ExceptT Fault (StateM σ) PUnit} {u : PUnit} :
    Ends (([] : List α).forM f) s u t ↔ s = t := by
  rw [List.forM_eq_forM, List.forM_nil, pure_iff]
  exact and_iff_right rfl

@[simp]
theorem forM_cons_iff {f : α → ExceptT Fault (StateM σ) PUnit} {x : α} {xs : List α} {u : PUnit} :
    Ends ((x :: xs).forM f) s u t ↔ ∃ v, Ends (f x) s ⟨⟩ v ∧ Ends (xs.forM f) v u t := by
  rw [List.forM_eq_forM, List.forM_cons, bind_iff]
  exact ⟨fun ⟨_, v, hx, h⟩ => ⟨v, hx, h⟩, fun ⟨v, hx, h⟩ => ⟨⟨⟩, v, hx, h⟩⟩

/-- A loop over two lists is the loop over the second after the loop over the first. -/
theorem forM_append_iff {f : α → ExceptT Fault (StateM σ) PUnit} {xs ys : List α} {u : PUnit} :
    Ends ((xs ++ ys).forM f) s u t ↔ ∃ v, Ends (xs.forM f) s ⟨⟩ v ∧ Ends (ys.forM f) v u t := by
  induction xs generalizing s with
  | nil =>
    simp only [List.nil_append, forM_nil_iff]
    exact ⟨fun h => ⟨s, rfl, h⟩, fun ⟨_, e, h⟩ => e ▸ h⟩
  | cons x xs ih =>
    simp only [List.cons_append, forM_cons_iff, ih]
    exact ⟨fun ⟨v, hx, w, hxs, hys⟩ => ⟨w, ⟨v, hx, hxs⟩, hys⟩,
      fun ⟨w, ⟨v, hx, hxs⟩, hys⟩ => ⟨v, hx, w, hxs, hys⟩⟩

/-- A loop comes from round to round as its invariant says. -/
theorem forM_counts {f : α → ExceptT Fault (StateM σ) PUnit} {I : Nat → σ → Prop} {xs : List α}
    (round : ∀ {k x s t}, xs[k]? = some x → I k s → Ends (f x) s ⟨⟩ t → I (k + 1) t) {u : PUnit}
    (start : I 0 s) (h : Ends (xs.forM f) s u t) : I xs.length t := by
  induction xs generalizing s I with
  | nil => exact forM_nil_iff.mp h ▸ start
  | cons x xs ih =>
    obtain ⟨v, hx, h⟩ := forM_cons_iff.mp h
    exact ih (I := fun k => I (k + 1)) (fun {k _ _ _} at_ => round (k := k + 1) at_)
      (round (k := 0) rfl start hx) h

/-- Each round begins where those before it have ended. -/
theorem forM_turns {f : α → ExceptT Fault (StateM σ) PUnit} {I : Nat → σ → Prop} {xs : List α}
    (round : ∀ {k x v w}, xs[k]? = some x → Ends ((xs.take k).forM f) s ⟨⟩ v → I k v →
      Ends (f x) v ⟨⟩ w → I (k + 1) w) {u : PUnit}
    (start : I 0 s) (h : Ends (xs.forM f) s u t) : I xs.length t := by
  refine (forM_counts (I := fun k v => Ends ((xs.take k).forM f) s ⟨⟩ v ∧ I k v)
    (fun {k x v w} at_ before hx => ?_) ⟨forM_nil_iff.mpr rfl, start⟩ h).2
  refine ⟨?_, round at_ before.1 before.2 hx⟩
  rw [List.take_add_one, at_]
  exact forM_append_iff.mpr ⟨v, before.1, forM_cons_iff.mpr ⟨w, hx, forM_nil_iff.mpr rfl⟩⟩

/-- What every round keeps, a loop keeps. -/
theorem forM_keeps {f : α → ExceptT Fault (StateM σ) PUnit} {I : σ → Prop} {xs : List α}
    (round : ∀ {x s t}, x ∈ xs → I s → Ends (f x) s ⟨⟩ t → I t) {u : PUnit} (start : I s)
    (h : Ends (xs.forM f) s u t) : I t :=
  forM_counts (I := fun _ => I) (fun at_ => round (List.mem_of_getElem? at_)) start h

/-- What every round of a fold keeps, of its value and its state, the whole fold keeps. -/
theorem foldlM_keeps {f : β → α → ExceptT Fault (StateM σ) β} {I : β → σ → Prop} {xs : List α}
    (round : ∀ {b x c s t}, x ∈ xs → I b s → Ends (f b x) s c t → I c t) {b c : β} (start : I b s)
    (h : Ends (xs.foldlM f b) s c t) : I c t := by
  induction xs generalizing s b with
  | nil =>
    rw [List.foldlM_nil] at h
    obtain ⟨rfl, rfl⟩ := pure_iff.mp h
    exact start
  | cons x xs ih =>
    rw [List.foldlM_cons, bind_iff] at h
    obtain ⟨a, v, hx, h⟩ := h
    exact ih (fun mem => round (List.mem_cons_of_mem x mem)) (round List.mem_cons_self start hx) h

/-- A loop gives an answer for each of its items. -/
theorem mapM_items {f : α → ExceptT Fault (StateM σ) β} {item : β → α} {xs : List α}
    (round : ∀ {x b s t}, Ends (f x) s b t → item b = x) {bs : List β}
    (h : Ends (xs.mapM f) s bs t) : bs.map item = xs := by
  induction xs generalizing bs s t with
  | nil =>
    rw [List.mapM_nil] at h
    obtain ⟨rfl, -⟩ := pure_iff.mp h
    rfl
  | cons x xs ih =>
    rw [List.mapM_cons, bind_iff] at h
    obtain ⟨b, u, hx, h⟩ := h
    obtain ⟨bs, v, hxs, h⟩ := bind_iff.mp h
    obtain ⟨rfl, -⟩ := pure_iff.mp h
    rw [List.map_cons, round hx, ih hxs]

/-- The answers of a loop are gathered as its invariant says. -/
theorem mapM_keeps {f : α → ExceptT Fault (StateM σ) β} {I : List β → σ → Prop} {xs : List α}
    (round : ∀ {x bs b s t}, x ∈ xs → I bs s → Ends (f x) s b t → I (bs ++ [b]) t) {bs : List β}
    (start : I [] s) (h : Ends (xs.mapM f) s bs t) : I bs t := by
  have go : ∀ {xs : List α} {before bs : List β} {s : σ},
      (∀ {x bs b s t}, x ∈ xs → I bs s → Ends (f x) s b t → I (bs ++ [b]) t) → I before s →
      Ends (xs.mapM f) s bs t → I (before ++ bs) t := by
    intro xs
    induction xs with
    | nil =>
      intro before bs s _ start h
      rw [List.mapM_nil] at h
      obtain ⟨rfl, rfl⟩ := pure_iff.mp h
      rwa [List.append_nil]
    | cons x xs ih =>
      intro before bs s round start h
      rw [List.mapM_cons, bind_iff] at h
      obtain ⟨b, u, hx, h⟩ := h
      obtain ⟨rest, v, tail, last⟩ := bind_iff.mp h
      obtain ⟨rfl, rfl⟩ := pure_iff.mp last
      have more := ih (fun mem => round (List.mem_cons_of_mem x mem))
        (round List.mem_cons_self start hx) tail
      rwa [List.append_assoc] at more
  exact go round start h

end Ends

/-! ## Steps on a run -/

/-- A run always has fuel for one more level. -/
theorem Run.reach_pos (r : Run) : 0 < r.reach :=
  Nat.add_pos_right _ (Nat.pow_pos (Nat.add_pos_right _ (by decide)))

namespace Build

variable {r r' : Run} {i : Nat}

@[simp] theorem ends_graph {g : Graph} : Ends graph r g r' ↔ r.graph = g ∧ r = r' :=
  Ends.reads_iff

@[simp] theorem ends_node {n : Node} : Ends (node i) r n r' ↔ r.graph.node i = n ∧ r = r' :=
  Ends.reads_iff

@[simp] theorem ends_pathOf {p : String} :
    Ends (pathOf i) r p r' ↔ r.graph.pathOf i = p ∧ r = r' := Ends.reads_iff

@[simp] theorem ends_warn {location message : String} {kind : WarningKind} {u : Unit} :
    Ends (warn location kind message) r u r' ↔ r.warn location kind message = r' := by
  rw [warn, Ends.modify_iff]

/-- Attaching a seed gives the id of the node it makes. -/
@[simp] theorem ends_attach {s : Seed} {c : Nat} :
    Ends (attach i s) r c r' ↔ r.graph.size = c ∧ r.onGraph (fun g => g.attach i s) = r' := by
  simp only [attach, Ends.bind_iff, Ends.get_iff, Ends.modify_iff, Ends.pure_iff]
  constructor
  · rintro ⟨_, _, ⟨rfl, rfl⟩, _, _, rfl, rfl, rfl⟩
    exact ⟨rfl, rfl⟩
  · rintro ⟨rfl, rfl⟩
    exact ⟨r, r, ⟨rfl, rfl⟩, (), _, rfl, rfl, rfl⟩

/-- A node that is modified is modified in the graph of the run. -/
@[simp] theorem ends_modifyNode {f : Node → Node} {u : Unit} :
    Ends (modifyNode i f) r u r' ↔ r.onGraph (fun g => g.modify i f) = r' := by
  rw [modifyNode, Ends.modify_iff]

/-- A framed step runs with its frame entered, and leaves it when it succeeds. -/
theorem run_framed {α : Type} {tag : Tag} {step : Build α} : (framed i tag step).run r =
    match step.run (r.enter i tag) with
    | (.ok a, s) => (.ok a, s.leave)
    | (.error e, s) => (.error e, s.leave) := by
  rcases e : step.run (r.enter i tag) with ⟨_ | a, s⟩
  all_goals
    change step (r.enter i tag) = _ at e
    delta framed modify
    simp only [bind, ExceptT.bind, ExceptT.mk, ExceptT.run, StateT.bind, tryCatch, tryCatchThe,
      MonadExceptOf.tryCatch, ExceptT.tryCatch, modifyGet, MonadStateOf.modifyGet,
      StateT.modifyGet, monadLift, MonadLift.monadLift, ExceptT.lift, ExceptT.bindCont,
      Functor.map, StateT.map, pure]
    delta StateT.pure
    simp only [e]
    rfl

/-- A frame is on the stack during the step only. -/
@[simp] theorem ends_framed {α : Type} {tag : Tag} {step : Build α} {a : α} :
    Ends (framed i tag step) r a r' ↔ ∃ s, Ends step (r.enter i tag) a s ∧ s.leave = r' := by
  unfold Ends
  rw [run_framed]
  constructor
  · intro h
    rcases e : step.run (r.enter i tag) with ⟨x, s⟩
    rw [e] at h
    cases x with
    | error fault => cases h
    | ok b =>
      cases h
      exact ⟨s, rfl, rfl⟩
  · rintro ⟨s, h, rfl⟩
    rw [h]

end Build

end RestGraph
