import RestGraph.Proofs.Run.Outcomes

/-!
# Yields

What a step of a run comes to, told by a computation without a state. The computation has fuel and
settles once the fuel suffices; the step ends with what it settles at, or fails as it does.
-/

namespace RestGraph

variable {σ α β γ : Type}

/-- From some fuel on the computation has the outcome. -/
def Settles (x : Nat → Except Fault α) (y : Except Fault α) : Prop := ∃ n, ∀ m ≥ n, x m = y

namespace Settles

variable {x : Nat → Except Fault α} {y z : Except Fault α} {a : α} {e : Fault}

theorem const (y : Except Fault α) : Settles (fun _ => y) y := ⟨0, fun _ _ => rfl⟩

theorem unique (first : Settles x y) (second : Settles x z) : y = z := by
  obtain ⟨n, first⟩ := first
  obtain ⟨k, second⟩ := second
  rw [← first _ (Nat.le_max_left n k), second _ (Nat.le_max_right n k)]

/-- The first unit of fuel is spent on the computation itself. -/
theorem of_succ (settles : Settles (fun n => x (n + 1)) y) : Settles x y := by
  obtain ⟨n, settles⟩ := settles
  refine ⟨n + 1, fun m le => ?_⟩
  obtain ⟨k, rfl⟩ : ∃ k, m = k + 1 := Nat.exists_eq_add_one.mpr (Nat.zero_lt_of_lt le)
  exact settles k (Nat.le_of_succ_le_succ le)

/-- A bind settles when its first stage settles at a value and its second settles from there. -/
theorem bind {f : Nat → α → Except Fault β} {b : Except Fault β} (first : Settles x (.ok a))
    (second : Settles (fun n => f n a) b) : Settles (fun n => x n >>= f n) b := by
  obtain ⟨n, first⟩ := first
  obtain ⟨k, second⟩ := second
  refine ⟨max n k, fun m le => ?_⟩
  rw [← second m (Nat.le_trans (Nat.le_max_right n k) le)]
  dsimp only
  rw [first m (Nat.le_trans (Nat.le_max_left n k) le)]
  rfl

theorem error_bind {f : Nat → α → Except Fault β} (first : Settles x (.error e)) :
    Settles (fun n => x n >>= f n) (.error e) := by
  obtain ⟨n, first⟩ := first
  refine ⟨n, fun m le => ?_⟩
  dsimp only
  rw [first m le]
  rfl

end Settles

/-- The step ends with what the computation settles at, or fails as it does. Some faults are
excused. -/
structure Yields (excused : Fault → Prop) (m : ExceptT Fault (StateM σ) α) (s : σ)
    (x : Nat → Except Fault β) (Q : β → α → σ → Prop) : Prop where
  ends : ∀ {a t}, Ends m s a t → ∃ b, Settles x (.ok b) ∧ Q b a t
  fails : ∀ {e t}, m.run s = (.error e, t) → excused e ∨ Settles x (.error e)

namespace Yields

variable {excused : Fault → Prop} {m : ExceptT Fault (StateM σ) α} {s t : σ}
  {x : Nat → Except Fault β} {Q Q' : β → α → σ → Prop}

theorem imp (yields : Yields excused m s x Q) (weaker : ∀ {b a t}, Q b a t → Q' b a t) :
    Yields excused m s x Q' where
  ends h := (yields.ends h).imp fun _ => And.imp_right weaker
  fails := yields.fails

/-- What the computation settles at is known after the step. -/
theorem know (yields : Yields excused m s x Q) :
    Yields excused m s x fun b a t => Settles x (.ok b) ∧ Q b a t where
  ends h := (yields.ends h).imp fun _ both => ⟨both.1, both⟩
  fails := yields.fails

/-- A step that does not give up for want of depth needs no excuse. -/
theorem of_lasts (yields : Yields (· = .depth) m s x Q) (lasts : Lasts m s) :
    Yields excused m s x Q where
  ends := yields.ends
  fails h := by
    refine (yields.fails h).elim (fun depth => absurd ?_ lasts) .inr
    rw [h, depth]

theorem of_succ (yields : Yields excused m s (fun n => x (n + 1)) Q) : Yields excused m s x Q where
  ends h := (yields.ends h).imp fun _ => And.imp_left .of_succ
  fails h := (yields.fails h).imp_right .of_succ

theorem pure {a : α} {b : β} (good : Q b a s) :
    Yields excused (pure a : ExceptT Fault (StateM σ) α) s (fun _ => .ok b) Q where
  ends h := by
    obtain ⟨rfl, rfl⟩ := Ends.pure_iff.mp h
    exact ⟨b, .const _, good⟩
  fails h := by cases h

/-- A computation that succeeds yields the value it is known to end at. -/
theorem of_ends {a : α} {b : β} (h : Ends m s a t) (good : Q b a t) :
    Yields excused m s (fun _ => .ok b) Q where
  ends h' := by
    obtain ⟨rfl, rfl⟩ := h.unique h'
    exact ⟨b, .const _, good⟩
  fails h' := by
    have run : m.run s = (.ok a, t) := h
    rw [run] at h'
    cases h'

/-- A step that does what was known before. -/
theorem of_settles {a : α} {b : β} (h : Ends m s a t) (settles : Settles x (.ok b))
    (good : Q b a t) : Yields excused m s x Q where
  ends h' := by
    obtain ⟨rfl, rfl⟩ := h.unique h'
    exact ⟨b, settles, good⟩
  fails h' := by
    have run : m.run s = (.ok a, t) := h
    rw [run] at h'
    cases h'

theorem throw {e : Fault} :
    Yields excused (throw e : ExceptT Fault (StateM σ) α) s (fun _ => .error e) Q where
  ends h := (Ends.throw_iff.mp h).elim
  fails h := by
    cases h
    exact .inr (.const _)

/-- An error that is excused yields whatever it is asked to. -/
theorem throw_excused {e : Fault} (excuse : excused e) :
    Yields excused (MonadExcept.throw e : ExceptT Fault (StateM σ) α) s x Q where
  ends h := (Ends.throw_iff.mp h).elim
  fails h := by
    cases h
    exact .inl excuse

/-- A bind yields the bind of what its two stages yield. -/
theorem bind {f : α → ExceptT Fault (StateM σ) γ} {δ : Type} {g : Nat → β → Except Fault δ}
    {R : δ → γ → σ → Prop} (first : Yields excused m s x Q)
    (second : ∀ {a b t}, Ends m s a t → Q b a t → Yields excused (f a) t (fun n => g n b) R) :
    Yields excused (m >>= f) s (fun n => x n >>= g n) R where
  ends h := by
    obtain ⟨a, t, first', h⟩ := Ends.bind_iff.mp h
    obtain ⟨b, settles, good⟩ := first.ends first'
    obtain ⟨c, settles', good'⟩ := (second first' good).ends h
    exact ⟨c, settles.bind settles', good'⟩
  fails {e t} h := by
    rw [Ends.run_bind] at h
    rcases run : m.run s with ⟨e' | a, u⟩ <;> rw [run] at h
    · cases h
      exact (first.fails run).imp_right .error_bind
    · obtain ⟨b, settles, good⟩ := first.ends run
      exact ((second run good).fails h).imp_right settles.bind

/-- A step that ends, and that the computation knows nothing of. -/
theorem after {f : α → ExceptT Fault (StateM σ) γ} {R : β → γ → σ → Prop} {a : α}
    (first : Ends m s a t) (second : Yields excused (f a) t x R) :
    Yields excused (m >>= f) s x R where
  ends h := by
    obtain ⟨b, u, first', h⟩ := Ends.bind_iff.mp h
    obtain ⟨rfl, rfl⟩ := first.unique first'
    exact second.ends h
  fails h := second.fails (by rwa [Ends.run_bind_of_ends first] at h)

/-- What follows a step answers for it in another way. -/
theorem bind_map {f : α → ExceptT Fault (StateM σ) γ} {δ : Type} {g : β → δ} {R : δ → γ → σ → Prop}
    (first : Yields excused m s x Q)
    (second : ∀ {a b t}, Ends m s a t → Q b a t → Yields excused (f a) t (fun _ => .ok (g b)) R) :
    Yields excused (m >>= f) s (fun n => g <$> x n) R := by
  have last : ∀ n, g <$> x n = x n >>= fun b => Except.ok (g b) := fun n => by
    cases x n <;> rfl
  simp only [last]
  exact first.bind second

/-- The computation goes on where the step does not. -/
theorem then_ok {δ : Type} {g : β → δ} {R : δ → α → σ → Prop} (yields : Yields excused m s x Q)
    (good : ∀ {b a t}, Q b a t → R (g b) a t) :
    Yields excused m s (fun n => x n >>= fun b => Except.ok (g b)) R where
  ends h := by
    obtain ⟨b, settles, good'⟩ := yields.ends h
    exact ⟨g b, settles.bind (.const _), good good'⟩
  fails h := (yields.fails h).imp_right .error_bind

theorem map {f : α → γ} {δ : Type} {g : β → δ} {R : δ → γ → σ → Prop}
    (yields : Yields excused m s x Q) (good : ∀ {b a t}, Q b a t → R (g b) (f a) t) :
    Yields excused (f <$> m) s (fun n => g <$> x n) R := by
  rw [← bind_pure_comp]
  exact yields.bind_map fun _ h => .pure (good h)

theorem discard {δ : Type} {g : β → δ} {R : δ → PUnit → σ → Prop} (yields : Yields excused m s x Q)
    (good : ∀ {b a t}, Q b a t → R (g b) ⟨⟩ t) :
    Yields excused (discard m) s (fun n => g <$> x n) R :=
  yields.map good

/-- What follows a step ends, and the computation knows nothing of it. -/
theorem andThen {f : α → ExceptT Fault (StateM σ) γ} {R : β → γ → σ → Prop}
    (yields : Yields excused m s x Q)
    (next : ∀ {b a t}, Q b a t → ∃ c u, Ends (f a) t c u ∧ R b c u) :
    Yields excused (m >>= f) s x R where
  ends h := by
    obtain ⟨a, t, first, h⟩ := Ends.bind_iff.mp h
    obtain ⟨b, settles, good⟩ := yields.ends first
    obtain ⟨c, u, ends, good⟩ := next good
    obtain ⟨rfl, rfl⟩ := ends.unique h
    exact ⟨b, settles, good⟩
  fails {e t} h := by
    rw [Ends.run_bind] at h
    rcases run : m.run s with ⟨e' | a, u⟩ <;> rw [run] at h
    · cases h
      exact yields.fails run
    · obtain ⟨b, -, good⟩ := yields.ends run
      obtain ⟨c, v, ends, -⟩ := next good
      have ends : (f a).run u = (.ok c, v) := ends
      cases ends.symm.trans h

/-- A step that the computation knows all of, before another answer is given. -/
theorem answer {f : α → γ} {R : β → γ → σ → Prop} (yields : Yields excused m s x Q)
    (good : ∀ {b a t}, Q b a t → R b (f a) t) :
    Yields excused (m >>= fun a => Pure.pure (f a)) s x R :=
  yields.andThen fun h => ⟨_, _, Ends.pure_iff.mpr ⟨rfl, rfl⟩, good h⟩

/-- What is lifted is known to the computation. -/
theorem liftExcept {y : Except Fault α} :
    Yields excused (liftExcept y : ExceptT Fault (StateM σ) α) s (fun _ => y)
      (fun b a t => y = .ok b ∧ a = b ∧ t = s) := by
  cases y with
  | error e => exact .throw
  | ok a => exact .pure ⟨rfl, rfl, rfl⟩

/-- A computation that goes further tells of the step too, unless this gives up. -/
theorem further {x' : Nat → Except Fault β} (yields : Yields (fun _ => False) m s x Q)
    (lasts : Lasts m s) (same : ∀ n, x n ≠ .error .depth → x' n = x n) :
    Yields (fun _ => False) m s x' Q := by
  have settles : ∀ {y}, Settles x y → y ≠ .error .depth → Settles x' y := by
    rintro y ⟨n, settles⟩ other
    exact ⟨n, fun m le => by rw [same m (by rw [settles m le]; exact other), settles m le]⟩
  refine ⟨fun h => ?_, fun {e t} h => .inr (settles ((yields.fails h).resolve_left id) ?_)⟩
  · obtain ⟨b, settles', good⟩ := yields.ends h
    exact ⟨b, settles settles' (fun gave => by cases gave), good⟩
  · rw [Lasts, h] at lasts
    exact fun gave => lasts (congrArg _ (Except.error.inj gave))

/-- Two steps that the same computation tells come to the same. -/
theorem outcome {τ : Type} {m' : ExceptT Fault (StateM τ) α} {s' : τ} {f : β → α}
    (first : Yields (fun _ => False) m s x fun b a _ => a = f b)
    (second : Yields (fun _ => False) m' s' x fun b a _ => a = f b) :
    (m.run s).1 = (m'.run s').1 := by
  rcases run : m.run s with ⟨e | a, t⟩ <;> rcases run' : m'.run s' with ⟨e' | a', t'⟩
  · have same := ((first.fails run).resolve_left id).unique ((second.fails run').resolve_left id)
    exact congrArg _ (Except.error.inj same)
  · obtain ⟨b, settles, -⟩ := second.ends run'
    cases ((first.fails run).resolve_left id).unique settles
  · obtain ⟨b, settles, -⟩ := first.ends run
    cases settles.unique ((second.fails run').resolve_left id)
  · obtain ⟨b, settles, rfl⟩ := first.ends run
    obtain ⟨b', settles', rfl⟩ := second.ends run'
    rw [Except.ok.inj (settles.unique settles')]

/-- Where one of two such steps ends, so does the other. -/
theorem ends_of_ends {τ : Type} {m' : ExceptT Fault (StateM τ) γ} {s' t' : τ} {a' : γ}
    {R : β → γ → τ → Prop} (first : Yields (fun _ => False) m s x Q)
    (second : Yields (fun _ => False) m' s' x R) (h : Ends m' s' a' t') :
    ∃ b a t, Ends m s a t ∧ Q b a t ∧ R b a' t' := by
  obtain ⟨b, settles, good'⟩ := second.ends h
  rcases run : m.run s with ⟨e | a, t⟩
  · cases ((first.fails run).resolve_left id).unique settles
  · obtain ⟨b', settles', good⟩ := first.ends run
    cases settles.unique settles'
    exact ⟨b, a, t, run, good, good'⟩

end Yields

end RestGraph
