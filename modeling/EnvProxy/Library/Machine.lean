-- SUMMARY: Machines given by a partial step function: runs, invariants, and the interleavings of a pool of tasks.
import Mathlib.Logic.Function.Basic
import Mathlib.Tactic.Common

/-!
# Machines and interleaved tasks

A machine performs a move in a state, or refuses it. `Reaches ok` is a run all of
whose moves meet `ok` in the state they are made in; the unrestricted runs are
those of `anyMove`.

A pool is a shared state together with the local state of every task. One step
lets one task act on both, or the surroundings act on the shared state. `Inv` is
an invariant of the pool split the same way: `shared` for the shared state, and
`task` for each task's local state given the shared state. The rule
`Inv.reaches` asks that an act keeps its own assertion and does not disturb
anybody else's.
-/

structure Machine (σ α : Type) where
  step : σ → α → Option σ

namespace Machine

variable {σ α : Type} {M : Machine σ α}

/-- A run from one state to another whose moves all meet `ok`. -/
inductive Reaches (M : Machine σ α) (ok : σ → α → Prop) : σ → σ → Prop where
  | refl {s : σ} : Reaches M ok s s
  | step {s₁ s₂ s₃ : σ} {a : α} :
      Reaches M ok s₁ s₂ → ok s₂ a → M.step s₂ a = some s₃ → Reaches M ok s₁ s₃

/-- No restriction on the moves of a run. -/
def anyMove (_ : σ) (_ : α) : Prop := True

theorem Reaches.head {ok : σ → α → Prop} {s₁ s₂ s₃ : σ} {a : α} (hok : ok s₁ a)
    (hstep : M.step s₁ a = some s₂) (h : M.Reaches ok s₂ s₃) : M.Reaches ok s₁ s₃ := by
  induction h with
  | refl => exact .step .refl hok hstep
  | step _ hok' hstep' ih => exact .step ih hok' hstep'

theorem Reaches.trans {ok : σ → α → Prop} {s₁ s₂ s₃ : σ} (h : M.Reaches ok s₁ s₂)
    (h' : M.Reaches ok s₂ s₃) : M.Reaches ok s₁ s₃ := by
  induction h' with
  | refl => exact h
  | step _ hok hstep ih => exact .step ih hok hstep

theorem Reaches.mono {ok ok' : σ → α → Prop} {s s' : σ} (h : M.Reaches ok s s')
    (hok : ∀ s a, ok s a → ok' s a) : M.Reaches ok' s s' := by
  induction h with
  | refl => exact .refl
  | step _ hmeets hstep ih => exact .step ih (hok _ _ hmeets) hstep

/-- What holds at the start and is kept by every move holds at the end. -/
theorem Reaches.invariant {ok : σ → α → Prop} {I : σ → Prop} {s s' : σ}
    (h : M.Reaches ok s s') (hinit : I s)
    (hstep : ∀ s a s', I s → ok s a → M.step s a = some s' → I s') : I s' := by
  induction h with
  | refl => exact hinit
  | step _ hok hmove ih => exact hstep _ _ _ ih hok hmove

/-- The same, when a move is known to be made in a state the run reaches. -/
theorem Reaches.along {ok : σ → α → Prop} {I : σ → Prop} {s s' : σ} (h : M.Reaches ok s s')
    (hinit : I s)
    (hstep : ∀ s₁ a s₂, M.Reaches ok s s₁ → I s₁ → ok s₁ a → M.step s₁ a = some s₂ → I s₂) : I s' := by
  induction h with
  | refl => exact hinit
  | step hreach hok hmove ih => exact hstep _ _ _ hreach ih hok hmove

/-- A machine that does what another one does, or nothing the other one sees: its runs
    are runs of the other. -/
theorem Reaches.simulates {τ β : Type} {N : Machine τ β} {ok : σ → α → Prop} {ok' : τ → β → Prop}
    {f : σ → τ} {s s' : σ} (h : M.Reaches ok s s')
    (hstep : ∀ s a s', ok s a → M.step s a = some s' →
      f s' = f s ∨ ∃ b, ok' (f s) b ∧ N.step (f s) b = some (f s')) :
    N.Reaches ok' (f s) (f s') := by
  induction h with
  | refl => exact .refl
  | step _ hok hmove ih =>
    rcases hstep _ _ _ hok hmove with hsame | ⟨b, hok', hmove'⟩
    · rw [hsame]
      exact ih
    · exact .step ih hok' hmove'

end Machine

/-! ## Pools of tasks -/

/-- A shared state and the local state of every task. -/
structure Pool (ι σ τ : Type) where
  shared : σ
  tasks : ι → τ

/-- One step of a pool: task `i` performs the act `l`, or the surroundings perform `e`. -/
inductive Move (ι ℓ ε : Type) where
  | task (i : ι) (l : ℓ)
  | env (e : ε)

/-- What a task and the surroundings can do. -/
structure Tasks (σ τ ℓ ε : Type) where
  act : ℓ → σ → τ → Option (σ × τ)
  env : ε → σ → Option σ

namespace Tasks

variable {ι σ τ ℓ ε : Type} [DecidableEq ι]

/-- The machine whose runs are the interleavings of the tasks. -/
def machine (S : Tasks σ τ ℓ ε) : Machine (Pool ι σ τ) (Move ι ℓ ε) where
  step := fun p move =>
    match move with
    | .task i l => (S.act l p.shared (p.tasks i)).map fun st =>
        { shared := st.1, tasks := Function.update p.tasks i st.2 }
    | .env e => (S.env e p.shared).map fun s => { p with shared := s }

variable {S : Tasks σ τ ℓ ε}

theorem step_task_iff {p p' : Pool ι σ τ} {i : ι} {l : ℓ} :
    S.machine.step p (.task i l) = some p' ↔
      ∃ s t, S.act l p.shared (p.tasks i) = some (s, t) ∧
        p' = { shared := s, tasks := Function.update p.tasks i t } := by
  simp only [machine, Option.map_eq_some_iff, Prod.exists]
  exact exists_congr fun s => exists_congr fun t => and_congr_right fun _ => eq_comm

theorem step_env_iff {p p' : Pool ι σ τ} {e : ε} :
    S.machine.step p (.env e) = some p' ↔
      ∃ s, S.env e p.shared = some s ∧ p' = { p with shared := s } := by
  simp only [machine, Option.map_eq_some_iff]
  exact exists_congr fun s => and_congr_right fun _ => eq_comm

/-- The acts a task performs in a row, undisturbed. -/
inductive Alone (S : Tasks σ τ ℓ ε) : List ℓ → σ → τ → σ → τ → Prop where
  | nil {s : σ} {t : τ} : Alone S [] s t s t
  | cons {l : ℓ} {ls : List ℓ} {s s' s'' : σ} {t t' t'' : τ} : S.act l s t = some (s', t') →
      Alone S ls s' t' s'' t'' → Alone S (l :: ls) s t s'' t''

theorem Alone.append {ls ls' : List ℓ} {s s' s'' : σ} {t t' t'' : τ} (h : S.Alone ls s t s' t')
    (h' : S.Alone ls' s' t' s'' t'') : S.Alone (ls ++ ls') s t s'' t'' := by
  induction h with
  | nil => exact h'
  | cons hact _ ih => exact .cons hact (ih h')

/-- They are a run of the pool, in which no other task moves. -/
theorem Alone.reaches {ok : Pool ι σ τ → Move ι ℓ ε → Prop} {ls : List ℓ} {s' : σ} {t t' : τ}
    {p : Pool ι σ τ} {i : ι} (h : S.Alone ls p.shared t s' t') (hi : p.tasks i = t)
    (hok : ∀ l ∈ ls, ∀ p, ok p (.task i l)) :
    S.machine.Reaches ok p { shared := s', tasks := Function.update p.tasks i t' } := by
  generalize hs : p.shared = s at h
  induction h generalizing p with
  | nil =>
    subst hs hi
    rw [Function.update_eq_self]
    exact .refl
  | @cons l ls s s' s'' t t' t'' hact _ ih =>
    subst hs hi
    let p' : Pool ι σ τ := { shared := s', tasks := Function.update p.tasks i t' }
    have hstep : S.machine.step p (.task i l) = some p' := step_task_iff.mpr ⟨s', t', hact, rfl⟩
    have hi' : p'.tasks i = t' := Function.update_self ..
    have hrest := ih hi' (fun l hl => hok l (List.mem_cons_of_mem _ hl)) rfl
    simp only [p', Function.update_idem] at hrest
    exact .head (hok l List.mem_cons_self p) hstep hrest

/-- Restrictions on the acts of the tasks and of the surroundings, by what each of
    them sees. -/
structure Guard (σ τ ℓ ε : Type) where
  act : ℓ → σ → τ → Prop
  env : ε → σ → Prop

def Guard.any : Guard σ τ ℓ ε where
  act := fun _ _ _ => True
  env := fun _ _ => True

/-- A guard, read as a restriction on the moves of a pool. -/
def Guard.ok (g : Guard σ τ ℓ ε) (p : Pool ι σ τ) : Move ι ℓ ε → Prop
  | .task i l => g.act l p.shared (p.tasks i)
  | .env e => g.env e p.shared

/-- An invariant of a pool: an assertion on the shared state, and one on the local
    state of each task. -/
structure Inv (ι σ τ : Type) where
  shared : σ → Prop
  task : ι → σ → τ → Prop

def Inv.holds (I : Inv ι σ τ) (p : Pool ι σ τ) : Prop :=
  I.shared p.shared ∧ ∀ i, I.task i p.shared (p.tasks i)

/-- The acts and the surroundings keep the assertion on the shared state; an act
    keeps the assertion of its own task; and neither disturbs the assertion of any
    other task. -/
structure Inv.Kept (I : Inv ι σ τ) (S : Tasks σ τ ℓ ε) (g : Guard σ τ ℓ ε) : Prop where
  act : ∀ {i l s t s' t'}, g.act l s t → I.shared s → I.task i s t → S.act l s t = some (s', t') →
    I.shared s' ∧ I.task i s' t'
  act_stable : ∀ {i j l s t s' t' u}, j ≠ i → g.act l s t → I.shared s → I.task i s t →
    I.task j s u → S.act l s t = some (s', t') → I.task j s' u
  env : ∀ {e s s'}, g.env e s → I.shared s → S.env e s = some s' → I.shared s'
  env_stable : ∀ {j e s s' u}, g.env e s → I.shared s → I.task j s u → S.env e s = some s' →
    I.task j s' u

/-- A kept invariant holds in every state a run reaches. -/
theorem Inv.Kept.reaches {I : Inv ι σ τ} {g : Guard σ τ ℓ ε} (hI : I.Kept S g) {p p' : Pool ι σ τ}
    (h : S.machine.Reaches g.ok p p') (hinit : I.holds p) : I.holds p' := by
  refine h.invariant hinit fun p move p' hp hok hstep => ?_
  obtain ⟨hshared, htasks⟩ := hp
  cases move with
  | task i l =>
    obtain ⟨s, t, hact, rfl⟩ := step_task_iff.mp hstep
    obtain ⟨hs, ht⟩ := hI.act hok hshared (htasks i) hact
    refine ⟨hs, fun j => ?_⟩
    by_cases hj : j = i
    · subst hj; simpa using ht
    · simpa [hj] using hI.act_stable hj hok hshared (htasks i) (htasks j) hact
  | env e =>
    obtain ⟨s, henv, rfl⟩ := step_env_iff.mp hstep
    exact ⟨hI.env hok hshared henv, fun j => hI.env_stable hok hshared (htasks j) henv⟩

/-- One that every move keeps holds in every state an unrestricted run reaches. -/
theorem Inv.Kept.reaches_any {I : Inv ι σ τ} (hI : I.Kept S .any) {p p' : Pool ι σ τ}
    (h : S.machine.Reaches Machine.anyMove p p') (hinit : I.holds p) : I.holds p' := by
  refine hI.reaches (h.mono fun p move _ => ?_) hinit
  cases move <;> exact trivial

end Tasks

/-! ## Pools of two tasks -/

/-- One of the tasks 1 and 2. -/
inductive Pool.Side where
  | first
  | second

def Pool.Side.index : Pool.Side → Nat
  | .first => 1
  | .second => 2

section

variable {σ τ ℓ ε : Type}

/-- The local states of tasks 1 and 2, by the one that moves and the other one. -/
def Pool.Side.pair (side : Pool.Side) (moving other : τ) : τ × τ :=
  match side with
  | .first => (moving, other)
  | .second => (other, moving)

/-- Tasks 1 and 2, among others that rest. -/
def Pool.two (rest : τ) (shared : σ) (pair : τ × τ) : Pool Nat σ τ where
  shared := shared
  tasks := fun i => if i = 1 then pair.1 else if i = 2 then pair.2 else rest

theorem Pool.two_tasks (rest : τ) (shared : σ) (side : Pool.Side) (moving other : τ) :
    (Pool.two rest shared (side.pair moving other)).tasks side.index = moving := by
  cases side <;> rfl

theorem Pool.two_others (rest : τ) (shared : σ) (side : Pool.Side) (moving other : τ) {j : Nat}
    (hj : j ≠ side.index) :
    (Pool.two rest shared (side.pair moving other)).tasks j = other ∨
      (Pool.two rest shared (side.pair moving other)).tasks j = rest := by
  cases side with
  | first =>
    simp only [Pool.two, Pool.Side.pair, if_neg (show j ≠ 1 from hj)]
    exact ite_eq_or_eq ..
  | second =>
    simp only [Pool.two, Pool.Side.pair, if_neg (show j ≠ 2 from hj)]
    exact ite_eq_or_eq ..

theorem Pool.two_rest (rest : τ) (shared : σ) :
    Pool.two rest shared (rest, rest) = { shared, tasks := fun _ => rest } := by
  simp only [Pool.two, ite_self]

/-- Either of them takes a step. -/
theorem Pool.update_two (rest : τ) (shared : σ) (side : Pool.Side) (moving other next : τ) :
    Function.update (Pool.two rest shared (side.pair moving other)).tasks side.index next =
      (Pool.two rest shared (side.pair next other)).tasks := by
  funext i
  by_cases hi : i = side.index
  · subst hi
    rw [Function.update_self, Pool.two_tasks]
  · rw [Function.update_of_ne hi]
    cases side with
    | first => simp only [Pool.two, Pool.Side.pair, if_neg (show i ≠ 1 from hi)]
    | second => simp only [Pool.two, Pool.Side.pair, if_neg (show i ≠ 2 from hi)]

namespace Tasks

variable {S : Tasks σ τ ℓ ε} {rest moving other next : τ} {s s' : σ} {l : ℓ}

theorem step_two (side : Pool.Side) (h : S.act l s moving = some (s', next)) :
    S.machine.step (.two rest s (side.pair moving other)) (.task side.index l) =
      some (.two rest s' (side.pair next other)) := by
  refine step_task_iff.mpr ⟨s', next, ?_, ?_⟩
  · rw [Pool.two_tasks]
    exact h
  · rw [Pool.update_two]
    rfl

/-- Either of them takes the first step of a run. -/
theorem reaches_two {g : Guard σ τ ℓ ε} {q : Pool Nat σ τ} (side : Pool.Side)
    (h : S.act l s moving = some (s', next)) (hok : g.act l s moving)
    (hrest : S.machine.Reaches g.ok (.two rest s' (side.pair next other)) q) :
    S.machine.Reaches g.ok (.two rest s (side.pair moving other)) q := by
  refine .head ?_ (step_two side h) hrest
  change g.act l s ((Pool.two rest s (side.pair moving other)).tasks side.index)
  rw [Pool.two_tasks]
  exact hok

end Tasks

end
