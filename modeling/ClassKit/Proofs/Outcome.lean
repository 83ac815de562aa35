import ClassKit.Code.Encode
import Mathlib

/-!
# What a computation can end with

Reading and writing classes run in small monads over `Except`: a pool under construction
(`PoolM`), a journal of log records (`LogExcept`), and both at once (`WriteM`). Whether such a
computation can fail, and how, is a statement about every run from every state:
`Meets allowed post action` says that each run either returns a value satisfying `post` or
fails with an error satisfying `allowed`.

The predicate is closed under `pure`, `bind`, `throw` and the loops the reader and the writer
use (`mapM` and `foldlM` over lists), so a statement about a whole writer is assembled from
statements about its parts. `PoolM` and `LogExcept` are both an `ExceptT` over a `StateM`, so
one predicate serves both; `StateMeets` lifts it through a state threaded over `LogExcept`, the
pool builder of a writer or the warnings of a patch run, and `Yields` is its counterpart for
computations that cannot fail.
-/

namespace ClassKit

section ExceptState

variable {ε σ α β : Type}

/-- Some run of `action` returns `value`. -/
def Returns (action : ExceptT ε (StateM σ) α) (value : α) : Prop :=
  ∃ state state', action.run.run state = (.ok value, state')

/-- Every run of `action`, from any state, returns a value satisfying `post` or fails with an
error satisfying `allowed`. -/
def Meets (allowed : ε → Prop) (post : α → Prop) (action : ExceptT ε (StateM σ) α) : Prop :=
  ∀ state, match (action.run.run state).1 with
    | .ok value => post value
    | .error err => allowed err

theorem run_run_bind (first : ExceptT ε (StateM σ) α) (rest : α → ExceptT ε (StateM σ) β)
    (state : σ) :
    (first >>= rest).run.run state = match first.run.run state with
      | (.ok value, after) => (rest value).run.run after
      | (.error err, after) => (.error err, after) := by
  simp only [ExceptT.run_bind, StateT.run_bind]
  rcases first.run.run state with ⟨result, after⟩
  rcases result with err | value <;> rfl

namespace Meets

variable {allowed allowed' : ε → Prop} {post post' : α → Prop}

theorem mono {action : ExceptT ε (StateM σ) α} (meets : Meets allowed post action)
    (widerErrors : ∀ err, allowed err → allowed' err) (widerValues : ∀ value, post value → post' value) :
    Meets allowed' post' action := by
  intro state
  have outcome := meets state
  split at outcome
  · exact widerValues _ outcome
  · exact widerErrors _ outcome

theorem pure {value : α} (holds : post value) : Meets allowed post (Pure.pure value : ExceptT ε (StateM σ) α) :=
  fun _ => holds

theorem throw {err : ε} (holds : allowed err) :
    Meets allowed post (MonadExcept.throw err : ExceptT ε (StateM σ) α) :=
  fun _ => holds

theorem bind {Q : α → Prop} {first : ExceptT ε (StateM σ) α}
    {rest : α → ExceptT ε (StateM σ) β} {post : β → Prop} (firstMeets : Meets allowed Q first)
    (restMeets : ∀ value, Q value → Meets allowed post (rest value)) :
    Meets allowed post (first >>= rest) := by
  intro state
  have outcome := firstMeets state
  rw [run_run_bind]
  revert outcome
  rcases first.run.run state with ⟨result, after⟩
  rcases result with err | value
  · exact id
  · exact fun holds => restMeets value holds after

theorem map {f : α → β} {action : ExceptT ε (StateM σ) α} {post : β → Prop}
    (meets : Meets allowed (fun value => post (f value)) action) :
    Meets allowed post (f <$> action) := by
  rw [← bind_pure_comp]
  exact meets.bind fun _ holds => pure holds

theorem ofExcept {result : Except ε α} (holds : match result with
      | .ok value => post value
      | .error err => allowed err) :
    Meets allowed post (MonadExcept.ofExcept result : ExceptT ε (StateM σ) α) := by
  cases result with
  | error err => exact throw holds
  | ok value => exact pure holds

theorem ofExcept_ok {result : Except ε α} {value : α} (found : result = .ok value)
    (holds : post value) : Meets allowed post (MonadExcept.ofExcept result : ExceptT ε (StateM σ) α) :=
  ofExcept (by rw [found]; exact holds)

/-- Every computation meets the statement that says nothing. -/
theorem unconstrained {action : ExceptT ε (StateM σ) α} :
    Meets (fun _ => True) (fun _ => True) action := by
  intro state
  split <;> exact True.intro

theorem liftExcept {result : Except ε α} (holds : match result with
      | .ok value => post value
      | .error err => allowed err) :
    Meets allowed post (ClassKit.liftExcept result : LogExcept ε α) :=
  fun _ => holds

theorem adapt {ε' : Type} {allowed' : ε' → Prop} {rename : ε → ε'} {action : ExceptT ε (StateM σ) α}
    (meets : Meets allowed post action) (renamed : ∀ err, allowed err → allowed' (rename err)) :
    Meets allowed' post (ExceptT.adapt rename action) := by
  intro state
  have outcome := meets state
  rw [ExceptT.run_adapt, StateT.run_map]
  revert outcome
  rcases action.run.run state with ⟨result, after⟩
  rcases result with err | value
  · exact renamed err
  · exact id

theorem lift {action : StateM σ α} (holds : ∀ state, post (action.run state).1) :
    Meets allowed post (ExceptT.lift action) := by
  intro state
  simp only [ExceptT.run_lift, StateT.run_map]
  exact holds state

theorem of_lift {action : StateM σ α} (holds : ∀ value, post value) :
    Meets allowed post (ExceptT.lift action) :=
  lift fun _ => holds _

theorem get : Meets allowed (fun _ => True) (MonadState.get : ExceptT ε (StateM σ) σ) :=
  fun _ => trivial

theorem set {state : σ} : Meets allowed (fun _ => True) (MonadStateOf.set state : ExceptT ε (StateM σ) PUnit) :=
  fun _ => trivial

theorem mapM {γ : Type} {f : γ → ExceptT ε (StateM σ) α} {R : γ → α → Prop} :
    ∀ {items : List γ}, (∀ item ∈ items, Meets allowed (R item) (f item)) →
      Meets allowed (List.Forall₂ R items) (items.mapM f)
  | [], _ => pure List.Forall₂.nil
  | item :: items, each => by
    rw [List.mapM_cons]
    refine (each item List.mem_cons_self).bind fun value first => ?_
    refine (mapM fun other member => each other (List.mem_cons_of_mem item member)).bind
      fun values rest => ?_
    exact pure (List.Forall₂.cons first rest)

theorem foldlM {γ : Type} {step : α → γ → ExceptT ε (StateM σ) α} {invariant : α → Prop} :
    ∀ {items : List γ} {init : α}, invariant init →
      (∀ acc, ∀ item ∈ items, invariant acc → Meets allowed invariant (step acc item)) →
      Meets allowed invariant (items.foldlM step init)
  | [], _, holds, _ => pure holds
  | item :: items, init, holds, steps => by
    rw [List.foldlM_cons]
    exact (steps init item List.mem_cons_self holds).bind fun acc kept =>
      foldlM kept fun acc other member => steps acc other (List.mem_cons_of_mem item member)

/-- Two statements about the values of one computation, met together. -/
theorem and {action : ExceptT ε (StateM σ) α} (meets : Meets allowed post action)
    (meets' : Meets allowed post' action) :
    Meets allowed (fun value => post value ∧ post' value) action := by
  intro state
  have first := meets state
  have second := meets' state
  generalize (action.run.run state).1 = result at first second ⊢
  cases result with
  | error err => exact first
  | ok value => exact ⟨first, second⟩

theorem returns {action : ExceptT ε (StateM σ) α} :
    Meets (fun _ => True) (Returns action) action := by
  intro state
  split
  · rename_i value ran
    exact ⟨state, _, Prod.ext ran rfl⟩
  · exact True.intro

end Meets

theorem forall₂_mem_right {γ : Type} {related : γ → α → Prop} {items : List γ} {values : List α}
    (paired : List.Forall₂ related items values) {value : α} (member : value ∈ values) :
    ∃ item ∈ items, related item value := by
  induction paired with
  | nil => cases member
  | @cons item value' items values head _ tail =>
    rcases List.mem_cons.mp member with rfl | later
    · exact ⟨item, List.mem_cons_self, head⟩
    · obtain ⟨other, otherMember, otherRelated⟩ := tail later
      exact ⟨other, List.mem_cons_of_mem item otherMember, otherRelated⟩

end ExceptState

/-! ## Computations that cannot fail -/

section State

variable {σ α β : Type}

/-- Every run of a computation that cannot fail, from any state, returns a value satisfying
`post`. -/
def Yields (post : α → Prop) (action : StateM σ α) : Prop :=
  ∀ state, post (action.run state).1

namespace Yields

variable {post : α → Prop}

theorem pure {value : α} (holds : post value) : Yields post (Pure.pure value : StateM σ α) :=
  fun _ => holds

theorem bind {Q : α → Prop} {first : StateM σ α} {rest : α → StateM σ β} {post : β → Prop}
    (firstYields : Yields Q first) (restYields : ∀ value, Q value → Yields post (rest value)) :
    Yields post (first >>= rest) := by
  intro state
  rw [StateT.run_bind]
  exact restYields _ (firstYields state) _

/-- Every computation yields what holds of every value, such as `True` of a change of state. -/
theorem always {action : StateM σ α} (holds : ∀ value, post value) : Yields post action :=
  fun _ => holds _

theorem after {first : StateM σ β} {rest : β → StateM σ α} (restYields : ∀ value, Yields post (rest value)) :
    Yields post (first >>= rest) :=
  Yields.bind (Q := fun _ => True) (always fun _ => trivial) fun value _ => restYields value

theorem mapM {γ : Type} {f : γ → StateM σ α} {R : γ → α → Prop} :
    ∀ {items : List γ}, (∀ item ∈ items, Yields (R item) (f item)) →
      Yields (List.Forall₂ R items) (items.mapM f)
  | [], _ => pure List.Forall₂.nil
  | item :: items, each => by
    rw [List.mapM_cons]
    refine (each item List.mem_cons_self).bind fun value first => ?_
    refine (mapM fun other member => each other (List.mem_cons_of_mem item member)).bind
      fun values rest => ?_
    exact pure (List.Forall₂.cons first rest)

end Yields

end State

/-! ## Threading a state through a computation that may fail -/

section Threaded

variable {σ ε α β : Type}

/-- Every run of a computation that threads a state `σ` through `LogExcept ε`, from any state
and journal, returns a value satisfying `post` or fails with an error satisfying `allowed`. -/
def StateMeets (allowed : ε → Prop) (post : α → Prop) (action : StateT σ (LogExcept ε) α) : Prop :=
  ∀ state, ClassKit.Meets allowed (fun result => post result.1) (action.run state)

namespace StateMeets

variable {allowed allowed' : ε → Prop} {post post' : α → Prop}

theorem mono {action : StateT σ (LogExcept ε) α} (meets : StateMeets allowed post action)
    (widerErrors : ∀ err, allowed err → allowed' err) (widerValues : ∀ value, post value → post' value) :
    StateMeets allowed' post' action :=
  fun state => (meets state).mono widerErrors fun _ holds => widerValues _ holds

theorem pure {value : α} (holds : post value) :
    StateMeets allowed post (Pure.pure value : StateT σ (LogExcept ε) α) :=
  fun _ => ClassKit.Meets.pure holds

theorem bind {Q : α → Prop} {first : StateT σ (LogExcept ε) α} {rest : α → StateT σ (LogExcept ε) β}
    {post : β → Prop} (firstMeets : StateMeets allowed Q first)
    (restMeets : ∀ value, Q value → StateMeets allowed post (rest value)) :
    StateMeets allowed post (first >>= rest) := by
  intro state
  rw [StateT.run_bind]
  exact (firstMeets state).bind fun result holds => restMeets result.1 holds result.2

theorem pure_bind {value : α} {rest : α → StateT σ (LogExcept ε) β} {post : β → Prop}
    (restMeets : StateMeets allowed post (rest value)) :
    StateMeets allowed post (Pure.pure value >>= rest) := by
  rw [LawfulMonad.pure_bind]
  exact restMeets

theorem map {f : α → β} {action : StateT σ (LogExcept ε) α} {post : β → Prop}
    (meets : StateMeets allowed (fun value => post (f value)) action) :
    StateMeets allowed post (f <$> action) := by
  rw [← bind_pure_comp]
  exact meets.bind fun _ holds => pure holds

theorem and {action : StateT σ (LogExcept ε) α} (meets : StateMeets allowed post action)
    (meets' : StateMeets allowed post' action) :
    StateMeets allowed (fun value => post value ∧ post' value) action :=
  fun state => (meets state).and (meets' state)

/-- Every computation meets the statement that says nothing. -/
theorem unconstrained {action : StateT σ (LogExcept ε) α} :
    StateMeets (fun _ => True) (fun _ => True) action :=
  fun _ => ClassKit.Meets.unconstrained.mono (fun _ => id) fun _ _ => trivial

/-- A step whose value is not looked at, before a computation that meets `post`. -/
theorem after {first : StateT σ (LogExcept ε) β} {rest : β → StateT σ (LogExcept ε) α}
    (restMeets : ∀ value, StateMeets (fun _ => True) post (rest value)) :
    StateMeets (fun _ => True) post (first >>= rest) :=
  unconstrained.bind fun value _ => restMeets value

theorem ofLog {action : LogM α} (yields : Yields post action) :
    StateMeets allowed post (liftM action : StateT σ (LogExcept ε) α) := by
  intro state
  show ClassKit.Meets allowed _ ((monadLift action : StateT σ (LogExcept ε) α).run state)
  rw [StateT.run_monadLift]
  exact (Meets.lift yields).bind fun _ holds => ClassKit.Meets.pure holds

theorem emit {level : Level} {target message : String} :
    StateMeets allowed (fun _ => True) (monadLift (ClassKit.emit level target message) :
      StateT σ (LogExcept ε) Unit) :=
  fun _ _ => trivial

theorem mapM {γ : Type} {f : γ → StateT σ (LogExcept ε) α} {R : γ → α → Prop} :
    ∀ {items : List γ}, (∀ item ∈ items, StateMeets allowed (R item) (f item)) →
      StateMeets allowed (List.Forall₂ R items) (items.mapM f)
  | [], _ => pure List.Forall₂.nil
  | item :: items, each => by
    rw [List.mapM_cons]
    refine (each item List.mem_cons_self).bind fun value first => ?_
    refine (mapM fun other member => each other (List.mem_cons_of_mem item member)).bind
      fun values rest => ?_
    exact pure (List.Forall₂.cons first rest)

theorem foldlM {γ : Type} {step : α → γ → StateT σ (LogExcept ε) α} {invariant : α → Prop} :
    ∀ {items : List γ} {init : α}, invariant init →
      (∀ acc, ∀ item ∈ items, invariant acc → StateMeets allowed invariant (step acc item)) →
      StateMeets allowed invariant (items.foldlM step init)
  | [], _, holds, _ => pure holds
  | item :: items, init, holds, steps => by
    rw [List.foldlM_cons]
    exact (steps init item List.mem_cons_self holds).bind fun acc kept =>
      foldlM kept fun acc other member => steps acc other (List.mem_cons_of_mem item member)

/-- A fold establishes a property of the items it has gone through, when each step extends it by
one more item. -/
theorem foldlM_through {γ : Type} {step : α → γ → StateT σ (LogExcept ε) α}
    (invariant : List γ → α → Prop)
    (steps : ∀ acc passed item, invariant passed acc →
      StateMeets allowed (invariant (passed ++ [item])) (step acc item)) :
    ∀ {passed items : List γ} {init : α}, invariant passed init →
      StateMeets allowed (invariant (passed ++ items)) (items.foldlM step init)
  | passed, [], _, holds => by
    rw [List.append_nil]
    exact pure holds
  | passed, item :: items, init, holds => by
    rw [List.foldlM_cons]
    refine (steps init passed item holds).bind fun acc kept => ?_
    rw [← List.singleton_append, ← List.append_assoc]
    exact foldlM_through invariant steps kept

end StateMeets

end Threaded

/-! ## Writing with a pool builder -/

namespace StateMeets

variable {α : Type} {allowed : ClassError → Prop} {post : α → Prop}

theorem fail {err : ClassError} (holds : allowed err) :
    StateMeets allowed post (WriteM.fail err : WriteM α) :=
  fun _ => ClassKit.Meets.throw holds

theorem pool {action : PoolM α} (meets : ClassKit.Meets allowed post action) :
    StateMeets allowed post (WriteM.pool action) := by
  intro builder
  have outcome := meets builder
  revert outcome
  dsimp only [StateT.run, WriteM.pool]
  rcases ExceptT.run action builder with ⟨result, after⟩
  rcases result with err | value
  · exact fun holds _ => holds
  · exact fun holds _ => holds

end StateMeets

end ClassKit
