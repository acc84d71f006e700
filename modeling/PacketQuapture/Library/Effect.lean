import Mathlib

/-! Programs that change a state and may raise, and what they lead to.
What a program has changed before it raises stays changed, so a contract says of both endings what
the state is.
-/

namespace PacketQuapture.Library

/-- A program over a state `σ` that may raise an error `ε`. -/
abbrev Effect (σ ε α : Type) : Type := ExceptT ε (StateM σ) α

namespace Effect

variable {σ ε α β : Type}

/-- How a program ends from a state. -/
def outcome (program : Effect σ ε α) (before : σ) : Except ε α × σ :=
  program.run.run before

/-- From `before` the program returns with `post` or raises with `raised`. -/
def Leads (program : Effect σ ε α) (before : σ) (post : α → σ → Prop) (raised : ε → σ → Prop)
    : Prop :=
  match (program.outcome before).1 with
  | .ok value => post value (program.outcome before).2
  | .error failure => raised failure (program.outcome before).2

namespace Leads

variable {program : Effect σ ε α} {before : σ} {post : α → σ → Prop} {raised : ε → σ → Prop}

theorem pure {value : α} (holds : post value before)
    : Leads (Pure.pure value) before post raised := holds

theorem throw {failure : ε} (holds : raised failure before)
    : Leads (MonadExcept.throw failure) before post raised := holds

/-- Looking at the state goes on with it. -/
theorem get_bind {next : σ → Effect σ ε α} (rest : Leads (next before) before post raised)
    : Leads (MonadState.get >>= next) before post raised := rest

theorem lift {result : Except ε α}
    (thrown : ∀ failure, result = .error failure → raised failure before)
    : Leads (liftExcept result) before (fun value after => result = .ok value ∧ after = before)
        raised := by
  cases result with
  | ok value => exact ⟨rfl, rfl⟩
  | error failure => exact thrown failure rfl

theorem modify {change : σ → σ} {post : Unit → σ → Prop} (holds : post () (change before))
    : Leads (modify change : Effect σ ε Unit) before post raised := holds

theorem modify_bind {change : σ → σ} {next : Unit → Effect σ ε α}
    (rest : Leads (next ()) (change before) post raised)
    : Leads (MonadState.modifyGet (fun state => ((), change state)) >>= next) before post raised :=
  rest

theorem bind {next : α → Effect σ ε β} {final : β → σ → Prop}
    (first : Leads program before post raised)
    (second : ∀ value after, post value after → Leads (next value) after final raised)
    : Leads (program >>= next) before final raised := by
  have goes : (program >>= next).outcome before
      = ExceptT.bindCont next (program.outcome before).1 (program.outcome before).2 := rfl
  unfold Leads at first ⊢
  rw [goes]
  cases ended : (program.outcome before).1 with
  | ok value =>
    rw [ended] at first
    exact second value _ first
  | error failure =>
    rw [ended] at first
    exact first

theorem tryCatch {handle : ε → Effect σ ε α} {middle : ε → σ → Prop}
    (first : Leads program before post middle)
    (second : ∀ failure after, middle failure after → Leads (handle failure) after post raised)
    : Leads (MonadExcept.tryCatch program handle) before post raised := by
  have goes : outcome (MonadExcept.tryCatch program handle) before
      = match (program.outcome before).1 with
        | .ok value => (.ok value, (program.outcome before).2)
        | .error failure => (handle failure).outcome (program.outcome before).2 := by
    change (match (program.outcome before).1 with
      | .ok value => Pure.pure (.ok value)
      | .error failure => (handle failure).run : StateM σ (Except ε α)) (program.outcome before).2 = _
    cases (program.outcome before).1 with
    | ok value => rfl
    | error failure => rfl
  unfold Leads at first ⊢
  rw [goes]
  cases ended : (program.outcome before).1 with
  | ok value =>
    rw [ended] at first
    exact first
  | error failure =>
    rw [ended] at first
    exact second failure _ first

theorem ite {condition : Prop} [Decidable condition] {other : Effect σ ε α}
    (holds : condition → Leads program before post raised)
    (fails : ¬ condition → Leads other before post raised)
    : Leads (if condition then program else other) before post raised := by
  split
  case isTrue yes => exact holds yes
  case isFalse no => exact fails no

theorem mono {weaker : α → σ → Prop} {wider : ε → σ → Prop}
    (leads : Leads program before post raised)
    (returned : ∀ value after, post value after → weaker value after)
    (thrown : ∀ failure after, raised failure after → wider failure after)
    : Leads program before weaker wider := by
  unfold Leads at leads ⊢
  cases ended : (program.outcome before).1 with
  | ok value =>
    rw [ended] at leads
    exact returned value _ leads
  | error failure =>
    rw [ended] at leads
    exact thrown failure _ leads

theorem of_returned {value : α} {after : σ} (leads : Leads program before post raised)
    (ended : program.outcome before = (.ok value, after))
    : post value after := by
  rwa [Leads, ended] at leads

theorem of_raised {failure : ε} {after : σ} (leads : Leads program before post raised)
    (ended : program.outcome before = (.error failure, after))
    : raised failure after := by
  rwa [Leads, ended] at leads

theorem raises (leads : Leads program before (fun _ _ => False) raised)
    : ∃ failure after, program.outcome before = (.error failure, after) ∧ raised failure after := by
  rcases ended : program.outcome before with ⟨result, after⟩
  cases result with
  | ok value => exact (leads.of_returned ended).elim
  | error failure => exact ⟨failure, after, rfl, leads.of_raised ended⟩

end Leads

end Effect

end PacketQuapture.Library
