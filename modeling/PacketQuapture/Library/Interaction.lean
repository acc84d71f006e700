import PacketQuapture.Library.Outcome

/-! Programs that put commands to their surroundings.
What a program does is told apart from who serves it: a handler answers each command from a state
of its own, or raises. What holds of every command's step then holds of every program's run.
-/

namespace PacketQuapture.Library

/-- A program that ends with a result, or puts a command and goes on with the answer. -/
inductive Interaction (Command : Type) (Answer : Command → Type) (α : Type) : Type
  | done (result : α)
  | ask (command : Command) (next : Answer command → Interaction Command Answer α)

namespace Interaction

variable {Command : Type} {Answer : Command → Type} {α β : Type}

def bind (program : Interaction Command Answer α) (next : α → Interaction Command Answer β)
    : Interaction Command Answer β :=
  match program with
  | done result => next result
  | ask command follow => ask command fun answer => (follow answer).bind next

instance : Monad (Interaction Command Answer) where
  pure := done
  bind := bind

/-- The program that passes the answer to one command on. -/
def request (command : Command) : Interaction Command Answer (Answer command) :=
  ask command done

/-- Answers a command from a state, or raises. -/
abbrev Handler (Answer : Command → Type) (σ ε : Type) : Type :=
  (command : Command) → σ → Except ε (σ × Answer command)

variable {σ ε : Type}

def run (handler : Handler Answer σ ε)
    : Interaction Command Answer α → σ → Except ε (σ × α)
  | done result, state => .ok (state, result)
  | ask command next, state => do
    let answered ← handler command state
    (next answered.2).run handler answered.1

variable {handler : Handler Answer σ ε} {state : σ}

theorem run_request (command : Command)
    : run handler (request command) state = handler command state := by
  rw [request, run]
  cases handler command state with
  | ok answered => rfl
  | error failure => rfl

theorem run_bind (program : Interaction Command Answer α)
    (next : α → Interaction Command Answer β) (state : σ)
    : run handler (program >>= next) state
      = run handler program state >>= fun first => run handler (next first.2) first.1 := by
  induction program generalizing state with
  | done result => rfl
  | ask command follow ih =>
    show (handler command state >>= fun answered =>
      run handler ((follow answered.2).bind next) answered.1) = _
    rw [run]
    cases handler command state with
    | ok answered => exact ih answered.2 answered.1
    | error failure => rfl

/-! ### From one command to a whole run -/

theorem run_keeps {kept : σ → Prop} {raised : ε → Prop}
    (step : ∀ command state, kept state →
      Ensures (handler command state) (fun answered => kept answered.1) raised)
    (program : Interaction Command Answer α) (state : σ) (holds : kept state)
    : Ensures (run handler program state) (fun result => kept result.1) raised := by
  induction program generalizing state with
  | done result => exact .ok holds
  | ask command next ih =>
    exact (step command state holds).bind fun answered kept => ih answered.2 answered.1 kept

end Interaction

end PacketQuapture.Library
