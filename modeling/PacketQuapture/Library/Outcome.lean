import Mathlib

/-! Postconditions of computations that may raise.
A computation either returns a value or raises an error; `Ensures` bounds both at once, so a
caller composes the contracts of its steps without unfolding them.
-/

namespace PacketQuapture.Library

variable {ε α β : Type}
variable {condition : Prop} {failure : ε} {value : α} {next : α → Except ε β}

/-- `outcome` returns a value in `post` or raises an error in `raised`. -/
def Ensures (outcome : Except ε α) (post : α → Prop) (raised : ε → Prop) : Prop :=
  match outcome with
  | .ok value => post value
  | .error failure => raised failure

/-- Raises `failure` unless `condition` holds. -/
def require (condition : Prop) [Decidable condition] (failure : ε) : Except ε Unit :=
  if condition then .ok () else .error failure

theorem ok_bind (value : α) (next : α → Except ε β) : (Except.ok value >>= next) = next value :=
  rfl

theorem require_eq_ok [Decidable condition] (failure : ε) (holds : condition)
    : require condition failure = .ok () :=
  if_pos holds

theorem of_require [Decidable condition] {value : Unit}
    (returned : require condition failure = .ok value)
    : condition := by
  unfold require at returned
  split at returned
  case isTrue holds => exact holds
  case isFalse => cases returned

namespace Ensures

variable {outcome : Except ε α} {post : α → Prop} {raised : ε → Prop}

theorem ok (holds : post value) : Ensures (.ok value) post raised := holds

theorem pure (holds : post value)
    : Ensures (Pure.pure value : Except ε α) post raised := holds

theorem error (holds : raised failure)
    : Ensures (.error failure : Except ε α) post raised := holds

theorem mono {weaker : α → Prop} {wider : ε → Prop} (ensured : Ensures outcome post raised)
    (returned : ∀ value, post value → weaker value)
    (thrown : ∀ failure, raised failure → wider failure)
    : Ensures outcome weaker wider := by
  cases outcome with
  | ok value => exact returned value ensured
  | error failure => exact thrown failure ensured

theorem trivial (outcome : Except ε α) : Ensures outcome (fun _ => True) fun _ => True := by
  cases outcome with
  | ok => exact True.intro
  | error => exact True.intro

theorem bind {final : β → Prop} (first : Ensures outcome post raised)
    (second : ∀ value, post value → Ensures (next value) final raised)
    : Ensures (outcome >>= next) final raised := by
  cases outcome with
  | ok value => exact second value first
  | error failure => exact first

theorem require_bind [Decidable condition] {next : Unit → Except ε β} {final : β → Prop}
    (holds : condition) (second : Ensures (next ()) final raised)
    : Ensures (require condition failure >>= next) final raised := by
  rw [require, if_pos holds]
  exact second

theorem check [Decidable condition] (thrown : raised failure)
    : Ensures (require condition failure) (fun _ => condition) raised := by
  unfold require
  split
  case isTrue holds => exact holds
  case isFalse => exact thrown

theorem ite [Decidable condition] {other : Except ε α}
    (holds : condition → Ensures outcome post raised)
    (fails : ¬ condition → Ensures other post raised)
    : Ensures (if condition then outcome else other) post raised := by
  split
  case isTrue yes => exact holds yes
  case isFalse no => exact fails no

theorem returned (ensured : Ensures outcome post raised)
    : Ensures outcome (fun value => outcome = .ok value ∧ post value) raised := by
  cases outcome with
  | ok value => exact ⟨rfl, ensured⟩
  | error failure => exact ensured

theorem returns (ensured : Ensures outcome post fun _ => False)
    : ∃ value, outcome = .ok value ∧ post value := by
  cases outcome with
  | ok value => exact ⟨value, rfl, ensured⟩
  | error failure => exact ensured.elim

theorem of_eq_ok (returned : outcome = .ok value) (ensured : Ensures outcome post raised)
    : post value := by
  subst returned
  exact ensured

end Ensures

theorem bind_eq_ok {outcome : Except ε α} {result : β}
    : (outcome >>= next) = .ok result ↔ ∃ value, outcome = .ok value ∧ next value = .ok result := by
  cases outcome with
  | ok value =>
    constructor
    · intro returned
      exact ⟨value, rfl, returned⟩
    · rintro ⟨_, ⟨⟩, returned⟩
      exact returned
  | error failure =>
    constructor
    · intro returned
      cases returned
    · rintro ⟨_, impossible, _⟩
      cases impossible

theorem eq_ok_of_toOption {outcome : Except ε α} (returned : outcome.toOption = some value)
    : outcome = .ok value := by
  cases outcome with
  | ok result => exact congrArg Except.ok (Option.some.inj returned)
  | error failure => cases returned

/-- Two computations return related values, or raise the same error. -/
inductive Alike {γ : Type} (related : α → γ → Prop) : Except ε α → Except ε γ → Prop
  | ok {left : α} {right : γ} (holds : related left right)
    : Alike related (.ok left) (.ok right)
  | error (failure : ε) : Alike related (.error failure) (.error failure)

namespace Alike

variable {γ δ : Type} {related : α → γ → Prop} {left : Except ε α} {right : Except ε γ}

theorem pure {other : γ} (holds : related value other)
    : Alike related (Pure.pure value : Except ε α) (Pure.pure other : Except ε γ) :=
  .ok holds

theorem refl (outcome : Except ε α) : Alike Eq outcome outcome := by
  cases outcome with
  | ok value => exact .ok rfl
  | error failure => exact .error failure

theorem mono {weaker : α → γ → Prop} (alike : Alike related left right)
    (returned : ∀ value other, related value other → weaker value other)
    : Alike weaker left right := by
  cases alike with
  | ok holds => exact .ok (returned _ _ holds)
  | error failure => exact .error failure

theorem bind {final : β → δ → Prop} {follow : γ → Except ε δ} (first : Alike related left right)
    (second : ∀ value other, related value other → Alike final (next value) (follow other))
    : Alike final (left >>= next) (right >>= follow) := by
  cases first with
  | ok holds => exact second _ _ holds
  | error failure => exact .error failure

theorem require_bind {other : Prop} [Decidable condition] [Decidable other] {final : β → δ → Prop}
    {next : Unit → Except ε β} {follow : Unit → Except ε δ} (same : condition ↔ other)
    (second : Alike final (next ()) (follow ()))
    : Alike final (require condition failure >>= next) (require other failure >>= follow) := by
  by_cases holds : condition
  · rw [require_eq_ok failure holds, require_eq_ok failure (same.mp holds)]
    exact second
  · rw [require, require, if_neg holds, if_neg (fun met => holds (same.mpr met))]
    exact .error failure

theorem ite {other : Prop} [Decidable condition] [Decidable other] {first : Except ε α}
    {second : Except ε γ} (same : condition ↔ other)
    (holds : condition → Alike related first second)
    (fails : ¬ condition → Alike related left right)
    : Alike related (if condition then first else left) (if other then second else right) := by
  by_cases met : condition
  · rw [if_pos met, if_pos (same.mp met)]
    exact holds met
  · rw [if_neg met, if_neg (fun taken => met (same.mpr taken))]
    exact fails met

theorem map_eq {observed : Type} {read : α → observed} {view : γ → observed}
    (alike : Alike related left right)
    (agree : ∀ value other, related value other → read value = view other)
    : left.map read = right.map view := by
  cases alike with
  | ok holds => exact congrArg Except.ok (agree _ _ holds)
  | error failure => rfl

end Alike

/-- Whatever `outcome` returns, `other` returns as `view` shows it. -/
def Carries {γ : Type} (view : α → γ) (outcome : Except ε α) (other : Except ε γ) : Prop :=
  ∀ value, outcome = .ok value → other = .ok (view value)

namespace Carries

variable {γ δ : Type} {view : α → γ} {outcome : Except ε α} {other : Except ε γ}

theorem ok (view : α → γ) (value : α)
    : Carries view (.ok value : Except ε α) (.ok (view value)) := by
  rintro _ ⟨⟩
  rfl

theorem error (failure : ε) : Carries view (.error failure) other := by
  rintro _ ⟨⟩

theorem refl (outcome : Except ε α) : Carries id outcome outcome :=
  fun _ returned => returned

theorem bind {follow : γ → Except ε δ} {final : β → δ} (first : Carries view outcome other)
    (second : ∀ value, Carries final (next value) (follow (view value)))
    : Carries final (outcome >>= next) (other >>= follow) := by
  intro result returned
  obtain ⟨value, reached, ended⟩ := bind_eq_ok.mp returned
  rw [first value reached, ok_bind]
  exact second value result ended

theorem guard {weaker : Prop} [Decidable condition] [Decidable weaker] {failed : ε}
    (fails : weaker → condition) (rest : ¬ condition → Carries view outcome other)
    : Carries view (if condition then .error failure else outcome)
        (if weaker then .error failed else other) := by
  by_cases met : condition
  · rw [if_pos met]
    exact error failure
  · rw [if_neg met, if_neg (fun holds => met (fails holds))]
    exact rest met

theorem ite [Decidable condition] {first : Except ε α} {second : Except ε γ}
    (holds : condition → Carries view first second)
    (fails : ¬ condition → Carries view outcome other)
    : Carries view (if condition then first else outcome)
        (if condition then second else other) := by
  by_cases met : condition
  · rw [if_pos met, if_pos met]
    exact holds met
  · rw [if_neg met, if_neg met]
    exact fails met

end Carries

end PacketQuapture.Library
