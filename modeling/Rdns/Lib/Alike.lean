import Mathlib.Init

/-!
# Rdns.Lib — Computations that end alike

Two computations that may fail are alike when both fail, with whatever error, or both
succeed with results in a given relation. The rules follow the ways computations are
put together.
-/

namespace Rdns.Lib

variable {ε α β γ δ : Type}

/-- Both fail, or both succeed with results `R` relates. -/
inductive Alike (R : α → β → Prop) : Except ε α → Except ε β → Prop
  | ok {a : α} {b : β} (related : R a b) : Alike R (.ok a) (.ok b)
  | error {e e' : ε} : Alike R (.error e) (.error e')

namespace Alike

variable {R R' : α → β → Prop} {S : γ → δ → Prop} {x : Except ε α} {y : Except ε β}

theorem refl (x : Except ε α) : Alike (fun a b => a = b) x x := by
  cases x with
  | ok a => exact .ok rfl
  | error e => exact .error

theorem mono (h : Alike R x y) (himp : ∀ a b, R a b → R' a b) : Alike R' x y := by
  cases h with
  | ok related => exact .ok (himp _ _ related)
  | error => exact .error

theorem bind {f : α → Except ε γ} {g : β → Except ε δ} (h : Alike R x y)
    (hfg : ∀ a b, R a b → Alike S (f a) (g b)) : Alike S (x >>= f) (y >>= g) := by
  cases h with
  | ok related => exact hfg _ _ related
  | error => exact .error

theorem of_ok {a : α} (h : Alike R (.ok a) y) : ∃ b, y = .ok b ∧ R a b := by
  cases h with
  | ok related => exact ⟨_, rfl, related⟩

theorem bind_same {f : α → Except ε γ} {g : α → Except ε δ}
    (hfg : ∀ a, x = .ok a → Alike S (f a) (g a)) : Alike S (x >>= f) (x >>= g) := by
  cases x with
  | ok a => exact hfg a rfl
  | error e => exact .error

end Alike

end Rdns.Lib
