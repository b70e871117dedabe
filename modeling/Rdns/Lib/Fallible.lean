import Mathlib.Order.Defs.Unbundled

/-!
# Rdns.Lib — Computations that may fail

A computation over a state, which may fail, and which leaves the state changed whether it
fails or not. `Meets R P m Q` specifies one: from a state where `P` holds it moves the state
along `R`, and where it comes to a result, `Q` holds of the result and of the state it leaves.
There is a rule for each way to build a computation.
-/

namespace Rdns.Lib

abbrev Fallible (ε σ : Type) := ExceptT ε (StateM σ)

variable {ε σ α β : Type}

/-! ## What a computation comes to -/

namespace Fallible

def out (m : Fallible ε σ α) (s : σ) : Except ε α × σ := (ExceptT.run m).run s

@[simp] theorem out_get (s : σ) : out (get : Fallible ε σ σ) s = (.ok s, s) := rfl

theorem out_bind (m : Fallible ε σ α) (f : α → Fallible ε σ β) (s : σ) :
    out (m >>= f) s =
      match out m s with
      | (.ok a, t) => out (f a) t
      | (.error e, t) => (.error e, t) := by
  show (ExceptT.bindCont f (out m s).1).run (out m s).2 = _
  cases out m s with
  | mk result t => cases result <;> rfl

theorem of_bind {m : Fallible ε σ α} {f : α → Fallible ε σ β} {s u : σ} {b : β}
    (h : out (m >>= f) s = (.ok b, u)) : ∃ a t, out m s = (.ok a, t) ∧ out (f a) t = (.ok b, u) := by
  rw [out_bind] at h
  split at h
  · rename_i a t hm
    exact ⟨a, t, hm, h⟩
  · cases h

theorem out_tryCatch (m : Fallible ε σ α) (handle : ε → Fallible ε σ α) (s : σ) :
    out (tryCatch m handle) s =
      match out m s with
      | (.ok a, t) => (.ok a, t)
      | (.error e, t) => out (handle e) t := by
  show (match (out m s).1 with
    | .ok a => (Pure.pure (.ok a) : StateM σ (Except ε α))
    | .error e => ExceptT.run (handle e)).run (out m s).2 = _
  cases out m s with
  | mk result t => cases result <;> rfl

theorem out_observing (m : Fallible ε σ α) (s : σ) : out (observing m) s = (.ok (out m s).1, (out m s).2) := by
  rw [observing, out_tryCatch, out_bind]
  cases out m s with
  | mk result t => cases result <;> rfl

def onlyIf (condition : Bool) (m : Fallible ε σ Unit) : Fallible ε σ Unit := if condition then m else pure ()

end Fallible

/-! ## Specifications -/

/-- From a state where `P` holds, `m` moves the state along `R`, and `Q` holds of what it comes
to. -/
structure Meets (R : σ → σ → Prop) (P : σ → Prop) (m : Fallible ε σ α) (Q : α → σ → Prop) : Prop where
  moves : ∀ s, P s → R s (m.out s).2
  result : ∀ s a, P s → (m.out s).1 = .ok a → Q a (m.out s).2

def Stable (R : σ → σ → Prop) (P : σ → Prop) : Prop := ∀ s t, R s t → P s → P t

namespace Meets

variable {R : σ → σ → Prop} {P P' : σ → Prop} {Q Q' : α → σ → Prop}

variable {m : Fallible ε σ α}

theorem weaken (h : Meets R P m Q) (hpre : ∀ s, P' s → P s) (hpost : ∀ a s, Q a s → Q' a s) :
    Meets R P' m Q' where
  moves := fun s hs => h.moves s (hpre s hs)
  result := fun s a hs ha => hpost a _ (h.result s a (hpre s hs) ha)

theorem keeping (h : Meets R P m Q) (hstable : Stable R P') :
    Meets R (fun s => P s ∧ P' s) m fun a s => Q a s ∧ P' s where
  moves := fun s hs => h.moves s hs.1
  result := fun s a hs ha => ⟨h.result s a hs.1 ha, hstable s _ (h.moves s hs.1) hs.2⟩

section Preorder

variable [IsPreorder σ R]

theorem pure {a : α} (h : ∀ s, P s → Q a s) : Meets R P (Pure.pure a : Fallible ε σ α) Q where
  moves := fun s _ => refl s
  result := fun s b hs hb => by
    cases hb
    exact h s hs

theorem throw {e : ε} : Meets R P (MonadExcept.throw e : Fallible ε σ α) Q where
  moves := fun s _ => refl s
  result := fun _ _ _ hb => (by cases hb)

theorem get {Q : σ → σ → Prop} (h : ∀ s, P s → Q s s) :
    Meets R P (MonadState.get : Fallible ε σ σ) Q where
  moves := fun s _ => refl s
  result := fun s t hs ht => by
    cases ht
    exact h s hs

theorem bind {Q' : β → σ → Prop} {f : α → Fallible ε σ β} (hm : Meets R P m Q)
    (hf : ∀ a, Meets R (Q a) (f a) Q') : Meets R P (m >>= f) Q' where
  moves := fun s hs => by
    have hmoves := hm.moves s hs
    have hresult := hm.result s
    rw [Fallible.out_bind]
    cases hout : m.out s with
    | mk result t =>
      rw [hout] at hmoves hresult
      cases result with
      | error e => exact hmoves
      | ok a => exact IsTrans.trans _ _ _ hmoves ((hf a).moves t (hresult a hs rfl))
  result := fun s b hs hb => by
    have hresult := hm.result s
    rw [Fallible.out_bind] at hb ⊢
    cases hout : m.out s with
    | mk result t =>
      rw [hout] at hb hresult
      cases result with
      | error e => cases hb
      | ok a => exact (hf a).result t b (hresult a hs rfl) hb

theorem onlyIf {condition : Bool} {m : Fallible ε σ Unit} {Q : Unit → σ → Prop}
    (h : condition = true → Meets R P m Q) (hskip : condition = false → ∀ s, P s → Q () s) :
    Meets R P (Fallible.onlyIf condition m) Q := by
  cases condition with
  | true => exact h rfl
  | false => exact .pure (hskip rfl)

end Preorder

theorem watched (h : Meets R P m Q) (hstable : Stable R P) :
    Meets R P (observing m) fun result s => P s ∧ ∀ a, result = .ok a → Q a s where
  moves := fun s hs => by
    rw [Fallible.out_observing]
    exact h.moves s hs
  result := fun s result hs hresult => by
    rw [Fallible.out_observing] at hresult ⊢
    cases hresult
    exact ⟨hstable s _ (h.moves s hs) hs, fun a ha => h.result s a hs ha⟩

end Meets

end Rdns.Lib
