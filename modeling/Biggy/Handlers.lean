import Biggy.Commits

/-!
# Programs that handle their errors

`handle` runs a handler after the errors that are caught, and `inside` puts a part of the state back however a program
ends. `Within` bounds a program in all its endings, and `Settled` says besides that another program has the same endings.
-/
namespace Biggy
namespace Handlers

open Commits Prog

variable {σ ω ε : Type*}

/-- `try: p` with a handler for the errors that are caught. -/
def handle {α : Type*} (caught : ε → Bool) (p : Prog σ ω ε α) (handler : ε → Prog σ ω ε α) : Prog σ ω ε α := fun s =>
  match (p s).result with
  | .ok a => ⟨(p s).state,(p s).out,.ok a⟩
  | .error e =>
    if caught e then
      ⟨(handler e (p s).state).state,(p s).out++(handler e (p s).state).out,(handler e (p s).state).result⟩
    else ⟨(p s).state,(p s).out,.error e⟩

/-- Run a program in a changed state, and put back what it was however the program ends. -/
def inside {α : Type*} (enter : σ → σ) (leave : σ → σ → σ) (p : Prog σ ω ε α) : Prog σ ω ε α := fun s =>
  ⟨leave s (p (enter s)).state,(p (enter s)).out,(p (enter s)).result⟩

/-- From states with the property the program leads to such states, puts out only what is allowed, and stops only with
errors that are allowed. -/
structure Within (P : σ → Prop) (W : ω → Prop) (E : ε → Prop) {α : Type*} (p : Prog σ ω ε α) : Prop where
  state : ∀ s, P s → P (p s).state
  out : ∀ s, P s → ∀ w ∈ (p s).out, W w
  error : ∀ s, P s → ∀ e, (p s).result = .error e → E e

/-- The first program is bounded, and the second one has the same endings. -/
structure Settled (P : σ → Prop) (W : ω → Prop) (E : ε → Prop) {α : Type*} (p q : Prog σ ω ε α) : Prop where
  within : Within P W E p
  agree : ∀ s, P s → p s = q s

section Rules

universe u

variable {P Q : σ → Prop} {W : ω → Prop} {E : ε → Prop} {α β : Type u} {ι : Type*}

theorem within_pure (a : α) : Within P W E (pure a : Prog σ ω ε α) where
  state _ hs := hs
  out _ _ w hw := by cases hw
  error _ _ e he := by cases he

theorem within_emit {w : ω} (hw : W w) : Within P W E (emit w : Prog σ ω ε Unit) where
  state _ hs := hs
  out _ _ w' hw' := by
    rw [List.mem_singleton.mp hw']
    exact hw
  error _ _ e he := by cases he

theorem within_bind {p : Prog σ ω ε α} {f : α → Prog σ ω ε β} (hp : Within P W E p) (hf : ∀ a, Within P W E (f a)) :
    Within P W E (p >>= f) where
  state s hs := by
    cases h : (p s).result with
    | error e =>
      rw [bind_of_error h]
      exact hp.state s hs
    | ok a =>
      rw [bind_of_ok h]
      exact (hf a).state _ (hp.state s hs)
  out s hs w hw := by
    cases h : (p s).result with
    | error e =>
      rw [bind_of_error h] at hw
      exact hp.out s hs w hw
    | ok a =>
      rw [bind_of_ok h] at hw
      exact (List.mem_append.mp hw).elim (hp.out s hs w) ((hf a).out _ (hp.state s hs) w)
  error s hs e he := by
    cases h : (p s).result with
    | error e' =>
      rw [bind_of_error h] at he
      obtain rfl : e' = e := Except.error.inj he
      exact hp.error s hs e' h
    | ok a =>
      rw [bind_of_ok h] at he
      exact (hf a).error _ (hp.state s hs) e he

theorem within_withState {f : σ → Prog σ ω ε α} (hf : ∀ s, P s → Within P W E (f s)) : Within P W E (withState f) where
  state s hs := (hf s hs).state s hs
  out s hs := (hf s hs).out s hs
  error s hs := (hf s hs).error s hs

theorem within_handle {caught : ε → Bool} {p : Prog σ ω ε α} {handler : ε → Prog σ ω ε α} (hp : Within P W E p)
    (hhandler : ∀ e, Within P W E (handler e)) : Within P W E (handle caught p handler) where
  state s hs := by
    simp only [handle]
    split
    · exact hp.state s hs
    · split
      · exact (hhandler _).state _ (hp.state s hs)
      · exact hp.state s hs
  out s hs w hw := by
    simp only [handle] at hw
    split at hw
    · exact hp.out s hs w hw
    · split at hw
      · exact (List.mem_append.mp hw).elim (hp.out s hs w) ((hhandler _).out _ (hp.state s hs) w)
      · exact hp.out s hs w hw
  error s hs e he := by
    simp only [handle] at he
    split at he
    · cases he
    · rename_i e' hresult
      split at he
      · exact (hhandler _).error _ (hp.state s hs) e he
      · obtain rfl : e' = e := Except.error.inj he
        exact hp.error s hs e' hresult

/-- Inside the scope another property holds; behind it the first one does again. -/
theorem within_inside {enter : σ → σ} {leave : σ → σ → σ} {p : Prog σ ω ε α} (henter : ∀ s, P s → Q (enter s))
    (hleave : ∀ s t, P s → P (leave s t)) (hp : Within Q W E p) : Within P W E (inside enter leave p) where
  state s hs := hleave s _ hs
  out s hs := hp.out _ (henter s hs)
  error s hs := hp.error _ (henter s hs)

theorem settled_self {p : Prog σ ω ε α} (hp : Within P W E p) : Settled P W E p p := ⟨hp,fun _ _ => rfl⟩

theorem settled_bind {p q : Prog σ ω ε α} {f g : α → Prog σ ω ε β} (hpq : Settled P W E p q)
    (hfg : ∀ a, Settled P W E (f a) (g a)) : Settled P W E (p >>= f) (q >>= g) where
  within := within_bind hpq.within fun a => (hfg a).within
  agree s hs := by
    have hsame := hpq.agree s hs
    cases h : (p s).result with
    | error e => rw [bind_of_error h,bind_of_error (hsame ▸ h),hsame]
    | ok a => rw [bind_of_ok h,bind_of_ok (hsame ▸ h),← hsame,(hfg a).agree _ (hpq.within.state s hs)]

theorem settled_withState {f g : σ → Prog σ ω ε α} (hfg : ∀ s, P s → Settled P W E (f s) (g s)) :
    Settled P W E (withState f) (withState g) where
  within := within_withState fun s hs => (hfg s hs).within
  agree s hs := (hfg s hs).agree s hs

theorem settled_foldlM {f g : α → ι → Prog σ ω ε α} {xs : List ι} (hfg : ∀ a x, Settled P W E (f a x) (g a x)) (a : α) :
    Settled P W E (xs.foldlM f a) (xs.foldlM g a) := by
  induction xs generalizing a with
  | nil => exact settled_self (within_pure a)
  | cons x xs ih =>
    rw [List.foldlM_cons,List.foldlM_cons]
    exact settled_bind (hfg a x) ih

theorem settled_handle {caught : ε → Bool} {p q : Prog σ ω ε α} {handler : ε → Prog σ ω ε α} (hpq : Settled P W E p q)
    (hhandler : ∀ e, Within P W E (handler e)) : Settled P W E (handle caught p handler) (handle caught q handler) where
  within := within_handle hpq.within hhandler
  agree s hs := by simp only [handle,hpq.agree s hs]

theorem settled_inside {enter : σ → σ} {leave : σ → σ → σ} {p q : Prog σ ω ε α} (henter : ∀ s, P s → Q (enter s))
    (hleave : ∀ s t, P s → P (leave s t)) (hpq : Settled Q W E p q) :
    Settled P W E (inside enter leave p) (inside enter leave q) where
  within := within_inside henter hleave hpq.within
  agree s hs := by simp only [inside,hpq.agree _ (henter s hs)]

end Rules

end Handlers
end Biggy
