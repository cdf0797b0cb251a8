import Mathlib.Data.List.Basic
import Mathlib.Tactic.Common

/-!
# Computations with a trace

A computation that may fail leaves the list of the operations it has performed. When each
operation crashes exactly where it is bad, so does every computation that is built from them.
-/
namespace Biggy

/-- The operations that a computation performs, and its result. -/
structure Traced (ω ε α : Type*) where
  trace : List ω
  result : Except ε α

namespace Traced

variable {ω ε : Type*}

instance : Monad (Traced ω ε) where
  pure a := ⟨[],.ok a⟩
  bind x f := match x.result with
    | .error e => ⟨x.trace,.error e⟩
    | .ok a => ⟨x.trace++(f a).trace,(f a).result⟩

section Laws

universe u

variable {α β : Type u}

theorem bind_def (x : Traced ω ε α) (f : α → Traced ω ε β) : x >>= f = match x.result with
    | .error e => ⟨x.trace,.error e⟩
    | .ok a => ⟨x.trace++(f a).trace,(f a).result⟩ := rfl

theorem pure_def (a : α) : (pure a : Traced ω ε α) = ⟨[],.ok a⟩ := rfl

instance : LawfulMonad (Traced ω ε) := LawfulMonad.mk' _
  (fun x => by
    obtain ⟨trace,result⟩ := x
    cases result <;> simp [Functor.map])
  (fun a f => by simp [bind_def,pure_def])
  (fun x f g => by
    obtain ⟨trace,result⟩ := x
    cases result with
    | error e => rfl
    | ok a =>
      simp only [bind_def]
      cases (f a).result <;> simp)

end Laws

universe u

variable {α β σ : Type*}

/-- A failure that is no operation's. -/
def fail (e : ε) : Traced ω ε α := ⟨[],.error e⟩

/-- Perform an operation. -/
def perform (run : ω → Except ε α) (w : ω) : Traced ω ε α := ⟨[w],run w⟩

theorem bind_ok {α β : Type u} {x : Traced ω ε α} {f : α → Traced ω ε β} {b : β} (h : (x >>= f).result = .ok b) :
    ∃ a, x.result = .ok a ∧ (f a).result = .ok b := by
  obtain ⟨trace,result⟩ := x
  cases result with
  | error e => cases h
  | ok a => exact ⟨a,rfl,h⟩

/-- The computation crashes exactly where one of its operations is bad. -/
def CrashesAt (crash : ε → Prop) (bad : ω → Prop) (x : Traced ω ε α) : Prop :=
  (∃ e, x.result = .error e ∧ crash e) ↔ ∃ w ∈ x.trace, bad w

section Crashes

variable {crash : ε → Prop} {bad : ω → Prop}

theorem crashesAt_ok (a : α) : CrashesAt crash bad (⟨[],.ok a⟩ : Traced ω ε α) := by
  constructor
  · rintro ⟨e,he,-⟩
    cases he
  · rintro ⟨w,hw,-⟩
    cases hw

theorem crashesAt_fail {e : ε} (h : ¬crash e) : CrashesAt crash bad (fail e : Traced ω ε α) := by
  constructor
  · rintro ⟨e',he,hcrash⟩
    obtain rfl := Except.error.inj he
    exact absurd hcrash h
  · rintro ⟨w,hw,-⟩
    cases hw

theorem crashesAt_perform {run : ω → Except ε α} {w : ω} (h : (∃ e, run w = .error e ∧ crash e) ↔ bad w) :
    CrashesAt crash bad (perform run w) := by
  rw [CrashesAt,perform,h]
  simp

theorem crashesAt_pure {α : Type u} (a : α) : CrashesAt crash bad (pure a : Traced ω ε α) := crashesAt_ok a

theorem crashesAt_bind {α β : Type u} {x : Traced ω ε α} {f : α → Traced ω ε β} (hx : CrashesAt crash bad x)
    (hf : ∀ a, CrashesAt crash bad (f a)) : CrashesAt crash bad (x >>= f) := by
  obtain ⟨trace,result⟩ := x
  cases result with
  | error e =>
    simp only [CrashesAt,bind_def,Except.error.injEq] at hx ⊢
    exact hx
  | ok a =>
    have hclean : ¬∃ w ∈ trace, bad w := fun h => by
      obtain ⟨e,he,-⟩ := hx.mpr h
      cases he
    have hrest := hf a
    simp only [CrashesAt,bind_def,List.mem_append,or_and_right,exists_or] at hrest ⊢
    rw [hrest]
    exact ⟨Or.inr,fun h => h.resolve_left hclean⟩

theorem crashesAt_mapM {α β : Type u} {f : α → Traced ω ε β} {xs : List α} (hf : ∀ x ∈ xs, CrashesAt crash bad (f x)) :
    CrashesAt crash bad (xs.mapM f) := by
  induction xs with
  | nil => exact crashesAt_pure []
  | cons x xs ih =>
    rw [List.mapM_cons]
    apply crashesAt_bind (hf x List.mem_cons_self)
    intro y
    apply crashesAt_bind (ih fun z hz => hf z (List.mem_cons_of_mem x hz))
    exact fun ys => crashesAt_pure (y::ys)

end Crashes

/-- The computations are the same where every operation of the first is `ok`. -/
def SameOn (ok : ω → Prop) (x y : Traced ω ε α) : Prop := (∀ w ∈ x.trace, ok w) → x = y

section Same

variable {ok : ω → Prop}

theorem sameOn_refl (x : Traced ω ε α) : SameOn ok x x := fun _ => rfl

theorem sameOn_perform {run run' : ω → Except ε α} {w : ω} (h : ok w → run w = run' w) :
    SameOn ok (perform run w) (perform run' w) := by
  intro hok
  rw [perform,perform,h (hok w (List.mem_singleton_self w))]

theorem sameOn_bind {α β : Type u} {x y : Traced ω ε α} {f g : α → Traced ω ε β} (hx : SameOn ok x y)
    (hf : ∀ a, SameOn ok (f a) (g a)) : SameOn ok (x >>= f) (y >>= g) := by
  intro hok
  obtain ⟨trace,result⟩ := x
  cases result with
  | error e =>
    rw [← hx hok]
    rfl
  | ok a =>
    simp only [bind_def,List.mem_append] at hok
    rw [← hx fun w hw => hok w (Or.inl hw),bind_def,bind_def]
    simp only [hf a fun w hw => hok w (Or.inr hw)]

theorem sameOn_mapM {α β : Type u} {f g : α → Traced ω ε β} {xs : List α} (hf : ∀ x ∈ xs, SameOn ok (f x) (g x)) :
    SameOn ok (xs.mapM f) (xs.mapM g) := by
  induction xs with
  | nil => exact sameOn_refl _
  | cons x xs ih =>
    rw [List.mapM_cons,List.mapM_cons]
    apply sameOn_bind (hf x List.mem_cons_self)
    intro y
    apply sameOn_bind (ih fun z hz => hf z (List.mem_cons_of_mem x hz))
    exact fun ys => sameOn_refl _

end Same

end Traced
end Biggy
