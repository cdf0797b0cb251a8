import Biggy.Commits

/-!
# Programs that keep to a course

A course is a property that the state never loses together with a relation that the steps go along. A program that keeps to it
may besides lead from one property to another where it comes to its end; `leads_frame` carries along what the relation keeps.
-/
namespace Biggy
namespace Courses

open Commits Prog

/-- What stays true of the state, and how a later state is related to an earlier one. -/
structure Course (σ : Type*) where
  inv : σ → Prop
  step : σ → σ → Prop
  refl : ∀ s, step s s
  trans : ∀ s t u, step s t → step t u → step s u

variable {σ ω ε : Type*}

/-- From the first property the program keeps to the course, and where it comes to its end the second one holds of its value. -/
def Leads (C : Course σ) (P : σ → Prop) {α : Type*} (p : Prog σ ω ε α) (Q : α → σ → Prop) : Prop :=
  ∀ s, C.inv s → P s → C.inv (p s).state ∧ C.step s (p s).state ∧ ∀ a, (p s).result = .ok a → Q a (p s).state

/-- The program keeps to the course. -/
def Stays (C : Course σ) {α : Type*} (p : Prog σ ω ε α) : Prop := Leads C (fun _ => True) p fun _ _ => True

section Rules

universe u

variable {C : Course σ} {α β : Type u} {ι : Type*} {P P' : σ → Prop} {Q Q' : α → σ → Prop} {T : β → σ → Prop}

theorem leads_bind {p : Prog σ ω ε α} {f : α → Prog σ ω ε β} (hp : Leads C P p Q) (hf : ∀ a, Leads C (Q a) (f a) T) :
    Leads C P (p >>= f) T := by
  intro s hs hP
  obtain ⟨hinv,hstep,hvalue⟩ := hp s hs hP
  cases hresult : (p s).result with
  | error failure =>
    rw [bind_of_error hresult]
    exact ⟨hinv,hstep,fun a ha => by cases ha⟩
  | ok a =>
    obtain ⟨hinv',hstep',hvalue'⟩ := hf a _ hinv (hvalue a hresult)
    rw [bind_of_ok hresult]
    exact ⟨hinv',C.trans _ _ _ hstep hstep',hvalue'⟩

theorem Leads.imp {p : Prog σ ω ε α} (hp : Leads C P p Q) (hP : ∀ s, P' s → P s) (hQ : ∀ a s, Q a s → Q' a s) :
    Leads C P' p Q' := by
  intro s hs hs'
  obtain ⟨hinv,hstep,hvalue⟩ := hp s hs (hP s hs')
  exact ⟨hinv,hstep,fun a ha => hQ a _ (hvalue a ha)⟩

theorem Leads.weaken {p : Prog σ ω ε α} (hp : Leads C P p Q) (hP : ∀ s, P' s → P s) : Leads C P' p fun _ _ => True :=
  hp.imp hP fun _ _ _ => trivial

theorem Stays.from {p : Prog σ ω ε α} (hp : Stays C p) : Leads C P p fun _ _ => True := hp.weaken fun _ _ => trivial

/-- What the steps of the course keep is carried along. -/
theorem leads_frame {R : σ → Prop} (hR : ∀ s t, C.step s t → R s → R t) {p : Prog σ ω ε α} (hp : Leads C P p Q) :
    Leads C (fun s => P s ∧ R s) p fun a s => Q a s ∧ R s := by
  rintro s hs ⟨hP,hs'⟩
  obtain ⟨hinv,hstep,hvalue⟩ := hp s hs hP
  exact ⟨hinv,hstep,fun a ha => ⟨hvalue a ha,hR s _ hstep hs'⟩⟩

/-- A program on the course keeps what its steps keep. -/
theorem Stays.keeps {R : σ → Prop} (hR : ∀ s t, C.step s t → R s → R t) {p : Prog σ ω ε α} (hp : Stays C p) :
    Leads C R p fun _ s => R s :=
  (leads_frame hR hp).imp (fun _ hs => ⟨trivial,hs⟩) fun _ _ h => h.2

/-- A program keeps what it needs, where the steps keep it. -/
theorem Leads.still {R : σ → Prop} (hR : ∀ s t, C.step s t → R s → R t) {p : Prog σ ω ε α}
    (hp : Leads C R p fun _ _ => True) : Leads C R p fun _ s => R s :=
  (leads_frame hR hp).imp (fun _ hs => ⟨hs,hs⟩) fun _ _ h => h.2

theorem stays_bind {p : Prog σ ω ε α} {f : α → Prog σ ω ε β} (hp : Stays C p) (hf : ∀ a, Stays C (f a)) :
    Stays C (p >>= f) := leads_bind hp hf

/-- A program that leaves the state as it is. -/
theorem leads_same {p : Prog σ ω ε α} (hsame : ∀ s, (p s).state = s)
    (hvalue : ∀ s, C.inv s → P s → ∀ a, (p s).result = .ok a → Q a s) : Leads C P p Q := by
  intro s hs hP
  rw [hsame s]
  exact ⟨hs,C.refl s,hvalue s hs hP⟩

theorem stays_same {p : Prog σ ω ε α} (hsame : ∀ s, (p s).state = s) : Stays C p := leads_same hsame fun _ _ _ _ _ => trivial

theorem stays_pure (a : α) : Stays C (pure a : Prog σ ω ε α) := stays_same fun _ => rfl

theorem stays_raise (failure : ε) : Stays C (raise failure : Prog σ ω ε α) := stays_same fun _ => rfl

theorem leads_pure {a : α} (h : ∀ s, P s → Q a s) : Leads C P (pure a : Prog σ ω ε α) Q :=
  leads_same (fun _ => rfl) fun s _ hP b hb => by
    obtain rfl := Except.ok.inj hb
    exact h s hP

theorem leads_withState {f : σ → Prog σ ω ε α} (hf : ∀ t, Leads C (fun s => s = t ∧ P s) (f t) Q) :
    Leads C P (withState f) Q := fun s hs hP => hf s s hs ⟨rfl,hP⟩

theorem stays_withState {f : σ → Prog σ ω ε α} (hf : ∀ t, Stays C (f t)) : Stays C (withState f) :=
  leads_withState fun t => (hf t).from

/-- A loop keeps to the course where its turns do, and keeps what they need. -/
theorem leads_forM {f : ι → Prog σ ω ε PUnit.{u+1}} (hf : ∀ x, Leads C P (f x) fun _ => P) (xs : List ι) :
    Leads C P (forM xs f) fun _ => P := by
  induction xs with
  | nil => exact leads_pure fun _ hs => hs
  | cons x xs ih =>
    rw [List.forM_cons]
    exact leads_bind (hf x) fun _ => ih

theorem stays_forM {f : ι → Prog σ ω ε PUnit.{u+1}} (hf : ∀ x, Stays C (f x)) (xs : List ι) : Stays C (forM xs f) :=
  leads_forM hf xs

end Rules

end Courses
end Biggy
