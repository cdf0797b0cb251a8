import Mathlib.Data.List.Basic
import Mathlib.Data.List.Forall2
import Mathlib.Tactic.Common

/-!
# Computations that may fail

What a success of a bind, a map over a list or a fold says about its steps.
-/
namespace Biggy
namespace Outcome

variable {ε α β σ : Type*}

theorem bind_ok {x : Except ε α} {f : α → Except ε β} {b : β} (h : x.bind f = .ok b) : ∃ a, x = .ok a ∧ f a = .ok b := by
  cases x with
  | error e => cases h
  | ok a => exact ⟨a,rfl,h⟩

theorem map_ok {x : Except ε α} {f : α → β} {b : β} (h : x.map f = .ok b) : ∃ a, x = .ok a ∧ f a = b := by
  cases x with
  | error e => cases h
  | ok a => exact ⟨a,rfl,Except.ok.inj h⟩

theorem map_error {x : Except ε α} {f : α → β} {e : ε} (h : x.map f = .error e) : x = .error e := by
  cases x with
  | error e' => exact congrArg Except.error (Except.error.inj h)
  | ok a => cases h

theorem mapError_ok {ε' : Type*} {f : ε → ε'} {x : Except ε α} {a : α} (h : x.mapError f = .ok a) : x = .ok a := by
  cases x with
  | error e => cases h
  | ok b => exact congrArg Except.ok (Except.ok.inj h)

theorem foldlM_cons {f : σ → α → Except ε σ} {s : σ} {x : α} {xs : List α} :
    (x::xs).foldlM f s = (f s x).bind fun t => xs.foldlM f t := rfl

/-- Each element of a mapped list comes from the element at its place. -/
theorem mapM_ok {f : α → Except ε β} {xs : List α} {ys : List β} (h : xs.mapM f = .ok ys) :
    List.Forall₂ (fun x y => f x = .ok y) xs ys := by
  induction xs generalizing ys with
  | nil =>
    obtain rfl := Except.ok.inj h
    exact .nil
  | cons x xs ih =>
    rw [List.mapM_cons] at h
    obtain ⟨y,hy,hrest⟩ := bind_ok h
    obtain ⟨rest,hmap,hpure⟩ := bind_ok hrest
    obtain rfl := Except.ok.inj hpure
    exact .cons hy (ih hmap)

theorem mapM_into {f : α → Except ε β} {xs : List α} {ys : List β} (h : xs.mapM f = .ok ys) {x : α} (hx : x ∈ xs) :
    ∃ y ∈ ys, f x = .ok y := by
  have hpairs := mapM_ok h
  clear h
  induction hpairs with
  | nil => cases hx
  | cons hxy _ ih =>
    rcases List.mem_cons.mp hx with rfl | hx
    · exact ⟨_,List.mem_cons_self,hxy⟩
    · obtain ⟨y,hy,hfx⟩ := ih hx
      exact ⟨y,List.mem_cons_of_mem _ hy,hfx⟩

/-- A map over a list fails where it fails on an element. -/
theorem mapM_error {f : α → Except ε β} {xs : List α} {e : ε} (h : xs.mapM f = .error e) : ∃ x ∈ xs, f x = .error e := by
  induction xs with
  | nil => cases h
  | cons x xs ih =>
    rw [List.mapM_cons] at h
    cases hx : f x with
    | error e' =>
      rw [hx] at h
      obtain rfl : e' = e := Except.error.inj h
      exact ⟨x,List.mem_cons_self,hx⟩
    | ok y =>
      rw [hx] at h
      cases hrest : xs.mapM f with
      | error e' =>
        rw [hrest] at h
        obtain rfl : e' = e := Except.error.inj h
        obtain ⟨z,hz,hfz⟩ := ih hrest
        exact ⟨z,List.mem_cons_of_mem x hz,hfz⟩
      | ok ys =>
        rw [hrest] at h
        cases h

theorem mapM_total {f : α → Except ε β} {xs : List α} (h : ∀ x ∈ xs, ∃ y, f x = .ok y) : ∃ ys, xs.mapM f = .ok ys := by
  cases hmap : xs.mapM f with
  | ok ys => exact ⟨ys,rfl⟩
  | error e =>
    obtain ⟨x,hx,herror⟩ := mapM_error hmap
    obtain ⟨y,hy⟩ := h x hx
    rw [hy] at herror
    cases herror

theorem mapM_mem {f : α → Except ε β} {xs : List α} {ys : List β} (h : xs.mapM f = .ok ys) {x : α} (hx : x ∈ xs) :
    ∃ y, f x = .ok y := by
  obtain ⟨y,-,hy⟩ := mapM_into h hx
  exact ⟨y,hy⟩

theorem mapM_from {f : α → Except ε β} {xs : List α} {ys : List β} (h : xs.mapM f = .ok ys) {y : β} (hy : y ∈ ys) :
    ∃ x ∈ xs, f x = .ok y := by
  have hpairs := mapM_ok h
  clear h
  induction hpairs with
  | nil => cases hy
  | cons hxy _ ih =>
    rcases List.mem_cons.mp hy with rfl | hy
    · exact ⟨_,List.mem_cons_self,hxy⟩
    · obtain ⟨x,hx,hfx⟩ := ih hy
      exact ⟨x,List.mem_cons_of_mem _ hx,hfx⟩

theorem mem_mapM {f : α → Except ε β} {xs : List α} {ys : List β} (h : xs.mapM f = .ok ys) {y : β} :
    y ∈ ys ↔ ∃ x ∈ xs, f x = .ok y := by
  refine ⟨mapM_from h,?_⟩
  rintro ⟨x,hx,hxy⟩
  obtain ⟨y',hy',hxy'⟩ := mapM_into h hx
  rwa [Except.ok.inj (hxy.symm.trans hxy')]

theorem mem_flatten_mapM {f : α → Except ε (List β)} {xs : List α} {yss : List (List β)} (h : xs.mapM f = .ok yss) {y : β} :
    y ∈ yss.flatten ↔ ∃ x ∈ xs, ∃ ys, f x = .ok ys ∧ y ∈ ys := by
  rw [List.mem_flatten]
  constructor
  · rintro ⟨ys,hys,hy⟩
    obtain ⟨x,hx,hxy⟩ := mapM_from h hys
    exact ⟨x,hx,ys,hxy,hy⟩
  · rintro ⟨x,hx,ys,hxy,hy⟩
    exact ⟨ys,(mem_mapM h).mpr ⟨x,hx,hxy⟩,hy⟩

theorem foldlM_mem {f : σ → α → Except ε σ} {xs : List α} {s s' : σ} (h : xs.foldlM f s = .ok s') {x : α} (hx : x ∈ xs) :
    ∃ t t', f t x = .ok t' := by
  induction xs generalizing s with
  | nil => cases hx
  | cons y xs ih =>
    rw [foldlM_cons] at h
    obtain ⟨t,ht,hrest⟩ := bind_ok h
    rcases List.mem_cons.mp hx with rfl | hx
    · exact ⟨s,t,ht⟩
    · exact ih hrest hx

/-- A fold fails where one of its steps fails. -/
theorem foldlM_error {f : σ → α → Except ε σ} {xs : List α} {s : σ} {e : ε} (h : xs.foldlM f s = .error e) :
    ∃ t, ∃ x ∈ xs, f t x = .error e := by
  induction xs generalizing s with
  | nil => cases h
  | cons x xs ih =>
    rw [foldlM_cons] at h
    cases hx : f s x with
    | error e' =>
      rw [hx] at h
      obtain rfl : e' = e := Except.error.inj h
      exact ⟨s,x,List.mem_cons_self,hx⟩
    | ok t =>
      rw [hx] at h
      obtain ⟨t',y,hy,hfy⟩ := ih h
      exact ⟨t',y,List.mem_cons_of_mem x hy,hfy⟩

/-- What every successful step keeps holds after a successful fold. -/
theorem foldlM_invariant {f : σ → α → Except ε σ} (Inv : σ → Prop) {xs : List α}
    (hstep : ∀ s t, ∀ x ∈ xs, Inv s → f s x = .ok t → Inv t) {s s' : σ} (hs : Inv s) (h : xs.foldlM f s = .ok s') :
    Inv s' := by
  induction xs generalizing s with
  | nil =>
    obtain rfl := Except.ok.inj h
    exact hs
  | cons x xs ih =>
    rw [foldlM_cons] at h
    obtain ⟨t,ht,hrest⟩ := bind_ok h
    exact ih (fun s t y hy => hstep s t y (List.mem_cons_of_mem x hy)) (hstep s t x List.mem_cons_self hs ht) hrest

end Outcome
end Biggy
