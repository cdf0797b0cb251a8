import Mathlib.Data.List.Basic
import Mathlib.Tactic.Common

/-!
# Programs that commit as they go

A program changes a state, puts out records of what it does, and returns a value or stops with an error. What it has
changed before it stops stays changed. The rules below say what a program keeps of the state, what it has established
when it comes to its end, and which programs leave the state as it was when they stop.
-/
namespace Biggy
namespace Commits

/-- How a program ends: the state it leaves, what it has put out, and its value or the error that stopped it. -/
structure Ending (σ ω ε α : Type*) where
  state : σ
  out : List ω
  result : Except ε α

/-- A program over a state. -/
def Prog (σ ω ε α : Type*) := σ → Ending σ ω ε α

variable {σ ω ε : Type*}

namespace Prog

instance : Monad (Prog σ ω ε) where
  pure a := fun s => ⟨s,[],.ok a⟩
  bind p f := fun s => match (p s).result with
    | .error e => ⟨(p s).state,(p s).out,.error e⟩
    | .ok a => ⟨(f a (p s).state).state,(p s).out++(f a (p s).state).out,(f a (p s).state).result⟩

/-- Stop. -/
def raise {α : Type*} (e : ε) : Prog σ ω ε α := fun s => ⟨s,[],.error e⟩

def emit (w : ω) : Prog σ ω ε Unit := fun s => ⟨s,[w],.ok ()⟩

/-- Go on with the state at hand. -/
def withState {α : Type*} (f : σ → Prog σ ω ε α) : Prog σ ω ε α := fun s => f s s

/-- Changes that are made one after the other and committed together, or not at all. -/
def transact (accepts : σ → Bool) (e : ε) (changes : List (σ → σ)) : Prog σ ω ε Unit := fun s =>
  match changes.foldlM (fun t change => if accepts (change t) then some (change t) else none) s with
  | some t => ⟨t,[],.ok ()⟩
  | none => ⟨s,[],.error e⟩

/-- One change. -/
def commit (accepts : σ → Bool) (e : ε) (change : σ → σ) : Prog σ ω ε Unit := transact accepts e [change]

/-- Let no error out. -/
def attempt (p : Prog σ ω ε Unit) : Prog σ ω ε Unit := fun s => ⟨(p s).state,(p s).out,.ok ()⟩

section Equations

universe u

variable {α β : Type u}

theorem bind_def (p : Prog σ ω ε α) (f : α → Prog σ ω ε β) (s : σ) : (p >>= f) s = match (p s).result with
    | .error e => ⟨(p s).state,(p s).out,.error e⟩
    | .ok a => ⟨(f a (p s).state).state,(p s).out++(f a (p s).state).out,(f a (p s).state).result⟩ := rfl

theorem pure_def (a : α) (s : σ) : (pure a : Prog σ ω ε α) s = ⟨s,[],.ok a⟩ := rfl

instance : LawfulMonad (Prog σ ω ε) := LawfulMonad.mk' _
  (fun p => by
    funext s
    change (match (p s).result with
      | .error e => ⟨(p s).state,(p s).out,.error e⟩
      | .ok a => ⟨(p s).state,(p s).out++[],.ok a⟩ : Ending σ ω ε _) = p s
    cases h : p s with
    | mk state out result => cases result <;> simp)
  (fun a f => by
    funext s
    simp [bind_def,pure_def])
  (fun p f g => by
    funext s
    simp only [bind_def]
    cases (p s).result with
    | error e => rfl
    | ok a => cases h : (f a (p s).state).result <;> simp [h])

theorem bind_of_ok {p : Prog σ ω ε α} {s : σ} {a : α} (h : (p s).result = .ok a) (f : α → Prog σ ω ε β) :
    (p >>= f) s = ⟨(f a (p s).state).state,(p s).out++(f a (p s).state).out,(f a (p s).state).result⟩ := by
  simp only [bind_def,h]

theorem bind_of_error {p : Prog σ ω ε α} {s : σ} {e : ε} (h : (p s).result = .error e) (f : α → Prog σ ω ε β) :
    (p >>= f) s = ⟨(p s).state,(p s).out,.error e⟩ := by
  simp only [bind_def,h]

theorem bind_run {p : Prog σ ω ε α} {s t : σ} {ws : List ω} {a : α} (h : p s = ⟨t,ws,.ok a⟩) (f : α → Prog σ ω ε β) :
    (p >>= f) s = ⟨(f a t).state,ws++(f a t).out,(f a t).result⟩ := by
  rw [bind_def,h]

theorem bind_stop {p : Prog σ ω ε α} {s t : σ} {ws : List ω} {e : ε} (h : p s = ⟨t,ws,.error e⟩) (f : α → Prog σ ω ε β) :
    (p >>= f) s = ⟨t,ws,.error e⟩ := by
  rw [bind_def,h]

/-- A program that comes to its end has come to the end of its parts. -/
theorem bind_ok {p : Prog σ ω ε α} {f : α → Prog σ ω ε β} {s : σ} {b : β} (h : ((p >>= f) s).result = .ok b) :
    ∃ a, (p s).result = .ok a ∧ (f a (p s).state).result = .ok b ∧
      ((p >>= f) s).state = (f a (p s).state).state ∧ ((p >>= f) s).out = (p s).out++(f a (p s).state).out := by
  cases hp : (p s).result with
  | error e =>
    rw [bind_of_error hp] at h
    cases h
  | ok a =>
    rw [bind_of_ok hp] at h ⊢
    exact ⟨a,rfl,h,rfl,rfl⟩

end Equations

theorem withState_apply {α : Type*} (f : σ → Prog σ ω ε α) (s : σ) : withState f s = f s s := rfl

@[simp] theorem raise_state {α : Type*} (e : ε) (s : σ) : (raise e : Prog σ ω ε α) s = ⟨s,[],.error e⟩ := rfl

theorem commit_accepted {accepts : σ → Bool} {e : ε} {change : σ → σ} {s : σ} (h : accepts (change s) = true) :
    (commit accepts e change : Prog σ ω ε Unit) s = ⟨change s,[],.ok ()⟩ := by
  simp [commit,transact,h]

theorem commit_refused {accepts : σ → Bool} {e : ε} {change : σ → σ} {s : σ} (h : accepts (change s) = false) :
    (commit accepts e change : Prog σ ω ε Unit) s = ⟨s,[],.error e⟩ := by
  simp [commit,transact,h]

theorem commit_ok {accepts : σ → Bool} {e : ε} {change : σ → σ} {s : σ}
    (h : ((commit accepts e change : Prog σ ω ε Unit) s).result = .ok ()) : accepts (change s) = true ∧
      (commit accepts e change : Prog σ ω ε Unit) s = ⟨change s,[],.ok ()⟩ := by
  cases haccepts : accepts (change s) with
  | true => exact ⟨rfl,commit_accepted haccepts⟩
  | false =>
    rw [commit_refused haccepts] at h
    cases h

end Prog

open Prog

theorem foldlM_accepted {accepts : σ → Bool} {changes : List (σ → σ)} {s t : σ}
    (h : changes.foldlM (fun t change => if accepts (change t) then some (change t) else none) s = some t) :
    t = changes.foldl (fun t change => change t) s := by
  induction changes generalizing s with
  | nil => exact (Option.some.inj h).symm
  | cons change changes ih =>
    rw [List.foldlM_cons] at h
    cases haccepts : accepts (change s) with
    | false => simp [haccepts] at h
    | true =>
      simp only [haccepts,if_true,Option.bind_eq_bind,Option.bind_some] at h
      exact ih h

/-- Changes that are accepted have all been made. -/
theorem transact_ok {accepts : σ → Bool} {e : ε} {changes : List (σ → σ)} {s : σ}
    (h : ((transact accepts e changes : Prog σ ω ε Unit) s).result = .ok ()) :
    ((transact accepts e changes : Prog σ ω ε Unit) s).state = changes.foldl (fun t change => change t) s := by
  rw [transact] at h ⊢
  split at h
  · rename_i t ht
    simp only
    exact foldlM_accepted ht
  · cases h
/-! ### What a program keeps -/

/-- The state that a program leaves is related to the one it found, whether it stops or not. -/
def Keeps {α : Type*} (R : σ → σ → Prop) (p : Prog σ ω ε α) : Prop := ∀ s, R s (p s).state

section Keeps

universe u

variable {R : σ → σ → Prop} {α β : Type u} {ι : Type*}

theorem keeps_pure (hrefl : ∀ s, R s s) (a : α) : Keeps R (pure a : Prog σ ω ε α) := hrefl

theorem keeps_raise (hrefl : ∀ s, R s s) (e : ε) : Keeps R (raise e : Prog σ ω ε α) := hrefl

theorem keeps_emit (hrefl : ∀ s, R s s) (w : ω) : Keeps R (emit w : Prog σ ω ε Unit) := hrefl

theorem keeps_bind (htrans : ∀ a b c, R a b → R b c → R a c) {p : Prog σ ω ε α} {f : α → Prog σ ω ε β} (hp : Keeps R p)
    (hf : ∀ a, Keeps R (f a)) : Keeps R (p >>= f) := by
  intro s
  cases h : (p s).result with
  | error e =>
    rw [bind_of_error h]
    exact hp s
  | ok a =>
    rw [bind_of_ok h]
    exact htrans _ _ _ (hp s) (hf a _)

theorem keeps_attempt {p : Prog σ ω ε Unit} (hp : Keeps R p) : Keeps R (attempt p) := hp

theorem keeps_withState {f : σ → Prog σ ω ε α} (hf : ∀ t, Keeps R (f t)) : Keeps R (withState f) := fun s => hf s s

theorem keeps_forM (hrefl : ∀ s, R s s) (htrans : ∀ a b c, R a b → R b c → R a c) {f : ι → Prog σ ω ε PUnit.{u+1}}
    {xs : List ι} (hf : ∀ x ∈ xs, Keeps R (f x)) : Keeps R (forM xs f) := by
  induction xs with
  | nil => exact hrefl
  | cons x xs ih =>
    rw [List.forM_cons]
    exact keeps_bind htrans (hf x List.mem_cons_self) fun _ => ih fun y hy => hf y (List.mem_cons_of_mem x hy)

/-- A change keeps what it keeps where it is accepted. -/
theorem keeps_transact (hrefl : ∀ s, R s s) (htrans : ∀ a b c, R a b → R b c → R a c) {accepts : σ → Bool} {e : ε}
    {changes : List (σ → σ)} (h : ∀ change ∈ changes, ∀ s, accepts (change s) = true → R s (change s)) :
    Keeps R (transact accepts e changes : Prog σ ω ε Unit) := by
  have hfold : ∀ (s t : σ), changes.foldlM (fun t change => if accepts (change t) then some (change t) else none) s =
      some t → R s t := by
    induction changes with
    | nil =>
      intro s t hst
      obtain rfl := Option.some.inj hst
      exact hrefl s
    | cons change changes ih =>
      intro s t hst
      rw [List.foldlM_cons] at hst
      cases haccepts : accepts (change s) with
      | false =>
        simp [haccepts] at hst
      | true =>
        simp only [haccepts,if_true,Option.bind_eq_bind,Option.bind_some] at hst
        exact htrans _ _ _ (h change List.mem_cons_self s haccepts)
          (ih (fun c hc => h c (List.mem_cons_of_mem change hc)) _ _ hst)
  intro s
  simp only [transact]
  split
  · exact hfold s _ ‹_›
  · exact hrefl s

theorem keeps_commit (hrefl : ∀ s, R s s) {accepts : σ → Bool} {e : ε} {change : σ → σ}
    (h : ∀ s, accepts (change s) = true → R s (change s)) : Keeps R (commit accepts e change : Prog σ ω ε Unit) := by
  intro s
  cases haccepts : accepts (change s) with
  | true =>
    rw [commit_accepted haccepts]
    exact h s haccepts
  | false =>
    rw [commit_refused haccepts]
    exact hrefl s

/-- A property that the state does not lose, whether the program stops or not. -/
def Preserves {α : Type*} (P : σ → Prop) (p : Prog σ ω ε α) : Prop := Keeps (fun a b => P a → P b) p

variable {P : σ → Prop}

theorem preserves_pure (a : α) : Preserves P (pure a : Prog σ ω ε α) := fun _ => id

theorem preserves_raise (e : ε) : Preserves P (raise e : Prog σ ω ε α) := fun _ => id

theorem preserves_bind {p : Prog σ ω ε α} {f : α → Prog σ ω ε β} (hp : Preserves P p) (hf : ∀ a, Preserves P (f a)) :
    Preserves P (p >>= f) :=
  keeps_bind (R := fun a b => P a → P b) (fun _ _ _ hab hbc => hbc ∘ hab) hp hf

theorem preserves_forM {f : ι → Prog σ ω ε PUnit.{u+1}} {xs : List ι} (hf : ∀ x ∈ xs, Preserves P (f x)) :
    Preserves P (forM xs f) :=
  keeps_forM (R := fun a b => P a → P b) (fun _ => id) (fun _ _ _ hab hbc => hbc ∘ hab) hf

theorem preserves_transact {accepts : σ → Bool} {e : ε} {changes : List (σ → σ)}
    (h : ∀ change ∈ changes, ∀ s, accepts (change s) = true → P s → P (change s)) :
    Preserves P (transact accepts e changes : Prog σ ω ε Unit) :=
  keeps_transact (R := fun a b => P a → P b) (fun _ => id) (fun _ _ _ hab hbc => hbc ∘ hab) h

end Keeps

/-! ### What a program establishes -/

/-- From a state with the first property a program that comes to its end leaves one with the second. -/
def Ensures {α : Type*} (P : σ → Prop) (p : Prog σ ω ε α) (Q : σ → Prop) : Prop :=
  ∀ s, P s → ∀ a, (p s).result = .ok a → Q (p s).state

section Ensures

universe u

variable {P Q T : σ → Prop} {α β : Type u} {ι : Type*}

theorem ensures_bind {p : Prog σ ω ε α} {f : α → Prog σ ω ε β} (hp : Ensures P p Q) (hf : ∀ a, Ensures Q (f a) T) :
    Ensures P (p >>= f) T := by
  intro s hs b hb
  obtain ⟨a,ha,hfb,hstate,-⟩ := bind_ok hb
  rw [hstate]
  exact hf a _ (hp s hs a ha) b hfb

theorem ensures_mapM {f : ι → Prog σ ω ε α} {xs : List ι} (hf : ∀ x ∈ xs, Ensures P (f x) P) : Ensures P (xs.mapM f) P := by
  induction xs with
  | nil => exact fun _ hs _ _ => hs
  | cons x xs ih =>
    rw [List.mapM_cons]
    refine ensures_bind (hf x List.mem_cons_self) fun _ => ensures_bind ?_ fun _ _ ht _ _ => ht
    exact ih fun y hy => hf y (List.mem_cons_of_mem x hy)

theorem ensures_forM {f : ι → Prog σ ω ε PUnit.{u+1}} {xs : List ι} (hf : ∀ x ∈ xs, Ensures P (f x) P) :
    Ensures P (forM xs f) P := by
  induction xs with
  | nil => exact fun _ hs _ _ => hs
  | cons x xs ih =>
    rw [List.forM_cons]
    exact ensures_bind (hf x List.mem_cons_self) fun _ => ih fun y hy => hf y (List.mem_cons_of_mem x hy)

/-- A loop establishes what one of its turns does and the others keep. -/
theorem ensures_forM_of_mem {f : ι → Prog σ ω ε PUnit.{u+1}} {xs : List ι} (hkeep : ∀ y ∈ xs, Ensures P (f y) P) {x : ι}
    (hx : x ∈ xs) (hown : Ensures P (f x) Q) (hothers : ∀ y ∈ xs, Ensures (fun s => P s ∧ Q s) (f y) Q) :
    Ensures P (forM xs f) Q := by
  induction xs with
  | nil => cases hx
  | cons y xs ih =>
    have hmem : ∀ {z}, z ∈ xs → z ∈ y::xs := fun hz => List.mem_cons_of_mem y hz
    rw [List.forM_cons]
    rcases List.mem_cons.mp hx with rfl | hx
    · refine ensures_bind (Q := fun s => P s ∧ Q s)
        (fun s hs a ha => ⟨hkeep x List.mem_cons_self s hs a ha,hown s hs a ha⟩) fun _ s hs a ha => ?_
      exact (ensures_forM (P := fun s => P s ∧ Q s) (fun z hz s hs a ha =>
        ⟨hkeep z (hmem hz) s hs.1 a ha,hothers z (hmem hz) s hs a ha⟩) s hs a ha).2
    · exact ensures_bind (hkeep y List.mem_cons_self) fun _ =>
        ih (fun z hz => hkeep z (hmem hz)) hx fun z hz => hothers z (hmem hz)

/-- Each turn of a loop establishes what is its own and keeps what is the others'. -/
theorem ensures_each_mapM {own : ι → σ → Prop} {f : ι → Prog σ ω ε α} {xs : List ι}
    (hown : ∀ x ∈ xs, Ensures P (f x) (own x)) (hkeep : ∀ x ∈ xs, Ensures P (f x) P)
    (hothers : ∀ x ∈ xs, ∀ y ∈ xs, Ensures (fun s => P s ∧ own y s) (f x) (own y)) :
    Ensures P (xs.mapM f) fun s => ∀ x ∈ xs, own x s := by
  induction xs with
  | nil => exact fun _ _ _ _ _ hx => by cases hx
  | cons x xs ih =>
    have hmem : ∀ {y}, y ∈ xs → y ∈ x::xs := fun hy => List.mem_cons_of_mem x hy
    have hrest : Ensures P (xs.mapM f) fun s => ∀ y ∈ xs, own y s :=
      ih (fun y hy => hown y (hmem hy)) (fun y hy => hkeep y (hmem hy)) fun y hy z hz => hothers y (hmem hy) z (hmem hz)
    have hfirst : Ensures (fun s => P s ∧ own x s) (xs.mapM f) fun s => P s ∧ own x s :=
      ensures_mapM fun y hy s hs a ha =>
        ⟨hkeep y (hmem hy) s hs.1 a ha,hothers y (hmem hy) x List.mem_cons_self s hs a ha⟩
    rw [List.mapM_cons]
    refine ensures_bind (Q := fun s => P s ∧ own x s)
      (fun s hs a ha => ⟨hkeep x List.mem_cons_self s hs a ha,hown x List.mem_cons_self s hs a ha⟩) fun _ =>
      ensures_bind (Q := fun s => ∀ y ∈ x::xs, own y s) ?_ fun _ _ ht _ _ => ht
    intro s hs as has y hy
    rcases List.mem_cons.mp hy with rfl | hy
    · exact (hfirst s hs as has).2
    · exact hrest s hs.1 as has y hy

end Ensures

/-! ### Programs that stop -/

def Raises {α : Type*} (p : Prog σ ω ε α) (s : σ) : Prop := ∃ e, (p s).result = .error e

/-- The program stops and leaves the state as it was. -/
def Refused {α : Type*} (p : Prog σ ω ε α) (s : σ) : Prop := Raises p s ∧ (p s).state = s

/-- The program comes to its end and leaves the state as it was. -/
def Idle {α : Type*} (p : Prog σ ω ε α) (s : σ) : Prop := ¬Raises p s ∧ (p s).state = s

/-- The programs are run one after the other. -/
def runAll (ps : List (Prog σ ω ε PUnit)) : Prog σ ω ε PUnit := forM ps id

/-- The first of the programs that does not leave the state alone is refused. -/
def FirstRefused : List (Prog σ ω ε PUnit) → σ → Prop
  | [], _ => False
  | p::ps, s => Refused p s ∨ Idle p s ∧ FirstRefused ps s

section Stops

theorem raises_or_ends {α : Type*} (p : Prog σ ω ε α) (s : σ) : Raises p s ∨ ∃ a, (p s).result = .ok a := by
  cases h : (p s).result with
  | error e => exact Or.inl ⟨e,h⟩
  | ok a => exact Or.inr ⟨a,rfl⟩

theorem not_raises {α : Type*} {p : Prog σ ω ε α} {s : σ} : ¬Raises p s ↔ ∃ a, (p s).result = .ok a := by
  constructor
  · exact fun h => (raises_or_ends p s).resolve_left h
  · rintro ⟨a,ha⟩ ⟨e,he⟩
    rw [ha] at he
    cases he

theorem runAll_cons (p : Prog σ ω ε PUnit) (ps : List (Prog σ ω ε PUnit)) :
    runAll (p::ps) = p >>= fun _ => runAll ps := by rw [runAll,List.forM_cons]; rfl

theorem runAll_append (ps qs : List (Prog σ ω ε PUnit)) : runAll (ps++qs) = runAll ps >>= fun _ => runAll qs := by
  induction ps with
  | nil => rfl
  | cons p ps ih =>
    rw [List.cons_append,runAll_cons,runAll_cons,ih,bind_assoc]

theorem runAll_map {ι : Type*} (f : ι → Prog σ ω ε PUnit) (xs : List ι) : runAll (xs.map f) = forM xs f := by
  induction xs with
  | nil => rfl
  | cons x xs ih =>
    rw [List.map_cons,runAll_cons,ih,List.forM_cons]

theorem runAll_singleton (p : Prog σ ω ε PUnit) : runAll [p] = p := by
  rw [runAll_cons]
  exact bind_pure p

theorem firstRefused_append {ps qs : List (Prog σ ω ε PUnit)} {s : σ} :
    FirstRefused (ps++qs) s ↔ FirstRefused ps s ∨ (∀ p ∈ ps, Idle p s) ∧ FirstRefused qs s := by
  induction ps with
  | nil => simp [FirstRefused]
  | cons p ps ih =>
    simp only [List.cons_append,FirstRefused,ih,List.forall_mem_cons]
    tauto

/-- Programs before which nothing changes and of which one is refused leave the state as it was. -/
theorem refused_of_firstRefused {ps : List (Prog σ ω ε PUnit)} {s : σ} (h : FirstRefused ps s) : Refused (runAll ps) s := by
  induction ps with
  | nil => cases h
  | cons p ps ih =>
    rw [runAll_cons]
    rcases h with ⟨⟨e,he⟩,hstate⟩ | ⟨⟨hends,hstate⟩,hrest⟩
    · rw [Refused,Raises,bind_of_error he]
      exact ⟨⟨e,rfl⟩,hstate⟩
    · obtain ⟨a,ha⟩ := not_raises.mp hends
      obtain ⟨⟨e,he⟩,hsame⟩ := ih hrest
      rw [Refused,Raises,bind_of_ok ha,hstate]
      exact ⟨⟨e,he⟩,hsame⟩

/-- Where a change by the first program is not undone by the rest, it has made none when the state is as it was. -/
theorem refused_cons {Gone : σ → Prop} {s : σ} {p : Prog σ ω ε PUnit} {qs : List (Prog σ ω ε PUnit)}
    (hleave : ¬Raises p s → (p s).state ≠ s → Gone (p s).state) (hrest : ∀ t, Gone t → (runAll qs t).state ≠ s)
    (h : Refused (runAll (p::qs)) s) : Refused p s ∨ Idle p s ∧ Refused (runAll qs) s := by
  rw [runAll_cons] at h
  rcases raises_or_ends p s with ⟨e,he⟩ | ⟨a,ha⟩
  · obtain ⟨-,hstate⟩ := h
    rw [bind_of_error he] at hstate
    exact Or.inl ⟨⟨e,he⟩,hstate⟩
  · have hends : ¬Raises p s := not_raises.mpr ⟨a,ha⟩
    by_cases hstate : (p s).state = s
    · rw [Refused,Raises,bind_of_ok ha,hstate] at h
      exact Or.inr ⟨⟨hends,hstate⟩,h⟩
    · obtain ⟨-,hsame⟩ := h
      rw [bind_of_ok ha] at hsame
      exact absurd hsame (hrest _ (hleave hends hstate))

theorem refused_append {Gone : σ → Prop} {s : σ} {ps qs : List (Prog σ ω ε PUnit)} (hapart : ¬Gone s)
    (hleave : ∀ p ∈ ps, ¬Raises p s → (p s).state ≠ s → Gone (p s).state) (hkeep : ∀ p ∈ ps, Preserves Gone p)
    (hrest : ∀ t, Gone t → (runAll qs t).state ≠ s) (h : Refused (runAll (ps++qs)) s) :
    FirstRefused ps s ∨ (∀ p ∈ ps, Idle p s) ∧ Refused (runAll qs) s := by
  induction ps with
  | nil =>
    refine Or.inr ⟨?_,h⟩
    intro p hp
    cases hp
  | cons p ps ih =>
    have hrest' : ∀ t, Gone t → (runAll (ps++qs) t).state ≠ s := by
      intro t ht
      have hgone : Gone (runAll ps t).state := preserves_forM (fun q hq => hkeep q (List.mem_cons_of_mem p hq)) t ht
      rw [runAll_append,bind_def]
      split
      · exact fun hsame => hapart (hsame ▸ hgone)
      · exact hrest _ hgone
    rcases refused_cons (hleave p List.mem_cons_self) hrest' h with hrefused | ⟨hidle,hrefused⟩
    · exact Or.inl (Or.inl hrefused)
    · rcases ih (fun q hq => hleave q (List.mem_cons_of_mem p hq)) (fun q hq => hkeep q (List.mem_cons_of_mem p hq))
        hrefused with hfirst | ⟨hall,hlast⟩
      · exact Or.inl (Or.inr ⟨hidle,hfirst⟩)
      · exact Or.inr ⟨List.forall_mem_cons.mpr ⟨hidle,hall⟩,hlast⟩

/-- Two programs stop on the same states, and leave the same then. -/
def SameStop {α β : Type*} (p : Prog σ ω ε α) (q : Prog σ ω ε β) : Prop :=
  ∀ s, (Raises p s ↔ Raises q s) ∧ (Raises p s → (p s).state = (q s).state)

/-- Two programs differ at most in what they put out and return. -/
def SameCourse {α β : Type*} (p : Prog σ ω ε α) (q : Prog σ ω ε β) : Prop :=
  ∀ s, (Raises p s ↔ Raises q s) ∧ (p s).state = (q s).state

theorem SameStop.refused_iff {α β : Type*} {p : Prog σ ω ε α} {q : Prog σ ω ε β} (h : SameStop p q) (s : σ) :
    Refused p s ↔ Refused q s := by
  constructor
  · rintro ⟨hraise,hstate⟩
    exact ⟨(h s).1.mp hraise,(h s).2 hraise ▸ hstate⟩
  · rintro ⟨hraise,hstate⟩
    have hp := (h s).1.mpr hraise
    exact ⟨hp,((h s).2 hp).trans hstate⟩

theorem SameCourse.refl {α : Type*} (p : Prog σ ω ε α) : SameCourse p p := fun _ => ⟨Iff.rfl,rfl⟩

theorem SameStop.trans {α β γ : Type*} {p : Prog σ ω ε α} {q : Prog σ ω ε β} {r : Prog σ ω ε γ} (hpq : SameStop p q)
    (hqr : SameStop q r) : SameStop p r := fun s =>
  ⟨(hpq s).1.trans (hqr s).1,fun h => ((hpq s).2 h).trans ((hqr s).2 ((hpq s).1.mp h))⟩

universe u

section Courses

variable {α β γ δ : Type u} {ι : Type*}

theorem sameStop_bind {p : Prog σ ω ε α} {q : Prog σ ω ε β} {f : α → Prog σ ω ε γ} {g : β → Prog σ ω ε δ}
    (hpq : SameCourse p q) (hfg : ∀ a b, SameStop (f a) (g b)) : SameStop (p >>= f) (q >>= g) := by
  intro s
  obtain ⟨hraises,hstate⟩ := hpq s
  rcases raises_or_ends p s with ⟨e,he⟩ | ⟨a,ha⟩
  · obtain ⟨e',he'⟩ := hraises.mp ⟨e,he⟩
    rw [Raises,Raises,bind_of_error he,bind_of_error he',hstate]
    exact ⟨⟨fun _ => ⟨e',rfl⟩,fun _ => ⟨e,rfl⟩⟩,fun _ => rfl⟩
  · obtain ⟨b,hb⟩ := not_raises.mp fun h => not_raises.mpr ⟨a,ha⟩ (hraises.mpr h)
    have hrest := hfg a b (p s).state
    rw [Raises,Raises,bind_of_ok ha,bind_of_ok hb]
    rw [hstate] at hrest ⊢
    exact hrest

theorem sameCourse_bind {p : Prog σ ω ε α} {q : Prog σ ω ε β} {f : α → Prog σ ω ε γ} {g : β → Prog σ ω ε δ}
    (hpq : SameCourse p q) (hfg : ∀ a b, SameCourse (f a) (g b)) : SameCourse (p >>= f) (q >>= g) := by
  intro s
  obtain ⟨hraises,hstate⟩ := hpq s
  rcases raises_or_ends p s with ⟨e,he⟩ | ⟨a,ha⟩
  · obtain ⟨e',he'⟩ := hraises.mp ⟨e,he⟩
    rw [Raises,Raises,bind_of_error he,bind_of_error he',hstate]
    exact ⟨⟨fun _ => ⟨e',rfl⟩,fun _ => ⟨e,rfl⟩⟩,rfl⟩
  · obtain ⟨b,hb⟩ := not_raises.mp fun h => not_raises.mpr ⟨a,ha⟩ (hraises.mpr h)
    have hrest := hfg a b (p s).state
    rw [Raises,Raises,bind_of_ok ha,bind_of_ok hb]
    rw [hstate] at hrest ⊢
    exact hrest

theorem sameCourse_pure (a : α) (b : β) : SameCourse (pure a : Prog σ ω ε α) (pure b : Prog σ ω ε β) := by
  intro s
  refine ⟨⟨?_,?_⟩,rfl⟩ <;>
  · rintro ⟨e,he⟩
    cases he

/-- A program without its value. -/
def void (p : Prog σ ω ε α) : Prog σ ω ε PUnit.{u+1} := p >>= fun _ => pure ⟨⟩

theorem sameCourse_void (p : Prog σ ω ε α) : SameCourse p (void p) := by
  intro s
  rcases raises_or_ends p s with ⟨e,he⟩ | ⟨a,ha⟩
  · rw [void,Raises,Raises,bind_of_error he]
    exact ⟨⟨fun _ => ⟨e,rfl⟩,fun _ => ⟨e,he⟩⟩,rfl⟩
  · have hends : ¬Raises (void p) s := not_raises.mpr ⟨⟨⟩,by rw [void,bind_of_ok ha]; rfl⟩
    refine ⟨⟨fun h => absurd h (not_raises.mpr ⟨a,ha⟩),fun h => absurd h hends⟩,?_⟩
    rw [void,bind_of_ok ha]
    rfl

/-- A loop takes the course of its turns, one after the other. -/
theorem sameCourse_mapM (f : ι → Prog σ ω ε α) (xs : List ι) :
    SameCourse (xs.mapM f) (runAll (xs.map fun x => void (f x))) := by
  induction xs with
  | nil => exact sameCourse_pure [] PUnit.unit
  | cons x xs ih =>
    rw [List.mapM_cons,List.map_cons,runAll_cons]
    refine sameCourse_bind (sameCourse_void (f x)) fun y _ s => ?_
    have hlast := sameCourse_bind (SameCourse.refl (xs.mapM f)) (fun ys _ => sameCourse_pure (y::ys) PUnit.unit) s
    have hvoid := sameCourse_void (xs.mapM f) s
    exact ⟨hlast.1.trans (hvoid.1.symm.trans (ih s).1),hlast.2.trans (hvoid.2.symm.trans (ih s).2)⟩

/-- What comes after and never stops makes no difference. -/
theorem sameStop_tail {p : Prog σ ω ε α} {f : α → Prog σ ω ε β} (hf : ∀ a s, ¬Raises (f a) s) : SameStop (p >>= f) p := by
  intro s
  rcases raises_or_ends p s with ⟨e,he⟩ | ⟨a,ha⟩
  · rw [Raises,Raises,bind_of_error he,he]
    exact ⟨⟨fun _ => ⟨e,rfl⟩,fun _ => ⟨e,rfl⟩⟩,fun _ => rfl⟩
  · have hends := hf a (p s).state
    have hboth : ¬Raises (p >>= f) s := by rwa [Raises,bind_of_ok ha]
    exact ⟨⟨fun h => absurd h hboth,fun h => absurd h (not_raises.mpr ⟨a,ha⟩)⟩,fun h => absurd h hboth⟩

end Courses

end Stops

end Commits
end Biggy
