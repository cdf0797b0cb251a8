import Mathlib.Data.List.Basic
import Mathlib.Data.List.Induction
import Mathlib.Tactic.Common

/-!
# Runs of a deterministic machine

A machine is a state type, an input type and a step function; what a step puts
out is a second function of the same two arguments. `exec` is the state after a
list of inputs, `emitted` everything the steps put out, and `Meets` says that
every step of the run satisfies a condition in the state it is taken in. The
rules below are the induction principles the later modules use: an invariant is
proved for one step and holds in every state of the run.
-/
namespace Biggy
namespace Run

variable {σ τ ι κ ω : Type*}

/-- The state reached by taking the inputs in order. -/
def exec (step : σ → ι → σ) : σ → List ι → σ
  | s, [] => s
  | s, i::is => exec step (step s i) is

/-- Everything the steps of the run put out, oldest first. -/
def emitted (step : σ → ι → σ) (out : σ → ι → List ω) : σ → List ι → List ω
  | _, [] => []
  | s, i::is => out s i ++ emitted step out (step s i) is

/-- Every step of the run meets the condition in the state it is taken in. -/
def Meets (step : σ → ι → σ) (ok : σ → ι → Prop) : σ → List ι → Prop
  | _, [] => True
  | s, i::is => ok s i ∧ Meets step ok (step s i) is

instance decidableMeets (step : σ → ι → σ) (ok : σ → ι → Prop) [∀ s i, Decidable (ok s i)] :
    (s : σ) → (is : List ι) → Decidable (Meets step ok s is)
  | _, [] => isTrue trivial
  | s, i::is =>
    have := decidableMeets step ok (step s i) is
    inferInstanceAs (Decidable (ok s i ∧ Meets step ok (step s i) is))

section Basic

variable (step : σ → ι → σ) (out : σ → ι → List ω) (ok : σ → ι → Prop)

@[simp] theorem exec_nil (s : σ) : exec step s [] = s := rfl
@[simp] theorem exec_cons (s : σ) (i : ι) (is : List ι) :
    exec step s (i::is) = exec step (step s i) is := rfl
@[simp] theorem emitted_nil (s : σ) : emitted step out s [] = [] := rfl
@[simp] theorem emitted_cons (s : σ) (i : ι) (is : List ι) :
    emitted step out s (i::is) = out s i ++ emitted step out (step s i) is := rfl
@[simp] theorem meets_nil (s : σ) : Meets step ok s [] := trivial
@[simp] theorem meets_cons (s : σ) (i : ι) (is : List ι) :
    Meets step ok s (i::is) ↔ ok s i ∧ Meets step ok (step s i) is := Iff.rfl

theorem exec_append (s : σ) (is js : List ι) :
    exec step s (is++js) = exec step (exec step s is) js := by
  induction is generalizing s with
  | nil => rfl
  | cons i is ih => exact ih (step s i)

theorem emitted_append (s : σ) (is js : List ι) :
    emitted step out s (is++js) = emitted step out s is ++ emitted step out (exec step s is) js := by
  induction is generalizing s with
  | nil => rfl
  | cons i is ih => simp [ih,List.append_assoc]

theorem meets_append (s : σ) (is js : List ι) :
    Meets step ok s (is++js) ↔ Meets step ok s is ∧ Meets step ok (exec step s is) js := by
  induction is generalizing s with
  | nil => simp
  | cons i is ih => simp [ih,and_assoc]

end Basic

variable {step : σ → ι → σ} {out : σ → ι → List ω} {ok good : σ → ι → Prop}

/-- An invariant kept by every admissible step holds after every admissible run. -/
theorem invariant (Inv : σ → Prop) (hstep : ∀ s i, Inv s → ok s i → Inv (step s i)) {s : σ} {is : List ι}
    (hs : Inv s) (hrun : Meets step ok s is) : Inv (exec step s is) := by
  induction is generalizing s with
  | nil => exact hs
  | cons i is ih => exact ih (hstep s i hs hrun.1) hrun.2

/-- An invariant kept by every step holds after every run. -/
theorem invariant_all (Inv : σ → Prop) (hstep : ∀ s i, Inv s → Inv (step s i)) {s : σ} (hs : Inv s)
    (is : List ι) : Inv (exec step s is) := by
  induction is generalizing s with
  | nil => exact hs
  | cons i is ih => exact ih (hstep s i hs)

theorem meets_trivial (s : σ) (is : List ι) : Meets step (fun _ _ => True) s is := by
  induction is generalizing s with
  | nil => trivial
  | cons i is ih => exact ⟨trivial,ih (step s i)⟩

/-- If the condition of a step implies a property of it under an invariant, every
step of an admissible run has the property. -/
theorem meets_of_invariant (Inv : σ → Prop) (hstep : ∀ s i, Inv s → ok s i → Inv (step s i))
    (hgood : ∀ s i, Inv s → ok s i → good s i) {s : σ} {is : List ι}
    (hs : Inv s) (hrun : Meets step ok s is) : Meets step good s is := by
  induction is generalizing s with
  | nil => trivial
  | cons i is ih => exact ⟨hgood s i hs hrun.1,ih (hstep s i hs hrun.1) hrun.2⟩

/-- Two conditions that agree wherever an invariant holds agree on whole runs. -/
theorem meets_congr (Inv : σ → Prop) (hstep : ∀ s i, Inv s → Inv (step s i))
    (hiff : ∀ s i, Inv s → (ok s i ↔ good s i)) {s : σ} (hs : Inv s) (is : List ι) :
    Meets step ok s is ↔ Meets step good s is := by
  induction is generalizing s with
  | nil => rfl
  | cons i is ih => exact and_congr (hiff s i hs) (ih (hstep s i hs))

/-- A step property that holds along the run holds of the step after any prefix. -/
theorem meets_at {s : σ} {is js : List ι} {i : ι} (hrun : Meets step ok s (is++i::js)) :
    ok (exec step s is) i :=
  ((meets_append step ok s is (i::js)).mp hrun).2.1

/-- Every step of a run meets a condition exactly when, at every place of it, the next step does. -/
theorem meets_iff_splits {s : σ} {is : List ι} : Meets step ok s is ↔
    ∀ before i after, is = before++i::after → ok (exec step s before) i := by
  constructor
  · rintro hrun before i after rfl
    exact meets_at hrun
  · intro h
    induction is generalizing s with
    | nil => trivial
    | cons i is ih => exact ⟨h [] i is rfl,ih fun before j after hsplit => h (i::before) j after (by rw [hsplit]; rfl)⟩

/-- Where each admissible step keeps a property exactly under a condition, the property holds in all states of an admissible
run exactly when every step meets the condition. -/
theorem always_iff_meets_of {adm : σ → ι → Prop} (Inv Good : σ → Prop)
    (hstep : ∀ s i, Inv s → Good s → adm s i → Inv (step s i))
    (hiff : ∀ s i, Inv s → Good s → adm s i → (Good (step s i) ↔ ok s i)) {s : σ} (hs : Inv s) (hgood : Good s) {is : List ι}
    (hrun : Meets step adm s is) : (∀ before, before <+: is → Good (exec step s before)) ↔ Meets step ok s is := by
  induction is generalizing s with
  | nil =>
    refine ⟨fun _ => trivial,fun _ before hbefore => ?_⟩
    rw [List.prefix_nil.mp hbefore]
    exact hgood
  | cons i is ih =>
    constructor
    · intro h
      have hfirst : Good (step s i) := h [i] (by simp)
      refine ⟨(hiff s i hs hgood hrun.1).mp hfirst,(ih (hstep s i hs hgood hrun.1) hfirst hrun.2).mp fun before hbefore => ?_⟩
      exact h (i::before) (List.cons_prefix_cons.mpr ⟨rfl,hbefore⟩)
    · rintro ⟨hok,hrest⟩ before hbefore
      rcases before with _ | ⟨j,before⟩
      · exact hgood
      · obtain ⟨rfl,htail⟩ := List.cons_prefix_cons.mp hbefore
        exact (ih (hstep s j hs hgood hrun.1) ((hiff s j hs hgood hrun.1).mpr hok) hrun.2).mpr hrest before htail

/-- The same for runs of which every step is admissible. -/
theorem always_iff_meets (Inv Good : σ → Prop) (hstep : ∀ s i, Inv s → Good s → Inv (step s i))
    (hiff : ∀ s i, Inv s → Good s → (Good (step s i) ↔ ok s i)) {s : σ} (hs : Inv s) (hgood : Good s) (is : List ι) :
    (∀ before, before <+: is → Good (exec step s before)) ↔ Meets step ok s is :=
  always_iff_meets_of Inv Good (fun s i hs hgood _ => hstep s i hs hgood) (fun s i hs hgood _ => hiff s i hs hgood) hs hgood
    (meets_trivial s is)

/-- What a run puts out is put out by one of its steps, in the state that the inputs before it lead to. -/
theorem mem_emitted_iff {s : σ} {is : List ι} {w : ω} : w ∈ emitted step out s is ↔
    ∃ before i after, is = before++i::after ∧ w ∈ out (exec step s before) i := by
  constructor
  · intro h
    induction is generalizing s with
    | nil => cases h
    | cons i is ih =>
      rcases List.mem_append.mp h with h | h
      · exact ⟨[],i,is,rfl,h⟩
      · obtain ⟨before,j,after,rfl,hw⟩ := ih h
        exact ⟨i::before,j,after,rfl,hw⟩
  · rintro ⟨before,i,after,rfl,hw⟩
    rw [emitted_append]
    exact List.mem_append_right _ (List.mem_append_left _ hw)

/-- Nothing is put out twice exactly when no step and no two steps of the run put one thing out twice. -/
theorem nodup_emitted_iff {s : σ} {is : List ι} : (emitted step out s is).Nodup ↔
    (∀ before i after, is = before++i::after → (out (exec step s before) i).Nodup) ∧
      ∀ before i mid j after, is = before++i::(mid++j::after) → ∀ w, w ∈ out (exec step s before) i →
        w ∉ out (exec step s (before++i::mid)) j := by
  induction is generalizing s with
  | nil => simp
  | cons i is ih =>
    rw [emitted_cons,List.nodup_append,ih]
    constructor
    · rintro ⟨hfirst,⟨hnodup,happart⟩,hdisjoint⟩
      refine ⟨fun before j after hsplit => ?_,fun before j mid k after hsplit w hw hw' => ?_⟩
      · rcases before with _ | ⟨j',before⟩
        · obtain ⟨rfl,rfl⟩ := List.cons.inj hsplit
          exact hfirst
        · obtain ⟨rfl,rfl⟩ := List.cons.inj hsplit
          exact hnodup before j after rfl
      · rcases before with _ | ⟨j',before⟩
        · obtain ⟨rfl,rfl⟩ := List.cons.inj hsplit
          exact hdisjoint w hw w (mem_emitted_iff.mpr ⟨mid,k,after,rfl,hw'⟩) rfl
        · obtain ⟨rfl,rfl⟩ := List.cons.inj hsplit
          exact happart before j mid k after rfl w hw hw'
    · rintro ⟨hnodup,happart⟩
      refine ⟨hnodup [] i is rfl,⟨fun before j after hsplit => ?_,fun before j mid k after hsplit => ?_⟩,?_⟩
      · exact hnodup (i::before) j after (by rw [hsplit]; rfl)
      · exact happart (i::before) j mid k after (by rw [hsplit]; rfl)
      · rintro w hw _ hw' rfl
        obtain ⟨mid,k,after,rfl,hmem⟩ := mem_emitted_iff.mp hw'
        exact happart [] i mid k after rfl w hw hmem

/-- A property of the state and of everything put out so far that every admissible
step keeps holds after every admissible run. -/
theorem history_invariant (Inv : σ → List ω → Prop)
    (hstep : ∀ s log i, Inv s log → ok s i → Inv (step s i) (log ++ out s i)) {s : σ} {log : List ω}
    {is : List ι} (hs : Inv s log) (hrun : Meets step ok s is) :
    Inv (exec step s is) (log ++ emitted step out s is) := by
  induction is generalizing s log with
  | nil => simpa using hs
  | cons i is ih =>
    rw [exec_cons,emitted_cons,← List.append_assoc]
    exact ih (hstep s log i hs hrun.1) hrun.2

/-- A part of the state that gets a property only by a cause has it from the last one: nothing has
changed that part since. -/
theorem last_cause {α : Type*} (part : σ → α) (P : α → Prop) (cause : σ → ι → Prop)
    (hstep : ∀ s i, part (step s i) = part s ∨ ¬P (part (step s i)) ∨ cause s i) {s : σ} (hs : ¬P (part s)) {is : List ι}
    (h : P (part (exec step s is))) : ∃ before i after, is = before++i::after ∧ cause (exec step s before) i ∧
      ∀ mid, mid <+: after → part (exec step s (before++i::mid)) = part (exec step s is) := by
  induction is using List.reverseRecOn with
  | nil => exact absurd h hs
  | append_singleton is j ih =>
    have hlast : exec step s (is++[j]) = step (exec step s is) j := exec_append step s is [j]
    rcases hstep (exec step s is) j with hsame | hlost | hcause
    · have hbefore : P (part (exec step s is)) := by rwa [hlast,hsame] at h
      obtain ⟨before,i,after,rfl,hcause,hkept⟩ := ih hbefore
      refine ⟨before,i,after++[j],by simp,hcause,fun mid hmid => ?_⟩
      rcases List.prefix_concat_iff.mp hmid with rfl | hmid
      · simp
      · rw [hkept mid hmid,hlast,hsame]
    · rw [hlast] at h
      exact absurd h hlost
    · refine ⟨is,j,[],rfl,hcause,fun mid hmid => ?_⟩
      rw [List.prefix_nil.mp hmid]

section Repairs

/-! A loop that mends one item after the other, and that a failure leaves. -/

def mendAll (mend : ι → σ → Option σ) : List ι → σ → σ
  | [], s => s
  | i::is, s => match mend i s with
    | none => s
    | some s' => mendAll mend is s'

theorem mendAll_invariant (Inv : σ → Prop) {mend : ι → σ → Option σ}
    (hmend : ∀ i s s', mend i s = some s' → Inv s → Inv s') {is : List ι} {s : σ} (hs : Inv s) :
    Inv (mendAll mend is s) := by
  induction is generalizing s with
  | nil => exact hs
  | cons i is ih =>
    rw [mendAll]
    split
    · exact hs
    · rename_i s' hs'
      exact ih (hmend i s s' hs' hs)

/-- When each item that is left to mend can be mended, and is then no longer to mend, nothing is left in the end. -/
theorem mendAll_good {mend : ι → σ → Option σ} {Good : List ι → σ → Prop}
    (hmend : ∀ i is s, Good (i::is) s → ∃ s', mend i s = some s' ∧ Good is s') {is : List ι} {s : σ}
    (hs : Good is s) : Good [] (mendAll mend is s) := by
  induction is generalizing s with
  | nil => exact hs
  | cons i is ih =>
    obtain ⟨s',hs',hgood⟩ := hmend i is s hs
    simp only [mendAll,hs']
    exact ih hgood

end Repairs

section Timed

/-! A machine whose inputs carry a time, watched by a meter that adds up how long the
machine stays in each of its modes. -/

variable {μ τ : Type*} [DecidableEq μ] [Add τ] [Sub τ]

structure Metered (σ μ τ : Type*) where
  state : σ
  last : τ
  spent : μ → τ

/-- The meter after the time from `last` to `now` in one mode. -/
def elapse (mode : Option μ) (last now : τ) (spent : μ → τ) (m : μ) : τ :=
  if mode = some m then spent m + (now - last) else spent m

def tick (step : σ → ι → σ) (time : ι → τ) (mode : σ → Option μ) (m : Metered σ μ τ) (i : ι) : Metered σ μ τ where
  state := step m.state i
  last := time i
  spent := elapse (mode m.state) m.last (time i) m.spent

/-- The meter does not disturb the machine. -/
theorem tick_exec (step : σ → ι → σ) (time : ι → τ) (mode : σ → Option μ) (m : Metered σ μ τ) (is : List ι) :
    (exec (tick step time mode) m is).state = exec step m.state is := by
  induction is generalizing m with
  | nil => rfl
  | cons i is ih => exact ih (tick step time mode m i)

end Timed

end Run
end Biggy
