import Biggy.RateLimit
import Mathlib.Order.Defs.LinearOrder
import Mathlib.Algebra.Order.Ring.Int

/-!
# When to call again

A refused call is told to wait until the oldest hit is a window old. A hit that is exactly as old as the window still
counts, so the wait is short of one moment when the oldest hit is a whole number of seconds old.
-/
namespace Biggy
namespace RateLimit

open Run

section Wait

variable {limit window : ℤ} {hits : List RateHit} {key : String}

/-- No window that ends after the last call holds more hits than the limit. -/
def Held (limit window last : ℤ) (hits : List RateHit) : Prop :=
  ∀ key cutoff, last - seconds window ≤ cutoff → (hits.countP (counts key cutoff) : ℤ) ≤ limit

theorem Held.later {last now : ℤ} (h : Held limit window last hits) (hle : last ≤ now) : Held limit window now hits :=
  fun key cutoff hcutoff => h key cutoff (by omega)

theorem countP_filter_le (p q : RateHit → Bool) : (hits.filter q).countP p ≤ hits.countP p :=
  List.Sublist.countP_le List.filter_sublist

theorem held_step {last : ℤ} (h : Held limit window last hits) (call : Call) (hnow : last ≤ call.now) :
    Held limit window call.now (step limit window hits call) := by
  cases call with
  | sweep now =>
    intro key cutoff hcutoff
    exact le_trans (by exact_mod_cast countP_filter_le _ _) ((h.later hnow) key cutoff hcutoff)
  | hitOk own now =>
    have hheld : Held limit window now hits := h.later hnow
    simp only [step,hitOk]
    split
    · exact hheld
    · split
      · exact hheld
      · rename_i hroom
        intro key cutoff hcutoff
        rw [List.countP_append,List.countP_singleton]
        by_cases hown : counts key cutoff ⟨own,now⟩ = true
        · obtain ⟨rfl,-⟩ : own = key ∧ cutoff ≤ now := by simpa [counts] using hown
          have hsub : hits.countP (counts own cutoff) ≤ hits.countP (counts own (now - seconds window)) := by
            refine List.countP_mono_left fun hit _ hhit => ?_
            simp only [counts,decide_eq_true_eq] at hhit ⊢
            have hcutoff' : now - seconds window ≤ cutoff := hcutoff
            exact ⟨hhit.1,by omega⟩
          rw [if_pos hown]
          simp only [windowState] at hroom
          omega
        · rw [if_neg hown]
          exact hheld key cutoff hcutoff

theorem held_run {last : ℤ} {calls : List Call} (h : Held limit window last hits)
    (htimes : (last::calls.map Call.now).Pairwise (· ≤ ·)) {now : ℤ} (hlast : last ≤ now) (hnow : ∀ c ∈ calls, c.now ≤ now) :
    Held limit window now (exec (step limit window) hits calls) := by
  induction calls generalizing last hits with
  | nil => exact h.later hlast
  | cons call calls ih =>
    rw [List.map_cons,List.pairwise_cons] at htimes
    exact ih (held_step h call (htimes.1 _ List.mem_cons_self)) htimes.2 (hnow _ List.mem_cons_self)
      fun c hc => hnow c (List.mem_cons_of_mem _ hc)

/-- The time of the earliest hit of the key that is at most a window old. -/
def Oldest (key : String) (window now : ℤ) (hits : List RateHit) (t : ℤ) : Prop :=
  (∃ hit ∈ hits, counts key (now - seconds window) hit = true ∧ hit.time = t) ∧
    ∀ hit ∈ hits, counts key (now - seconds window) hit = true → t ≤ hit.time

theorem oldest_iff {now t : ℤ} : (windowState key window now hits).2 = some t ↔ Oldest key window now hits t := by
  simp only [windowState,List.min?_eq_some_iff,List.mem_map,List.mem_filter,Oldest]
  refine and_congr (exists_congr fun hit => by rw [and_assoc]) ⟨fun h hit hmem hin => h _ ⟨hit,⟨hmem,hin⟩,rfl⟩,?_⟩
  rintro h _ ⟨hit,⟨hmem,hin⟩,rfl⟩
  exact h hit hmem hin

/-- The hit survives the sweeps among the calls. -/
def survives (calls : List Call) (hit : RateHit) : Bool :=
  calls.all fun
    | .sweep now => decide (now - minutes 60 ≤ hit.time)
    | .hitOk _ _ => true

/-- Calls for other keys leave the hits of the key alone, apart from sweeps. -/
theorem count_others {others : List Call} (hothers : ∀ t, .hitOk key t ∉ others) (cutoff : ℤ) :
    (exec (step limit window) hits others).countP (counts key cutoff) =
      hits.countP fun hit => counts key cutoff hit && survives others hit := by
  induction others generalizing hits with
  | nil => simp [survives]
  | cons call others ih =>
    rw [exec_cons,ih fun t ht => hothers t (List.mem_cons_of_mem _ ht)]
    cases call with
    | sweep now =>
      rw [step,sweep,List.countP_filter]
      refine List.countP_congr fun hit _ => ?_
      simp only [survives,List.all_cons,Bool.and_eq_true,decide_eq_true_eq]
      tauto
    | hitOk other now =>
      have hother : other ≠ key := fun heq => hothers now (heq ▸ List.mem_cons_self)
      simp only [step,hitOk]
      have hsame : ∀ hit, survives (.hitOk other now::others) hit = survives others hit := fun hit => rfl
      simp only [hsame]
      split
      · rfl
      · split
        · rfl
        · rw [List.countP_append,List.countP_singleton,if_neg (by simp [counts,hother]),Nat.add_zero]

/-- After the wait the hit is out of the window unless it was a whole number of seconds old, and less than a window. -/
theorem outlived_iff {now t : ℤ} (hin : now - seconds window ≤ t) :
    t < now + seconds (retryAfter (some t) window now) - seconds window ↔ ¬1000000 ∣ now - t ∨ now - t = seconds window := by
  simp only [retryAfter,seconds] at hin ⊢
  rcases le_total (window - (now - t) / 1000000) 1 with hle | hle
  · rw [max_eq_left hle]
    omega
  · rw [max_eq_right hle]
    omega

/-- The key stays full exactly as long as its oldest hit counts. -/
theorem room_iff {now cutoff t : ℤ} (hfull : (hits.countP (counts key (now - seconds window)) : ℤ) = limit)
    (hcutoff : now - seconds window ≤ cutoff) (ht : Oldest key window now hits t) (others : List Call) :
    ((hits.countP fun hit => counts key cutoff hit && survives others hit : ℕ) : ℤ) < limit ↔
      t < cutoff ∨ ∃ s, .sweep s ∈ others ∧ t < s - minutes 60 := by
  obtain ⟨⟨oldest,hmem,hin,rfl⟩,hfirst⟩ := ht
  have hkept : ∀ hit, (counts key cutoff hit && survives others hit) = true ↔
      hit.key = key ∧ cutoff ≤ hit.time ∧ ∀ s, .sweep s ∈ others → s - minutes 60 ≤ hit.time := by
    intro hit
    simp only [counts,survives,Bool.and_eq_true,decide_eq_true_eq,List.all_eq_true,and_assoc]
    refine and_congr_right fun _ => and_congr_right fun _ => ⟨fun h s hs => by simpa using h _ hs,fun h c hc => ?_⟩
    cases c with
    | sweep s => simpa using h s hc
    | hitOk other now => rfl
  have hkey : oldest.key = key := by
    have := hin
    simp only [counts,decide_eq_true_eq] at this
    exact this.1
  have hsame : hits.countP (fun hit => counts key cutoff hit && survives others hit) =
      (hits.filter (counts key (now - seconds window))).countP fun hit => counts key cutoff hit && survives others hit := by
    rw [List.countP_filter]
    refine List.countP_congr fun hit _ => ?_
    rw [Bool.and_eq_true _ (counts key (now - seconds window) hit),iff_self_and]
    intro hhit
    obtain ⟨hown,hlate,-⟩ := (hkept hit).mp hhit
    simp only [counts,decide_eq_true_eq]
    exact ⟨hown,by omega⟩
  have hlength : (hits.filter (counts key (now - seconds window))).length = hits.countP (counts key (now - seconds window)) :=
    List.countP_eq_length_filter.symm
  have hall : (hits.filter (counts key (now - seconds window))).countP
        (fun hit => counts key cutoff hit && survives others hit) = (hits.filter (counts key (now - seconds window))).length ↔
      (counts key cutoff oldest && survives others oldest) = true := by
    rw [List.countP_eq_length]
    refine ⟨fun h => h oldest (List.mem_filter.mpr ⟨hmem,hin⟩),fun h hit hhit => ?_⟩
    obtain ⟨hmem',hin'⟩ := List.mem_filter.mp hhit
    obtain ⟨-,hlate,hswept⟩ := (hkept oldest).mp h
    have hle := hfirst hit hmem' hin'
    have hown : hit.key = key := by
      simp only [counts,decide_eq_true_eq] at hin'
      exact hin'.1
    exact (hkept hit).mpr ⟨hown,hlate.trans hle,fun s hs => (hswept s hs).trans hle⟩
  have hle := List.countP_le_length (p := fun hit => counts key cutoff hit && survives others hit)
    (l := hits.filter (counts key (now - seconds window)))
  have hlt : ((hits.countP fun hit => counts key cutoff hit && survives others hit : ℕ) : ℤ) < limit ↔
      ¬(counts key cutoff oldest && survives others oldest) = true := by
    rw [← hall,hsame]
    omega
  rw [hlt,hkept]
  constructor
  · intro h
    by_contra hnot
    simp only [not_or,not_lt,not_exists,not_and] at hnot
    exact h ⟨hkey,hnot.1,hnot.2⟩
  · rintro (hout | ⟨s,hs,hout⟩) ⟨-,hlate,hswept⟩
    · exact absurd hlate (not_le.mpr hout)
    · exact absurd (hswept s hs) (not_le.mpr hout)

end Wait

end RateLimit
end Biggy
