import Mathlib.Data.List.Basic
import Mathlib.Tactic.Common

/-!
# UTF-16

The code units of a text: a character beyond the first plane has a high and a low surrogate.
No text starts with a low surrogate, so what is found among the units is found in the text.
-/
namespace Biggy
namespace Utf16

/-- The code units of a character. -/
def unitsOf (c : Char) : List ℕ :=
  if c.toNat < 0x10000 then [c.toNat]
  else [0xD800+(c.toNat-0x10000)/0x400,0xDC00+(c.toNat-0x10000)%0x400]

/-- The code units of a text. -/
def encode (cs : List Char) : List ℕ := cs.flatMap unitsOf

def lowSurrogate (u : ℕ) : Prop := 0xDC00 ≤ u ∧ u < 0xE000

@[simp] theorem encode_nil : encode [] = [] := rfl

@[simp] theorem encode_cons (c : Char) (cs : List Char) : encode (c::cs) = unitsOf c++encode cs := rfl

theorem char_bound (c : Char) : c.toNat < 0x110000 ∧ ¬(0xD800 ≤ c.toNat ∧ c.toNat < 0xE000) := by
  have hvalid := c.valid
  simp only [UInt32.isValidChar,Nat.isValidChar] at hvalid
  have hnat : c.toNat = c.val.toNat := rfl
  omega

/-- A character begins with a unit that is no low surrogate; a second one is a low surrogate. -/
theorem unitsOf_cases (c : Char) : (∃ u, unitsOf c = [u] ∧ ¬lowSurrogate u) ∨
    ∃ u v, unitsOf c = [u,v] ∧ ¬lowSurrogate u ∧ lowSurrogate v := by
  have hbound := char_bound c
  by_cases hsmall : c.toNat < 0x10000
  · exact Or.inl ⟨c.toNat,by rw [unitsOf,if_pos hsmall],by simp only [lowSurrogate]; omega⟩
  · refine Or.inr ⟨_,_,by rw [unitsOf,if_neg hsmall],?_,?_⟩
    · simp only [lowSurrogate]
      omega
    · simp only [lowSurrogate]
      omega

/-- No character's units begin another one's. -/
theorem unitsOf_append_inj {c d : Char} {xs ys : List ℕ} (h : unitsOf c++xs = unitsOf d++ys) : c = d ∧ xs = ys := by
  have hc := char_bound c
  have hd := char_bound d
  have hsame : ∀ {c d : Char}, c.toNat = d.toNat → c = d := fun heq => Char.ext (UInt32.toNat_inj.mp heq)
  by_cases hcs : c.toNat < 0x10000 <;> by_cases hds : d.toNat < 0x10000 <;>
    simp only [unitsOf,hcs,hds,if_true,if_false,List.cons_append,List.nil_append,List.cons.injEq] at h
  · exact ⟨hsame h.1,h.2⟩
  · omega
  · omega
  · exact ⟨hsame (by omega),h.2.2⟩

theorem encode_prefix {cs ds : List Char} : encode cs <+: encode ds ↔ cs <+: ds := by
  induction cs generalizing ds with
  | nil => simp
  | cons c cs ih =>
    cases ds with
    | nil =>
      rcases unitsOf_cases c with ⟨u,hu,-⟩ | ⟨u,v,hu,-,-⟩ <;> simp [hu]
    | cons d ds =>
      rw [List.cons_prefix_cons,encode_cons,encode_cons]
      constructor
      · rintro ⟨rest,hrest⟩
        rw [List.append_assoc] at hrest
        obtain ⟨rfl,htail⟩ := unitsOf_append_inj hrest
        exact ⟨rfl,ih.mp ⟨rest,htail⟩⟩
      · rintro ⟨rfl,hpre⟩
        exact (List.prefix_append_right_inj _).mpr (ih.mpr hpre)

/-- The units tell the text. -/
theorem encode_injective {cs ds : List Char} (h : encode cs = encode ds) : cs = ds := by
  have hle : cs <+: ds := encode_prefix.mp (h ▸ List.prefix_rfl)
  have hge : ds <+: cs := encode_prefix.mp (h ▸ List.prefix_rfl)
  exact hle.eq_of_length_le hge.length_le

/-- Inside the units of a character no text begins. -/
theorem not_prefix_low {cs : List Char} (hne : cs ≠ []) {v : ℕ} (hv : lowSurrogate v) (rest : List ℕ) :
    ¬encode cs <+: v::rest := by
  cases cs with
  | nil => exact absurd rfl hne
  | cons c cs =>
    rintro ⟨more,hmore⟩
    rw [encode_cons] at hmore
    rcases unitsOf_cases c with ⟨u,hu,hlow⟩ | ⟨u,w,hu,hlow,-⟩
    · rw [hu] at hmore
      obtain rfl : u = v := (List.cons.inj hmore).1
      exact hlow hv
    · rw [hu] at hmore
      obtain rfl : u = v := (List.cons.inj hmore).1
      exact hlow hv

/-- What is found among the units is found in the text. -/
theorem encode_infix {cs ds : List Char} : encode cs <:+: encode ds ↔ cs <:+: ds := by
  induction ds with
  | nil =>
    rw [encode_nil,List.infix_nil,List.infix_nil]
    exact ⟨fun h => encode_injective h,fun h => h ▸ rfl⟩
  | cons d ds ih =>
    by_cases hne : cs = []
    · subst hne
      exact iff_of_true List.nil_infix List.nil_infix
    rw [List.infix_cons_iff,← ih,← encode_prefix,encode_cons]
    rcases unitsOf_cases d with ⟨u,hu,-⟩ | ⟨u,v,hu,-,hlow⟩
    · rw [hu,List.singleton_append,List.infix_cons_iff]
    · rw [hu,List.cons_append,List.singleton_append,List.infix_cons_iff,List.infix_cons_iff]
      constructor
      · rintro (hpre | hpre | hin)
        · exact Or.inl hpre
        · exact absurd hpre (not_prefix_low hne hlow _)
        · exact Or.inr hin
      · rintro (hpre | hin)
        · exact Or.inl hpre
        · exact Or.inr (Or.inr hin)

end Utf16
end Biggy
