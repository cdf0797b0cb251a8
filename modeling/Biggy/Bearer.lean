import Biggy.SignIn

/-!
# Bearer tokens

A token is shown once, to the account that asks for it, and acts for that account until it is revoked.
-/
namespace Biggy
namespace Accounts

open Run

variable {κ : Type*} {env : Env κ}

/-- The account of the token has it revoked. -/
def Revokes (env : Env κ) (s : State) (r : Request) (tok : ApiToken) : Prop :=
  (∃ user, currentUser env s r = some user ∧ user.id = tok.userId) ∧ r.call = .tokenRevoke tok.id ∧
    (respond env s r).flashes = [("Token revoked.","info")]

/-- What is revoked is not in force afterwards. -/
theorem revoked_after {s : State} {r : Request} {tok : ApiToken} (h : Revokes env s r tok) :
    ∀ t ∈ (step env s r).tokens, t.id = tok.id → t.revoked = true := by
  obtain ⟨⟨user,huser,-⟩,hcall,hflashes⟩ := h
  intro t ht hid
  rcases respond_cases env s r with ⟨response,h⟩ | ⟨response,h⟩ | h
  · rw [h] at hflashes
    cases hflashes
  · rw [h] at hflashes
    cases hflashes
  · rw [step,h] at ht
    rw [h] at hflashes
    simp only [hcall,huser,view,asStaff,signedIn] at ht hflashes
    split at hflashes
    · cases hflashes
    · rename_i hstaff
      rw [if_neg hstaff] at ht
      simp only [tokenRevoke] at ht hflashes
      split at hflashes
      · cases hflashes
      · rename_i hfound
        simp only [hfound,stay] at ht
        obtain ⟨old,-,rfl⟩ := List.mem_map.mp ht
        split
        · rfl
        · rename_i hother
          rw [if_neg hother] at hid
          exact absurd hid hother

/-- A token in force was in force before, or the request has made it. -/
theorem mem_step_tokens {s : State} {r : Request} {tok : ApiToken} (hlive : tok.revoked = false) (h : tok ∈ (step env s r).tokens) :
    tok ∈ s.tokens ∨ Mints env (currentUser env s r) r tok := by
  rcases (respond_rows env s r).tokens tok h with ⟨old,hold,hsame | hrevoked⟩ | hmints
  · exact Or.inl (hsame ▸ hold)
  · rw [hrevoked] at hlive
    cases hlive
  · exact Or.inr hmints

/-- In every run that begins without tokens, a request that acts for an account by a bearer token has been preceded by a
request of that very account which made the token, and since then the token has been in force all the time and the account has
not had it revoked. -/
theorem bearer_in_force {κ : Type*} (env : Env κ) {start : State} (htokens : start.tokens = []) (past : List Request)
    (authorization : String) (user : AppUser) (h : loadUserFromToken env (after env start past) authorization = some user) :
    ∃ tok before q mid, past = before++q::mid ∧ Mints env (currentUser env (after env start before) q) q tok ∧
      tok.userId = user.id ∧ tok.tokenHash = env.hashToken (strip (String.ofList (authorization.toList.drop 7))) ∧
      (∀ m, m <+: mid → tok ∈ (after env start (before++q::m)).tokens) ∧
      ∀ m p rest, mid = m++p::rest → ¬Revokes env (after env start (before++q::m)) p tok := by
  obtain ⟨tok,htok,hlive,huser,hhash⟩ := loadUserFromToken_some h
  have hstart : ¬(tok ∈ start.tokens) := by simp [htokens]
  obtain ⟨before,q,mid,hsplit,hmints,hkept⟩ := last_cause (fun s : State => tok ∈ s.tokens) id
    (fun s r => Mints env (currentUser env s r) r tok) (fun s r => by
      by_cases hnew : tok ∈ (step env s r).tokens
      · rcases mem_step_tokens hlive hnew with hold | hmints
        · exact Or.inl (propext ⟨fun _ => hold,fun _ => hnew⟩)
        · exact Or.inr (Or.inr hmints)
      · exact Or.inr (Or.inl hnew)) hstart htok
  have hall : ∀ m, m <+: mid → tok ∈ (after env start (before++q::m)).tokens := fun m hm => (hkept m hm).mpr htok
  refine ⟨tok,before,q,mid,hsplit,hmints,huser,hhash,hall,?_⟩
  rintro m p rest rfl hrevokes
  have hnext := hall (m++[p]) ⟨rest,by simp⟩
  rw [show before++q::(m++[p]) = (before++q::m)++[p] by simp,after_append] at hnext
  rw [revoked_after hrevokes tok hnext rfl] at hlive
  cases hlive

/-- The first account signs in and makes a token. -/
def sampleTokens : List Request :=
  [⟨.blank,"",0,1,.login (some ("ada","lovelace")) "10.0.0.1" none⟩,
    ⟨⟨some 1,none,none,none,none,none,none⟩,"",1,1,.tokens (some "cli") "x" 1⟩]

/-- The token acts for the account that has made it. -/
theorem bearer_in_force_ada : ∃ tok before q mid, sampleTokens = before++q::mid ∧
    Mints sampleEnv (currentUser sampleEnv (after sampleEnv sampleStart before) q) q tok ∧ tok.userId = ada.id := by
  obtain ⟨tok,before,q,mid,hsplit,hmints,huser,-⟩ :=
    @bearer_in_force Unit sampleEnv sampleStart rfl sampleTokens "Bearer biggy_x" ada (by decide +kernel)
  exact ⟨tok,before,q,mid,hsplit,hmints,huser⟩

end Accounts
end Biggy
