import Biggy.SessionEffects

/-!
# Whoever acts has signed in

`authority` follows every request that is served for an account back to what proved the account: its password, its
password and then a code of its second factor, an identity token for a sign-in that this server asked for, or the setup.
-/
namespace Biggy
namespace Accounts

open Run TwoFactor

/-! ### Proofs of an account -/

section Proofs

variable {κ : Type*} (env : Env κ) (start : State)

/-- The state after some requests. -/
def after (requests : List Request) : State := exec (step env) start requests

/-- One of the requests gave the password of the account while the account had a second factor. -/
def PasswordGiven (past : List Request) (id : ℕ) : Prop :=
  ∃ before r rest, past = before++r::rest ∧ GivesPassword env (after env start before).users r id true

/-- One of the requests asked the provider with this state and this nonce. -/
def Asked (past : List Request) (state nonce : String) : Prop := ∃ before r rest, past = before++r::rest ∧ AsksProvider r state nonce

/-- The requests hold a proof of the account. -/
inductive Proven (past : List Request) (id : ℕ) : Prop
  | password (before : List Request) (r : Request) (rest : List Request) (hpast : past = before++r::rest)
      (h : GivesPassword env (after env start before).users r id false)
  | code (before : List Request) (r : Request) (rest : List Request) (hpast : past = before++r::rest)
      (hpassword : PasswordGiven env start before id) (h : GivesCode env (after env start before).users r id)
  | identity (before : List Request) (r : Request) (rest : List Request) (hpast : past = before++r::rest) (state nonce : String)
      (hasked : Asked before state nonce) (h : GivesIdentity env (after env start (before++[r])).users r state (some nonce) id)
  | setup (before : List Request) (r : Request) (rest : List Request) (hpast : past = before++r::rest)
      (h : SetsUp (after env start before).users r id)

variable {env start}

theorem PasswordGiven.later {past : List Request} {id : ℕ} (h : PasswordGiven env start past id) (r : Request) :
    PasswordGiven env start (past++[r]) id := by
  obtain ⟨before,q,rest,rfl,hgives⟩ := h
  exact ⟨before,q,rest++[r],by simp,hgives⟩

theorem Asked.later {past : List Request} {state nonce : String} (h : Asked past state nonce) (r : Request) :
    Asked (past++[r]) state nonce := by
  obtain ⟨before,q,rest,rfl,hasks⟩ := h
  exact ⟨before,q,rest++[r],by simp,hasks⟩

theorem Proven.later {past : List Request} {id : ℕ} (h : Proven env start past id) (r : Request) :
    Proven env start (past++[r]) id := by
  cases h with
  | password before q rest hpast h => exact .password before q (rest++[r]) (by rw [hpast]; simp) h
  | code before q rest hpast hpassword h => exact .code before q (rest++[r]) (by rw [hpast]; simp) hpassword h
  | identity before q rest hpast state nonce hasked h =>
    exact .identity before q (rest++[r]) (by rw [hpast]; simp) state nonce hasked h
  | setup before q rest hpast h => exact .setup before q (rest++[r]) (by rw [hpast]; simp) h

end Proofs

/-! ### Over every run -/

section Runs

variable {κ : Type*} {env : Env κ} {start : State} {past : List Request}

/-- What a session and the tokens say is proven. -/
structure Sound (env : Env κ) (start : State) (past : List Request) (c : Cookie) : Prop where
  user : ∀ id, c.userId = some id → Proven env start past id
  pending : ∀ id, c.mfaUid = some id → PasswordGiven env start past id
  asked : ∀ state, c.oidcState = some state → ∃ nonce, c.oidcNonce = some nonce ∧ Asked past state nonce

theorem sound_blank : Sound env start past .blank := by
  refine ⟨fun _ h => ?_,fun _ h => ?_,fun _ h => ?_⟩ <;> cases h

theorem Sound.later {c : Cookie} (h : Sound env start past c) (r : Request) : Sound env start (past++[r]) c := by
  refine ⟨fun id hid => (h.user id hid).later r,fun id hid => (h.pending id hid).later r,fun state hstate => ?_⟩
  obtain ⟨nonce,hnonce,hasked⟩ := h.asked state hstate
  exact ⟨nonce,hnonce,hasked.later r⟩

/-- An effect on a sound session makes a sound session. -/
theorem sound_effect {r : Request} {c new : Cookie} (hc : Sound env start past c)
    (heffect : Effect env (after env start past).users (after env start (past++[r])).users r c new) :
    Sound env start (past++[r]) new := by
  have hlater := hc.later r
  refine ⟨fun id hid => ?_,fun id hid => ?_,fun state hstate => ?_⟩
  · rcases heffect.user with hsame | hnone | ⟨id',hid',hsigns⟩
    · exact hlater.user id (hsame ▸ hid)
    · rw [hnone] at hid
      cases hid
    · obtain rfl : id' = id := Option.some.inj (hid'.symm.trans hid)
      rcases hsigns with hpassword | ⟨hpending,hcode⟩ | ⟨state,hstate,hidentity⟩ | hsetup
      · exact .password past r [] rfl hpassword
      · exact .code past r [] rfl (hc.pending id' hpending) hcode
      · obtain ⟨nonce,hnonce,hasked⟩ := hc.asked state hstate
        rw [hnonce] at hidentity
        exact .identity past r [] rfl state nonce hasked hidentity
      · exact .setup past r [] rfl hsetup
  · rcases heffect.pending with hsame | hnone | ⟨id',hid',hpassword⟩
    · exact hlater.pending id (hsame ▸ hid)
    · rw [hnone] at hid
      cases hid
    · obtain rfl : id' = id := Option.some.inj (hid'.symm.trans hid)
      exact ⟨past,r,[],rfl,hpassword⟩
  · rcases heffect.asked with ⟨hsame,hnonce⟩ | hnone | ⟨state',nonce,hstate',hnonce,hasks⟩
    · obtain ⟨nonce,hold,hasked⟩ := hlater.asked state (hsame ▸ hstate)
      exact ⟨nonce,hnonce.trans hold,hasked⟩
    · rw [hnone] at hstate
      cases hstate
    · obtain rfl : state' = state := Option.some.inj (hstate'.symm.trans hstate)
      exact ⟨nonce,hnonce,past,r,[],rfl,hasks⟩

/-- Every cookie that was issued is sound, and every token is of an account that was proven. -/
structure Rooted (env : Env κ) (start : State) (past : List Request) : Prop where
  issued : ∀ c ∈ (after env start past).issued, Sound env start past c
  tokens : ∀ t ∈ (after env start past).tokens, Proven env start past t.userId

theorem sound_open (h : Rooted env start past) (c : Cookie) : Sound env start past (openCookie (after env start past) c) := by
  rw [openCookie]
  split
  · rename_i hissued
    exact h.issued c hissued
  · exact sound_blank

theorem loadUser_id {s : State} {id : ℕ} {user : AppUser} (h : loadUser s id = some user) : user.id = id := by
  rw [loadUser,Option.filter_eq_some_iff] at h
  exact (mem_of_getUser h.1).2

/-- A bearer token acts for its account. -/
theorem loadUserFromToken_some {s : State} {authorization : String} {user : AppUser}
    (h : loadUserFromToken env s authorization = some user) : ∃ t ∈ s.tokens, t.revoked = false ∧ t.userId = user.id ∧
      t.tokenHash = env.hashToken (strip (String.ofList (authorization.toList.drop 7))) := by
  unfold loadUserFromToken at h
  split at h
  · cases h
  · dsimp only at h
    split at h
    · cases h
    · split at h
      · cases h
      · rename_i t hfound
        have hmatch := List.find?_some hfound
        simp only [Bool.and_eq_true,decide_eq_true_eq,Bool.not_eq_true'] at hmatch
        exact ⟨t,List.mem_of_find?_eq_some hfound,hmatch.2,(loadUser_id h).symm,hmatch.1⟩

/-- Who a request acts for is proven. -/
theorem proven_current (h : Rooted env start past) {r : Request} {user : AppUser}
    (hcurrent : currentUser env (after env start past) r = some user) : Proven env start past user.id := by
  rw [currentUser] at hcurrent
  split at hcurrent
  · rename_i found hsession
    obtain ⟨id,hid,hload⟩ := Option.bind_eq_some_iff.mp hsession
    rw [← Option.some.inj hcurrent,loadUser_id hload]
    exact (sound_open h r.cookie).user id hid
  · obtain ⟨t,ht,-,hid,-⟩ := loadUserFromToken_some hcurrent
    rw [← hid]
    exact h.tokens t ht

theorem after_append (past : List Request) (r : Request) : after env start (past++[r]) = step env (after env start past) r :=
  exec_append (step env) start past [r]

theorem rooted_step (h : Rooted env start past) (r : Request) : Rooted env start (past++[r]) := by
  have heffect := respond_effect env (after env start past) r
  have hrows := respond_rows env (after env start past) r
  refine ⟨fun c hc => ?_,fun t ht => ?_⟩
  · rw [after_append,step] at hc
    rcases List.mem_cons.mp hc with rfl | hc
    · refine sound_effect (sound_open h r.cookie) ?_
      rw [after_append]
      exact heffect
    · exact (h.issued c (hrows.issued ▸ hc)).later r
  · rw [after_append,step] at ht
    rcases hrows.tokens t ht with ⟨old,hold,rfl | rfl⟩ | ⟨user,name,raw,id,huser,-,rfl⟩
    · exact (h.tokens t hold).later r
    · exact (h.tokens old hold).later r
    · exact (proven_current h huser).later r

theorem rooted_run (hissued : start.issued = []) (htokens : start.tokens = []) (past : List Request) : Rooted env start past := by
  induction past using List.reverseRecOn with
  | nil =>
    refine ⟨fun c hc => ?_,fun t ht => ?_⟩
    · rw [after,exec_nil,hissued] at hc
      cases hc
    · rw [after,exec_nil,htokens] at ht
      cases ht
  | append_singleton past r ih => exact rooted_step ih r

end Runs

/-- With no cookie and no token to begin with, in every run, whichever of the issued cookies and tokens the requests bring,
a request is served for an account only after the account was proven: by its password while it had no second factor, by its
password and later a good code, by a verified identity for a sign-in that was asked for here, or as the first designer. -/
theorem authority {κ : Type*} (env : Env κ) {start : State} (hissued : start.issued = []) (htokens : start.tokens = [])
    (past : List Request) (r : Request) (user : AppUser) (hcurrent : currentUser env (after env start past) r = some user) :
    Proven env start past user.id :=
  proven_current (rooted_run hissued htokens past) hcurrent

/-- An installation whose password hashes are the passwords, with a designer and an account that has a second factor. -/
def sampleEnv : Env Unit where
  fold := id
  cascades := true
  checkPasswordHash := fun hash password => hash == password
  generatePasswordHash := fun _ password => password
  factor := fun _ => sampleFactor
  hashToken := id
  rateLimit := some 5
  rateWindow := some 300
  requireMfa := false
  url := ⟨fun bytes => bytes.map Char.ofNat,fun _ => some ("",""),fun bytes => by simp,fun cs _ => by simp [Function.comp_def,Char.ofNat_toNat]⟩
  oidcLib := IdToken.openLib
  settings := IdToken.client
  provider := IdToken.oneKey
  repr := fun _ => ""
  usernameClaim := "email"
  provision := "link"
  defaultRole := "user"

def ada : AppUser := ⟨1,"ada","lovelace","designer",true,none,false,none,none⟩
def bob : AppUser := ⟨2,"bob","builder","user",true,some "KEY",true,some [],none⟩

def sampleStart : State := ⟨[ada,bob],[],[],["designer","user"],[],[]⟩

/-- The second account signs in with its password and its code, and comes back. -/
theorem authority_bob : Proven sampleEnv sampleStart
    [⟨.blank,"",0,1,.login (some ("bob","builder")) "10.0.0.1" none⟩,
      ⟨⟨none,some 2,some "/",none,none,none,none⟩,"",1,1,.mfaVerify (some "000000")⟩] bob.id :=
  authority sampleEnv rfl rfl _ ⟨⟨some 2,none,none,none,none,none,none⟩,"",2,1,.page "user.dashboard"⟩ bob (by decide +kernel)

end Accounts
end Biggy
