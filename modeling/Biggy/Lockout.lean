import Biggy.SignIn

/-!
# Guessing is limited

A wrong password counts against the user name and the address that it came from, a wrong code against the account, whatever
browser it is entered in.
-/
namespace Biggy
namespace Accounts

open Run RateLimit

section Guesses

variable {κ : Type*} (env : Env κ)

/-- The wrong guess that the request has had tested, once for each key that it counts against. -/
def guesses (s : State) (r : Request) : List RateHit :=
  match r.call with
  | .login (some (username,_)) remoteAddr _ =>
    if (respond env s r).flashes = [("Invalid credentials or inactive account.","danger")] then
      (loginKeys username remoteAddr).map fun key => ⟨key,r.now⟩
    else []
  | .mfaVerify (some _) =>
    if (respond env s r).flashes = [("Invalid authentication code.","danger")] then
      [⟨mfaKey ((openCookie s r.cookie).mfaUid.getD 0),r.now⟩]
    else []
  | _ => []

variable {env} {s : State} {r : Request}

/-- The keys of the guesses are not locked, and the hits get just the guesses. -/
def Tested (env : Env κ) (s : State) (r : Request) (hits : List RateHit) : Prop :=
  hits = s.hits++guesses env s r ∧ ((guesses env s r).map RateHit.key).Nodup ∧
    ∀ g ∈ guesses env s r, g.time = r.now ∧ isBlocked env s g.key r.now = false

theorem tested_none {hits : List RateHit} (hhits : hits = s.hits) (hnone : guesses env s r = []) : Tested env s r hits := by
  rw [Tested,hnone,List.append_nil]
  exact ⟨hhits,List.nodup_nil,fun g hg => by cases hg⟩

theorem loginKeys_ne (username remoteAddr : String) : "login:"++username ≠ "login-ip:"++remoteAddr := by
  intro h
  have hchars := congrArg (fun s : String => s.toList[5]?) h
  simp at hchars

theorem isBlocked_seen (key : String) (now : ℤ) : isBlocked env (seen s r) key now = isBlocked env s key now := by
  rw [isBlocked,isBlocked,seen_hits]

/-- What the server answers without a view is no refusal. -/
theorem guesses_stay {s' : State} {cookie : Cookie} {response : Response} (h : respond env s r = stay s' cookie response []) :
    guesses env s r = [] := by
  unfold guesses
  repeat' split
  all_goals first | rfl | skip
  all_goals
    rename_i hflashes
    rw [h] at hflashes
    cases hflashes

theorem login_tested {username password remoteAddr : String} {next : Option String}
    (hcall : r.call = .login (some (username,password)) remoteAddr next)
    (h : respond env s r = login env (seen s r) (openCookie s r.cookie) (some (username,password)) remoteAddr next r.now) :
    Tested env s r (respond env s r).state.hits := by
  have hguesses : guesses env s r =
      if (respond env s r).flashes = [("Invalid credentials or inactive account.","danger")] then
        (loginKeys username remoteAddr).map fun key => ⟨key,r.now⟩ else [] := by simp only [guesses,hcall]
  have hnone : ∀ {reply : Reply}, respond env s r = reply → reply.flashes = [] ∨ reply.flashes = tooMany →
      reply.state.hits = s.hits → Tested env s r (respond env s r).state.hits := by
    rintro reply rfl hflashes hhits
    refine tested_none hhits (hguesses.trans (if_neg ?_))
    rcases hflashes with h | h <;> rw [h] <;> decide
  simp only [login] at h
  split at h
  · exact hnone h (Or.inr rfl) (seen_hits s r)
  · rename_i hfree
    have hfree : ∀ key ∈ loginKeys username remoteAddr, isBlocked env s key r.now = false := by
      simpa [isBlocked_seen] using hfree
    split at h
    · split at h
      · exact hnone h (Or.inl rfl) (seen_hits s r)
      · exact hnone h (Or.inl rfl) (seen_hits s r)
    · have hgiven := hguesses.trans (if_pos (by rw [h]))
      rw [Tested,hgiven]
      refine ⟨?_,?_,fun g hg => ?_⟩
      · rw [h]
        simp only [seen_hits,loginKeys,List.foldl_cons,List.foldl_nil,record,List.map_cons,List.map_nil,List.append_assoc]
        rfl
      · simpa [loginKeys] using loginKeys_ne username remoteAddr
      · obtain ⟨key,hkey,rfl⟩ := List.mem_map.mp hg
        exact ⟨rfl,hfree key hkey⟩

theorem mfaVerify_tested {code : String} (hcall : r.call = .mfaVerify (some code))
    (h : respond env s r = mfaVerify env (seen s r) (openCookie s r.cookie) (some code) r.now) :
    Tested env s r (respond env s r).state.hits := by
  have hguesses : guesses env s r =
      if (respond env s r).flashes = [("Invalid authentication code.","danger")] then
        [⟨mfaKey ((openCookie s r.cookie).mfaUid.getD 0),r.now⟩] else [] := by simp only [guesses,hcall]
  have hnone : ∀ {reply : Reply}, respond env s r = reply → reply.flashes = [] ∨ reply.flashes = tooMany →
      reply.state.hits = s.hits → Tested env s r (respond env s r).state.hits := by
    rintro reply rfl hflashes hhits
    refine tested_none hhits (hguesses.trans (if_neg ?_))
    rcases hflashes with h | h <;> rw [h] <;> decide
  unfold mfaVerify at h
  split at h
  · exact hnone h (Or.inl rfl) (seen_hits s r)
  · cases huser : pending (seen s r) (openCookie s r.cookie) with
    | none =>
      rw [huser] at h
      exact hnone h (Or.inl rfl) (seen_hits s r)
    | some user =>
      obtain ⟨-,hpending,-,-⟩ := pending_some huser
      simp only [huser] at h
      split at h
      · exact hnone h (Or.inr rfl) (seen_hits s r)
      · rename_i hfree
        unfold submitCode at h
        split at h
        · exact hnone h (Or.inl rfl) (seen_hits s r)
        · exact hnone h (Or.inl rfl) (seen_hits s r)
        · split at h
          · exact hnone h (Or.inl rfl) (seen_hits s r)
          · have hgiven := hguesses.trans (if_pos (by rw [h]))
            rw [hpending] at hgiven
            rw [Tested,hgiven]
            refine ⟨?_,List.nodup_singleton _,fun g hg => ?_⟩
            · rw [h]
              simp only [seen_hits,record,Option.getD_some]
            · rw [List.mem_singleton.mp hg]
              exact ⟨rfl,by simpa [isBlocked_seen] using hfree⟩

theorem guesses_other (h : r.call.guessing = false) : guesses env s r = [] := by
  cases hcall : r.call <;> first | (simp only [guesses,hcall]; done) | (rw [hcall] at h; cases h)

/-- What a request does to the hits. -/
theorem respond_hits (env : Env κ) (s : State) (r : Request) : Tested env s r (respond env s r).state.hits ∨
    ((respond env s r).state.hits = sweep r.now s.hits ∧ guesses env s r = []) := by
  rcases respond_cases env s r with ⟨response,h⟩ | ⟨response,h⟩ | h
  · exact Or.inl (tested_none (by rw [h]; rfl) (guesses_stay h))
  · exact Or.inl (tested_none (by rw [h]; exact seen_hits s r) (guesses_stay h))
  · cases hguessing : r.call.guessing with
    | false => exact Or.inl (tested_none ((respond_rows env s r).hits hguessing) (guesses_other hguessing))
    | true =>
      cases hcall : r.call with
      | login form remoteAddr next =>
        rw [hcall] at h
        cases huser : currentUser env s r with
        | some user =>
          rw [huser] at h
          exact Or.inl (tested_none (by rw [h]; exact seen_hits s r) (guesses_stay h))
        | none =>
          rw [huser] at h
          cases form with
          | none => exact Or.inl (tested_none (by rw [h]; exact seen_hits s r) (guesses_stay h))
          | some form => exact Or.inl (login_tested hcall h)
      | mfaVerify form =>
        rw [hcall] at h
        cases form with
        | none =>
          refine Or.inl (tested_none ?_ (by simp only [guesses,hcall]))
          rw [h]
          simp only [view,mfaVerify]
          repeat' split
          all_goals exact seen_hits s r
        | some code => exact Or.inl (mfaVerify_tested hcall h)
      | sweep =>
        rw [hcall] at h
        refine Or.inr ⟨?_,by simp only [guesses,hcall]⟩
        rw [h]
        exact congrArg (sweep r.now) (seen_hits s r)
      | _ =>
        rw [hcall] at hguessing
        cases hguessing

end Guesses

/-! ### The bound -/

section Bound

variable {limit window now : ℤ} {hits log : List RateHit}

/-- Guesses at one time, each with a key of its own that has room, keep every interval within the limit. -/
theorem bounded_guesses {gs : List RateHit} (hkeys : (gs.map RateHit.key).Nodup)
    (hroom : ∀ g ∈ gs, g.time = now ∧ ((windowState g.key window now hits).1 : ℤ) < limit)
    (hbounded : Bounded limit window log) (hrecorded : Recorded window now hits log) :
    Bounded limit window (log++gs) ∧ Recorded window now (hits++gs) (log++gs) := by
  induction gs generalizing hits log with
  | nil => simpa using ⟨hbounded,hrecorded⟩
  | cons g gs ih =>
    rw [List.map_cons,List.nodup_cons] at hkeys
    obtain ⟨htime,hfree⟩ := hroom g List.mem_cons_self
    obtain ⟨key,time⟩ := g
    obtain rfl : time = now := htime
    have hnext := ih hkeys.2 (fun g hg => ?_) (bounded_append hbounded hrecorded hfree) (recorded_append hrecorded ⟨key,time⟩)
    · simpa using hnext
    · obtain ⟨hg',hroom'⟩ := hroom g (List.mem_cons_of_mem _ hg)
      have hother : key ≠ g.key := fun h => hkeys.1 (List.mem_map.mpr ⟨g,hg,h.symm⟩)
      refine ⟨hg',?_⟩
      rw [windowState,List.countP_append,List.countP_singleton,if_neg (by simp [counts,hother])]
      exact hroom'

variable {κ : Type*} {env : Env κ}

theorem room {s : State} {key : String} (hlimit : 0 < (loginLimits env).1) (h : isBlocked env s key now = false) :
    ((windowState key (loginLimits env).2 now s.hits).1 : ℤ) < (loginLimits env).1 := by
  simpa [isBlocked,blocked,hlimit] using h

theorem step_guesses {s : State} {last : ℤ} {r : Request} (hlimit : 0 < (loginLimits env).1) (hwindow : (loginLimits env).2 ≤ 3600)
    (hnow : last ≤ r.now) (hbounded : Bounded (loginLimits env).1 (loginLimits env).2 log)
    (hrecorded : Recorded (loginLimits env).2 last s.hits log) :
    Bounded (loginLimits env).1 (loginLimits env).2 (log++guesses env s r) ∧
      Recorded (loginLimits env).2 r.now (step env s r).hits (log++guesses env s r) := by
  have hlater := hrecorded.later hnow
  rcases respond_hits env s r with ⟨hhits,hkeys,htested⟩ | ⟨hhits,hnone⟩
  · rw [show (step env s r).hits = s.hits++guesses env s r from hhits]
    exact bounded_guesses hkeys (fun g hg => ⟨(htested g hg).1,room hlimit (htested g hg).2⟩) hbounded hlater
  · rw [show (step env s r).hits = sweep r.now s.hits from hhits,hnone,List.append_nil]
    exact ⟨hbounded,recorded_sweep hwindow hlater⟩

theorem run_guesses (hlimit : 0 < (loginLimits env).1) (hwindow : (loginLimits env).2 ≤ 3600) {s : State} {last : ℤ}
    {requests : List Request} (htimes : (last::requests.map Request.now).Pairwise (· ≤ ·))
    (hbounded : Bounded (loginLimits env).1 (loginLimits env).2 log) (hrecorded : Recorded (loginLimits env).2 last s.hits log) :
    Bounded (loginLimits env).1 (loginLimits env).2 (log++emitted (step env) (guesses env) s requests) := by
  induction requests generalizing s last log with
  | nil => simpa using hbounded
  | cons r requests ih =>
    rw [List.map_cons,List.pairwise_cons] at htimes
    obtain ⟨hstep,hrecorded'⟩ := step_guesses hlimit hwindow (htimes.1 _ List.mem_cons_self) hbounded hrecorded
    rw [emitted_cons,← List.append_assoc]
    exact ih htimes.2 hstep hrecorded'

end Bound

/-- Six wrong passwords in a row. -/
def sampleGuesses : List Request := List.replicate 6 ⟨.blank,"",0,1,.login (some ("bob","bilder")) "10.0.0.1" none⟩

end Accounts
end Biggy
