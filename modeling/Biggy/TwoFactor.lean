import Biggy.RateLimit

/-!
# The second factor

`mfa_verify` takes the code of a time step or a backup code. A time-step code is good for three steps, and nothing tells
that it has been used; a backup code is struck from a list that is read, and written back later.
-/
namespace Biggy
namespace TwoFactor

open Run RateLimit

/-- What the user's secret and the standard library give: the code of a time step, which has six ASCII digits,
`str.isdigit` and the digest. -/
structure Factor where
  hotp : ℤ → String
  isDigit : String → Bool
  hash : String → String
  sixDigits : ∀ k, (hotp k).length = 6 ∧ isDigit (hotp k) = true ∧ (hotp k).toList.all (fun c => decide (c.toNat < 128)) = true

variable (F : Factor)

/-- The time steps whose codes are good. -/
def window (now : ℤ) : List ℤ := [now / seconds 30 - 1,now / seconds 30,now / seconds 30 + 1]

/-- Six digits. -/
def wellFormed (code : String) : Bool := decide (code.length = 6) && F.isDigit code

/-- `totp.verify` with the user's secret; `compare_digest` takes ASCII texts only. -/
def verify (code : String) (now : ℤ) : Except PyError Bool :=
  if code = "" ∨ wellFormed F (strip code) = false then .ok false
  else if (strip code).toList.all (fun c => decide (c.toNat < 128)) = false then .error .typeError
  else .ok ((window now).any fun k => decide (F.hotp k = strip code))

/-- `consume_backup_code`, of the list of hashes that is stored as JSON. -/
def consumeBackupCode (stored : Option (List String)) (code : String) : Bool × Option (List String) :=
  match stored with
  | none => (false,none)
  | some hashes =>
    if code ≠ "" ∧ F.hash (strip code) ∈ hashes then (true,some (hashes.erase (F.hash (strip code)))) else (false,some hashes)

/-! ### One login after the other -/

structure Account where
  hits : List RateHit
  backup : Option (List String)

structure Attempt where
  code : String
  now : ℤ

inductive Outcome
  | locked | totp | backup | refused | crashed
  deriving DecidableEq

/-- `mfa_verify` for one user. -/
def mfaVerify (limit seconds : ℤ) (key : String) (account : Account) (a : Attempt) : Outcome × Account :=
  if blocked limit seconds key a.now account.hits then (.locked,account)
  else match verify F (strip a.code) a.now with
    | .error _ => (.crashed,account)
    | .ok true => (.totp,account)
    | .ok false => match consumeBackupCode F account.backup (strip a.code) with
      | (true,left) => (.backup,{ account with backup := left })
      | (false,_) => (.refused,{ account with hits := record key a.now account.hits })

section Logins

variable (limit seconds : ℤ) (key : String)

def step (account : Account) (a : Attempt) : Account := (mfaVerify F limit seconds key account a).2

/-- The time steps whose code a login is accepted with. -/
def accepted (account : Account) (a : Attempt) : List ℤ :=
  if (mfaVerify F limit seconds key account a).1 = .totp then (window a.now).filter fun k => decide (F.hotp k = strip (strip a.code))
  else []

/-- The code of the time step is submitted while it is good and the user is not locked out. -/
def Submits (account : Account) (a : Attempt) (k : ℤ) : Prop :=
  blocked limit seconds key a.now account.hits = false ∧ strip (strip a.code) = F.hotp k ∧ k ∈ window a.now

variable {F limit seconds key}

theorem verify_hotp {code : String} {k now : ℤ} (hcode : strip code = F.hotp k) (hk : k ∈ window now) :
    verify F code now = .ok true := by
  obtain ⟨hlength,hdigit,hascii⟩ := F.sixDigits k
  have hne : code ≠ "" := by
    rintro rfl
    rw [← hcode] at hlength
    revert hlength
    decide
  have hwell : wellFormed F (strip code) = true := by simp [wellFormed,hcode,hlength,hdigit]
  have hany : (window now).any (fun k => decide (F.hotp k = strip code)) = true :=
    List.any_eq_true.mpr ⟨k,hk,decide_eq_true hcode.symm⟩
  rw [verify,if_neg (by simp [hne,hwell]),if_neg (by simp [hcode,hascii]),hany]

theorem mem_accepted {account : Account} {a : Attempt} {k : ℤ} :
    k ∈ accepted F limit seconds key account a ↔ Submits F limit seconds key account a k := by
  constructor
  · intro hk
    rw [accepted] at hk
    split at hk
    · rename_i htotp
      obtain ⟨hwindow,hcode⟩ := List.mem_filter.mp hk
      refine ⟨?_,(of_decide_eq_true hcode).symm,hwindow⟩
      by_contra hblocked
      rw [mfaVerify,if_pos (by simpa using hblocked)] at htotp
      cases htotp
    · cases hk
  · rintro ⟨hfree,hcode,hwindow⟩
    have htotp : (mfaVerify F limit seconds key account a).1 = .totp := by
      simp only [mfaVerify,hfree,Bool.false_eq_true,if_false,verify_hotp hcode hwindow]
    rw [accepted,if_pos htotp]
    exact List.mem_filter.mpr ⟨hwindow,decide_eq_true hcode.symm⟩

theorem accepted_nodup (account : Account) (a : Attempt) : (accepted F limit seconds key account a).Nodup := by
  have hwindow : (window a.now).Nodup := by
    simp only [window,List.nodup_cons,List.mem_cons,List.not_mem_nil,or_false,not_or,not_false_eq_true,List.nodup_nil,
      and_true]
    omega
  rw [accepted]
  split
  · exact hwindow.filter _
  · exact List.nodup_nil

end Logins

/-- No time step's code is accepted in two logins exactly when no user who is not locked out submits the code of one time
step twice while it is good. -/
theorem once_iff (F : Factor) (limit seconds : ℤ) (key : String) (account : Account) (attempts : List Attempt) :
    (emitted (step F limit seconds key) (accepted F limit seconds key) account attempts).Nodup ↔
      ∀ before a mid b after, attempts = before++a::(mid++b::after) → ∀ k,
        Submits F limit seconds key (exec (step F limit seconds key) account before) a k →
          ¬Submits F limit seconds key (exec (step F limit seconds key) account (before++a::mid)) b k := by
  rw [nodup_emitted_iff]
  constructor
  · rintro ⟨-,happart⟩ before a mid b after hsplit k hfirst hsecond
    exact happart before a mid b after hsplit k (mem_accepted.mpr hfirst) (mem_accepted.mpr hsecond)
  · intro happart
    refine ⟨fun before a after _ => accepted_nodup _ a,fun before a mid b after hsplit k hfirst hsecond => ?_⟩
    exact happart before a mid b after hsplit k (mem_accepted.mp hfirst) (mem_accepted.mp hsecond)

/-- Three time steps with codes of their own. -/
def sampleFactor : Factor where
  hotp := fun k => if k = 0 then "000000" else if k = 1 then "111111" else "999999"
  isDigit := fun _ => true
  hash := id
  sixDigits := fun k => by
    split
    · decide
    · split <;> decide

/-- A code is accepted a second after it was. -/
theorem code_accepted_twice : ¬∀ (F : Factor) (limit seconds : ℤ) (key : String) (account : Account) (attempts : List Attempt),
    (attempts.map Attempt.now).Pairwise (· ≤ ·) →
    (∀ a ∈ attempts, ∀ b ∈ attempts, ∀ k ∈ window a.now, ∀ k' ∈ window b.now, F.hotp k = F.hotp k' → k = k') →
      (emitted (step F limit seconds key) (accepted F limit seconds key) account attempts).Nodup := by
  intro h
  have hnodup := h sampleFactor 5 300 "mfa:1" ⟨[],none⟩ [⟨"000000",0⟩,⟨"000000",1000000⟩] (by decide) (by decide)
  revert hnodup
  decide

/-! ### Logins at the same time -/

/-- The stored list, and what each login that is under way has read of it. -/
structure Logins where
  stored : Option (List String)
  reads : ℕ → Option (String × Option (List String))

/-- A login loads the user, and saves the list that is left. -/
inductive Step
  | read (login : ℕ) (code : String)
  | write (login : ℕ)

def act (s : Logins) : Step → Logins
  | .read login code => { s with reads := Function.update s.reads login (some (code,s.stored)) }
  | .write login => match s.reads login with
    | none => s
    | some (code,seen) => match consumeBackupCode F seen code with
      | (true,left) => { stored := left,reads := Function.update s.reads login none }
      | (false,_) => { s with reads := Function.update s.reads login none }

/-- The backup code that a step accepts, by its hash. -/
def spent (s : Logins) : Step → List String
  | .read _ _ => []
  | .write login => match s.reads login with
    | none => []
    | some (code,seen) => if (consumeBackupCode F seen code).1 then [F.hash (strip code)] else []

/-- Each backup code is accepted at most once, and is then in no later list. -/
def SingleUse (s : Logins) (steps : List Step) : Prop :=
  (emitted (act F) (spent F) s steps).Nodup ∧ ∀ before after, steps = before++after →
    ∀ h ∈ emitted (act F) (spent F) s before, h ∉ (exec (act F) s before).stored.getD []

/-- A login that strikes a code writes back the list that is stored without it. -/
def Undisturbed (s : Logins) : Step → Prop
  | .read _ _ => True
  | .write login => ∀ code seen, s.reads login = some (code,seen) → (consumeBackupCode F seen code).1 = true → seen = s.stored

variable {F}

/-- A code that is accepted is struck from the list. -/
theorem consume_ok {stored : Option (List String)} {code : String} (h : (consumeBackupCode F stored code).1 = true) :
    ∃ hashes, stored = some hashes ∧ F.hash (strip code) ∈ hashes ∧
      consumeBackupCode F stored code = (true,some (hashes.erase (F.hash (strip code)))) := by
  cases stored with
  | none => cases h
  | some hashes =>
    simp only [consumeBackupCode] at h ⊢
    split at h
    · rename_i hheld
      exact ⟨hashes,rfl,hheld.2,if_pos hheld⟩
    · cases h

/-- What is accepted is new, and no longer in the list. -/
def Struck (s : Logins) (log : List String) : Prop :=
  log.Nodup ∧ (s.stored.getD []).Nodup ∧ ∀ h ∈ log, h ∉ s.stored.getD []

theorem struck_act {s : Logins} {log : List String} (i : Step) (hs : Struck s log) (hi : Undisturbed F s i) :
    Struck (act F s i) (log ++ spent F s i) := by
  obtain ⟨hnodup,hstored,hgone⟩ := hs
  cases i with
  | read login code =>
    rw [spent,List.append_nil]
    exact ⟨hnodup,hstored,hgone⟩
  | write login =>
    cases hread : s.reads login with
    | none =>
      simp only [act,spent,hread,List.append_nil]
      exact ⟨hnodup,hstored,hgone⟩
    | some p =>
      obtain ⟨code,seen⟩ := p
      cases hok : (consumeBackupCode F seen code).1 with
      | false =>
        have hact : (act F s (.write login)).stored = s.stored := by
          simp only [act,hread]
          split
          · rename_i heq
            rw [heq] at hok
            cases hok
          · rfl
        simp only [Struck,spent,hread,hok,hact,Bool.false_eq_true,if_false,List.append_nil]
        exact ⟨hnodup,hstored,hgone⟩
      | true =>
        obtain ⟨hashes,hseen,hmem,hconsumed⟩ := consume_ok hok
        have hsame := hi code seen hread hok
        rw [← hsame,hseen,Option.getD_some] at hstored hgone
        have hact : (act F s (.write login)).stored = some (hashes.erase (F.hash (strip code))) := by
          simp only [act,hread,hconsumed]
        simp only [Struck,spent,hread,hok,hact,if_true,Option.getD_some]
        refine ⟨?_,hstored.erase _,fun h hh => ?_⟩
        · rw [List.nodup_append]
          refine ⟨hnodup,by simp,fun h hh h' hh' hsame => ?_⟩
          rw [List.mem_singleton.mp hh'] at hsame
          exact hgone h hh (hsame ▸ hmem)
        · rcases List.mem_append.mp hh with hold | hnew
          · exact fun hleft => hgone h hold (List.mem_of_mem_erase hleft)
          · rw [List.mem_singleton.mp hnew]
            exact fun hleft => absurd rfl (hstored.mem_erase_iff.mp hleft).1

/-- When no other login writes the list between the reading and the writing of a login that strikes a code, and the list
holds no code twice, every backup code is good for one login. -/
theorem single_use (F : Factor) {s : Logins} (hstored : (s.stored.getD []).Nodup) {steps : List Step}
    (hrun : Meets (act F) (Undisturbed F) s steps) : SingleUse F s steps := by
  have hstart : Struck s [] := ⟨List.nodup_nil,hstored,fun h hh => by cases hh⟩
  have hstruck : ∀ is, Meets (act F) (Undisturbed F) s is → Struck (exec (act F) s is) (emitted (act F) (spent F) s is) :=
    fun is his => history_invariant Struck (fun _ _ i hs hi => struck_act i hs hi) hstart his
  refine ⟨(hstruck steps hrun).1,fun before after hsplit => ?_⟩
  rw [hsplit,meets_append] at hrun
  exact (hstruck before hrun.1).2.2

/-- Two codes, each good once. -/
theorem single_use_two : SingleUse sampleFactor ⟨some ["a","b"],fun _ => none⟩ [.read 1 "a",.write 1,.read 2 "a",.write 2] :=
  single_use sampleFactor (by decide) (by
    have hstrip : strip "a" = "a" := by decide
    simp only [meets_cons,meets_nil,Undisturbed,act,Function.update_self,consumeBackupCode,hstrip,sampleFactor,id]
    simp)

/-- Two logins that read the list before either has written it are both accepted. -/
theorem backup_code_accepted_twice : ¬∀ (F : Factor) (s : Logins), (s.stored.getD []).Nodup → ∀ steps, SingleUse F s steps := by
  intro h
  have hnodup := (h sampleFactor ⟨some ["a"],fun _ => none⟩ (by decide) [.read 1 "a",.read 2 "a",.write 1,.write 2]).1
  revert hnodup
  decide

end TwoFactor
end Biggy
