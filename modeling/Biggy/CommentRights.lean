import Biggy.Conversation

/-!
# Who writes in a conversation

A thread only grows, and what is added to it is by an account that could open the record at that moment, or a note of the
mailbox for the staff.
-/
namespace Biggy
namespace Conversation

open Access RowScope TicketMail Run

/-- The pages, the portal or the mailbox let an account open a record. -/
inductive Opens (env : Env) (m : Moment) (p : Person) (mt : MetaTable) (pk : Value) : Prop
  | pages (hrole : isPortal p.toAppUser = false) (hview : canView (session env m) p.toUser mt = true)
      (hrecord : (getRecord (session env m).accounts m.companies mt (ctx p.toUser) (m.site.physical mt.id) pk true).isSome = true)
  | portal (hrole : isPortal p.toAppUser = true ∨ p.isDesigner = true) (hcatalog : catalogTable (session env m) mt = true)
      (hrecord : (portalRecord (session env m) p.toUser mt (m.site.physical mt.id) pk).isSome = true)
  | mailbox (haccess : MailAccess.canAccess (session env m) p.toUser mt (m.site.physical mt.id) pk = true)

/-- A comment is by an active account that may open its record, and a customer's is public; or it is a note for the staff. -/
inductive Entitled (env : Env) (m : Moment) (c : Comment) : Prop
  | account (p : Person) (hp : p ∈ env.people) (hactive : p.active = true) (huser : c.userId = some p.id) (mt : MetaTable)
      (pk : Value) (htable : c.tablePhys = mt.physName) (hpk : c.rowPk = keyText env pk) (hopens : Opens env m p mt pk)
      (hinternal : c.internal = true → isPortal p.toAppUser = false)
  | note (huser : c.userId = none) (hinternal : c.internal = true)

variable {env : Env} {m : Moment} {s t : State}

theorem caller_some {id : ℕ} {p : Person} (h : caller env id = some p) : p ∈ env.people ∧ p.active = true := by
  obtain ⟨hfound,hactive⟩ := Option.filter_eq_some_iff.mp h
  exact ⟨Keyed.mem_of_find hfound,by simpa using hactive⟩

theorem staff_some {id : ℕ} {mt : MetaTable} {pk : Value} {p : Person} {row : Row} (h : staff env m id mt pk = some (p,row)) :
    p ∈ env.people ∧ p.active = true ∧ isPortal p.toAppUser = false ∧ Opens env m p mt pk := by
  unfold staff at h
  split at h
  · simp at h
  · rename_i q hq
    obtain ⟨hcaller,hportal⟩ := Option.filter_eq_some_iff.mp hq
    split at h
    · rename_i hview
      obtain ⟨row',hrecord,hpair⟩ := Option.map_eq_some_iff.mp h
      obtain ⟨rfl,rfl⟩ := Prod.mk.inj hpair
      have hrole : isPortal q.toAppUser = false := by simpa using hportal
      exact ⟨(caller_some hcaller).1,(caller_some hcaller).2,hrole,.pages hrole hview (by rw [hrecord]; rfl)⟩
    · simp at h

theorem customer_some {id : ℕ} {mt : MetaTable} {pk : Value} {p : Person} {row : Row} (h : customer env m id mt pk = some (p,row)) :
    p ∈ env.people ∧ p.active = true ∧ Opens env m p mt pk := by
  unfold customer at h
  split at h
  · simp at h
  · rename_i q hq
    obtain ⟨hcaller,hrole⟩ := Option.filter_eq_some_iff.mp hq
    split at h
    · rename_i hcatalog
      obtain ⟨row',hrecord,hpair⟩ := Option.map_eq_some_iff.mp h
      obtain ⟨rfl,rfl⟩ := Prod.mk.inj hpair
      exact ⟨(caller_some hcaller).1,(caller_some hcaller).2,.portal (by simpa using hrole) hcatalog (by rw [hrecord]; rfl)⟩
    · simp at h

theorem writer_some {mail : Mail} {mt : MetaTable} {pk : Value} {p : Person} (h : writer env m mail mt pk = some p) :
    p ∈ env.people ∧ p.active = true ∧ Opens env m p mt pk := by
  obtain ⟨hfound,haccess⟩ := Option.filter_eq_some_iff.mp h
  unfold userFor at hfound
  split at hfound
  · simp at hfound
  · have hactive := List.find?_some hfound
    exact ⟨List.mem_of_find?_eq_some hfound,by simpa using (Bool.and_eq_true_iff.mp hactive).2,.mailbox haccess⟩

/-- The comment that `add` makes. -/
theorem add_comments {tablePhys : String} {pk : Value} {author : Option Person} {body : String} {internal : Bool} {row : Option Row}
    {label : Option String} (h : add env m s tablePhys pk author body internal row label = .ok t) :
    t.comments = s.comments++[⟨tablePhys,keyText env pk,author.map fun p => p.id,strip body,internal⟩] := by
  unfold add at h
  split at h
  · cases h
  · injection h with h
    rw [← h]
    rfl

/-- What an input adds to the threads. -/
def Adds (env : Env) (m : Moment) (s t : State) : Prop := ∃ cs, t.comments = s.comments++cs ∧ ∀ c ∈ cs, Entitled env m c

theorem adds_nothing (h : t.comments = s.comments) : Adds env m s t := ⟨[],by simpa using h,fun _ hc => absurd hc List.not_mem_nil⟩

theorem add_account {mt : MetaTable} {pk : Value} {p : Person} {body : String} {internal : Bool} {row : Option Row}
    {label : Option String} (hp : p ∈ env.people) (hactive : p.active = true) (hopens : Opens env m p mt pk)
    (hinternal : internal = true → isPortal p.toAppUser = false)
    (h : add env m s mt.physName pk (some p) body internal row label = .ok t) : Adds env m s t := by
  refine ⟨_,add_comments h,fun c hc => ?_⟩
  obtain rfl := List.mem_singleton.mp hc
  exact .account p hp hactive rfl mt pk rfl rfl hopens hinternal

theorem add_note {mt : MetaTable} {pk : Value} {body : String} {row : Option Row} {label : Option String}
    (h : add env m s mt.physName pk none body true row label = .ok t) : Adds env m s t := by
  refine ⟨_,add_comments h,fun c hc => ?_⟩
  obtain rfl := List.mem_singleton.mp hc
  exact .note rfl rfl

theorem commentAdd_adds {id : ℕ} {mt : MetaTable} {pk : Value} {body visibility : String}
    (h : commentAdd env m s id mt pk body visibility = .ok t) : Adds env m s t := by
  unfold commentAdd at h
  split at h
  · cases h
    exact adds_nothing rfl
  · rename_i p row hstaff
    obtain ⟨hp,hactive,hrole,hopens⟩ := staff_some hstaff
    exact add_account hp hactive hopens (fun _ => hrole) h

theorem ticketComment_adds {id : ℕ} {mt : MetaTable} {pk : Value} {body : String} (h : ticketComment env m s id mt pk body = .ok t) :
    Adds env m s t := by
  unfold ticketComment at h
  split at h
  · cases h
    exact adds_nothing rfl
  · rename_i p row hcustomer
    obtain ⟨hp,hactive,hopens⟩ := customer_some hcustomer
    exact add_account hp hactive hopens (fun hinternal : false = true => Bool.noConfusion hinternal) h

theorem handle_adds {aliases : List (String × String)} {ownSender : String} {mail : Mail}
    (h : handle env m s aliases ownSender mail = .ok t) : Adds env m s t := by
  unfold handle at h
  split at h
  · cases h
    exact adds_nothing rfl
  · dsimp only at h
    split at h
    · cases h
    · cases h
      exact adds_nothing rfl
    · split at h
      · rename_i p hwriter
        obtain ⟨hp,hactive,hopens⟩ := writer_some hwriter
        exact add_account hp hactive hopens (fun hinternal : false = true => Bool.noConfusion hinternal) h
      · exact add_note h

theorem toggle_comments (s : State) (id : ℕ) (tablePhys rowPk : String) : (toggle s id tablePhys rowPk).comments = s.comments := by
  unfold toggle
  split <;> rfl

theorem notifyUpdate_comments (mt : MetaTable) (pk : Value) (values : Values) (actor : Option ℕ) (held : Bool) :
    (notifyUpdate env s mt pk values actor held).comments = s.comments := by
  unfold notifyUpdate
  cases held with
  | true => rfl
  | false => exact List.append_nil _

theorem perform_adds {i : Input} (h : perform env s i = .ok t) : Adds env i.moment s t := by
  obtain ⟨m,action⟩ := i
  cases action with
  | comment user mt pk body visibility => exact commentAdd_adds h
  | ticketComment user mt pk body => exact ticketComment_adds h
  | ticketClose user mt pk reason allowed =>
    cases allowed with
    | false =>
      cases h
      exact adds_nothing rfl
    | true => exact ticketComment_adds h
  | watch user mt pk =>
    injection h with h
    rw [← h]
    unfold watchToggle
    split
    · exact adds_nothing rfl
    · exact adds_nothing (toggle_comments _ _ _ _)
  | read user =>
    injection h with h
    rw [← h]
    exact adds_nothing rfl
  | update mt pk values actor held =>
    injection h with h
    rw [← h]
    exact adds_nothing (notifyUpdate_comments _ _ _ _ _)
  | mail aliases ownSender mail => exact handle_adds h

theorem step_adds (env : Env) (s : State) (i : Input) : Adds env i.moment s (step env s i) := by
  unfold step
  split
  · rename_i t h
    exact perform_adds h
  · exact adds_nothing rfl

/-- Whatever happens, the threads keep what is in them, and every comment that is new was written at some moment of the run, when
its author could open the record. -/
theorem comments_entitled (env : Env) (s : State) (is : List Input) : ∃ cs, (exec (step env) s is).comments = s.comments++cs ∧
    ∀ c ∈ cs, ∃ i ∈ is, Entitled env i.moment c := by
  induction is generalizing s with
  | nil => exact ⟨[],(List.append_nil _).symm,fun _ hc => absurd hc List.not_mem_nil⟩
  | cons i is ih =>
    obtain ⟨new,hnew,hentitled⟩ := step_adds env s i
    obtain ⟨later,hlater,hmoments⟩ := ih (step env s i)
    refine ⟨new++later,by rw [exec_cons,hlater,hnew,List.append_assoc],fun c hc => ?_⟩
    rcases List.mem_append.mp hc with hc | hc
    · exact ⟨i,List.mem_cons_self,hentitled c hc⟩
    · obtain ⟨j,hj,hmoment⟩ := hmoments c hc
      exact ⟨j,List.mem_cons_of_mem _ hj,hmoment⟩

end Conversation
end Biggy
