import Biggy.Conversation

/-!
# Work notes stay with the staff

What the staff write as a work note, and what a mail brings from somebody who may not see its record, leaves no trace in what
an account of the portal is shown or told: neither in the threads, nor in its notifications, nor in its mail, however the
conversations go on. `work_notes_unseen` says it for whole runs.
-/
namespace Biggy
namespace Conversation

open Access RowScope TicketMail Run Purge

/-- What an input leaves is for the staff: a work note, or a mail from somebody who may not see the record that it names. -/
def hidden (env : Env) (i : Input) : Bool :=
  match i.action with
  | .comment _ _ _ _ visibility => visibility == "internal"
  | .mail aliases _ mail =>
    match findTicket env.lib env.engine i.moment.site aliases (stripRe env.lib (mail.subject.getD "")) with
    | .ok (some (mt,pk)) => (writer env i.moment mail mt pk).isNone
    | _ => false
  | _ => false

/-- What an account of the portal sees: the threads, its notifications and its mail. -/
structure View where
  thread : String → String → List (Comment × String)
  notifications : List Notification
  messages : List Message

def notificationsOf (s : State) (id : ℕ) : List Notification := s.notifications.filter fun n => n.userId = id

def messagesOf (s : State) (id : ℕ) : List Message := s.outbox.filter fun m => m.userId = id

def view (env : Env) (p : Person) (s : State) : View :=
  ⟨fun tablePhys rowPk => listFor env s tablePhys rowPk false,notificationsOf s p.id,messagesOf s p.id⟩

/-! ### States that look alike from the portal -/

def publicOf (cs : List Comment) : List Comment := cs.filter fun c => !c.internal

def portalPeople (env : Env) : List Person := env.people.filter fun p => isPortal p.toAppUser

/-- Two states that the accounts of the portal cannot tell apart. -/
structure Alike (env : Env) (s s' : State) : Prop where
  comments : publicOf s.comments = publicOf s'.comments
  watches : s.watches = s'.watches
  wrote : ∀ p ∈ portalPeople env, ∀ tablePhys rowPk, wrote s.comments tablePhys rowPk p.id = wrote s'.comments tablePhys rowPk p.id
  notifications : ∀ p ∈ portalPeople env, notificationsOf s p.id = notificationsOf s' p.id
  messages : ∀ p ∈ portalPeople env, messagesOf s p.id = messagesOf s' p.id

theorem Alike.refl (env : Env) (s : State) : Alike env s s := ⟨rfl,rfl,fun _ _ _ _ => rfl,fun _ _ => rfl,fun _ _ => rfl⟩

variable {env : Env} {s s' : State} {p : Person}

theorem wrote_append (cs ds : List Comment) (tablePhys rowPk : String) (id : ℕ) :
    wrote (cs++ds) tablePhys rowPk id = (wrote cs tablePhys rowPk id || wrote ds tablePhys rowPk id) := List.any_append

theorem mem_people (hp : p ∈ portalPeople env) : p ∈ env.people ∧ isPortal p.toAppUser = true := List.mem_filter.mp hp

theorem notices_for (notice : Person → Notification) (hnotice : ∀ q, (notice q).userId = q.id) (told : List Person) (id : ℕ) :
    (told.map notice).filter (fun n => n.userId = id) = (told.filter fun q => q.id = id).map notice := by
  simp [List.filter_map,Function.comp_def,hnotice]

theorem mail_for (mail : Person → List Message) (hmail : ∀ q, ∀ x ∈ mail q, x.userId = q.id) (told : List Person) (id : ℕ) :
    (told.flatMap mail).filter (fun x => x.userId = id) = (told.filter fun q => q.id = id).flatMap mail := by
  induction told with
  | nil => rfl
  | cons q told ih =>
    rw [List.flatMap_cons,List.filter_append,ih]
    by_cases hq : q.id = id
    · have hall : (mail q).filter (fun x => x.userId = id) = mail q :=
        List.filter_eq_self.mpr fun x hx => by simpa using (hmail q x hx).trans hq
      rw [hall,List.filter_cons_of_pos (by simpa using hq),List.flatMap_cons]
    · have hnone : (mail q).filter (fun x => x.userId = id) = [] :=
        List.filter_eq_nil_iff.mpr fun x hx => by simpa [hmail q x hx] using hq
      rw [hnone,List.filter_cons_of_neg (by simpa using hq),List.nil_append]

theorem emailUser_for {q : Person} {subject body : String} {x : Message} (hx : x ∈ emailUser q subject body) : x.userId = q.id := by
  unfold emailUser at hx
  split at hx
  · split at hx
    · simp at hx
    · split at hx
      · simp at hx
      · simp only [List.mem_singleton] at hx
        rw [hx]
  · simp at hx

theorem post_nothing (s : State) (notice : Person → Notification) (mail : Person → List Message) : post s [] [] notice mail = s := by
  simp [post]

/-- What is added to both states keeps them alike when it is the same for the portal. -/
theorem alike_post (h : Alike env s s') {cs cs' : List Comment} {told told' : List Person} {notice : Person → Notification}
    {mail : Person → List Message} (hcs : publicOf cs = publicOf cs')
    (hwrote : ∀ p ∈ portalPeople env, ∀ tablePhys rowPk, wrote cs tablePhys rowPk p.id = wrote cs' tablePhys rowPk p.id)
    (hnotice : ∀ q, (notice q).userId = q.id) (hmail : ∀ q, ∀ x ∈ mail q, x.userId = q.id)
    (htold : ∀ p ∈ portalPeople env, told.filter (fun q => q.id = p.id) = told'.filter fun q => q.id = p.id) :
    Alike env (post s cs told notice mail) (post s' cs' told' notice mail) where
  comments := by
    have hs := h.comments
    simp only [publicOf,post,List.filter_append] at hs hcs ⊢
    rw [hs,hcs]
  watches := h.watches
  wrote := by
    intro p hp tablePhys rowPk
    simp only [post,wrote_append]
    rw [h.wrote p hp,hwrote p hp]
  notifications := by
    intro p hp
    have hs := h.notifications p hp
    simp only [notificationsOf,post,List.filter_append] at hs ⊢
    rw [notices_for notice hnotice,notices_for notice hnotice,hs,htold p hp]
  messages := by
    intro p hp
    have hs := h.messages p hp
    simp only [messagesOf,post,List.filter_append] at hs ⊢
    rw [mail_for mail hmail,mail_for mail hmail,hs,htold p hp]

/-! ### Who is told -/

/-- Only one account has an id. -/
theorem id_inj {q : Person} (hp : p ∈ env.people) (hq : q ∈ env.people) (hid : q.id = p.id) : q = p :=
  List.inj_on_of_nodup_map env.idsNodup hq hp hid

/-- The accounts that a condition picks, for a portal account, depend on the condition at that account only. -/
theorem told_congr {f g : Person → Bool} (h : ∀ p ∈ portalPeople env, f p = g p) (hp : p ∈ portalPeople env) :
    (env.people.filter f).filter (fun q => q.id = p.id) = (env.people.filter g).filter fun q => q.id = p.id := by
  rw [List.filter_filter,List.filter_filter]
  refine List.filter_congr fun q hq => ?_
  by_cases hid : q.id = p.id
  · rw [id_inj (mem_people hp).1 hq hid,h p hp]
  · simp [hid]

theorem recipients_alike (h : Alike env s s') (tablePhys rowPk : String) (row : Option Row) (author : Option ℕ) (internal : Bool)
    (hp : p ∈ portalPeople env) :
    (recipients env s tablePhys rowPk row author internal).filter (fun q => q.id = p.id) =
      (recipients env s' tablePhys rowPk row author internal).filter fun q => q.id = p.id := by
  refine told_congr (fun p hp => ?_) hp
  rw [participates,participates,h.wrote p hp,watches,watches,h.watches]

/-- No customer is told of a work note. -/
theorem recipients_internal (tablePhys rowPk : String) (row : Option Row) (author : Option ℕ) (hp : p ∈ portalPeople env) :
    (recipients env s tablePhys rowPk row author true).filter (fun q => q.id = p.id) = [] := by
  refine List.filter_eq_nil_iff.mpr fun q hq hid => ?_
  obtain ⟨hq,htold⟩ := List.mem_filter.mp hq
  rw [id_inj (mem_people hp).1 hq (by simpa using hid)] at htold
  simp [(mem_people hp).2] at htold

/-! ### One input -/

variable {m : Moment}

/-- The outcomes of an action in two states are alike. -/
inductive AlikeOutcome (env : Env) : Except PyError State → Except PyError State → Prop
  | ok {s s' : State} (h : Alike env s s') : AlikeOutcome env (.ok s) (.ok s')
  | error (e : PyError) : AlikeOutcome env (.error e) (.error e)

theorem add_alike (h : Alike env s s') (tablePhys : String) (pk : Value) (author : Option Person) (body : String) (internal : Bool)
    (row : Option Row) (label : Option String) :
    AlikeOutcome env (add env m s tablePhys pk author body internal row label) (add env m s' tablePhys pk author body internal row label) := by
  unfold add
  by_cases hempty : strip body = ""
  · rw [if_pos hempty,if_pos hempty]
    exact .error _
  · rw [if_neg hempty,if_neg hempty]
    exact .ok (alike_post h rfl (fun _ _ _ _ => rfl) (fun _ => rfl) (fun _ _ hx => emailUser_for hx)
      fun p hp => recipients_alike h _ _ _ _ _ hp)

/-- A work note whose author is none of the portal's leaves the state alike. -/
theorem add_internal (h : Alike env s s') (tablePhys : String) (pk : Value) (author : Option Person) (body : String)
    (row : Option Row) (label : Option String) (hauthor : ∀ p ∈ portalPeople env, ∀ q, author = some q → q.id ≠ p.id) {t : State}
    (hadd : add env m s tablePhys pk author body true row label = .ok t) : Alike env t s' := by
  unfold add at hadd
  split at hadd
  · cases hadd
  · injection hadd with hadd
    rw [← hadd,← post_nothing s' (fun p => ⟨tablePhys,keyInt env pk,"comment",p.id,
      commentSubject env.lib.toCoerceLib m.site tablePhys row label,
      (author.map Person.username).getD "email"++": "++snippet (strip body),true⟩) (fun p => emailUser p
      (commentSubject env.lib.toCoerceLib m.site tablePhys row label) ((author.map Person.username).getD "email"++" wrote:\n\n"++
        strip body++link env (m.site.tables.find? fun mt => decide (mt.physName = tablePhys)) (keyText env pk) p))]
    refine alike_post h rfl (fun p hp tablePhys' rowPk => ?_) (fun _ => rfl) (fun _ _ hx => emailUser_for hx) fun p hp => ?_
    · cases author with
      | none => simp [wrote]
      | some q => simp [wrote,hauthor p hp q rfl]
    · exact recipients_internal _ _ _ _ hp

theorem staff_author {id : ℕ} {mt : MetaTable} {pk : Value} {q : Person} {row : Row} (h : staff env m id mt pk = some (q,row)) :
    ∀ p ∈ portalPeople env, ∀ q', some q = some q' → q'.id ≠ p.id := by
  intro p hp q' hq' hid
  cases hq'
  unfold staff at h
  split at h
  · simp at h
  · rename_i r hr
    obtain ⟨hcaller,hportal⟩ := Option.filter_eq_some_iff.mp hr
    obtain ⟨hfound,-⟩ := Option.filter_eq_some_iff.mp hcaller
    have hqr : q = r := by
      split at h
      · obtain ⟨row',-,hrow'⟩ := Option.map_eq_some_iff.mp h
        exact (Prod.mk.inj hrow').1.symm
      · simp at h
    subst hqr
    rw [id_inj (mem_people hp).1 (Keyed.mem_of_find hfound) hid] at hportal
    simp [(mem_people hp).2] at hportal

theorem markRead_notifications (s : State) (id other : ℕ) : (markRead s id).notifications.filter (fun n => n.userId = other) =
    (s.notifications.filter fun n => n.userId = other).map fun n => if n.userId = id then { n with unread := false } else n := by
  rw [markRead,List.filter_map]
  congr 1
  refine List.filter_congr fun n _ => ?_
  simp only [Function.comp_apply]
  split <;> rfl

theorem markRead_alike (h : Alike env s s') (id : ℕ) : Alike env (markRead s id) (markRead s' id) where
  comments := h.comments
  watches := h.watches
  wrote := h.wrote
  notifications := by
    intro p hp
    have hs := h.notifications p hp
    simp only [notificationsOf,markRead_notifications] at hs ⊢
    rw [hs]
  messages := h.messages

theorem toggle_alike (h : Alike env s s') (id : ℕ) (tablePhys rowPk : String) : Alike env (toggle s id tablePhys rowPk) (toggle s' id tablePhys rowPk) := by
  unfold toggle
  rw [watches,watches,h.watches]
  split
  · exact ⟨h.comments,rfl,h.wrote,h.notifications,h.messages⟩
  · exact ⟨h.comments,rfl,h.wrote,h.notifications,h.messages⟩

theorem notifyUpdate_alike (h : Alike env s s') (mt : MetaTable) (pk : Value) (values : Values) (actor : Option ℕ) (held : Bool) :
    Alike env (notifyUpdate env s mt pk values actor held) (notifyUpdate env s' mt pk values actor held) := by
  unfold notifyUpdate
  cases held with
  | true => exact h
  | false =>
    refine alike_post h rfl (fun _ _ _ _ => rfl) (fun _ => rfl) (fun _ _ hx => emailUser_for hx) fun p hp => told_congr (fun p hp => ?_) hp
    rw [watches,watches,h.watches]

theorem commentAdd_alike (h : Alike env s s') (id : ℕ) (mt : MetaTable) (pk : Value) (body visibility : String) :
    AlikeOutcome env (commentAdd env m s id mt pk body visibility) (commentAdd env m s' id mt pk body visibility) := by
  unfold commentAdd
  cases staff env m id mt pk with
  | none => exact .ok h
  | some found => exact add_alike h _ _ _ _ _ _ _

theorem ticketComment_alike (h : Alike env s s') (id : ℕ) (mt : MetaTable) (pk : Value) (body : String) :
    AlikeOutcome env (ticketComment env m s id mt pk body) (ticketComment env m s' id mt pk body) := by
  unfold ticketComment
  cases customer env m id mt pk with
  | none => exact .ok h
  | some found => exact add_alike h _ _ _ _ _ _ _

theorem handle_alike (h : Alike env s s') (aliases : List (String × String)) (ownSender : String) (mail : Mail) :
    AlikeOutcome env (handle env m s aliases ownSender mail) (handle env m s' aliases ownSender mail) := by
  unfold handle
  split
  · exact .ok h
  · dsimp only
    cases findTicket env.lib env.engine m.site aliases (stripRe env.lib (mail.subject.getD "")) with
    | error e => exact .error e
    | ok found =>
      cases found with
      | none => exact .ok h
      | some ticket =>
        dsimp only
        cases writer env m mail ticket.1 ticket.2 with
        | none => exact add_alike h _ _ _ _ _ _ _
        | some q => exact add_alike h _ _ _ _ _ _ _

/-- No action tells alike states apart. -/
theorem perform_alike (h : Alike env s s') (i : Input) : AlikeOutcome env (perform env s i) (perform env s' i) := by
  obtain ⟨m,action⟩ := i
  cases action with
  | comment user mt pk body visibility => exact commentAdd_alike h user mt pk body visibility
  | ticketComment user mt pk body => exact ticketComment_alike h user mt pk body
  | ticketClose user mt pk reason allowed =>
    cases allowed with
    | false => exact .ok h
    | true => exact ticketComment_alike h user mt pk (closing reason)
  | watch user mt pk =>
    simp only [perform,watchToggle]
    cases staff env m user mt pk with
    | none => exact .ok h
    | some found => exact .ok (toggle_alike h _ _ _)
  | read user => exact .ok (markRead_alike h user)
  | update mt pk values actor held => exact .ok (notifyUpdate_alike h mt pk values actor held)
  | mail aliases ownSender mail => exact handle_alike h aliases ownSender mail

theorem step_alike (h : Alike env s s') (i : Input) : Alike env (step env s i) (step env s' i) := by
  have hperform := perform_alike h i
  unfold step
  generalize perform env s i = o, perform env s' i = o' at hperform
  cases hperform with
  | ok h' => exact h'
  | error e => exact h

/-- A hidden input leaves the state as it was, for the portal. -/
theorem hidden_alike (h : Alike env s s') {i : Input} (hhidden : hidden env i = true) : Alike env (step env s i) s' := by
  unfold step
  cases hperform : perform env s i with
  | error e => exact h
  | ok t =>
    obtain ⟨m,action⟩ := i
    cases action with
    | comment user mt pk body visibility =>
      simp only [perform,commentAdd] at hperform
      cases hstaff : staff env m user mt pk with
      | none =>
        rw [hstaff] at hperform
        cases hperform
        exact h
      | some found =>
        rw [hstaff] at hperform
        have hinternal : (visibility == "internal") = true := hhidden
        simp only [hinternal] at hperform
        exact add_internal h _ _ _ _ _ _ (staff_author hstaff) hperform
    | mail aliases ownSender mail =>
      simp only [perform,handle] at hperform
      split at hperform
      · cases hperform
        exact h
      · simp only [hidden] at hhidden
        split at hhidden
        · rename_i mt pk hfound
          rw [hfound] at hperform
          have hwriter : writer env m mail mt pk = none := by simpa using hhidden
          simp only [hwriter] at hperform
          exact add_internal h _ _ _ _ _ _ (fun _ _ q hq => by simp at hq) hperform
        · cases hhidden
    | ticketComment user mt pk body => cases hhidden
    | ticketClose user mt pk reason allowed => cases hhidden
    | watch user mt pk => cases hhidden
    | read user => cases hhidden
    | update mt pk values actor held => cases hhidden

/-! ### Runs -/

theorem unwinds (env : Env) : Unwinds (step env) (hidden env) (Alike env) where
  local' := fun _ _ _ h hhidden => hidden_alike h hhidden
  shown := fun _ _ i h _ => step_alike h i

theorem listFor_public (env : Env) (s : State) (tablePhys rowPk : String) :
    listFor env s tablePhys rowPk false =
      ((publicOf s.comments).filter fun c => onRecord tablePhys rowPk c).map fun c => (c,authorName env c) := by
  simp [listFor,publicOf,List.filter_filter]

theorem view_alike (hp : p ∈ portalPeople env) (h : Alike env s s') : view env p s = view env p s' := by
  simp only [view,listFor_public]
  rw [h.comments,h.notifications p hp,h.messages p hp]

def agent : Person := { id := 1, role := "designer", username := "ada", email := some "ada@desk" }

def carl : Person := { id := 2, role := "portal", username := "carl", email := some "carl@home" }

/-- One agent and one customer. -/
def serviceDesk : Env where
  lib := asciiLib
  engine := Importer.textEngine
  people := [agent,carl]
  idsNodup := by decide
  baseUrl := "https://desk"
  displayField := fun _ => none

def morning : Moment where
  forms := [{ id := 1, tableId := 2, purpose := .view, inCatalog := true }]
  permissions := []
  fieldPermissions := []
  companies := []
  site := desk

def quiet : State := ⟨[],[⟨2,"incident","1"⟩],[],[]⟩

end Conversation
end Biggy
