import Biggy.TicketMail
import Biggy.MailAccess
import Biggy.Purge

/-!
# Conversations

A record has a thread of comments, public or internal. Staff write in it from the pages, customers from the portal, and a mail
whose subject names the record writes in it too. Who has a part in the thread is told of every comment, customers of the
public ones.
-/
namespace Biggy
namespace Conversation

open Access RowScope TicketMail Run

/-! ### The rows -/

/-- An account, with what a message to it takes. -/
structure Person extends User where
  username : String
  email : Option String := none
  notifyEmail : Bool := true

structure Comment where
  tablePhys : String
  rowPk : String
  userId : Option ℕ
  body : String
  internal : Bool
  deriving DecidableEq

structure Watch where
  userId : ℕ
  tablePhys : String
  rowPk : String
  deriving DecidableEq

structure Notification where
  tablePhys : String
  rowPk : Option ℤ
  event : String
  userId : ℕ
  subject : String
  body : String
  unread : Bool
  deriving DecidableEq

/-- A message that goes out, and the account that it is for. -/
structure Message where
  userId : ℕ
  address : String
  subject : String
  body : String
  deriving DecidableEq

/-- The rows of the conversations, the comments in the order of their ids, and the messages that have gone out. -/
structure State where
  comments : List Comment
  watches : List Watch
  notifications : List Notification
  outbox : List Message

/-- The accounts and the settings: `baseUrl` is the address of the site, blank for none, and `displayField` the column of a
table's display field. -/
structure Env where
  lib : TicketMail.Lib
  engine : Importer.Engine
  people : List Person
  idsNodup : (people.map fun p : Person => p.id).Nodup
  baseUrl : String
  displayField : MetaTable → Option String

/-- What a request finds in the metadata and the tables. -/
structure Moment where
  forms : List MetaForm
  permissions : List MetaPermission
  fieldPermissions : List MetaFieldPermission
  companies : List Company
  site : Site

section Operations

variable (env : Env) (m : Moment) (s : State)

def session : Session :=
  ⟨m.forms,m.permissions,m.fieldPermissions,env.people.map fun p : Person => p.toAccount,m.companies⟩

/-- `session.get(AppUser, id)`. -/
def person (id : ℕ) : Option Person := Keyed.find (fun p : Person => p.id) id env.people

/-- The account that is signed in. -/
def caller (id : ℕ) : Option Person := (person env id).filter fun p => p.active

/-- `str(row_pk)`. -/
def keyText (pk : Value) : String := env.lib.str pk

/-- `int(row_pk)`, where it is one. -/
def keyInt (pk : Value) : Option ℤ :=
  match pk with
  | .int n => some n
  | .bool b => some (if b then 1 else 0)
  | .text t => env.lib.int t
  | _ => none

/-! ### Reading a thread -/

/-- The comments on a record. -/
def onRecord (tablePhys rowPk : String) (c : Comment) : Bool := decide (c.tablePhys = tablePhys ∧ c.rowPk = rowPk)

/-- The name that a comment is shown with. -/
def authorName (c : Comment) : String :=
  match c.userId with
  | none => "email"
  | some id => ((person env id).map Person.username).getD "?"

/-- `list_for`. -/
def listFor (tablePhys rowPk : String) (includeInternal : Bool) : List (Comment × String) :=
  ((s.comments.filter fun c => onRecord tablePhys rowPk c && (includeInternal || !c.internal))).map fun c => (c,authorName env c)

/-! ### Adding a comment -/

/-- `row.get("created_by")` names the account. -/
def createdBy (row : Option Row) (id : ℕ) : Bool :=
  match row with
  | none => false
  | some row => decide (row "created_by" = .int id ∧ id ≠ 0)

/-- `watchers`. -/
def watches (tablePhys rowPk : String) (id : ℕ) : Bool := decide (⟨id,tablePhys,rowPk⟩ ∈ s.watches)

/-- A comment on the record is by the account. -/
def wrote (cs : List Comment) (tablePhys rowPk : String) (id : ℕ) : Bool :=
  cs.any fun c => onRecord tablePhys rowPk c && decide (c.userId = some id)

/-- `_participants`: who has commented, has made the record or watches it. -/
def participates (tablePhys rowPk : String) (row : Option Row) (id : ℕ) : Bool :=
  wrote s.comments tablePhys rowPk id || createdBy row id || watches s tablePhys rowPk id

/-- Whom a comment is told to. -/
def recipients (tablePhys rowPk : String) (row : Option Row) (author : Option ℕ) (internal : Bool) : List Person :=
  env.people.filter fun p => participates s tablePhys rowPk row p.id && decide (author ≠ some p.id) && p.active &&
    !(isPortal p.toAppUser && internal)

/-- `email_user`. -/
def emailUser (p : Person) (subject body : String) : List Message :=
  if p.active && p.notifyEmail then
    match p.email with
    | none => []
    | some address => if address = "" then [] else [⟨p.id,address,subject,body⟩]
  else []

/-- The link in a message. -/
def link (table : Option MetaTable) (rowPk : String) (p : Person) : String :=
  match table with
  | none => ""
  | some table =>
    if env.baseUrl = "" then ""
    else "\n\n"++env.baseUrl++(if isPortal p.toAppUser then "/portal/ticket/" else "/u/view/")++toString table.id++"/"++rowPk

/-- The first characters of a comment. -/
def snippet (body : String) : String := if body.length ≤ 140 then body else clip 139 body++"…"

/-- Comments, and what the accounts in `told` get, are added to the rows. -/
def post (s : State) (cs : List Comment) (told : List Person) (notice : Person → Notification) (mail : Person → List Message) : State :=
  { s with comments := s.comments++cs, notifications := s.notifications++told.map notice, outbox := s.outbox++told.flatMap mail }

/-- `add`. -/
def add (tablePhys : String) (pk : Value) (author : Option Person) (body : String) (internal : Bool) (row : Option Row)
    (label : Option String) : Except PyError State :=
  if strip body = "" then .error (.valueError "Comment is empty.")
  else
    let told := recipients env s tablePhys (keyText env pk) row (author.map fun p => p.id) internal
    let table := m.site.tables.find? fun mt => decide (mt.physName = tablePhys)
    let subject := commentSubject env.lib.toCoerceLib m.site tablePhys row label
    let name := (author.map Person.username).getD "email"
    .ok (post s [⟨tablePhys,keyText env pk,author.map fun p => p.id,strip body,internal⟩] told
      (fun p => ⟨tablePhys,keyInt env pk,"comment",p.id,subject,name++": "++snippet (strip body),true⟩)
      fun p => emailUser p subject (name++" wrote:\n\n"++strip body++link env table (keyText env pk) p))

/-! ### From the pages -/

/-- `display_field_name`. -/
def displayName (mt : MetaTable) : String :=
  match env.displayField mt with
  | some column => column
  | none => ((mt.fields.find? fun f => decide (f.dataType ∈ [DataType.string,.text,.markdown])).map MetaField.physName).getD "id"

/-- The record in the subject of a comment. -/
def recordLabel (mt : MetaTable) (pk : Value) (row : Row) : String :=
  mt.label++": "++(if (row (displayName env mt)).blank then "#"++keyText env pk else env.lib.str (row (displayName env mt)))

/-- The staff account that is signed in and may open the record. -/
def staff (id : ℕ) (mt : MetaTable) (pk : Value) : Option (Person × Row) :=
  match (caller env id).filter fun p => !isPortal p.toAppUser with
  | none => none
  | some p =>
    if canView (session env m) p.toUser mt then
      (getRecord (session env m).accounts m.companies mt (ctx p.toUser) (m.site.physical mt.id) pk true).map fun row => (p,row)
    else none

/-- `comment_add`. -/
def commentAdd (id : ℕ) (mt : MetaTable) (pk : Value) (body visibility : String) : Except PyError State :=
  match staff env m id mt pk with
  | none => .ok s
  | some (p,row) => add env m s mt.physName pk (some p) body (visibility == "internal") (some row) (some (recordLabel env mt pk row))

/-- `toggle`. -/
def toggle (id : ℕ) (tablePhys rowPk : String) : State :=
  if watches s tablePhys rowPk id then { s with watches := s.watches.erase ⟨id,tablePhys,rowPk⟩ }
  else { s with watches := s.watches++[⟨id,tablePhys,rowPk⟩] }

/-- `watch_toggle`. -/
def watchToggle (id : ℕ) (mt : MetaTable) (pk : Value) : State :=
  match staff env m id mt pk with
  | none => s
  | some (p,_) => toggle s p.id mt.physName (keyText env pk)

/-- The account that is signed in to the portal, which takes designers too, and may open the ticket. -/
def customer (id : ℕ) (mt : MetaTable) (pk : Value) : Option (Person × Row) :=
  match (caller env id).filter fun p => isPortal p.toAppUser || p.isDesigner with
  | none => none
  | some p =>
    if catalogTable (session env m) mt then
      (portalRecord (session env m) p.toUser mt (m.site.physical mt.id) pk).map fun row => (p,row)
    else none

/-- `ticket_comment`, and the comment that `ticket_close` leaves. -/
def ticketComment (id : ℕ) (mt : MetaTable) (pk : Value) (body : String) : Except PyError State :=
  match customer env m id mt pk with
  | none => .ok s
  | some (p,row) => add env m s mt.physName pk (some p) body false (some row) (some (recordLabel env mt pk row))

/-- The comment of a customer who closes a ticket. -/
def closing (reason : String) : String := if strip reason = "" then "Closed by customer." else "Closed by customer: "++strip reason

/-- The notifications of an account are read. -/
def markRead (id : ℕ) : State :=
  { s with notifications := s.notifications.map fun n => if n.userId = id then { n with unread := false } else n }

/-! ### From a record that changes -/

/-- The names of the columns of a write that are not the program's own, in order. -/
def changed (values : Values) : List String :=
  ((values.map Prod.fst).filter fun name => name ∉ managed).insertionSort fun a b => a ≤ b

/-- `notify_update`; `held` says that maintenance covers the table. -/
def notifyUpdate (mt : MetaTable) (pk : Value) (values : Values) (actor : Option ℕ) (held : Bool) : State :=
  if held then s
  else
    let told := env.people.filter fun p => watches s mt.physName (keyText env pk) p.id && decide (actor ≠ some p.id) && p.active
    let who := ((actor.bind (person env)).map Person.username).getD "someone"
    let body := who++" changed: "++(if changed values = [] then "record" else String.intercalate ", " (changed values))
    let subject := mt.label++" #"++keyText env pk++" was updated"
    let place := if env.baseUrl = "" then "" else "\n\n"++env.baseUrl++"/u/view/"++toString mt.id++"/"++keyText env pk
    post s [] told (fun p => ⟨mt.physName,keyInt env pk,"watch",p.id,subject,body,true⟩) fun p => emailUser p subject (body++place)

/-! ### From the mailbox -/

/-- A mail: the headers that are read, the address of the sender and the plain text. -/
structure Mail where
  autoSubmitted : Option String
  precedence : Option String
  suppress : Option String
  sender : String
  subject : Option String
  text : String

/-- `_is_auto`. -/
def isAuto (mail : Mail) (ownSender : String) : Bool :=
  let submitted := if mail.autoSubmitted.getD "" = "" then "no" else mail.autoSubmitted.getD ""
  if env.lib.lowercase (strip submitted) ≠ "no" then true
  else if env.lib.lowercase (strip (mail.precedence.getD "")) ∈ ["bulk","junk","auto_reply"] then true
  else if mail.suppress.getD "" ≠ "" then true
  else ownSender ≠ "" && mail.sender == env.lib.lowercase (strip ownSender)

/-- `str.rstrip()`. -/
def rstrip (line : String) : String := String.ofList (line.toList.rdropWhile isSpace)

/-- `^On .{0,300}wrote:\s*$`. -/
def quotes (line : String) : Bool :=
  let cs := (rstrip line).toList
  "On ".toList.isPrefixOf cs && "wrote:".toList.isSuffixOf (cs.drop 3) && decide (cs.length ≤ 3+300+6)

/-- The lines of a mail up to what it quotes or signs. -/
def ownLines (some : Bool) : List String → List String
  | [] => []
  | line::lines =>
    if startsWith line ">" || quotes line then []
    else if rstrip line = "--" ∧ some then []
    else line::ownLines true lines

/-- `clean_body`. -/
def cleanBody (text : String) : String := strip (String.intercalate "\n" (ownLines false (splitlines text)))

/-- `_user_for`. -/
def userFor (address : String) : Option Person :=
  if address = "" then none
  else env.people.find? fun p => decide (p.email.map env.lib.lowercase = some address) && p.active

/-- The record in the subject of a comment that a mail makes. -/
def mailLabel (mt : MetaTable) (pk : Value) (row : Option Row) : Option String := row.map fun row =>
  if (row (displayName env mt)).blank then mt.label++" #"++keyText env pk
  else mt.label++": "++env.lib.str (row (displayName env mt))

/-- The account that sent the mail, where it may see the record. -/
def writer (mail : Mail) (mt : MetaTable) (pk : Value) : Option Person :=
  (userFor env mail.sender).filter fun p => MailAccess.canAccess (session env m) p.toUser mt (m.site.physical mt.id) pk

/-- The note that an unknown sender leaves. -/
def guestNote (sender subject body : String) : String :=
  "[via email from "++(if sender = "" then "unknown sender" else sender)++"] "++subject++"\n\n"++
    (if body = "" then "(empty email)" else body)

/-- `_handle`, up to the attachments; a mail that names no record leaves the conversations alone. -/
def handle (aliases : List (String × String)) (ownSender : String) (mail : Mail) : Except PyError State :=
  if isAuto env mail ownSender then .ok s
  else
    let subject := stripRe env.lib (mail.subject.getD "")
    let body := cleanBody mail.text
    match findTicket env.lib env.engine m.site aliases subject with
    | .error e => .error e
    | .ok none => .ok s
    | .ok (some (mt,pk)) =>
      let row := (m.site.physical mt.id).getRow pk
      match writer env m mail mt pk with
      | some p => add env m s mt.physName pk (some p) (if body = "" then "(empty email)" else body) false row (mailLabel env mt pk row)
      | none => add env m s mt.physName pk none (guestNote mail.sender subject body) true row (mailLabel env mt pk row)

end Operations

/-! ### Runs -/

/-- What reaches the conversations. -/
inductive Action
  | comment (user : ℕ) (mt : MetaTable) (pk : Value) (body visibility : String)
  | ticketComment (user : ℕ) (mt : MetaTable) (pk : Value) (body : String)
  | ticketClose (user : ℕ) (mt : MetaTable) (pk : Value) (reason : String) (allowed : Bool)
  | watch (user : ℕ) (mt : MetaTable) (pk : Value)
  | read (user : ℕ)
  | update (mt : MetaTable) (pk : Value) (values : Values) (actor : Option ℕ) (held : Bool)
  | mail (aliases : List (String × String)) (ownSender : String) (mail : Mail)

structure Input where
  moment : Moment
  action : Action

/-- What an action makes of the conversations, or the exception that it ends in. -/
def perform (env : Env) (s : State) (i : Input) : Except PyError State :=
  match i.action with
  | .comment user mt pk body visibility => commentAdd env i.moment s user mt pk body visibility
  | .ticketComment user mt pk body => ticketComment env i.moment s user mt pk body
  | .ticketClose user mt pk reason allowed => if allowed then ticketComment env i.moment s user mt pk (closing reason) else .ok s
  | .watch user mt pk => .ok (watchToggle env i.moment s user mt pk)
  | .read user => .ok (markRead s user)
  | .update mt pk values actor held => .ok (notifyUpdate env s mt pk values actor held)
  | .mail aliases ownSender mail => handle env i.moment s aliases ownSender mail

/-- The state behind an action; one that ends in an exception is rolled back. -/
def step (env : Env) (s : State) (i : Input) : State :=
  match perform env s i with
  | .ok s' => s'
  | .error _ => s

end Conversation
end Biggy
