import Biggy.Access
import Biggy.IdToken
import Biggy.Run

/-!
# Attachments

The files of a record are kept on disk, under the id of their field and a name of their own, and described by rows of the
database. A file is sent to an account that may read its record, or the account is sent on to the preview server with a link that
is signed.
-/
namespace Biggy
namespace Attachments

open Access RowScope

abbrev Bytes := List UInt8

/-- A row of `app_attachment`, as far as it is read again. -/
structure Attachment where
  id : ℕ
  fieldId : ℕ
  rowPk : ℤ
  storedName : String
  originalName : String
  deriving DecidableEq

/-- What the policies read: the metadata and the rows of the tables. -/
structure Site where
  session : Session
  tables : List MetaTable
  data : MetaTable → Physical

/-! ### The right to an attachment -/

section Rights

variable (site : Site)

/-- A field with its table. -/
def fieldAt (fieldId : ℕ) : Option (MetaTable × MetaField) :=
  site.tables.findSome? fun mt => (mt.field fieldId).map fun f => (mt,f)

/-- `field_access` of an account that is signed in. -/
def fieldAccess (session : Session) (user : User) (f : MetaField) : Level :=
  if user.isDesigner then .full
  else ((session.fieldPermissions.find? fun p => decide (p.role = user.role ∧ p.fieldId = f.id)).map
    MetaFieldPermission.access).getD .write

/-- `access.attachment`: the attachment, or the status of the refusal. -/
def attachment (user : Option User) (atts : List Attachment) (attId : ℕ) (portal : Bool) : Except ℕ Attachment :=
  match user with
  | none => .error 401
  | some user =>
    if !user.active then .error 401
    else
      match (atts.find? fun a => decide (a.id = attId)).bind fun a => (fieldAt site a.fieldId).map fun f => (a,f) with
      | none => .error 404
      | some (a,mt,f) =>
        let row : Except ℕ Unit :=
          if portal then
            if !(isPortal user.toAppUser || user.isDesigner) then .error 403
            else if !catalogTable site.session mt then .error 404
            else if (portalRecord site.session user mt (site.data mt) (.int a.rowPk)).isNone then .error 404
            else .ok ()
          else if isPortal user.toAppUser || !tableReadable site.session user mt then .error 403
          else if (getRecord site.session.accounts site.session.companies mt (ctx user) (site.data mt) (.int a.rowPk) true).isNone
          then .error 404
          else .ok ()
        match row with
        | .error status => .error status
        | .ok () => if canRead (fieldAccess site.session user f) then .ok a else .error 403

end Rights

/-! ### Files -/

/-- The files, under the id of their field and their name. -/
abbrev Disk := List ((ℕ × String) × Bytes)

def Disk.read (disk : Disk) (fieldId : ℕ) (name : String) : Option Bytes := disk.lookup (fieldId,name)

/-- `file_store.delete`. -/
def Disk.remove (disk : Disk) (fieldId : ℕ) (name : String) : Disk := disk.filter fun file => file.1 ≠ (fieldId,name)

/-- A file that is uploaded: its name, its content and the token that is drawn for it. -/
structure Upload where
  id : ℕ
  filename : String
  token : String
  content : Bytes

def allowedImageExt : List String := [".png",".jpg",".jpeg",".gif",".webp"]

/-- `os.path.splitext(name)[1]` of a name without a slash. -/
def splitext (name : String) : String :=
  let ending := name.toList.rtakeWhile fun c => c ≠ '.'
  let start := name.toList.rdropWhile fun c => c ≠ '.'
  if start.all (· = '.') then "" else String.ofList ('.'::ending)

/-- What is called of the libraries: `secure_filename`, which leaves no slash in a name, and `str.lower`. -/
structure FileLib where
  secureFilename : String → String
  lower : String → String
  secure : ∀ name, '/' ∉ (secureFilename name).toList
  lower_slash : ∀ name, '/' ∉ name.toList → '/' ∉ (lower name).toList

/-- `file_store.save`: the names under which a file is stored and shown, or nothing for an `UploadError`. -/
def save (lib : FileLib) (f : MetaField) (u : Upload) : Option (String × String) :=
  let original := if lib.secureFilename u.filename = "" then "file" else lib.secureFilename u.filename
  let ext := lib.lower (splitext original)
  if f.dataType = .image ∧ ext ∉ allowedImageExt then none else some (u.token++ext,original)

/-- The row and the file of an upload to a field of a record; an upload without a name is skipped, and so is a refused one. -/
def storedOne (lib : FileLib) (f : MetaField) (rowPk : ℤ) (u : Upload) : Option (Attachment × Bytes) :=
  if u.filename = "" then none
  else (save lib f u).map fun names => (⟨u.id,f.id,rowPk,names.1,names.2⟩,u.content)

def stored (lib : FileLib) (f : MetaField) (rowPk : ℤ) (uploads : List Upload) : List (Attachment × Bytes) :=
  uploads.filterMap (storedOne lib f rowPk)

def writeAll (disk : Disk) (files : List (Attachment × Bytes)) : Disk :=
  files.foldl (fun disk file => ((file.1.fieldId,file.1.storedName),file.2)::disk) disk

def removeAll (disk : Disk) (atts : List Attachment) : Disk :=
  atts.foldl (fun disk a => disk.remove a.fieldId a.storedName) disk

/-! ### Previews -/

/-- `preview_type`, from the head of a file. -/
def previewType (bytes : Bytes) : Option String :=
  let head := bytes.take 16
  let starts := fun magic : Bytes => magic.isPrefixOf head
  if starts [0x89,0x50,0x4E,0x47,0x0D,0x0A,0x1A,0x0A] then some "image/png"
  else if starts [0xFF,0xD8,0xFF] then some "image/jpeg"
  else if starts [0x47,0x49,0x46,0x38,0x37,0x61] || starts [0x47,0x49,0x46,0x38,0x39,0x61] then some "image/gif"
  else if starts [0x52,0x49,0x46,0x46] && decide ((head.drop 8).take 4 = [0x57,0x45,0x42,0x50]) then some "image/webp"
  else if starts [0x25,0x50,0x44,0x46,0x2D] then some "application/pdf"
  else none

/-- What a link is signed for. -/
structure Payload where
  field : ℕ
  file : String
  name : String
  mime : String

/-- What `urlsplit` makes of an address. -/
structure Origin where
  scheme : String
  hostname : Option String
  username : Option String
  password : Option String
  path : String
  query : String
  fragment : String

/-- The configuration of both servers and what they call; `dumps` and `loads` are those of the signer, at a time. -/
structure Env (τ : Type*) where
  lib : FileLib
  urlsplit : String → Except PyError Origin
  baseUrl : String
  signingKey : Option String
  cookieDomain : Option String
  dumps : Payload → ℤ → τ
  loads : ℤ → τ → Option Payload

/-- `TTL`. -/
def ttl : ℤ := 60

/-- A token is read for as long as it lives, and no token is read that has not been signed. -/
structure Signed {τ : Type*} (env : Env τ) : Prop where
  loads_dumps : ∀ p s now, env.loads now (env.dumps p s) = if 0 ≤ now-s ∧ now-s ≤ ttl then some p else none
  signed : ∀ now token p, env.loads now token = some p → ∃ s, token = env.dumps p s

section Delivery

variable {τ : Type*} (env : Env τ)

def given (s : Option String) : Bool := s.any (· ≠ "")

/-- Whether the origin of the previews gets no cookies of the application. -/
def isolated (origin : Origin) (appHost : String) : Bool :=
  let cookieDomain := env.lib.lower (String.ofList
    (((env.cookieDomain.filter (· ≠ "")).getD appHost).toList.dropWhile (· = '.')))
  let host := env.lib.lower (origin.hostname.getD "")
  !(origin.scheme ≠ "https" || host = "" || given origin.username || given origin.password || origin.path ≠ "" ||
    origin.query ≠ "" || origin.fragment ≠ "" || host = appHost || host = cookieDomain || endsWith host ("."++cookieDomain))

/-- `preview_url`: the address of the preview server and what is signed. -/
def previewUrl (host : String) (a : Attachment) (bytes : Bytes) : Except PyError (Option (String × Payload)) :=
  let base := IdToken.rstripSlash env.baseUrl
  if base = "" || !given env.signingKey then .ok none
  else (env.urlsplit base).map fun origin =>
    if !isolated env origin (env.lib.lower (String.ofList (host.toList.takeWhile (· ≠ ':')))) then none
    else (previewType bytes).map fun mime => (base,⟨a.fieldId,a.storedName,a.originalName,mime⟩)

inductive Reply (τ : Type*)
  | done
  | failed
  | abort (status : ℕ)
  | redirect (base : String) (token : τ)
  | download (name : String) (bytes : Bytes)
  | image (mime : String) (name : String) (bytes : Bytes)

/-- `deliver`. -/
def deliver (disk : Disk) (now : ℤ) (host : String) (asked : Bool) (a : Attachment) : Reply τ :=
  match disk.read a.fieldId a.storedName with
  | none => .abort 404
  | some bytes =>
    match if asked then previewUrl env host a bytes else .ok none with
    | .error _ => .failed
    | .ok (some (base,payload)) => .redirect base (env.dumps payload now)
    | .ok none => .download a.originalName bytes

/-- `Path(name).name == name`. -/
def plainName (name : String) : Bool := decide ('/' ∉ name.toList) && name ≠ "."

/-- `preview`, the view of the preview server. -/
def preview (disk : Disk) (now : ℤ) (token : τ) : Reply τ :=
  match env.loads now token with
  | none => .abort 404
  | some p =>
    if p.field < 1 || !plainName p.file then .abort 404
    else
      match disk.read p.field p.file with
      | none => .abort 404
      | some bytes => if previewType bytes = some p.mime then .image p.mime p.name bytes else .abort 404

end Delivery

/-! ### Both servers -/

/-- The database, the disk and the tokens that have been drawn for names. -/
structure State where
  site : Site
  atts : List Attachment
  disk : Disk
  drawn : List String

/-- What is asked of the application or of the preview server; `accepted` tells whether the database accepts the commit. All else
that the program does is a change of what the policies read, which may take fields away, with their attachments where the database
enforces foreign keys. -/
inductive Call (τ : Type*)
  | change (site : Site) (cascades : Bool)
  | saveAttachments (f : MetaField) (rowPk : ℤ) (removed : List ℕ) (uploads : List Upload) (accepted : Bool)
  | mail (mt : MetaTable) (rowPk : ℤ) (parts : List Upload) (accepted : Bool)
  | purge (mt : MetaTable) (rowPk : ℤ) (accepted : Bool)
  | fieldDelete (fieldId : ℕ) (accepted : Bool)
  | view (user : Option User) (attId : ℕ) (portal asked : Bool) (host : String)
  | preview (token : τ)

structure Event (τ : Type*) where
  now : ℤ
  call : Call τ

def isFile (f : MetaField) : Bool := decide (f.dataType = .file ∨ f.dataType = .image)

/-- The parts of a mail that are saved. -/
def mailUploads (parts : List Upload) : List Upload :=
  (parts.filter fun u => u.content ≠ []).map fun u => if u.filename = "" then { u with filename := "attachment.bin" } else u

section Machine

variable {τ : Type*} (env : Env τ)

/-- Attachments go, and others come; the files go and come first, whether or not the database accepts. -/
def State.exchange (s : State) (gone : List Attachment) (come : List (Attachment × Bytes)) (tokens : List String)
    (accepted : Bool) : State :=
  { s with
    atts := if accepted then s.atts.filter (· ∉ gone)++come.map Prod.fst else s.atts
    disk := writeAll (removeAll s.disk gone) come
    drawn := s.drawn++tokens }

def step (s : State) (e : Event τ) : State :=
  match e.call with
  | .change site cascades =>
    { s with
      site := site
      atts := if cascades then s.atts.filter fun a => (fieldAt site a.fieldId).isSome else s.atts }
  | .saveAttachments f rowPk removed uploads accepted =>
    s.exchange (s.atts.filter fun a => decide (a.fieldId = f.id ∧ a.rowPk = rowPk ∧ a.id ∈ removed))
      (stored env.lib f rowPk uploads) (uploads.map Upload.token) accepted
  | .mail mt rowPk parts accepted =>
    match mt.fields.find? isFile with
    | none => s
    | some f => s.exchange [] (stored env.lib f rowPk (mailUploads parts)) (parts.map Upload.token) accepted
  | .purge mt rowPk accepted =>
    s.exchange (s.atts.filter fun a => decide (a.fieldId ∈ (mt.fields.filter isFile).map MetaField.id ∧ a.rowPk = rowPk))
      [] [] accepted
  | .fieldDelete fieldId accepted => s.exchange (s.atts.filter fun a => decide (a.fieldId = fieldId)) [] [] accepted
  | .view .. => s
  | .preview _ => s

def respond (s : State) (e : Event τ) : Reply τ :=
  match e.call with
  | .view user attId portal asked host =>
    match attachment s.site user s.atts attId portal with
    | .error status => .abort status
    | .ok a => deliver env s.disk e.now host asked a
  | .preview token => preview env s.disk e.now token
  | _ => .done

end Machine

end Attachments
end Biggy
