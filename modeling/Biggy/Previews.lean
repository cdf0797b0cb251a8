import Biggy.Attachments
import Biggy.Outcome

/-!
# Previews

A link to the preview server is signed for an account that may have the attachment, and it is good for a minute. The
preview server knows neither accounts nor attachments; what it sends is what the links that have been signed stand for.
-/
namespace Biggy
namespace Attachments

open Run Access

variable {τ : Type*} {env : Env τ}

/-! ### Files do not change -/

/-- The token in the name of a file. -/
def tokenOf (name : String) : String := String.ofList (name.toList.take 16)

/-- A token of `secrets.token_hex(8)` that has not been drawn before. -/
def Hex (s : State) (token : String) : Prop := token.length = 16 ∧ '/' ∉ token.toList ∧ token ∉ s.drawn

/-- The tokens that a step draws are new, and the ids of fields are positive. -/
def Draws (s : State) (e : Event τ) : Prop :=
  match e.call with
  | .saveAttachments f _ _ uploads _ => 1 ≤ f.id ∧ (uploads.map Upload.token).Nodup ∧ ∀ u ∈ uploads, Hex s u.token
  | .mail mt _ parts _ => (∀ f ∈ mt.fields, 1 ≤ f.id) ∧ (parts.map Upload.token).Nodup ∧ ∀ u ∈ parts, Hex s u.token
  | _ => True

/-- The files have been stored under tokens that have been drawn. -/
structure Inv (s : State) : Prop where
  fields : ∀ a ∈ s.atts, 1 ≤ a.fieldId
  names : ∀ a ∈ s.atts, plainName a.storedName = true
  drawn : ∀ a ∈ s.atts, tokenOf a.storedName ∈ s.drawn

theorem tokenOf_append {token ext : String} (h : token.length = 16) : tokenOf (token++ext) = token := by
  have htake : (token.toList++ext.toList).take 16 = token.toList := by
    rw [← h]
    exact List.take_left' rfl
  rw [tokenOf,String.toList_append,htake,String.ofList_toList]

theorem splitext_slash {name : String} (h : '/' ∉ name.toList) : '/' ∉ (splitext name).toList := by
  unfold splitext
  dsimp only
  split
  · simp
  · rw [String.toList_ofList,List.mem_cons,not_or]
    exact ⟨by decide,fun hmem => h ((List.rtakeWhile_suffix _ _).subset hmem)⟩

/-- What is stored is named by the token of its upload. -/
theorem storedOne_some {lib : FileLib} {f : MetaField} {rowPk : ℤ} {u : Upload} {file : Attachment × Bytes}
    (h : storedOne lib f rowPk u = some file) :
    file.1.fieldId = f.id ∧ ∃ ext, '/' ∉ ext.toList ∧ file.1.storedName = u.token++ext := by
  unfold storedOne at h
  split at h
  · cases h
  · obtain ⟨names,hnames,rfl⟩ := Option.map_eq_some_iff.mp h
    unfold save at hnames
    generalize horiginal :
      (if lib.secureFilename u.filename = "" then "file" else lib.secureFilename u.filename) = original at hnames
    have hslash : '/' ∉ original.toList := by
      rw [← horiginal]
      split
      · decide
      · exact lib.secure _
    dsimp only at hnames
    split at hnames
    · cases hnames
    · cases hnames
      exact ⟨rfl,_,lib.lower_slash _ (splitext_slash hslash),rfl⟩

theorem plainName_token {token ext : String} (hlength : token.length = 16) (htoken : '/' ∉ token.toList)
    (hext : '/' ∉ ext.toList) :
    plainName (token++ext) = true := by
  have hne : token++ext ≠ "." := by
    intro h
    have hlength' := congrArg String.length h
    rw [String.length_append,hlength] at hlength'
    have hone : ".".length = 1 := rfl
    omega
  simp [plainName,htoken,hext,hne]

theorem read_remove (disk : Disk) (a : ℕ × String) (fieldId : ℕ) (name : String) :
    (disk.filter fun file => file.1 ≠ a).lookup (fieldId,name) = if (fieldId,name) = a then none else disk.lookup
    (fieldId,name) := by
  induction disk with
  | nil => simp
  | cons file disk ih =>
    obtain ⟨key,bytes⟩ := file
    by_cases hkey : key = a
    · subst hkey
      rw [List.filter_cons_of_neg (by simp),ih]
      split
      · rfl
      · rename_i hne
        have hne' : ((fieldId,name) == key) = false := by simpa using hne
        rw [List.lookup_cons,hne']
    · rw [List.filter_cons_of_pos (by simpa using hkey),List.lookup_cons,ih,List.lookup_cons]
      by_cases hlook : (fieldId,name) = key
      · subst hlook
        simp [hkey]
      · have hlook' : ((fieldId,name) == key) = false := by simpa using hlook
        rw [hlook']

variable {disk : Disk} {fieldId : ℕ} {name : String} {bytes : Bytes}

theorem read_removeAll {gone : List Attachment} (h : (removeAll disk gone).read fieldId name = some bytes) :
    disk.read fieldId name = some bytes := by
  induction gone generalizing disk with
  | nil => exact h
  | cons a gone ih =>
    have hread : (disk.remove a.fieldId a.storedName).read fieldId name = some bytes := ih h
    rw [Disk.read,Disk.remove,read_remove] at hread
    split at hread
    · cases hread
    · exact hread

theorem read_writeAll {files : List (Attachment × Bytes)} (h : ∀ file ∈ files, file.1.storedName ≠ name) :
    (writeAll disk files).read fieldId name = disk.read fieldId name := by
  induction files generalizing disk with
  | nil => rfl
  | cons file files ih =>
    have hne : ((fieldId,name) == (file.1.fieldId,file.1.storedName)) = false := by
      simpa using fun _ => Ne.symm (h file List.mem_cons_self)
    refine (ih fun file hfile => h file (List.mem_cons_of_mem _ hfile)).trans ?_
    rw [Disk.read,List.lookup_cons,hne]
    rfl

/-- What comes in an exchange has been stored under new tokens. -/
structure Fresh (s : State) (come : List (Attachment × Bytes)) (tokens : List String) : Prop where
  each : ∀ file ∈ come, 1 ≤ file.1.fieldId ∧ plainName file.1.storedName = true ∧ tokenOf file.1.storedName ∈ tokens ∧
    tokenOf file.1.storedName ∉ s.drawn
  nodup : (come.map fun file => tokenOf file.1.storedName).Nodup

theorem tokens_stored {s : State} {lib : FileLib} {f : MetaField} {rowPk : ℤ} {uploads : List Upload}
    (h : ∀ u ∈ uploads, Hex s u.token) :
    ((stored lib f rowPk uploads).map fun file => tokenOf file.1.storedName).Sublist (uploads.map Upload.token) := by
  induction uploads with
  | nil => exact .slnil
  | cons u uploads ih =>
    have hrest := ih fun u hu => h u (List.mem_cons_of_mem _ hu)
    unfold stored
    cases hu : storedOne lib f rowPk u with
    | none =>
      rw [List.filterMap_cons_none hu]
      exact hrest.cons _
    | some file =>
      obtain ⟨-,ext,-,hname⟩ := storedOne_some hu
      rw [List.filterMap_cons_some hu,List.map_cons,List.map_cons,hname,tokenOf_append (h u List.mem_cons_self).1]
      exact hrest.cons_cons _

theorem fresh_stored {s : State} {lib : FileLib} {f : MetaField} {rowPk : ℤ} {uploads : List Upload} (hf : 1 ≤ f.id)
    (hnodup : (uploads.map Upload.token).Nodup) (h : ∀ u ∈ uploads, Hex s u.token) :
    Fresh s (stored lib f rowPk uploads) (uploads.map Upload.token) := by
  refine ⟨fun file hfile => ?_,hnodup.sublist (tokens_stored h)⟩
  obtain ⟨u,hu,hone⟩ := List.mem_filterMap.mp hfile
  obtain ⟨hfield,ext,hext,hname⟩ := storedOne_some hone
  obtain ⟨hlength,hslash,hnew⟩ := h u hu
  rw [hname,tokenOf_append hlength]
  exact ⟨hfield ▸ hf,plainName_token hlength hslash hext,List.mem_map_of_mem hu,hnew⟩

theorem exchange_read {s : State} {gone : List Attachment} {come : List (Attachment × Bytes)} {tokens : List String}
    {accepted : Bool} (hfresh : Fresh s come tokens) (hname : tokenOf name ∈ s.drawn)
    (h : (s.exchange gone come tokens accepted).disk.read fieldId name = some bytes) : s.disk.read fieldId name = some bytes := by
  have hwrite := @read_writeAll (removeAll s.disk gone) fieldId name come
    fun file hfile heq => (hfresh.each file hfile).2.2.2 (heq ▸ hname)
  exact read_removeAll (hwrite.symm.trans h)

theorem exchange_inv {s : State} {gone : List Attachment} {come : List (Attachment × Bytes)} {tokens : List String}
    {accepted : Bool} (hfresh : Fresh s come tokens) (h : Inv s) : Inv (s.exchange gone come tokens accepted) := by
  have hmem : ∀ a ∈ (s.exchange gone come tokens accepted).atts, a ∈ s.atts ∨ ∃ content, (a,content) ∈ come := by
    intro a ha
    unfold State.exchange at ha
    dsimp only at ha
    split at ha
    · rcases List.mem_append.mp ha with hold | hnew
      · exact Or.inl (List.mem_of_mem_filter hold)
      · obtain ⟨file,hfile,rfl⟩ := List.mem_map.mp hnew
        exact Or.inr ⟨file.2,hfile⟩
    · exact Or.inl ha
  refine ⟨fun a ha => ?_,fun a ha => ?_,fun a ha => ?_⟩
  · rcases hmem a ha with hold | ⟨content,hnew⟩
    · exact h.fields a hold
    · exact (hfresh.each _ hnew).1
  · rcases hmem a ha with hold | ⟨content,hnew⟩
    · exact h.names a hold
    · exact (hfresh.each _ hnew).2.1
  · rcases hmem a ha with hold | ⟨content,hnew⟩
    · exact List.mem_append_left _ (h.drawn a hold)
    · exact List.mem_append_right _ (hfresh.each _ hnew).2.2.1

theorem tokens_mail (parts : List Upload) : ((mailUploads parts).map Upload.token).Sublist (parts.map Upload.token) := by
  have htoken : (mailUploads parts).map Upload.token = (parts.filter fun u => u.content ≠ []).map Upload.token := by
    rw [mailUploads,List.map_map]
    refine List.map_congr_left fun u _ => ?_
    rw [Function.comp_apply]
    split <;> rfl
  rw [htoken]
  exact List.filter_sublist.map _

theorem fresh_mail {s : State} {lib : FileLib} {f : MetaField} {rowPk : ℤ} {parts : List Upload} (hf : 1 ≤ f.id)
    (hnodup : (parts.map Upload.token).Nodup) (h : ∀ u ∈ parts, Hex s u.token) :
    Fresh s (stored lib f rowPk (mailUploads parts)) (parts.map Upload.token) := by
  have hhex : ∀ u ∈ mailUploads parts, Hex s u.token := by
    intro u hu
    obtain ⟨part,hpart,htoken⟩ := List.mem_map.mp ((tokens_mail parts).subset (List.mem_map_of_mem hu))
    exact htoken ▸ h part hpart
  have hfresh := @fresh_stored s lib f rowPk _ hf (hnodup.sublist (tokens_mail parts)) hhex
  refine ⟨fun file hfile => ?_,hfresh.nodup⟩
  obtain ⟨hfield,hplain,htoken,hnew⟩ := hfresh.each file hfile
  exact ⟨hfield,hplain,(tokens_mail parts).subset htoken,hnew⟩

/-- What a step does to the attachments and to the files. -/
inductive Effect (s : State) : State → Prop
  | same : Effect s s
  | change (site : Site) (atts : List Attachment) (h : atts ⊆ s.atts) : Effect s { s with site := site, atts := atts }
  | exchange (gone come tokens accepted) (h : Fresh s come tokens) : Effect s (s.exchange gone come tokens accepted)

theorem fresh_nil (s : State) : Fresh s [] [] := ⟨List.forall_mem_nil _,List.nodup_nil⟩

theorem step_effect {s : State} {e : Event τ} (h : Draws s e) : Effect s (step env s e) := by
  obtain ⟨now,call⟩ := e
  cases call with
  | change site cascades =>
    refine .change site _ ?_
    split
    · exact fun a ha => List.mem_of_mem_filter ha
    · exact List.Subset.refl _
  | saveAttachments f rowPk removed uploads accepted => exact .exchange _ _ _ _ (fresh_stored h.1 h.2.1 h.2.2)
  | mail mt rowPk parts accepted =>
    unfold step
    dsimp only
    split
    · exact .same
    · rename_i f hf
      exact .exchange _ _ _ _ (fresh_mail (h.1 f (List.mem_of_find?_eq_some hf)) h.2.1 h.2.2)
  | purge mt rowPk accepted => exact .exchange _ _ _ _ (fresh_nil s)
  | fieldDelete fieldId accepted => exact .exchange _ _ _ _ (fresh_nil s)
  | view user attId portal asked host => exact .same
  | preview token => exact .same

theorem step_inv {s : State} {e : Event τ} (hinv : Inv s) (h : Draws s e) : Inv (step env s e) := by
  have heffect := @step_effect _ env _ _ h
  generalize step env s e = s' at heffect ⊢
  cases heffect with
  | same => exact hinv
  | change site atts hatts =>
    exact ⟨fun a ha => hinv.fields a (hatts ha),fun a ha => hinv.names a (hatts ha),fun a ha => hinv.drawn a (hatts ha)⟩
  | exchange gone come tokens accepted hfresh => exact exchange_inv hfresh hinv

/-- A file that is there after a step, under a token that was drawn before, was there before. -/
theorem step_read {s : State} {e : Event τ} (h : Draws s e) (hname : tokenOf name ∈ s.drawn)
    (hread : (step env s e).disk.read fieldId name = some bytes) : s.disk.read fieldId name = some bytes := by
  have heffect := @step_effect _ env _ _ h
  generalize step env s e = s' at heffect hread
  cases heffect with
  | same => exact hread
  | change site atts hatts => exact hread
  | exchange gone come tokens accepted hfresh => exact exchange_read hfresh hname hread

theorem step_drawn {s : State} {e : Event τ} (h : Draws s e) : s.drawn ⊆ (step env s e).drawn := by
  have heffect := @step_effect _ env _ _ h
  generalize step env s e = s' at heffect ⊢
  cases heffect with
  | same => exact List.Subset.refl _
  | change site atts hatts => exact List.Subset.refl _
  | exchange gone come tokens accepted hfresh => exact List.subset_append_left _ _

theorem run_read {s : State} {es : List (Event τ)} (h : Meets (step env) Draws s es) (hname : tokenOf name ∈ s.drawn)
    (hread : (exec (step env) s es).disk.read fieldId name = some bytes) : s.disk.read fieldId name = some bytes := by
  induction es generalizing s with
  | nil => exact hread
  | cons e es ih => exact step_read h.1 hname (ih h.2 (step_drawn h.1 hname) hread)

/-! ### Links -/

/-- An account that may have the attachment asks for it. -/
def Entitled (s : State) (e : Event τ) (a : Attachment) : Prop :=
  ∃ user attId portal host, e.call = .view (some user) attId portal true host ∧
    attachment s.site (some user) s.atts attId portal = .ok a

theorem mem_of_attachment {site : Site} {user : Option User} {atts : List Attachment} {attId : ℕ} {portal : Bool} {a : Attachment}
    (h : attachment site user atts attId portal = .ok a) : a ∈ atts := by
  unfold attachment at h
  split at h
  · cases h
  · split at h
    · cases h
    · split at h
      · cases h
      · rename_i hfound
        obtain ⟨a',ha',hf⟩ := Option.bind_eq_some_iff.mp hfound
        obtain ⟨f,-,heq⟩ := Option.map_eq_some_iff.mp hf
        cases heq
        dsimp only at h
        split at h
        · cases h
        · split at h
          · cases h
            exact List.mem_of_find?_eq_some ha'
          · cases h

theorem previewUrl_some {host base : String} {a : Attachment} {payload : Payload}
    (h : previewUrl env host a bytes = .ok (some (base,payload))) :
    ∃ mime, previewType bytes = some mime ∧ payload = ⟨a.fieldId,a.storedName,a.originalName,mime⟩ := by
  unfold previewUrl at h
  dsimp only at h
  split at h
  · cases h
  · obtain ⟨origin,-,hsome⟩ := Outcome.map_ok h
    split at hsome
    · cases hsome
    · obtain ⟨mime,hmime,heq⟩ := Option.map_eq_some_iff.mp hsome
      exact ⟨mime,hmime,(Prod.mk.inj heq).2.symm⟩

/-- A link is signed for the file of an attachment that the account may have. -/
theorem respond_redirect {s : State} {e : Event τ} {base : String} {token : τ} (h : respond env s e = .redirect base token) :
    ∃ a bytes mime, Entitled s e a ∧ s.disk.read a.fieldId a.storedName = some bytes ∧ previewType bytes = some mime ∧
      token = env.dumps ⟨a.fieldId,a.storedName,a.originalName,mime⟩ e.now := by
  obtain ⟨now,call⟩ := e
  cases call with
  | view user attId portal asked host =>
    unfold respond at h
    dsimp only at h
    split at h
    · cases h
    · rename_i a ha
      unfold deliver at h
      split at h
      · cases h
      · rename_i bytes hbytes
        split at h
        · cases h
        · rename_i base' payload hurl
          split at hurl
          · rename_i hasked
            obtain ⟨mime,hmime,rfl⟩ := previewUrl_some hurl
            cases h
            cases user with
            | none => cases ha
            | some user => exact ⟨a,bytes,mime,⟨user,attId,portal,host,by rw [hasked],ha⟩,hbytes,hmime,rfl⟩
          · cases hurl
        · cases h
  | preview token' =>
    unfold respond preview at h
    dsimp only at h
    split at h
    · cases h
    · split at h
      · cases h
      · split at h
        · cases h
        · split at h <;> cases h
  | change | saveAttachments | mail | purge | fieldDelete => cases h

theorem Entitled.unique {s : State} {e : Event τ} {a a' : Attachment} (h : Entitled s e a) (h' : Entitled s e a') : a = a' := by
  obtain ⟨user,attId,portal,host,hcall,ha⟩ := h
  obtain ⟨user',attId',portal',host',hcall',ha'⟩ := h'
  rw [hcall] at hcall'
  cases hcall'
  exact Except.ok.inj (ha.symm.trans ha')

theorem preview_image {disk : Disk} {now : ℤ} {token : τ} {mime name : String} :
    preview env disk now token = .image mime name bytes ↔ ∃ p, env.loads now token = some p ∧ 1 ≤ p.field ∧
      plainName p.file = true ∧ disk.read p.field p.file = some bytes ∧ previewType bytes = some mime ∧ mime = p.mime ∧
      name = p.name := by
  constructor
  · intro h
    unfold preview at h
    split at h
    · cases h
    · rename_i p hp
      split at h
      · cases h
      · rename_i hok
        simp only [Bool.or_eq_true,decide_eq_true_eq,Bool.not_eq_true',not_or,Bool.not_eq_false,Nat.not_lt] at hok
        split at h
        · cases h
        · rename_i content hread
          split at h
          · rename_i htype
            cases h
            exact ⟨p,hp,hok.1,hok.2,hread,htype,rfl,rfl⟩
          · cases h
  · rintro ⟨p,hp,hfield,hplain,hread,htype,rfl,rfl⟩
    have hpos : ¬p.field < 1 := Nat.not_lt.mpr hfield
    simp only [preview,hp,hpos,hplain,hread,htype,decide_false,Bool.not_true,Bool.or_self,Bool.false_eq_true,if_false,if_true]

/-- A link with the token has been given out in the run. -/
def Issued (env : Env τ) (s : State) (es : List (Event τ)) (token : τ) : Prop :=
  ∃ before e after base, es = before++e::after ∧ respond env (exec (step env) s before) e = .redirect base token

/-- The preview server sends a file exactly when, in the last minute, an account that could have the attachment then has been
given the link, and the file has been there since. -/
theorem served_iff (env : Env τ) (hsigned : Signed env) (s : State) (hinv : Inv s) (es : List (Event τ))
    (hdraws : Meets (step env) Draws s es) (now : ℤ) (token : τ)
    (hissued : (∃ p t, token = env.dumps p t) → Issued env s es token) (mime name : String) (bytes : Bytes) :
    respond env (exec (step env) s es) ⟨now,.preview token⟩ = .image mime name bytes ↔
      ∃ before e after a base, es = before++e::after ∧ Entitled (exec (step env) s before) e a ∧
        respond env (exec (step env) s before) e = .redirect base token ∧ 0 ≤ now-e.now ∧ now-e.now ≤ ttl ∧
        (exec (step env) s before).disk.read a.fieldId a.storedName = some bytes ∧
        (exec (step env) s es).disk.read a.fieldId a.storedName = some bytes ∧
        name = a.originalName ∧ previewType bytes = some mime := by
  have hat : ∀ before e after, es = before++e::after → Inv (exec (step env) s before) ∧
      Meets (step env) Draws (exec (step env) s before) (e::after) ∧
      exec (step env) s es = exec (step env) (exec (step env) s before) (e::after) := by
    rintro before e after rfl
    obtain ⟨hbefore,hafter⟩ := (meets_append _ _ _ _ _).mp hdraws
    exact ⟨invariant Inv (fun s e hinv hdraws => step_inv hinv hdraws) hinv hbefore,hafter,exec_append _ _ _ _⟩
  -- a file that is there at the end, under the name of an attachment, was there when the attachment was asked for
  have hkept : ∀ before e after a content, es = before++e::after → Entitled (exec (step env) s before) e a →
      (exec (step env) s es).disk.read a.fieldId a.storedName = some content →
      (exec (step env) s before).disk.read a.fieldId a.storedName = some content := by
    rintro before e after a content hes ⟨user,attId,portal,host,-,ha⟩ hread
    obtain ⟨hinv',hmeets,hexec⟩ := hat before e after hes
    rw [hexec] at hread
    exact run_read hmeets (hinv'.drawn a (mem_of_attachment ha)) hread
  constructor
  · intro h
    obtain ⟨p,hp,-,-,hread,htype,-,rfl⟩ := preview_image.mp h
    obtain ⟨t,ht⟩ := hsigned.signed now token p hp
    obtain ⟨before,e,after,base,hes,hredirect⟩ := hissued ⟨p,t,ht⟩
    obtain ⟨a,content,mime',hentitled,-,-,rfl⟩ := respond_redirect hredirect
    rw [hsigned.loads_dumps] at hp
    split at hp
    · rename_i hage
      cases hp
      exact ⟨before,e,after,a,base,hes,hentitled,hredirect,hage.1,hage.2,
        hkept before e after a bytes hes hentitled hread,hread,rfl,htype⟩
    · cases hp
  · rintro ⟨before,e,after,a,base,hes,hentitled,hredirect,hpos,hage,hbefore,hread,rfl,htype⟩
    obtain ⟨a',content,mime',hentitled',hread',htype',rfl⟩ := respond_redirect hredirect
    obtain rfl := hentitled.unique hentitled'
    rw [hbefore,Option.some.injEq] at hread'
    subst hread'
    rw [htype,Option.some.injEq] at htype'
    subst htype'
    obtain ⟨hinv',-,-⟩ := hat before e after hes
    obtain ⟨user,attId,portal,host,-,ha⟩ := hentitled
    have hmem := mem_of_attachment ha
    refine preview_image.mpr ⟨⟨a.fieldId,a.storedName,a.originalName,mime⟩,?_,hinv'.fields a hmem,hinv'.names a hmem,
      hread,htype,rfl,rfl⟩
    rw [hsigned.loads_dumps,if_pos ⟨hpos,hage⟩]

/-! ### A photo -/

def photo : MetaField where
  id := 1
  physName := "photo"
  label := "Photo"
  dataType := .image

def people : MetaTable where
  id := 1
  physName := "people"
  label := "People"
  fields := [photo]
  idsNodup := by decide
  namesNodup := by decide
  namesFree := by decide

def photoSite : Site where
  session := ⟨[],[],[],[],[]⟩
  tables := [people]
  data := fun _ =>
    { columns := ["id"], pk := "id", rows := [Row.write (fun _ => .null) [("id",.int 1)]], key := id, admits := fun _ => true }

def photoEnv : Env (Payload × ℤ) where
  lib :=
    { secureFilename := fun name => String.ofList (name.toList.filter (· ≠ '/'))
      lower := id
      secure := fun name => by simp
      lower_slash := fun _ => id }
  urlsplit := fun _ => .ok ⟨"https",some "previews.net",none,none,"","",""⟩
  baseUrl := "https://previews.net/"
  signingKey := some "key"
  cookieDomain := none
  dumps := Prod.mk
  loads := fun now token => if 0 ≤ now-token.2 ∧ now-token.2 ≤ ttl then some token.1 else none

theorem photoEnv_signed : Signed photoEnv where
  loads_dumps _ _ _ := rfl
  signed now token p h := by
    change (if _ then some token.1 else none) = some p at h
    split at h
    · cases h
      exact ⟨token.2,rfl⟩
    · cases h

def photoFile : Attachment := ⟨1,1,1,"0123456789abcdef.png","me.png"⟩

def png : Bytes := [0x89,0x50,0x4E,0x47,0x0D,0x0A,0x1A,0x0A,0x00]

def photoState : State := ⟨photoSite,[photoFile],[((1,"0123456789abcdef.png"),png)],["0123456789abcdef"]⟩

/-- A designer asks for the photo. -/
def photoAsked : Event (Payload × ℤ) := ⟨0,.view (some { id := 1, role := "designer" }) 1 false true "app.example"⟩

theorem served_iff_photo : respond photoEnv (exec (step photoEnv) photoState [photoAsked])
    ⟨60,.preview (⟨1,"0123456789abcdef.png","me.png","image/png"⟩,0)⟩ = .image "image/png" "me.png" png := by
  have hinv : Inv photoState := ⟨by decide,by decide,by decide⟩
  have hlink : respond photoEnv photoState photoAsked =
      .redirect "https://previews.net" (⟨1,"0123456789abcdef.png","me.png","image/png"⟩,0) := rfl
  refine (served_iff photoEnv photoEnv_signed photoState hinv [photoAsked] ⟨trivial,trivial⟩ 60 _
    (fun _ => ⟨[],photoAsked,[],_,rfl,hlink⟩) "image/png" "me.png" png).mpr ?_
  exact ⟨[],photoAsked,[],photoFile,_,rfl,⟨_,1,false,_,rfl,rfl⟩,hlink,by decide,by decide,rfl,rfl,rfl,rfl⟩

end Attachments
end Biggy
