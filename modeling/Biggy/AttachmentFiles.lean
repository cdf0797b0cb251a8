import Biggy.Previews

/-!
# Attachments and their files

Files are removed and stored before the database commits. The rows and the files match for as long as no such commit is refused
and no field goes by itself with its attachments.
-/
namespace Biggy
namespace Attachments

open Run

variable {τ : Type*} {env : Env τ}

/-- The place of the file of an attachment. -/
def Attachment.place (a : Attachment) : ℕ × String := (a.fieldId,a.storedName)

/-- Every attachment has its file, and every file has its attachment. -/
def Matched (s : State) : Prop := ∀ place, (∃ a ∈ s.atts, a.place = place) ↔ ∃ bytes, s.disk.lookup place = some bytes

/-- The attachments that go with a step, and those that come. -/
def gone (s : State) (e : Event τ) : List Attachment :=
  match e.call with
  | .saveAttachments f rowPk removed _ _ => s.atts.filter fun a => decide (a.fieldId = f.id ∧ a.rowPk = rowPk ∧ a.id ∈ removed)
  | .purge mt rowPk _ =>
    s.atts.filter fun a => decide (a.fieldId ∈ (mt.fields.filter isFile).map MetaField.id ∧ a.rowPk = rowPk)
  | .fieldDelete fieldId _ => s.atts.filter fun a => decide (a.fieldId = fieldId)
  | _ => []

def come (env : Env τ) (e : Event τ) : List (Attachment × Bytes) :=
  match e.call with
  | .saveAttachments f rowPk _ uploads _ => stored env.lib f rowPk uploads
  | .mail mt rowPk parts _ => (mt.fields.find? isFile).elim [] fun f => stored env.lib f rowPk (mailUploads parts)
  | _ => []

/-- The database accepts the commit. -/
def accepted (e : Event τ) : Bool :=
  match e.call with
  | .saveAttachments _ _ _ _ accepted | .mail _ _ _ accepted | .purge _ _ accepted | .fieldDelete _ accepted => accepted
  | _ => true

/-- What is removed and stored is committed, and the fields that go by themselves have no attachments. -/
def Tidy (env : Env τ) (s : State) (e : Event τ) : Prop :=
  match e.call with
  | .change site cascades => cascades = true → ∀ a ∈ s.atts, (fieldAt site a.fieldId).isSome = true
  | _ => accepted e = true ∨ gone s e = [] ∧ come env e = []

/-- The places of the attachments differ. -/
def Apart (s : State) : Prop := (s.atts.map Attachment.place).Nodup

/-! ### One exchange -/

section Exchange

variable {s : State} {out : List Attachment} {new : List (Attachment × Bytes)} {tokens : List String} {ok : Bool}
  {place : ℕ × String}

theorem lookup_writeAll (disk : Disk) : (∃ bytes, (writeAll disk new).lookup place = some bytes) ↔
    (∃ file ∈ new, file.1.place = place) ∨ ∃ bytes, disk.lookup place = some bytes := by
  induction new generalizing disk with
  | nil => simp [writeAll]
  | cons file new ih =>
    refine (ih _).trans ?_
    by_cases hplace : place = file.1.place
    · subst hplace
      have hwritten : ∃ bytes, List.lookup file.1.place ((file.1.place,file.2)::disk) = some bytes :=
        ⟨file.2,List.lookup_cons_self⟩
      exact iff_of_true (Or.inr hwritten) (Or.inl ⟨file,List.mem_cons_self,rfl⟩)
    · have hne : (place == (file.1.fieldId,file.1.storedName)) = false := beq_eq_false_iff_ne.mpr hplace
      simp only [List.lookup_cons,hne,List.mem_cons,exists_eq_or_imp,Ne.symm hplace,false_or]

theorem lookup_removeAll (disk : Disk) : (∃ bytes, (removeAll disk out).lookup place = some bytes) ↔
    (∃ bytes, disk.lookup place = some bytes) ∧ ∀ a ∈ out, a.place ≠ place := by
  induction out generalizing disk with
  | nil => simp [removeAll]
  | cons a out ih =>
    refine (ih _).trans ?_
    change (∃ bytes, List.lookup (place.1,place.2) (disk.filter fun file => file.1 ≠ a.place) = some bytes) ∧ _ ↔ _
    rw [read_remove,List.forall_mem_cons]
    by_cases hplace : place = a.place
    · simp [hplace]
    · simp [hplace,Ne.symm hplace]

theorem lookup_exchange : (∃ bytes, (s.exchange out new tokens ok).disk.lookup place = some bytes) ↔
    (∃ file ∈ new, file.1.place = place) ∨ (∃ bytes, s.disk.lookup place = some bytes) ∧ ∀ a ∈ out, a.place ≠ place := by
  rw [State.exchange,lookup_writeAll,lookup_removeAll]

/-- What comes has other places than what is there. -/
theorem place_fresh (hinv : Inv s) (hfresh : Fresh s new tokens) {file : Attachment × Bytes} (hfile : file ∈ new) :
    ∀ a ∈ s.atts, a.place ≠ file.1.place := by
  intro a ha hplace
  have hname : a.storedName = file.1.storedName := (Prod.mk.inj hplace).2
  exact (hfresh.each file hfile).2.2.2 (hname ▸ hinv.drawn a ha)

theorem Apart.eq (h : Apart s) {a b : Attachment} (ha : a ∈ s.atts) (hb : b ∈ s.atts) (hplace : a.place = b.place) : a = b :=
  List.inj_on_of_nodup_map h ha hb hplace

theorem exchange_matched (hinv : Inv s) (hapart : Apart s) (hfresh : Fresh s new tokens) (hout : out ⊆ s.atts)
    (hmatched : Matched s) : Matched (s.exchange out new tokens ok) ↔ ok = true ∨ out = [] ∧ new = [] := by
  cases ok with
  | true =>
    refine iff_of_true (fun place => ?_) (Or.inl rfl)
    rw [lookup_exchange,← hmatched place]
    have hatts : (s.exchange out new tokens true).atts = s.atts.filter (· ∉ out)++new.map Prod.fst := rfl
    rw [hatts]
    constructor
    · rintro ⟨a,ha,hplace⟩
      rcases List.mem_append.mp ha with hold | hnew
      · obtain ⟨hmem,hkept⟩ := List.mem_filter.mp hold
        refine Or.inr ⟨⟨a,hmem,hplace⟩,fun b hb hplace' => ?_⟩
        have hsame := hapart.eq hmem (hout hb) (hplace.trans hplace'.symm)
        exact absurd (hsame ▸ hb) (by simpa using hkept)
      · obtain ⟨file,hfile,rfl⟩ := List.mem_map.mp hnew
        exact Or.inl ⟨file,hfile,hplace⟩
    · rintro (⟨file,hfile,hplace⟩ | ⟨⟨a,ha,hplace⟩,hkept⟩)
      · exact ⟨file.1,List.mem_append_right _ (List.mem_map_of_mem hfile),hplace⟩
      · refine ⟨a,List.mem_append_left _ (List.mem_filter.mpr ⟨ha,?_⟩),hplace⟩
        simpa using fun hmem => hkept a hmem hplace
  | false =>
    have hatts : (s.exchange out new tokens false).atts = s.atts := rfl
    simp only [Bool.false_eq_true,false_or]
    constructor
    · intro h
      constructor
      · refine List.eq_nil_iff_forall_not_mem.mpr fun a ha => ?_
        rcases lookup_exchange.mp ((h a.place).mp ⟨a,hatts ▸ hout ha,rfl⟩) with ⟨file,hfile,hplace⟩ | ⟨-,hkept⟩
        · exact place_fresh hinv hfresh hfile a (hout ha) hplace.symm
        · exact hkept a ha rfl
      · refine List.eq_nil_iff_forall_not_mem.mpr fun file hfile => ?_
        obtain ⟨a,ha,hplace⟩ := (h file.1.place).mpr (lookup_exchange.mpr (Or.inl ⟨file,hfile,rfl⟩))
        exact place_fresh hinv hfresh hfile a (hatts ▸ ha) hplace
    · rintro ⟨rfl,rfl⟩
      exact hmatched

theorem exchange_apart (hinv : Inv s) (hapart : Apart s) (hfresh : Fresh s new tokens) :
    Apart (s.exchange out new tokens ok) := by
  cases ok with
  | false => exact hapart
  | true =>
    have hnew : ((new.map Prod.fst).map Attachment.place).Nodup := by
      refine List.Nodup.of_map (fun place : ℕ × String => tokenOf place.2) ?_
      rw [List.map_map,List.map_map]
      exact hfresh.nodup
    change ((s.atts.filter (· ∉ out)++new.map Prod.fst).map Attachment.place).Nodup
    rw [List.map_append,List.nodup_append]
    refine ⟨hapart.sublist (List.filter_sublist.map _),hnew,?_⟩
    rintro place hplace place' hplace' rfl
    obtain ⟨a,ha,rfl⟩ := List.mem_map.mp hplace
    obtain ⟨b,hb,hsame⟩ := List.mem_map.mp hplace'
    obtain ⟨file,hfile,rfl⟩ := List.mem_map.mp hb
    exact place_fresh hinv hfresh hfile a (List.mem_of_mem_filter ha) hsame.symm

end Exchange

/-! ### Runs -/

theorem exchange_nothing (s : State) : s.exchange [] [] [] true = s := by
  simp [State.exchange,writeAll,removeAll]

/-- A step changes the policies, or it exchanges attachments. -/
theorem step_cases {s : State} {e : Event τ} (h : Draws s e) : (∃ site cascades, e.call = .change site cascades) ∨
    ∃ tokens, step env s e = s.exchange (gone s e) (come env e) tokens (accepted e) ∧ Fresh s (come env e) tokens ∧
      (Tidy env s e ↔ accepted e = true ∨ gone s e = [] ∧ come env e = []) := by
  obtain ⟨now,call⟩ := e
  cases call with
  | change site cascades => exact Or.inl ⟨site,cascades,rfl⟩
  | saveAttachments f rowPk removed uploads accepted => exact Or.inr ⟨_,rfl,fresh_stored h.1 h.2.1 h.2.2,Iff.rfl⟩
  | mail mt rowPk parts ok =>
    right
    cases hf : mt.fields.find? isFile with
    | none =>
      have hcome : come env ⟨now,Call.mail mt rowPk parts ok⟩ = [] := by simp [come,hf]
      refine ⟨[],?_,hcome ▸ fresh_nil s,Iff.rfl⟩
      rw [hcome]
      unfold step
      simp only [hf]
      simp [State.exchange,gone,writeAll,removeAll]
    | some f =>
      have hcome : come env ⟨now,Call.mail mt rowPk parts ok⟩ = stored env.lib f rowPk (mailUploads parts) := by simp [come,hf]
      refine ⟨parts.map Upload.token,?_,hcome ▸ fresh_mail (h.1 f (List.mem_of_find?_eq_some hf)) h.2.1 h.2.2,Iff.rfl⟩
      rw [hcome]
      unfold step
      simp only [hf]
      rfl
  | purge mt rowPk accepted => exact Or.inr ⟨_,rfl,fresh_nil s,Iff.rfl⟩
  | fieldDelete fieldId accepted => exact Or.inr ⟨_,rfl,fresh_nil s,Iff.rfl⟩
  | view user attId portal asked host => exact Or.inr ⟨[],(exchange_nothing s).symm,fresh_nil s,Iff.rfl⟩
  | preview token => exact Or.inr ⟨[],(exchange_nothing s).symm,fresh_nil s,Iff.rfl⟩

theorem gone_subset (s : State) (e : Event τ) : gone s e ⊆ s.atts := by
  intro a ha
  unfold gone at ha
  split at ha
  · exact List.mem_of_mem_filter ha
  · exact List.mem_of_mem_filter ha
  · exact List.mem_of_mem_filter ha
  · cases ha

theorem change_matched {s : State} {now : ℤ} {site : Site} {cascades : Bool} (hapart : Apart s) (hmatched : Matched s) :
    Matched (step env s ⟨now,.change site cascades⟩) ↔ Tidy env s ⟨now,.change site cascades⟩ := by
  cases cascades with
  | false => exact iff_of_true hmatched fun h => by cases h
  | true =>
    constructor
    · intro h _ a ha
      obtain ⟨b,hb,hplace⟩ := (h a.place).mpr ((hmatched a.place).mp ⟨a,ha,rfl⟩)
      obtain ⟨hmem,hfield⟩ := List.mem_filter.mp hb
      rwa [hapart.eq hmem ha hplace] at hfield
    · intro h place
      refine Iff.trans ?_ (hmatched place)
      have hatts : (step env s ⟨now,.change site true⟩).atts = s.atts := List.filter_eq_self.mpr (h rfl)
      rw [hatts]

theorem step_matched {s : State} {e : Event τ} (hinv : Inv s ∧ Apart s) (hmatched : Matched s) (hdraws : Draws s e) :
    Matched (step env s e) ↔ Tidy env s e := by
  rcases @step_cases _ env _ _ hdraws with ⟨site,cascades,hcall⟩ | ⟨tokens,hstep,hfresh,htidy⟩
  · obtain ⟨now,call⟩ := e
    subst hcall
    exact change_matched hinv.2 hmatched
  · rw [hstep,htidy]
    exact exchange_matched hinv.1 hinv.2 hfresh (gone_subset s e) hmatched

theorem step_apart {s : State} {e : Event τ} (hinv : Inv s ∧ Apart s) (hdraws : Draws s e) :
    Inv (step env s e) ∧ Apart (step env s e) := by
  refine ⟨step_inv hinv.1 hdraws,?_⟩
  rcases @step_cases _ env _ _ hdraws with ⟨site,cascades,hcall⟩ | ⟨tokens,hstep,hfresh,-⟩
  · obtain ⟨now,call⟩ := e
    subst hcall
    cases cascades with
    | false => exact hinv.2
    | true => exact hinv.2.sublist (List.filter_sublist.map _)
  · rw [hstep]
    exact exchange_apart hinv.1 hinv.2 hfresh

theorem photoState_matched : Matched photoState := by
  intro place
  constructor
  · rintro ⟨a,ha,rfl⟩
    obtain rfl := List.mem_singleton.mp ha
    exact ⟨png,rfl⟩
  · rintro ⟨bytes,hbytes⟩
    refine ⟨photoFile,List.mem_cons_self,?_⟩
    by_contra hplace
    have hne : (place == photoFile.place) = false := beq_eq_false_iff_ne.mpr (Ne.symm hplace)
    change List.lookup place [(photoFile.place,png)] = some bytes at hbytes
    rw [List.lookup_cons,hne] at hbytes
    cases hbytes

/-- The photo is removed, and the database refuses the commit. -/
def photoRemoved : Event (Payload × ℤ) := ⟨0,.saveAttachments photo 1 [1] [] false⟩

end Attachments
end Biggy
