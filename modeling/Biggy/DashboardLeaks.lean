import Biggy.ReportViews
import Mathlib.Data.List.ReduceOption

/-!
# What a dashboard tells

The list tiles of a dashboard show the first fields of a table without asking who may read them. `views_confined_iff` says which
pages depend on nothing but what the account may see.
-/
namespace Biggy
namespace Reports

open Companies RowScope Access FieldLeaks

/-! ### Failures -/

/-- The error of a computation. -/
def failure {α : Type} : Except PyError α → Option PyError
  | .error e => some e
  | .ok _ => none

section Failures

variable {α β : Type} {x y : Except PyError α}

@[simp] theorem failure_ok (a : α) : failure (.ok a : Except PyError α) = none := rfl

@[simp] theorem failure_error (e : PyError) : failure (.error e : Except PyError α) = some e := rfl

@[simp] theorem failure_map (f : α → β) : failure (x.map f) = failure x := by cases x <;> rfl

theorem failure_eq_none : failure x = none ↔ ∃ a, x = .ok a := by cases x <;> simp

theorem eq_error {e : PyError} (h : failure x = some e) : x = .error e := by
  cases x with
  | ok a => cases h
  | error e' => exact congrArg Except.error (Option.some.inj h)

theorem failure_mapM {f g : β → Except PyError α} {xs : List β} (h : ∀ b ∈ xs, failure (f b) = failure (g b)) :
    failure (xs.mapM f) = failure (xs.mapM g) := by
  induction xs with
  | nil => rfl
  | cons b xs ih =>
    have hb := h b List.mem_cons_self
    have hrest := ih fun b hb => h b (List.mem_cons_of_mem _ hb)
    rw [List.mapM_cons,List.mapM_cons]
    cases hf : f b <;> cases hg : g b <;> rw [hf,hg] at hb
    · exact hb
    · cases hb
    · cases hb
    · cases hfs : xs.mapM f <;> cases hgs : xs.mapM g <;> rw [hfs,hgs] at hrest
      · exact hrest
      · cases hrest
      · cases hrest
      · rfl

end Failures

section Pages

variable (S : Desk) (user : User)

/-- The pickers that lead to a table read the same of two rows. -/
def SameOffer (mt : MetaTable) (a b : Row) : Prop :=
  ∀ t f, Picker S user t f mt → offer S (some user) f mt a = offer S (some user) f mt b

/-- Of the rows in the scope of the account, a page that comes up shows nothing that the account may not see. -/
def Discreet : Visit → Prop
  | .dashboard dash => visible S user dash = true → (∃ D page, view S user D (.dashboard dash) = .ok page) →
    ∀ w ∈ dash.widgets, w.kind = .list → ∀ mt, (w.tableId.filter (· ≠ 0)).bind (table S) = some mt →
      tableReadable S.session user mt = true → ∀ a b, Storable (S.shape mt) a → Storable (S.shape mt) b →
        selected S.toSite user mt [] a = true → selected S.toSite user mt [] b = true → Agree S user mt a b →
          SameOffer S user mt a b → shown mt a = shown mt b
  | _ => True

variable {S user} {mt : MetaTable} {D D' : Database S.toSite} {dash : Dashboard} {w : Widget}

/-! ### Pages that fail -/

theorem failure_choicesOf (u : Option User) (c : Col) : failure (choicesOf S u D c) = failure (choicesOf S u D' c) := by
  unfold choicesOf
  split
  · split <;> rfl
  · rfl

theorem failure_buildMeta (u : Option User) (columns : List Col) :
    failure (buildMeta S u D columns) = failure (buildMeta S u D' columns) := by
  induction columns with
  | nil => rfl
  | cons c cs ih =>
    have hc := @failure_choicesOf S D D' u c
    rw [buildMeta,buildMeta]
    cases hf : choicesOf S u D c <;> cases hg : choicesOf S u D' c <;> rw [hf,hg] at hc
    · exact hc
    · cases hc
    · cases hc
    · cases hfs : buildMeta S u D cs <;> cases hgs : buildMeta S u D' cs <;> rw [hfs,hgs] at ih
      · exact ih
      · cases ih
      · cases ih
      · rfl

theorem failure_reportOf (args : Args) : failure (reportOf S user mt args D) = failure (reportOf S user mt args D') := by
  have hall : ∀ D : Database S.toSite, failure (reportOf S user mt args D) = failure (buildMeta S (some user) D
      (tableColumns mt (((some user).filter fun u => !u.isDesigner).map fun u =>
        (readableFields S.session u mt).map MetaField.physName))) := by
    intro D
    unfold reportOf build
    dsimp only
    cases buildMeta S (some user) D _ <;> rfl
  rw [hall D,hall D',failure_buildMeta]

theorem failure_renderWidget (w : Widget) : failure (renderWidget S user D w) = failure (renderWidget S user D' w) := by
  unfold renderWidget
  dsimp only
  split
  · rfl
  · split
    · rfl
    · split
      · rfl
      · rw [failure_map,failure_map,failure_reportOf]
      · rw [failure_map,failure_map,failure_reportOf]
      · rfl
      · rfl

theorem failure_render (dash : Dashboard) : failure (render S user D dash) = failure (render S user D' dash) := by
  rw [render,render,failure_map,failure_map]
  exact failure_mapM fun w _ => failure_renderWidget w

/-! ### Tiles -/

theorem table_mem {id : ℕ} (h : table S id = some mt) : mt ∈ S.tables := List.mem_of_find?_eq_some h

theorem widgetTable_mem (h : (w.tableId.filter (· ≠ 0)).bind (table S) = some mt) : mt ∈ S.tables := by
  obtain ⟨id,-,hid⟩ := Option.bind_eq_some_iff.mp h
  exact table_mem hid

/-- Whether a tile is there does not depend on the data. -/
theorem isSome_renderWidget {o o' : Option Tile} (h : renderWidget S user D w = .ok o) (h' : renderWidget S user D' w = .ok o') :
    o.isSome = o'.isSome := by
  unfold renderWidget at h h'
  dsimp only at h h'
  split at h <;> rename_i htable <;> rw [htable] at h' <;> dsimp only at h'
  · rw [← Except.ok.inj h,← Except.ok.inj h']
  · split at h <;> rename_i hreadable
    · rw [if_pos hreadable] at h'
      rw [← Except.ok.inj h,← Except.ok.inj h']
    · rw [if_neg hreadable] at h'
      split at h <;> rename_i hkind <;> rw [hkind] at h' <;> dsimp only at h'
      · rw [← Except.ok.inj h,← Except.ok.inj h']
      · obtain ⟨r,-,rfl⟩ := Outcome.map_ok h
        obtain ⟨r',-,rfl⟩ := Outcome.map_ok h'
        rfl
      · obtain ⟨r,-,rfl⟩ := Outcome.map_ok h
        obtain ⟨r',-,rfl⟩ := Outcome.map_ok h'
        rfl
      · rw [← Except.ok.inj h,← Except.ok.inj h']
        rfl
      · rw [← Except.ok.inj h,← Except.ok.inj h']

theorem reduceOption_inj {α : Type} {xs ys : List (Option α)} (h : List.Forall₂ (fun x y => x.isSome = y.isSome) xs ys)
    (hsame : xs.reduceOption = ys.reduceOption) : xs = ys := by
  induction h with
  | nil => rfl
  | @cons x y xs ys hxy _ ih =>
    cases x <;> cases y
    · rw [List.reduceOption_cons_of_none,List.reduceOption_cons_of_none] at hsame
      rw [ih hsame]
    · cases hxy
    · cases hxy
    · simp only [List.reduceOption_cons_of_some,List.cons.injEq] at hsame
      rw [hsame.1,ih hsame.2]

/-- Two pages that are the same have the same tiles at the same widgets. -/
theorem same_widget {tiles : List Tile} (h : render S user D dash = .ok tiles) (h' : render S user D' dash = .ok tiles)
    (hw : w ∈ dash.widgets) :
    renderWidget S user D w = renderWidget S user D' w := by
  obtain ⟨ts,hts,hred⟩ := Outcome.map_ok h
  obtain ⟨ts',hts',hred'⟩ := Outcome.map_ok h'
  have hpairs := Paired.comp (Outcome.mapM_ok hts).flip (Outcome.mapM_ok hts')
  have hsame : ts = ts' := by
    refine reduceOption_inj (hpairs.imp fun o o' hboth => ?_) (hred.trans hred'.symm)
    obtain ⟨w,ho,ho'⟩ := hboth
    exact isSome_renderWidget ho ho'
  subst hsame
  obtain ⟨o,-,ho,ho'⟩ := Paired.mem_right (Paired.both (Outcome.mapM_ok hts) (Outcome.mapM_ok hts')) hw
  rw [ho,ho']

/-! ### Pages that are the same -/

theorem offer_key {u : Option User} {f : MetaField} {row : Row} {v : Value × List Value} (h : offer S u f mt row = some v) :
    v.1 = row (S.shape mt).pk := by
  unfold offer at h
  split at h
  · cases h
    rfl
  · cases h

/-- What a picker reads of a row, it reads of the row with the same key where it offers the same. -/
theorem offer_of_offered {u : Option User} {f : MetaField} {a b : Row} {v : Value × List Value}
    (hoffered : offered S u f mt D = offered S u f mt D') (ha : a ∈ (D mt).rows) (hb : b ∈ (D' mt).rows)
    (hkey : a (S.shape mt).pk = b (S.shape mt).pk) (hv : offer S u f mt a = some v) : offer S u f mt b = some v := by
  have hmem : v ∈ offered S u f mt D' := by
    rw [← hoffered]
    exact List.mem_filterMap.mpr ⟨a,ha,hv⟩
  obtain ⟨b',hb',hv'⟩ := List.mem_filterMap.mp hmem
  have hsame : b' = b := by
    refine List.inj_on_of_nodup_map (D' mt).keys hb' hb ?_
    rw [← offer_key hv',offer_key hv,hkey]
  rwa [← hsame]

theorem Alike.sameOffer (h : Alike S user D D') {a b : Row} (ha : a ∈ (D mt).rows) (hb : b ∈ (D' mt).rows)
    (hkey : a (S.shape mt).pk = b (S.shape mt).pk) : SameOffer S user mt a b := by
  intro t f hpicker
  have hoffered := h.offers t f mt hpicker
  cases hoffer : offer S (some user) f mt a with
  | some v => exact (offer_of_offered hoffered ha hb hkey hoffer).symm
  | none =>
    cases hoffer' : offer S (some user) f mt b with
    | none => rfl
    | some v =>
      rw [offer_of_offered hoffered.symm hb ha hkey.symm hoffer'] at hoffer
      cases hoffer

theorem listTile_eq (limit : ℤ) : listTile S user mt limit D = (Listing.listing (selected S.toSite user mt [])
    (before (E := S.engine) ((S.shape mt).pk,false)) (shown mt) (max 1 (if limit = 0 then 5 else limit)).toNat 1
    (D mt).rows).1 := rfl

/-- A tile is the same on databases that look the same, if the rows of its list do. -/
theorem renderWidget_confined (h : Alike S user D D') (w : Widget) (hlist : w.kind = .list → ∀ mt,
    (w.tableId.filter (· ≠ 0)).bind (table S) = some mt → tableReadable S.session user mt = true →
      listTile S user mt w.limit D = listTile S user mt w.limit D') : renderWidget S user D w = renderWidget S user D' w := by
  unfold renderWidget
  dsimp only
  cases hmt : (w.tableId.filter (· ≠ 0)).bind (table S) with
  | none => rfl
  | some mt =>
    dsimp only
    cases hreadable : tableReadable S.session user mt with
    | false => rfl
    | true =>
      simp only [Bool.not_true,Bool.false_eq_true,↓reduceIte]
      have hreport := reportOf_confined h (widgetTable_mem hmt) hreadable
      cases hkind : w.kind with
      | text => rfl
      | chart => dsimp only; rw [hreport]
      | number => dsimp only; rw [hreport]
      | list => dsimp only; rw [hlist hkind mt hmt hreadable]
      | other => rfl

theorem reportPage_confined (h : Alike S user D D') (tableId : ℕ) (args : Args) :
    reportPage S user tableId args D = reportPage S user tableId args D' := by
  unfold reportPage
  cases hmt : table S tableId with
  | none => rfl
  | some mt =>
    dsimp only
    cases hreadable : tableReadable S.session user mt with
    | false => rfl
    | true => rw [reportOf_confined h (table_mem hmt) hreadable]

theorem home_confined (h : Alike S user D D') (pinned : List (ℕ × String)) :
    view S user D (.home pinned) = view S user D' (.home pinned) := by
  have htiles : pinnedTile S user D = pinnedTile S user D' := by
    funext p
    unfold pinnedTile
    cases hmt : table S p.1 with
    | none => rfl
    | some mt =>
      dsimp only
      cases hreadable : tableReadable S.session user mt with
      | false => rfl
      | true => rw [reportOf_confined h (table_mem hmt) hreadable]
  rw [view,view,htiles]

theorem mapM_congr {α β : Type} {f g : β → Except PyError α} {xs : List β} (h : ∀ b ∈ xs, f b = g b) : xs.mapM f = xs.mapM g := by
  induction xs with
  | nil => rfl
  | cons b xs ih =>
    rw [List.mapM_cons,List.mapM_cons,h b List.mem_cons_self,ih fun b hb => h b (List.mem_cons_of_mem _ hb)]

/-- A list tile is the same on databases that look the same, if rows that look the same are shown alike. -/
theorem listTile_confined (h : Alike S user D D') (hmt : mt ∈ S.tables) (hreadable : tableReadable S.session user mt = true)
    {limit : ℤ}
    (hshown : ∀ a b, a ∈ inScope S user mt D → b ∈ inScope S user mt D' → Agree S user mt a b → SameOffer S user mt a b →
      shown mt a = shown mt b) : listTile S user mt limit D = listTile S user mt limit D' := by
  rw [listTile_eq,listTile_eq]
  have hrows := Paired.with_mem (h.rows mt hmt hreadable)
  refine congrArg Prod.fst
    (Listing.listing_eq _ _ (Listing.map_eq_of_forall₂ (Listing.forall₂_insertionSort ?_ hrows) ?_) hrows.length_eq)
  · rintro a b c d ⟨hab,-⟩ ⟨hcd,-⟩
    simp only [before,Bool.false_eq_true,↓reduceIte,hab.1,hcd.1]
  · rintro a - b ⟨hab,ha,hb⟩
    exact hshown a b ha hb hab (h.sameOffer (List.mem_of_mem_filter ha) (List.mem_of_mem_filter hb) hab.1)

theorem dashboard_confined (h : Alike S user D D') (hdiscreet : Discreet S user (.dashboard dash)) :
    view S user D (.dashboard dash) = view S user D' (.dashboard dash) := by
  rw [view,view]
  cases hvisible : visible S user dash with
  | false => rfl
  | true =>
    simp only [↓reduceIte]
    cases hfailure : failure (render S user D dash) with
    | some e =>
      have hfailure' : failure (render S user D' dash) = some e := by rw [← failure_render dash,hfailure]
      rw [eq_error hfailure,eq_error hfailure']
    | none =>
      obtain ⟨tiles,htiles⟩ := failure_eq_none.mp hfailure
      have hshown := hdiscreet hvisible ⟨D,.tiles tiles,by rw [view,if_pos hvisible,htiles]; rfl⟩
      have hwidgets : dash.widgets.mapM (renderWidget S user D) = dash.widgets.mapM (renderWidget S user D') := by
        refine mapM_congr fun w hw => renderWidget_confined h w fun hkind mt hmt hreadable => ?_
        refine listTile_confined h (widgetTable_mem hmt) hreadable fun a b ha hb hab hoffer => ?_
        obtain ⟨hamem,hasel⟩ := List.mem_filter.mp ha
        obtain ⟨hbmem,hbsel⟩ := List.mem_filter.mp hb
        exact hshown w hw hkind mt hmt hreadable a b ((D mt).storable a hamem) ((D' mt).storable b hbmem) hasel hbsel hab hoffer
      rw [render,render,hwidgets]

open Classical in
/-- Databases with one row each that look the same. -/
theorem exists_alike {a b : Row} (ha : Storable (S.shape mt) a) (hb : Storable (S.shape mt) b)
    (hsa : selected S.toSite user mt [] a = true)
    (hsb : selected S.toSite user mt [] b = true) (hagree : Agree S user mt a b) (hoffer : SameOffer S user mt a b) :
    ∃ D D' : Database S.toSite, Alike S user D D' ∧ (D mt).rows = [a] ∧ (D' mt).rows = [b] := by
  let none : Database S.toSite := fun _ => ⟨[],by simp,List.nodup_nil⟩
  refine ⟨Function.update none mt (single ha),Function.update none mt (single hb),⟨fun t _ _ => ?_,fun t f target hpicker => ?_⟩,
    by rw [Function.update_self]; rfl,by rw [Function.update_self]; rfl⟩
  · unfold inScope
    by_cases ht : t = mt
    · subst ht
      rw [Function.update_self,Function.update_self]
      simp only [single,List.filter_cons_of_pos hsa,List.filter_cons_of_pos hsb,List.filter_nil]
      exact .cons hagree .nil
    · rw [Function.update_of_ne ht,Function.update_of_ne ht]
      exact .nil
  · unfold offered
    by_cases ht : target = mt
    · subst ht
      rw [Function.update_self,Function.update_self]
      simp only [single,List.filterMap_cons,hoffer t f hpicker]
    · rw [Function.update_of_ne ht,Function.update_of_ne ht]

theorem shown_of_listTile {a b : Row} {limit : ℤ} (ha : (D mt).rows = [a]) (hb : (D' mt).rows = [b])
    (hsa : selected S.toSite user mt [] a = true) (hsb : selected S.toSite user mt [] b = true)
    (h : listTile S user mt limit D = listTile S user mt limit D') : shown mt a = shown mt b := by
  have hlimit : 1 ≤ (max 1 (if limit = 0 then 5 else limit)).toNat := by omega
  rw [listTile_eq,listTile_eq,ha,hb,Listing.listing_single hlimit,Listing.listing_single hlimit,hsa,hsb] at h
  simpa using h

theorem discreet_of_same (h : ∀ D D', Alike S user D D' → view S user D (.dashboard dash) = view S user D' (.dashboard dash)) :
    Discreet S user (.dashboard dash) := by
  rintro hvisible ⟨D₀,page,hpage⟩ w hw hkind mt hmt hreadable a b ha hb hsa hsb hagree hoffer
  obtain ⟨D,D',halike,hrows,hrows'⟩ := exists_alike ha hb hsa hsb hagree hoffer
  have hup : ∀ D : Database S.toSite, ∃ tiles, render S user D dash = .ok tiles := by
    intro D
    refine failure_eq_none.mp ?_
    rw [@failure_render S user D D₀ dash]
    rw [view,if_pos hvisible] at hpage
    obtain ⟨tiles,htiles,-⟩ := Outcome.map_ok hpage
    exact failure_eq_none.mpr ⟨tiles,htiles⟩
  obtain ⟨tiles,htiles⟩ := hup D
  obtain ⟨tiles',htiles'⟩ := hup D'
  have hview := h D D' halike
  rw [view,view,if_pos hvisible,if_pos hvisible,htiles,htiles'] at hview
  obtain rfl : tiles = tiles' := Page.tiles.inj (Except.ok.inj hview)
  have hwidget := same_widget htiles htiles' hw
  unfold renderWidget at hwidget
  simp only [hmt,hreadable,hkind,Bool.not_true,Bool.false_eq_true,↓reduceIte,Except.ok.injEq,Option.some.injEq,Tile.mk.injEq,
    TileBody.list.injEq,true_and,and_true] at hwidget
  exact shown_of_listTile hrows hrows' hsa hsb hwidget

/-- A dashboard whose list tiles show readable fields only is discreet. -/
theorem discreet_of_readable (h : ∀ w ∈ dash.widgets, w.kind = .list → ∀ mt, (w.tableId.filter (· ≠ 0)).bind (table S) = some mt →
    tableReadable S.session user mt = true → listColumns mt ⊆ readableFields S.session user mt) :
    Discreet S user (.dashboard dash) :=
  fun _ _ w hw hkind mt hmt hreadable _ _ _ _ _ _ hagree _ =>
    List.map_congr_left fun f hf => hagree.2 f (h w hw hkind mt hmt hreadable hf)

end Pages

end Reports
end Biggy
