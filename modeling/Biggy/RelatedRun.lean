import Biggy.RelatedFresh

/-!
# The operations on related records

What an operation writes itself leaves at most those records stale that its ripple recomputes. A child that moves to
another parent leaves the old one stale, and so does a parent that leaves its children.
-/
namespace Biggy
namespace Related

open Formula FormRules Run

/-! ### What an operation writes itself -/

section Written

variable {ω : Type*} {lib : FormulaLib ω} {d : Design}

theorem filter_map_same {α : Type*} {f : α → α} {p : α → Bool} {xs : List α} (hp : ∀ x ∈ xs, p (f x) = p x)
    (hf : ∀ x ∈ xs, p x = true → f x = x) : (xs.map f).filter p = xs.filter p := by
  induction xs with
  | nil => rfl
  | cons x xs ih =>
    have hrest := ih (fun y hy => hp y (List.mem_cons_of_mem x hy)) fun y hy => hf y (List.mem_cons_of_mem x hy)
    rw [List.map_cons,List.filter_cons,List.filter_cons,hp x List.mem_cons_self,hrest]
    split
    · rename_i hx
      rw [hf x List.mem_cons_self hx]
    · rfl

theorem find_of_filter {α : Type*} {p : α → Bool} {xs ys : List α} (h : xs.filter p = ys.filter p) :
    xs.find? p = ys.find? p := by
  rw [← List.head?_filter,← List.head?_filter,h]

theorem filter_filter_same {α : Type*} {p q : α → Bool} {xs : List α} (h : ∀ x ∈ xs, p x = true → q x = true) :
    (xs.filter q).filter p = xs.filter p := by
  rw [List.filter_filter]
  refine List.filter_congr fun x hx => ?_
  cases hpx : p x with
  | false => rfl
  | true => rw [h x hx hpx]; rfl

/-- The parents with a key. -/
def withKey (d : Design) (ts : Tables) (k : Value) : List Row := (ts .parent).filter fun p => decide (p (d.pkCol .parent) = k)

theorem current_congr {ts ts' : Tables} {k : Value} (h : withKey d ts' k = withKey d ts k) (col : String) :
    current d ts' k col = current d ts k col := by
  rw [current_eq,current_eq,find_of_filter h]

theorem RowFresh.of_pointing {ts ts' : Tables} {row : Row} (hfresh : RowFresh lib d ts .parent row)
    (h : d.pointing ts' (row (d.pkCol .parent)) = d.pointing ts (row (d.pkCol .parent))) :
    RowFresh lib d ts' .parent row := by
  intro f hf op col hsingle
  rw [Design.cells,h]
  exact hfresh f hf op col hsingle

theorem RowFresh.of_withKey {ts ts' : Tables} {row : Row} (hfresh : RowFresh lib d ts .child row)
    (h : withKey d ts' (row d.fk) = withKey d ts (row d.fk)) : RowFresh lib d ts' .child row := by
  intro f hf col hsingle
  rw [current_congr h]
  exact hfresh f hf col hsingle

theorem RowFresh.row_congr {ts : Tables} {s : Side} {row row' : Row} (hfresh : RowFresh lib d ts s row)
    (hnames : ∀ c ∈ (d.table s).names, row' c = row c) (hpk : row' (d.pkCol s) = row (d.pkCol s))
    (hfk : s = .child → row' d.fk = row d.fk) : RowFresh lib d ts s row' := by
  cases s with
  | parent =>
    intro f hf op col hsingle
    obtain ⟨w,hw,hstored⟩ := hfresh f hf op col hsingle
    rw [hpk]
    exact ⟨w,hw,(hnames _ (List.mem_map_of_mem hf)).trans hstored⟩
  | child =>
    intro f hf col hsingle
    obtain ⟨w,hw,hstored⟩ := hfresh f hf col hsingle
    rw [hfk rfl]
    exact ⟨w,hw,(hnames _ (List.mem_map_of_mem hf)).trans hstored⟩

section Stamped

variable {s : Side} {values computed stamp : Values} {c : String}

theorem stamped_same (hcomputed : computed.lookup c = none) :
    (stamped d s values computed stamp).lookup c = (stamped d s values [] stamp).lookup c := by
  simp only [stamped]
  split <;> simp [hcomputed]

theorem stamped_submitted (hcomputed : computed.lookup c = none) (hstamp : stamp.lookup c = none) :
    (stamped d s values computed stamp).lookup c = values.lookup c := by
  simp only [stamped]
  split <;> simp [hcomputed,hstamp]

theorem stamped_computed {v : Value} (hcomputed : computed.lookup c = some v) (hstamp : stamp.lookup c = none) :
    (stamped d s values computed stamp).lookup c = some v := by
  simp only [stamped]
  split <;> simp [hcomputed,hstamp]

end Stamped

theorem computed_unmanaged {s : Side} {ts : Tables} {row : Row} {vs : Values} (h : compute lib d s ts row = .ok vs)
    {c : String} {v : Value} (hv : vs.lookup c = some v) : c ∉ managed :=
  fun hc => managed_plain hc (computed_name h hv)

theorem fk_unmanaged : d.fk ∉ managed := by
  obtain ⟨field,hfield,-,hname⟩ := d.fkField
  exact hname ▸ (d.table .child).mt.namesFree field hfield

theorem plain_unmanaged {s : Side} {c : String} (h : Plain d s c) : c ∉ managed := by
  obtain ⟨-,-,field,hfield,-,rfl⟩ := h
  exact (d.table s).mt.namesFree field hfield

/-- A row with its computed values, of a dictionary whose plain columns it has. -/
structure Computed (lib : FormulaLib ω) (d : Design) (s : Side) (ts : Tables) (context row : Row) (vs : Values) : Prop where
  compute : compute lib d s ts context = .ok vs
  computed : ∀ c v, vs.lookup c = some v → row c = v
  plain : ∀ c, Plain d s c → context c = row c
  fk : s = .child → context d.fk = row d.fk

theorem newRow_computed {s : Side} {ts : Tables} {values vs : Values} {generated : Value} {userId : Option ℕ} {now : ℤ}
    (h : Related.compute lib d s ts (rowOf values) = .ok vs) : Computed lib d s ts (rowOf values)
      (newRow d s (stamped d s values vs (createStamp userId now)) generated) vs := by
  have hplain : ∀ c, c ∉ (d.table s).names → c ∉ managed → c ∈ (d.table s).columns → c ≠ d.pkCol s →
      rowOf values c = newRow d s (stamped d s values vs (createStamp userId now)) generated c := by
    intro c hname hmanaged hcolumn hpk
    simp only [newRow,hcolumn,hpk,if_true,if_false,rowOf,Row.write,
      stamped_submitted (compute_other h hname) (createStamp_unmanaged hmanaged)]
  refine ⟨h,fun c v hv => ?_,fun c hc => ?_,?_⟩
  · obtain ⟨hcolumn,hpk⟩ := name_held (computed_name h hv)
    simp only [newRow,hcolumn,hpk,if_true,if_false,stamped_computed hv (createStamp_unmanaged (computed_unmanaged h hv)),
      Option.getD_some]
  · exact hplain c (plain_kept hc) (plain_unmanaged hc) hc.1 hc.2.1
  · rintro rfl
    exact hplain d.fk fk_plain fk_unmanaged d.fkHeld.1 d.fkHeld.2

theorem write_computedRow {s : Side} {ts ts' : Tables} {row : Row} {values vs : Values} {userId : Option ℕ} {now : ℤ}
    (h : Related.compute lib d s ts (row.write values) = .ok vs) : Computed lib d s ts (row.write values)
      (row.write ((d.physical ts' s).clean (stamped d s values vs (RecordService.auditStamp userId now)))) vs := by
  have hplain : ∀ c, c ∉ (d.table s).names → c ∉ managed → c ∈ (d.table s).columns → c ≠ d.pkCol s →
      row.write values c =
        row.write ((d.physical ts' s).clean (stamped d s values vs (RecordService.auditStamp userId now))) c := by
    intro c hname hmanaged hcolumn hpk
    simp only [Row.write,Physical.lookup_clean,stamped_submitted (compute_other h hname) (auditStamp_unmanaged hmanaged)]
    simp [Design.physical,hcolumn,hpk]
  refine ⟨h,fun c v hv => ?_,fun c hc => ?_,?_⟩
  · obtain ⟨hcolumn,hpk⟩ := name_held (computed_name h hv)
    simp only [Row.write,Physical.lookup_clean,stamped_computed hv (auditStamp_unmanaged (computed_unmanaged h hv))]
    simp [Design.physical,hcolumn,hpk]
  · exact hplain c (plain_kept hc) (plain_unmanaged hc) hc.1 hc.2.1
  · rintro rfl
    exact hplain d.fk fk_plain fk_unmanaged d.fkHeld.1 d.fkHeld.2

theorem Computed.steady {s : Side} {ts : Tables} {context row : Row} {vs : Values} (hchain : Unchained lib d)
    (h : Computed lib d s ts context row vs) : Steady lib d s row :=
  steady_of_compute hchain h.compute h.plain h.computed

/-- A child that is written has the values of its parent. -/
theorem Computed.child {ts ts' : Tables} {context row : Row} {vs : Values} (h : Computed lib d .child ts context row vs)
    (hparents : ts' .parent = ts .parent) (hint : Integrity d.table d.fk ts') (hrow : row ∈ ts' .child)
    (hripples : Ripples (row d.fk)) : RowFresh lib d ts' .child row := by
  refine rowFresh_of_compute h.compute h.computed (fun hs => by cases hs) fun _ col _ hcol => ?_
  have hcurrent : current d ts' (row d.fk) col = current d ts (row d.fk) col :=
    current_congr (by rw [withKey,withKey,hparents]) col
  rw [h.fk rfl,hcurrent]
  refine lookup_eq (fun p hp => (hint.keys .parent p (hparents ▸ hp)).1) hripples ?_ hcol
  rcases hint.references row hrow with hnull | ⟨p,hp,hpk⟩
  · exact Or.inl hnull
  · exact Or.inr (hpk ▸ (hint.keys .parent p hp).2)

end Written

/-! ### The operations -/

section Operations

variable {ω : Type*} {lib : FormulaLib ω} {d : Design}

theorem pointing_append {ts ts' : Tables} {row : Row} (h : ts' .child = ts .child++[row]) {k : Value} (hk : row d.fk ≠ k) :
    d.pointing ts' k = d.pointing ts k := by
  simp [Design.pointing,h,hk]

theorem pointing_same {ts ts' : Tables} (h : ts' .child = ts .child) (k : Value) : d.pointing ts' k = d.pointing ts k := by
  rw [Design.pointing,Design.pointing,h]

theorem withKey_same {ts ts' : Tables} (h : ts' .parent = ts .parent) (k : Value) : withKey d ts' k = withKey d ts k := by
  rw [withKey,withKey,h]

theorem mem_added {s s' : Side} {row row' : Row} {ts : Tables} (h : row' ∈ added s row ts s') :
    row' ∈ ts s' ∨ s' = s ∧ row' = row := by
  by_cases hs : s' = s
  · subst hs
    rw [added,Function.update_self,List.mem_append,List.mem_singleton] at h
    exact h.imp id fun h => ⟨rfl,h⟩
  · rw [added,Function.update_of_ne hs] at h
    exact Or.inl h

theorem added_self (s : Side) (row : Row) (ts : Tables) : row ∈ added s row ts s := by simp [added]

theorem added_sameData {s : Side} {row row' : Row} {ts : Tables} (h : ∀ c, c ∉ (d.table s).names → row c = row' c) :
    SameData d (added s row ts) (added s row' ts) := by
  intro s'
  by_cases hs : s' = s
  · subst hs
    rw [added,added,Function.update_self,Function.update_self]
    exact List.rel_append (List.forall₂_same.mpr fun _ _ _ _ => rfl) (.cons h .nil)
  · rw [added,added,Function.update_of_ne hs,Function.update_of_ne hs]
    exact List.forall₂_same.mpr fun _ _ _ _ => rfl

theorem pointing_added (row : Row) (ts : Tables) (k : Value) :
    d.pointing (added .parent row ts) k = d.pointing ts k := pointing_same rfl k

/-- A new child leaves the parent stale that it points at. -/
theorem Standing.add_child {ts : Tables} (hstand : Standing lib d noneStale ts) (hchain : Unchained lib d)
    {context row : Row} {vs : Values} (hrow : Computed lib d .child ts context row vs)
    (hadmits : d.admits (added .child row ts) = true) (hripples : Ripples (row d.fk)) :
    Standing lib d (fun s k => s = .parent ∧ k = row d.fk) (added .child row ts) := by
  refine ⟨hadmits,fun row' h => ?_,fun s row' h => ?_,fun s row' h hstale => ?_⟩
  · rcases mem_added h with h | ⟨-,rfl⟩
    · exact hstand.ripples row' h
    · exact hripples
  · rcases mem_added h with h | ⟨rfl,rfl⟩
    · exact hstand.steady s row' h
    · exact hrow.steady hchain
  · rcases mem_added h with h | ⟨rfl,rfl⟩
    · have hfresh := hstand.fresh s row' h id
      cases s with
      | parent => exact hfresh.of_pointing (pointing_append rfl fun hk => hstale ⟨rfl,hk.symm⟩)
      | child => exact hfresh.of_withKey (withKey_same rfl _)
    · exact hrow.child rfl (d.sound _ hadmits) (added_self .child row' ts) hripples

/-- No record points at a key that is new. -/
theorem pointing_new {ts : Tables} {row : Row} (hint : Integrity d.table d.fk ts)
    (hint' : Integrity d.table d.fk (added .parent row ts)) : d.pointing ts (row (d.pkCol .parent)) = [] := by
  refine List.filter_eq_nil_iff.mpr fun c hc hk => ?_
  have hnew := hint'.keys .parent row (added_self .parent row ts)
  have hnodup := hint'.nodup .parent
  rw [added,Function.update_self,List.map_append,List.nodup_append] at hnodup
  rcases hint.references c hc with hnull | ⟨p,hp,hpk⟩
  · exact hnew.1 ((of_decide_eq_true hk).symm.trans hnull)
  · refine hnodup.2.2 _ (List.mem_map_of_mem hp) _ (List.mem_singleton_self _) ?_
    exact hpk.trans (of_decide_eq_true hk)

/-- A new parent leaves nothing stale: nothing points at it. -/
theorem Standing.add_parent {ts : Tables} (hstand : Standing lib d noneStale ts) (hchain : Unchained lib d)
    {context row : Row} {vs : Values} (hrow : Computed lib d .parent ts context row vs)
    (hadmits : d.admits (added .parent row ts) = true)
    (hrolled : ∀ op col, d.rollup ts (.val (context (d.pkCol .parent))) op col = d.aggregateValue op col []) :
    Standing lib d noneStale (added .parent row ts) := by
  have hnone := pointing_new (d.sound _ hstand.admitted) (d.sound _ hadmits)
  refine ⟨hadmits,fun row' h => ?_,fun s row' h => ?_,fun s row' h _ => ?_⟩
  · rcases mem_added h with h | ⟨hs,-⟩
    · exact hstand.ripples row' h
    · cases hs
  · rcases mem_added h with h | ⟨rfl,rfl⟩
    · exact hstand.steady s row' h
    · exact hrow.steady hchain
  · rcases mem_added h with h | ⟨rfl,rfl⟩
    · have hfresh := hstand.fresh s row' h id
      cases s with
      | parent => exact hfresh.of_pointing (pointing_same rfl _)
      | child =>
        have hother : row (d.pkCol .parent) ≠ row' d.fk := fun hk => by
          have hno := List.filter_eq_nil_iff.mp hnone row' h
          simp [hk] at hno
        exact hfresh.of_withKey (by simp [withKey,added,hother])
    · refine rowFresh_of_compute hrow.compute hrow.computed (fun _ op col _ => ?_) fun hs => by cases hs
      have hcells : d.cells (added .parent row' ts) (row' (d.pkCol .parent)) col = [] := by
        rw [Design.cells,pointing_added,hnone]
        rfl
      rw [hrolled,hcells]

/-- A rollup in the dictionary of a new parent has nothing to roll up. -/
theorem rollup_new {ts : Tables} {values vs : Values} {generated : Value} {userId : Option ℕ} {now : ℤ}
    (hcompute : compute lib d .parent ts (rowOf values) = .ok vs)
    (hnone : d.pointing ts (newKey d .parent (stamped d .parent values vs (createStamp userId now)) generated) = [])
    (op col : String) : d.rollup ts (.val (rowOf values (d.pkCol .parent))) op col = d.aggregateValue op col [] := by
  cases hgiven : values.lookup (d.pkCol .parent) with
  | none =>
    simp only [rowOf,Row.write,hgiven,Option.getD_none,Design.rollup,true_or,if_true]
    exact zero_eq op col
  | some k =>
    have hk : newKey d .parent (stamped d .parent values vs (createStamp userId now)) generated = k := by
      have hunmanaged : d.pkCol .parent ∉ managed := (d.table .parent).pkFree
      rw [newKey,stamped_submitted (compute_other hcompute (pk_plain .parent)) (createStamp_unmanaged hunmanaged),hgiven]
      rfl
    rw [hk] at hnone
    simp only [rowOf,Row.write,hgiven,Option.getD_some,Design.rollup,Design.cells,hnone,List.map_nil]
    rw [zero_eq op col,ite_self]

theorem create_standing (hchain : Unchained lib d) {ts : Tables} (hstand : Standing lib d noneStale ts) {s : Side}
    {values : Values} {generated : Value} {userId : Option ℕ} {now : ℤ}
    (hmild : Mild lib d ts (.create s values generated userId now)) :
    Standing lib d noneStale (create lib d s values generated userId now ts) := by
  obtain ⟨⟨⟨vs,hcompute⟩,hripples⟩,hquiet⟩ := hmild
  have hself : computeSelf lib d s ts (rowOf values) = vs := by rw [computeSelf,hcompute]
  simp only [create,hself]
  split
  case isFalse => exact hstand
  case isTrue hadmits =>
  have hrow := @newRow_computed _ lib d s ts values vs generated userId now hcompute
  have hquiet' := hquiet.of_sameData (@added_sameData d s _
    (newRow d s (stamped d s values vs (createStamp userId now)) generated) ts fun c hc => by
      simp only [newRow,newKey,stamped_same (compute_other hcompute hc),stamped_same (compute_other hcompute (pk_plain s))])
  cases s with
  | child =>
    have hfk : (rowOf (stamped d .child values vs (createStamp userId now))).write
        [(d.pkCol .child,newKey d .child (stamped d .child values vs (createStamp userId now)) generated)] d.fk =
        newRow d .child (stamped d .child values vs (createStamp userId now)) generated d.fk := by
      obtain ⟨hcolumn,hpk⟩ := d.fkHeld
      have hpk : d.fk ≠ d.pkCol .child := hpk
      simp [Row.write,newRow,rowOf,hcolumn,hpk,List.lookup_cons,beq_false_of_ne hpk]
    have hnew := hripples rfl
    rw [hrow.fk rfl] at hnew
    have hstand' := hstand.add_child hchain hrow hadmits hnew
    rw [← hfk] at hstand' hnew
    refine ripple_child hquiet' hstand' fun p hp hpk => ?_
    exact hnew.resolve_left fun hnull => ((d.sound _ hadmits).keys .parent p hp).1 (hpk.trans hnull)
  | parent =>
    have hpk : newRow d .parent (stamped d .parent values vs (createStamp userId now)) generated (d.pkCol .parent) =
        newKey d .parent (stamped d .parent values vs (createStamp userId now)) generated := by
      have hnull := ((d.sound _ hadmits).keys .parent _ (added_self .parent _ ts)).1
      simp only [newRow] at hnull ⊢
      split at hnull
      · rename_i hcolumn
        simp [Design.pkCol,hcolumn]
      · exact absurd rfl hnull
    have hnone := pointing_new (d.sound _ hstand.admitted) (d.sound _ hadmits)
    rw [hpk] at hnone
    have hrippled : (rowOf (stamped d .parent values vs (createStamp userId now))).write
        [(d.pkCol .parent,newKey d .parent (stamped d .parent values vs (createStamp userId now)) generated)]
        (d.pkCol .parent) = newKey d .parent (stamped d .parent values vs (createStamp userId now)) generated := by
      simp [Row.write]
    have hstand' := hstand.add_parent hchain hrow hadmits (rollup_new hcompute hnone)
    refine ripple_parent hquiet' (hstand'.mono fun _ _ _ h => h.elim) ?_
    rw [hrippled,pointing_added,hnone]
    exact Nat.zero_le _

theorem rewritten_sameData {s : Side} {ts : Tables} {pk : Value} {vs vs' : Values}
    (h : ∀ c, c ∉ (d.table s).names → vs.lookup c = vs'.lookup c) :
    SameData d (rewritten d s pk vs ts) (rewritten d s pk vs' ts) := by
  intro s'
  by_cases hs : s' = s
  · subst hs
    rw [rewritten,rewritten,Function.update_self,Function.update_self]
    refine List.forall₂_map_left_iff.mpr (List.forall₂_map_right_iff.mpr (List.forall₂_same.mpr fun row _ c hc => ?_))
    split
    · simp only [Row.write,Physical.lookup_clean,h c hc]
    · rfl
  · rw [rewritten,rewritten,Function.update_of_ne hs,Function.update_of_ne hs]
    exact List.forall₂_same.mpr fun _ _ _ _ => rfl

/-- Without a row of the key nothing is rewritten. -/
theorem rewritten_absent {s : Side} {ts : Tables} {pk : Value} {vs : Values} (h : (d.physical ts s).getRow pk = none) :
    rewritten d s pk vs ts = ts := by
  rw [rewritten]
  refine (Function.update_eq_self_iff).mpr ?_
  refine (List.map_congr_left fun row hrow => ?_).trans (List.map_id _)
  exact if_neg (Keyed.find_eq_none.mp h row hrow)

theorem getRow_rewritten {s : Side} {ts : Tables} {pk : Value} {vs : Values} {row : Row}
    (h : (d.physical ts s).getRow pk = some row) :
    (d.physical (rewritten d s pk vs ts) s).getRow pk = some (row.write ((d.physical ts s).clean vs)) := by
  have hkey : (d.physical ts s).keyOf row = (d.table s).key pk := Keyed.key_of_find h
  have hsame : ∀ row : Row, (d.physical ts s).keyOf (if (d.physical ts s).keyOf row = (d.table s).key pk then
      row.write ((d.physical ts s).clean vs) else row) = (d.physical ts s).keyOf row := by
    intro row
    split <;> simp
  have hrows : (rewritten d s pk vs ts) s = (d.physical ts s).writeRow pk vs := Function.update_self _ _ _
  change Keyed.find (d.physical ts s).keyOf ((d.table s).key pk) ((rewritten d s pk vs ts) s) = _
  rw [hrows,Physical.writeRow]
  refine (Keyed.find_map hsame _ _).trans ?_
  have hfound : Keyed.find (d.physical ts s).keyOf ((d.table s).key pk) (d.physical ts s).rows = some row := h
  rw [hfound,Option.map_some,if_pos hkey]

section Rewrite

variable {ts : Tables} {pk : Value} {vs : Values} {row : Row}

/-- A rewritten child leaves at most the parent stale that it points at, unless it pointed at another. -/
theorem Standing.rewrite_child (hstand : Standing lib d noneStale ts) (hrow : (d.physical ts .child).getRow pk = some row)
    (hadmits : d.admits (rewritten d .child pk vs ts) = true)
    (hsteady : Steady lib d .child (row.write ((d.physical ts .child).clean vs)))
    (hripples : Ripples (row.write ((d.physical ts .child).clean vs) d.fk))
    (hfresh : RowFresh lib d (rewritten d .child pk vs ts) .child (row.write ((d.physical ts .child).clean vs)))
    (hfk : row.write ((d.physical ts .child).clean vs) d.fk = row d.fk ∨ row d.fk = .null) :
    Standing lib d (fun s k => s = .parent ∧ k = row.write ((d.physical ts .child).clean vs) d.fk)
      (rewritten d .child pk vs ts) := by
  obtain ⟨hmem,hkey⟩ := getRow_some hrow
  have hone : ∀ old ∈ ts .child, old (d.pkCol .child) = (d.table .child).key pk → old = row := fun old hold hpk =>
    hstand.unique hold hmem (hpk.trans hkey.symm)
  have hparents : rewritten d .child pk vs ts .parent = ts .parent := Function.update_of_ne (by decide) _ _
  refine ⟨hadmits,fun row' h => ?_,fun s row' h => ?_,fun s row' h hstale => ?_⟩
  · rcases mem_rewritten h with ⟨h,-⟩ | ⟨-,old,hold,hpk,rfl⟩
    · exact hstand.ripples row' h
    · exact hone old hold hpk ▸ hripples
  · rcases mem_rewritten h with ⟨h,-⟩ | ⟨rfl,old,hold,hpk,rfl⟩
    · exact hstand.steady s row' h
    · exact hone old hold hpk ▸ hsteady
  · rcases mem_rewritten h with ⟨h,-⟩ | ⟨rfl,old,hold,hpk,rfl⟩
    · have hold := hstand.fresh s row' h id
      cases s with
      | child => exact hold.of_withKey (withKey_same hparents _)
      | parent =>
        refine hold.of_pointing ?_
        have hnew : row.write ((d.physical ts .child).clean vs) d.fk ≠ row' (d.pkCol .parent) :=
          fun hk => hstale ⟨rfl,hk.symm⟩
        have hleft : row d.fk ≠ row' (d.pkCol .parent) := by
          rcases hfk with hsame | hnull
          · exact fun hk => hnew (hsame.trans hk)
          · exact fun hk => ((d.sound ts hstand.admitted).keys .parent row' h).1 (hk.symm.trans hnull)
        have hchildren : rewritten d .child pk vs ts .child = (d.physical ts .child).writeRow pk vs :=
          Function.update_self _ _ _
        rw [Design.pointing,hchildren]
        refine filter_map_same (fun x hx => ?_) fun x hx hpoints => ?_
        · split
          · rename_i hpk
            obtain rfl := hone x hx hpk
            simp only [hnew,hleft,decide_false]
          · rfl
        · refine if_neg fun hpk => ?_
          obtain rfl := hone x hx hpk
          exact hleft (of_decide_eq_true hpoints)
    · exact hone old hold hpk ▸ hfresh

/-- A rewritten parent leaves at most those stale that point at it. -/
theorem Standing.rewrite_parent (hstand : Standing lib d noneStale ts) (hrow : (d.physical ts .parent).getRow pk = some row)
    (hadmits : d.admits (rewritten d .parent pk vs ts) = true)
    (hsteady : Steady lib d .parent (row.write ((d.physical ts .parent).clean vs)))
    (hfresh : RowFresh lib d (rewritten d .parent pk vs ts) .parent (row.write ((d.physical ts .parent).clean vs))) :
    Standing lib d (fun s k => s = .child ∧ row (d.pkCol .parent) ≠ .null ∧
      k ∈ (d.pointing ts (row (d.pkCol .parent))).map fun c => c (d.pkCol .child)) (rewritten d .parent pk vs ts) := by
  obtain ⟨hmem,hkey⟩ := getRow_some hrow
  have hone : ∀ old ∈ ts .parent, old (d.pkCol .parent) = (d.table .parent).key pk → old = row := fun old hold hpk =>
    hstand.unique hold hmem (hpk.trans hkey.symm)
  have hnull := ((d.sound ts hstand.admitted).keys .parent row hmem).1
  refine ⟨hadmits,fun row' h => ?_,fun s row' h => ?_,fun s row' h hstale => ?_⟩
  · rcases mem_rewritten h with ⟨h,-⟩ | ⟨hs,-⟩
    · exact hstand.ripples row' h
    · cases hs
  · rcases mem_rewritten h with ⟨h,-⟩ | ⟨rfl,old,hold,hpk,rfl⟩
    · exact hstand.steady s row' h
    · exact hone old hold hpk ▸ hsteady
  · rcases mem_rewritten h with ⟨h,-⟩ | ⟨rfl,old,hold,hpk,rfl⟩
    · have hold := hstand.fresh s row' h id
      cases s with
      | parent => exact hold.of_pointing (pointing_same rfl _)
      | child =>
        refine hold.of_withKey ?_
        have hother : row' d.fk ≠ (d.table .parent).key pk := by
          intro hk
          refine hstale ⟨rfl,hnull,List.mem_map_of_mem (f := fun c : Row => c (d.pkCol .child)) ?_⟩
          exact List.mem_filter.mpr ⟨h,decide_eq_true (hk.trans hkey.symm)⟩
        have hparents : rewritten d .parent pk vs ts .parent = (d.physical ts .parent).writeRow pk vs :=
          Function.update_self _ _ _
        rw [withKey,hparents]
        refine filter_map_same (fun x _ => ?_) fun x _ hpk => if_neg fun hx => ?_
        · split
          · have hwrite : x.write ((d.physical ts .parent).clean vs) (d.pkCol .parent) = x (d.pkCol .parent) :=
              (d.physical ts .parent).keyOf_write x vs
            rw [hwrite]
          · rfl
        · exact hother ((of_decide_eq_true hpk).symm.trans hx)
    · exact hone old hold hpk ▸ hfresh

end Rewrite

theorem update_standing (hchain : Unchained lib d) {ts : Tables} (hstand : Standing lib d noneStale ts) {s : Side}
    {pk : Value} {values : Values} {userId : Option ℕ} {now : ℤ} (hmild : Mild lib d ts (.update s pk values userId now)) :
    Standing lib d noneStale (update lib d s pk values userId now ts) := by
  obtain ⟨hreached,hquiet⟩ := hmild
  cases hrow : (d.physical ts s).getRow pk with
  | none =>
    have hquiet' : Quiet lib d ts := by simpa only [target,rewritten_absent hrow] using hquiet
    simp only [update,updateRow,rewritten_absent hrow,hstand.admitted,if_true,hrow]
    split
    · exact ripple_idle hquiet' hstand s _
    · exact hstand
  | some row =>
    obtain ⟨⟨vs,hcompute⟩,hkey,hmoved,hfew⟩ := hreached row hrow
    obtain ⟨hmem,hpk⟩ := getRow_some hrow
    have hself : computeSelf lib d s ts (context d s (some row) pk values) = vs := by rw [context,computeSelf,hcompute]
    have hwritten := @write_computedRow _ lib d s ts ts row values vs userId now hcompute
    have hquiet' := hquiet.of_sameData (@rewritten_sameData d s ts pk _ (stamped d s values vs
      (RecordService.auditStamp userId now)) fun c hc => (stamped_same (compute_other hcompute hc)).symm)
    simp only [update,updateRow,hrow,hself]
    split
    case h_1 h => exact hstand
    case h_2 ts' h =>
    split at h
    case isFalse => cases h
    case isTrue hadmits =>
    obtain rfl := Option.some.inj h
    rw [getRow_rewritten hrow]
    cases s with
    | child =>
      have hripples : Ripples (row.write ((d.physical ts .child).clean
          (stamped d .child values vs (RecordService.auditStamp userId now))) d.fk) := by
        rw [← hwritten.fk rfl]
        rcases hmoved rfl with hsame | ⟨-,hripples⟩
        · exact hsame ▸ hstand.ripples row hmem
        · exact hripples
      have hin : row.write ((d.physical ts .child).clean (stamped d .child values vs (RecordService.auditStamp userId now))) ∈
          rewritten d .child pk (stamped d .child values vs (RecordService.auditStamp userId now)) ts .child :=
        (getRow_some (getRow_rewritten hrow)).1
      have hstand' := hstand.rewrite_child hrow hadmits (hwritten.steady hchain) hripples
        (hwritten.child (Function.update_of_ne (by decide) _ _) (d.sound _ hadmits) hin hripples)
        (by rw [← hwritten.fk rfl]; exact (hmoved rfl).imp id And.left)
      refine ripple_child hquiet' hstand' fun p hp hparent => hripples.resolve_left fun hnull => ?_
      exact ((d.sound _ hadmits).keys .parent p hp).1 (hparent.trans hnull)
    | parent =>
      have hsamekey : row.write ((d.physical ts .parent).clean
          (stamped d .parent values vs (RecordService.auditStamp userId now))) (d.pkCol .parent) = row (d.pkCol .parent) :=
        (d.physical ts .parent).keyOf_write row _
      have hfresh : RowFresh lib d (rewritten d .parent pk
          (stamped d .parent values vs (RecordService.auditStamp userId now)) ts) .parent
          (row.write ((d.physical ts .parent).clean (stamped d .parent values vs (RecordService.auditStamp userId now)))) := by
        refine rowFresh_of_compute hcompute hwritten.computed (fun _ op col _ => ?_) fun hs => by cases hs
        rw [hkey,hstand.rollup hmem,hsamekey]
        rfl
      have hstand' := hstand.rewrite_parent hrow hadmits (hwritten.steady hchain) hfresh
      rw [← hsamekey] at hstand'
      refine ripple_parent hquiet' hstand' ?_
      rw [hsamekey]
      exact hfew rfl

/-! ### Removals -/

/-- Nothing is dissociated from a record that nothing points at. -/
theorem dissociated_idle {ts : Tables} {pk : Value} (h : d.pointing ts ((d.table .parent).key pk) = []) :
    dissociated d .parent pk ts = ts := by
  have hnone : ∀ row ∈ ts .child, row d.fk ≠ (d.table .parent).key pk := fun row hrow hk =>
    List.filter_eq_nil_iff.mp h row hrow (decide_eq_true hk)
  rw [dissociated]
  refine Function.update_eq_self_iff.mpr ?_
  split
  · exact (List.map_congr_left fun row hrow => if_neg (hnone row hrow)).trans (List.map_id _)
  · exact List.filter_eq_self.mpr fun row hrow => decide_eq_true (hnone row hrow)

/-- A record in the trash holds what it held before. -/
theorem trashed {s : Side} {ts ts' : Tables} {row : Row} {userId : Option ℕ} {now : ℤ} (hsteady : Steady lib d s row)
    (hfresh : RowFresh lib d ts' s row) :
    Steady lib d s (row.write ((d.physical ts s).clean (deleteStamp userId now))) ∧
      RowFresh lib d ts' s (row.write ((d.physical ts s).clean (deleteStamp userId now))) := by
  have hsame : ∀ c, c ∉ managed → row.write ((d.physical ts s).clean (deleteStamp userId now)) c = row c := fun c hc =>
    write_other (deleteStamp_unmanaged hc)
  constructor
  · intro col hcol ts₁ row₁ vs v hplain hcompute hv
    rw [hsame col (computed_unmanaged hcompute hv)]
    exact hsteady col hcol ts₁ row₁ vs v (fun c hc => (hplain c hc).trans (hsame c (plain_unmanaged hc))) hcompute hv
  · refine hfresh.row_congr (fun c hc => hsame c fun hm => managed_plain hm hc) (hsame _ (d.table s).pkFree) ?_
    rintro rfl
    exact hsame d.fk fk_unmanaged

theorem trash_standing {ts : Tables} (hstand : Standing lib d noneStale ts) {s : Side} {pk : Value} {userId : Option ℕ}
    {now : ℤ} (hsoft : (d.table s).mt.softDelete = true) (hmild : Mild lib d ts (.remove s pk userId now)) :
    Standing lib d noneStale (remove lib d s pk userId now ts) := by
  obtain ⟨hreached,hquiet⟩ := hmild
  have hidle : dissociated d s pk ts = ts := by
    cases s with
    | child => rfl
    | parent =>
      rcases hreached rfl with hnone | ⟨hhard,-⟩
      · exact dissociated_idle hnone
      · rw [hsoft] at hhard
        cases hhard
  simp only [target,hsoft,if_true,hidle] at hquiet
  simp only [remove,hsoft,if_true,hidle,hstand.admitted,updateRow]
  split
  case h_2 => exact hstand
  case h_1 ts' h =>
  split at h
  case isFalse => cases h
  case isTrue hadmits =>
  obtain rfl := Option.some.inj h
  cases hrow : (d.physical ts s).getRow pk with
  | none =>
    simp only [rewritten_absent hrow]
    exact hstand
  | some row =>
    obtain ⟨hmem,hpk⟩ := getRow_some hrow
    have hfresh := hstand.fresh s row hmem id
    cases s with
    | child =>
      have hsame : row.write ((d.physical ts .child).clean (deleteStamp userId now)) d.fk = row d.fk :=
        write_other (deleteStamp_unmanaged fk_unmanaged)
      obtain ⟨hsteady,hheld⟩ := @trashed _ lib d .child ts _ row userId now (hstand.steady .child row hmem)
        (hfresh.of_withKey (@withKey_same d ts (rewritten d .child pk (deleteStamp userId now) ts)
          (Function.update_of_ne (by decide) _ _) _))
      have hstand' := hstand.rewrite_child hrow hadmits hsteady (hsame ▸ hstand.ripples row hmem) hheld (Or.inl hsame)
      rw [hsame] at hstand'
      refine ripple_child hquiet hstand' fun p hp hparent => (hstand.ripples row hmem).resolve_left fun hnull => ?_
      exact ((d.sound _ hadmits).keys .parent p hp).1 (hparent.trans hnull)
    | parent =>
      obtain ⟨hsteady,hheld⟩ := @trashed _ lib d .parent ts _ row userId now (hstand.steady .parent row hmem)
        (hfresh.of_pointing (@pointing_same d ts (rewritten d .parent pk (deleteStamp userId now) ts)
          (Function.update_of_ne (by decide) _ _) _))
      have hnone : d.pointing ts (row (d.pkCol .parent)) = [] := by
        rcases hreached rfl with hnone | ⟨hhard,-⟩
        · rw [hpk,hnone]
        · rw [hsoft] at hhard
          cases hhard
      have hstand' := hstand.rewrite_parent hrow hadmits hsteady hheld
      refine ripple_idle hquiet (hstand'.mono fun s' row' _ h => ?_) .parent row
      rw [hnone] at h
      cases h.2.2

/-- A deleted child leaves at most the parent stale that it pointed at. -/
theorem delete_child {ts : Tables} (hstand : Standing lib d noneStale ts) {pk : Value}
    (hadmits : d.admits (deleted d .child pk ts) = true) :
    Standing lib d (fun s k => s = .parent ∧ ∃ old, (d.physical ts .child).getRow pk = some old ∧ k = old d.fk)
      (deleted d .child pk ts) := by
  have hsub : ∀ s, ∀ row ∈ deleted d .child pk ts s, row ∈ ts s := by
    intro s row h
    cases s with
    | parent => exact h
    | child => exact (List.mem_filter.mp h).1
  refine ⟨hadmits,fun row h => hstand.ripples row (hsub .child row h),fun s row h => hstand.steady s row (hsub s row h),
    fun s row h hstale => ?_⟩
  have hfresh := hstand.fresh s row (hsub s row h) id
  cases s with
  | child => exact hfresh.of_withKey (withKey_same rfl _)
  | parent =>
    refine hfresh.of_pointing (filter_filter_same fun c hc hpoints => decide_eq_true fun hpk => ?_)
    exact hstale ⟨rfl,c,hstand.getRow hc hpk,(of_decide_eq_true hpoints).symm⟩

/-- Once a parent is deleted nothing points at it, when the deletion does not clear the keys. -/
theorem deleted_unpointed {ts : Tables} {pk : Value} (hadmits : d.admits (deleted d .parent pk ts) = true)
    (hkept : d.pointing ts ((d.table .parent).key pk) = [] ∨ d.onDelete ≠ .setNull) (hnull : (d.table .parent).key pk ≠ .null) :
    deleted d .parent pk ts .child = (ts .child).filter fun row => decide (row d.fk ≠ (d.table .parent).key pk) := by
  have horphaned : deleted d .parent pk ts .child = orphaned d ((d.table .parent).key pk) (ts .child) :=
    if_pos ⟨rfl,hnull⟩
  have hall : (∀ row ∈ ts .child, row d.fk ≠ (d.table .parent).key pk) → ts .child =
      (ts .child).filter fun row => decide (row d.fk ≠ (d.table .parent).key pk) := fun h =>
    (List.filter_eq_self.mpr fun row hrow => decide_eq_true (h row hrow)).symm
  rw [horphaned,orphaned]
  split
  case h_2 => rfl
  case h_1 hset =>
    have hnone := hkept.resolve_right (not_not.mpr hset)
    have hno : ∀ row ∈ ts .child, row d.fk ≠ (d.table .parent).key pk := fun row hrow hk =>
      List.filter_eq_nil_iff.mp hnone row hrow (decide_eq_true hk)
    rw [← hall hno]
    exact (List.map_congr_left fun row hrow => if_neg (hno row hrow)).trans (List.map_id _)
  case h_3 hrestrict =>
    refine hall fun row hrow hk => ?_
    have hin : row ∈ deleted d .parent pk ts .child := by
      rw [horphaned,orphaned,hrestrict]
      exact hrow
    rcases (d.sound _ hadmits).references row hin with h | ⟨p,hp,hpk⟩
    · exact hnull (hk.symm.trans h)
    · exact of_decide_eq_true (List.mem_filter.mp hp).2 (hpk.trans hk)

/-- A deleted parent leaves nothing stale. -/
theorem delete_parent {ts : Tables} (hstand : Standing lib d noneStale ts) {pk : Value}
    (hadmits : d.admits (deleted d .parent pk ts) = true)
    (hkept : d.pointing ts ((d.table .parent).key pk) = [] ∨ d.onDelete ≠ .setNull) :
    Standing lib d noneStale (deleted d .parent pk ts) := by
  have hchildren : deleted d .parent pk ts .child = ts .child ∧ (d.table .parent).key pk = .null ∨
      deleted d .parent pk ts .child = (ts .child).filter fun row => decide (row d.fk ≠ (d.table .parent).key pk) := by
    by_cases hnull : (d.table .parent).key pk = .null
    · exact Or.inl ⟨if_neg fun h => h.2 hnull,hnull⟩
    · exact Or.inr (deleted_unpointed hadmits hkept hnull)
  have hchild : ∀ row ∈ deleted d .parent pk ts .child,
      row ∈ ts .child ∧ (row d.fk ≠ (d.table .parent).key pk ∨ (d.table .parent).key pk = .null) := by
    intro row h
    rcases hchildren with ⟨hsame,hnull⟩ | hfilter
    · exact ⟨hsame ▸ h,Or.inr hnull⟩
    · rw [hfilter] at h
      exact ⟨(List.mem_filter.mp h).1,Or.inl (of_decide_eq_true (List.mem_filter.mp h).2)⟩
  have hsub : ∀ s, ∀ row ∈ deleted d .parent pk ts s, row ∈ ts s := by
    intro s row h
    cases s with
    | parent => exact (List.mem_filter.mp h).1
    | child => exact (hchild row h).1
  refine ⟨hadmits,fun row h => hstand.ripples row (hsub .child row h),fun s row h => hstand.steady s row (hsub s row h),
    fun s row h _ => ?_⟩
  have hfresh := hstand.fresh s row (hsub s row h) id
  cases s with
  | parent =>
    refine hfresh.of_pointing ?_
    have hother : row (d.pkCol .parent) ≠ (d.table .parent).key pk := of_decide_eq_true (List.mem_filter.mp h).2
    rcases hchildren with ⟨hsame,-⟩ | hfilter
    · exact pointing_same hsame _
    · rw [Design.pointing,hfilter]
      refine filter_filter_same fun c _ hpoints => decide_eq_true fun hk => hother ?_
      exact (of_decide_eq_true hpoints).symm.trans hk
  | child =>
    refine hfresh.of_withKey (filter_filter_same fun p hp hpk => decide_eq_true fun hk => ?_)
    rcases (hchild row h).2 with hother | hnull
    · exact hother ((of_decide_eq_true hpk).symm.trans hk)
    · exact ((d.sound ts hstand.admitted).keys .parent p hp).1 (hk.trans hnull)

theorem remove_standing {ts : Tables} (hstand : Standing lib d noneStale ts) {s : Side} {pk : Value} {userId : Option ℕ}
    {now : ℤ} (hmild : Mild lib d ts (.remove s pk userId now)) :
    Standing lib d noneStale (remove lib d s pk userId now ts) := by
  by_cases hsoft : (d.table s).mt.softDelete = true
  · exact trash_standing hstand hsoft hmild
  obtain ⟨hreached,hquiet⟩ := hmild
  simp only [target,hsoft] at hquiet
  simp only [remove,hsoft]
  split
  case isTrue h => cases h
  case isFalse =>
  split
  case isFalse => exact hstand
  case isTrue hadmits =>
  cases s with
  | parent =>
    have hstand' := delete_parent hstand hadmits ((hreached rfl).imp id And.right)
    split
    · exact ripple_idle hquiet hstand' .parent _
    · exact hstand'
  | child =>
    have hstand' := delete_child hstand hadmits
    split
    · rename_i old hold
      have hmem := (getRow_some hold).1
      refine ripple_child hquiet (hstand'.mono ?_) fun p hp hparent => (hstand.ripples old hmem).resolve_left fun hnull => ?_
      · rintro s row _ ⟨hs,old',hold',hk⟩
        obtain rfl := Option.some.inj (hold.symm.trans hold')
        exact ⟨hs,hk⟩
      · exact ((d.sound _ hadmits).keys .parent p hp).1 (hparent.trans hnull)
    · rename_i hnone
      refine hstand'.mono ?_
      rintro s row _ ⟨-,old,hold,-⟩
      rw [hnone] at hold
      cases hold

theorem step_standing (hchain : Unchained lib d) {ts : Tables} {op : Op} (hstand : Standing lib d noneStale ts)
    (hmild : Mild lib d ts op) : Standing lib d noneStale (step lib d ts op) := by
  cases op with
  | create s values generated userId now => exact create_standing hchain hstand hmild
  | update s pk values userId now => exact update_standing hchain hstand hmild
  | remove s pk userId now => exact remove_standing hstand hmild

/-- The tables before the first operation. -/
def noRows : Tables := fun _ => []

/-- As long as no child leaves a parent and no parent leaves its children, every stored rollup is the aggregate of the
children and every stored lookup the value in the parent, after any operations on the two tables. -/
theorem formulas_up_to_date {ω : Type*} {lib : FormulaLib ω} {d : Design} (hchain : Unchained lib d) {ops : List Op} (hrun : Meets (step lib d) (Mild lib d) noRows ops) :
    UpToDate lib d (exec (step lib d) noRows ops) := by
  have hstart : Standing lib d noneStale noRows :=
    ⟨d.admitsNone,fun _ h => by simp [noRows] at h,fun _ _ h => by simp [noRows] at h,fun _ _ h => by simp [noRows] at h⟩
  have hend := invariant (Standing lib d noneStale) (fun _ _ => step_standing hchain) hstart hrun
  exact fun s row hrow => hend.fresh s row hrow id

end Operations

/-! ### Accounts and their orders -/

/-- The check of keys alone. -/
def checkKeys (table : Side → FormulaTable) (fk : String) (ts : Tables) : Bool :=
  ([Side.parent,Side.child].all fun s => decide ((ts s).map fun row => row (table s).mt.pkCol).Nodup &&
    (ts s).all fun row => decide (row (table s).mt.pkCol ≠ .null ∧
      (table s).key (row (table s).mt.pkCol) = row (table s).mt.pkCol)) &&
  (ts .child).all fun row => decide (row fk = .null) ||
    (ts .parent).any fun p => decide (p (table .parent).mt.pkCol = row fk)

theorem checkKeys_sound {table : Side → FormulaTable} {fk : String} (ts : Tables) (h : checkKeys table fk ts = true) :
    Integrity table fk ts := by
  simp only [checkKeys,List.all_cons,List.all_nil,Bool.and_true,Bool.and_eq_true,List.all_eq_true,decide_eq_true_eq,
    Bool.or_eq_true,List.any_eq_true] at h
  obtain ⟨⟨⟨hparents,hparent⟩,hchildren,hchild⟩,hreferences⟩ := h
  refine ⟨fun s => ?_,fun s => ?_,hreferences⟩
  · cases s with
    | parent => exact hparents
    | child => exact hchildren
  · cases s with
    | parent => exact hparent
    | child => exact hchild

def ordersText : String := "rollup('Orders', '', 'count')"

def regionText : String := "lookup('account_id', 'region')"

def ordersLib : FormulaLib String := { formulaLib with
  parse := fun s =>
    if s = ordersText then .ok (.call (.name "rollup") [textConstant "Orders",textConstant "",textConstant "count"] [])
    else if s = regionText then .ok (.call (.name "lookup") [textConstant "account_id",textConstant "region"] [])
    else .error "invalid syntax" }

def accounts : FormulaTable where
  mt := {
    id := 1
    physName := "account"
    label := "Account"
    fields := [⟨1,"region","Region",.string,true,none,none,none,none,none,none,none,none⟩,
      ⟨2,"n_orders","Orders",.formula,true,none,none,none,none,none,none,none,none⟩]
    idsNodup := by decide
    namesNodup := by decide
    namesFree := by decide }
  columns := ["id","region","n_orders"]
  key := id
  formulas := [⟨"n_orders",some ordersText,.number⟩]
  formulasNodup := by decide
  formulasOf := by simp
  formulasHeld := by decide
  pkFree := by decide

def orders : FormulaTable where
  mt := {
    id := 2
    physName := "ordr"
    label := "Order"
    fields := [⟨3,"account_id","Account",.relation,true,none,none,some 1,none,none,none,none,none⟩,
      ⟨4,"cust_region","Region",.formula,true,none,none,none,none,none,none,none,none⟩]
    idsNodup := by decide
    namesNodup := by decide
    namesFree := by decide }
  columns := ["id","account_id","cust_region"]
  key := id
  formulas := [⟨"cust_region",some regionText,.text⟩]
  formulasNodup := by decide
  formulasOf := by simp
  formulasHeld := by decide
  pkFree := by decide

def orderTables : Side → FormulaTable
  | .parent => accounts
  | .child => orders

def shop : Design where
  table := orderTables
  relName := "Orders"
  fk := "account_id"
  fkField := ⟨_,List.mem_cons_self,rfl,rfl⟩
  fkHeld := by decide
  nullable := true
  onDelete := .setNull
  elsewhere _ _ := ⟨fun _ _ => .null,fun _ _ _ => .null⟩
  keep _ _ v := match v with
    | .val v => v
    | _ => .null
  aggregate _ _ := .null
  admits := checkKeys orderTables "account_id"
  sound := checkKeys_sound
  admitsNone := by decide

theorem mem_formulas {s : Side} {f : FormulaField} (hf : f ∈ (shop.table s).formulas) :
    s = .parent ∧ f = ⟨"n_orders",some ordersText,.number⟩ ∨ s = .child ∧ f = ⟨"cust_region",some regionText,.text⟩ := by
  cases s with
  | parent => exact Or.inl ⟨rfl,List.mem_singleton.mp hf⟩
  | child => exact Or.inr ⟨rfl,List.mem_singleton.mp hf⟩

theorem shop_unchained : Unchained ordersLib shop := by
  have hplain : ∀ s col, Reads ordersLib shop s col → col ∉ (shop.table s).names := by
    intro s col hcol
    cases s with
    | child =>
      obtain ⟨f,hf,op,text,htext,-,hparse⟩ := hcol
      obtain ⟨-,rfl⟩ | ⟨hs,-⟩ := mem_formulas hf
      · obtain rfl : ordersText = text := Option.some.inj htext
        have hread : ordersLib.parse ordersText =
            .ok (.call (.name "rollup") [textConstant "Orders",textConstant "",textConstant "count"] []) := rfl
        rw [hread] at hparse
        have hempty : col = "" := by
          rcases hparse with hparse | ⟨-,hparse⟩ <;> simp_all [textConstant]
        rw [hempty]
        decide
      · cases hs
    | parent =>
      obtain ⟨f,hf,text,htext,-,-,hparse⟩ := hcol
      obtain ⟨hs,-⟩ | ⟨-,rfl⟩ := mem_formulas hf
      · cases hs
      · obtain rfl : regionText = text := Option.some.inj htext
        have hread : ordersLib.parse regionText =
            .ok (.call (.name "lookup") [textConstant "account_id",textConstant "region"] []) := rfl
        rw [hread] at hparse
        have hregion : col = "region" := by simp_all [textConstant]
        rw [hregion]
        decide
  intro s col hcol ts ts' row row' vs vs' _ h h'
  rw [compute_other h (hplain s col hcol),compute_other h' (hplain s col hcol)]

theorem computeValues_isOk {ω : Type*} {lib : FormulaLib ω} {resolver : (String → Val) → Resolver}
    {fields : List FormulaField} (h : ∀ f ∈ fields, ∀ row, ∃ w, (computeField lib (resolver row) row f).result = .ok w)
    (row : String → Val) : ∃ out, (computeValues lib resolver row fields).result = .ok out := by
  induction fields generalizing row with
  | nil => exact ⟨[],rfl⟩
  | cons f fields ih =>
    obtain ⟨w,hw⟩ := h f List.mem_cons_self row
    obtain ⟨out,hout⟩ := ih (fun g hg => h g (List.mem_cons_of_mem f hg)) (Function.update row f.physName w)
    refine ⟨(f.physName,w)::out,?_⟩
    simp only [computeValues,Traced.bind_def,hw,hout]
    rfl

/-- The formulas of the two tables never raise. -/
theorem shop_computes (s : Side) (ts : Tables) (row : Row) : ∃ vs, compute ordersLib shop s ts row = .ok vs := by
  have hfield : ∀ f ∈ (shop.table s).formulas, ∀ row' : String → Val,
      ∃ w, (computeField ordersLib (resolver ordersLib shop ts s row') row' f).result = .ok w := by
    intro f hf row'
    obtain ⟨rfl,rfl⟩ | ⟨rfl,rfl⟩ := mem_formulas hf
    · exact coerceResult_ok _ .number
    · exact coerceResult_ok _ .text
  obtain ⟨out,hout⟩ := computeValues_isOk hfield fun c => .val (row c)
  rw [compute,hout]
  exact ⟨_,rfl⟩

theorem forall₂_all {α : Type*} {R : α → α → Prop} {p q : α → Bool} (hp : ∀ x y, R x y → p x = q y) {xs ys : List α}
    (h : List.Forall₂ R xs ys) : xs.all p = ys.all q := by
  induction h with
  | nil => rfl
  | cons hxy _ ih => rw [List.all_cons,List.all_cons,hp _ _ hxy,ih]

theorem forall₂_any {α : Type*} {R : α → α → Prop} {p q : α → Bool} (hp : ∀ x y, R x y → p x = q y) {xs ys : List α}
    (h : List.Forall₂ R xs ys) : xs.any p = ys.any q := by
  induction h with
  | nil => rfl
  | cons hxy _ ih => rw [List.any_cons,List.any_cons,hp _ _ hxy,ih]

theorem shop_quiet (ts : Tables) : Quiet ordersLib shop ts := by
  refine fun ts' hsame => ⟨?_,fun s row _ => shop_computes s ts' row⟩
  have hpk : ∀ s, ∀ row row' : Row, (∀ c, c ∉ (shop.table s).names → row c = row' c) →
      row (orderTables s).mt.pkCol = row' (orderTables s).mt.pkCol := fun s row row' h => h _ (pk_plain s)
  have hfk : ∀ row row' : Row, (∀ c, c ∉ (shop.table .child).names → row c = row' c) →
      row "account_id" = row' "account_id" := fun row row' h => h _ (@fk_plain shop)
  have hkeys : ∀ s, (ts' s).map (fun row => row (orderTables s).mt.pkCol) =
      (ts s).map fun row => row (orderTables s).mt.pkCol := fun s => (Paired.map_eq (hpk s) (hsame s)).symm
  have hall : ∀ s, (ts' s).all (fun row => decide (row (orderTables s).mt.pkCol ≠ .null ∧
      (orderTables s).key (row (orderTables s).mt.pkCol) = row (orderTables s).mt.pkCol)) =
      (ts s).all fun row => decide (row (orderTables s).mt.pkCol ≠ .null ∧
        (orderTables s).key (row (orderTables s).mt.pkCol) = row (orderTables s).mt.pkCol) := fun s =>
    (forall₂_all (fun row row' h => by rw [hpk s row row' h]) (hsame s)).symm
  have hreferences : (ts' .child).all (fun row => decide (row "account_id" = .null) ||
      (ts' .parent).any fun p => decide (p (orderTables .parent).mt.pkCol = row "account_id")) =
      (ts .child).all fun row => decide (row "account_id" = .null) ||
        (ts .parent).any fun p => decide (p (orderTables .parent).mt.pkCol = row "account_id") := by
    refine (forall₂_all (fun row row' h => ?_) (hsame .child)).symm
    rw [hfk row row' h]
    exact congrArg _ (forall₂_any (fun p p' hp => by rw [hpk .parent p p' hp]) (hsame .parent))
  change checkKeys orderTables "account_id" ts' = checkKeys orderTables "account_id" ts
  simp only [checkKeys,List.all_cons,List.all_nil,hkeys,hall,hreferences]

/-- An account changes its region while it has an order, which is then deleted. -/
def trading : List Op :=
  [.create .parent [("region",.text "EU")] (.int 1) none 0,.create .child [("account_id",.int 1)] (.int 1) none 0,
    .update .parent (.int 1) [("region",.text "US")] none 0,.remove .child (.int 1) none 0]

theorem formulas_up_to_date_trading : UpToDate ordersLib shop (exec (step ordersLib shop) noRows trading) := by
  refine formulas_up_to_date shop_unchained ⟨⟨⟨?_,fun hs => (by cases hs)⟩,shop_quiet _⟩,⟨⟨?_,fun _ => Or.inr rfl⟩,shop_quiet _⟩,
    ⟨fun row hrow => ⟨shop_computes _ _ _,rfl,fun hs => (by cases hs),fun _ => ?_⟩,shop_quiet _⟩,
    ⟨fun hs => (by cases hs),shop_quiet _⟩,trivial⟩
  · exact shop_computes _ _ _
  · exact shop_computes _ _ _
  · refine (List.length_filter_le _ _).trans ?_
    decide +kernel

/-- An order moves from the account 1 to the account 2. -/
def moving : List Op :=
  [.create .parent [("region",.text "EU")] (.int 1) none 0,.create .parent [("region",.text "US")] (.int 2) none 0,
    .create .child [("account_id",.int 1)] (.int 1) none 0,.update .child (.int 1) [("account_id",.int 2)] none 0]

/-- The account that an order has left still counts it. -/
theorem moved_order : ¬UpToDate ordersLib shop (exec (step ordersLib shop) noRows moving) := by
  intro h
  have hkeys : (exec (step ordersLib shop) noRows moving .parent).map (fun row => row "id") = [.int 1,.int 2] := by
    decide +kernel
  have hstored : (exec (step ordersLib shop) noRows moving .parent).map (fun row => row "n_orders") =
      [.decimal (.finite false 1 0),.decimal (.finite false 1 0)] := by decide +kernel
  have hcells : shop.cells (exec (step ordersLib shop) noRows moving) (.int 1) "" = [] := by decide +kernel
  have hcounted : (coerceResult ordersLib (shop.aggregateValue (opName ordersLib (.text "count")) "" []) .number).toOption =
      some (.decimal (.finite false 0 0)) := by decide +kernel
  cases hrows : exec (step ordersLib shop) noRows moving .parent with
  | nil =>
    rw [hrows] at hkeys
    cases hkeys
  | cons p rest =>
    rw [hrows] at hkeys hstored
    have hkey : p "id" = .int 1 := (List.cons.inj hkeys).1
    have hsingle : SingleRollup ordersLib shop ⟨"n_orders",some ordersText,.number⟩ "count" "" :=
      ⟨ordersText,rfl,by decide,Or.inl rfl⟩
    obtain ⟨w,hw,hp⟩ := h .parent p (by simp [hrows]) ⟨"n_orders",some ordersText,.number⟩ List.mem_cons_self "count" "" hsingle
    have hagg : shop.cells (exec (step ordersLib shop) noRows moving) (p (shop.pkCol .parent)) "" = [] :=
      (congrArg (fun k => shop.cells (exec (step ordersLib shop) noRows moving) k "") hkey).trans hcells
    rw [hagg] at hw
    rw [hw] at hcounted
    obtain rfl := Option.some.inj hcounted
    have hone : p "n_orders" = .decimal (.finite false 1 0) := (List.cons.inj hstored).1
    rw [hone] at hp
    cases hp

end Related
end Biggy
