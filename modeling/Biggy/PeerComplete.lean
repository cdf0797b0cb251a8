import Biggy.PeerPull
import Biggy.PullLoss
import Mathlib.Algebra.Order.Ring.Int

/-!
# Complete peer pulls

The endpoint never sends more than 200 rows, while the client counts its pages at the size
it asked for, so with larger pages it stops early. `peer_complete_iff` says which pulls
bring every newer record all the same.
-/
namespace Biggy
namespace Pull

open Paging

variable {ρ : Type*} {lib : PullLib} {source : PullSource} {peer : Peer ρ} {cursor : String}

/-- Without a field of that name the page is no filter. -/
theorem matching_eq_listed (hpage : "page" ∉ peer.fieldNames) (p : ℕ) : matching source peer p = listed source peer := by
  apply List.filter_congr
  intro row _
  have h : passes peer (ListQuery.args ⟨p,source.perPage,source.cursor⟩) row = true ↔ _ := passes_args p row
  have hiff : passes peer (ListQuery.args ⟨p,source.perPage,source.cursor⟩) row = true ↔
      passes peer (ListQuery.fixedArgs ⟨1,source.perPage,source.cursor⟩) row = true := by
    rw [h]
    exact ⟨And.left,fun hfixed => ⟨hfixed,fun hin => absurd hin hpage⟩⟩
  exact Bool.eq_iff_iff.mpr hiff

theorem newRows_nodup : (newRows lib source peer cursor).Nodup := (peer.nodup _).filter _

theorem mem_newRows {row : ρ} : row ∈ newRows lib source peer cursor ↔
    row ∈ peer.ordered (some cursor) ∧ isNew lib source peer cursor row = true := List.mem_filter

/-- When the newer rows pass the filters, they are the newer ones of the listed rows. -/
theorem newRows_listed (h : Agrees lib source peer cursor) (hpassed : ∀ row ∈ newRows lib source peer cursor,
    passes peer (ListQuery.fixedArgs ⟨1,source.perPage,source.cursor⟩) row = true) :
    (listed source peer).filter (isNew lib source peer cursor) = newRows lib source peer cursor := by
  rw [listed,h.set,List.filter_filter,newRows]
  apply List.filter_congr
  intro row hrow
  cases hnew : isNew lib source peer cursor row with
  | false => rfl
  | true =>
    have hpass := hpassed row (mem_newRows.mpr ⟨hrow,hnew⟩)
    rw [h.set] at hpass
    simp [hpass]

/-- A page of the client's size that covers the total covers the newer rows. -/
theorem filter_of_total {xs : List ρ} {new : ρ → Bool} {p : ℕ} (hfront : ∀ x ∈ xs.take (p*served source), new x = true)
    (hpos : 0 < xs.length) (htotal : (xs.length : ℤ) ≤ p*source.perPage)
    (hsized : source.perPage ≤ 200 ∨
      ((xs.filter new).length : ℤ) ≤ 200*((xs.length+source.perPage-1)/source.perPage)) :
    xs.filter new = xs.take (p*served source) := by
  apply filter_front hfront
  have hone : 1 ≤ source.perPage := by
    by_contra hneg
    have hzero : (p:ℤ)*source.perPage ≤ 0 := mul_nonpos_of_nonneg_of_nonpos (by omega) (by omega)
    omega
  by_cases hle : source.perPage ≤ 200
  · have hsame : ((p*served source : ℕ) : ℤ) = p*source.perPage := by
      rw [Nat.cast_mul,served_eq hone hle]
    rw [List.drop_eq_nil_of_le (by omega),List.filter_nil]
  · have hcount := hsized.resolve_left hle
    have hserved : served source = 200 := by
      simp only [served,clampSize]
      omega
    have hpages : (xs.length+source.perPage-1)/source.perPage ≤ p := by
      apply Int.le_of_lt_add_one
      apply Int.ediv_lt_of_lt_mul (by omega)
      have hexpand : ((p:ℤ)+1)*source.perPage = p*source.perPage+source.perPage := by rw [add_mul,one_mul]
      omega
    have hlength := congrArg List.length (filter_split hfront)
    rw [List.length_append,List.length_take,hserved] at hlength
    rw [hserved]
    by_cases hshort : xs.length ≤ p*200
    · rw [List.drop_eq_nil_of_le hshort,List.filter_nil]
    · apply List.eq_nil_of_length_eq_zero
      omega

/-- Without a filter on the page, the loop brings the newer listed rows in their order. -/
theorem peerPages_listed (h : Agrees lib source peer cursor) (hpage : "page" ∉ peer.fieldNames)
    (hencoded : ∀ p ≥ 1, (∃ row ∈ window source peer p, isNew lib source peer cursor row = true) →
      ∀ row ∈ window source peer p, peer.encodable row = true)
    (hsized : source.perPage ≤ 200 ∨
      (((listed source peer).filter (isNew lib source peer cursor)).length : ℤ) ≤ 200*pageCount source peer)
    {requests p : ℕ} (hp : 1 ≤ p) (hreach : p ≤ (listed source peer).length+1)
    (henough : (listed source peer).length+2 ≤ requests+p)
    (hfront : ∀ row ∈ (listed source peer).take ((p-1)*served source), isNew lib source peer cursor row = true) :
    peerPages lib source peer requests p ((listed source peer).take ((p-1)*served source)) =
      some (.ok ((listed source peer).filter (isNew lib source peer cursor))) := by
  induction requests generalizing p with
  | zero => omega
  | succ requests ih =>
    have hmatching : matching source peer p = listed source peer := matching_eq_listed hpage p
    have hwindow : window source peer p = page (served source) p (listed source peer) := by
      rw [window,hmatching]
    have hinit : Initial (isNew lib source peer cursor) (listed source peer) := by
      rw [← hmatching]
      exact matching_initial h p
    rw [peerPages_succ h hp]
    by_cases hnil : window source peer p = []
    · rw [if_pos (Or.inr hnil)]
      rw [hwindow,page_eq_nil_iff served_pos] at hnil
      rw [filter_front hfront (by rw [List.drop_eq_nil_of_le hnil,List.filter_nil])]
    · have hsome : ¬(listed source peer).length ≤ (p-1)*served source := by
        rwa [← page_eq_nil_iff served_pos,← hwindow]
      have hencodes : ∀ row ∈ window source peer p, isNew lib source peer cursor row = true →
          (window source peer p).all peer.encodable = true := fun row hrow hnew =>
        List.all_eq_true.mpr (hencoded p hp ⟨row,hrow,hnew⟩)
      cases hall : (window source peer p).all (isNew lib source peer cursor) with
      | false =>
        -- the page ends the newer rows, whether it can be encoded or not
        obtain ⟨old,hold,holdNew⟩ := List.all_eq_false.mp hall
        have hfilter := filter_page hp hinit hfront (hwindow ▸ hold) holdNew
        cases henc : (window source peer p).all peer.encodable with
        | false =>
          have hnone : (window source peer p).takeWhile (isNew lib source peer cursor) = [] := by
            apply List.eq_nil_iff_forall_not_mem.mpr
            intro row hrow
            have hgood := hencodes row ((List.takeWhile_sublist _).subset hrow) (List.mem_takeWhile_imp hrow)
            rw [henc] at hgood
            cases hgood
          rw [if_pos (Or.inl rfl),hfilter,← hwindow,hnone,List.append_nil]
        | true =>
          rw [if_neg (by simp [hnil]),if_pos rfl,hfilter,hwindow]
      | true =>
        obtain ⟨row,hrow⟩ := List.exists_mem_of_ne_nil _ hnil
        have henc := hencodes row hrow (List.all_eq_true.mp hall row hrow)
        have hnext : ∀ x ∈ (listed source peer).take (p*served source), isNew lib source peer cursor x = true :=
          take_page_new hp hfront (hwindow ▸ List.all_eq_true.mp hall)
        rw [if_neg (by simp [hnil,henc]),if_neg (by simp),hwindow,take_append_page hp,hmatching]
        by_cases htotal : ((listed source peer).length : ℤ) ≤ p*source.perPage
        · rw [if_pos htotal,filter_of_total hnext (by omega) htotal hsized]
        · rw [if_neg htotal]
          have hback : p+1-1 = p := rfl
          have hsize : 1 ≤ served source := served_pos
          have hnear : p-1 ≤ (p-1)*served source := Nat.le_mul_of_pos_right _ hsize
          have hgo := ih (p := p+1) (by omega) (by omega) (by omega) (by rwa [hback])
          rwa [hback] at hgo

/-- A row that answers the filter on the page is only ever asked for on that page. -/
theorem page_of_window (hone : OnePage peer) (hpage : "page" ∈ peer.fieldNames) {p q : ℕ} {row : ρ}
    (hp : row ∈ matching source peer p) (hq : row ∈ window source peer q) : p = q := by
  have hleft := ((passes_args p row).mp (List.mem_filter.mp hp).2).2 hpage
  have hright := ((passes_args q row).mp
    (List.mem_filter.mp (mem_of_mem_page hq)).2).2 hpage
  have h := hone row p q hleft hright
  omega

theorem window_one : window source peer 1 = (matching source peer 1).take (served source) := by
  simp [window,page]

/-- With a filter on the page, the first page brings the newer rows and the next ones nothing. -/
theorem peerPages_first (h : Agrees lib source peer cursor) (hone : OnePage peer) (hpage : "page" ∈ peer.fieldNames)
    (hfits : Fits lib source peer cursor) {requests : ℕ} (hreq : 2 ≤ requests) :
    peerPages lib source peer requests 1 [] = some (.ok (newRows lib source peer cursor)) := by
  obtain ⟨hpassed,hencoded,hsized⟩ := hfits
  rw [if_pos hpage] at hsized
  obtain ⟨hvalue,hcount⟩ := hsized
  have hmem : ∀ row ∈ newRows lib source peer cursor, row ∈ matching source peer 1 := by
    intro row hrow
    rw [matching,List.mem_filter,h.set]
    refine ⟨(mem_newRows.mp hrow).1,?_⟩
    rw [← h.set]
    exact (passes_args 1 row).mpr ⟨hpassed row hrow,fun _ => hvalue row hrow⟩
  have hfilter : (matching source peer 1).filter (isNew lib source peer cursor) = newRows lib source peer cursor := by
    rw [matching,h.set,List.filter_filter,newRows]
    apply List.filter_congr
    intro row hrow
    cases hnew : isNew lib source peer cursor row with
    | false => rfl
    | true =>
      have hin := hmem row (mem_newRows.mpr ⟨hrow,hnew⟩)
      rw [matching,List.mem_filter,h.set] at hin
      simpa using hin.2
  have hinit := matching_initial h 1
  have hnew : (window source peer 1).takeWhile (isNew lib source peer cursor) = newRows lib source peer cursor := by
    rw [← hfilter,window_one,(hinit.sublist (List.take_sublist _ _)).takeWhile_eq_filter]
    exact filter_take_of_le hinit (by rw [hfilter]; exact hcount)
  have hlater : ∀ row ∈ window source peer 2, ¬isNew lib source peer cursor row = true := by
    intro row hrow hold
    have hin := hmem row (mem_newRows.mpr ⟨window_subset h row hrow,hold⟩)
    exact absurd (page_of_window hone hpage hin hrow) (by omega)
  obtain ⟨n,rfl⟩ : ∃ n, requests = n+1+1 := ⟨requests-2,by omega⟩
  rw [peerPages_succ h le_rfl,List.nil_append,hnew]
  split
  · rename_i hend
    have hnone : newRows lib source peer cursor = [] := by
      rw [← hnew]
      rcases hend with hbad | hnil
      · apply List.eq_nil_iff_forall_not_mem.mpr
        intro row hrow
        have hgood := hencoded 1 le_rfl ⟨row,(List.takeWhile_sublist _).subset hrow,List.mem_takeWhile_imp hrow⟩
        rw [List.all_eq_true.mpr hgood] at hbad
        cases hbad
      · rw [hnil,List.takeWhile_nil]
    rw [hnone]
  · split
    · rfl
    · rename_i hall
      have hself : (window source peer 1).takeWhile (isNew lib source peer cursor) = window source peer 1 :=
        List.takeWhile_eq_self_iff.mpr (List.all_eq_true.mp (by simpa using hall))
      rw [← hself,hnew]
      split
      · rfl
      · rw [peerPages_succ h (by omega)]
        split
        · rfl
        · rename_i hgo
          cases hrows : window source peer 2 with
          | nil => exact absurd (Or.inr hrows) hgo
          | cons row rows =>
            have hold := hlater row (hrows ▸ List.mem_cons_self)
            simp [hold]

/-- What fits is complete. -/
theorem complete_of_fits (h : Agrees lib source peer cursor) (hone : OnePage peer)
    (hfits : Fits lib source peer cursor) : Complete lib source peer cursor := by
  refine ⟨(listed source peer).length+2,?_⟩
  intro requests hreq
  have hpages : peerPages lib source peer requests 1 [] = some (.ok (newRows lib source peer cursor)) := by
    by_cases hpage : "page" ∈ peer.fieldNames
    · exact peerPages_first h hone hpage hfits (by omega)
    · have hsized := hfits.sized
      rw [if_neg hpage,← newRows_listed h hfits.passed] at hsized
      have hgo := peerPages_listed h hpage hfits.encoded hsized (p := 1) le_rfl (by omega)
        (by omega : (listed source peer).length+2 ≤ requests+1) (by simp)
      simpa [newRows_listed h hfits.passed] using hgo
  simp [peerRecords,hpages,h.set,Except.map]

/-- In a complete pull every newer row was on a page that was asked for and encoded. -/
theorem window_of_complete (h : Agrees lib source peer cursor) (hcomplete : Complete lib source peer cursor)
    {row : ρ} (hrow : row ∈ newRows lib source peer cursor) : ∃ q ≥ 1, row ∈ window source peer q ∧
      (∀ r ∈ window source peer q, peer.encodable r = true) ∧
        (q = 1 ∨ ((q:ℤ)-1)*source.perPage < (matching source peer (q-1)).length) := by
  obtain ⟨n,hn⟩ := hcomplete
  have hresult := hn n le_rfl
  simp only [peerRecords,h.set,Option.isSome_some,if_true,Option.map_eq_some_iff] at hresult
  obtain ⟨r,hpages,hr⟩ := hresult
  cases r with
  | error e => cases hr
  | ok collected =>
    have hreverse : collected.reverse = (newRows lib source peer cursor).reverse := Except.ok.inj hr
    have hsame : collected = newRows lib source peer cursor := List.reverse_injective hreverse
    subst hsame
    rcases mem_peerPages h le_rfl hpages hrow with hin | hin
    · cases hin
    · exact hin

/-- A page of a newer row that is asked for is its own first one. -/
theorem first_of_complete (h : Agrees lib source peer cursor) (hone : OnePage peer) (hpage : "page" ∈ peer.fieldNames)
    (hcomplete : Complete lib source peer cursor) {row : ρ} (hrow : row ∈ newRows lib source peer cursor) {q : ℕ}
    (hq : 1 ≤ q) (hwindow : row ∈ window source peer q) : q = 1 := by
  by_contra hne
  have hdrop : row ∈ (matching source peer q).drop ((q-1)*served source) := List.mem_of_mem_take hwindow
  have hpos : 1 ≤ (q-1)*served source := Nat.mul_pos (by omega) served_pos
  have htail : row ∈ (matching source peer q).drop 1 := (List.drop_subset_drop_left _ hpos) hdrop
  cases hmatching : matching source peer q with
  | nil =>
    rw [hmatching] at htail
    cases htail
  | cons first rest =>
    rw [hmatching] at htail
    -- the first row of the filtered list is newer too, but no page with its own number holds it
    have hinit := matching_initial h q
    rw [hmatching] at hinit
    have hnew := (List.pairwise_cons.mp hinit).1 row htail (mem_newRows.mp hrow).2
    have hfirst : first ∈ matching source peer q := hmatching ▸ List.mem_cons_self
    have hordered : first ∈ peer.ordered (some cursor) := by
      have hmem := (List.mem_filter.mp hfirst).1
      rwa [h.set] at hmem
    obtain ⟨r,hr,hin,-,-⟩ := window_of_complete h hcomplete (mem_newRows.mpr ⟨hordered,hnew⟩)
    obtain rfl := page_of_window hone hpage hfirst hin
    have hback : first ∈ (matching source peer q).drop 1 :=
      (List.drop_subset_drop_left _ hpos) (List.mem_of_mem_take hin)
    have hnodup : (matching source peer q).Nodup := matching_nodup q
    rw [hmatching] at hback hnodup
    exact (List.nodup_cons.mp hnodup).1 hback

/-- A complete pull fits. -/
theorem fits_of_complete (h : Agrees lib source peer cursor) (hone : OnePage peer)
    (hcomplete : Complete lib source peer cursor) : Fits lib source peer cursor := by
  constructor
  · intro row hrow
    obtain ⟨q,-,hwindow,-,-⟩ := window_of_complete h hcomplete hrow
    exact ((passes_args q row).mp (List.mem_filter.mp (mem_of_mem_page hwindow)).2).1
  · rintro p hp ⟨row,hrow,hnew⟩
    obtain ⟨q,hq,hwindow,hencoded,-⟩ :=
      window_of_complete h hcomplete (mem_newRows.mpr ⟨window_subset h row hrow,hnew⟩)
    have hsame : p = q := by
      by_cases hpage : "page" ∈ peer.fieldNames
      · exact page_of_window hone hpage (mem_of_mem_page hrow) hwindow
      · rw [window,matching_eq_listed hpage] at hrow hwindow
        exact page_unique ((peer.nodup _).filter _) hp hq hrow hwindow
    exact hsame ▸ hencoded
  · by_cases hpage : "page" ∈ peer.fieldNames
    · rw [if_pos hpage]
      have hfirst : ∀ row ∈ newRows lib source peer cursor, row ∈ window source peer 1 := by
        intro row hrow
        obtain ⟨q,hq,hwindow,-,-⟩ := window_of_complete h hcomplete hrow
        exact first_of_complete h hone hpage hcomplete hrow hq hwindow ▸ hwindow
      constructor
      · intro row hrow
        exact ((passes_args 1 row).mp (List.mem_filter.mp (mem_of_mem_page (hfirst row hrow))).2).2 hpage
      · have hsub := List.subperm_of_subset newRows_nodup hfirst
        exact hsub.length_le.trans length_page_le
    · rw [if_neg hpage]
      by_cases hle : source.perPage ≤ 200
      · exact Or.inl hle
      · right
        have hserved : served source = 200 := by
          simp only [served,clampSize]
          omega
        have hfront : ∀ row ∈ newRows lib source peer cursor,
            row ∈ (listed source peer).take ((pageCount source peer).toNat*200) := by
          intro row hrow
          obtain ⟨q,hq,hwindow,-,hreached⟩ := window_of_complete h hcomplete hrow
          rw [window,matching_eq_listed hpage,hserved] at hwindow
          rw [matching_eq_listed hpage] at hreached
          have hsome : 0 < (listed source peer).length := List.length_pos_of_mem (mem_of_mem_page hwindow)
          have hcount : (q:ℤ) ≤ pageCount source peer := by
            apply Int.le_ediv_of_mul_le (by omega)
            rcases hreached with rfl | hreached
            · push_cast
              omega
            · have hexpand : (q:ℤ)*source.perPage = ((q:ℤ)-1)*source.perPage+source.perPage := by
                rw [sub_mul,one_mul]
                omega
              omega
          have hmore : q*200 ≤ (pageCount source peer).toNat*200 := Nat.mul_le_mul_right _ (by omega)
          exact (List.take_subset_take_left _ hmore) (mem_take_of_mem_page hq hwindow)
        have hsub := (List.subperm_of_subset newRows_nodup hfront).length_le
        have hbound := hsub.trans (List.length_take_le _ _)
        have hnonneg : 0 ≤ pageCount source peer := Int.ediv_nonneg (by omega) (by omega)
        omega

/-- A pull from a peer whose order agrees brings every newer record once, oldest first,
exactly when the newer rows fit. -/
theorem peer_complete_iff {ρ : Type*} (lib : PullLib) (source : PullSource) (peer : Peer ρ) (cursor : String)
    (hagrees : Agrees lib source peer cursor) (hone : OnePage peer) :
    Complete lib source peer cursor ↔ Fits lib source peer cursor :=
  ⟨fits_of_complete hagrees hone,complete_of_fits hagrees hone⟩

/-! ### Numbered records -/

/-- A peer table of the records 0 to n-1. -/
def numbered (n : ℕ) : Peer ℕ where
  fieldNames := ["title"]
  ordered := fun sort => if sort = some "id" then (List.range n).reverse else List.range n
  nodup := by
    intro sort
    split
    · exact List.nodup_reverse.mpr List.nodup_range
    · exact List.nodup_range
  eq := fun column value row => column == "id" && value == toString row
  record := fun row => .obj [("id",.int row)]
  encodable := fun _ => true

/-- A pull of everything with the given page size. -/
def pulling (pageSize : Option ℤ) : PullSource where
  cursorField := some "id"
  watermark := none
  pageSize := pageSize

theorem dig_numbered (n row : ℕ) : dig ((numbered n).record row) "id" = .int row := rfl

theorem agrees_numbered (n : ℕ) (pageSize : Option ℤ) : Agrees ticketLib (pulling pageSize) (numbered n) "id" := by
  have hkey : ∀ row : ℕ, ckey ticketLib .number (.int row) = .ok (.number (.finite ((row:ℤ):ℚ))) := fun row => rfl
  refine ⟨rfl,?_,?_,?_⟩
  · intro row _
    rw [dig_numbered]
    exact ⟨_,hkey row⟩
  · intro w hw
    cases hw
  · have hdesc : ((List.range n).reverse).Pairwise fun a b => b < a :=
      List.pairwise_reverse.mpr List.pairwise_lt_range
    apply hdesc.imp
    intro a b hab ka kb hka hkb
    rw [dig_numbered] at hka hkb
    obtain rfl := Except.ok.inj ((hkey a).symm.trans hka)
    obtain rfl := Except.ok.inj ((hkey b).symm.trans hkb)
    right
    have hcast : ((b:ℤ):ℚ) < ((a:ℤ):ℚ) := by exact_mod_cast hab
    simpa [Key.lt,PyFloat.lt] using hcast

theorem onePage_numbered (n : ℕ) : OnePage (numbered n) := by
  intro row p q hp
  cases hp

theorem newRows_numbered (n : ℕ) (pageSize : Option ℤ) :
    newRows ticketLib (pulling pageSize) (numbered n) "id" = (List.range n).reverse :=
  List.filter_eq_self.mpr fun _ _ => rfl

theorem listed_numbered (n : ℕ) (pageSize : Option ℤ) :
    listed (pulling pageSize) (numbered n) = (List.range n).reverse :=
  List.filter_eq_self.mpr fun _ _ => rfl

/-- Three records come on one page of 100. -/
theorem complete_numbered : Complete ticketLib (pulling none) (numbered 3) "id" := by
  refine (peer_complete_iff ticketLib (pulling none) (numbered 3) "id" (agrees_numbered 3 none)
    (onePage_numbered 3)).mpr ⟨fun _ _ => rfl,fun _ _ _ _ _ => rfl,?_⟩
  rw [if_neg (by decide)]
  exact Or.inl (by decide)

/-- With pages of 500 the last of 201 records is left out. -/
theorem peer_not_complete : ¬∀ (lib : PullLib) (source : PullSource) (peer : Peer ℕ) (cursor : String),
    Agrees lib source peer cursor → OnePage peer → Complete lib source peer cursor := by
  intro h
  have hagrees := agrees_numbered 201 (some 500)
  have hcomplete := h ticketLib (pulling (some 500)) (numbered 201) "id" hagrees (onePage_numbered 201)
  have hsized := (fits_of_complete hagrees (onePage_numbered 201) hcomplete).sized
  rw [if_neg (by decide),newRows_numbered,pageCount,listed_numbered,List.length_reverse,List.length_range] at hsized
  have hsize : (pulling (some 500)).perPage = 500 := rfl
  rw [hsize] at hsized
  omega

end Pull
end Biggy
