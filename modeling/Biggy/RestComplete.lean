import Biggy.RestPull
import Biggy.PullLoss
import Mathlib.Tactic.Ring

/-!
# What a paged REST pull brings

The endpoint slices a fixed list by the number or the offset it is sent, with the requested
size or its own. The pull reads one slice a request; it is complete when every newer record
lies in one of these slices and in one only.
-/
namespace Biggy
namespace Pull

open Paging

/-! ### The endpoint -/

section Endpoint

variable (lib : RestLib) (source : RestSource) (fetch : Request → ℤ × Json) (rows : List Json) (own : ℕ) (total : Bool)

/-- The parameter that carries the page number or the offset. -/
def RestSource.numberParam : String :=
  match source.pagination.style with
  | .offset => orText source.pagination.param "offset"
  | _ => orText source.pagination.param "page"

/-- The number of the first page of the endpoint: the configured one. -/
def RestSource.firstPage : ℤ := source.pagination.start.getD 1

/-- The size of a slice. -/
def RestSource.sliceSize : ℕ :=
  match source.pagination.sizeParam.filter (· ≠ "") with
  | some _ => source.perPage.toNat
  | none => own

/-- Where the slice of a page number or of an offset starts. -/
def RestSource.position (k : ℤ) : ℤ :=
  match source.pagination.style with
  | .offset => k
  | _ => (k-source.firstPage)*(source.sliceSize own : ℤ)

/-- The source pages by number or by offset, and names the size by a parameter of its own. -/
structure Paged : Prop where
  style : source.pagination.style = .page ∨ source.pagination.style = .offset
  size : 1 ≤ source.perPage
  distinct : source.pagination.sizeParam ≠ some source.numberParam

/-- The endpoint answers the requests of the source with the slices of the list, with its
length or without a total. -/
structure Slices : Prop where
  some_size : 1 ≤ own
  answers : ∀ base page k, (restRequest lib source base page .null .null).params.lookup source.numberParam = some (.int k) →
    0 ≤ source.position own k → ∃ data, fetch (restRequest lib source base page .null .null) = (200,data) ∧
      isNull data = false ∧
      extract data source.recordsPath = .ok (slice (source.position own k).toNat (source.sliceSize own) rows) ∧
      totalOf data = if total then .int rows.length else .null

/-- The record's cursor is greater than the watermark. -/
def isNewer (cursor : String) (record : Json) : Bool :=
  match greater lib.toPullLib source.cursorType (dig record cursor) source.watermark with
  | .ok b => b
  | .error _ => false

/-- The records in the order of their cursors. -/
def InOrder (cursor : String) (records : List Json) : Prop :=
  records.Pairwise fun a b => ∀ ka kb, ckey lib.toPullLib source.cursorType (dig a cursor) = .ok ka →
    ckey lib.toPullLib source.cursorType (dig b cursor) = .ok kb → ¬kb.lt ka = true

/-- The pull brings every newer record once, in the order of the cursors. -/
def RestComplete (cursor : String) : Prop :=
  ∃ result, restRecords lib source fetch = .ok result ∧
    result.Perm (rows.filter (isNewer lib source cursor)) ∧ InOrder lib source cursor result

/-- A page number 0 in the configuration is taken for 1, so that the first page is skipped. -/
def RestSource.skipped : ℕ := if source.pagination.start = some 0 then 1 else 0

/-- Where the slice of a request starts. -/
def RestSource.startOf (i : ℕ) : ℕ :=
  match source.pagination.style with
  | .offset => i*source.perPage.toNat
  | _ => (i+source.skipped)*source.sliceSize own

/-- The requests that `max_pages` and the test of a total allow, from the client's size and
the number of the page it starts at. -/
def RestSource.requests (length : ℕ) (total : Bool) : ℕ :=
  if total then min source.maxPages (((length+source.perPage-1)/source.perPage-source.startPage).toNat+1)
  else source.maxPages

/-- What can be read of a record: it compares with the watermark and, when newer, has a key. -/
def Comparable (cursor : String) (record : Json) : Prop :=
  ∃ b, greater lib.toPullLib source.cursorType (dig record cursor) source.watermark = .ok b ∧
    (b = true → ∃ k, ckey lib.toPullLib source.cursorType (dig record cursor) = .ok k)

/-- The stored headers can be sent, the records of the requested slices compare, and each
newer record lies in one of these slices only. -/
structure Reached (cursor : String) : Prop where
  headers : ∃ base, baseHeaders lib source = .ok base
  comparable : ∀ j record, rows[j]? = some record →
    (∃ i < source.requests rows.length total, source.startOf own i ≤ j ∧ j < source.startOf own i+source.sliceSize own) →
      Comparable lib source cursor record
  once : Once (source.startOf own) (source.sliceSize own) (source.requests rows.length total)
    (isNewer lib source cursor) rows

end Endpoint

section Reading

variable {lib : RestLib} {source : RestSource} {fetch : Request → ℤ × Json} {rows : List Json} {own : ℕ} {total : Bool}

theorem maxPages_pos : 1 ≤ source.maxPages := by
  simp only [RestSource.maxPages]
  omega

theorem requests_pos {n : ℕ} : 1 ≤ source.requests n total := by
  have hmax : 1 ≤ source.maxPages := maxPages_pos
  simp only [RestSource.requests]
  split <;> omega

theorem requests_le {n : ℕ} : source.requests n total ≤ source.maxPages := by
  simp only [RestSource.requests]
  split <;> omega

theorem sliceSize_pos (hpaged : Paged source) (hown : 1 ≤ own) : 1 ≤ source.sliceSize own := by
  have hsize := hpaged.size
  simp only [RestSource.sliceSize]
  split <;> omega

theorem startPage_eq : source.startPage = source.firstPage+source.skipped := by
  simp only [RestSource.startPage,RestSource.firstPage,RestSource.skipped,orInt]
  cases hstart : source.pagination.start with
  | none => simp
  | some n =>
    by_cases hzero : n = 0
    · simp [hzero,Option.filter]
    · simp [hzero,Option.filter]

/-- The number that a request carries. -/
def RestSource.sent (source : RestSource) (page : ℤ) : ℤ :=
  match source.pagination.style with
  | .offset => (page-source.startPage)*source.perPage
  | _ => page

theorem lookup_numberParam (hpaged : Paged source) (base : List (String × Json)) (page : ℤ) :
    (restRequest lib source base page .null .null).params.lookup source.numberParam = some (.int (source.sent page)) := by
  have hsize : ∀ name, source.pagination.sizeParam.filter (· ≠ "") = some name →
      (source.numberParam == name) = false := by
    intro name hname
    obtain ⟨hsome,-⟩ := Option.filter_eq_some_iff.mp hname
    have hne : source.numberParam ≠ name := by
      intro heq
      exact hpaged.distinct (by rw [hsome,heq])
    simpa using hne
  have hfound : (styleParams source page .null).lookup source.numberParam = some (.int (source.sent page)) := by
    simp only [styleParams]
    rcases hpaged.style with hstyle | hstyle
    · simp only [hstyle,RestSource.sent]
      have hname : source.numberParam = orText source.pagination.param "page" := by
        simp [RestSource.numberParam,hstyle]
      cases hfilter : source.pagination.sizeParam.filter (· ≠ "") with
      | none => simp [hname]
      | some name => simp [List.lookup_cons,hsize name hfilter,← hname]
    · simp only [hstyle,RestSource.sent]
      have hname : source.numberParam = orText source.pagination.param "offset" := by
        simp [RestSource.numberParam,hstyle]
      cases hfilter : source.pagination.sizeParam.filter (· ≠ "") with
      | none => simp [hname]
      | some name => simp [List.lookup_cons,hsize name hfilter,← hname]
  simp [restRequest,List.lookup_append,hfound]

/-- Request `i` asks for the slice at `startOf i`. -/
theorem position_sent (hpaged : Paged source) (i : ℕ) :
    source.position own (source.sent (source.startPage+i)) = source.startOf own i := by
  have hsize := hpaged.size
  rcases hpaged.style with hstyle | hstyle
  · simp only [RestSource.position,RestSource.sent,RestSource.startOf,hstyle]
    rw [startPage_eq]
    push_cast
    ring
  · simp only [RestSource.position,RestSource.sent,RestSource.startOf,hstyle]
    push_cast
    rw [Int.toNat_of_nonneg (by omega)]
    ring

theorem startOf_mono {i j : ℕ} (hij : i ≤ j) : source.startOf own i ≤ source.startOf own j := by
  simp only [RestSource.startOf]
  split
  · exact Nat.mul_le_mul_right _ hij
  · exact Nat.mul_le_mul_right _ (by omega)

/-- The answer to request `i`. -/
theorem answer_of (hpaged : Paged source) (hslices : Slices lib source fetch rows own total)
    (base : List (String × Json)) (i : ℕ) :
    ∃ data, fetch (restRequest lib source base (source.startPage+i) .null .null) = (200,data) ∧ isNull data = false ∧
      extract data source.recordsPath = .ok (slice (source.startOf own i) (source.sliceSize own) rows) ∧
      totalOf data = if total then .int rows.length else .null := by
  have hpos : source.position own (source.sent (source.startPage+i)) = source.startOf own i := position_sent hpaged i
  obtain ⟨data,hfetch,hnull,hextract,htotal⟩ :=
    hslices.answers base _ _ (lookup_numberParam hpaged base (source.startPage+i)) (by rw [hpos]; omega)
  rw [hpos,Int.toNat_natCast] at hextract
  exact ⟨data,hfetch,hnull,hextract,htotal⟩

/-- The bound on the requests is met at the last of them or at the total. -/
theorem requests_le_iff (hpaged : Paged source) {n i : ℕ} : source.requests n total ≤ i+1 ↔
    source.maxPages ≤ i+1 ∨ total = true ∧ (n : ℤ) ≤ (source.startPage+i)*source.perPage := by
  have hsize := hpaged.size
  have hceil : (n : ℤ) ≤ (source.startPage+i)*source.perPage ↔
      (n+source.perPage-1)/source.perPage ≤ source.startPage+i := by
    have hexpand : (source.startPage+i+1)*source.perPage = (source.startPage+i)*source.perPage+source.perPage := by
      rw [add_mul,one_mul]
    have hlt : (n+source.perPage-1)/source.perPage < source.startPage+i+1 ↔
        n+source.perPage-1 < (source.startPage+i+1)*source.perPage := Int.ediv_lt_iff_lt_mul (by omega)
    rw [hexpand] at hlt
    omega
  have hpages : (n+source.perPage-1)/source.perPage ≤ source.startPage+i ↔
      ((n+source.perPage-1)/source.perPage-source.startPage).toNat ≤ i := by omega
  rw [hceil,hpages]
  cases total with
  | false => simp [RestSource.requests]
  | true => simp [RestSource.requests]

theorem reaches_total (covered : ℤ) (n : ℕ) : reaches covered (if total then .int n else .null) =
    .ok (decide (total = true ∧ (n : ℤ) ≤ covered)) := by
  cases total <;> simp [reaches]

/-- Behind an empty slice there are empty ones only. -/
theorem slice_eq_nil_of_le (hpaged : Paged source) (hown : 1 ≤ own) {i j : ℕ} (hij : i ≤ j)
    (hnil : slice (source.startOf own i) (source.sliceSize own) rows = []) :
    slice (source.startOf own j) (source.sliceSize own) rows = [] := by
  have hsize := sliceSize_pos hpaged hown
  rw [slice,List.take_eq_nil_iff,List.drop_eq_nil_iff] at hnil ⊢
  rcases hnil with hzero | hle
  · omega
  · exact Or.inr (hle.trans (startOf_mono hij))

/-- One request: where the loop ends and where it goes on. -/
theorem restPages_succ (hpaged : Paged source) (hslices : Slices lib source fetch rows own total)
    (base : List (String × Json)) (n i : ℕ) (collected : List Json) :
    restPages lib source fetch base (n+1) (source.startPage+i) .null .null collected =
      if slice (source.startOf own i) (source.sliceSize own) rows = [] ∨
          total = true ∧ (rows.length : ℤ) ≤ (source.startPage+i)*source.perPage then
        .ok (collected++slice (source.startOf own i) (source.sliceSize own) rows)
      else restPages lib source fetch base n (source.startPage+(i+1:ℕ)) .null .null
        (collected++slice (source.startOf own i) (source.sliceSize own) rows) := by
  obtain ⟨data,hfetch,hnull,hextract,htotal⟩ := answer_of hpaged hslices base i
  have hnext : source.startPage+i+1 = source.startPage+(i+1:ℕ) := by omega
  rw [restPages,hfetch]
  simp only [hnull,hextract,htotal,reaches_total,List.isEmpty_iff,hnext]
  by_cases hnil : slice (source.startOf own i) (source.sliceSize own) rows = []
  · simp [hnil]
  · by_cases hcovers : total = true ∧ (rows.length : ℤ) ≤ (source.startPage+i)*source.perPage
    · rcases hpaged.style with hstyle | hstyle <;> simp [hstyle,hnil,hcovers]
    · rcases hpaged.style with hstyle | hstyle <;> simp [hstyle,hnil,hcovers]

/-- The loop from request `i` on. -/
theorem restPages_eq (hpaged : Paged source) (hslices : Slices lib source fetch rows own total)
    (base : List (String × Json)) {n i : ℕ} (hsum : i+n = source.maxPages)
    (hi : i < source.requests rows.length total ∨ n = 0) (collected : List Json) :
    restPages lib source fetch base n (source.startPage+i) .null .null collected =
      .ok (collected ++ (List.range' i (source.requests rows.length total-i)).flatMap
        fun k => slice (source.startOf own k) (source.sliceSize own) rows) := by
  induction n generalizing i collected with
  | zero =>
    have hle : source.requests rows.length total ≤ source.maxPages := requests_le
    have hnone : source.requests rows.length total-i = 0 := by omega
    simp [restPages,hnone]
  | succ n ih =>
    have hcount : source.requests rows.length total-i = source.requests rows.length total-(i+1)+1 := by omega
    rw [hcount,List.range'_succ,List.flatMap_cons,← List.append_assoc,restPages_succ hpaged hslices]
    have hbound : source.requests rows.length total ≤ i+1 ↔
        source.maxPages ≤ i+1 ∨ total = true ∧ (rows.length : ℤ) ≤ (source.startPage+i)*source.perPage :=
      requests_le_iff hpaged
    by_cases hend : slice (source.startOf own i) (source.sliceSize own) rows = [] ∨
        total = true ∧ (rows.length : ℤ) ≤ (source.startPage+i)*source.perPage
    · have hrest : (List.range' (i+1) (source.requests rows.length total-(i+1))).flatMap
          (fun k => slice (source.startOf own k) (source.sliceSize own) rows) = [] := by
        rw [List.flatMap_eq_nil_iff]
        intro k hk
        obtain ⟨hlow,hhigh⟩ := List.mem_range'_1.mp hk
        rcases hend with hnil | hcovers
        · exact slice_eq_nil_of_le hpaged hslices.some_size (by omega) hnil
        · have hlast := hbound.mpr (Or.inr hcovers)
          omega
      rw [if_pos hend,hrest,List.append_nil]
    · rw [if_neg hend]
      apply ih (by omega)
      by_contra hstop
      rcases hbound.mp (by omega) with hmax | hmax
      · omega
      · exact hend (Or.inr hmax)

/-- The loop collects the slices of its requests. -/
theorem collected_eq (hpaged : Paged source) (hslices : Slices lib source fetch rows own total)
    (base : List (String × Json)) :
    restPages lib source fetch base source.maxPages source.startPage .null .null [] =
      .ok (slices (source.startOf own) (source.sliceSize own) (source.requests rows.length total) rows) := by
  have hloop := restPages_eq hpaged hslices base (i := 0) (Nat.zero_add _) (Or.inl requests_pos) []
  rw [Nat.cast_zero,add_zero,Nat.sub_zero,← List.range_eq_range',List.nil_append] at hloop
  exact hloop

/-! ### Selecting and sorting -/

variable {cursor : String}

theorem selectNewer_eq_ok {records newer : List Json} : selectNewer lib source cursor records = .ok newer ↔
    (∀ r ∈ records, ∃ b, greater lib.toPullLib source.cursorType (dig r cursor) source.watermark = .ok b) ∧
      newer = records.filter (isNewer lib source cursor) := by
  induction records generalizing newer with
  | nil => simp [selectNewer,eq_comm]
  | cons r records ih =>
    cases hr : greater lib.toPullLib source.cursorType (dig r cursor) source.watermark with
    | error e => simp [selectNewer,hr]
    | ok b =>
      have hnew : isNewer lib source cursor r = b := by simp [isNewer,hr]
      cases hrest : selectNewer lib source cursor records with
      | error e =>
        have hbad : ¬∀ r ∈ records,
            ∃ b, greater lib.toPullLib source.cursorType (dig r cursor) source.watermark = .ok b := by
          intro hall
          have hok := ih.mpr ⟨hall,rfl⟩
          rw [hrest] at hok
          cases hok
        simp only [selectNewer,hr,hrest,Except.map,reduceCtorEq,List.forall_mem_cons,false_iff]
        exact fun h => hbad h.1.2
      | ok rest =>
        obtain ⟨hall,hfilter⟩ := ih.mp hrest
        simp only [selectNewer,hr,hrest,Except.map,Except.ok.injEq,List.forall_mem_cons,List.filter_cons,hnew,
          ← hfilter]
        constructor
        · rintro rfl
          exact ⟨⟨⟨b,rfl⟩,hall⟩,rfl⟩
        · rintro ⟨-,rfl⟩
          rfl

theorem withKeys_ok {records : List Json} {keyed : List (Key × Json)}
    (h : withKeys lib source cursor records = .ok keyed) : keyed.map Prod.snd = records ∧
      ∀ p ∈ keyed, ckey lib.toPullLib source.cursorType (dig p.2 cursor) = .ok p.1 := by
  induction records generalizing keyed with
  | nil =>
    obtain rfl := Except.ok.inj h
    simp
  | cons r records ih =>
    cases hr : ckey lib.toPullLib source.cursorType (dig r cursor) with
    | error e => simp [withKeys,hr] at h
    | ok k =>
      cases hrest : withKeys lib source cursor records with
      | error e => simp [withKeys,hr,hrest,Except.map] at h
      | ok rest =>
        simp only [withKeys,hr,hrest,Except.map,Except.ok.injEq] at h
        obtain ⟨hmap,hkeys⟩ := ih hrest
        subst h
        exact ⟨by simp [hmap],List.forall_mem_cons.mpr ⟨hr,hkeys⟩⟩

theorem withKeys_of_keys {records : List Json}
    (h : ∀ r ∈ records, ∃ k, ckey lib.toPullLib source.cursorType (dig r cursor) = .ok k) :
    ∃ keyed, withKeys lib source cursor records = .ok keyed := by
  induction records with
  | nil => exact ⟨[],rfl⟩
  | cons r records ih =>
    obtain ⟨k,hk⟩ := h r List.mem_cons_self
    obtain ⟨rest,hrest⟩ := ih fun x hx => h x (List.mem_cons_of_mem r hx)
    exact ⟨(k,r)::rest,by simp [withKeys,hk,hrest,Except.map]⟩

theorem Key.lt_irrefl (k : Key) : k.lt k = false := by
  cases k with
  | absent => rfl
  | number x => cases x <;> simp [Key.lt,PyFloat.lt]
  | text s => simp [Key.lt]

/-- Keys other than NaN come out in order. -/
theorem sortByKey_pairwise {keyed : List (Key × Json)} (hnan : ∀ p ∈ keyed, p.1 ≠ .number .nan) :
    (sortByKey keyed).Pairwise fun a b => ¬b.1.lt a.1 = true := by
  let le : Key × Json → Key × Json → Bool := fun a b => !b.1.lt a.1
  have hsub : (keyed.attachWith _ hnan).map Subtype.val = keyed := List.attachWith_map_subtype_val hnan
  have hsort : (sortByKey keyed) = ((keyed.attachWith _ hnan).mergeSort fun a b => le a.1 b.1).map Subtype.val := by
    rw [List.map_mergeSort (s := le) (fun _ _ _ _ => rfl),hsub]
    rfl
  rw [hsort,List.pairwise_map]
  have htrans : ∀ a b c : {p : Key × Json // p.1 ≠ .number .nan}, le a.1 b.1 = true → le b.1 c.1 = true →
      le a.1 c.1 = true := by
    intro a b c hab hbc
    by_contra hca
    have hlt : c.1.1.lt a.1.1 = true := by simpa [le] using hca
    have hback := Key.of_not_lt b.2 (by simpa [le] using hbc) hlt
    simp [le,hback] at hab
  have htotal : ∀ a b : {p : Key × Json // p.1 ≠ .number .nan}, (le a.1 b.1 || le b.1 a.1) = true := by
    intro a b
    by_contra hneither
    simp only [le,Bool.or_eq_true,Bool.not_eq_true',not_or,Bool.not_eq_false] at hneither
    have hself := Key.trans hneither.1 hneither.2
    rw [Key.lt_irrefl] at hself
    cases hself
  apply (List.pairwise_mergeSort htrans htotal _).imp
  intro a b hab
  simpa [le] using hab

/-- What a pull that ends without an exception went through. -/
theorem restRecords_eq_ok (hcursor : source.cursor = some cursor) (hpaged : Paged source)
    (hslices : Slices lib source fetch rows own total) {result : List Json} :
    restRecords lib source fetch = .ok result ↔ (∃ base, baseHeaders lib source = .ok base) ∧
      (∀ r ∈ slices (source.startOf own) (source.sliceSize own) (source.requests rows.length total) rows,
        ∃ b, greater lib.toPullLib source.cursorType (dig r cursor) source.watermark = .ok b) ∧
      ∃ keyed, withKeys lib source cursor ((slices (source.startOf own) (source.sliceSize own)
        (source.requests rows.length total) rows).filter (isNewer lib source cursor)) = .ok keyed ∧
        result = (sortByKey keyed).map Prod.snd := by
  cases hbase : baseHeaders lib source with
  | error e => simp [restRecords,hbase]
  | ok base =>
    simp only [restRecords,hbase,collected_eq hpaged hslices,hcursor]
    cases hselect : selectNewer lib source cursor (slices (source.startOf own) (source.sliceSize own)
        (source.requests rows.length total) rows) with
    | error e =>
      simp only [reduceCtorEq,false_iff]
      rintro ⟨-,hall,-⟩
      have hok := selectNewer_eq_ok.mpr ⟨hall,rfl⟩
      rw [hselect] at hok
      cases hok
    | ok newer =>
      obtain ⟨hall,hnewer⟩ := selectNewer_eq_ok.mp hselect
      rw [← hnewer]
      cases hkeyed : withKeys lib source cursor newer with
      | error e => simp [Except.map,hkeyed]
      | ok keyed =>
        simp only [Except.map,hkeyed,Except.ok.injEq]
        constructor
        · rintro rfl
          exact ⟨⟨base,rfl⟩,hall,keyed,rfl,rfl⟩
        · rintro ⟨-,-,other,hother,rfl⟩
          rw [hother]

theorem complete_of_reached (hcursor : source.cursor = some cursor) (hpaged : Paged source)
    (hslices : Slices lib source fetch rows own total)
    (hnan : ∀ r ∈ rows, ckey lib.toPullLib source.cursorType (dig r cursor) ≠ .ok (.number .nan))
    (h : Reached lib source rows own total cursor) : RestComplete lib source fetch rows cursor := by
  have hcomparable : ∀ r ∈ slices (source.startOf own) (source.sliceSize own) (source.requests rows.length total) rows,
      Comparable lib source cursor r := by
    intro r hr
    obtain ⟨j,hj,hin⟩ := mem_slices.mp hr
    exact h.comparable j r hj hin
  have hkeys : ∀ r ∈ (slices (source.startOf own) (source.sliceSize own)
      (source.requests rows.length total) rows).filter (isNewer lib source cursor),
      ∃ k, ckey lib.toPullLib source.cursorType (dig r cursor) = .ok k := by
    intro r hr
    obtain ⟨hmem,hnew⟩ := List.mem_filter.mp hr
    obtain ⟨b,hb,hkey⟩ := hcomparable r hmem
    exact hkey (by simpa [isNewer,hb] using hnew)
  obtain ⟨keyed,hkeyed⟩ := withKeys_of_keys hkeys
  obtain ⟨hsnd,hkey⟩ := withKeys_ok hkeyed
  have hperm : (sortByKey keyed).Perm keyed := List.mergeSort_perm keyed _
  refine ⟨(sortByKey keyed).map Prod.snd,?_,?_,?_⟩
  · apply (restRecords_eq_ok hcursor hpaged hslices).mpr
    refine ⟨h.headers,?_,keyed,hkeyed,rfl⟩
    intro r hr
    obtain ⟨b,hb,-⟩ := hcomparable r hr
    exact ⟨b,hb⟩
  · have hcollected := hperm.map Prod.snd
    rw [hsnd] at hcollected
    exact hcollected.trans (perm_of_once h.once)
  · have hnankeyed : ∀ p ∈ keyed, p.1 ≠ .number .nan := by
      intro p hp heq
      have hmem : p.2 ∈ keyed.map Prod.snd := List.mem_map_of_mem hp
      rw [hsnd] at hmem
      obtain ⟨j,hj,-⟩ := mem_slices.mp (List.mem_of_mem_filter hmem)
      exact hnan p.2 (List.mem_of_getElem? hj) (heq ▸ hkey p hp)
    rw [InOrder,List.pairwise_map]
    apply List.Pairwise.imp_of_mem _ (sortByKey_pairwise hnankeyed)
    intro a b ha hb hab ka kb hka hkb
    obtain rfl := Except.ok.inj ((hkey a (hperm.subset ha)).symm.trans hka)
    obtain rfl := Except.ok.inj ((hkey b (hperm.subset hb)).symm.trans hkb)
    exact hab

theorem reached_of_complete (hcursor : source.cursor = some cursor) (hpaged : Paged source)
    (hslices : Slices lib source fetch rows own total) (hnodup : rows.Nodup)
    (h : RestComplete lib source fetch rows cursor) : Reached lib source rows own total cursor := by
  obtain ⟨result,hresult,hperm,-⟩ := h
  obtain ⟨hheaders,hall,keyed,hkeyed,rfl⟩ := (restRecords_eq_ok hcursor hpaged hslices).mp hresult
  obtain ⟨hsnd,hkey⟩ := withKeys_ok hkeyed
  refine ⟨hheaders,?_,?_⟩
  · intro j r hj hin
    have hmem := mem_slices.mpr ⟨j,hj,hin⟩
    obtain ⟨b,hb⟩ := hall r hmem
    refine ⟨b,hb,?_⟩
    intro hnew
    have hfilter := List.mem_filter.mpr ⟨hmem,show isNewer lib source cursor r = true by simp [isNewer,hb,hnew]⟩
    rw [← hsnd] at hfilter
    obtain ⟨p,hp,rfl⟩ := List.mem_map.mp hfilter
    exact ⟨p.1,hkey p hp⟩
  · apply once_of_perm hnodup
    rw [← hsnd]
    exact ((List.mergeSort_perm keyed _).map Prod.snd).symm.trans hperm

end Reading

/-- A paged pull of a list of distinct records is complete exactly when its requests reach
each newer record once. -/
theorem rest_complete (lib : RestLib) (source : RestSource) (fetch : Request → ℤ × Json) (rows : List Json) (own : ℕ)
    (total : Bool) (cursor : String) (hcursor : source.cursor = some cursor) (hpaged : Paged source)
    (hslices : Slices lib source fetch rows own total)
    (hnan : ∀ r ∈ rows, ckey lib.toPullLib source.cursorType (dig r cursor) ≠ .ok (.number .nan)) :
    (Reached lib source rows own total cursor → RestComplete lib source fetch rows cursor) ∧
      (rows.Nodup → RestComplete lib source fetch rows cursor → Reached lib source rows own total cursor) :=
  ⟨complete_of_reached hcursor hpaged hslices hnan,reached_of_complete hcursor hpaged hslices⟩

/-! ### A list of numbered records -/

/-- An endpoint of pages of 100 whose first page has the given number. -/
def pageServer (first : ℤ) (rows : List Json) (r : Request) : ℤ × Json :=
  match r.params.lookup "page" with
  | some (.int k) => (200,.obj [("data",.arr (slice ((k-first)*100).toNat 100 rows))])
  | _ => (404,.null)

/-- A source that pulls everything, page by page from the given number on. -/
def pagedSource (start : Option ℤ) : RestSource where
  cursorField := some "id"
  watermark := none
  pagination := { style := .page, start := start }

def restLib : RestLib where
  toPullLib := ticketLib
  upper := id
  base64 := id

def numberedRecord (n : ℕ) : Json := .obj [("id",.int n)]

theorem extract_data {records : List Json} (hdict : ∀ r ∈ records, isDict r = true) :
    extract (.obj [("data",.arr records)]) none = .ok records := by
  have hfilter := List.filter_eq_self.mpr hdict
  cases records with
  | nil => rfl
  | cons r rs => simpa [extract,Json.get,Json.truthy] using hfilter

theorem paged_pagedSource (start : Option ℤ) : Paged (pagedSource start) := by
  have hsize : (pagedSource start).perPage = 100 := rfl
  refine ⟨Or.inl rfl,by rw [hsize]; decide,?_⟩
  intro h
  cases h

theorem slices_pageServer (start : Option ℤ) {rows : List Json} (hdict : ∀ r ∈ rows, isDict r = true) :
    Slices restLib (pagedSource start) (pageServer (start.getD 1) rows) rows 100 false := by
  refine ⟨by decide,?_⟩
  intro base page k hk _
  have hname : (pagedSource start).numberParam = "page" := rfl
  rw [hname] at hk
  refine ⟨_,?_,rfl,extract_data fun r hr => hdict r ?_,rfl⟩
  · simp only [pageServer,hk]
    rfl
  · exact List.mem_of_mem_drop (List.mem_of_mem_take hr)

theorem not_nan_numbered (n : ℕ) :
    ckey restLib.toPullLib .number (dig (numberedRecord n) "id") ≠ .ok (.number .nan) := by
  intro h
  have hkey : ckey restLib.toPullLib .number (dig (numberedRecord n) "id") = .ok (.number (.finite ((n:ℤ):ℚ))) := rfl
  rw [hkey] at h
  cases h

theorem restComplete_numbered :
    RestComplete restLib (pagedSource none) (pageServer 1 [numberedRecord 1]) [numberedRecord 1] "id" := by
  refine (rest_complete restLib (pagedSource none) _ [numberedRecord 1] 100 false "id" rfl (paged_pagedSource none)
    (slices_pageServer none ?_) ?_).1 ⟨⟨[],rfl⟩,?_,?_⟩
  · intro r hr
    obtain rfl := List.mem_singleton.mp hr
    rfl
  · intro r hr
    obtain rfl := List.mem_singleton.mp hr
    exact not_nan_numbered 1
  · intro j r hj _
    obtain rfl := List.mem_singleton.mp (List.mem_of_getElem? hj)
    exact ⟨true,rfl,fun _ => ⟨_,rfl⟩⟩
  · intro j r hj _
    have hlt : j < 1 := (List.getElem?_eq_some_iff.mp hj).1
    refine ⟨0,⟨by decide,?_,?_⟩,?_⟩
    · exact Nat.zero_le j
    · show j < 100
      omega
    · rintro i ⟨-,hle,-⟩
      have hstart : i*100 ≤ j := hle
      omega

/-- An endpoint that counts its pages from 0 is pulled from page 1 on. -/
theorem rest_not_complete : ¬∀ (lib : RestLib) (source : RestSource) (fetch : Request → ℤ × Json) (rows : List Json)
    (own : ℕ) (total : Bool) (cursor : String), source.cursor = some cursor → Paged source →
    Slices lib source fetch rows own total → rows.length ≤ source.maxPages*source.sliceSize own →
    (∃ base, baseHeaders lib source = .ok base) →
    (∀ r ∈ rows, Comparable lib source cursor r) →
    (∀ r ∈ rows, ckey lib.toPullLib source.cursorType (dig r cursor) ≠ .ok (.number .nan)) →
    RestComplete lib source fetch rows cursor := by
  intro h
  have hdict : ∀ r ∈ [numberedRecord 1], isDict r = true := by
    intro r hr
    obtain rfl := List.mem_singleton.mp hr
    rfl
  have hslices := slices_pageServer (some 0) hdict
  have hcomplete := h restLib (pagedSource (some 0)) _ [numberedRecord 1] 100 false "id" rfl (paged_pagedSource (some 0))
    hslices (by decide) ⟨[],rfl⟩ ?_ ?_
  · have hreached := reached_of_complete rfl (paged_pagedSource (some 0)) hslices (List.nodup_singleton _) hcomplete
    obtain ⟨i,⟨-,hle,-⟩,-⟩ := hreached.once 0 (numberedRecord 1) rfl rfl
    have hstart : (i+1)*100 ≤ 0 := hle
    omega
  · intro r hr
    obtain rfl := List.mem_singleton.mp hr
    exact ⟨true,rfl,fun _ => ⟨_,rfl⟩⟩
  · intro r hr
    obtain rfl := List.mem_singleton.mp hr
    exact not_nan_numbered 1

end Pull
end Biggy
