import Biggy.Pull
import Biggy.Paging

/-!
# Pulling from a peer

`_peer_records` pages the list endpoint of another instance newest-first, with its own page
size, and stops at an empty page, at the watermark or when the pages it asked for cover the
total. The endpoint clamps the size to 200, and takes any parameter named like a field of
the table for a filter.
-/
namespace Biggy
namespace Pull

open Paging

/-! ### The list endpoint -/

/-- A table of the peer as its endpoint lists it: the rows the token may see in the order
of a request, the test of an `eq` filter, the record of a row and whether it can be encoded. -/
structure Peer (ρ : Type*) where
  fieldNames : List String
  ordered : Option String → List ρ
  nodup : ∀ sort, (ordered sort).Nodup
  eq : String → String → ρ → Bool
  record : ρ → Json
  encodable : ρ → Bool

/-- The parameters of a list request; `sort` comes with `order=desc`. -/
structure ListQuery where
  page : ℤ
  perPage : ℤ
  sort : Option String
  deriving DecidableEq

/-- The parameters other than the page, by name. -/
def ListQuery.fixedArgs (q : ListQuery) : List (String × String) :=
  ("per_page",toString q.perPage) :: match q.sort with
    | none => []
    | some column => [("sort",column),("order","desc")]

def ListQuery.args (q : ListQuery) : List (String × String) := ("page",toString q.page)::q.fixedArgs

structure Envelope (ρ : Type*) where
  data : List ρ
  page : ℤ
  perPage : ℤ
  total : ℕ

section Endpoint

variable {ρ : Type*} (peer : Peer ρ)

/-- The filters that `list_rows` makes of the parameters. -/
def passes (args : List (String × String)) (row : ρ) : Bool :=
  (args.filter fun p => peer.fieldNames.contains p.1).all fun p => peer.eq p.1 p.2 row

/-- `per_page` as the endpoint takes it. -/
def clampSize (perPage : ℤ) : ℤ := min 200 (max 1 perPage)

/-- `list_rows`; a row that cannot be encoded ends the request. -/
def listRows (q : ListQuery) : Option (Envelope ρ) :=
  let rows := (peer.ordered q.sort).filter (passes peer q.args)
  let data := Paging.page (clampSize q.perPage).toNat (max 1 q.page).toNat rows
  if data.all peer.encodable then some ⟨data,max 1 q.page,clampSize q.perPage,rows.length⟩ else none

end Endpoint

/-! ### The client -/

section Client

variable {ρ : Type*} (lib : PullLib) (source : PullSource) (peer : Peer ρ)

/-- The rows of an answer up to the watermark, and whether it was met. -/
def collect : List ρ → Except PyError (List ρ × Bool)
  | [] => .ok ([],false)
  | row::rows =>
    match source.cursor with
    | none => (collect rows).map fun r => (row::r.1,r.2)
    | some cursor =>
      match greater lib source.cursorType (dig (peer.record row) cursor) source.watermark with
      | .error e => .error e
      | .ok false => .ok ([],true)
      | .ok true => (collect rows).map fun r => (row::r.1,r.2)

/-- The loop of `_peer_records` from some page on, for a number of requests; `none` when
these do not suffice. -/
def peerPages : ℕ → ℕ → List ρ → Option (Except PyError (List ρ))
  | 0, _, _ => none
  | requests+1, page, collected =>
    match listRows peer ⟨page,source.perPage,source.cursor⟩ with
    | none => some (.ok collected)
    | some answer =>
      if answer.data.isEmpty then some (.ok collected)
      else
        match collect lib source peer answer.data with
        | .error e => some (.error e)
        | .ok (new,stop) =>
          if stop then some (.ok (collected ++ new))
          else if (answer.total : ℤ) ≤ page*source.perPage then some (.ok (collected ++ new))
          else peerPages requests (page+1) (collected ++ new)

/-- `_peer_records`, with a bound on the requests. -/
def peerRecords (requests : ℕ) : Option (Except PyError (List ρ)) :=
  (peerPages lib source peer requests 1 []).map fun r =>
    r.map fun collected => if source.cursor.isSome then collected.reverse else collected

/-- The record of a row is newer than the watermark. -/
def isNew (cursor : String) (row : ρ) : Bool :=
  match greater lib source.cursorType (dig (peer.record row) cursor) source.watermark with
  | .ok b => b
  | .error _ => false

/-- The rows with newer records, in the order of the endpoint. -/
def newRows (cursor : String) : List ρ := (peer.ordered (some cursor)).filter (isNew lib source peer cursor)

/-- The pull ends and brings every newer record once, oldest first. -/
def Complete (cursor : String) : Prop :=
  ∃ n, ∀ requests ≥ n, peerRecords lib source peer requests = some (.ok (newRows lib source peer cursor).reverse)

/-- The server's order by the cursor column is the client's order of the cursors, all of
which compare, with the watermark too. -/
structure Agrees (cursor : String) : Prop where
  set : source.cursor = some cursor
  keys : ∀ row ∈ peer.ordered (some cursor), ∃ k, ckey lib source.cursorType (dig (peer.record row) cursor) = .ok k
  mark : ∀ w, source.watermark = some w → w ≠ "" → ∃ k, ckey lib source.cursorType (.str w) = .ok k
  order : (peer.ordered (some cursor)).Pairwise fun a b => ∀ ka kb,
    ckey lib source.cursorType (dig (peer.record a) cursor) = .ok ka →
      ckey lib source.cursorType (dig (peer.record b) cursor) = .ok kb → kb = ka ∨ kb.lt ka = true

/-- A stored value is equal to one page number at most. -/
def OnePage : Prop := ∀ (row : ρ) (p q : ℤ), peer.eq "page" (toString p) row → peer.eq "page" (toString q) row → p = q

/-- The rows of request `p`, before they are cut into pages. -/
def matching (p : ℕ) : List ρ := (peer.ordered source.cursor).filter
  (passes peer (ListQuery.args ⟨p,source.perPage,source.cursor⟩))

/-- The size of the endpoint's pages. -/
def served : ℕ := (clampSize source.perPage).toNat

/-- The rows that request `p` is answered with. -/
def window (p : ℕ) : List ρ := page (served source) p (matching source peer p)

/-- The rows that pass the filters other than one on the page. -/
def listed : List ρ := (peer.ordered source.cursor).filter
  (passes peer (ListQuery.fixedArgs ⟨1,source.perPage,source.cursor⟩))

/-- The pages that hold all listed rows at the client's size. -/
def pageCount : ℤ := ((listed source peer).length+source.perPage-1)/source.perPage

/-- What the parameters and the sizes must leave of the newer rows: they pass for the
filters made of the request, their pages can be encoded, and they are on pages that are
asked for. -/
structure Fits (cursor : String) : Prop where
  passed : ∀ row ∈ newRows lib source peer cursor,
    passes peer (ListQuery.fixedArgs ⟨1,source.perPage,source.cursor⟩) row = true
  encoded : ∀ p ≥ 1, (∃ row ∈ window source peer p, isNew lib source peer cursor row = true) →
    ∀ row ∈ window source peer p, peer.encodable row = true
  sized : if "page" ∈ peer.fieldNames then
      (∀ row ∈ newRows lib source peer cursor, peer.eq "page" (toString (1:ℤ)) row = true) ∧
        (newRows lib source peer cursor).length ≤ served source
    else source.perPage ≤ 200 ∨ ((newRows lib source peer cursor).length : ℤ) ≤ 200*pageCount source peer

end Client

section Reading

variable {ρ : Type*} {lib : PullLib} {source : PullSource} {peer : Peer ρ} {cursor : String}

theorem served_pos : 1 ≤ served source := by
  simp only [served,clampSize]
  omega

theorem served_eq (h : 1 ≤ source.perPage) (hle : source.perPage ≤ 200) : (served source : ℤ) = source.perPage := by
  simp only [served,clampSize]
  omega

/-- `passes` of a list request: the fixed filters and the one on the page. -/
theorem passes_args (p : ℤ) (row : ρ) : passes peer (ListQuery.args ⟨p,source.perPage,source.cursor⟩) row = true ↔
    passes peer (ListQuery.fixedArgs ⟨1,source.perPage,source.cursor⟩) row = true ∧
      ("page" ∈ peer.fieldNames → peer.eq "page" (toString p) row = true) := by
  by_cases hpage : "page" ∈ peer.fieldNames
  · simp [passes,ListQuery.args,ListQuery.fixedArgs,hpage,and_comm]
  · simp [passes,ListQuery.args,ListQuery.fixedArgs,hpage]

theorem listRows_eq {p : ℕ} (hp : 1 ≤ p) : listRows peer ⟨p,source.perPage,source.cursor⟩ =
    if (window source peer p).all peer.encodable then
      some ⟨window source peer p,p,clampSize source.perPage,(matching source peer p).length⟩ else none := by
  have hmax : max 1 (p:ℤ) = p := by omega
  simp only [listRows,hmax,Int.toNat_natCast]
  rfl

theorem matching_nodup (p : ℕ) : (matching source peer p).Nodup := (peer.nodup _).filter _

theorem isNew_ok (h : Agrees lib source peer cursor) {row : ρ} (hrow : row ∈ peer.ordered (some cursor)) :
    greater lib source.cursorType (dig (peer.record row) cursor) source.watermark =
      .ok (isNew lib source peer cursor row) := by
  have hok : ∃ b, greater lib source.cursorType (dig (peer.record row) cursor) source.watermark = .ok b := by
    match hw : source.watermark with
    | none => exact ⟨true,rfl⟩
    | some w =>
      by_cases hblank : w = ""
      · subst hblank
        exact ⟨true,rfl⟩
      · obtain ⟨k,hk⟩ := h.keys row hrow
        obtain ⟨kw,hkw⟩ := h.mark w hw hblank
        cases hv : dig (peer.record row) cursor with
        | null => exact ⟨false,by simp [greater]⟩
        | _ =>
          rw [hv] at hk
          exact ⟨kw.lt k,by simp [greater,hk,hkw]⟩
  obtain ⟨b,hb⟩ := hok
  simp [isNew,hb]

theorem Key.not_lt_absent (k : Key) : k.lt .absent = false := by cases k <;> rfl

/-- In the order of the endpoint the newer rows come first. -/
theorem Agrees.initial (h : Agrees lib source peer cursor) :
    Initial (isNew lib source peer cursor) (peer.ordered (some cursor)) := by
  have hmem := h.order
  rw [List.pairwise_iff_forall_sublist] at hmem
  rw [Initial,List.pairwise_iff_forall_sublist]
  intro a b hsub hb
  have ha : a ∈ peer.ordered (some cursor) := hsub.subset (by simp)
  have hb' : b ∈ peer.ordered (some cursor) := hsub.subset (by simp)
  have hgb := isNew_ok h hb'
  rw [hb] at hgb
  have hga : greater lib source.cursorType (dig (peer.record a) cursor) source.watermark = .ok true := by
    match hw : source.watermark with
    | none => rfl
    | some w =>
      by_cases hblank : w = ""
      · subst hblank
        rfl
      · rw [hw,greater_eq_true hblank] at hgb
        obtain ⟨-,kb,kw,hkb,hkw,hlt⟩ := hgb
        obtain ⟨ka,hka⟩ := h.keys a ha
        have hup : kw.lt ka = true := by
          rcases hmem hsub ka kb hka hkb with heq | hless
          · exact heq ▸ hlt
          · exact Key.trans hlt hless
        refine (greater_eq_true hblank).mpr ⟨?_,ka,kw,hka,hkw,hup⟩
        intro hnull
        rw [hnull] at hka
        obtain rfl : Key.absent = ka := Except.ok.inj hka
        rw [Key.not_lt_absent] at hup
        cases hup
  rw [isNew_ok h ha] at hga
  exact Except.ok.inj hga

/-- `collect` on rows that compare. -/
theorem collect_eq (h : Agrees lib source peer cursor) {rows : List ρ}
    (hrows : ∀ row ∈ rows, row ∈ peer.ordered (some cursor)) : collect lib source peer rows =
      .ok (rows.takeWhile (isNew lib source peer cursor),!rows.all (isNew lib source peer cursor)) := by
  induction rows with
  | nil => rfl
  | cons row rows ih =>
    have hrest := ih fun r hr => hrows r (List.mem_cons_of_mem row hr)
    simp only [collect,h.set,isNew_ok h (hrows row List.mem_cons_self),hrest]
    cases hnew : isNew lib source peer cursor row with
    | false => simp [hnew]
    | true => simp [hnew,Except.map]

theorem window_subset (h : Agrees lib source peer cursor) {p : ℕ} :
    ∀ row ∈ window source peer p, row ∈ peer.ordered (some cursor) := by
  intro row hrow
  have hmem := (List.mem_filter.mp (mem_of_mem_page hrow)).1
  rwa [h.set] at hmem

/-- One request: where the loop ends and where it goes on. -/
theorem peerPages_succ (h : Agrees lib source peer cursor) {requests p : ℕ} (hp : 1 ≤ p) (collected : List ρ) :
    peerPages lib source peer (requests+1) p collected =
      if (window source peer p).all peer.encodable = false ∨ window source peer p = [] then some (.ok collected)
      else if (window source peer p).all (isNew lib source peer cursor) = false then
        some (.ok (collected ++ (window source peer p).takeWhile (isNew lib source peer cursor)))
      else if ((matching source peer p).length : ℤ) ≤ p*source.perPage then
        some (.ok (collected ++ window source peer p))
      else peerPages lib source peer requests (p+1) (collected ++ window source peer p) := by
  rw [peerPages,listRows_eq hp]
  cases henc : (window source peer p).all peer.encodable with
  | false => simp
  | true =>
    simp only [if_true,List.isEmpty_iff]
    by_cases hnil : window source peer p = []
    · simp [hnil]
    · rw [if_neg hnil,if_neg (by simpa using hnil),collect_eq h (window_subset h)]
      cases hnew : (window source peer p).all (isNew lib source peer cursor) with
      | false => simp
      | true =>
        have htake : (window source peer p).takeWhile (isNew lib source peer cursor) = window source peer p :=
          List.takeWhile_eq_self_iff.mpr (List.all_eq_true.mp hnew)
        simp [htake]

/-- The newer rows that pass the filters of the page are the first of these. -/
theorem matching_initial (h : Agrees lib source peer cursor) (p : ℕ) :
    Initial (isNew lib source peer cursor) (matching source peer p) := by
  have hsub : (matching source peer p).Sublist (peer.ordered (some cursor)) := by
    rw [← h.set]
    exact List.filter_sublist
  exact h.initial.sublist hsub

/-- A row of the result was on a page that was asked for. -/
theorem mem_peerPages (h : Agrees lib source peer cursor) {requests p : ℕ} (hp : 1 ≤ p) {collected result : List ρ}
    (hresult : peerPages lib source peer requests p collected = some (.ok result)) {row : ρ} (hrow : row ∈ result) :
    row ∈ collected ∨ ∃ q ≥ p, row ∈ window source peer q ∧ (∀ r ∈ window source peer q, peer.encodable r = true) ∧
      (q = p ∨ ((q:ℤ)-1)*source.perPage < (matching source peer (q-1)).length) := by
  induction requests generalizing p collected with
  | zero => cases hresult
  | succ requests ih =>
    rw [peerPages_succ h hp] at hresult
    split at hresult
    · obtain rfl := Except.ok.inj (Option.some.inj hresult)
      exact Or.inl hrow
    · rename_i hgo
      have henc : ∀ r ∈ window source peer p, peer.encodable r = true := by
        apply List.all_eq_true.mp
        by_contra hbad
        exact hgo (Or.inl (by simpa using hbad))
      split at hresult
      · obtain rfl := Except.ok.inj (Option.some.inj hresult)
        rcases List.mem_append.mp hrow with hrow | hrow
        · exact Or.inl hrow
        · exact Or.inr ⟨p,le_rfl,(List.takeWhile_sublist _).subset hrow,henc,Or.inl rfl⟩
      · split at hresult
        · obtain rfl := Except.ok.inj (Option.some.inj hresult)
          rcases List.mem_append.mp hrow with hrow | hrow
          · exact Or.inl hrow
          · exact Or.inr ⟨p,le_rfl,hrow,henc,Or.inl rfl⟩
        · rename_i htotal
          rcases ih (by omega) hresult with hcollected | ⟨q,hq,hwindow,hencq,hlast⟩
          · rcases List.mem_append.mp hcollected with hrow | hrow
            · exact Or.inl hrow
            · exact Or.inr ⟨p,le_rfl,hrow,henc,Or.inl rfl⟩
          · refine Or.inr ⟨q,by omega,hwindow,hencq,Or.inr ?_⟩
            rcases hlast with rfl | hlast
            · push_cast
              have hadd : (p:ℤ)+1-1 = p := by omega
              rw [hadd]
              omega
            · exact hlast

end Reading

end Pull
end Biggy
